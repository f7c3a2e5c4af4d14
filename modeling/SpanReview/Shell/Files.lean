import SpanReview.Disk.Tree
import SpanReview.Text.Octets

namespace SpanReview.Shell

/-!
What programs share: the files by their places, and those that are open. Programs that run
one after another share open files, and with them the place up to which each was read or
written.
-/

/-- Files that are no text. One takes all that is written to it, one has no room, one is
there but cannot be opened. -/
inductive Device where
  | nothing
  | full
  | terminal
  deriving DecidableEq, Repr

/-- A stream gives out, in order, what was written to it. `chunks` are its parts, the latest
first; `room` is how much may still be written if that is bounded, and `isCut` tells that a
writer was stopped because there was no more. Nothing is written once the process that is to
read it is dead. -/
structure Stream where
  chunks : List ByteArray
  position : Nat
  room : Option Nat
  isCut : Bool
  reader : Option Nat

/-- What a descriptor can stand for, and whether it is there to be read and to be written. -/
inductive OpenFile where
  | stream (number : Nat) (reads writes : Bool)
  | file (place : Location) (position : Nat) (reads writes appends : Bool)
  | directory
  | device (device : Device) (reads writes : Bool)

inductive WriteFault where
  | notOpen
  | noSpace
  | noReader
  deriving DecidableEq, Repr

/-- What all programs share: the disk, the files around it, the streams and the open files by
their numbers, the signals that were sent to a process, how many processes there were, those
that run, those that a signal has ended, and the streams that ended too early for their
readers. -/
structure World where
  disk : Disk
  outside : Disk
  streams : Array Stream
  files : Array OpenFile
  sent : List (Nat × Nat)
  processes : Nat
  running : List Nat
  dead : List Nat
  starved : List Nat

namespace Stream

def ofBytes (bytes : ByteArray) : Stream :=
  ⟨[bytes], 0, none, false, none⟩

def pipe (room reader : Option Nat) : Stream :=
  { ofBytes ByteArray.empty with room := room, reader := reader }

def content (stream : Stream) : ByteArray :=
  match stream.chunks with
  | [] => ByteArray.empty
  | [bytes] => bytes
  | chunks => chunks.foldr (fun chunk before => before ++ chunk) ByteArray.empty

def write (stream : Stream) (bytes : ByteArray) : Bool × Stream :=
  match stream.room with
  | none => (true, { stream with chunks := bytes :: stream.chunks })
  | some room =>
      let taken := bytes.extract 0 room
      let fits := decide (bytes.size ≤ room)
      (fits,
        { stream with
          chunks := taken :: stream.chunks
          room := some (room - taken.size)
          isCut := stream.isCut || !fits })

end Stream

def outsideDirectories : List Path :=
  ["bin", "boot", "dev", "dev/pts", "dev/shm", "etc", "home", "lib", "lib64", "media", "mnt", "opt",
    "proc", "root", "run", "sbin", "srv", "sys", "tmp", "usr", "usr/bin", "usr/games",
    "usr/include", "usr/lib", "usr/local", "usr/local/bin", "usr/local/sbin", "usr/sbin",
    "usr/share", "usr/src", "var", "var/backups", "var/cache", "var/lib", "var/local", "var/log",
    "var/mail", "var/spool", "var/tmp"]

def programNames : List String :=
  ["cat", "dash", "echo", "false", "printf", "sh", "true"]

def deviceNames : List (String × Device) :=
  [("null", .nothing), ("full", .full), ("tty", .terminal)]

def programDirectories : List Location :=
  [["usr", "bin"], ["bin"]]

def outsideFiles : Disk :=
  let directories := outsideDirectories.map fun path => (Path.names path, Entry.directory)
  let programs := programDirectories.flatMap fun place =>
    programNames.map fun name => (place ++ [name], Entry.file ByteArray.empty)
  let devices := deviceNames.map fun (name, _) => (["dev", name], Entry.file ByteArray.empty)
  Disk.empty.installAll (directories ++ programs ++ devices)

def isProgram (place : Location) : Bool :=
  match place.getLast? with
  | some name => programDirectories.contains place.dropLast && programNames.contains name
  | none => false

def device? (place : Location) : Option Device :=
  match place with
  | ["dev", name] => deviceNames.lookup name
  | _ => none

/-- The bytes with others put over them from a place on, zeros up to it if need be. -/
def overwrite (content : ByteArray) (position : Nat) (bytes : ByteArray) : ByteArray :=
  let gap : ByteArray := ⟨Array.replicate (position - content.size) 0⟩
  content.extract 0 position ++ gap ++ bytes ++
    content.extract (position + bytes.size) content.size

namespace World

def home (world : World) : Location :=
  world.disk.workingDirectory

def isInner (world : World) (place : Location) : Bool :=
  world.home.isPrefixOf place

def entry? (world : World) (place : Location) : Option Entry :=
  if world.isInner place then world.disk.entry? place
  else (world.outside.entry? place).or (world.disk.entry? place)

/-- Follows names from a place. Each step is taken from a directory that exists; the last
place may be free. -/
def descend (world : World) (place : Location) : List String → Except Fault Location
  | [] => .ok place
  | name :: rest =>
      match world.entry? place with
      | none => .error .missing
      | some (.file _) => .error .notDirectory
      | some .directory =>
          if name == ".." then world.descend place.dropLast rest
          else if Disk.maxNameBytes < name.utf8ByteSize then .error .nameTooLong
          else world.descend (place ++ [name]) rest

/-- The place that a path of octets leads to from a directory. A name that is not UTF-8 is
one that no file has. -/
def locate (world : World) (directory : Location) (path : String) : Except Fault Location :=
  match Text.ofOctets? path with
  | none => .error .missing
  | some path =>
      match Disk.flaw? path with
      | some fault => .error fault
      | none =>
          if path == "" then .error .missing
          else world.descend (if Path.isAbsolute path then [] else directory) (Path.names path)

def find (world : World) (directory : Location) (path : String) :
    Except Fault (Location × Entry) := do
  let place ← world.locate directory path
  match world.entry? place with
  | none => .error .missing
  | some .directory => .ok (place, .directory)
  | some (.file content) =>
      if Path.endsAtDirectory path then .error .notDirectory else .ok (place, .file content)

def contentAt (world : World) (place : Location) : ByteArray :=
  match world.entry? place with
  | some (.file content) => content
  | _ => ByteArray.empty

def put (world : World) (place : Location) (content : ByteArray) : Except Fault Unit × World :=
  if world.isInner place then
    let (done, disk) := world.disk.write ("/".intercalate (place.drop world.home.length)) content
    (done, { world with disk := disk })
  else
    let (done, outside) := world.outside.write ("/".intercalate place) content
    (done, { world with outside := outside })

def namesIn (world : World) (place : Location) : List String :=
  let inside (disk : Disk) : List String :=
    disk.entries.filterMap fun (other, _) =>
      if !other.isEmpty && other.dropLast == place then other.getLast? else none
  if world.isInner place then inside world.disk
  else
    let below := if world.home.dropLast == place then world.home.getLast?.toList else []
    below ++ inside world.outside

def addFile (world : World) (file : OpenFile) : Nat × World :=
  (world.files.size, { world with files := world.files.push file })

def addStream (world : World) (stream : Stream) : Nat × World :=
  (world.streams.size, { world with streams := world.streams.push stream })

def file (world : World) (index : Nat) : OpenFile :=
  world.files.getD index (.device .nothing false false)

def stream (world : World) (number : Nat) : Stream :=
  world.streams.getD number (.ofBytes ByteArray.empty)

def replace (world : World) (index : Nat) (file : OpenFile) : World :=
  { world with files := world.files.setIfInBounds index file }

def replaceStream (world : World) (number : Nat) (stream : Stream) : World :=
  { world with streams := world.streams.setIfInBounds number stream }

def source (world : World) (index : Nat) : Except Fault (ByteArray × Nat) :=
  match world.file index with
  | .stream number true _ =>
      let stream := world.stream number
      .ok (stream.content, stream.position)
  | .file place position true _ _ => .ok (world.contentAt place, position)
  | .directory => .error .isDirectory
  | .device _ true _ => .ok (ByteArray.empty, 0)
  | _ => .error .denied

/-- Takes what an open file holds up to a place as read. A stream that was cut short has no
more to give. -/
def readTo (world : World) (index : Nat) (content : ByteArray) (position : Nat)
    (wantsMore : Bool) : World :=
  match world.file index with
  | .stream number true _ =>
      let stream := world.stream number
      let world := world.replaceStream number
        { stream with chunks := [content], position := position }
      if wantsMore && stream.isCut then { world with starved := number :: world.starved } else world
  | .file place _ true writes appends =>
      world.replace index (.file place position true writes appends)
  | _ => world

def readAll (world : World) (index : Nat) : Except Fault ByteArray × World :=
  match world.source index with
  | .ok (content, position) =>
      (.ok (content.extract position content.size),
        world.readTo index content (max position content.size) true)
  | .error fault => (.error fault, world)

def write (world : World) (index : Nat) (bytes : ByteArray) : Option WriteFault × World :=
  match world.file index with
  | .stream number _ true =>
      let stream := world.stream number
      if stream.reader.any world.dead.contains then (some .noReader, world)
      else
        let (done, stream) := stream.write bytes
        (if done then none else some .noReader, world.replaceStream number stream)
  | .file place position reads true appends =>
      let content := world.contentAt place
      let start := if appends then content.size else position
      match world.put place (overwrite content start bytes) with
      | (.ok (), world) =>
          (none, world.replace index (.file place (start + bytes.size) reads true appends))
      | (.error _, world) => (some .notOpen, world)
  | .device .nothing _ true => (none, world)
  | .device _ _ true => (some .noSpace, world)
  | _ => (some .notOpen, world)

def send (world : World) (process signal : Nat) : World :=
  { world with sent := world.sent ++ [(process, signal)] }

def written (world : World) (number : Nat) : ByteArray :=
  (world.stream number).content

end World

end SpanReview.Shell
