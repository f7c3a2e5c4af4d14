import SpanReview.Path

namespace SpanReview

/-!
The file system as a value: files and directories by their place, without links. An operation
that fails says what stands in its way.
-/

abbrev Location := List String

inductive Entry where
  | file (content : ByteArray)
  | directory

inductive Request where
  | makeDirectory (place : Location)
  | write (place : Location)
  | rename (source target : Location)
  deriving DecidableEq, Repr

/-- A disk may deny a request, a write also after some of its bytes have arrived. -/
inductive Denial where
  | atOnce
  | after (bytes : Nat)
  deriving DecidableEq, Repr

inductive Fault where
  | missing
  | notDirectory
  | isDirectory
  | nameTooLong
  | invalidPath
  | occupied
  | notText
  | denied
  deriving DecidableEq, Repr

/-- Paths that are not absolute are followed from the working directory. -/
structure Disk where
  entries : List (Location × Entry)
  workingDirectory : Location := []
  denial? : Request → Option Denial := fun _ => none

namespace Disk

def empty : Disk := { entries := [] }

def entry? (disk : Disk) (place : Location) : Option Entry :=
  match place with
  | [] => some .directory
  | place => disk.entries.lookup place

def erase (disk : Disk) (place : Location) : Disk :=
  { disk with entries := disk.entries.filter fun entry => entry.1 != place }

def set (disk : Disk) (place : Location) (entry : Entry) : Disk :=
  { disk with entries := (place, entry) :: (disk.erase place).entries }

def isDirectoryAt (disk : Disk) (place : Location) : Bool :=
  match disk.entry? place with
  | some .directory => true
  | _ => false

def maxNameBytes : Nat := 255

def maxPathBytes : Nat := 4095

def flaw? (path : Path) : Option Fault :=
  if path.toList.contains '\x00' then some .invalidPath
  else if maxPathBytes < path.utf8ByteSize then some .nameTooLong
  else none

/-- Follows names from a place. Each step is taken from a directory that exists; the last
place may be free. A step up from the root stays there. -/
def descend (disk : Disk) (place : Location) : List String → Except Fault Location
  | [] => .ok place
  | name :: rest =>
      match disk.entry? place with
      | none => .error .missing
      | some (.file _) => .error .notDirectory
      | some .directory =>
          if name == ".." then disk.descend place.dropLast rest
          else if maxNameBytes < name.utf8ByteSize then .error .nameTooLong
          else disk.descend (place ++ [name]) rest

def origin (disk : Disk) (path : Path) : Location :=
  if path.isAbsolute then [] else disk.workingDirectory

def stepTo (place : Location) (name : String) : Location :=
  if name == ".." then place.dropLast else place ++ [name]

/-- The place that names lead to, whether or not a disk lets them be followed there. -/
def follow (place : Location) (names : List String) : Location :=
  names.foldl stepTo place

def target (disk : Disk) (path : Path) : Location :=
  follow (disk.origin path) path.names

def locate (disk : Disk) (path : Path) : Except Fault Location :=
  match flaw? path with
  | some fault => .error fault
  | none =>
      if path == "" then .error .missing else disk.descend (disk.origin path) path.names

def find (disk : Disk) (path : Path) : Except Fault Entry :=
  match disk.locate path with
  | .error fault => .error fault
  | .ok place =>
      match disk.entry? place with
      | none => .error .missing
      | some .directory => .ok .directory
      | some (.file content) =>
          if path.endsAtDirectory then .error .notDirectory else .ok (.file content)

def isDirectory (disk : Disk) (path : Path) : Bool :=
  match disk.find path with
  | .ok .directory => true
  | _ => false

def readBytes (disk : Disk) (path : Path) : Except Fault ByteArray :=
  match disk.find path with
  | .ok (.file content) => .ok content
  | .ok .directory => .error .isDirectory
  | .error fault => .error fault

def readText (disk : Disk) (path : Path) : Except Fault String :=
  match disk.readBytes path with
  | .ok content =>
      match String.fromUTF8? content with
      | some text => .ok text
      | none => .error .notText
  | .error fault => .error fault

def list (disk : Disk) (path : Path) : Except Fault (List (String × Entry)) :=
  match disk.locate path with
  | .error fault => .error fault
  | .ok place =>
      match disk.entry? place with
      | none => .error .missing
      | some (.file _) => .error .notDirectory
      | some .directory =>
          .ok (disk.entries.filterMap fun (other, entry) =>
            match other.getLast? with
            | some name => if other.dropLast == place then some (name, entry) else none
            | none => none)

def makeDirectory (disk : Disk) (path : Path) : Except Fault Unit × Disk :=
  match disk.locate path with
  | .error fault => (.error fault, disk)
  | .ok place =>
      match disk.entry? place with
      | some _ => (.error .occupied, disk)
      | none =>
          match disk.denial? (.makeDirectory place) with
          | some _ => (.error .denied, disk)
          | none => (.ok (), disk.set place .directory)

/-- Makes the first of some directories, and before it those of the others that are missing;
each stands in the one listed after it. -/
def makeDirectoriesUp (disk : Disk) : List Path → Except Fault Unit × Disk
  | [] => (.ok (), disk)
  | path :: above =>
      let settle : Except Fault Unit × Disk → Except Fault Unit × Disk
        | (.ok (), disk) => (.ok (), disk)
        | (.error fault, disk) =>
            if disk.isDirectory path then (.ok (), disk) else (.error fault, disk)
      match disk.makeDirectory path with
      | (.error .missing, disk) =>
          match disk.makeDirectoriesUp above with
          | (.ok (), disk) => settle (disk.makeDirectory path)
          | failed => failed
      | outcome => settle outcome

def makeDirectoriesFor (disk : Disk) (path : Path) : Except Fault Unit × Disk :=
  disk.makeDirectoriesUp path.directoriesAbove

def write (disk : Disk) (path : Path) (content : ByteArray) : Except Fault Unit × Disk :=
  match disk.locate path with
  | .error fault => (.error fault, disk)
  | .ok place =>
      if disk.isDirectoryAt place || path.endsAtDirectory then (.error .isDirectory, disk)
      else
        match disk.denial? (.write place) with
        | some .atOnce => (.error .denied, disk)
        | some (.after bytes) => (.error .denied, disk.set place (.file (content.extract 0 bytes)))
        | none => (.ok (), disk.set place (.file content))

def writeText (disk : Disk) (path : Path) (text : String) : Except Fault Unit × Disk :=
  disk.write path text.toUTF8

/-- Moves a file, over a file that is there but not over a directory. -/
def rename (disk : Disk) (source target : Path) : Except Fault Unit × Disk :=
  match disk.locate source, disk.locate target with
  | .ok fromPlace, .ok toPlace =>
      match disk.entry? fromPlace with
      | none => (.error .missing, disk)
      | some .directory => (.error .isDirectory, disk)
      | some (.file content) =>
          if disk.isDirectoryAt toPlace then (.error .isDirectory, disk)
          else
            match disk.denial? (.rename fromPlace toPlace) with
            | some _ => (.error .denied, disk)
            | none => (.ok (), (disk.erase fromPlace).set toPlace (.file content))
  | .error fault, _ => (.error fault, disk)
  | _, .error fault => (.error fault, disk)

end Disk

end SpanReview
