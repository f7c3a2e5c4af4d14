import SpanReview.CommandLine.Basic
import SpanReview.Disk.Tree

namespace SpanReview.Program

/-!
The program on a real disk and terminal. The working directory and the places that the settings
name are read into a disk, what the run changes of it is written back, and lines are passed
between the terminal and a session.
-/

def isSkipped (name : String) : Bool :=
  name == ".git"

/-- Everything below some directory entries; what cannot be read is left out. -/
partial def readEntries (place : Location) (entries : Array IO.FS.DirEntry) :
    IO (List (Location × Entry)) := do
  let mut found := []
  for entry in entries do
    let below := place ++ [entry.fileName]
    if isSkipped entry.fileName then continue
    if ← entry.path.isDir then
      let inside ← readEntries below (← entry.path.readDir)
      found := found ++ (below, .directory) :: inside
    else
      try
        let content ← IO.FS.readBinFile entry.path
        found := found ++ [(below, .file content)]
      catch _ => pure ()
  return found

def pathOf (place : Location) : Path :=
  "/" ++ "/".intercalate place

def readPlace (place : Location) : IO (List (Location × Entry)) := do
  let path := (← IO.currentDir) / pathOf place
  if ← path.isDir then
    return (place, .directory) :: (← readEntries place (← path.readDir))
  try
    return [(place, .file (← IO.FS.readBinFile path))]
  catch _ => return []

def readWay (place : Location) : IO (List (Location × Entry)) := do
  let here ← IO.currentDir
  let found ← (Disk.placesAbove place).filterM fun above => (here / pathOf above).isDir
  return found.map fun above => (above, .directory)

/-- The disk as far as it lies at or below the working directory or some paths. -/
def readDisk (paths : List Path) : IO Disk := do
  let here := Path.names (← IO.currentDir).toString
  let blank : Disk := { Disk.empty with workingDirectory := here }
  let places := (here :: paths.map blank.target).eraseDups
  let outermost := places.filter fun place =>
    !places.any fun other => other != place && other.isPrefixOf place
  let ways ← outermost.mapM readWay
  let trees ← outermost.mapM readPlace
  return { blank with entries := ways.flatten.eraseDupsBy (·.1 == ·.1) ++ trees.flatten }

def readDiskFor (invocation : Invocation) : IO Disk := do
  let disk ← readDisk [invocation.config]
  match invocation.settings disk with
  | .error _ => return disk
  | .ok settings => readDisk [invocation.config, settings.casesDir, settings.fixtureRoot]

def writeChanges (before after : Disk) : IO Unit := do
  for (place, entry) in after.entries.reverse do
    match entry, before.entry? place with
    | .directory, some .directory => pure ()
    | .directory, _ => IO.FS.createDirAll (pathOf place)
    | .file content, some (.file old) =>
        if content != old then IO.FS.writeBinFile (pathOf place) content
    | .file content, _ =>
        IO.FS.createDirAll (pathOf place.dropLast)
        IO.FS.writeBinFile (pathOf place) content
  for (place, entry) in before.entries do
    match entry, after.entry? place with
    | .file _, none => IO.FS.removeFile (pathOf place)
    | _, _ => pure ()

def conclude (finished : Finished Unit) : IO UInt32 := do
  if let some message := finished.message? then
    (← IO.getStderr).putStrLn ("Error: " ++ message)
  return finished.exitCode.toUInt32

def display (text : String) : IO Unit := do
  let output ← IO.getStdout
  output.putStr text
  output.flush

def takeOutput (stepping : CommandLine.Stepping Unit) : CommandLine.Stepping Unit :=
  { stepping with session := { stepping.session with output := "" } }

/-- Writes what the session changed, shows what it has to say, then passes it the next line. -/
partial def converse (before : Disk) (stepping : CommandLine.Stepping Unit) : IO UInt32 := do
  writeChanges before stepping.session.world.disk
  display stepping.session.output
  let shown := takeOutput stepping
  let line ← if stepping.isOver then pure "" else (← IO.getStdin).getLine
  if line.isEmpty then
    let finished := shown.finish
    writeChanges shown.session.world.disk finished.disk
    conclude finished
  else converse shown.session.world.disk (shown.feed (Session.lineOf line.toList))

def usage : String :=
  "usage: locfix [--config P] [--cases-dir P] [--fixture-root P] [--repo-url U] [--branch B]\n" ++
  "              [--command C] SUBCOMMAND\n" ++
  "  step [STAGE] [-f FILE]             step through tokens and edit their expected locations\n" ++
  "  list [STAGE] [-f text|json]        list the case files of a stage\n" ++
  "  check [STAGE] [-f text|json]       compare every case file of a stage with its fixture\n"

def start (arguments : List String) : IO UInt32 := do
  match Invocation.parse arguments with
  | .error .help =>
      display usage
      return 0
  | .error e =>
      (← IO.getStderr).putStr usage
      return e.exitCode.toUInt32
  | .ok invocation =>
      let disk ← readDiskFor invocation
      let color ← (← IO.getStdout).isTty
      match CommandLine.begin Shell.programs invocation color ⟨disk, ()⟩ with
      | .finished finished =>
          display finished.output
          writeChanges disk finished.disk
          conclude finished
      | .stepping stepping => converse disk stepping

end SpanReview.Program

def main (arguments : List String) : IO UInt32 := do
  try
    SpanReview.Program.start arguments
  catch _ =>
    (← IO.getStderr).putStrLn "Error: IO error"
    return 2
