import SpanReview.Disk.Basic

namespace SpanReview.Disk

/-!
Whole trees: putting entries and removing them without asking the disk, and the list of
what is there. Places are given by the names from the working directory.
-/

def placesAbove (place : Location) : List Location :=
  (List.range place.length).tail.map place.take

def install (disk : Disk) (names : List String) (entry : Entry) : Disk :=
  let place := disk.workingDirectory ++ names
  let disk := (placesAbove place).foldl
    (fun disk above => if disk.isDirectoryAt above then disk else disk.set above .directory) disk
  match entry with
  | .directory => if disk.isDirectoryAt place then disk else disk.set place .directory
  | .file content => disk.set place (.file content)

def removeTree (disk : Disk) (names : List String) : Disk :=
  let place := disk.workingDirectory ++ names
  { disk with entries := disk.entries.filter fun entry => !place.isPrefixOf entry.1 }

def installAll (disk : Disk) (entries : List (Location × Entry)) : Disk :=
  entries.foldl (fun disk (names, entry) => disk.install names entry) disk

/-- Where a working directory is put whose own place is not known. -/
def workPlace : Location := ["tmp", "work"]

def ofEntries (entries : List (Location × Entry)) : Disk :=
  let disk : Disk := { Disk.empty with workingDirectory := workPlace }
  (disk.install [] .directory).installAll entries

def isLeaf (disk : Disk) (place : Location) : Bool :=
  disk.entries.all fun entry => entry.1.dropLast != place

/-- Every file below the working directory, and every directory there with nothing in it. -/
def leaves (disk : Disk) : List (Location × Entry) :=
  let here := disk.workingDirectory
  disk.entries.filterMap fun (place, entry) =>
    if !here.isPrefixOf place || place == here then none
    else
      match entry with
      | .file _ => some (place.drop here.length, entry)
      | .directory => if disk.isLeaf place then some (place.drop here.length, entry) else none

end SpanReview.Disk
