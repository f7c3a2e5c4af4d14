import SpanReview.Text.Blank

namespace SpanReview

/-!
Paths as text. A path is read as names between slashes; empty names and single dots say
nothing, and two dots name no file.
-/

abbrev Path := String

namespace Path

def isAbsolute (path : Path) : Bool :=
  path.toList.head? == some '/'

def parts (path : Path) : List String :=
  (path.toList.splitOn '/').map String.ofList

def names (path : Path) : List String :=
  path.parts.filter fun part => part != "" && part != "."

/-- A path that ends like this stands for a directory only. -/
def endsAtDirectory (path : Path) : Bool :=
  path.parts.getLast? == some "" || path.parts.getLast? == some "."

/-- An absolute part takes the place of the path; any other is set off by a slash. -/
def join (path part : Path) : Path :=
  if part.isAbsolute then part
  else if path == "" || path.toList.getLast? == some '/' then path ++ part
  else path ++ "/" ++ part

def fileName? (path : Path) : Option String :=
  path.names.getLast?.bind fun name => if name == ".." then none else some name

def cutAtDot (name : String) : Option (String × String) :=
  let cs := name.toList
  let extension := (cs.reverse.takeWhile (· != '.')).reverse
  let stem := ((cs.reverse.dropWhile (· != '.')).drop 1).reverse
  if stem.isEmpty then none else some (String.ofList stem, String.ofList extension)

def fileStem? (path : Path) : Option String :=
  path.fileName?.map fun name =>
    match cutAtDot name with
    | some (stem, _) => stem
    | none => name

def stemOrSelf (path : Path) : String :=
  path.fileStem?.getD path

/-- Drops, from a path written backwards, what only says that it is a directory. -/
def dropDirectoryMarks : List Char → List Char
  | '/' :: rest => dropDirectoryMarks rest
  | '.' :: '/' :: rest => dropDirectoryMarks rest
  | rest => rest

def parent (path : Path) : Path :=
  let name := path.names.getLast?.getD ""
  let before := (dropDirectoryMarks path.toList.reverse).drop name.length
  String.ofList (dropDirectoryMarks before).reverse

def parents (path : Path) : Nat → List Path
  | 0 => []
  | count + 1 => path.parent :: path.parent.parents count

def directoriesAbove (path : Path) : List Path :=
  path.parents (path.names.length - 1)

def withExtension (path : Path) (extension : String) : Path :=
  match path.fileName?, path.fileStem? with
  | some name, some stem =>
      let before := (dropDirectoryMarks path.toList.reverse).drop name.length
      String.ofList before.reverse ++ stem ++ "." ++ extension
  | _, _ => path

end Path

end SpanReview
