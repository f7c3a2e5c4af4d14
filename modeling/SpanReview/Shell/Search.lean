import SpanReview.Shell.Machine

namespace SpanReview.Shell

/-!
Looking for programs. A name with a slash is the path of one; any other is looked for in the
directories of a search path.
-/

def defaultSearchPath : String :=
  "/usr/local/sbin:/usr/local/bin:/usr/sbin:/usr/bin:/sbin:/bin"

def Machine.searchPath (machine : Machine) : String :=
  (machine.valueOf? "PATH").getD ""

/-- The paths at which a name is looked for; an empty directory is the working directory. -/
def candidates (searchPath name : String) : List String :=
  (searchPath.toList.splitOn ':').map fun directory =>
    if directory.isEmpty then name else String.ofList directory ++ "/" ++ name

/-- Why a path is none of a program that can be run; none if it simply is not there. -/
def Machine.hindrance? (machine : Machine) (path : String) : Except (Option String) Location :=
  match machine.entryAt path with
  | .ok (place, .file _) =>
      if isProgram place then .ok place else .error (some "Permission denied")
  | .ok (_, .directory) => .error (some "Permission denied")
  | .error .nameTooLong => .error (some "File name too long")
  | .error _ => .error none

/-- The first of the paths that can be run, by its number and its place, or what is wrong with
the last one that is there. -/
def Machine.firstOf (machine : Machine) : (index : Nat) → (reason : Option String) →
    List String → Except (Option String) (Nat × Location)
  | _, reason, [] => .error reason
  | index, reason, path :: rest =>
      match machine.hindrance? path with
      | .ok place => .ok (index, place)
      | .error hindrance => machine.firstOf (index + 1) (hindrance.or reason) rest

/-- How a program was looked for: its place, or why it cannot be run with the status that
says so. -/
abbrev Search := Except (String × Nat) Location

def track (name : String) (index : Nat) : Run Unit :=
  modify fun machine =>
    let known := machine.tracked.any fun tracked => tracked.name == name
    let entry : Tracked := ⟨name, index, false⟩
    let update (tracked : Tracked) : Tracked := if tracked.name == name then entry else tracked
    { machine with
      tracked := if known then machine.tracked.map update else machine.tracked ++ [entry] }

def untrack (name : String) : Run Unit :=
  modify fun machine =>
    { machine with tracked := machine.tracked.filter fun tracked => tracked.name != name }

def lookFor (searchPath : Option String) (name : String) : Run (Except String (Nat × Location)) := do
  let machine ← get
  let paths := candidates (searchPath.getD machine.searchPath) name
  match machine.firstOf 0 none paths with
  | .ok (index, place) =>
      if searchPath.isNone then track name index
      return .ok (index, place)
  | .error reason =>
      if searchPath.isNone then untrack name
      return .error (reason.getD "not found")

def findProgram (searchPath : Option String) (name : String) : Run Search := do
  if name.toList.contains '/' then
    match (← get).hindrance? name with
    | .ok place => return .ok place
    | .error none => return .error ("not found", 127)
    | .error (some reason) =>
        return .error (reason, if reason = "Permission denied" then 126 else 127)
  else
    match ← lookFor searchPath name with
    | .ok (_, place) => return .ok place
    | .error reason => return .error (reason, 127)

/-- The program that a shell is replaced by. What cannot be run is told from what is not
there. -/
def findReplacement (name : String) : Run Search := do
  let machine ← get
  let paths := if name.toList.contains '/' then [name] else candidates machine.searchPath name
  match machine.firstOf 0 none paths with
  | .ok (_, place) => return .ok place
  | .error none => return .error ("not found", 127)
  | .error (some reason) =>
      return .error (reason, if reason = "Permission denied" then 126 else 127)

def Machine.pathOf (machine : Machine) (name : String) (index : Nat) : String :=
  ((candidates machine.searchPath name)[index]?).getD name

def bucket (count : Nat) (name : String) : Nat :=
  let codes := name.toList.map Char.toNat
  (16 * codes.head?.getD 0 + codes.foldl (· + ·) 0) % count

def inBuckets (count : Nat) (name : α → String) (entries : List α) : List α :=
  (List.range count).flatMap fun number =>
    entries.filter fun entry => bucket count (name entry) == number

end SpanReview.Shell
