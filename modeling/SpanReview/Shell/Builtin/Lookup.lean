import SpanReview.Shell.Builtin.Variables
import SpanReview.Shell.Grammar.Command
import SpanReview.Shell.Search

namespace SpanReview.Shell.Builtin

/-!
Builtins that tell what a name stands for.
-/

def names : List String :=
  [".", ":", "[", "alias", "bg", "break", "cd", "chdir", "command", "continue", "echo", "eval",
    "exec", "exit", "export", "false", "fg", "getopts", "hash", "jobs", "kill", "local", "printf",
    "pwd", "read", "readonly", "return", "set", "shift", "test", "times", "trap", "true", "type",
    "ulimit", "umask", "unalias", "unset", "wait"]

def aliasText (entry : String × String) : String :=
  entry.1 ++ "=" ++ quoted entry.2 ++ "\n"

def defineAliases (arguments : List String) : Run Unit := do
  finish 0
  if arguments.isEmpty then
    put ("".intercalate ((inBuckets 39 (·.1) (← get).aliases).map aliasText))
  else arguments.forM fun word => do
    let first := word.toList.take 1
    match cutAtEquals (String.ofList (word.toList.drop 1)) with
    | (rest, some value) =>
        let name := String.ofList first ++ rest
        modify fun machine =>
          let known := (machine.aliases.lookup name).isSome
          let update (entry : String × String) : String × String :=
            if entry.1 = name then (name, value) else entry
          { machine with
            aliases :=
              if known then machine.aliases.map update else machine.aliases ++ [(name, value)] }
    | (_, none) =>
        match (← get).aliases.lookup word with
        | some value => put (aliasText (word, value))
        | none =>
            complain ("alias: " ++ word ++ " not found\n")
            finish 1

def dropAliases (arguments : List String) : Run Unit := do
  let (letters, words) ← takeLetters "a" arguments
  finish 0
  if !letters.isEmpty then modify fun machine => { machine with aliases := [] }
  else words.forM fun word => do
    if ((← get).aliases.lookup word).isSome then
      modify fun machine =>
        { machine with aliases := machine.aliases.filter fun entry => entry.1 != word }
    else
      complain ("unalias: " ++ word ++ " not found\n")
      finish 1

/-- Says what a name stands for, in words or not; `searchPath` replaces that of the shell. -/
def describe (searchPath : Option String) (inWords : Bool) (name : String) : Run Bool := do
  let machine ← get
  let say (words : String) : Run Bool := do
    put (if inWords then name ++ words ++ "\n" else name ++ "\n")
    return true
  let found (how path : String) : Run Bool := do
    put (if inWords then name ++ " is" ++ how ++ " " ++ path ++ "\n" else path ++ "\n")
    return true
  let missing : Run Bool := do
    if inWords then put (name ++ ": not found\n")
    return false
  if Grammar.reserved.contains name then say " is a shell keyword"
  else
    match machine.aliases.lookup name with
    | some value =>
        if inWords then say (" is an alias for " ++ value)
        else
          put ("alias " ++ aliasText (name, value))
          return true
    | none =>
        if name.toList.contains '/' then
          if (machine.entryAt name).toOption.isSome then found "" name else missing
        else
          let tracked := machine.tracked.find? fun tracked => tracked.name == name
          match searchPath, tracked with
          | none, some tracked =>
              found " a tracked alias for" (machine.pathOf name tracked.index)
          | _, _ =>
              if searchPath.isNone && (machine.functions.lookup name).isSome then
                say " is a shell function"
              else if names.contains name then
                let kind := if specialBuiltins.contains name then "special " else ""
                say (" is a " ++ kind ++ "shell builtin")
              else
                match ← lookFor searchPath name with
                | .ok (index, _) =>
                    let path := (candidates (searchPath.getD machine.searchPath) name)[index]?
                    found "" (path.getD name)
                | .error _ => missing

def type (arguments : List String) : Run Unit := do
  let known ← arguments.mapM (describe none true)
  finish (if known.all id then 0 else 127)

def hash (arguments : List String) : Run Unit := do
  let (letters, words) ← takeLetters "r" arguments
  finish 0
  if !letters.isEmpty then modify fun machine => { machine with tracked := [] }
  else if words.isEmpty then
    let machine ← get
    put ("".intercalate ((inBuckets 31 (·.name) machine.tracked).map fun tracked =>
      machine.pathOf tracked.name tracked.index ++ (if tracked.isStale then "*" else "") ++ "\n"))
  else words.forM fun name => do
    let isOwn := ((← get).functions.lookup name).isSome || names.contains name
    if !name.toList.contains '/' && !isOwn then
      match ← lookFor none name with
      | .ok _ => pure ()
      | .error reason =>
          warn (name ++ ": " ++ reason)
          finish 1

def limits : List (Char × String × Option Nat) :=
  [ ('t', "time(seconds)", none), ('f', "file(blocks)", none), ('d', "data(kbytes)", none),
    ('s', "stack(kbytes)", some 8192), ('c', "coredump(blocks)", some 0),
    ('m', "memory(kbytes)", none), ('l', "locked memory(kbytes)", some 8192),
    ('p', "process", none), ('n', "nofiles", some 1048576), ('v', "vmemory(kbytes)", none),
    ('w', "locks", none), ('r', "rtprio", some 0) ]

def ulimit (arguments : List String) : Run Unit := do
  let (letters, words) ← takeLetters "HSatfdsmcnlpvwr" arguments
  let shown (limit : Option Nat) : String :=
    match limit with
    | some n => Text.natText n ++ "\n"
    | none => "unlimited\n"
  let letter := ((letters.filter fun c => c != 'H' && c != 'S').getLast?).getD 'f'
  finish 0
  if letter = 'a' ∧ words.isEmpty then
    put ("".intercalate (limits.map fun (_, name, limit) =>
      name ++ String.ofList (List.replicate (20 - name.length) ' ') ++ " " ++ shown limit))
  else
    match words with
    | [] => put (shown ((limits.lookup letter).bind (·.2)))
    | word :: rest =>
        if !rest.isEmpty || letter = 'a' then fail "too many arguments"
        else if word != "unlimited" && !word.toList.all Text.isDigit then fail "bad number"

end SpanReview.Shell.Builtin
