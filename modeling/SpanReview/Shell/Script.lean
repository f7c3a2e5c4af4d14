namespace SpanReview.Shell

/-!
Scripts of the shell. A word is a list of parts; what is quoted in it stands for itself
and is neither split nor taken as a pattern. Every command that may complain keeps the
line it stands on.
-/

/-- How a character of a word is written: bare, between quotes, or set off by itself so that
it can mean nothing else. -/
inductive Quoting where
  | bare
  | inside
  | escaped
  deriving DecidableEq, Repr

inductive Parameter where
  | named (name : String)
  | argument (index : Nat)
  | each
  | joined
  | count
  | status
  | options
  | process
  | background
  deriving DecidableEq, Repr

inductive Fallback where
  | use
  | assign
  | complain
  | replace
  deriving DecidableEq, Repr

inductive Side where
  | front
  | back
  deriving DecidableEq, Repr

inductive Access where
  | read
  | write
  | replace
  | append
  | update
  deriving DecidableEq, Repr

mutual

/-- A part of a word. `mark` stands where quotes are: a word is there even if nothing is
in them. -/
inductive Part where
  | char (quoting : Quoting) (c : Char)
  | mark
  | parameter (quoted : Bool) (parameter : Parameter) (reading : Reading)
  | output (quoted : Bool) (script : Command)
  | sum (quoted : Bool) (expression : List Part)
  | badSubstitution

inductive Reading where
  | value
  | length
  | fallback (kind : Fallback) (alsoEmpty : Bool) (word : List Part)
  | trimmed (side : Side) (longest : Bool) (pattern : List Part)

/-- What a descriptor is connected with. A document is known by its number among those of
the script. -/
inductive Target where
  | opened (access : Access) (name : List Part)
  | copied (descriptor : List Part)
  | document (index : Nat)

inductive Redirection where
  | mk (descriptor : Nat) (target : Target)

inductive Branch where
  | mk (patterns : List (List Part)) (body : Command)

inductive Command where
  | simple (line : Nat) (assignments : List (String × List Part)) (words : List (List Part))
      (redirections : List Redirection)
  | redirected (line : Nat) (body : Command) (redirections : List Redirection)
  | subshell (line : Nat) (body : Command) (redirections : List Redirection)
  | background (body : Command)
  | pipeline (stages : List Command)
  | negated (body : Command)
  | sequence (commands : List Command)
  | both (first second : Command)
  | either (first second : Command)
  | choice (test success : Command) (failure : Option Command)
  | loop (untilTrue : Bool) (test body : Command)
  | each (line : Nat) (name : String) (words : List (List Part)) (body : Command)
  | select (line : Nat) (word : List Part) (branches : List Branch)
  | define (line : Nat) (name : String) (body : Command)

end

abbrev Word := List Part

def Command.nothing : Command := .sequence []

def Command.ofList : List Command → Command
  | [command] => command
  | commands => .sequence commands

def eachArgument (quoted : Bool) : Part :=
  .parameter quoted .each .value

def isControl (c : Char) : Bool :=
  '\x81' ≤ c && c ≤ '\x88'

def isSpecial (c : Char) : Bool :=
  "!*?[=~:/-]\\".toList.contains c || isControl c

def Part.bare (c : Char) : Part :=
  .char (if isControl c then .escaped else .bare) c

def Part.inside (c : Char) : Part :=
  .char (if isSpecial c then .escaped else .inside) c

def Part.isBare (part : Part) (c : Char) : Bool :=
  match part with
  | .char .bare d => c == d
  | _ => false

def Word.literal? : Word → Option (List Char)
  | [] => some []
  | .char .bare c :: rest => (Word.literal? rest).map (c :: ·)
  | _ :: _ => none

def Word.ofText (text : String) : Word :=
  .mark :: text.toList.map Part.inside

/-- The characters of a word that has no expansions, and whether some of it is quoted. -/
def Word.unquoted : Word → List Char × Bool
  | [] => ([], false)
  | .char quoting c :: rest =>
      let (cs, more) := Word.unquoted rest
      (c :: cs, (quoting == .escaped && !isControl c) || more)
  | .mark :: rest => ((Word.unquoted rest).1, true)
  | _ :: rest => Word.unquoted rest

def specialBuiltins : List String :=
  [".", ":", "break", "continue", "eval", "exec", "exit", "export", "local", "readonly", "return",
    "set", "shift", "times", "trap", "unset"]

def isNameStart (c : Char) : Bool :=
  c.isAlpha || c == '_'

def isNameChar (c : Char) : Bool :=
  c.isAlphanum || c == '_'

def isName (name : List Char) : Bool :=
  match name with
  | [] => false
  | c :: rest => isNameStart c && rest.all isNameChar

end SpanReview.Shell
