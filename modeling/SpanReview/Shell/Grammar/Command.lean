import SpanReview.Shell.Grammar.Token

namespace SpanReview.Shell.Grammar

/-!
The commands of a script. Each function reads one construct and is given `body`, which
reads the lists of commands inside it; the depth to which lists are nested bounds the
whole.
-/

/-- Where a list of commands stands: on a line of its own, in a construct that needs at
least one command, or in one that needs none. -/
inductive Kind where
  | line
  | body
  | optional
  deriving DecidableEq, Repr

def reserved : List String :=
  ["!", "case", "do", "done", "elif", "else", "esac", "fi", "for", "if", "in", "then", "until",
    "while", "\x7b", "\x7d"]

def Token.is (token : Token) (text : String) : Bool :=
  match token with
  | .operator found => found == text
  | .keyword found => found == text
  | _ => false

def Token.endsList : Token → Bool
  | .ending => true
  | .operator text => text == ")" || text == ";;"
  | .keyword text => ["do", "done", "elif", "else", "esac", "fi", "then", "\x7d"].contains text
  | _ => false

def Token.withKeyword : Token → Token
  | .word parts =>
      match Word.literal? parts with
      | some text =>
          let text := String.ofList text
          if reserved.contains text then .keyword text else .word parts
      | none => .word parts
  | found => found

section

variable (body : Kind → Parse Command)

def scriptOf (closed : Bool) : Parse Command := do
  let command ← body .optional
  if closed then
    let found ← token (fun _ => body .optional) .word
    if found.is ")" then return command else unexpected found (some (Token.quotedName ")"))
  else return command

structure Look where
  takesReserved : Bool
  takesAliases : Bool

def Look.plain : Look := ⟨false, false⟩

def Look.reserved : Look := ⟨true, false⟩

def Look.aliases : Look := ⟨false, true⟩

def Look.command : Look := ⟨true, true⟩

/-- The text that stands for a word. The text of an alias under way is not taken again. -/
def Reader.alias? (reader : Reader) (word : Word) : Option (String × String) := do
  let name ← Word.literal? word
  let found ← reader.aliases.find? fun entry => entry.1.toList == name
  if reader.underWay.any fun replacement => replacement.name == found.1 then none
  else some found

/-- Whether the text of an alias that invites another one ended since only so many
characters were left. -/
def Reader.leftBlank (reader : Reader) (before : Nat) : Bool :=
  let left := reader.rest.length
  reader.replacements.any fun replacement =>
    replacement.endsBlank && left < replacement.left && replacement.left ≤ before

def Reader.replace (reader : Reader) (name value : String) : Reader :=
  let last := value.toList.getLast?
  let endsBlank := last == some ' ' || last == some '\t'
  { reader with
    rest := value.toList ++ reader.rest
    replacements := ⟨name, reader.rest.length, endsBlank, value.isEmpty⟩ :: reader.underWay }

def nextFrom (newlines : Bool) : Nat → Look → Parse Token
  | 0, _ => mistake .tooDeep
  | fuel + 1, look => do
      let before ← get
      let found ← token (scriptOf body) .word
      match found, (if look.takesReserved then found.withKeyword else found) with
      | .newline, _ => if newlines then nextFrom newlines fuel look else return .newline
      | _, .word parts =>
          let reader ← get
          if reader.aliases.isEmpty then return .word parts
          else
            let aliases := look.takesAliases || reader.leftBlank before.rest.length
            match if aliases then reader.alias? parts else none with
            | some (name, value) =>
                set (reader.replace name value)
                nextFrom newlines fuel { look with takesAliases := aliases }
            | none => return .word parts
      | _, found => return found

def next (newlines : Bool) (look : Look) : Parse Token := do
  nextFrom body newlines readLimit look

def expect (newlines : Bool) (text : String) : Parse Unit := do
  let found ← next body newlines (if newlines then .command else .plain)
  if found.is text then return else unexpected found (some (Token.quotedName text))

def awaitDocument (delimiter : Word) (stripsTabs : Bool) : Parse Target := do
  let (text, isLiteral) := Word.unquoted delimiter
  let reader ← get
  let index := reader.documents.size
  set { reader with
    documents := reader.documents.push []
    awaited := reader.awaited ++ [Awaited.mk index text isLiteral stripsTabs] }
  return .document index

def redirection (descriptor : Nat) (arrow : Arrow) : Parse Redirection := do
  let mode := match arrow with
    | .document _ => Mode.delimiter
    | _ => Mode.word
  let awaited := (← get).awaited
  modify fun reader => { reader with awaited := [] }
  let found ← token (scriptOf body) mode
  modify fun reader => { reader with awaited := awaited }
  match found with
  | .word word =>
      match arrow with
      | .opened access => return .mk descriptor (.opened access word)
      | .copied => return .mk descriptor (.copied word)
      | .document stripsTabs => return .mk descriptor (← awaitDocument word stripsTabs)
  | found => unexpected found none

def redirectionsFrom : Nat → Look → Parse (List Redirection)
  | 0, _ => return []
  | fuel + 1, look => do
      match ← next body false look with
      | .redirection descriptor arrow =>
          let first ← redirection body descriptor arrow
          return first :: (← redirectionsFrom fuel .plain)
      | found =>
          push found
          return []

def redirections : Parse (List Redirection) := do
  redirectionsFrom body readLimit .command

def assignment? (word : Word) : Option (String × Word) :=
  let name := word.takeWhile fun part =>
    match part with
    | .char .bare c => isNameChar c
    | _ => false
  match Word.literal? name, word.drop name.length with
  | some text, .char .bare '=' :: value =>
      if isName text then some (String.ofList text, value) else none
  | _, _ => none

structure Gathered where
  assignments : List (String × Word)
  words : List Word
  redirections : List Redirection

def Gathered.command (gathered : Gathered) (line : Nat) : Command :=
  .simple line gathered.assignments.reverse gathered.words.reverse gathered.redirections.reverse

def definition (again : Parse Command) (name : Word) : Parse Command := do
  let found ← token (scriptOf body) .word
  if found.is ")" then
    match Word.literal? name with
    | some text =>
        let name := String.ofList text
        if isName text && !specialBuiltins.contains name then
          let line := (← get).line
          return .define line name (← again)
        else mistake .badFunctionName
    | none => mistake .badFunctionName
  else unexpected found (some (Token.quotedName ")"))

def simpleFrom (again : Parse Command) (line : Nat) : Nat → Gathered → Parse Command
  | 0, _ => mistake .tooDeep
  | fuel + 1, gathered => do
      match ← next body false (if gathered.words.isEmpty then .aliases else .plain) with
      | .word word =>
          match gathered.words, assignment? word with
          | [], some assignment =>
              simpleFrom again line fuel
                { gathered with assignments := assignment :: gathered.assignments }
          | words, _ => simpleFrom again line fuel { gathered with words := word :: words }
      | .redirection descriptor arrow =>
          let found ← redirection body descriptor arrow
          simpleFrom again line fuel
            { gathered with redirections := found :: gathered.redirections }
      | found =>
          match found.is "(", gathered with
          | true, ⟨[], [name], []⟩ => definition body again name
          | _, _ =>
              push found
              return gathered.command line

def simple (again : Parse Command) : Parse Command := do
  let reader ← get
  simpleFrom body again reader.line readLimit ⟨[], [], []⟩

def choiceFrom : Nat → Parse Command
  | 0 => mistake .tooDeep
  | fuel + 1 => do
      let test ← body .body
      expect body false "then"
      let success ← body .body
      let found ← next body false .plain
      if found.is "elif" then return .choice test success (some (← choiceFrom fuel))
      else if found.is "else" then return .choice test success (some (← body .body))
      else
        push found
        return .choice test success none

def choice : Parse Command := do
  let found ← choiceFrom body readLimit
  expect body false "fi"
  return found

def loop (untilTrue : Bool) : Parse Command := do
  let test ← body .body
  expect body false "do"
  let inside ← body .body
  expect body false "done"
  return .loop untilTrue test inside

def loopWords : Nat → Parse (List Word)
  | 0 => mistake .tooDeep
  | fuel + 1 => do
      match ← next body false .plain with
      | .word word => return word :: (← loopWords fuel)
      | .newline => return []
      | found => if found.is ";" then return [] else unexpected found none

def loopName : Parse String := do
  match ← next body false .plain with
  | .word word =>
      match Word.literal? word with
      | some text => if isName text then return String.ofList text else mistake .badLoopVariable
      | none => mistake .badLoopVariable
  | _ => mistake .badLoopVariable

def eachLoop (line : Nat) : Parse Command := do
  let name ← loopName body
  let found ← next body true .command
  let words ←
    if found.is "in" then loopWords body readLimit
    else do
      if !found.is ";" then push found
      pure [[eachArgument true]]
  expect body true "do"
  let inside ← body .body
  expect body false "done"
  return .each line name words inside

def Token.pattern : Token → Word
  | .word parts => parts
  | .keyword text => text.toList.map .bare
  | _ => []

def morePatterns : Nat → Parse (List Word)
  | 0 => mistake .tooDeep
  | fuel + 1 => do
      let found ← next body false .plain
      if found.is "|" then
        let pattern := (← next body false .plain).pattern
        return pattern :: (← morePatterns fuel)
      else if found.is ")" then return []
      else unexpected found (some (Token.quotedName ")"))

def branchesFrom : Nat → Parse (List Branch)
  | 0 => mistake .tooDeep
  | fuel + 1 => do
      let found ← next body true .reserved
      if found.is "esac" then return []
      else
        let first ← if found.is "(" then next body false .plain else pure found
        let others ← morePatterns body readLimit
        let branch : Branch := ⟨first.pattern :: others, ← body .optional⟩
        let found ← next body true .reserved
        if found.is "esac" then return [branch]
        else if found.is ";;" then return branch :: (← branchesFrom fuel)
        else unexpected found (some (Token.quotedName ";;"))

def selection (line : Nat) : Parse Command := do
  match ← next body false .plain with
  | .word word =>
      expect body true "in"
      return .select line word (← branchesFrom body readLimit)
  | found => unexpected found (some "word")

def enclosed (closing : String) : Parse Command := do
  let inside ← body .body
  expect body false closing
  return inside

/-- A command with the redirections behind it. A subshell has one list of them: what stands behind
braces around nothing but a subshell is taken instead of its own. -/
def redirected (line : Nat) (command : Command) : Parse Command := do
  match ← redirections body with
  | [] => return command
  | found =>
      match command with
      | .subshell line inside _ => return .subshell line inside found
      | command => return .redirected line command found

def command : Nat → Bool → Parse Command
  | 0, _ => mistake .tooDeep
  | fuel + 1, newlines => do
      let line := (← get).line
      let found ← next body newlines .command
      match found with
      | .word _ =>
          push found
          simple body (command fuel true)
      | .redirection _ _ =>
          push found
          simple body (command fuel true)
      | .operator "(" => redirected body line (.subshell line (← enclosed body ")") [])
      | .keyword "\x7b" => redirected body line (← enclosed body "\x7d")
      | .keyword "if" => redirected body line (← choice body)
      | .keyword "while" => redirected body line (← loop body false)
      | .keyword "until" => redirected body line (← loop body true)
      | .keyword "for" => redirected body line (← eachLoop body line)
      | .keyword "case" => redirected body line (← selection body line)
      | found => unexpected found none

def oneCommand (newlines : Bool) : Parse Command := do
  command body readLimit newlines

def moreStages : Nat → Parse (List Command)
  | 0 => mistake .tooDeep
  | fuel + 1 => do
      let found ← next body false .plain
      if found.is "|" then
        let stage ← oneCommand body true
        return stage :: (← moreStages fuel)
      else
        push found
        return []

def pipeline (newlines : Bool) : Parse Command := do
  let found ← next body newlines .command
  let negated := found.is "!"
  if !negated then push found
  let first ← oneCommand body false
  let others ← moreStages body readLimit
  let stages := match others with
    | [] => first
    | others => .pipeline (first :: others)
  return if negated then .negated stages else stages

def conditionalFrom : Nat → Command → Parse Command
  | 0, _ => mistake .tooDeep
  | fuel + 1, first => do
      let found ← next body false .plain
      if found.is "&&" then conditionalFrom fuel (.both first (← pipeline body true))
      else if found.is "||" then conditionalFrom fuel (.either first (← pipeline body true))
      else
        push found
        return first

def conditional : Parse Command := do
  let first ← pipeline body false
  conditionalFrom body readLimit first

/-- Whether a list of a kind may end before a command, having some already or not. -/
def Kind.mayEnd (kind : Kind) (hasSome : Bool) : Bool :=
  match kind with
  | .line => false
  | .body => hasSome
  | .optional => true

def listFrom (kind : Kind) : Nat → List Command → Parse Command
  | 0, _ => mistake .tooDeep
  | fuel + 1, sofar => do
      let finished : Command := .ofList sofar.reverse
      let found ← next body (kind != .line) .command
      match found with
      | .newline => return finished
      | .ending =>
          push found
          return finished
      | _ =>
          push found
          if kind.mayEnd (!sofar.isEmpty) && found.endsList then return finished
          else
            let command ← conditional body
            let found ← next body false .plain
            let command := if found.is "&" then .background command else command
            let sofar := command :: sofar
            if found.is "&" || found.is ";" then listFrom kind fuel sofar
            else
              match found with
              | .newline =>
                  push found
                  listFrom kind fuel sofar
              | .ending =>
                  push found
                  listFrom kind fuel sofar
              | _ =>
                  if kind = .line then unexpected found none
                  else
                    push found
                    return .ofList sofar.reverse

def list (kind : Kind) : Parse Command := do
  listFrom body kind readLimit []

end

def listWithin : Nat → Kind → Parse Command
  | 0, _ => mistake .tooDeep
  | depth + 1, kind => list (listWithin depth) kind

def Reader.ofText (text : String) (line : Nat) (documents : Array Word) : Reader :=
  ⟨text.toList, line, false, documents, [], none, [], []⟩

def promptWord : Parse Word :=
  word (scriptOf (listWithin readLimit)) (.document none)

def nextCommand : Parse (Option Command) := do
  let lists := listWithin readLimit
  match ← next lists false .command with
  | .ending => return none
  | .newline => return some .nothing
  | found =>
      push found
      return some (← lists .line)

end SpanReview.Shell.Grammar
