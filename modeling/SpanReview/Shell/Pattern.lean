import SpanReview.Shell.Script

namespace SpanReview.Shell

/-!
Patterns. A star stands for any text, a question mark for one character, and brackets for
one of those in them; behind a backslash each character stands for itself.
-/

/-- The place of a character in the order of ranges, in which octets beyond ASCII come first. -/
def rangeOrder (c : Char) : Int :=
  if c.toNat < 128 then c.toNat else (c.toNat : Int) - 256

inductive Range where
  | between (low high : Char)
  | named (kind : String)
  deriving DecidableEq, Repr

inductive Item where
  | one (c : Char)
  | any
  | many
  | among (negated : Bool) (ranges : List Range)
  deriving DecidableEq, Repr

abbrev Pattern := List Item

def isPunctuation (c : Char) : Bool :=
  ' ' < c && c < '\x7f' && !c.isAlphanum

def kinds : List (String × (Char → Bool)) :=
  [ ("alnum", Char.isAlphanum),
    ("alpha", Char.isAlpha),
    ("blank", fun c => c == ' ' || c == '\t'),
    ("cntrl", fun c => c < ' ' || c == '\x7f'),
    ("digit", Char.isDigit),
    ("graph", fun c => isPunctuation c || c.isAlphanum),
    ("lower", Char.isLower),
    ("print", fun c => c == ' ' || isPunctuation c || c.isAlphanum),
    ("punct", isPunctuation),
    ("space", fun c => c == ' ' || ('\t' ≤ c && c ≤ '\r')),
    ("upper", Char.isUpper),
    ("xdigit", fun c => c.isDigit || ('a' ≤ c && c ≤ 'f') || ('A' ≤ c && c ≤ 'F')) ]

def Range.has (range : Range) (c : Char) : Bool :=
  match range with
  | .between low high => rangeOrder low ≤ rangeOrder c && rangeOrder c ≤ rangeOrder high
  | .named kind =>
      match kinds.lookup kind with
      | some fits => fits c
      | none => false

def Item.fits (item : Item) (c : Char) : Bool :=
  match item with
  | .one d => c == d
  | .among negated ranges => (ranges.any fun range => range.has c) != negated
  | _ => true

def kind? (cs : List Char) : Option (Range × List Char) :=
  kinds.findSome? fun (kind, _) =>
    let written := "[:".toList ++ kind.toList ++ ":]".toList
    if written.isPrefixOf cs then some (.named kind, cs.drop written.length) else none

def range? (cs : List Char) : Option (Range × List Char) := do
  let (low, rest) ←
    match cs with
    | '\\' :: c :: rest => some (c, rest)
    | ['\\'] => none
    | c :: rest => some (c, rest)
    | [] => none
  match rest with
  | '-' :: '\\' :: high :: rest => return (.between low high, rest)
  | '-' :: high :: others =>
      if high = ']' then return (.between low low, rest) else return (.between low high, others)
  | ['-'] => none
  | rest => return (.between low low, rest)

def ranges? : Nat → List Char → Option (List Range × List Char)
  | 0, _ => none
  | fuel + 1, cs => do
      let (range, rest) ← kind? cs <|> range? cs
      match rest with
      | ']' :: rest => return ([range], rest)
      | rest =>
          let (more, rest) ← ranges? fuel rest
          return (range :: more, rest)

def brackets? : List Char → Option (Item × List Char)
  | '!' :: rest => (ranges? rest.length rest).map fun (ranges, rest) => (.among true ranges, rest)
  | rest => (ranges? rest.length rest).map fun (ranges, rest) => (.among false ranges, rest)

def patternOf : Nat → List Char → Pattern
  | 0, _ => []
  | _, [] => []
  | fuel + 1, '*' :: rest => .many :: patternOf fuel rest
  | fuel + 1, '?' :: rest => .any :: patternOf fuel rest
  | fuel + 1, '\\' :: c :: rest => .one c :: patternOf fuel rest
  | fuel + 1, '[' :: rest =>
      match brackets? rest with
      | some (item, rest) => item :: patternOf fuel rest
      | none => .one '[' :: patternOf fuel rest
  | fuel + 1, c :: rest => .one c :: patternOf fuel rest

def Pattern.ofChars (cs : List Char) : Pattern :=
  patternOf cs.length cs

/-- Given which of its starts fit the text so far, tells which fit it with one character
more; `before` and `here` are about the start that is one item shorter. -/
def Pattern.step (c : Char) : (before here : Bool) → Pattern → List Bool → List Bool
  | before, here, item :: items, fitted :: others =>
      let fits := if item = .many then fitted || here else before && item.fits c
      fits :: Pattern.step c fitted fits items others
  | _, _, _, _ => []

def Pattern.fitEmpty (pattern : Pattern) : List Bool :=
  match pattern with
  | .many :: rest => true :: Pattern.fitEmpty rest
  | rest => rest.map fun _ => false

def Pattern.fitStarts (pattern : Pattern) (cs : List Char) : List Bool :=
  go true pattern.fitEmpty cs []
where
  /-- Goes on with a row of answers, those for the text so far being turned around. -/
  go (isEmpty : Bool) (row : List Bool) : List Char → List Bool → List Bool
    | [], sofar => (row.getLast?.getD isEmpty :: sofar).reverse
    | c :: rest, sofar =>
        go false (Pattern.step c isEmpty false pattern row) rest
          (row.getLast?.getD isEmpty :: sofar)

def Pattern.fits (pattern : Pattern) (cs : List Char) : Bool :=
  (pattern.fitStarts cs).getLast?.getD false

def Pattern.startLength? (pattern : Pattern) (longest : Bool) (cs : List Char) : Option Nat :=
  let answers := pattern.fitStarts cs
  if longest then
    (answers.reverse.findIdx? id).map fun index => cs.length - index
  else answers.findIdx? id

def Pattern.endLength? (pattern : Pattern) (longest : Bool) (cs : List Char) : Option Nat :=
  Pattern.startLength? pattern.reverse longest cs.reverse

end SpanReview.Shell
