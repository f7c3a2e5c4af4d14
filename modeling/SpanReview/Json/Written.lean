import SpanReview.Json.Token

namespace SpanReview.Json

/-!
A document as it is written: members in the order of the text, repeated keys kept,
numerals and strings not yet read. Containers may nest to any depth.
-/

inductive Written where
  | null
  | bool (value : Bool)
  | number (value : Numeral)
  | string (value : List Piece)
  | array (items : List Written)
  | object (members : List (List Piece × Written))
  deriving Inhabited

/-- A container that is still open, its parts latest first. -/
inductive Frame where
  | array (items : List Written)
  | object (members : List (List Piece × Written))
  | member (members : List (List Piece × Written)) (key : List Piece)

inductive Expected where
  | value
  | itemOrEnd
  | memberOrEnd
  | key
  | colon (key : List Piece)
  | next

structure Reader where
  stack : List Frame
  expected : Expected
  root : Option Written

namespace Reader

def start : Reader := ⟨[], .value, none⟩

/-- Puts a finished value where it belongs. -/
def accept (reader : Reader) (value : Written) : Option Reader :=
  match reader.stack with
  | [] => some ⟨[], .next, some value⟩
  | .array items :: below => some ⟨.array (value :: items) :: below, .next, none⟩
  | .member members key :: below => some ⟨.object ((key, value) :: members) :: below, .next, none⟩
  | .object _ :: _ => none

def openFrame (reader : Reader) (frame : Frame) (expected : Expected) : Reader :=
  ⟨frame :: reader.stack, expected, none⟩

def startValue (reader : Reader) : Token → Option Reader
  | .null => reader.accept .null
  | .bool value => reader.accept (.bool value)
  | .number value => reader.accept (.number value)
  | .string value => reader.accept (.string value)
  | .openArray => some (reader.openFrame (.array []) .itemOrEnd)
  | .openObject => some (reader.openFrame (.object []) .memberOrEnd)
  | _ => none

def continue? (reader : Reader) : Token → Option Reader
  | .comma =>
      match reader.stack with
      | .array _ :: _ => some { reader with expected := .value }
      | .object _ :: _ => some { reader with expected := .key }
      | _ => none
  | .closeArray =>
      match reader.stack with
      | .array items :: below => { reader with stack := below }.accept (.array items.reverse)
      | _ => none
  | .closeObject =>
      match reader.stack with
      | .object members :: below => { reader with stack := below }.accept (.object members.reverse)
      | _ => none
  | _ => none

def step (reader : Reader) (token : Token) : Option Reader :=
  match reader.expected with
  | .value => reader.startValue token
  | .itemOrEnd =>
      match token with
      | .closeArray => reader.continue? .closeArray
      | other => reader.startValue other
  | .memberOrEnd =>
      match token with
      | .closeObject => reader.continue? .closeObject
      | .string key => some { reader with expected := .colon key }
      | _ => none
  | .key =>
      match token with
      | .string key => some { reader with expected := .colon key }
      | _ => none
  | .colon key =>
      match token, reader.stack with
      | .colon, .object members :: below => some ⟨.member members key :: below, .value, none⟩
      | _, _ => none
  | .next => reader.continue? token

def run (reader : Reader) : List Token → Option Reader
  | [] => some reader
  | token :: rest => (reader.step token).bind fun next => next.run rest

def finish (reader : Reader) : Option Written :=
  if reader.stack.isEmpty then reader.root else none

end Reader

namespace Written

def ofTokens? (tokens : List Token) : Option Written :=
  (Reader.start.run tokens).bind Reader.finish

def parse? (text : String) : Option Written :=
  (Token.scan? text.toList).bind ofTokens?

end Written

end SpanReview.Json
