import SpanReview.Node.Basic

namespace SpanReview

/-!
Reading the location that a token or node reports. Every part of it may be missing or
unusable; such a part takes its default.
-/

structure LocationDefaults where
  line : Int
  column : Int
  deriving DecidableEq, Repr

namespace LocationDefaults

def first : LocationDefaults := ⟨1, 1⟩

/-- A line or column is an integer of at least one. -/
def number? (loc : Option Json) (endpoint field : String) : Option Int :=
  ((loc.bind (·.get? endpoint)).bind (·.get? field)).bind fun value =>
    value.int?.bind fun n => if 1 ≤ n then some n else none

def filename? (loc : Option Json) : Option String :=
  (loc.bind (·.get? "filename")).bind Json.string?

def spanOf (defaults : LocationDefaults) (value : Json) (file : String) : Span :=
  let loc := value.get? "loc"
  ⟨(filename? loc).getD file,
    ⟨(number? loc "start" "line").getD defaults.line,
      (number? loc "start" "column").getD defaults.column⟩,
    ⟨(number? loc "end" "line").getD defaults.line,
      (number? loc "end" "column").getD defaults.column⟩⟩

def nodeOf (defaults : LocationDefaults) (file : String) (value : Json) : Node :=
  ⟨(value.get? "type").bind Json.string?, defaults.spanOf value file, value⟩

def nodesOfTokens (defaults : LocationDefaults) (value : Json) (file : String) :
    Except NodeError (List Node) :=
  match value.array? with
  | some items => .ok (items.map (defaults.nodeOf file))
  | none => .error (.notTokens file value.noun)

end LocationDefaults

end SpanReview
