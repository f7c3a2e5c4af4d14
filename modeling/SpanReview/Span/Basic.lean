import SpanReview.Text.Decimal

namespace SpanReview

/-!
Positions and spans in a source text. Lines and columns count from one; a column may
stand one past the last character of its line.
-/

structure Pos where
  line : Int
  column : Int
  deriving DecidableEq, Repr, Inhabited

namespace Pos

def le (p q : Pos) : Prop :=
  p.line < q.line ∨ (p.line = q.line ∧ p.column ≤ q.column)

instance : LE Pos := ⟨Pos.le⟩

theorem le_def (p q : Pos) :
    p ≤ q ↔ p.line < q.line ∨ (p.line = q.line ∧ p.column ≤ q.column) := Iff.rfl

instance (p q : Pos) : Decidable (p ≤ q) :=
  inferInstanceAs (Decidable (p.line < q.line ∨ (p.line = q.line ∧ p.column ≤ q.column)))

end Pos

inductive Endpoint where
  | start
  | finish
  deriving DecidableEq, Repr

structure Span where
  filename : String
  start : Pos
  finish : Pos
  deriving DecidableEq, Repr, Inhabited

namespace Span

/-- Stands where no span is expected yet. -/
def sentinel : Span := ⟨"??", ⟨-1, -1⟩, ⟨-1, -1⟩⟩

def isSentinel (span : Span) : Bool :=
  span == sentinel

/-- Every line and column is at least one. -/
def isResolved (span : Span) : Bool :=
  1 ≤ span.start.line && 1 ≤ span.start.column && 1 ≤ span.finish.line && 1 ≤ span.finish.column

def isOrdered (span : Span) : Bool :=
  span.start ≤ span.finish

def get (span : Span) : Endpoint → Pos
  | .start => span.start
  | .finish => span.finish

def set (span : Span) (pos : Pos) : Endpoint → Span
  | .start => { span with start := pos }
  | .finish => { span with finish := pos }

def showNumber (n : Int) : String :=
  if n = -1 then "??" else Text.intText n

def describe (span : Span) : String :=
  showNumber span.start.line ++ ":" ++ showNumber span.start.column ++ " to " ++
    showNumber span.finish.line ++ ":" ++ showNumber span.finish.column

end Span

end SpanReview
