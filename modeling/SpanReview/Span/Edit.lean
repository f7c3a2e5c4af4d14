import SpanReview.Span.LineTable

namespace SpanReview.LineTable

/-!
Edits of a span inside a text: placing an endpoint, moving it character by character,
and fitting a whole span into the text.
-/

def setLineStart (table : LineTable) (span : Span) (endpoint : Endpoint) (line : Int) : Span :=
  span.set ⟨table.clampLine line, 1⟩ endpoint

def setPos (table : LineTable) (span : Span) (endpoint : Endpoint) (pos : Pos) : Span :=
  span.set (table.clampPos pos) endpoint

def stepForward (table : LineTable) (pos : Pos) : Pos :=
  if pos.column < table.lineLen pos.line + 1 then ⟨pos.line, pos.column + 1⟩
  else if pos.line < table.lineCount then ⟨pos.line + 1, 1⟩
  else pos

def stepBack (table : LineTable) (pos : Pos) : Pos :=
  if 1 < pos.column then ⟨pos.line, pos.column - 1⟩
  else if 1 < pos.line then ⟨pos.line - 1, table.lineLen (pos.line - 1) + 1⟩
  else pos

def stepMany (step : Pos → Pos) : Nat → Pos → Pos
  | 0, pos => pos
  | count + 1, pos => if step pos = pos then pos else stepMany step count (step pos)

def movePos (table : LineTable) (pos : Pos) (amount : Int) : Pos :=
  stepMany (if 0 < amount then table.stepForward else table.stepBack) amount.natAbs pos

/-- Moves an endpoint by `amount` characters. The other endpoint is taken along if the
two would pass each other. -/
def moveEndpoint (table : LineTable) (span : Span) (endpoint : Endpoint) (amount : Int) : Span :=
  let pos := table.movePos (table.clampPos (span.get endpoint)) amount
  let moved := span.set pos endpoint
  if moved.isOrdered then moved else (moved.set pos .start).set pos .finish

/-- Fits the positions of `reference` into the text, starting no higher than `minLine`. -/
def fixEndpoints (table : LineTable) (filename : String) (reference : Span) (minLine : Int) :
    Span :=
  let floor := max minLine 1
  let start :=
    if reference.start.line < floor then ⟨table.clampLine floor, 1⟩
    else table.clampPos reference.start
  let finish :=
    if start.line ≤ reference.finish.line then table.clampPos reference.finish else start
  let finish :=
    if start.line = finish.line ∧ finish.column < start.column then ⟨finish.line, start.column⟩
    else finish
  ⟨filename, start, finish⟩

end SpanReview.LineTable
