import SpanReview.Span.Basic

namespace SpanReview

/-!
The lines of one source text, and the positions inside it.
-/

/-- Cuts a text after each line feed, carriage return or pair of both. -/
def splitLines : List Char → List (List Char)
  | [] => [[]]
  | '\r' :: '\n' :: rest => [] :: splitLines rest
  | '\r' :: rest => [] :: splitLines rest
  | '\n' :: rest => [] :: splitLines rest
  | c :: rest =>
      match splitLines rest with
      | line :: lines => (c :: line) :: lines
      | [] => [[c]]

theorem splitLines_ne_nil (cs : List Char) : splitLines cs ≠ [] := by
  fun_cases splitLines cs <;> simp

/-- At least one line, with the length of each in characters. -/
structure LineTable where
  lines : Array String
  lengths : Array Nat
  lengths_eq : lengths = lines.map String.length
  size_pos : 0 < lines.size

namespace LineTable

def ofText (text : String) : LineTable where
  lines := ((splitLines text.toList).map String.ofList).toArray
  lengths := (((splitLines text.toList).map String.ofList).toArray).map String.length
  lengths_eq := rfl
  size_pos := by
    have := List.length_pos_iff.2 (splitLines_ne_nil text.toList)
    simpa using this

theorem size_lengths (table : LineTable) : table.lengths.size = table.lines.size := by
  rw [table.lengths_eq, Array.size_map]

def lineCount (table : LineTable) : Int :=
  table.lines.size

theorem lineCount_pos (table : LineTable) : 1 ≤ table.lineCount := by
  have := table.size_pos
  unfold lineCount
  omega

def clamp (low high n : Int) : Int :=
  max low (min high n)

def clampLine (table : LineTable) (line : Int) : Int :=
  clamp 1 table.lineCount line

theorem one_le_clampLine (table : LineTable) (line : Int) : 1 ≤ table.clampLine line := by
  unfold clampLine clamp
  omega

theorem clampLine_le (table : LineTable) (line : Int) : table.clampLine line ≤ table.lineCount := by
  have := table.lineCount_pos
  unfold clampLine clamp
  omega

def line? (table : LineTable) (line : Int) : Option String :=
  if line < 1 then none else table.lines[(line - 1).toNat]?

def lineLen (table : LineTable) (line : Int) : Int :=
  have : (table.clampLine line - 1).toNat < table.lengths.size := by
    have := table.one_le_clampLine line
    have := table.clampLine_le line
    have := table.size_lengths
    unfold lineCount at *
    omega
  (table.lengths[(table.clampLine line - 1).toNat] : Nat)

theorem lineLen_nonneg (table : LineTable) (line : Int) : 0 ≤ table.lineLen line :=
  Int.natCast_nonneg _

/-- A column may stand one past the end of its line. -/
def clampColumn (table : LineTable) (line column : Int) : Int :=
  clamp 1 (table.lineLen line + 1) column

def clampPos (table : LineTable) (pos : Pos) : Pos :=
  ⟨table.clampLine pos.line, table.clampColumn (table.clampLine pos.line) pos.column⟩

end LineTable

end SpanReview
