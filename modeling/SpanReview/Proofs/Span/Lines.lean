import SpanReview.Proofs.Span.Inside
import SpanReview.Proofs.Text.Split

namespace SpanReview

/-! The lines of a text are what stands between its line ends, and any two numbers, however large
or small, are clamped to a position in it. -/

/-- A carriage return with a line feed after it is dropped. -/
def dropPairedReturns : List Char → List Char
  | '\r' :: '\n' :: rest => '\n' :: dropPairedReturns rest
  | c :: rest => c :: dropPairedReturns rest
  | [] => []

/-- The text with a line feed for each line end: for the pairs first, then for each return that
is left. -/
def unifyLineEnds (cs : List Char) : List Char :=
  (dropPairedReturns cs).map fun c => if c = '\r' then '\n' else c

theorem unifyLineEnds_pair (rest : List Char) :
    unifyLineEnds ('\r' :: '\n' :: rest) = '\n' :: unifyLineEnds rest := rfl

theorem unifyLineEnds_return {rest : List Char} (hpair : ∀ more, rest ≠ '\n' :: more) :
    unifyLineEnds ('\r' :: rest) = '\n' :: unifyLineEnds rest := by
  have hkept : dropPairedReturns ('\r' :: rest) = '\r' :: dropPairedReturns rest := by
    rw [dropPairedReturns]
    exact fun more _ => hpair more
  rw [unifyLineEnds, hkept, List.map_cons, if_pos rfl, unifyLineEnds]

theorem unifyLineEnds_other {c : Char} (hreturn : c ≠ '\r') (rest : List Char) :
    unifyLineEnds (c :: rest) = c :: unifyLineEnds rest := by
  have hkept : dropPairedReturns (c :: rest) = c :: dropPairedReturns rest := by
    rw [dropPairedReturns]
    exact fun _ hc => absurd hc hreturn
  rw [unifyLineEnds, hkept, List.map_cons, if_neg hreturn, unifyLineEnds]

theorem return_not_mem_unifyLineEnds (cs : List Char) : '\r' ∉ unifyLineEnds cs := by
  intro h
  obtain ⟨c, _, hc⟩ := List.mem_map.mp h
  split at hc
  · cases hc
  · contradiction

theorem splitOn_feed (rest : List Char) :
    ('\n' :: rest).splitOn '\n' = [] :: rest.splitOn '\n' :=
  List.splitOn_append_cons_self [] rest

theorem splitLines_eq_splitOn (cs : List Char) :
    splitLines cs = (unifyLineEnds cs).splitOn '\n' := by
  fun_induction splitLines cs with
  | case1 => rfl
  | case2 rest ih => rw [unifyLineEnds_pair, splitOn_feed, ih]
  | case3 rest hpair ih => rw [unifyLineEnds_return hpair, splitOn_feed, ih]
  | case4 rest ih => rw [unifyLineEnds_other (by decide), splitOn_feed, ih]
  | case5 c rest _ hreturn hfeed line lines hlines ih =>
      rw [unifyLineEnds_other hreturn, List.splitOn_cons_eq_if_modifyHead, ← ih, hlines,
        if_neg (by simpa using hfeed)]
      rfl
  | case6 c rest _ _ _ hnil ih => exact absurd hnil (splitLines_ne_nil rest)

theorem noLineEnd_of_mem_splitLines {cs line : List Char} (h : line ∈ splitLines cs) :
    '\r' ∉ line ∧ '\n' ∉ line := by
  rw [splitLines_eq_splitOn] at h
  exact ⟨fun hmem => return_not_mem_unifyLineEnds cs (Text.subset_of_mem_splitOn h hmem),
    Text.not_mem_of_mem_splitOn h⟩

namespace LineTable

variable {table : LineTable} {pos : Pos}

theorem toList_lines_ofText (text : String) :
    (ofText text).lines.toList = ((unifyLineEnds text.toList).splitOn '\n').map String.ofList := by
  rw [ofText, List.toList_toArray, splitLines_eq_splitOn]

theorem noLineEnd_of_mem_lines {text line : String} (h : line ∈ (ofText text).lines) :
    '\r' ∉ line.toList ∧ '\n' ∉ line.toList := by
  obtain ⟨cs, hcs, rfl⟩ : ∃ cs ∈ splitLines text.toList, String.ofList cs = line := by
    simpa [ofText] using h
  rw [String.toList_ofList]
  exact noLineEnd_of_mem_splitLines hcs

theorem line?_clampLine (table : LineTable) (line : Int) :
    ∃ text, table.line? (table.clampLine line) = some text ∧ table.lineLen line = text.length := by
  have hfirst := table.one_le_clampLine line
  have hlast := table.clampLine_le line
  unfold lineCount at hlast
  have hlt : (table.clampLine line - 1).toNat < table.lines.size := by omega
  refine ⟨table.lines[(table.clampLine line - 1).toNat], ?_, ?_⟩
  · rw [line?, if_neg (by omega), Array.getElem?_eq_getElem hlt]
  · simp [lineLen, table.lengths_eq]

theorem clampPos_eq_self_iff : table.clampPos pos = pos ↔ table.Contains pos :=
  ⟨fun h => h ▸ contains_clampPos table pos, clampPos_of_contains⟩

/-! Clamping as it is done in words: nothing comes of it if a number does not fit, if there is no
length at an index, or if the bounds of a clamp are not in order. -/

def clamp? (low high n : Int) : Option Int :=
  if low ≤ high then some (clamp low high n) else none

def lineCount? (table : LineTable) : Option Int :=
  Text.word? table.lengths.size

def clampLine? (table : LineTable) (line : Int) : Option Int := do
  clamp? 1 (← table.lineCount?) line

def lineLen? (table : LineTable) (line : Int) : Option Int := do
  let index ← Text.word? ((← table.clampLine? line) - 1)
  let length ← if 0 ≤ index then table.lengths[index.toNat]? else none
  Text.word? length

def clampColumn? (table : LineTable) (line column : Int) : Option Int := do
  clamp? 1 (← Text.word? ((← table.lineLen? line) + 1)) column

def clampPos? (table : LineTable) (pos : Pos) : Option Pos := do
  let line ← table.clampLine? pos.line
  return ⟨line, ← table.clampColumn? line pos.column⟩

/-- A table whose lines can be counted, and the characters of each line and one more. -/
structure Countable (table : LineTable) : Prop where
  lineCount : table.lineCount ≤ Text.maxWord
  lineLen : ∀ line, table.lineLen line < Text.maxWord

theorem countable_ofText {text : String} (h : (text.length : Int) < Text.maxWord) :
    (ofText text).Countable where
  lineCount := by
    have hcount := lineCount_ofText_le text
    omega
  lineLen line := Int.lt_of_le_of_lt (lineLen_ofText_le text line) h

theorem word?_of_nonneg {n : Int} (hpos : 0 ≤ n) (hmax : n ≤ Text.maxWord) :
    Text.word? n = some n := by
  refine Text.word?_of_fitsWord (Text.fitsWord_iff.mpr ⟨?_, hmax⟩)
  unfold Text.minWord
  omega

namespace Countable

theorem clampLine? (h : table.Countable) (line : Int) :
    table.clampLine? line = some (table.clampLine line) := by
  have hpos := table.lineCount_pos
  have hcount : table.lineCount? = some table.lineCount := by
    rw [lineCount?, table.size_lengths]
    exact word?_of_nonneg (Int.natCast_nonneg _) h.lineCount
  rw [LineTable.clampLine?, hcount, Option.bind_eq_bind, Option.bind_some, clamp?, if_pos hpos]
  rfl

theorem lineLen? (h : table.Countable) (line : Int) :
    table.lineLen? line = some (table.lineLen line) := by
  have hfirst := table.one_le_clampLine line
  have hlast := table.clampLine_le line
  have hmax := h.lineCount
  have hindex : Text.word? (table.clampLine line - 1) = some (table.clampLine line - 1) :=
    word?_of_nonneg (by omega) (by omega)
  have hlt : (table.clampLine line - 1).toNat < table.lengths.size := by
    rw [table.size_lengths]
    unfold LineTable.lineCount at hlast
    omega
  simp only [LineTable.lineLen?, h.clampLine? line, hindex, Option.bind_eq_bind, Option.bind_some]
  rw [if_pos (by omega), Array.getElem?_eq_getElem hlt, Option.bind_some]
  change Text.word? (table.lineLen line) = _
  exact word?_of_nonneg (table.lineLen_nonneg line) (Int.le_of_lt (h.lineLen line))

theorem clampColumn? (h : table.Countable) (line column : Int) :
    table.clampColumn? line column = some (table.clampColumn line column) := by
  have hlen := table.lineLen_nonneg line
  have hmax := h.lineLen line
  have hend : Text.word? (table.lineLen line + 1) = some (table.lineLen line + 1) :=
    word?_of_nonneg (by omega) (Int.add_one_le_of_lt hmax)
  have hends : 1 ≤ table.lineLen line + 1 := by omega
  rw [LineTable.clampColumn?, h.lineLen? line, Option.bind_eq_bind, Option.bind_some, hend,
    Option.bind_some, clamp?, if_pos hends, LineTable.clampColumn]

theorem clampPos? (h : table.Countable) (pos : Pos) :
    table.clampPos? pos = some (table.clampPos pos) := by
  simp only [LineTable.clampPos?, h.clampLine?, h.clampColumn?, Option.bind_eq_bind,
    Option.bind_some]
  rfl

end Countable

/-- The lines of a text are its pieces between line ends, written all the same; there is at least
one, none holds a line end, and their lengths are in characters. For all numbers the clamped line
is one of the table, the clamped column on it or one past its end, and the clamped position in the
text, the same position iff it was there already. Done in words, all of it comes to the same, for
a text that has fewer characters than the greatest word. -/
theorem ofText_cuts_and_clamps (text : String) :
    let table := ofText text
    (table.lines.toList = ((unifyLineEnds text.toList).splitOn '\n').map String.ofList ∧
      1 ≤ table.lineCount ∧
      (∀ line ∈ table.lines, '\r' ∉ line.toList ∧ '\n' ∉ line.toList) ∧
      table.lengths = table.lines.map String.length) ∧
    (∀ line, 1 ≤ table.clampLine line ∧ table.clampLine line ≤ table.lineCount ∧
      ∃ content, table.line? (table.clampLine line) = some content ∧
        table.lineLen line = content.length) ∧
    (∀ line column, 1 ≤ table.clampColumn line column ∧
      table.clampColumn line column ≤ table.lineLen line + 1) ∧
    (∀ pos, table.Contains (table.clampPos pos) ∧
      (table.clampPos pos = pos ↔ table.Contains pos)) ∧
    ((text.length : Int) < Text.maxWord → ∀ line column,
      table.clampLine? line = some (table.clampLine line) ∧
      table.lineLen? line = some (table.lineLen line) ∧
      table.clampColumn? line column = some (table.clampColumn line column) ∧
      table.clampPos? ⟨line, column⟩ = some (table.clampPos ⟨line, column⟩)) := by
  intro table
  refine ⟨⟨toList_lines_ofText text, table.lineCount_pos, fun _ => noLineEnd_of_mem_lines,
      table.lengths_eq⟩, fun line => ?_, fun line column => ?_, fun pos => ?_,
    fun hshort line column => ?_⟩
  · exact ⟨table.one_le_clampLine line, table.clampLine_le line, table.line?_clampLine line⟩
  · have hlen := table.lineLen_nonneg line
    unfold clampColumn clamp
    omega
  · exact ⟨table.contains_clampPos pos, clampPos_eq_self_iff⟩
  · have hcountable : table.Countable := countable_ofText hshort
    exact ⟨hcountable.clampLine? line, hcountable.lineLen? line,
      hcountable.clampColumn? line column, hcountable.clampPos? ⟨line, column⟩⟩

/-- All three line ends and a line feed before a return; the least and the greatest word. -/
theorem farthest_words_are_clamped :
    let table := ofText "a\r\nbb\n\rccc"
    (("a\r\nbb\n\rccc".length : Int) < Text.maxWord ∧
      table.lines.toList = ["a", "bb", "", "ccc"]) ∧
      table.clampPos? ⟨Text.maxWord, Text.maxWord⟩ = some ⟨4, 4⟩ ∧
      table.clampPos? ⟨Text.minWord, Text.minWord⟩ = some ⟨1, 1⟩ := by
  intro table
  have hshort : ("a\r\nbb\n\rccc".length : Int) < Text.maxWord := by decide
  obtain ⟨⟨hlines, _⟩, _, _, _, hwords⟩ := ofText_cuts_and_clamps "a\r\nbb\n\rccc"
  obtain ⟨_, _, _, hhigh⟩ := hwords hshort Text.maxWord Text.maxWord
  obtain ⟨_, _, _, hlow⟩ := hwords hshort Text.minWord Text.minWord
  exact ⟨⟨hshort, hlines.trans (by decide)⟩, hhigh.trans (by decide +kernel),
    hlow.trans (by decide +kernel)⟩

end LineTable

end SpanReview
