import SpanReview.Proofs.Fixture.Format
import SpanReview.Span.Edit

namespace SpanReview

/-! Editing keeps a span inside its text, and inside a text all numbers are small. -/

/-- A position on a line of the text, at most one past its last character. -/
structure LineTable.Contains (table : LineTable) (pos : Pos) : Prop where
  one_le_line : 1 ≤ pos.line
  line_le : pos.line ≤ table.lineCount
  one_le_column : 1 ≤ pos.column
  column_le : pos.column ≤ table.lineLen pos.line + 1

instance (table : LineTable) (pos : Pos) : Decidable (table.Contains pos) :=
  decidable_of_iff (1 ≤ pos.line ∧ pos.line ≤ table.lineCount ∧ 1 ≤ pos.column ∧
      pos.column ≤ table.lineLen pos.line + 1)
    ⟨fun ⟨hlow, hhigh, hleft, hright⟩ => ⟨hlow, hhigh, hleft, hright⟩,
      fun h => ⟨h.one_le_line, h.line_le, h.one_le_column, h.column_le⟩⟩

/-- Both ends of the span are in the text. -/
def Span.Inside (span : Span) (table : LineTable) : Prop :=
  table.Contains span.start ∧ table.Contains span.finish

instance (span : Span) (table : LineTable) : Decidable (span.Inside table) :=
  inferInstanceAs (Decidable (_ ∧ _))

namespace LineTable

variable {table : LineTable} {pos : Pos} {span : Span}

theorem contains_of_line {line : Int} (hpos : 1 ≤ line) (hle : line ≤ table.lineCount) :
    table.Contains ⟨line, 1⟩ := by
  have hlen := table.lineLen_nonneg line
  constructor <;> dsimp only <;> omega

theorem contains_clampPos (table : LineTable) (pos : Pos) :
    table.Contains (table.clampPos pos) := by
  have hlen := table.lineLen_nonneg (table.clampLine pos.line)
  refine ⟨table.one_le_clampLine _, table.clampLine_le _, ?_, ?_⟩
  · simp only [clampPos, clampColumn, clamp]
    omega
  · simp only [clampPos, clampColumn, clamp]
    omega

theorem contains_stepForward (h : table.Contains pos) : table.Contains (table.stepForward pos) := by
  obtain ⟨hline, hlast, hcolumn, hend⟩ := id h
  unfold stepForward
  split
  · constructor <;> dsimp only <;> omega
  · split
    · exact contains_of_line (by omega) (by omega)
    · exact h

theorem contains_stepBack (h : table.Contains pos) : table.Contains (table.stepBack pos) := by
  obtain ⟨hline, hlast, hcolumn, hend⟩ := id h
  unfold stepBack
  split
  · constructor <;> dsimp only <;> omega
  · split
    · have hlen := table.lineLen_nonneg (pos.line - 1)
      constructor <;> dsimp only <;> omega
    · exact h

theorem contains_stepMany {step : Pos → Pos} (count : Nat)
    (hstep : ∀ pos, table.Contains pos → table.Contains (step pos)) (h : table.Contains pos) :
    table.Contains (stepMany step count pos) := by
  induction count generalizing pos with
  | zero => exact h
  | succ count ih =>
      unfold stepMany
      split
      · exact h
      · exact ih (hstep pos h)

theorem contains_movePos (amount : Int) (h : table.Contains pos) :
    table.Contains (table.movePos pos amount) := by
  unfold movePos
  split
  · exact contains_stepMany _ (fun _ => contains_stepForward) h
  · exact contains_stepMany _ (fun _ => contains_stepBack) h

theorem inside_moveEndpoint (endpoint : Endpoint) (amount : Int) (h : span.Inside table) :
    (table.moveEndpoint span endpoint amount).Inside table := by
  have hpos := contains_movePos amount (contains_clampPos table (span.get endpoint))
  unfold moveEndpoint
  dsimp only
  split
  · cases endpoint with
    | start => exact ⟨hpos, h.2⟩
    | finish => exact ⟨h.1, hpos⟩
  · exact ⟨hpos, hpos⟩

theorem contains_ite {condition : Prop} [Decidable condition] {other : Pos}
    (h : table.Contains pos) (hother : table.Contains other) :
    table.Contains (if condition then pos else other) := by
  split
  · exact h
  · exact hother

/-- A finish before the start on the same line is put at the start. -/
theorem inside_of_contains {start finish : Pos} (filename : String) (hstart : table.Contains start)
    (hfinish : table.Contains finish) :
    Span.Inside ⟨filename, start,
      if start.line = finish.line ∧ finish.column < start.column then ⟨finish.line, start.column⟩
      else finish⟩ table := by
  refine ⟨hstart, ?_⟩
  dsimp only
  split
  · rename_i hsame
    obtain ⟨hline, _⟩ := hsame
    exact ⟨hfinish.one_le_line, hfinish.line_le, hstart.one_le_column, hline ▸ hstart.column_le⟩
  · exact hfinish

theorem inside_fixEndpoints (table : LineTable) (filename : String) (reference : Span)
    (minLine : Int) : (table.fixEndpoints filename reference minLine).Inside table := by
  have hfloor : table.Contains ⟨table.clampLine (max minLine 1), 1⟩ :=
    contains_of_line (table.one_le_clampLine _) (table.clampLine_le _)
  have hstart : table.Contains (if reference.start.line < max minLine 1 then
      ⟨table.clampLine (max minLine 1), 1⟩ else table.clampPos reference.start) :=
    contains_ite hfloor (contains_clampPos table reference.start)
  exact inside_of_contains filename hstart
    (contains_ite (contains_clampPos table reference.finish) hstart)

/-! A span that is inside already. -/

theorem clampPos_of_contains (h : table.Contains pos) : table.clampPos pos = pos := by
  obtain ⟨hline, hlast, hcolumn, hend⟩ := h
  have hkept : table.clampLine pos.line = pos.line := by
    unfold clampLine clamp
    omega
  have hcolumns : table.clampColumn pos.line pos.column = pos.column := by
    unfold clampColumn clamp
    omega
  rw [clampPos, hkept, hcolumns]

theorem fixEndpoints_of_inside (h : span.Inside table) (hordered : span.start ≤ span.finish) :
    table.fixEndpoints span.filename span 1 = span := by
  have hfirst := h.1.one_le_line
  rw [Pos.le_def] at hordered
  have hlines : span.start.line ≤ span.finish.line := by omega
  have hforward :
      ¬ (span.start.line = span.finish.line ∧ span.finish.column < span.start.column) := by
    omega
  simp only [fixEndpoints, clampPos_of_contains h.1, clampPos_of_contains h.2]
  rw [if_neg (by omega), if_pos hlines, if_neg hforward]

/-! Ends in order. -/

theorem le_clampLine {line other : Int} (hlast : line ≤ table.lineCount) (hle : line ≤ other) :
    line ≤ table.clampLine other := by
  unfold clampLine clamp
  omega

theorem le_of_line_le {start finish : Pos} (h : start.line ≤ finish.line) :
    start ≤ if start.line = finish.line ∧ finish.column < start.column
      then ⟨finish.line, start.column⟩ else finish := by
  rw [Pos.le_def]
  split
  · rename_i hsame
    exact .inr ⟨hsame.1, Int.le_refl _⟩
  · rename_i hforward
    omega

theorem ordered_fixEndpoints (table : LineTable) (filename : String) (reference : Span)
    (minLine : Int) : (table.fixEndpoints filename reference minLine).start ≤
      (table.fixEndpoints filename reference minLine).finish := by
  have hstart := (table.inside_fixEndpoints filename reference minLine).1.line_le
  unfold fixEndpoints at hstart ⊢
  dsimp only at hstart ⊢
  generalize (if reference.start.line < max minLine 1 then
    (⟨table.clampLine (max minLine 1), 1⟩ : Pos) else table.clampPos reference.start) = start
    at hstart ⊢
  apply le_of_line_le
  split
  · rename_i hle
    exact le_clampLine hstart hle
  · exact Int.le_refl _

theorem ordered_moveEndpoint (table : LineTable) (span : Span) (endpoint : Endpoint)
    (amount : Int) : (table.moveEndpoint span endpoint amount).start ≤
      (table.moveEndpoint span endpoint amount).finish := by
  unfold moveEndpoint
  dsimp only
  split
  · rename_i hordered
    exact of_decide_eq_true hordered
  · exact .inr ⟨rfl, Int.le_refl _⟩

theorem filename_moveEndpoint (table : LineTable) (span : Span) (endpoint : Endpoint)
    (amount : Int) : (table.moveEndpoint span endpoint amount).filename = span.filename := by
  unfold moveEndpoint
  dsimp only
  split
  · cases endpoint <;> rfl
  · cases endpoint <;> rfl

theorem resolved_of_inside (h : span.Inside table) : span.isResolved := by
  simp [Span.isResolved, h.1.one_le_line, h.1.one_le_column, h.2.one_le_line, h.2.one_le_column]

end LineTable

/-! Small numbers. -/

/-- No more lines than characters and one more, and no line longer than that. -/
structure Small (lines : List (List Char)) (count : Nat) : Prop where
  length : lines.length ≤ count + 1
  line : ∀ line ∈ lines, line.length ≤ count

theorem Small.cons_nil {lines : List (List Char)} {count more : Nat} (h : Small lines count)
    (hmore : count < more) : Small ([] :: lines) more where
  length := by
    have hlength := h.length
    rw [List.length_cons]
    omega
  line := by
    refine List.forall_mem_cons.mpr ⟨Nat.zero_le _, fun line hline => ?_⟩
    exact Nat.le_of_lt (Nat.lt_of_le_of_lt (h.line line hline) hmore)

theorem splitLines_small (cs : List Char) : Small (splitLines cs) cs.length := by
  fun_induction splitLines cs with
  | case1 => exact ⟨Nat.le_refl 1, by simp⟩
  | case2 rest ih => exact ih.cons_nil (by simp only [List.length_cons]; omega)
  | case3 rest _ ih => exact ih.cons_nil (Nat.lt_succ_self _)
  | case4 rest ih => exact ih.cons_nil (Nat.lt_succ_self _)
  | case5 c rest _ _ _ line lines hlines ih =>
      rw [hlines] at ih
      obtain ⟨hline, hrest⟩ := List.forall_mem_cons.mp ih.line
      refine ⟨Nat.le_succ_of_le ih.length, List.forall_mem_cons.mpr ⟨?_, fun other hother => ?_⟩⟩
      · exact Nat.succ_le_succ hline
      · exact Nat.le_succ_of_le (hrest other hother)
  | case6 c rest _ _ _ hnil ih => exact absurd hnil (splitLines_ne_nil rest)

namespace LineTable

theorem lineCount_ofText_le (text : String) : (ofText text).lineCount ≤ text.length + 1 := by
  have hsmall := (splitLines_small text.toList).length
  simp only [lineCount, ofText, List.size_toArray, List.length_map, String.length_toList]
    at hsmall ⊢
  omega

theorem lineLen_ofText_le (text : String) (line : Int) :
    (ofText text).lineLen line ≤ text.length := by
  have hlength : ∀ n ∈ (ofText text).lengths, n ≤ text.length := by
    intro n hn
    obtain ⟨chars, hchars, rfl⟩ : ∃ chars ∈ splitLines text.toList, chars.length = n := by
      simpa [ofText] using hn
    have hsmall := (splitLines_small text.toList).line chars hchars
    rwa [String.length_toList] at hsmall
  exact Int.ofNat_le.mpr (hlength _ (Array.getElem_mem _))

theorem fitsWords_of_contains {text : String} {pos : Pos}
    (hshort : (text.length : Int) < Text.maxWord) (h : (ofText text).Contains pos) :
    pos.FitsWords := by
  have hline := lineCount_ofText_le text
  have hcolumn := lineLen_ofText_le text pos.line
  obtain ⟨hfirst, hlast, hstart, hend⟩ := h
  have hfits {n : Int} (hpos : 1 ≤ n) (hle : n ≤ text.length + 1) : Text.fitsWord n := by
    rw [Text.fitsWord_iff]
    unfold Text.minWord
    omega
  exact ⟨hfits hfirst (by omega), hfits hstart (by omega)⟩

end LineTable

end SpanReview
