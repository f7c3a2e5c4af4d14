import SpanReview.Proofs.Span.Inside

namespace SpanReview

/-! Fitting a span into a text gives a legal span, keeps a legal one that starts low enough,
and comes to rest after two rounds, mostly after one. -/

/-- A span of the text that does not end before it starts and starts no higher than `minLine`,
as far as the text has lines. -/
structure Span.Legal (span : Span) (table : LineTable) (minLine : Int) : Prop where
  inside : span.Inside table
  ordered : span.start ≤ span.finish
  floor : min (max minLine 1) table.lineCount ≤ span.start.line

namespace LineTable

variable {table : LineTable} {span : Span} {minLine : Int}

theorem legal_fixEndpoints (table : LineTable) (filename : String) (reference : Span)
    (minLine : Int) : (table.fixEndpoints filename reference minLine).Legal table minLine where
  inside := table.inside_fixEndpoints filename reference minLine
  ordered := table.ordered_fixEndpoints filename reference minLine
  floor := by
    unfold fixEndpoints
    dsimp only
    split
    · dsimp only [clampLine, clamp]
      omega
    · dsimp only [clampPos, clampLine, clamp]
      omega

/-- A legal span is kept, but for the column of a start that is above the lowest line allowed:
that is then below the text, and the start on its last line. -/
theorem fixEndpoints_of_legal (filename : String) (h : span.Legal table minLine) :
    table.fixEndpoints filename span minLine =
      ⟨filename, if minLine ≤ span.start.line then span.start else ⟨span.start.line, 1⟩,
        span.finish⟩ := by
  obtain ⟨⟨hstart, hfinish⟩, hordered, hfloor⟩ := h
  have hline := hstart.one_le_line
  have hlast := hstart.line_le
  have hcolumn := hfinish.one_le_column
  rw [Pos.le_def] at hordered
  have hlines : span.start.line ≤ span.finish.line := by omega
  simp only [fixEndpoints, clampPos_of_contains hstart, clampPos_of_contains hfinish]
  by_cases hlow : minLine ≤ span.start.line
  · rw [if_neg (by omega), if_pos hlow, if_pos hlines, if_neg (by omega)]
  · have hbottom : table.clampLine (max minLine 1) = span.start.line := by
      unfold clampLine clamp
      omega
    rw [if_pos (by omega), if_neg hlow, hbottom, if_pos hlines, if_neg (by dsimp only; omega)]

theorem fixEndpoints_eq_self_iff (h : span.Legal table minLine) :
    table.fixEndpoints span.filename span minLine = span ↔
      minLine ≤ table.lineCount ∨ span.start.column = 1 := by
  rw [fixEndpoints_of_legal _ h]
  have hfloor := h.floor
  have hline := h.inside.1.one_le_line
  have hlast := h.inside.1.line_le
  obtain ⟨filename, ⟨line, column⟩, finish⟩ := span
  dsimp only at *
  by_cases hlow : minLine ≤ line
  · rw [if_pos hlow]
    exact iff_of_true rfl (.inl (Int.le_trans hlow hlast))
  · have hbelow : ¬ minLine ≤ table.lineCount := by omega
    simp [hlow, hbelow, eq_comm]

/-- Any span is fitted to a legal one. A legal span that starts low enough is fitted to itself,
so a second round changes nothing, unless the lowest line allowed is below the text: then the
second round may still reset the column of the start, and the third changes nothing. -/
theorem fixEndpoints_projects (table : LineTable) (filename : String) (reference : Span)
    (minLine : Int) :
    let fixed := table.fixEndpoints filename reference minLine
    let again := table.fixEndpoints filename fixed minLine
    (fixed.filename = filename ∧ table.Contains fixed.start ∧ table.Contains fixed.finish ∧
      fixed.isOrdered ∧ min (max minLine 1) table.lineCount ≤ fixed.start.line) ∧
    (reference.Inside table → reference.isOrdered → max minLine 1 ≤ reference.start.line →
      fixed.start = reference.start ∧ fixed.finish = reference.finish) ∧
    (again = fixed ↔ minLine ≤ table.lineCount ∨ fixed.start.column = 1) ∧
    table.fixEndpoints filename again minLine = again := by
  intro fixed again
  have hfixed : fixed.Legal table minLine := table.legal_fixEndpoints filename reference minLine
  have hagain : again.Legal table minLine := table.legal_fixEndpoints filename fixed minLine
  refine ⟨⟨rfl, hfixed.inside.1, hfixed.inside.2, decide_eq_true hfixed.ordered, hfixed.floor⟩,
    fun hinside hordered hlow => ?_, fixEndpoints_eq_self_iff hfixed, ?_⟩
  · have hlegal : reference.Legal table minLine :=
      ⟨hinside, of_decide_eq_true hordered, Int.le_trans (Int.min_le_left _ _) hlow⟩
    have hkept : fixed = _ := fixEndpoints_of_legal filename hlegal
    rw [hkept, if_pos (Int.le_trans (Int.le_max_left _ _) hlow)]
    exact ⟨rfl, rfl⟩
  · refine (fixEndpoints_eq_self_iff hagain).mpr ?_
    have hkept : again = _ := fixEndpoints_of_legal filename hfixed
    by_cases hlow : minLine ≤ fixed.start.line
    · exact .inl (Int.le_trans hlow hfixed.inside.1.line_le)
    · right
      rw [hkept, if_neg hlow]

theorem kept_over_two_lines :
    let table := LineTable.ofText "if x\n  p"
    let reference : Span := ⟨"a.pug", ⟨2, 3⟩, ⟨2, 4⟩⟩
    reference.Inside table ∧ reference.isOrdered ∧ max 2 1 ≤ reference.start.line ∧
      (table.fixEndpoints "b.pug" reference 2).start = ⟨2, 3⟩ ∧
      (table.fixEndpoints "b.pug" reference 2).finish = ⟨2, 4⟩ := by
  intro table reference
  have hinside : reference.Inside table := by
    constructor <;> constructor <;> decide +kernel
  have hordered : reference.isOrdered := by decide
  have hlow : max 2 1 ≤ reference.start.line := by decide
  obtain ⟨_, hkept, _⟩ := fixEndpoints_projects table "b.pug" reference 2
  obtain ⟨hstart, hfinish⟩ := hkept hinside hordered hlow
  exact ⟨hinside, hordered, hlow, hstart, hfinish⟩

/-- The start and the lowest line allowed are both below the only line: the first round keeps
the column of the start, and the second does not. -/
theorem second_round_resets_column :
    let table := LineTable.ofText "hello"
    let fixed := table.fixEndpoints "a.pug" ⟨"a.pug", ⟨12, 4⟩, ⟨12, 6⟩⟩ 10
    table.fixEndpoints "a.pug" fixed 10 ≠ fixed := by
  decide +kernel

end LineTable

end SpanReview
