import SpanReview.Proofs.Span.Inside

namespace SpanReview

/-! Moving an end of a span is adding to its offset in the text, with every line break counted
as one character, and stopping at the edges of the text. -/

namespace Endpoint

variable {endpoint : Endpoint} {pos far first second : Pos}

def other : Endpoint → Endpoint
  | start => finish
  | finish => start

/-- With this end at `pos` and the other at `far`, a span does not end before it starts. -/
def InOrder (endpoint : Endpoint) (pos far : Pos) : Prop :=
  match endpoint with
  | start => pos ≤ far
  | finish => far ≤ pos

instance (endpoint : Endpoint) (pos far : Pos) : Decidable (endpoint.InOrder pos far) :=
  match endpoint with
  | start => inferInstanceAs (Decidable (pos ≤ far))
  | finish => inferInstanceAs (Decidable (far ≤ pos))

/-- Where the other end goes when this one comes to `pos`. -/
def drag (endpoint : Endpoint) (pos far : Pos) : Pos :=
  if endpoint.InOrder pos far then far else pos

theorem InOrder.refl (endpoint : Endpoint) (pos : Pos) : endpoint.InOrder pos pos := by
  cases endpoint <;> exact .inr ⟨rfl, Int.le_refl _⟩

theorem InOrder.trans (h : endpoint.InOrder first second) (hfar : endpoint.InOrder second far) :
    endpoint.InOrder first far := by
  cases endpoint <;> simp only [InOrder, Pos.le_def] at h hfar ⊢ <;> omega

theorem InOrder.antisymm (h : endpoint.InOrder first second)
    (hback : endpoint.InOrder second first) : first = second := by
  obtain ⟨line, column⟩ := first
  obtain ⟨line', column'⟩ := second
  cases endpoint <;> simp only [InOrder, Pos.le_def, Pos.mk.injEq] at h hback ⊢ <;> omega

theorem InOrder.of_not (h : ¬ endpoint.InOrder pos far) : endpoint.InOrder far pos := by
  cases endpoint <;> simp only [InOrder, Pos.le_def] at h ⊢ <;> omega

theorem drag_of_inOrder (h : endpoint.InOrder pos far) : endpoint.drag pos far = far :=
  if_pos h

theorem drag_of_past (h : endpoint.InOrder far pos) : endpoint.drag pos far = pos := by
  unfold drag
  split
  · rename_i hback
    exact h.antisymm hback
  · rfl

/-- Two moves of one end leave the other where the second alone would leave it, unless the
first takes it along and the second leads back. -/
theorem drag_drag_iff :
    endpoint.drag second (endpoint.drag first far) = endpoint.drag second far ↔
      endpoint.InOrder first far ∨ endpoint.InOrder first second := by
  by_cases hfirst : endpoint.InOrder first far
  · rw [drag_of_inOrder hfirst]
    exact iff_of_true rfl (.inl hfirst)
  · have hpast := InOrder.of_not hfirst
    rw [drag_of_past hpast]
    by_cases hon : endpoint.InOrder first second
    · rw [drag_of_past hon, drag_of_past (hpast.trans hon)]
      exact iff_of_true rfl (.inr hon)
    · rw [drag_of_inOrder (InOrder.of_not hon)]
      refine iff_of_false (fun hsame => ?_) (not_or.mpr ⟨hfirst, hon⟩)
      by_cases hback : endpoint.InOrder second far
      · rw [drag_of_inOrder hback] at hsame
        exact hfirst (hsame ▸ InOrder.refl endpoint first)
      · rw [drag_of_past (InOrder.of_not hback)] at hsame
        exact hon (hsame ▸ InOrder.refl endpoint first)

end Endpoint

namespace Span

variable {span other : Span} {endpoint : Endpoint} {pos : Pos}

@[simp] theorem get_set (span : Span) (pos : Pos) (endpoint : Endpoint) :
    (span.set pos endpoint).get endpoint = pos := by
  cases endpoint <;> rfl

@[simp] theorem get_set_other (span : Span) (pos : Pos) (endpoint : Endpoint) :
    (span.set pos endpoint).get endpoint.other = span.get endpoint.other := by
  cases endpoint <;> rfl

theorem isOrdered_set :
    (span.set pos endpoint).isOrdered ↔ endpoint.InOrder pos (span.get endpoint.other) := by
  cases endpoint <;> exact decide_eq_true_iff

theorem eq_iff_of_end (hname : span.filename = other.filename)
    (hend : span.get endpoint = other.get endpoint) :
    span = other ↔ span.get endpoint.other = other.get endpoint.other := by
  obtain ⟨filename, start, finish⟩ := span
  obtain ⟨filename', start', finish'⟩ := other
  obtain rfl : filename = filename' := hname
  cases endpoint with
  | start =>
      obtain rfl : start = start' := hend
      simp [get, Endpoint.other]
  | finish =>
      obtain rfl : finish = finish' := hend
      simp [get, Endpoint.other]

end Span

namespace LineTable

variable {table : LineTable} {pos other : Pos} {line : Int} {span : Span} {endpoint : Endpoint}

/-- The characters of the first lines of the text, with each line break counted as one. -/
def charsOfFirst (table : LineTable) : Nat → Int
  | 0 => 0
  | lines + 1 => table.charsOfFirst lines + (table.lineLen (lines + 1) + 1)

/-- The characters before a position, those of the lines before it and those before its column. -/
def offset (table : LineTable) (pos : Pos) : Int :=
  table.charsOfFirst (pos.line - 1).toNat + pos.column - 1

/-- The end of the last line. -/
def last (table : LineTable) : Pos :=
  ⟨table.lineCount, table.lineLen table.lineCount + 1⟩

/-! Offsets are in the order of the positions. -/

theorem offset_column (table : LineTable) (line column : Int) :
    table.offset ⟨line, column⟩ = table.offset ⟨line, 1⟩ + column - 1 := by
  simp only [offset]
  omega

theorem offset_nextLine (hline : 1 ≤ line) :
    table.offset ⟨line + 1, 1⟩ = table.offset ⟨line, table.lineLen line + 1⟩ + 1 := by
  obtain ⟨before, rfl⟩ : ∃ before : Nat, line = before + 1 := ⟨(line - 1).toNat, by omega⟩
  have hbefore : ((before : Int) + 1 - 1).toNat = before := by omega
  have hthrough : ((before : Int) + 1 + 1 - 1).toNat = before + 1 := by omega
  simp only [offset, hbefore, hthrough, charsOfFirst]
  omega

theorem offset_firstLine (table : LineTable) : table.offset ⟨1, 1⟩ = 0 := rfl

theorem charsOfFirst_le {fewer more : Nat} (h : fewer ≤ more) :
    table.charsOfFirst fewer ≤ table.charsOfFirst more := by
  induction h with
  | refl => exact Int.le_refl _
  | @step lines _ ih =>
      have hlen := table.lineLen_nonneg (lines + 1)
      simp only [charsOfFirst]
      omega

theorem offset_lineStart_le {later : Int} (hle : line ≤ later) :
    table.offset ⟨line, 1⟩ ≤ table.offset ⟨later, 1⟩ := by
  have hlines : (line - 1).toNat ≤ (later - 1).toNat := by omega
  have hchars : table.charsOfFirst _ ≤ table.charsOfFirst _ := charsOfFirst_le hlines
  simp only [offset]
  omega

theorem offset_lt_of_line_lt (h : table.Contains pos) (hother : table.Contains other)
    (hlt : pos.line < other.line) : table.offset pos < table.offset other := by
  obtain ⟨hline, _, _, hend⟩ := h
  obtain ⟨_, _, hcolumn, _⟩ := hother
  have hnext : table.offset ⟨pos.line + 1, 1⟩ = _ := offset_nextLine hline
  calc table.offset pos
      ≤ table.offset ⟨pos.line, table.lineLen pos.line + 1⟩ := by
        simp only [offset]
        omega
    _ < table.offset ⟨pos.line + 1, 1⟩ := by omega
    _ ≤ table.offset ⟨other.line, 1⟩ := offset_lineStart_le hlt
    _ ≤ table.offset other := by
        simp only [offset]
        omega

theorem offset_le_iff (h : table.Contains pos) (hother : table.Contains other) :
    table.offset pos ≤ table.offset other ↔ pos ≤ other := by
  rw [Pos.le_def]
  rcases Int.lt_trichotomy pos.line other.line with hlt | heq | hlt
  · have hoffset := offset_lt_of_line_lt h hother hlt
    omega
  · have hoffset : table.offset pos - pos.column = table.offset other - other.column := by
      simp only [offset, heq]
      omega
    omega
  · have hoffset := offset_lt_of_line_lt hother h hlt
    omega

theorem offset_inj (h : table.Contains pos) (hother : table.Contains other) :
    table.offset pos = table.offset other ↔ pos = other := by
  refine ⟨fun hsame => ?_, congrArg table.offset⟩
  have hle := (offset_le_iff h hother).mp (Int.le_of_eq hsame)
  have hge := (offset_le_iff hother h).mp (Int.le_of_eq hsame.symm)
  have hforth : Endpoint.start.InOrder pos other := hle
  exact hforth.antisymm hge

theorem contains_last (table : LineTable) : table.Contains table.last := by
  have hcount := table.lineCount_pos
  have hlen := table.lineLen_nonneg table.lineCount
  constructor <;> dsimp only [last] <;> omega

theorem le_last (h : table.Contains pos) : pos ≤ table.last := by
  rw [Pos.le_def]
  have hcolumn := h.column_le
  rcases Int.lt_or_eq_of_le h.line_le with hlt | heq
  · exact .inl hlt
  · rw [heq] at hcolumn
    exact .inr ⟨heq, hcolumn⟩

theorem offset_le_last (h : table.Contains pos) : table.offset pos ≤ table.offset table.last :=
  (offset_le_iff h table.contains_last).mpr (le_last h)

theorem offset_nonneg (h : table.Contains pos) : 0 ≤ table.offset pos := by
  have hstart : table.offset ⟨1, 1⟩ ≤ table.offset ⟨pos.line, 1⟩ :=
    offset_lineStart_le h.one_le_line
  have hcolumn := h.one_le_column
  rw [table.offset_firstLine] at hstart
  have hoffset : table.offset pos = _ := table.offset_column pos.line pos.column
  omega

/-! One step, and as many as are asked for. -/

/-- An offset that is out of the text is that of the nearest edge. -/
def clampOffset (table : LineTable) (n : Int) : Int :=
  clamp 0 (table.offset table.last) n

theorem clampOffset_offset (h : table.Contains pos) :
    table.clampOffset (table.offset pos) = table.offset pos := by
  have hfirst := offset_nonneg h
  have hlast := offset_le_last h
  unfold clampOffset clamp
  omega

theorem offset_stepForward (h : table.Contains pos) :
    table.offset (table.stepForward pos) = table.clampOffset (table.offset pos + 1) := by
  have hinside := contains_stepForward h
  rw [← clampOffset_offset hinside]
  obtain ⟨hline, hlast, _, hcolumn⟩ := h
  obtain ⟨line, column⟩ := pos
  unfold stepForward
  dsimp only at *
  split
  · congr 1
    rw [table.offset_column line column, table.offset_column line (column + 1)]
    omega
  · obtain rfl : column = table.lineLen line + 1 := by omega
    split
    · congr 1
      exact offset_nextLine hline
    · -- At the end of the text the next offset is of no position, and clamped to this one.
      obtain rfl : line = table.lineCount := by omega
      change table.clampOffset (table.offset table.last) =
        table.clampOffset (table.offset table.last + 1)
      unfold clampOffset clamp
      omega

theorem offset_stepBack (h : table.Contains pos) :
    table.offset (table.stepBack pos) = table.clampOffset (table.offset pos - 1) := by
  have hinside := contains_stepBack h
  rw [← clampOffset_offset hinside]
  obtain ⟨hline, _, hcolumn, _⟩ := h
  obtain ⟨line, column⟩ := pos
  unfold stepBack
  dsimp only at *
  split
  · congr 1
    rw [table.offset_column line column, table.offset_column line (column - 1)]
    omega
  · obtain rfl : column = 1 := by omega
    split
    · have hnext : table.offset ⟨line - 1 + 1, 1⟩ = _ := offset_nextLine (by omega)
      rw [Int.sub_add_cancel] at hnext
      congr 1
      omega
    · obtain rfl : line = 1 := by omega
      rw [table.offset_firstLine]
      unfold clampOffset clamp
      omega

/-- Steps of one character each, in one direction. -/
structure Walks (table : LineTable) (step : Pos → Pos) (way : Int) : Prop where
  unit : way = 1 ∨ way = -1
  contains : ∀ {pos}, table.Contains pos → table.Contains (step pos)
  offset : ∀ {pos}, table.Contains pos →
    table.offset (step pos) = table.clampOffset (table.offset pos + way)

theorem walks_forward (table : LineTable) : table.Walks table.stepForward 1 :=
  ⟨.inl rfl, contains_stepForward, offset_stepForward⟩

theorem walks_back (table : LineTable) : table.Walks table.stepBack (-1) :=
  ⟨.inr rfl, contains_stepBack, offset_stepBack⟩

theorem Walks.offset_stepMany {step : Pos → Pos} {way : Int} (hwalks : table.Walks step way)
    (count : Nat) (h : table.Contains pos) :
    table.offset (stepMany step count pos) =
      table.clampOffset (table.offset pos + way * count) := by
  have hway := hwalks.unit
  induction count generalizing pos with
  | zero =>
      rw [Int.natCast_zero, Int.mul_zero, Int.add_zero, clampOffset_offset h]
      rfl
  | succ count ih =>
      have hfirst := offset_nonneg h
      have hlast := offset_le_last h
      have hstep := hwalks.offset h
      unfold stepMany
      split
      · -- A step that does not move stands at the edge that all further steps would go to.
        rename_i hstuck
        rw [hstuck] at hstep
        unfold clampOffset clamp at hstep ⊢
        rcases hway with rfl | rfl <;> omega
      · rw [ih (hwalks.contains h), hstep]
        unfold clampOffset clamp
        rcases hway with rfl | rfl <;> omega

theorem offset_movePos (amount : Int) (h : table.Contains pos) :
    table.offset (table.movePos pos amount) = table.clampOffset (table.offset pos + amount) := by
  unfold movePos
  split
  · rw [table.walks_forward.offset_stepMany _ h]
    congr 1
    omega
  · rw [table.walks_back.offset_stepMany _ h]
    congr 1
    omega

section SameWay

variable {amount more : Int} {far : Pos}

theorem movePos_movePos (h : table.Contains pos)
    (hsign : 0 ≤ amount ∧ 0 ≤ more ∨ amount ≤ 0 ∧ more ≤ 0) :
    table.movePos (table.movePos pos amount) more = table.movePos pos (amount + more) := by
  have hmoved := contains_movePos amount h
  have hfirst := offset_nonneg h
  have hlast := offset_le_last h
  rw [← offset_inj (contains_movePos more hmoved) (contains_movePos _ h),
    offset_movePos more hmoved, offset_movePos amount h, offset_movePos _ h]
  unfold clampOffset clamp
  omega

theorem movePos_le_movePos (h : table.Contains pos) (hle : amount ≤ more) :
    table.movePos pos amount ≤ table.movePos pos more := by
  rw [← offset_le_iff (contains_movePos _ h) (contains_movePos _ h), offset_movePos _ h,
    offset_movePos _ h]
  unfold clampOffset clamp
  omega

/-- From ends in order, a move away from the other end leaves them in order, and two moves
towards it lead on. -/
theorem inOrder_or_onward (h : table.Contains pos) (hfar : endpoint.InOrder pos far)
    (hsign : 0 ≤ amount ∧ 0 ≤ more ∨ amount ≤ 0 ∧ more ≤ 0) :
    endpoint.InOrder (table.movePos pos amount) far ∨
      endpoint.InOrder (table.movePos pos amount) (table.movePos pos (amount + more)) := by
  rcases hsign with ⟨hamount, hmore⟩ | ⟨hamount, hmore⟩
  · have haway : pos ≤ table.movePos pos amount := movePos_le_movePos h hamount
    have hon : table.movePos pos amount ≤ table.movePos pos (amount + more) :=
      movePos_le_movePos h (by omega)
    cases endpoint with
    | start => exact .inr hon
    | finish => exact .inl (Endpoint.InOrder.trans haway hfar)
  · have haway : table.movePos pos amount ≤ pos := movePos_le_movePos h hamount
    have hon : table.movePos pos (amount + more) ≤ table.movePos pos amount :=
      movePos_le_movePos h (by omega)
    cases endpoint with
    | start => exact .inl (Endpoint.InOrder.trans haway hfar)
    | finish => exact .inr hon

end SameWay

/-! Both ends of the span. -/

theorem get_moveEndpoint (table : LineTable) (span : Span) (endpoint : Endpoint) (amount : Int) :
    (table.moveEndpoint span endpoint amount).get endpoint =
      table.movePos (table.clampPos (span.get endpoint)) amount := by
  unfold moveEndpoint
  dsimp only
  split
  · exact Span.get_set _ _ _
  · cases endpoint <;> rfl

theorem get_moveEndpoint_other (table : LineTable) (span : Span) (endpoint : Endpoint)
    (amount : Int) :
    (table.moveEndpoint span endpoint amount).get endpoint.other =
      endpoint.drag (table.movePos (table.clampPos (span.get endpoint)) amount)
        (span.get endpoint.other) := by
  unfold moveEndpoint
  dsimp only
  split
  · rename_i hordered
    rw [Endpoint.drag_of_inOrder (Span.isOrdered_set.mp hordered), Span.get_set_other]
  · rename_i hcrossed
    rw [Span.isOrdered_set] at hcrossed
    rw [Endpoint.drag, if_neg hcrossed]
    cases endpoint <;> rfl

theorem moveEndpoint_moveEndpoint_iff {amount more : Int}
    (hsign : 0 ≤ amount ∧ 0 ≤ more ∨ amount ≤ 0 ∧ more ≤ 0) :
    table.moveEndpoint (table.moveEndpoint span endpoint amount) endpoint more =
        table.moveEndpoint span endpoint (amount + more) ↔
      endpoint.InOrder (table.movePos (table.clampPos (span.get endpoint)) amount)
          (span.get endpoint.other) ∨
        endpoint.InOrder (table.movePos (table.clampPos (span.get endpoint)) amount)
          (table.movePos (table.clampPos (span.get endpoint)) (amount + more)) := by
  have hold := contains_clampPos table (span.get endpoint)
  have hname : (table.moveEndpoint (table.moveEndpoint span endpoint amount) endpoint more).filename
      = (table.moveEndpoint span endpoint (amount + more)).filename := by
    simp only [filename_moveEndpoint]
  have hpos : (table.moveEndpoint (table.moveEndpoint span endpoint amount) endpoint more).get
      endpoint = (table.moveEndpoint span endpoint (amount + more)).get endpoint := by
    simp only [get_moveEndpoint, clampPos_of_contains (contains_movePos amount hold),
      movePos_movePos hold hsign]
  rw [← Endpoint.drag_drag_iff, Span.eq_iff_of_end hname hpos]
  simp only [get_moveEndpoint, get_moveEndpoint_other,
    clampPos_of_contains (contains_movePos amount hold), movePos_movePos hold hsign]

/-- The end that moves comes to the one position of the text whose offset is as much further as
was asked for, or to the edge of the text; the other end stays where it is unless they would
pass each other, and is taken along then. Two moves one way are the same as one by the sum if
the span, with the end to move put into the text, does not end before it starts; for any span
they are so exactly if the first move leaves the ends in order or the second leads on. -/
theorem moveEndpoint_shifts_offset (table : LineTable) (span : Span) (endpoint : Endpoint)
    (amount : Int) :
    let old := table.clampPos (span.get endpoint)
    let moved := table.moveEndpoint span endpoint amount
    let target := clamp 0 (table.offset table.last) (table.offset old + amount)
    (table.Contains (moved.get endpoint) ∧ table.offset (moved.get endpoint) = target ∧
      ∀ pos, table.Contains pos → table.offset pos = target → pos = moved.get endpoint) ∧
    moved.get endpoint.other =
      (if (span.set (moved.get endpoint) endpoint).isOrdered then span.get endpoint.other
        else moved.get endpoint) ∧
    moved.isOrdered ∧ moved.filename = span.filename ∧
    ∀ more, 0 ≤ amount ∧ 0 ≤ more ∨ amount ≤ 0 ∧ more ≤ 0 →
      let twice := table.moveEndpoint moved endpoint more
      let once := table.moveEndpoint span endpoint (amount + more)
      ((span.set old endpoint).isOrdered → twice = once) ∧
      (twice = once ↔ (span.set (moved.get endpoint) endpoint).isOrdered ∨
        endpoint.InOrder (moved.get endpoint) (once.get endpoint)) := by
  intro old moved target
  have hold : table.Contains old := contains_clampPos table _
  have hmoved : moved.get endpoint = table.movePos old amount := get_moveEndpoint ..
  have hinside : table.Contains (moved.get endpoint) := hmoved ▸ contains_movePos amount hold
  have hoffset : table.offset (moved.get endpoint) = target := hmoved ▸ offset_movePos amount hold
  refine ⟨⟨hinside, hoffset, fun pos hpos htarget => ?_⟩, ?_,
    decide_eq_true (ordered_moveEndpoint ..), filename_moveEndpoint .., fun more hsign => ?_⟩
  · exact (offset_inj hpos hinside).mp (htarget.trans hoffset.symm)
  · rw [get_moveEndpoint_other, hmoved, Endpoint.drag]
    simp only [Span.isOrdered_set, old]
  · intro twice once
    have hiff : twice = once ↔ _ := moveEndpoint_moveEndpoint_iff hsign
    have honce : once.get endpoint = table.movePos old (amount + more) := get_moveEndpoint ..
    rw [hmoved, honce, Span.isOrdered_set, Span.isOrdered_set]
    exact ⟨fun hordered => hiff.mpr (inOrder_or_onward hold hordered hsign), hiff⟩

theorem moves_over_empty_line :
    let table := LineTable.ofText "hello\n\nabc"
    let span : Span := ⟨"a.pug", ⟨1, 3⟩, ⟨3, 2⟩⟩
    (span.set (table.clampPos (span.get .start)) .start).isOrdered ∧
      (0 ≤ (4 : Int) ∧ 0 ≤ (3 : Int)) ∧
      table.moveEndpoint (table.moveEndpoint span .start 4) .start 3 =
        table.moveEndpoint span .start 7 ∧
      table.moveEndpoint span .start 7 = ⟨"a.pug", ⟨3, 3⟩, ⟨3, 3⟩⟩ := by
  intro table span
  have hordered : (span.set (table.clampPos (span.get .start)) .start).isOrdered := by
    decide +kernel
  obtain ⟨_, _, _, _, hsum⟩ := moveEndpoint_shifts_offset table span .start 4
  exact ⟨hordered, by decide, (hsum 3 (.inl (by decide))).1 hordered, by decide +kernel⟩

/-- The start is above the text, and comes to stand after the finish once it is put on the
first line: the first move takes the finish along, and the second does not take it back. -/
theorem moves_from_above_text :
    let table := LineTable.ofText "hello"
    let span : Span := ⟨"a.pug", ⟨0, 5⟩, ⟨1, 2⟩⟩
    span.isOrdered ∧
      table.moveEndpoint (table.moveEndpoint span .start (-1)) .start (-3) ≠
        table.moveEndpoint span .start (-1 + -3) := by
  decide +kernel

end LineTable

end SpanReview
