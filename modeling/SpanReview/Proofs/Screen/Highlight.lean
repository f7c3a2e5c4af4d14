import SpanReview.Proofs.Screen.Window

namespace SpanReview

/-! What is painted as the span is the span: its characters in the order of the text, or the one
that a span without width stands at. -/

namespace Screen

variable {screen : Screen} {line hidden : Int} {length : Nat} {cs : List Char} {text : String}

theorem filter_mapIdx_between {f : Nat → Char → Placed} {covered : Placed → Bool}
    (hchar : ∀ i c, (f i c).char = c) {enter leave : Nat}
    (h : ∀ (i : Nat) (hi : i < cs.length), covered (f i cs[i]) ↔ enter ≤ i ∧ i < leave) :
    ((cs.mapIdx f).filter covered).map Placed.char = (cs.drop enter).take (leave - enter) := by
  induction cs generalizing f enter leave with
  | nil => simp
  | cons c cs ih =>
      have hfirst := h 0 (Nat.zero_lt_succ _)
      -- the tail is numbered from one on, so both ends move down
      have hrest : ((cs.mapIdx fun i => f (i + 1)).filter covered).map Placed.char =
          (cs.drop (enter - 1)).take (leave - 1 - (enter - 1)) := by
        refine ih (fun i c => hchar (i + 1) c) fun i hi => ?_
        have hnext := h (i + 1) (Nat.succ_lt_succ hi)
        rw [List.getElem_cons_succ] at hnext
        rw [hnext]
        omega
      rw [List.getElem_cons_zero] at hfirst
      rw [List.mapIdx_cons, List.filter_cons]
      split
      · rename_i hcovered
        obtain ⟨henter, hleave⟩ := hfirst.mp hcovered
        obtain rfl : enter = 0 := Nat.le_zero.mp henter
        obtain ⟨count, rfl⟩ := Nat.exists_eq_succ_of_ne_zero (Nat.pos_iff_ne_zero.mp hleave)
        rw [List.map_cons, hchar, hrest]
        rfl
      · rename_i hcovered
        rw [hrest]
        cases enter with
        | zero =>
            obtain rfl : leave = 0 := by
              by_contra hleave
              exact hcovered (hfirst.mpr ⟨Nat.le_refl 0, Nat.pos_of_ne_zero hleave⟩)
            rfl
        | succ enter =>
            rw [List.drop_succ_cons, Nat.add_sub_cancel, Nat.sub_sub, Nat.add_comm 1]

/-! One line. -/

theorem covers_iff_between (hstart : screen.proposed.start.line ≤ line)
    (hfinish : line ≤ screen.proposed.finish.line) {i : Nat} (hi : i < length) :
    screen.proposed.Covers ⟨line, i + 1 + hidden⟩ ↔
      (screen.reach line hidden length).1 ≤ i ∧ i < (screen.reach line hidden length).2 := by
  unfold Span.Covers reach offset
  rw [Pos.le_def, Pos.lt_def]
  dsimp only
  split <;> split <;> omega

theorem not_covers_of_aside {pos : Pos}
    (haside : pos.line < screen.proposed.start.line ∨ screen.proposed.finish.line < pos.line) :
    ¬screen.proposed.Covers pos := by
  unfold Span.Covers
  rw [Pos.le_def, Pos.lt_def]
  omega

/-- The characters of a line that the span covers. -/
def covered (screen : Screen) (line : Int) : List Char :=
  ((screen.lines.seen line).filter (screen.proposed.Covers ·.pos)).map Placed.char

theorem covered_of_aside
    (haside : line < screen.proposed.start.line ∨ screen.proposed.finish.line < line) :
    screen.covered line = [] := by
  have hnone : (screen.lines.seen line).filter (screen.proposed.Covers ·.pos) = [] := by
    refine List.filter_eq_nil_iff.mpr fun placed hplaced hcovers => ?_
    have hline := LineTable.line_of_mem_seen hplaced
    exact not_covers_of_aside (hline.symm ▸ haside) (of_decide_eq_true hcovers)
  rw [covered, hnone]
  rfl

theorem covered_of_line? (h : screen.lines.line? line = some text)
    (hvisible : visible line text.toList = (cs, hidden))
    (hstart : screen.proposed.start.line ≤ line) (hfinish : line ≤ screen.proposed.finish.line) :
    screen.covered line = (cs.drop (screen.reach line hidden cs.length).1).take
      ((screen.reach line hidden cs.length).2 - (screen.reach line hidden cs.length).1) := by
  rw [covered, LineTable.seen_of_line? h, hvisible]
  refine filter_mapIdx_between (fun _ _ => rfl) fun i hi => ?_
  rw [decide_eq_true_iff]
  exact covers_iff_between hstart hfinish hi

theorem shade_eq_highlight {paint : Paint} :
    paint.shade = Paint.highlight.shade ↔ paint = .highlight := by
  cases paint <;> decide

/-- What is painted as the span in a row. -/
def highlightOf (row : Row) : List Char :=
  (row.filter (·.paint = .highlight)).flatMap (·.text.toList)

theorem highlightOf_spanLine (hjson : screen.display.json = false) :
    highlightOf (screen.spanLine line hidden cs) =
      (cs.drop (screen.cut line hidden cs.length).1).take
          ((screen.cut line hidden cs.length).2 - (screen.cut line hidden cs.length).1) ++
        if screen.MarksEnd line hidden cs.length then [' '] else [] := by
  simp only [highlightOf, spanLine_eq, ending, quotes, hjson, Bool.false_eq_true, if_false]
  split <;> simp [toList_shownText, hjson]

theorem highlightOf_windowRow (screen : Screen) (line : Int) :
    highlightOf (screen.windowRow line) = highlightOf (screen.sourceLine line) := by
  rw [windowRow, highlightOf, List.filter_cons_of_neg (by simp)]
  rfl

theorem highlightOf_sourceLine_of_aside
    (haside : line < screen.proposed.start.line ∨ screen.proposed.finish.line < line) :
    highlightOf (screen.sourceLine line) = [] := by
  unfold sourceLine
  cases screen.lines.line? line with
  | none => simp [highlightOf]
  | some text =>
      dsimp only
      rw [if_pos haside]
      simp [highlightOf, plainLine]

theorem highlightOf_sourceLine (hjson : screen.display.json = false)
    (h : screen.lines.line? line = some text)
    (hvisible : visible line text.toList = (cs, hidden))
    (hstart : screen.proposed.start.line ≤ line) (hfinish : line ≤ screen.proposed.finish.line) :
    highlightOf (screen.sourceLine line) =
      (cs.drop (screen.cut line hidden cs.length).1).take
          ((screen.cut line hidden cs.length).2 - (screen.cut line hidden cs.length).1) ++
        if screen.MarksEnd line hidden cs.length then [' '] else [] := by
  rw [← highlightOf_spanLine hjson, sourceLine, h]
  dsimp only
  rw [hvisible, if_neg (by omega)]

theorem highlightOf_of_not_empty (hjson : screen.display.json = false)
    (h : screen.lines.line? line = some text)
    (hvisible : visible line text.toList = (cs, hidden))
    (hstart : screen.proposed.start.line ≤ line) (hfinish : line ≤ screen.proposed.finish.line)
    (hempty : ¬screen.IsEmptyAt line hidden cs.length) :
    highlightOf (screen.sourceLine line) = screen.covered line := by
  have hcut : screen.cut line hidden cs.length = screen.reach line hidden cs.length := by
    unfold cut
    dsimp only
    rw [if_neg fun hboth => hempty hboth.1]
  rw [highlightOf_sourceLine hjson h hvisible hstart hfinish, hcut,
    if_neg fun hmarks => hempty hmarks.1, List.append_nil,
    covered_of_line? h hvisible hstart hfinish]

theorem not_isEmptyAt_of_covered (h : screen.lines.line? line = some text)
    (hvisible : visible line text.toList = (cs, hidden))
    (hstart : screen.proposed.start.line = line) (hfinish : screen.proposed.finish.line = line)
    {placed : Placed} (hseen : placed ∈ screen.lines.seen line)
    (hcovers : screen.proposed.Covers placed.pos) :
    ¬screen.IsEmptyAt line hidden cs.length := by
  obtain ⟨i, hi, rfl⟩ := (mem_seen_iff h hvisible).mp hseen
  have hbetween := (covers_iff_between (by omega) (by omega) hi).mp hcovers
  rintro ⟨_, hsame⟩
  omega

theorem highlightOf_of_width_zero (hjson : screen.display.json = false) {placed : Placed}
    (hseen : placed ∈ screen.lines.seen line) (hstart : screen.proposed.start = placed.pos)
    (hfinish : screen.proposed.finish = placed.pos) :
    highlightOf (screen.sourceLine line) = [placed.char] := by
  have hline := LineTable.line_of_mem_seen hseen
  have hfirst : screen.proposed.start.line = line := by rw [hstart, hline]
  have hlast : screen.proposed.finish.line = line := by rw [hfinish, hline]
  obtain ⟨text, htext⟩ := LineTable.line?_of_mem_seen hseen
  obtain ⟨cs, hidden, hvisible⟩ : ∃ cs hidden, visible line text.toList = (cs, hidden) :=
    ⟨_, _, rfl⟩
  obtain ⟨i, hi, rfl⟩ := (mem_seen_iff htext hvisible).mp hseen
  have hreach : screen.reach line hidden cs.length = (i, i) := by
    unfold reach offset
    dsimp only
    rw [if_pos hfirst.symm, if_pos hlast.symm, hstart, hfinish]
    dsimp only
    rw [Prod.mk.injEq]
    omega
  have hempty : screen.IsEmptyAt line hidden cs.length :=
    ⟨hfirst.trans hlast.symm, by rw [hreach]⟩
  have hmarks : ¬screen.MarksEnd line hidden cs.length := by
    rintro ⟨_, hend⟩
    rw [hreach] at hend
    exact hend hi
  -- the empty reach is widened to the character after it
  have hcut : screen.cut line hidden cs.length = (i, i + 1) := by
    unfold cut
    rw [hreach]
    dsimp only
    rw [if_pos ⟨hempty, hi⟩]
  rw [highlightOf_sourceLine hjson htext hvisible (by omega) (by omega), hcut, if_neg hmarks,
    List.append_nil]
  dsimp only
  rw [Nat.add_sub_cancel_left, List.drop_eq_getElem_cons hi, List.take_succ_cons, List.take_zero]

/-! The window. -/

theorem shownIn_rows {rows : List Row} (h : ∀ row ∈ rows, row.Clean) :
    (Terminal.shownIn Paint.highlight.shade (rowsText true rows)).toList =
      rows.flatMap highlightOf := by
  rw [shownIn_rowsText h (by decide)]
  simp only [shade_eq_highlight]
  rfl

theorem shownIn_window {content : String} (hlines : screen.lines = .ofText content)
    (hclean : Terminal.escape ∉ content.toList)
    (hordered : screen.proposed.start.line ≤ screen.proposed.finish.line) :
    (Terminal.shownIn Paint.highlight.shade (screen.window true)).toList =
      (lineNumbers screen.proposed.start.line screen.proposed.finish.line).flatMap fun line =>
        highlightOf (screen.sourceLine line) := by
  rw [window, shownIn_rows (clean_window hlines hclean), List.flatMap_map,
    windowLines_eq]
  refine (List.flatMap_congr fun line _ => highlightOf_windowRow screen line).trans ?_
  exact flatMap_lineNumbers (by omega) hordered (by omega)
    fun n haside => highlightOf_sourceLine_of_aside haside

theorem covered_allSeen (hinside : screen.proposed.Inside screen.lines)
    (hordered : screen.proposed.start.line ≤ screen.proposed.finish.line) :
    (screen.lines.allSeen.filter (screen.proposed.Covers ·.pos)).map Placed.char =
      (lineNumbers screen.proposed.start.line screen.proposed.finish.line).flatMap
        screen.covered := by
  rw [LineTable.allSeen, List.filter_flatMap, List.map_flatMap]
  exact flatMap_lineNumbers hinside.1.one_le_line hordered hinside.2.line_le
    fun n haside => covered_of_aside haside

theorem highlightOf_headRows (screen : Screen) :
    ∀ row ∈ screen.headRows, highlightOf row = [] := by
  have hstatus : (if screen.isMatch then Paint.green else .red) ≠ .highlight := by
    split <;> decide
  have htoken : ∀ row ∈ screen.tokenRows, highlightOf row = [] := by
    unfold tokenRows
    split
    · split <;> simp [highlightOf]
    · exact List.forall_mem_nil _
  unfold headRows
  refine List.forall_mem_append.mpr ⟨?_, htoken⟩
  simp [highlightOf, title, spanRow, labelRow, hstatus]

/-- Nothing above the window is highlighted. -/
theorem shownIn_render {content : String} (hlines : screen.lines = .ofText content)
    (hclean : Terminal.escape ∉ content.toList) (hfile : Terminal.escape ∉ screen.file.toList)
    (hlabel : Terminal.escape ∉ screen.label.toList) :
    Terminal.shownIn Paint.highlight.shade (screen.render true) =
      Terminal.shownIn Paint.highlight.shade (screen.window true) := by
  have hwindow := clean_window hlines hclean
  have hrows := List.forall_mem_append.mpr ⟨clean_headRows hfile hlabel, hwindow⟩
  have hnone : screen.headRows.flatMap highlightOf = [] :=
    List.flatMap_eq_nil_iff.mpr screen.highlightOf_headRows
  rw [← String.toList_inj, window, shownIn_rows hwindow, render_eq_rowsText, shownIn_rows hrows,
    List.flatMap_append, hnone, List.nil_append]

theorem highlight_is_span {screen : Screen} {text : String}
    (hlines : screen.lines = .ofText text) (hclean : Terminal.escape ∉ text.toList)
    (hinside : screen.proposed.Inside screen.lines) (hjson : screen.display.json = false) :
    screen.render true = screen.heading true ++ screen.window true ∧
    (Terminal.escape ∉ screen.file.toList → Terminal.escape ∉ screen.label.toList →
      Terminal.shownIn Paint.highlight.shade (screen.render true) =
        Terminal.shownIn Paint.highlight.shade (screen.window true)) ∧
    (screen.proposed.start < screen.proposed.finish →
      (screen.proposed.start.line ≠ screen.proposed.finish.line ∨
        ∃ placed ∈ screen.lines.allSeen, screen.proposed.Covers placed.pos) →
      (Terminal.shownIn Paint.highlight.shade (screen.window true)).toList =
        (screen.lines.allSeen.filter (screen.proposed.Covers ·.pos)).map Placed.char) ∧
    ∀ placed ∈ screen.lines.allSeen, screen.proposed.start = placed.pos →
      screen.proposed.finish = placed.pos →
      (Terminal.shownIn Paint.highlight.shade (screen.window true)).toList = [placed.char] := by
  refine ⟨screen.render_eq true, shownIn_render hlines hclean, fun hlt hreaches => ?_,
    fun placed hplaced hstart hfinish => ?_⟩
  · have hordered : screen.proposed.start.line ≤ screen.proposed.finish.line := by
      rw [Pos.lt_def] at hlt
      omega
    rw [shownIn_window hlines hclean hordered, covered_allSeen hinside hordered]
    refine List.flatMap_congr fun line hline => ?_
    obtain ⟨hfirst, hlast⟩ := mem_lineNumbers.mp hline
    have hleast := hinside.1.one_le_line
    have hmost := hinside.2.line_le
    obtain ⟨content, hcontent⟩ : ∃ content, screen.lines.line? line = some content :=
      LineTable.exists_line? (by omega) (by omega)
    -- a reach can only be empty on a single line, and there the span covers a character
    refine highlightOf_of_not_empty hjson hcontent rfl hfirst hlast fun hempty => ?_
    rcases hreaches with hlines | ⟨placed, hplaced, hcovers⟩
    · exact hlines hempty.1
    · obtain ⟨other, _, hseen⟩ := List.mem_flatMap.mp hplaced
      have hother := LineTable.line_of_mem_seen hseen
      have hsingle := hempty.1
      have hon : other = line := by
        by_contra hne
        have haside : placed.pos.line < screen.proposed.start.line ∨
            screen.proposed.finish.line < placed.pos.line := by omega
        exact not_covers_of_aside haside hcovers
      subst hon
      exact not_isEmptyAt_of_covered hcontent rfl (by omega) (by omega) hseen hcovers hempty
  · obtain ⟨line, _, hseen⟩ := List.mem_flatMap.mp hplaced
    have hline := LineTable.line_of_mem_seen hseen
    have hfirst : screen.proposed.start.line = line := by rw [hstart, hline]
    have hlast : screen.proposed.finish.line = line := by rw [hfinish, hline]
    have hone : lineNumbers line line = [line] := by simp [lineNumbers]
    rw [shownIn_window hlines hclean (by omega), hfirst, hlast, hone, List.flatMap_singleton,
      highlightOf_of_width_zero hjson hseen hstart hfinish]

/-- From the first character that is seen to the end of the text. -/
def overTwoLines : Screen :=
  { atMarkedEnd with proposed := ⟨"a.pug", ⟨1, 2⟩, ⟨2, 2⟩⟩ }

/-- Before the last character of a line. -/
def atLastCharacter : Screen :=
  { atMarkedEnd with proposed := ⟨"a.pug", ⟨1, 3⟩, ⟨1, 3⟩⟩ }

theorem two_lines_and_last_character_are_highlighted :
    (overTwoLines.lines = .ofText "\ufeffab\r\nc" ∧ atLastCharacter.lines = overTwoLines.lines) ∧
      Terminal.escape ∉ "\ufeffab\r\nc".toList ∧
      (overTwoLines.proposed.Inside overTwoLines.lines ∧
        atLastCharacter.proposed.Inside atLastCharacter.lines) ∧
      (overTwoLines.display.json = false ∧ atLastCharacter.display.json = false) ∧
      overTwoLines.proposed.start < overTwoLines.proposed.finish ∧
      overTwoLines.proposed.start.line ≠ overTwoLines.proposed.finish.line ∧
      Terminal.shownIn Paint.highlight.shade (overTwoLines.render true) = "abc" ∧
      (⟨⟨1, 3⟩, 'b'⟩ : Placed) ∈ atLastCharacter.lines.allSeen ∧
      Terminal.shownIn Paint.highlight.shade (atLastCharacter.render true) = "b" := by
  have hclean : Terminal.escape ∉ "\ufeffab\r\nc".toList := by decide
  have hfile : Terminal.escape ∉ "a.pug".toList := by decide
  have hlabel : Terminal.escape ∉ "TEXT".toList := by decide
  have htwo : overTwoLines.proposed.Inside overTwoLines.lines := by
    constructor <;> constructor <;> decide +kernel
  have hlast : atLastCharacter.proposed.Inside atLastCharacter.lines := by
    constructor <;> constructor <;> decide +kernel
  have hlt : overTwoLines.proposed.start < overTwoLines.proposed.finish := by decide
  have hreaches : overTwoLines.proposed.start.line ≠ overTwoLines.proposed.finish.line := by decide
  have hseen : (⟨⟨1, 3⟩, 'b'⟩ : Placed) ∈ atLastCharacter.lines.allSeen := by decide +kernel
  have hcovered : (overTwoLines.lines.allSeen.filter (overTwoLines.proposed.Covers ·.pos)).map
      Placed.char = ['a', 'b', 'c'] := by decide +kernel
  obtain ⟨_, hrender, hspan, _⟩ := highlight_is_span (show overTwoLines.lines = _ from rfl) hclean
    htwo rfl
  obtain ⟨_, hrender', _, hwidth⟩ := highlight_is_span
    (show atLastCharacter.lines = _ from rfl) hclean hlast rfl
  refine ⟨⟨rfl, rfl⟩, hclean, ⟨htwo, hlast⟩, ⟨rfl, rfl⟩, hlt, hreaches, ?_, hseen, ?_⟩
  · rw [hrender hfile hlabel, ← String.toList_inj, hspan hlt (.inl hreaches), hcovered]
    rfl
  · rw [hrender' hfile hlabel, ← String.toList_inj, hwidth _ hseen rfl rfl]
    rfl

end Screen

end SpanReview
