import Mathlib.Data.List.Sort
import SpanReview.Proofs.Screen.Paint
import SpanReview.Proofs.Span.Placed

namespace SpanReview

/-! The window shows the lines around a span completely, each on a row of its own, whatever
pieces they are painted in. -/

/-- The span lies on this line, past all that is seen there. -/
structure Span.PastLine (span : Span) (table : LineTable) (line : Int) : Prop where
  start : span.start.line = line
  finish : span.finish.line = line
  uncovered : ∀ placed ∈ table.seen line, ¬span.Covers placed.pos
  past : ∀ placed ∈ table.seen line, placed.pos < span.start

namespace Screen

variable {screen : Screen} {line hidden : Int} {length : Nat} {cs : List Char}

/-- The start of a row: the number of its line, at the right end of four columns or of as many
more as it takes itself. -/
structure StartsRow (line : Int) (cs : List Char) : Prop where
  aligned : ∃ blanks, cs = List.replicate blanks ' ' ++ (toString line).toList
  width : cs.length = max 4 (toString line).length

theorem StartsRow.eq (h : StartsRow line cs) :
    cs = List.replicate (4 - (toString line).length) ' ' ++ (toString line).toList := by
  obtain ⟨⟨blanks, rfl⟩, hwidth⟩ := h
  rw [List.length_append, List.length_replicate, String.length_toList] at hwidth
  have hblanks : blanks = 4 - (toString line).length := by omega
  rw [hblanks]

theorem startsRow_padLeft (line : Int) :
    StartsRow line (padLeft 4 (Text.intText line)).toList := by
  rw [Text.intText_eq_toString, padLeft, String.toList_append, String.toList_ofList]
  refine ⟨⟨_, rfl⟩, ?_⟩
  rw [List.length_append, List.length_replicate, String.length_toList]
  omega

/-- What is to be shown of a line. -/
inductive Shows (screen : Screen) (line : Int) : List Char → Prop
  | outside (h : line < 1 ∨ screen.lines.lineCount < line) : Shows screen line [' ']
  | escaped (hfirst : 1 ≤ line) (hlast : line ≤ screen.lines.lineCount)
      (hjson : screen.display.json = true)
      (hread : Json.parse? (String.ofList
        (Json.quoteChars ((screen.lines.seen line).map Placed.char))) =
          some (.string (String.ofList ((screen.lines.seen line).map Placed.char)))) :
      Shows screen line (Json.quoteChars ((screen.lines.seen line).map Placed.char))
  | plain (hfirst : 1 ≤ line) (hlast : line ≤ screen.lines.lineCount)
      (hjson : screen.display.json = false) (hend : ¬screen.proposed.PastLine screen.lines line) :
      Shows screen line ((screen.lines.seen line).map Placed.char)
  | marked (hfirst : 1 ≤ line) (hlast : line ≤ screen.lines.lineCount)
      (hjson : screen.display.json = false) (hend : screen.proposed.PastLine screen.lines line) :
      Shows screen line ((screen.lines.seen line).map Placed.char ++ [' '])

theorem shows_escaped (hfirst : 1 ≤ line) (hlast : line ≤ screen.lines.lineCount)
    (hjson : screen.display.json = true) :
    screen.Shows line (Json.quoteChars ((screen.lines.seen line).map Placed.char)) := by
  have hread := Json.parse?_quote (String.ofList ((screen.lines.seen line).map Placed.char))
  rw [Json.quote, String.toList_ofList] at hread
  exact .escaped hfirst hlast hjson hread

/-- There is one way to show a line. -/
theorem Shows.unique {others : List Char} (h : screen.Shows line cs)
    (hothers : screen.Shows line others) : cs = others := by
  cases h with
  | outside h =>
      cases hothers with
      | outside => rfl
      | _ => omega
  | escaped _ _ hjson =>
      cases hothers with
      | outside => omega
      | escaped => rfl
      | plain _ _ hother => cases hjson.symm.trans hother
      | marked _ _ hother => cases hjson.symm.trans hother
  | plain _ _ hjson hend =>
      cases hothers with
      | outside => omega
      | escaped _ _ hother => cases hjson.symm.trans hother
      | plain => rfl
      | marked _ _ _ hpast => exact absurd hpast hend
  | marked _ _ hjson hpast =>
      cases hothers with
      | outside => omega
      | escaped _ _ hother => cases hjson.symm.trans hother
      | plain _ _ _ hend => exact absurd hpast hend
      | marked => rfl

/-! Where a line is cut. -/

def IsEmptyAt (screen : Screen) (line hidden : Int) (length : Nat) : Prop :=
  screen.proposed.start.line = screen.proposed.finish.line ∧
    (screen.reach line hidden length).1 = (screen.reach line hidden length).2

instance (screen : Screen) (line hidden : Int) (length : Nat) :
    Decidable (screen.IsEmptyAt line hidden length) :=
  inferInstanceAs (Decidable (_ ∧ _))

/-- The offsets between which a line is highlighted. -/
def cut (screen : Screen) (line hidden : Int) (length : Nat) : Nat × Nat :=
  let (enter, leave) := screen.reach line hidden length
  (enter, if screen.IsEmptyAt line hidden length ∧ enter < length then enter + 1 else leave)

/-- The end of the line is highlighted in place of a character. -/
def MarksEnd (screen : Screen) (line hidden : Int) (length : Nat) : Prop :=
  screen.IsEmptyAt line hidden length ∧ ¬(screen.reach line hidden length).1 < length

instance (screen : Screen) (line hidden : Int) (length : Nat) :
    Decidable (screen.MarksEnd line hidden length) :=
  inferInstanceAs (Decidable (_ ∧ _))

theorem reach_le (screen : Screen) (line hidden : Int) (length : Nat) :
    (screen.reach line hidden length).1 ≤ (screen.reach line hidden length).2 ∧
      (screen.reach line hidden length).2 ≤ length := by
  unfold reach offset
  dsimp only
  split <;> split <;> omega

theorem cut_le (screen : Screen) (line hidden : Int) (length : Nat) :
    (screen.cut line hidden length).1 ≤ (screen.cut line hidden length).2 ∧
      (screen.cut line hidden length).2 ≤ length := by
  have hreach := screen.reach_le line hidden length
  unfold cut
  dsimp only
  split <;> omega

theorem take_cut {enter leave : Nat} (h : enter ≤ leave) (cs : List Char) :
    cs.take enter ++ (cs.drop enter).take (leave - enter) ++ cs.drop leave = cs := by
  have hdrop : (cs.drop enter).drop (leave - enter) = cs.drop leave := by
    rw [List.drop_drop, Nat.add_sub_cancel' h]
  rw [List.append_assoc, ← hdrop, List.take_append_drop, List.take_append_drop]

def quotes (screen : Screen) (paint : Paint) : Row :=
  if screen.display.json then [⟨paint, "\""⟩] else []

/-- What stands after the last character of a line. -/
def ending (screen : Screen) (line hidden : Int) (length : Nat) : Row :=
  if screen.MarksEnd line hidden length then
    if screen.display.json then screen.quotes .highlight else [⟨.highlight, " "⟩]
  else screen.quotes .gray

theorem spanLine_eq (screen : Screen) (line hidden : Int) (cs : List Char) :
    screen.spanLine line hidden cs = screen.quotes .gray ++
      [⟨.gray, screen.shownText (cs.take (screen.cut line hidden cs.length).1)⟩,
        ⟨.highlight, screen.shownText ((cs.drop (screen.cut line hidden cs.length).1).take
          ((screen.cut line hidden cs.length).2 - (screen.cut line hidden cs.length).1))⟩,
        ⟨.gray, screen.shownText (cs.drop (screen.cut line hidden cs.length).2)⟩] ++
      screen.ending line hidden cs.length := rfl

/-! When the end of a line is marked. -/

theorem visible_length (line : Int) (text : List Char) :
    ((visible line text).1.length : Int) + (visible line text).2 = text.length ∧
      0 ≤ (visible line text).2 ∧ (visible line text).2 ≤ 1 := by
  unfold visible
  split
  · split <;> simp
  · simp

theorem visible_subset (line : Int) (text : List Char) : (visible line text).1 ⊆ text := by
  unfold visible
  split
  · split
    · exact List.subset_cons_self _ _
    · exact List.Subset.refl _
  · exact List.nil_subset _

theorem mem_seen_iff {text : String} (h : screen.lines.line? line = some text)
    (hvisible : visible line text.toList = (cs, hidden)) {placed : Placed} :
    placed ∈ screen.lines.seen line ↔
      ∃ (i : Nat) (hi : i < cs.length), ⟨⟨line, i + 1 + hidden⟩, cs[i]⟩ = placed := by
  rw [LineTable.seen_of_line? h, hvisible, List.mem_mapIdx]

theorem map_char_seen {text : String} (h : screen.lines.line? line = some text) :
    (screen.lines.seen line).map Placed.char = (visible line text.toList).1 := by
  rw [LineTable.seen_of_line? h, List.mapIdx_eq_zipIdx_map, List.map_map]
  exact List.zipIdx_map_fst 0 _

theorem not_marksEnd_of_lines (h : screen.proposed.start.line ≠ screen.proposed.finish.line) :
    ¬screen.MarksEnd line hidden length :=
  fun hmarks => h hmarks.1.1

theorem marksEnd_iff_of_line (hstart : screen.proposed.start.line = line)
    (hfinish : screen.proposed.finish.line = line) :
    screen.MarksEnd line hidden length ↔
      length ≤ (screen.proposed.start.column - hidden - 1).toNat := by
  unfold MarksEnd IsEmptyAt reach offset
  dsimp only
  rw [if_pos hstart.symm, if_pos hfinish.symm, hstart, hfinish]
  omega

theorem pastLine_iff_of_line {text : String} (h : screen.lines.line? line = some text)
    (hvisible : visible line text.toList = (cs, hidden))
    (hstart : screen.proposed.start.line = line) (hfinish : screen.proposed.finish.line = line) :
    screen.proposed.PastLine screen.lines line ↔
      cs.length ≤ (screen.proposed.start.column - hidden - 1).toNat := by
  have hleast : 0 ≤ hidden := by
    have hlength := visible_length line text.toList
    rw [hvisible] at hlength
    exact hlength.2.1
  constructor
  · intro hpast
    cases hlength : cs.length with
    | zero => exact Nat.zero_le _
    | succ before =>
        -- the last character that is seen
        have hlast := hpast.past _ ((mem_seen_iff h hvisible).mpr ⟨before, by omega, rfl⟩)
        rw [Pos.lt_def] at hlast
        dsimp only at hlast
        omega
  · intro hlength
    have hbefore : ∀ placed ∈ screen.lines.seen line, placed.pos < screen.proposed.start := by
      intro placed hplaced
      obtain ⟨i, hi, rfl⟩ := (mem_seen_iff h hvisible).mp hplaced
      rw [Pos.lt_def]
      dsimp only
      omega
    refine ⟨hstart, hfinish, fun placed hplaced hcovers => ?_, hbefore⟩
    have hpast := hbefore placed hplaced
    have hfrom := hcovers.1
    rw [Pos.lt_def] at hpast
    rw [Pos.le_def] at hfrom
    omega

theorem marksEnd_iff {text : String} (h : screen.lines.line? line = some text)
    (hvisible : visible line text.toList = (cs, hidden))
    (hstart : screen.proposed.start.line ≤ line) (hfinish : line ≤ screen.proposed.finish.line) :
    screen.MarksEnd line hidden cs.length ↔ screen.proposed.PastLine screen.lines line := by
  by_cases hsingle : screen.proposed.start.line = line ∧ screen.proposed.finish.line = line
  · rw [marksEnd_iff_of_line hsingle.1 hsingle.2,
      pastLine_iff_of_line h hvisible hsingle.1 hsingle.2]
  · refine iff_of_false (not_marksEnd_of_lines fun heq => hsingle (by omega)) fun hpast => ?_
    exact hsingle ⟨hpast.start, hpast.finish⟩

/-! Rows without colour. -/

theorem toList_row (row : Row) : (row.render false).toList = row.flatMap (·.text.toList) := by
  rw [Row.toList_render]
  rfl

theorem toList_shownText (screen : Screen) (cs : List Char) :
    (screen.shownText cs).toList = if screen.display.json then Json.escape cs else cs := by
  rw [shownText, String.toList_ofList]

theorem toList_shownText_append (screen : Screen) (cs others : List Char) :
    (screen.shownText (cs ++ others)).toList =
      (screen.shownText cs).toList ++ (screen.shownText others).toList := by
  simp only [toList_shownText]
  split
  · exact List.flatMap_append
  · rfl

theorem toList_plainLine (screen : Screen) (cs : List Char) :
    ((screen.plainLine cs).render false).toList =
      if screen.display.json then Json.quoteChars cs else cs := by
  rw [toList_row, plainLine]
  simp

theorem flatMap_ending (screen : Screen) (line hidden : Int) (length : Nat) :
    (screen.ending line hidden length).flatMap (·.text.toList) =
      if screen.display.json then ['"']
      else if screen.MarksEnd line hidden length then [' '] else [] := by
  unfold ending quotes
  cases screen.display.json <;> split <;> rfl

theorem toList_spanLine (screen : Screen) (line hidden : Int) (cs : List Char) :
    ((screen.spanLine line hidden cs).render false).toList =
      if screen.display.json then Json.quoteChars cs
      else cs ++ if screen.MarksEnd line hidden cs.length then [' '] else [] := by
  -- escaping goes character by character, so the escaped pieces are the escaped line
  have hcut := take_cut (screen.cut_le line hidden cs.length).1 cs
  have hwhole := congrArg (fun cs => (screen.shownText cs).toList) hcut
  simp only [toList_shownText_append] at hwhole
  rw [toList_row, spanLine_eq, List.flatMap_append, List.flatMap_append, flatMap_ending]
  simp only [List.flatMap_cons, List.flatMap_nil, List.append_nil]
  rw [← List.append_assoc (screen.shownText _).toList, hwhole, toList_shownText, quotes]
  split <;> rfl

theorem shows_sourceLine (screen : Screen) (line : Int) :
    screen.Shows line ((screen.sourceLine line).render false).toList := by
  unfold sourceLine
  cases htext : screen.lines.line? line with
  | none =>
      dsimp only
      rw [toList_row]
      exact .outside (LineTable.line?_eq_none_iff.mp htext)
  | some text =>
      obtain ⟨hfirst, hlast⟩ := LineTable.range_of_line? htext
      have hseen := map_char_seen htext
      dsimp only
      split
      · rename_i haside
        have hend : ¬screen.proposed.PastLine screen.lines line := by
          intro hpast
          have hstart := hpast.start
          have hfinish := hpast.finish
          omega
        rw [toList_plainLine, ← hseen]
        split
        · rename_i hjson
          exact shows_escaped hfirst hlast hjson
        · rename_i hjson
          exact .plain hfirst hlast (by simpa using hjson) hend
      · rename_i hreached
        have hmarks := marksEnd_iff htext (Prod.eta _).symm (by omega) (by omega)
        rw [toList_spanLine, ← hseen]
        rw [← hseen] at hmarks
        split
        · rename_i hjson
          exact shows_escaped hfirst hlast hjson
        · rename_i hjson
          split
          · rename_i hend
            exact .marked hfirst hlast (by simpa using hjson) (hmarks.mp hend)
          · rename_i hend
            rw [List.append_nil]
            exact .plain hfirst hlast (by simpa using hjson) (fun hpast => hend (hmarks.mpr hpast))

theorem Shows.noBreak {text : String} (hlines : screen.lines = .ofText text)
    (h : screen.Shows line cs) : '\n' ∉ cs := by
  have hseen : '\n' ∉ (screen.lines.seen line).map Placed.char := by
    cases htext : screen.lines.line? line with
    | none => simp [LineTable.seen, LineTable.placed, htext]
    | some shown =>
        rw [map_char_seen htext]
        rw [hlines] at htext
        have hbreak := (linesOf_splitLines _ _ (LineTable.mem_splitLines_of_line? htext)).2
        exact fun hmem => hbreak (visible_subset _ _ hmem)
  cases h with
  | outside => decide
  | escaped =>
      intro hmem
      have hvisible := Json.visible_quote (String.ofList ((screen.lines.seen line).map Placed.char))
      rw [Json.quote, String.toList_ofList, String.toList_ofList] at hvisible
      exact absurd (hvisible _ hmem) (by decide)
  | plain => exact hseen
  | marked =>
      intro hmem
      rcases List.mem_append.mp hmem with hmem | hmem
      · exact hseen hmem
      · exact absurd hmem (by decide)

/-! The whole picture. -/

def headRows (screen : Screen) : List Row :=
  [screen.title, spanRow "  actual:" screen.actual, spanRow "expected:" screen.expected,
    spanRow " will be:" screen.proposed, screen.labelRow] ++ screen.tokenRows

/-- What is drawn above the window. -/
def heading (screen : Screen) (color : Bool) : String :=
  rowsText color screen.headRows

def window (screen : Screen) (color : Bool) : String :=
  rowsText color (screen.windowLines.map screen.windowRow)

theorem render_eq_rowsText (screen : Screen) (color : Bool) :
    screen.render color =
      rowsText color (screen.headRows ++ screen.windowLines.map screen.windowRow) := rfl

theorem render_eq (screen : Screen) (color : Bool) :
    screen.render color = screen.heading color ++ screen.window color := by
  rw [render_eq_rowsText, rowsText, List.map_append, String.join_append]
  rfl

theorem windowLines_eq (screen : Screen) :
    screen.windowLines =
      lineNumbers (screen.proposed.start.line - 2) (screen.proposed.finish.line + 2) := rfl

theorem windowRow_render (screen : Screen) (line : Int) :
    (screen.windowRow line).render false =
      padLeft 4 (Text.intText line) ++ "| " ++ (screen.sourceLine line).render false := by
  rw [windowRow, Row.render, List.map_cons, String.join_cons]
  rfl

/-! Pictures of texts without the character that starts a colour code. -/

theorem clean_of_visible (h : Json.Visible cs) : Terminal.escape ∉ cs :=
  fun hmem => absurd (h _ hmem) (by decide)

theorem clean_of_printed (h : Json.Printed cs) : Terminal.escape ∉ cs :=
  fun hmem => absurd (h _ hmem) (by decide)

theorem clean_append {text more : String} (h : Terminal.escape ∉ text.toList)
    (hmore : Terminal.escape ∉ more.toList) : Terminal.escape ∉ (text ++ more).toList := by
  rw [String.toList_append]
  exact fun hmem => (List.mem_append.mp hmem).elim h hmore

theorem clean_natText (n : Nat) : Terminal.escape ∉ (Text.natText n).toList :=
  clean_of_visible (Json.visible_natText n)

theorem clean_intText (n : Int) : Terminal.escape ∉ (Text.intText n).toList :=
  clean_of_visible (Json.visible_intText n)

theorem clean_title (h : Terminal.escape ∉ screen.file.toList) : screen.title.Clean := by
  have hstem : Terminal.escape ∉ (Path.stemOrSelf screen.file).toList :=
    fun hmem => h (Path.stemOrSelf_subset _ hmem)
  have hposition := clean_append (by decide : Terminal.escape ∉ " ".toList)
    (clean_natText (screen.position + 1))
  simp only [Row.Clean, title, List.forall_mem_cons]
  exact ⟨hstem, by decide, by decide, hposition, List.forall_mem_nil _⟩

theorem clean_showNumber (n : Int) : Terminal.escape ∉ (Span.showNumber n).toList := by
  unfold Span.showNumber
  split
  · decide
  · exact clean_intText n

theorem clean_spanRow {name : String} (hname : Terminal.escape ∉ name.toList) (span : Span) :
    (spanRow name span).Clean := by
  have hcolon : Terminal.escape ∉ ":".toList := by decide
  have hspan : Terminal.escape ∉ span.describe.toList := by
    unfold Span.describe
    exact clean_append (clean_append (clean_append (clean_append (clean_append (clean_append
      (clean_showNumber _) hcolon) (clean_showNumber _)) (by decide)) (clean_showNumber _)) hcolon)
        (clean_showNumber _)
  simp only [Row.Clean, spanRow, List.forall_mem_cons]
  exact ⟨hname, by decide, hspan, List.forall_mem_nil _⟩

theorem clean_labelRow (h : Terminal.escape ∉ screen.label.toList) : screen.labelRow.Clean := by
  have hindent : Terminal.escape ∉ (if screen.display.json then "     " else "    ").toList := by
    split <;> decide
  simp only [Row.Clean, labelRow, List.forall_mem_cons]
  exact ⟨hindent, h, List.forall_mem_nil _⟩

theorem clean_tokenRows : ∀ row ∈ screen.tokenRows, row.Clean := by
  unfold tokenRows
  split
  · rename_i token _
    split
    · have hpretty := clean_of_printed (Json.printed_pretty token)
      simpa [Row.Clean] using hpretty
    · exact List.forall_mem_nil _
  · exact List.forall_mem_nil _

theorem clean_headRows (hfile : Terminal.escape ∉ screen.file.toList)
    (hlabel : Terminal.escape ∉ screen.label.toList) : ∀ row ∈ screen.headRows, row.Clean := by
  unfold headRows
  rw [List.forall_mem_append]
  simp only [List.forall_mem_cons]
  exact ⟨⟨clean_title hfile, clean_spanRow (by decide) _, clean_spanRow (by decide) _,
    clean_spanRow (by decide) _, clean_labelRow hlabel, List.forall_mem_nil _⟩, clean_tokenRows⟩

theorem clean_shownText (h : Terminal.escape ∉ cs) :
    Terminal.escape ∉ (screen.shownText cs).toList := by
  rw [toList_shownText]
  split
  · have hquote := clean_of_visible (Json.visible_quote (String.ofList cs))
    rw [Json.quote, String.toList_ofList, String.toList_ofList] at hquote
    exact fun hmem => hquote (List.mem_append_left _ (List.mem_cons_of_mem _ hmem))
  · exact h

theorem clean_plainLine (h : Terminal.escape ∉ cs) : (screen.plainLine cs).Clean := by
  unfold plainLine
  have hshown : Terminal.escape ∉
      (if screen.display.json then Json.quoteChars cs else cs) := by
    split
    · have hquote := clean_of_visible (Json.visible_quote (String.ofList cs))
      rwa [Json.quote, String.toList_ofList, String.toList_ofList] at hquote
    · exact h
  simpa [Row.Clean] using hshown

theorem clean_quotes (paint : Paint) : (screen.quotes paint).Clean := by
  unfold quotes
  split
  · simp only [Row.Clean, List.forall_mem_cons]
    exact ⟨by decide, List.forall_mem_nil _⟩
  · exact List.forall_mem_nil _

theorem clean_ending : (screen.ending line hidden length).Clean := by
  unfold ending
  split
  · split
    · exact clean_quotes _
    · simp only [Row.Clean, List.forall_mem_cons]
      exact ⟨by decide, List.forall_mem_nil _⟩
  · exact clean_quotes _

theorem clean_spanLine (h : Terminal.escape ∉ cs) : (screen.spanLine line hidden cs).Clean := by
  rw [spanLine_eq, Row.Clean, List.forall_mem_append, List.forall_mem_append]
  simp only [List.forall_mem_cons]
  refine ⟨⟨clean_quotes _, clean_shownText fun hmem => h (List.mem_of_mem_take hmem),
    clean_shownText fun hmem => h (List.mem_of_mem_drop (List.mem_of_mem_take hmem)),
    clean_shownText fun hmem => h (List.mem_of_mem_drop hmem), List.forall_mem_nil _⟩,
    clean_ending⟩

theorem clean_windowRow {text : String} (hlines : screen.lines = .ofText text)
    (h : Terminal.escape ∉ text.toList) (line : Int) : (screen.windowRow line).Clean := by
  have hpad : Terminal.escape ∉ (padLeft 4 (Text.intText line)).toList := by
    refine clean_append (fun hmem => ?_) (clean_intText line)
    rw [String.toList_ofList] at hmem
    exact absurd (List.eq_of_mem_replicate hmem) (by decide)
  refine List.forall_mem_cons.mpr ⟨clean_append hpad (by decide), ?_⟩
  unfold sourceLine
  cases htext : screen.lines.line? line with
  | none => exact List.forall_mem_cons.mpr ⟨by decide, List.forall_mem_nil _⟩
  | some shown =>
      have hsub : shown.toList ⊆ text.toList := by
        rw [hlines] at htext
        exact (linesOf_splitLines _ _ (LineTable.mem_splitLines_of_line? htext)).1
      have hclean : Terminal.escape ∉ (visible line shown.toList).1 :=
        fun hmem => h (hsub (visible_subset _ _ hmem))
      dsimp only
      split
      · exact clean_plainLine hclean
      · exact clean_spanLine hclean

theorem clean_window {text : String} (hlines : screen.lines = .ofText text)
    (h : Terminal.escape ∉ text.toList) :
    ∀ row ∈ screen.windowLines.map screen.windowRow, row.Clean := by
  rw [List.forall_mem_map]
  exact fun line _ => clean_windowRow hlines h line

/-! Numbers. -/

/-- The numbers that a picture is reckoned with, where so many columns of a line are hidden. -/
def reckoned (screen : Screen) (hidden : Int) : List Int :=
  [screen.proposed.start.line - context, screen.proposed.finish.line + context,
    screen.proposed.start.column - hidden, screen.proposed.start.column - hidden - 1,
    screen.proposed.finish.column - hidden, screen.proposed.finish.column - hidden - 1]

theorem reckoned_le {text : String} (hlines : screen.lines = .ofText text)
    (hinside : screen.proposed.Inside screen.lines) (hleast : 0 ≤ hidden) (hmost : hidden ≤ 1) :
    ∀ n ∈ screen.reckoned hidden, -1 ≤ n ∧ n ≤ text.length + 3 := by
  rw [hlines] at hinside
  obtain ⟨⟨hfirst, hlast, hleft, hright⟩, ⟨hfirst', hlast', hleft', hright'⟩⟩ := hinside
  have hcount := LineTable.lineCount_ofText_le text
  have hlength := LineTable.lineLen_ofText_le text
  have hstart := hlength screen.proposed.start.line
  have hfinish := hlength screen.proposed.finish.line
  simp only [reckoned, context, List.forall_mem_cons]
  refine ⟨?_, ?_, ?_, ?_, ?_, ?_, List.forall_mem_nil _⟩ <;> omega

theorem render_shows_lines {screen : Screen} {text : String}
    (hlines : screen.lines = .ofText text) :
    (∃ (numbers : List Int) (start shown : Int → List Char),
      numbers.Pairwise (· < ·) ∧
      (∀ line, line ∈ numbers ↔
        screen.proposed.start.line - 2 ≤ line ∧ line ≤ screen.proposed.finish.line + 2) ∧
      (∀ line, StartsRow line (start line) ∧ screen.Shows line (shown line) ∧
        '\n' ∉ shown line) ∧
      screen.render false = screen.heading false ++ String.join (numbers.map fun line =>
        String.ofList (start line) ++ "| " ++ String.ofList (shown line) ++ "\n")) ∧
    (∀ line hidden length,
      (screen.cut line hidden length).1 ≤ (screen.cut line hidden length).2 ∧
        (screen.cut line hidden length).2 ≤ length) ∧
    (screen.proposed.Inside screen.lines → ∀ hidden, 0 ≤ hidden → hidden ≤ 1 →
      ∀ n ∈ screen.reckoned hidden, -1 ≤ n ∧ n ≤ text.length + 3) ∧
    (Terminal.escape ∉ screen.file.toList → Terminal.escape ∉ screen.label.toList →
      Terminal.escape ∉ text.toList →
      Terminal.shown (screen.render true) = screen.render false) := by
  refine ⟨⟨screen.windowLines, fun line => (padLeft 4 (Text.intText line)).toList,
    fun line => ((screen.sourceLine line).render false).toList,
    pairwise_lineNumbers _ _, fun _ => mem_lineNumbers, fun line => ?_, ?_⟩, screen.cut_le,
    fun hinside _ hleast hmost => reckoned_le hlines hinside hleast hmost,
    fun hfile hlabel htext => ?_⟩
  · have hshows := screen.shows_sourceLine line
    exact ⟨startsRow_padLeft line, hshows, hshows.noBreak hlines⟩
  · rw [render_eq, window, rowsText, List.map_map]
    refine congrArg (fun rows => screen.heading false ++ String.join rows)
      (List.map_congr_left fun line _ => ?_)
    rw [Function.comp, windowRow_render, String.ofList_toList, String.ofList_toList]
  · have hclean : ∀ row ∈ screen.headRows ++ screen.windowLines.map screen.windowRow, row.Clean :=
      List.forall_mem_append.mpr ⟨clean_headRows hfile hlabel, clean_window hlines htext⟩
    exact shown_rowsText hclean

/-- A span without width at the end of a line with a hidden mark. -/
def atMarkedEnd : Screen where
  file := "a.pug"
  position := 0
  actual := ⟨"a.pug", ⟨1, 4⟩, ⟨1, 4⟩⟩
  expected := .sentinel
  proposed := ⟨"a.pug", ⟨1, 4⟩, ⟨1, 4⟩⟩
  isMatch := false
  label := "TEXT"
  token := none
  lines := .ofText "\ufeffab\r\nc"
  display := .off

/-- Above and below the text there is nothing to show, and a blank marks where the span stands. -/
theorem marked_end_is_shown :
    atMarkedEnd.lines = .ofText "\ufeffab\r\nc" ∧
      atMarkedEnd.proposed.Inside atMarkedEnd.lines ∧
      atMarkedEnd.render false = atMarkedEnd.heading false ++
        "  -1|  \n   0|  \n   1| ab \n   2| c\n   3|  \n" ∧
      (∀ n ∈ atMarkedEnd.reckoned 1, -1 ≤ n ∧ n ≤ 9) ∧
      (Terminal.escape ∉ "a.pug".toList ∧ Terminal.escape ∉ "TEXT".toList ∧
        Terminal.escape ∉ "\ufeffab\r\nc".toList) ∧
      Terminal.shown (atMarkedEnd.render true) = atMarkedEnd.render false := by
  have hpos : atMarkedEnd.lines.Contains ⟨1, 4⟩ := by
    constructor <;> decide +kernel
  have hfile : Terminal.escape ∉ "a.pug".toList := by decide
  have hlabel : Terminal.escape ∉ "TEXT".toList := by decide
  have htext : Terminal.escape ∉ "\ufeffab\r\nc".toList := by decide
  obtain ⟨⟨numbers, start, shown, hsorted, hnumbers, hrows, hrender⟩, _, hreckoned, hshown⟩ :=
    @render_shows_lines atMarkedEnd _ rfl
  have hcount : atMarkedEnd.lines.lineCount = 2 := by decide +kernel
  have hall : numbers = [-1, 0, 1, 2, 3] := by
    refine hsorted.eq_of_mem_iff (by decide) fun line => ?_
    have hline : line ∈ numbers ↔ (1 : Int) - 2 ≤ line ∧ line ≤ 1 + 2 := hnumbers line
    simp only [hline, List.mem_cons, List.not_mem_nil, or_false]
    omega
  have hrow (line : Int) {cs : List Char} (h : atMarkedEnd.Shows line cs) :
      String.ofList (start line) ++ "| " ++ String.ofList (shown line) ++ "\n" =
        String.ofList (List.replicate (4 - (toString line).length) ' ' ++ (toString line).toList) ++
          "| " ++ String.ofList cs ++ "\n" := by
    obtain ⟨hstart, hshows, _⟩ := hrows line
    rw [hstart.eq, hshows.unique h]
  have hpast : atMarkedEnd.proposed.PastLine atMarkedEnd.lines 1 :=
    ⟨rfl, rfl, by decide +kernel, by decide +kernel⟩
  refine ⟨rfl, ⟨hpos, hpos⟩, ?_, hreckoned ⟨hpos, hpos⟩ 1 (by decide) (by decide),
    ⟨hfile, hlabel, htext⟩, hshown hfile hlabel htext⟩
  rw [hrender, hall]
  simp only [List.map_cons, List.map_nil]
  rw [hrow (-1) (.outside (by decide)), hrow 0 (.outside (by decide)),
    hrow 1 (.marked (by decide) (by omega) rfl hpast),
    hrow 2 (.plain (by decide) (by omega) rfl fun hpast => by cases hpast.start),
    hrow 3 (.outside (by omega))]
  exact congrArg (atMarkedEnd.heading false ++ ·) (by decide +kernel)

end Screen

end SpanReview
