import SpanReview.Proofs.Json.Printed
import SpanReview.Proofs.Path
import SpanReview.Screen

namespace SpanReview

/-! Painted text as a terminal shows it. A colour code changes no character, only the colour of
those that follow. -/

namespace Terminal

/-- Starts a colour code, which the letter m ends. -/
def escape : Char := '\x1b'

/-- The code without colour. -/
def unpainted : List Char := ['[', '0']

structure Cell where
  shade : List Char
  char : Char
  deriving DecidableEq

/-- The cells of a text after a code, or inside one of which some characters were read, the latest
first. -/
def cellsFrom (shade : List Char) (code : Option (List Char)) : List Char → List Cell
  | [] => []
  | c :: rest =>
      match code with
      | none =>
          if c = escape then cellsFrom shade (some []) rest
          else ⟨shade, c⟩ :: cellsFrom shade none rest
      | some code =>
          if c = 'm' then cellsFrom code.reverse none rest
          else cellsFrom shade (some (c :: code)) rest

def cells (text : String) : List Cell :=
  cellsFrom unpainted none text.toList

/-- A text without its colour codes. -/
def shown (text : String) : String :=
  String.ofList ((cells text).map Cell.char)

/-- The part of a text in one colour. -/
def shownIn (shade : List Char) (text : String) : String :=
  String.ofList (((cells text).filter (·.shade = shade)).map Cell.char)

variable {shade cs code : List Char}

theorem cellsFrom_text (h : escape ∉ cs) (rest : List Char) :
    cellsFrom shade none (cs ++ rest) = cs.map (⟨shade, ·⟩) ++ cellsFrom shade none rest := by
  induction cs with
  | nil => rfl
  | cons c cs ih =>
      obtain ⟨hc, hcs⟩ := List.ne_and_not_mem_of_not_mem_cons h
      rw [List.cons_append, cellsFrom, if_neg hc.symm, ih hcs]
      rfl

theorem cellsFrom_inCode (h : 'm' ∉ code) (sofar rest : List Char) :
    cellsFrom shade (some sofar) (code ++ 'm' :: rest) =
      cellsFrom (sofar.reverse ++ code) none rest := by
  induction code generalizing sofar with
  | nil =>
      rw [List.nil_append, cellsFrom, if_pos rfl, List.append_nil]
  | cons c code ih =>
      obtain ⟨hc, hcode⟩ := List.ne_and_not_mem_of_not_mem_cons h
      rw [List.cons_append, cellsFrom, if_neg hc.symm, ih hcode, List.reverse_cons,
        List.append_assoc, List.singleton_append]

theorem cellsFrom_code (h : 'm' ∉ code) (rest : List Char) :
    cellsFrom shade none (escape :: (code ++ 'm' :: rest)) = cellsFrom code none rest := by
  rw [cellsFrom, if_pos rfl, cellsFrom_inCode h]
  rfl

end Terminal

open Terminal

/-! Strokes. -/

def Paint.shade : Paint → List Char
  | .plain => unpainted
  | paint => '[' :: paint.code.toList

theorem Paint.m_not_mem_code (paint : Paint) : 'm' ∉ '[' :: paint.code.toList := by
  cases paint <;> decide

theorem Paint.shade_of_ne {paint : Paint} (h : paint ≠ .plain) :
    paint.shade = '[' :: paint.code.toList := by
  cases paint with
  | plain => contradiction
  | _ => rfl

def Stroke.cells (stroke : Stroke) : List Cell :=
  stroke.text.toList.map (⟨stroke.paint.shade, ·⟩)

theorem Stroke.render_plain {stroke : Stroke} (h : stroke.paint = .plain ∨ stroke.text = "") :
    stroke.render true = stroke.text := by
  rw [Stroke.render, if_pos]
  rcases h with h | h <;> simp [h]

theorem Stroke.toList_render {stroke : Stroke} (hpaint : stroke.paint ≠ .plain)
    (htext : stroke.text ≠ "") :
    (stroke.render true).toList =
      escape :: (('[' :: stroke.paint.code.toList) ++
        'm' :: (stroke.text.toList ++ escape :: (unpainted ++ ['m']))) := by
  rw [Stroke.render, if_neg (by simp [hpaint, htext])]
  simp [escape, unpainted]

theorem Stroke.cellsFrom_render {stroke : Stroke} (h : escape ∉ stroke.text.toList)
    (rest : List Char) :
    cellsFrom unpainted none ((stroke.render true).toList ++ rest) =
      stroke.cells ++ cellsFrom unpainted none rest := by
  by_cases hplain : stroke.paint = .plain ∨ stroke.text = ""
  · rw [Stroke.render_plain hplain, cellsFrom_text h, Stroke.cells]
    rcases hplain with hpaint | htext
    · rw [hpaint, Paint.shade]
    · simp [htext]
  · obtain ⟨hpaint, htext⟩ := not_or.mp hplain
    calc cellsFrom unpainted none ((stroke.render true).toList ++ rest)
        = cellsFrom unpainted none (escape :: (('[' :: stroke.paint.code.toList) ++
            'm' :: (stroke.text.toList ++ escape :: (unpainted ++ 'm' :: rest)))) := by
          rw [Stroke.toList_render hpaint htext]
          simp
      _ = cellsFrom stroke.paint.shade none
            (stroke.text.toList ++ escape :: (unpainted ++ 'm' :: rest)) := by
          rw [cellsFrom_code stroke.paint.m_not_mem_code, Paint.shade_of_ne hpaint]
      _ = stroke.cells ++ cellsFrom unpainted none rest := by
          rw [cellsFrom_text h, cellsFrom_code (by decide), Stroke.cells]

theorem Stroke.map_char_cells (stroke : Stroke) :
    stroke.cells.map Cell.char = stroke.text.toList := by
  rw [Stroke.cells, List.map_map]
  exact List.map_id _

theorem Stroke.filter_cells (stroke : Stroke) (shade : List Char) :
    stroke.cells.filter (·.shade = shade) =
      if stroke.paint.shade = shade then stroke.cells else [] := by
  split
  · rename_i hshade
    refine List.filter_eq_self.mpr fun cell hcell => ?_
    obtain ⟨c, _, rfl⟩ := List.mem_map.mp hcell
    exact decide_eq_true hshade
  · rename_i hshade
    refine List.filter_eq_nil_iff.mpr fun cell hcell => ?_
    obtain ⟨c, _, rfl⟩ := List.mem_map.mp hcell
    simpa using hshade

/-! Rows, each with a line break after it. -/

def Row.cells (row : Row) : List Cell :=
  row.flatMap Stroke.cells

/-- No text in the row starts a colour code. -/
def Row.Clean (row : Row) : Prop :=
  ∀ stroke ∈ row, escape ∉ stroke.text.toList

def rowsText (color : Bool) (rows : List Row) : String :=
  String.join (rows.map fun row => row.render color ++ "\n")

theorem Row.toList_render (row : Row) (color : Bool) :
    (row.render color).toList = row.flatMap fun stroke => (stroke.render color).toList := by
  rw [Row.render, String.toList_join, List.flatMap_map]

theorem Row.cellsFrom_render {row : Row} (h : row.Clean) (rest : List Char) :
    cellsFrom unpainted none ((row.render true).toList ++ rest) =
      row.cells ++ cellsFrom unpainted none rest := by
  rw [Row.toList_render]
  induction row with
  | nil => rfl
  | cons stroke row ih =>
      obtain ⟨hstroke, hrow⟩ := List.forall_mem_cons.mp h
      rw [List.flatMap_cons, List.append_assoc, Stroke.cellsFrom_render hstroke, ih hrow,
        Row.cells, Row.cells, List.flatMap_cons, List.append_assoc]

theorem cells_rowsText {rows : List Row} (h : ∀ row ∈ rows, row.Clean) :
    Terminal.cells (rowsText true rows) =
      rows.flatMap fun row => row.cells ++ [⟨unpainted, '\n'⟩] := by
  rw [Terminal.cells, rowsText, String.toList_join, List.flatMap_map]
  induction rows with
  | nil => rfl
  | cons row rows ih =>
      obtain ⟨hrow, hrows⟩ := List.forall_mem_cons.mp h
      have hbreak : escape ∉ ['\n'] := by decide
      rw [List.flatMap_cons, String.toList_append, List.append_assoc, Row.cellsFrom_render hrow,
        List.flatMap_cons, ← ih hrows, List.append_assoc]
      exact congrArg _ (cellsFrom_text hbreak _)

theorem Row.map_char_cells (row : Row) : row.cells.map Cell.char = (row.render false).toList := by
  rw [Row.toList_render, Row.cells, List.map_flatMap]
  congr 1
  funext stroke
  exact stroke.map_char_cells

theorem Row.map_char_filter_cells (row : Row) (shade : List Char) :
    (row.cells.filter (·.shade = shade)).map Cell.char =
      (row.filter (·.paint.shade = shade)).flatMap (·.text.toList) := by
  rw [Row.cells, List.filter_flatMap, List.map_flatMap]
  induction row with
  | nil => rfl
  | cons stroke row ih =>
      rw [List.flatMap_cons, ih, List.filter_cons, Stroke.filter_cells]
      by_cases hshade : stroke.paint.shade = shade
      · rw [if_pos hshade, if_pos (decide_eq_true hshade), List.flatMap_cons,
          Stroke.map_char_cells]
      · rw [if_neg hshade, if_neg (by simpa using hshade), List.map_nil, List.nil_append]

theorem shown_rowsText {rows : List Row} (h : ∀ row ∈ rows, row.Clean) :
    shown (rowsText true rows) = rowsText false rows := by
  rw [shown, cells_rowsText h, ← String.toList_inj, String.toList_ofList, rowsText,
    String.toList_join, List.flatMap_map, List.map_flatMap]
  congr 1
  funext row
  rw [List.map_append, Row.map_char_cells, String.toList_append]
  rfl

/-- The text of the strokes of one colour, over all rows. -/
theorem shownIn_rowsText {rows : List Row} (h : ∀ row ∈ rows, row.Clean) {shade : List Char}
    (hshade : shade ≠ unpainted) :
    (shownIn shade (rowsText true rows)).toList =
      rows.flatMap fun row => (row.filter (·.paint.shade = shade)).flatMap (·.text.toList) := by
  rw [shownIn, String.toList_ofList, cells_rowsText h, List.filter_flatMap, List.map_flatMap]
  congr 1
  funext row
  have hbreak : [(⟨unpainted, '\n'⟩ : Cell)].filter (·.shade = shade) = [] := by
    simpa using hshade.symm
  rw [List.filter_append, hbreak, List.append_nil, Row.map_char_filter_cells]

end SpanReview
