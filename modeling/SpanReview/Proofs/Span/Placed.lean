import SpanReview.Proofs.Span.Inside
import SpanReview.Screen

namespace SpanReview

/-! The characters of a text at their positions. A byte order mark at the start of the text has a
position but is not seen. -/

instance : LT Pos :=
  ⟨fun p q => p.line < q.line ∨ (p.line = q.line ∧ p.column < q.column)⟩

theorem Pos.lt_def (p q : Pos) :
    p < q ↔ p.line < q.line ∨ (p.line = q.line ∧ p.column < q.column) := Iff.rfl

instance (p q : Pos) : Decidable (p < q) :=
  inferInstanceAs (Decidable (p.line < q.line ∨ (p.line = q.line ∧ p.column < q.column)))

structure Placed where
  pos : Pos
  char : Char
  deriving DecidableEq

/-- The end of a span is the first position after it. -/
def Span.Covers (span : Span) (pos : Pos) : Prop :=
  span.start ≤ pos ∧ pos < span.finish

instance (span : Span) (pos : Pos) : Decidable (span.Covers pos) :=
  inferInstanceAs (Decidable (_ ∧ _))

/-- The line numbers from the first to the last. -/
def lineNumbers (first last : Int) : List Int :=
  (List.range (last - first + 1).toNat).map fun (i : Nat) => first + i

theorem mem_lineNumbers {first last n : Int} :
    n ∈ lineNumbers first last ↔ first ≤ n ∧ n ≤ last := by
  unfold lineNumbers
  rw [List.mem_map]
  constructor
  · rintro ⟨i, hi, rfl⟩
    rw [List.mem_range] at hi
    omega
  · intro h
    exact ⟨(n - first).toNat, List.mem_range.mpr (by omega), by omega⟩

theorem pairwise_lineNumbers (first last : Int) : (lineNumbers first last).Pairwise (· < ·) := by
  unfold lineNumbers
  rw [List.pairwise_map]
  exact List.pairwise_lt_range.imp fun h => by omega

theorem lineNumbers_append {first last : Int} (middle : Int) (hfirst : first ≤ middle + 1)
    (hlast : middle ≤ last) :
    lineNumbers first last = lineNumbers first middle ++ lineNumbers (middle + 1) last := by
  have hcount : (last - first + 1).toNat =
      (middle - first + 1).toNat + (last - (middle + 1) + 1).toNat := by omega
  unfold lineNumbers
  rw [hcount, List.range_add, List.map_append, List.map_map]
  refine congrArg _ (List.map_congr_left fun i _ => ?_)
  rw [Function.comp]
  omega

theorem flatMap_lineNumbers {α : Type} {f : Int → List α} {first last low high : Int}
    (hfirst : first ≤ low) (hlow : low ≤ high) (hlast : high ≤ last)
    (hnone : ∀ n, n < low ∨ high < n → f n = []) :
    (lineNumbers first last).flatMap f = (lineNumbers low high).flatMap f := by
  have hbefore : (lineNumbers first (low - 1)).flatMap f = [] := by
    refine List.flatMap_eq_nil_iff.mpr fun n hn => hnone n (.inl ?_)
    have hrange := mem_lineNumbers.mp hn
    omega
  have hafter : (lineNumbers (high + 1) last).flatMap f = [] := by
    refine List.flatMap_eq_nil_iff.mpr fun n hn => hnone n (.inr ?_)
    have hrange := mem_lineNumbers.mp hn
    omega
  have hmiddle : low - 1 + 1 = low := by omega
  rw [lineNumbers_append (low - 1) (by omega) (by omega), hmiddle,
    lineNumbers_append high (by omega) hlast, List.flatMap_append, List.flatMap_append, hbefore,
    hafter, List.nil_append, List.append_nil]

namespace LineTable

variable {table : LineTable} {line : Int} {text content : String}

def placed (table : LineTable) (line : Int) : List Placed :=
  match table.line? line with
  | some text => text.toList.mapIdx fun i c => ⟨⟨line, i + 1⟩, c⟩
  | none => []

def seen (table : LineTable) (line : Int) : List Placed :=
  (table.placed line).filter (· ≠ ⟨⟨1, 1⟩, Screen.byteOrderMark⟩)

def allSeen (table : LineTable) : List Placed :=
  (lineNumbers 1 table.lineCount).flatMap table.seen

/-! Lines of a table. -/

theorem range_of_line? (h : table.line? line = some text) :
    1 ≤ line ∧ line ≤ table.lineCount := by
  unfold line? at h
  split at h
  · cases h
  · obtain ⟨hlt, _⟩ := Array.getElem?_eq_some_iff.mp h
    unfold lineCount
    omega

theorem exists_line? (hfirst : 1 ≤ line) (hlast : line ≤ table.lineCount) :
    ∃ text, table.line? line = some text := by
  unfold lineCount at hlast
  have hlt : (line - 1).toNat < table.lines.size := by omega
  exact ⟨table.lines[(line - 1).toNat], by
    rw [line?, if_neg (by omega), Array.getElem?_eq_getElem hlt]⟩

theorem line?_eq_none_iff : table.line? line = none ↔ line < 1 ∨ table.lineCount < line := by
  constructor
  · intro h
    by_contra hinside
    obtain ⟨text, htext⟩ : ∃ text, table.line? line = some text :=
      exists_line? (by omega) (by omega)
    cases h.symm.trans htext
  · intro h
    cases htext : table.line? line with
    | none => rfl
    | some text =>
        have hrange := range_of_line? htext
        omega

/-! Lines of a text. -/

theorem mem_splitLines_of_line? (h : (ofText content).line? line = some text) :
    text.toList ∈ splitLines content.toList := by
  unfold line? at h
  split at h
  · cases h
  · have hmem := Array.mem_of_getElem? h
    obtain ⟨chars, hchars, rfl⟩ :
        ∃ chars ∈ splitLines content.toList, String.ofList chars = text := by
      simpa [ofText] using hmem
    rwa [String.toList_ofList]

end LineTable

/-- Some lines of a text have no characters but those of the text, and no line break. -/
def LinesOf (cs : List Char) (lines : List (List Char)) : Prop :=
  ∀ line ∈ lines, line ⊆ cs ∧ '\n' ∉ line

theorem LinesOf.cons_nil {cs more : List Char} {lines : List (List Char)} (h : LinesOf cs lines)
    (hmore : cs ⊆ more) : LinesOf more ([] :: lines) := by
  refine List.forall_mem_cons.mpr ⟨⟨List.nil_subset _, List.not_mem_nil⟩, fun line hline => ?_⟩
  exact ⟨List.Subset.trans (h line hline).1 hmore, (h line hline).2⟩

theorem linesOf_splitLines (cs : List Char) : LinesOf cs (splitLines cs) := by
  fun_induction splitLines cs with
  | case1 => simp [LinesOf]
  | case2 rest ih =>
      exact ih.cons_nil (List.subset_cons_of_subset _ (List.subset_cons_self _ _))
  | case3 rest _ ih => exact ih.cons_nil (List.subset_cons_self _ _)
  | case4 rest ih => exact ih.cons_nil (List.subset_cons_self _ _)
  | case5 c rest _ _ hfeed line lines hlines ih =>
      rw [hlines] at ih
      obtain ⟨⟨hsub, hbreak⟩, hothers⟩ := List.forall_mem_cons.mp ih
      refine List.forall_mem_cons.mpr ⟨⟨List.cons_subset_cons c hsub, ?_⟩, fun other hother => ?_⟩
      · exact List.not_mem_cons_of_ne_of_not_mem (fun heq => hfeed heq.symm) hbreak
      · exact ⟨List.subset_cons_of_subset _ (hothers other hother).1, (hothers other hother).2⟩
  | case6 c rest _ _ _ hnil ih => exact absurd hnil (splitLines_ne_nil rest)

namespace LineTable

variable {table : LineTable} {line : Int} {text : String}

theorem line?_of_mem_seen {entry : Placed} (h : entry ∈ table.seen line) :
    ∃ text, table.line? line = some text := by
  have hplaced := List.mem_of_mem_filter h
  unfold placed at hplaced
  split at hplaced
  · exact ⟨_, by assumption⟩
  · cases hplaced

theorem line_of_mem_seen {entry : Placed} (h : entry ∈ table.seen line) :
    entry.pos.line = line := by
  have hplaced := List.mem_of_mem_filter h
  unfold placed at hplaced
  split at hplaced
  · obtain ⟨i, hi, rfl⟩ := List.mem_mapIdx.mp hplaced
    rfl
  · cases hplaced

theorem seen_of_line? (h : table.line? line = some text) :
    table.seen line = (Screen.visible line text.toList).1.mapIdx fun i c =>
      ⟨⟨line, i + 1 + (Screen.visible line text.toList).2⟩, c⟩ := by
  rw [seen, placed, h]
  dsimp only
  cases text.toList with
  | nil => rfl
  | cons c rest =>
      -- only the first character of a line can be the mark
      have hrest : ∀ (column : Nat) (c : Char),
          (⟨⟨line, column + 1 + 1⟩, c⟩ : Placed) ≠ ⟨⟨1, 1⟩, Screen.byteOrderMark⟩ := by
        intro column c heq
        have hcolumn := congrArg (fun p : Placed => p.pos.column) heq
        dsimp only at hcolumn
        omega
      have hkept : ∀ entry ∈ rest.mapIdx (fun i c => (⟨⟨line, i + 1 + 1⟩, c⟩ : Placed)),
          decide (entry ≠ ⟨⟨1, 1⟩, Screen.byteOrderMark⟩) = true := by
        intro entry hentry
        obtain ⟨i, hi, rfl⟩ := List.mem_mapIdx.mp hentry
        exact decide_eq_true (hrest i _)
      rw [List.mapIdx_cons, List.filter_cons, Screen.visible]
      push_cast
      rw [List.filter_eq_self.mpr hkept]
      split
      · rename_i hshown
        have hmark : ¬(c = Screen.byteOrderMark ∧ line = 1) := by
          rintro ⟨rfl, rfl⟩
          exact of_decide_eq_true hshown rfl
        rw [if_neg hmark, List.mapIdx_cons]
        simp
      · rename_i hhidden
        have hmark : c = Screen.byteOrderMark ∧ line = 1 := by
          have heq := Decidable.of_not_not (fun hne => hhidden (decide_eq_true hne))
          cases heq
          exact ⟨rfl, rfl⟩
        rw [if_pos hmark]

end LineTable

end SpanReview
