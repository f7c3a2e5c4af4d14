import SpanReview.Fixture.Format
import SpanReview.Proofs.Text.Decimal

namespace SpanReview.Fixture

/-! A record is read from the end of its line: whatever stands before the last four commas is the
filename. -/

/-- The lines that hold a record, and those that hold none. -/
inductive RecordLine : List Char → Option Span → Prop
  | empty : RecordLine [] none
  | record {filename startLine startColumn endLine endColumn : List Char} {start finish : Pos}
      (hstartLine : Text.IsWord startLine start.line)
      (hstartColumn : Text.IsWord startColumn start.column)
      (hendLine : Text.IsWord endLine finish.line)
      (hendColumn : Text.IsWord endColumn finish.column) :
      RecordLine
        ((((filename ++ ',' :: startLine) ++ ',' :: startColumn) ++ ',' :: endLine) ++
          ',' :: endColumn)
        (some ⟨String.ofList filename, start, finish⟩)

/-! One number. -/

theorem cutLast_append {line last : List Char} (h : ',' ∉ last) :
    cutLast (line ++ ',' :: last) = (some line, last) := by
  have hlast : ∀ c ∈ last.reverse, (c != ',') = true := by
    intro c hc
    have hne : c ≠ ',' := by
      rintro rfl
      exact h (List.mem_reverse.mp hc)
    simpa using hne
  have hreverse : (line ++ ',' :: last).reverse = last.reverse ++ ',' :: line.reverse := by
    simp
  simp [cutLast, hreverse, List.takeWhile_append_of_pos hlast, List.dropWhile_append_of_pos hlast]

theorem eq_of_cutLast {line before last : List Char} (h : cutLast line = (some before, last)) :
    line = before ++ ',' :: last := by
  by_cases hmem : ',' ∈ line
  · obtain ⟨tail, head, hreverse, htail⟩ :=
      List.eq_append_cons_of_mem (List.mem_reverse.mpr hmem)
    have hline : line = head.reverse ++ ',' :: tail.reverse := by
      rw [← List.reverse_reverse line, hreverse]
      simp
    rw [hline, cutLast_append (fun hc => htail (List.mem_reverse.mp hc))] at h
    cases h
    exact hline
  · have hnone : ∀ c ∈ line.reverse, (c != ',') = true := by
      intro c hc
      have hne : c ≠ ',' := by
        rintro rfl
        exact hmem (List.mem_reverse.mp hc)
      simpa using hne
    have hdrop : line.reverse.dropWhile (· != ',') = [] := List.dropWhile_eq_nil_iff.mpr hnone
    rw [cutLast, hdrop] at h
    cases h

theorem comma_not_mem {last : List Char} {n : Int} (h : Text.IsWord last n) : ',' ∉ last := by
  intro hmem
  rcases h.mem ',' hmem with hblank | hdigit | hsign | hsign
  · exact absurd hblank (by decide)
  · exact absurd hdigit (by decide)
  · exact absurd hsign (by decide)
  · exact absurd hsign (by decide)

theorem takeNumber_of_isWord {field : RecordField} {line last : List Char} {n : Int}
    (h : Text.IsWord last n) :
    takeNumber field (some (line ++ ',' :: last)) = .ok (some line, n) := by
  rw [takeNumber, cutLast_append (comma_not_mem h)]
  dsimp only
  rw [Text.integer?_trimChars_iff.mpr h]

theorem isWord_of_takeNumber {field : RecordField} {rest : Option (List Char)}
    {before : List Char} {n : Int} (h : takeNumber field rest = .ok (some before, n)) :
    ∃ last, rest = some (before ++ ',' :: last) ∧ Text.IsWord last n := by
  cases rest with
  | none => cases h
  | some line =>
      rw [takeNumber] at h
      dsimp only at h
      split at h
      · rename_i m hnumber
        obtain ⟨hbefore, rfl⟩ := Prod.mk.inj (Except.ok.inj h)
        have hline := eq_of_cutLast (Prod.ext hbefore rfl)
        exact ⟨(cutLast line).2, congrArg some hline, Text.integer?_trimChars_iff.mp hnumber⟩
      · cases h

/-! The whole line. -/

theorem RecordLine.parse {line : List Char} {record : Option Span} (h : RecordLine line record) :
    parseRecord line = .ok record := by
  cases h with
  | empty => rfl
  | record hstartLine hstartColumn hendLine hendColumn =>
      rw [parseRecord, if_neg (by simp)]
      simp only [takeNumber_of_isWord hendColumn, takeNumber_of_isWord hendLine,
        takeNumber_of_isWord hstartColumn, takeNumber_of_isWord hstartLine, bind, Except.bind]

theorem bind_ok {ε α β : Type} {result : Except ε α} {next : α → Except ε β} {value : β}
    (h : (result >>= next) = .ok value) : ∃ a, result = .ok a ∧ next a = .ok value := by
  cases result with
  | error e => cases h
  | ok a => exact ⟨a, rfl, h⟩

theorem parseRecord_eq_ok_iff {line : List Char} {record : Option Span} :
    parseRecord line = .ok record ↔ RecordLine line record := by
  constructor
  · intro h
    unfold parseRecord at h
    split at h
    · rename_i hempty
      obtain rfl := List.isEmpty_iff.mp hempty
      cases h
      exact .empty
    · obtain ⟨⟨rest, endColumn⟩, hendColumn, h⟩ := bind_ok h
      obtain ⟨⟨rest', endLine⟩, hendLine, h⟩ := bind_ok h
      obtain ⟨⟨rest'', startColumn⟩, hstartColumn, h⟩ := bind_ok h
      obtain ⟨⟨filename, startLine⟩, hstartLine, h⟩ := bind_ok h
      cases filename with
      | none => cases h
      | some name =>
          cases h
          obtain ⟨_, rfl, hword₁⟩ := isWord_of_takeNumber hstartLine
          obtain ⟨_, rfl, hword₂⟩ := isWord_of_takeNumber hstartColumn
          obtain ⟨_, rfl, hword₃⟩ := isWord_of_takeNumber hendLine
          obtain ⟨_, hline, hword₄⟩ := isWord_of_takeNumber hendColumn
          cases hline
          exact .record hword₁ hword₂ hword₃ hword₄
  · exact RecordLine.parse

end SpanReview.Fixture
