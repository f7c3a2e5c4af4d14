import SpanReview.Proofs.Fixture.Format
import SpanReview.Proofs.Json.Grammar

namespace SpanReview.Fixture

open Json (StringArray)

/-! Any text is read by three rules: how it falls into lines, what the first line is, and what
each later line is. The first of them that is broken is what the error tells. -/

/-- The lines of a text. Each but the last ends in a line feed, the last may, and a carriage
return at the end is no part of a line. -/
inductive Lines : List Char → List (List Char) → Prop
  | last {line : List Char} (h : '\n' ∉ line) : Lines line [dropReturn line]
  | ended {line : List Char} (h : '\n' ∉ line) : Lines (line ++ ['\n']) [dropReturn line]
  | next {line rest : List Char} {lines : List (List Char)} (h : '\n' ∉ line) (hne : rest ≠ [])
      (hrest : Lines rest lines) : Lines (line ++ '\n' :: rest) (dropReturn line :: lines)

theorem linesOf_last {line : List Char} (h : '\n' ∉ line) : linesOf line = [dropReturn line] := by
  have hlast : line.getLast? ≠ some '\n' := fun hfeed => h (List.mem_of_getLast? hfeed)
  rw [linesOf, if_neg hlast, List.splitOn_eq_singleton h]
  rfl

theorem linesOf_ended {line : List Char} (h : '\n' ∉ line) :
    linesOf (line ++ ['\n']) = [dropReturn line] := by
  rw [linesOf, if_pos List.getLast?_concat, List.splitOn_append_cons_self_of_not_mem h]
  rfl

theorem linesOf_next {line rest : List Char} (h : '\n' ∉ line) (hne : rest ≠ []) :
    linesOf (line ++ '\n' :: rest) = dropReturn line :: linesOf rest := by
  obtain ⟨c, others, rfl⟩ := List.exists_cons_of_ne_nil hne
  have hlast : (line ++ '\n' :: c :: others).getLast? = (c :: others).getLast? := by
    rw [List.getLast?_append_of_ne_nil _ (List.cons_ne_nil _ _), List.getLast?_cons_cons]
  rw [linesOf, linesOf, hlast, List.splitOn_append_cons_self_of_not_mem h]
  split
  · rw [List.dropLast_cons_of_ne_nil (List.splitOn_ne_nil _ _), List.map_cons]
  · rw [List.map_cons]

theorem lines_linesOf (content : List Char) : Lines content (linesOf content) := by
  by_cases hmem : '\n' ∈ content
  · obtain ⟨line, rest, hcontent, hline⟩ := List.eq_append_cons_of_mem hmem
    have hshorter : rest.length < content.length := by
      rw [hcontent, List.length_append, List.length_cons]
      omega
    have hrest := lines_linesOf rest
    rw [hcontent]
    by_cases hne : rest = []
    · rw [hne, linesOf_ended hline]
      exact .ended hline
    · rw [linesOf_next hline hne]
      exact .next hline hne hrest
  · rw [linesOf_last hmem]
    exact .last hmem
termination_by content.length

theorem Lines.eq {content : List Char} {lines : List (List Char)} (h : Lines content lines) :
    linesOf content = lines := by
  induction h with
  | last h => exact linesOf_last h
  | ended h => exact linesOf_ended h
  | next h hne _ ih => rw [linesOf_next h hne, ih]

theorem Lines.ne_nil {content : List Char} {lines : List (List Char)} (h : Lines content lines) :
    lines ≠ [] := by
  cases h <;> exact List.cons_ne_nil _ _

/-! The records, up to the first line that is none. -/

theorem exists_flaw {line : List Char} (h : ∀ record, ¬ RecordLine line record) :
    ∃ flaw, parseRecord line = .error flaw := by
  cases hparse : parseRecord line with
  | error flaw => exact ⟨flaw, rfl⟩
  | ok record => exact absurd (parseRecord_eq_ok_iff.mp hparse) (h record)

theorem parseRecords_cons_of_record {path : Path} {number : Nat} {line : List Char}
    {record : Option Span} (h : RecordLine line record) (lines : List (List Char)) :
    parseRecords path number (line :: lines) =
      (parseRecords path (number + 1) lines).map (record :: ·) := by
  rw [parseRecords, h.parse]
  cases parseRecords path (number + 1) lines <;> rfl

theorem parseRecords_of_bad {path : Path} {number : Nat} {good rest : List (List Char)}
    {bad : List Char} {flaw : LineFlaw} (hgood : ∀ line ∈ good, ∃ record, RecordLine line record)
    (hbad : parseRecord bad = .error flaw) :
    parseRecords path number (good ++ bad :: rest) =
      .error (.malformed path (number + good.length) flaw) := by
  induction good generalizing number with
  | nil =>
      rw [List.nil_append, parseRecords, hbad]
      rfl
  | cons line good ih =>
      obtain ⟨⟨record, hrecord⟩, hgood⟩ := List.forall_mem_cons.mp hgood
      rw [List.cons_append, parseRecords_cons_of_record hrecord, ih hgood, List.length_cons,
        Nat.add_assoc, Nat.add_comm 1]
      rfl

theorem parseRecords_of_forall₂ {lines : List (List Char)} {records : List (Option Span)}
    (path : Path) (number : Nat) (h : List.Forall₂ RecordLine lines records) :
    parseRecords path number lines = .ok records := by
  induction h generalizing number with
  | nil => rfl
  | cons hrecord _ ih => rw [parseRecords_cons_of_record hrecord, ih]; rfl

/-- Either every line is that of a record, or there is a first that is not. -/
theorem records_or_first_bad (lines : List (List Char)) :
    (∃ records, List.Forall₂ RecordLine lines records) ∨
      ∃ good bad rest, lines = good ++ bad :: rest ∧
        (∀ line ∈ good, ∃ record, RecordLine line record) ∧
        ∀ record, ¬ RecordLine bad record := by
  induction lines with
  | nil => exact .inl ⟨[], .nil⟩
  | cons line lines ih =>
      by_cases hline : ∃ record, RecordLine line record
      · obtain ⟨record, hrecord⟩ := hline
        rcases ih with ⟨records, hrecords⟩ | ⟨good, bad, rest, rfl, hgood, hbad⟩
        · exact .inl ⟨record :: records, .cons hrecord hrecords⟩
        · exact .inr ⟨line :: good, bad, rest, rfl,
            List.forall_mem_cons.mpr ⟨⟨record, hrecord⟩, hgood⟩, hbad⟩
      · exact .inr ⟨[], line, lines, rfl, nofun, not_exists.mp hline⟩

/-! The whole text. -/

/-- What a text is read as, by its first line and the others. The three errors are told in this
order: a first line that is no array of strings, one of other strings, a later line that holds no
record. -/
inductive Outcome (key : FixtureKey) (path : Path) (header : List Char) :
    List (List Char) → Except FixtureError Fixture → Prop
  | accepted {lines : List (List Char)} {records : List (Option Span)}
      (h : StringArray header key.fields) (hrecords : List.Forall₂ RecordLine lines records) :
      Outcome key path header lines (.ok ⟨key, records⟩)
  | badHeader {lines : List (List Char)} (h : ∀ texts, ¬ StringArray header texts) :
      Outcome key path header lines (.error (.malformed path 1 .badHeader))
  | otherKey {lines : List (List Char)} {texts : List String} (h : StringArray header texts)
      (hother : texts ≠ key.fields) :
      Outcome key path header lines (.error (.corrupt path key.header (String.ofList header)))
  | badRecord {good rest : List (List Char)} {bad : List Char} {flaw : LineFlaw}
      (h : StringArray header key.fields) (hgood : ∀ line ∈ good, ∃ record, RecordLine line record)
      (hbad : ∀ record, ¬ RecordLine bad record) (hflaw : parseRecord bad = .error flaw) :
      Outcome key path header (good ++ bad :: rest)
        (.error (.malformed path (good.length + 2) flaw))

section

variable {key : FixtureKey} {content : String} {path : Path} {header : List Char}
  {lines : List (List Char)}

theorem parse_of_badHeader (hlines : linesOf content.toList = header :: lines)
    (h : ∀ texts, ¬ StringArray header texts) :
    parse key content path = .error (.malformed path 1 .badHeader) := by
  have hnone : (Json.parse? (String.ofList header)).bind Json.strings? = none := by
    refine Option.eq_none_iff_forall_ne_some.mpr fun texts htexts => h texts ?_
    rwa [Json.strings?_parse?_iff, String.toList_ofList] at htexts
  rw [parse, hlines]
  dsimp only
  rw [hnone]

theorem parse_of_header {texts : List String} (hlines : linesOf content.toList = header :: lines)
    (h : StringArray header texts) :
    parse key content path =
      if texts = key.fields then (parseRecords path 2 lines).map (Fixture.mk key)
      else .error (.corrupt path key.header (String.ofList header)) := by
  have hsome : (Json.parse? (String.ofList header)).bind Json.strings? = some texts := by
    rwa [Json.strings?_parse?_iff, String.toList_ofList]
  rw [parse, hlines]
  dsimp only
  rw [hsome]
  dsimp only
  split
  · cases parseRecords path 2 lines <;> rfl
  · rfl

theorem Outcome.parse_eq {result : Except FixtureError Fixture}
    (h : Outcome key path header lines result) (hlines : linesOf content.toList = header :: lines) :
    parse key content path = result := by
  cases h with
  | accepted h hrecords =>
      rw [parse_of_header hlines h, if_pos rfl, parseRecords_of_forall₂ path 2 hrecords]
      rfl
  | badHeader h => exact parse_of_badHeader hlines h
  | otherKey h hother => rw [parse_of_header hlines h, if_neg hother]
  | badRecord h hgood _ hflaw =>
      rw [parse_of_header hlines h, if_pos rfl, parseRecords_of_bad hgood hflaw, Nat.add_comm 2]
      rfl

theorem exists_outcome (key : FixtureKey) (path : Path) (header : List Char)
    (lines : List (List Char)) : ∃ result, Outcome key path header lines result := by
  by_cases harray : ∃ texts, StringArray header texts
  · obtain ⟨texts, htexts⟩ := harray
    by_cases hsame : texts = key.fields
    · subst hsame
      rcases records_or_first_bad lines with ⟨records, hrecords⟩ | ⟨_, _, _, rfl, hgood, hbad⟩
      · exact ⟨_, .accepted htexts hrecords⟩
      · obtain ⟨flaw, hflaw⟩ := exists_flaw hbad
        exact ⟨_, .badRecord htexts hgood hbad hflaw⟩
    · exact ⟨_, .otherKey htexts hsame⟩
  · exact ⟨_, .badHeader (not_exists.mp harray)⟩

end

/-- Every text is read as its lines tell: a fixture if and only if all of them have their form,
and otherwise the error of the first that has not. -/
theorem parse_eq_iff (key : FixtureKey) (content : String) (path : Path)
    (result : Except FixtureError Fixture) :
    parse key content path = result ↔
      ∃ header lines, Lines content.toList (header :: lines) ∧
        Outcome key path header lines result := by
  constructor
  · rintro rfl
    have hread := lines_linesOf content.toList
    obtain ⟨header, lines, hlines⟩ := List.exists_cons_of_ne_nil hread.ne_nil
    obtain ⟨result, houtcome⟩ := exists_outcome key path header lines
    rw [hlines] at hread
    rw [houtcome.parse_eq hlines]
    exact ⟨header, lines, hread, houtcome⟩
  · rintro ⟨header, lines, hread, houtcome⟩
    exact houtcome.parse_eq hread.eq

example : parse ⟨⟨"u", "b"⟩, .lexer, "a.pug"⟩
    "[ \"u\",\"b\", \"lexer\" ,\"\\u0061.pug\"]\r\n\r\nx,1, 2 ,+3,-4,05" "p" =
      .ok ⟨⟨⟨"u", "b"⟩, .lexer, "a.pug"⟩, [none, some ⟨"x,1", ⟨2, 3⟩, ⟨-4, 5⟩⟩]⟩ := by
  decide +kernel

end SpanReview.Fixture
