import SpanReview.Proofs.Fixture.Record
import SpanReview.Proofs.Json.Strings
import SpanReview.Proofs.Text.Split

namespace SpanReview

/-! The text of a fixture is read back as it was written, as long as no filename breaks its
line and no number is larger than a word. -/

def Pos.FitsWords (pos : Pos) : Prop :=
  Text.fitsWord pos.line ∧ Text.fitsWord pos.column

instance (pos : Pos) : Decidable pos.FitsWords :=
  inferInstanceAs (Decidable (_ ∧ _))

/-- A span that a line of a fixture can hold. -/
structure Span.Recordable (span : Span) : Prop where
  oneLine : '\n' ∉ span.filename.toList
  start : span.start.FitsWords
  finish : span.finish.FitsWords

instance (span : Span) : Decidable span.Recordable :=
  decidable_of_iff ('\n' ∉ span.filename.toList ∧ span.start.FitsWords ∧ span.finish.FitsWords)
    ⟨fun ⟨hline, hstart, hfinish⟩ => ⟨hline, hstart, hfinish⟩,
      fun h => ⟨h.oneLine, h.start, h.finish⟩⟩

theorem FixtureKey.eq_of_fields {key other : FixtureKey} (h : key.fields = other.fields) :
    key = other := by
  obtain ⟨⟨url, branch⟩, stage, file⟩ := key
  obtain ⟨⟨otherUrl, otherBranch⟩, otherStage, otherFile⟩ := other
  simp only [fields, List.cons.injEq, and_true] at h
  obtain ⟨rfl, rfl, hstage, rfl⟩ := h
  obtain rfl : stage = otherStage := by
    cases stage <;> cases otherStage <;> first | rfl | exact absurd hstage (by decide)
  rfl

namespace Fixture

/-! Records. -/

theorem recordChars_eq (span : Span) :
    recordChars span =
      (((span.filename.toList ++ ',' :: (Text.intText span.start.line).toList) ++
        ',' :: (Text.intText span.start.column).toList) ++
        ',' :: (Text.intText span.finish.line).toList) ++
        ',' :: (Text.intText span.finish.column).toList := by
  simp [recordChars, String.toList_append]

theorem recordLine_recordChars {span : Span} (h : span.Recordable) :
    RecordLine (recordChars span) (some span) := by
  have hline := @RecordLine.record span.filename.toList _ _ _ _ span.start span.finish
    (Text.isWord_intText h.start.1) (Text.isWord_intText h.start.2)
    (Text.isWord_intText h.finish.1) (Text.isWord_intText h.finish.2)
  rwa [← recordChars_eq, String.ofList_toList] at hline

/-! Lines. -/

/-- A line that is still one line when it is written with a line feed after it. -/
structure OneLine (line : List Char) : Prop where
  noFeed : '\n' ∉ line
  noReturn : line.getLast? ≠ some '\r'

theorem dropReturn_of_oneLine {line : List Char} (h : OneLine line) : dropReturn line = line :=
  if_neg h.noReturn

theorem splitOn_lines {lines : List (List Char)} (h : ∀ line ∈ lines, OneLine line) :
    (lines.flatMap (· ++ ['\n'])).splitOn '\n' = lines ++ [[]] := by
  induction lines with
  | nil => rfl
  | cons line lines ih =>
      obtain ⟨hline, hlines⟩ := List.forall_mem_cons.mp h
      rw [List.flatMap_cons, List.append_assoc, List.singleton_append,
        List.splitOn_append_cons_self_of_not_mem hline.noFeed, ih hlines, List.cons_append]

theorem linesOf_lines {line : List Char} {lines : List (List Char)}
    (h : ∀ other ∈ line :: lines, OneLine other) :
    linesOf ((line :: lines).flatMap (· ++ ['\n'])) = line :: lines := by
  have hlast : ((line :: lines).flatMap (· ++ ['\n'])).getLast? = some '\n' := by
    have hsplit := List.dropLast_append_getLast (List.cons_ne_nil line lines)
    rw [← hsplit, List.flatMap_append, List.flatMap_singleton, ← List.append_assoc,
      List.getLast?_concat]
  have hdrop : (line :: lines).map dropReturn = line :: lines := by
    rw [List.map_congr_left fun other hother => dropReturn_of_oneLine (h other hother),
      List.map_id']
  rw [linesOf, if_pos hlast, splitOn_lines h, List.dropLast_concat, hdrop]

theorem oneLine_header (key : FixtureKey) : OneLine key.header.toList := by
  have hvisible : Json.Visible key.header.toList := Json.visible_strings key.fields
  refine ⟨fun hfeed => ?_, fun hreturn => ?_⟩
  · exact absurd (hvisible _ hfeed) (by decide)
  · exact absurd (hvisible _ (List.mem_of_getLast? hreturn)) (by decide)

theorem oneLine_recordChars {span : Span} (h : '\n' ∉ span.filename.toList) :
    OneLine (recordChars span) := by
  have hnumber : ∀ (c : Char) (n : Int), c.isDigit = false → c ≠ '-' →
      c ∉ (Text.intText n).toList := by
    intro c n hdigit hsign hc
    rcases Text.mem_intText hc with hc | hc
    · simp [hdigit] at hc
    · exact hsign hc
  refine ⟨?_, ?_⟩
  · have hfeed := fun n => hnumber '\n' n (by decide) (by decide)
    simp [recordChars_eq, h, hfeed]
  · intro hreturn
    rw [recordChars_eq, List.getLast?_append_of_ne_nil _ (List.cons_ne_nil _ _)] at hreturn
    rcases List.mem_cons.mp (List.mem_of_getLast? hreturn) with hcomma | hmem
    · cases hcomma
    · exact hnumber '\r' _ (by decide) (by decide) hmem

theorem textChars_eq (key : FixtureKey) (records : List (Option Span)) :
    textChars key records = (key.header.toList :: records.map lineChars).flatMap (· ++ ['\n']) := by
  simp [textChars, List.flatMap_map]

theorem parseRecords_lines {records : List (Option Span)} (path : Path) (line : Nat)
    (h : ∀ span, some span ∈ records → span.Recordable) :
    parseRecords path line (records.map lineChars) = .ok records := by
  induction records generalizing line with
  | nil => rfl
  | cons record records ih =>
      have hrecord : parseRecord (lineChars record) = .ok record := by
        cases record with
        | none => rfl
        | some span => exact (recordLine_recordChars (h span List.mem_cons_self)).parse
      rw [List.map_cons, parseRecords, hrecord]
      dsimp only
      rw [ih (line + 1) fun span hspan => h span (List.mem_cons_of_mem _ hspan)]

theorem linesOf_textOf {records : List (Option Span)} (key : FixtureKey)
    (h : ∀ span, some span ∈ records → span.Recordable) :
    linesOf (textOf key records).toList = key.header.toList :: records.map lineChars := by
  rw [textOf, String.toList_ofList, textChars_eq]
  refine linesOf_lines fun line hline => ?_
  rcases List.mem_cons.mp hline with rfl | hrecord
  · exact oneLine_header key
  · obtain ⟨record, hmem, rfl⟩ := List.mem_map.mp hrecord
    cases record with
    | none => exact ⟨by simp [lineChars], by simp [lineChars]⟩
    | some span => exact oneLine_recordChars (h span hmem).oneLine

theorem strings?_header (key : FixtureKey) :
    (Json.parse? (String.ofList key.header.toList)).bind Json.strings? = some key.fields := by
  rw [String.ofList_toList, FixtureKey.header, FixtureKey.fields, Json.parse?_strings,
    Option.bind_some, Json.strings?_strings]

/-- What was written for a key is read back for that key. -/
theorem parse_textOf {key : FixtureKey} {records : List (Option Span)} (path : Path)
    (h : ∀ span, some span ∈ records → span.Recordable) :
    parse key (textOf key records) path = .ok ⟨key, records⟩ := by
  rw [parse, linesOf_textOf key h]
  dsimp only
  rw [strings?_header]
  dsimp only
  rw [if_pos rfl, parseRecords_lines path 2 h]

/-- What was written for another key is not read at all. -/
theorem parse_textOf_other {key other : FixtureKey} {records : List (Option Span)} (path : Path)
    (hother : other ≠ key) (h : ∀ span, some span ∈ records → span.Recordable) :
    parse key (textOf other records) path = .error (.corrupt path key.header other.header) := by
  have hfields : other.fields ≠ key.fields := fun hsame => hother (FixtureKey.eq_of_fields hsame)
  rw [parse, linesOf_textOf other h]
  dsimp only
  rw [strings?_header]
  dsimp only
  rw [if_neg hfields, String.ofList_toList]

/-! Whatever is read can be written. -/

theorem noFeed_of_linesOf {content line : List Char} (h : line ∈ linesOf content) :
    '\n' ∉ line := by
  obtain ⟨piece, hpiece, rfl⟩ := List.mem_map.mp h
  have hsplit : piece ∈ content.splitOn '\n' := by
    split at hpiece
    · exact List.dropLast_subset _ hpiece
    · exact hpiece
  have hfeed := Text.not_mem_of_mem_splitOn hsplit
  unfold dropReturn
  split
  · exact fun hmem => hfeed (List.dropLast_subset _ hmem)
  · exact hfeed

theorem RecordLine.recordable {line : List Char} {span : Span} (h : RecordLine line (some span))
    (hfeed : '\n' ∉ line) : span.Recordable := by
  cases h with
  | record hstartLine hstartColumn hendLine hendColumn =>
      have hfits : ∀ {last : List Char} {n : Int}, Text.IsWord last n → Text.fitsWord n :=
        fun hword => Text.fitsWord_iff.mpr hword.fits
      refine ⟨fun hname => hfeed ?_, ⟨hfits hstartLine, hfits hstartColumn⟩, hfits hendLine,
        hfits hendColumn⟩
      rw [String.toList_ofList] at hname
      simp [hname]

theorem recordable_of_parseRecords {path : Path} {line : Nat} {lines : List (List Char)}
    {records : List (Option Span)} (hfeed : ∀ line ∈ lines, '\n' ∉ line)
    (h : parseRecords path line lines = .ok records) :
    ∀ span, some span ∈ records → span.Recordable := by
  induction lines generalizing line records with
  | nil =>
      cases h
      simp
  | cons first rest ih =>
      obtain ⟨hfirst, hrest⟩ := List.forall_mem_cons.mp hfeed
      unfold parseRecords at h
      split at h
      · cases h
      · rename_i record hrecord
        split at h
        · cases h
        · rename_i spans hspans
          cases h
          intro span hspan
          rcases List.mem_cons.mp hspan with rfl | hlater
          · exact (parseRecord_eq_ok_iff.mp hrecord).recordable hfirst
          · exact ih hrest hspans span hlater

/-- What is read for a key has that key, and only spans that can be recorded again. -/
theorem recordable_of_parse {key : FixtureKey} {content : String} {path : Path}
    {fixture : Fixture} (h : parse key content path = .ok fixture) :
    fixture.key = key ∧ ∀ span, some span ∈ fixture.records → span.Recordable := by
  have hfeed : ∀ line ∈ linesOf content.toList, '\n' ∉ line := fun _ => noFeed_of_linesOf
  unfold parse at h
  split at h
  · cases h
  · rename_i header lines hlines
    rw [hlines] at hfeed
    split at h
    · cases h
    · split at h
      · split at h
        · cases h
        · rename_i records hrecords
          cases h
          exact ⟨rfl, recordable_of_parseRecords (List.forall_mem_cons.mp hfeed).2 hrecords⟩
      · cases h

/-! Exactly what survives being written and read. -/

/-- Records whose numbers fit words are read back exactly if no filename in them holds a line
feed, and whatever a text is read as can be written and read again. -/
theorem parse_textOf_iff (key : FixtureKey) (path : Path) :
    (∀ records : List (Option Span),
      (∀ span, some span ∈ records → span.start.FitsWords ∧ span.finish.FitsWords) →
      (parse key (textOf key records) path = .ok ⟨key, records⟩ ↔
        ∀ span, some span ∈ records → '\n' ∉ span.filename.toList)) ∧
    ∀ (content : String) (fixture : Fixture), parse key content path = .ok fixture →
      ∀ other : Path, parse fixture.key fixture.text other = .ok fixture := by
  refine ⟨fun records hwords => ⟨fun hparse span hspan => ?_, fun hfeed => ?_⟩, ?_⟩
  · obtain ⟨_, hrecordable⟩ := recordable_of_parse hparse
    exact (hrecordable span hspan).oneLine
  · apply parse_textOf
    intro span hspan
    obtain ⟨hstart, hfinish⟩ := hwords span hspan
    exact ⟨hfeed span hspan, hstart, hfinish⟩
  · intro content fixture hparse other
    obtain ⟨_, hrecordable⟩ := recordable_of_parse hparse
    exact parse_textOf other hrecordable

/-- A name without a text, one that looks like a record and ends in a carriage return, and
records that are missing, also the last. -/
theorem awkward_records_read_back :
    let key : FixtureKey := ⟨⟨"u\n", "b\"c"⟩, .parser, "a\\.pug"⟩
    let records : List (Option Span) :=
      [some ⟨"", ⟨0, -1⟩, ⟨Text.minWord, Text.maxWord⟩⟩, none,
        some ⟨"a.pug,1,1,1,1\r", ⟨1, 1⟩, ⟨1, 1⟩⟩, none]
    parse key (textOf key records) "p" = .ok ⟨key, records⟩ := by
  intro key records
  have hspans : ∀ span, some span ∈ records →
      (span.start.FitsWords ∧ span.finish.FitsWords) ∧ '\n' ∉ span.filename.toList := by
    intro span hspan
    simp only [records, List.mem_cons, Option.some.injEq, reduceCtorEq, false_or, or_false,
      List.not_mem_nil] at hspan
    rcases hspan with rfl | rfl
    · exact ⟨⟨⟨by decide, by decide⟩, by decide, by decide⟩, by decide⟩
    · exact ⟨⟨⟨by decide, by decide⟩, by decide, by decide⟩, by decide⟩
  have hiff := (parse_textOf_iff key "p").1 records fun span hspan => (hspans span hspan).1
  exact hiff.mpr fun span hspan => (hspans span hspan).2

end Fixture

end SpanReview
