import SpanReview.Proofs.Text.Decimal
import SpanReview.Session.Command

namespace SpanReview

/-! The language of the commands: a key, a file by its name, or an end of the span and a number.
Besides that language one more plus sign is taken before a number that has a sign of its own. -/

namespace Text

variable {cs tail : List Char} {n : Int}

theorem eq_nil_of_suffix_trimChars (h : tail <:+ trimChars cs) (hblank : ∀ c ∈ tail, isBlank c) :
    tail = [] := by
  by_contra htail
  obtain ⟨front, hfront⟩ := h
  have hcore : trimChars cs = (cs.dropWhile isBlank).rdropWhile isBlank := rfl
  have hne : (cs.dropWhile isBlank).rdropWhile isBlank ≠ [] := by
    rw [← hcore, ← hfront]
    exact List.append_ne_nil_of_right_ne_nil _ htail
  have hlast := List.rdropWhile_last_not isBlank _ hne
  simp only [← hcore, ← hfront, List.getLast_append_of_ne_nil _ htail] at hlast
  exact hlast (hblank _ (List.getLast_mem htail))

/-- In a trimmed text a part with nothing after it has blanks only before it. -/
theorem trimChars_of_suffix_trimmed (h : tail <:+ trimChars cs) :
    ∃ gap, tail = gap ++ trimChars tail ∧ ∀ c ∈ gap, isBlank c := by
  obtain ⟨gap, after, htail, hgap, hafter⟩ := trimChars_split tail
  obtain rfl : after = [] :=
    eq_nil_of_suffix_trimChars ((List.suffix_append _ _).trans (htail ▸ h)) hafter
  exact ⟨gap, by simpa using htail.symm, hgap⟩

theorem digits_natText (n : Nat) : Digits (natText n).toList n :=
  natural?_eq_some_iff.mp (natural?_natText n)

theorem signed_intText (n : Int) : Signed (intText n).toList n := by
  cases n with
  | ofNat n => exact .bare (digits_natText n)
  | negSucc n =>
      rw [intText, String.toList_append]
      exact .minus (digits_natText (n + 1))

theorem signed_plus_intText (h : 0 ≤ n) : Signed ('+' :: (intText n).toList) n := by
  obtain ⟨n, rfl⟩ := Int.eq_ofNat_of_zero_le h
  exact .plus (digits_natText n)

theorem signed_plus_iff : Signed ('+' :: cs) n ↔ ∃ m : Nat, Digits cs m ∧ n = m := by
  constructor
  · intro h
    cases h with
    | bare h => exact absurd (h.digits '+' List.mem_cons_self) (by decide)
    | plus h => exact ⟨_, h, rfl⟩
  · rintro ⟨m, h, rfl⟩
    exact .plus h

end Text

namespace Command

variable {cs rest text : List Char} {n : Int} {command : Command} {endpoint : Endpoint}

def letter : Endpoint → Char
  | .start => 's'
  | .finish => 'e'

def keys : List (Char × Command) :=
  [('n', .nextToken), ('p', .previousToken), ('N', .nextFile), ('P', .previousFile), ('w', .save),
    ('r', .run), ('j', .toggle .json), ('t', .toggle .showToken), ('h', .help), ('?', .help),
    ('q', .quit)]

/-- A number with at most one sign, that fits a word. -/
structure Amount (cs : List Char) (n : Int) : Prop where
  signed : Text.Signed cs n
  fits : Text.minWord ≤ n ∧ n ≤ Text.maxWord

/-- A number that has a sign, after one more plus sign. -/
structure DoublySigned (cs : List Char) (n : Int) : Prop where
  sign : ∃ sign digits, cs = '+' :: sign :: digits ∧ (sign = '+' ∨ sign = '-') ∧
    Text.Signed (sign :: digits) n
  fits : Text.minWord ≤ n ∧ n ≤ Text.maxWord

/-- What a command means, in the language that the operator is told of. -/
inductive Means : List Char → Command → Prop
  | key {c : Char} {command : Command} (h : (c, command) ∈ keys) : Means [c] command
  | file (rest : List Char) :
      Means ('f' :: ' ' :: rest) (.file (String.ofList (Text.trimChars rest)))
  | move (endpoint : Endpoint) {gap digits : List Char} {n : Int}
      (hgap : ∀ c ∈ gap, Text.isBlank c) (h : Amount digits n) :
      Means (letter endpoint :: (gap ++ digits)) (.move endpoint n)

/-- A move by a number with two signs. -/
inductive Doubled : List Char → Command → Prop
  | move (endpoint : Endpoint) {gap digits : List Char} {n : Int}
      (hgap : ∀ c ∈ gap, Text.isBlank c) (h : DoublySigned digits n) :
      Doubled (letter endpoint :: (gap ++ digits)) (.move endpoint n)

/-! Numbers. -/

theorem amount?_eq_some_iff :
    amount? cs = some n ↔
      Amount (Text.trimChars cs) n ∨ DoublySigned (Text.trimChars cs) n := by
  unfold amount?
  split
  · rename_i digits hcore
    rw [hcore, Text.integer?_eq_some_iff]
    constructor
    · rintro ⟨hsigned, hfits⟩
      cases hsigned with
      | bare h => exact .inl ⟨.plus h, hfits⟩
      | plus h => exact .inr ⟨⟨'+', _, rfl, .inl rfl, .plus h⟩, hfits⟩
      | minus h => exact .inr ⟨⟨'-', _, rfl, .inr rfl, .minus h⟩, hfits⟩
    · rintro (⟨hsigned, hfits⟩ | ⟨⟨sign, inner, heq, _, hsigned⟩, hfits⟩)
      · obtain ⟨m, hdigits, rfl⟩ := Text.signed_plus_iff.mp hsigned
        exact ⟨.bare hdigits, hfits⟩
      · cases heq
        exact ⟨hsigned, hfits⟩
  · rename_i hplus
    rw [Text.integer?_eq_some_iff]
    constructor
    · rintro ⟨hsigned, hfits⟩
      exact .inl ⟨hsigned, hfits⟩
    · rintro (⟨hsigned, hfits⟩ | ⟨⟨sign, inner, heq, _, _⟩, _⟩)
      · exact ⟨hsigned, hfits⟩
      · exact absurd heq (hplus _)

theorem parseMove_eq_ok_iff {input : List Char} :
    parseMove input endpoint rest = .ok command ↔
      ∃ n, command = .move endpoint n ∧
        (Amount (Text.trimChars rest) n ∨ DoublySigned (Text.trimChars rest) n) := by
  simp only [← amount?_eq_some_iff]
  unfold parseMove
  cases amount? rest with
  | none => simp
  | some amount =>
      constructor
      · intro h
        cases h
        exact ⟨amount, rfl, rfl⟩
      · rintro ⟨n, rfl, hn⟩
        cases hn
        rfl

theorem Amount.isBlank (h : Amount cs n) : ∀ c ∈ cs, Text.isBlank c = false :=
  h.signed.isBlank

theorem DoublySigned.isBlank (h : DoublySigned cs n) : ∀ c ∈ cs, Text.isBlank c = false := by
  obtain ⟨sign, digits, rfl, _, hsigned⟩ := h.sign
  exact List.forall_mem_cons.mpr ⟨rfl, hsigned.isBlank⟩

theorem DoublySigned.not_amount {m : Int} (h : DoublySigned cs n) : ¬Amount cs m := by
  obtain ⟨sign, digits, rfl, hsign, _⟩ := h.sign
  rintro ⟨hsigned, _⟩
  obtain ⟨_, hdigits, _⟩ := Text.signed_plus_iff.mp hsigned
  have hdigit := hdigits.digits sign List.mem_cons_self
  rcases hsign with rfl | rfl <;> exact absurd hdigit (by decide)

theorem trimChars_gap {gap digits : List Char} (hgap : ∀ c ∈ gap, Text.isBlank c)
    (hne : digits ≠ []) (hdigits : ∀ c ∈ digits, Text.isBlank c = false) :
    Text.trimChars (gap ++ digits) = digits := by
  have hspaced := Text.trimChars_of_spaced hgap (List.forall_mem_nil _) hne hdigits
  rwa [List.append_nil] at hspaced

/-! Texts without blanks around them. -/

theorem parseTrimmed_key {c : Char} (h : (c, command) ∈ keys) : parseTrimmed [c] = .ok command := by
  simp only [keys, List.mem_cons, List.not_mem_nil, or_false, Prod.mk.injEq] at h
  obtain ⟨rfl, rfl⟩ | ⟨rfl, rfl⟩ | ⟨rfl, rfl⟩ | ⟨rfl, rfl⟩ | ⟨rfl, rfl⟩ | ⟨rfl, rfl⟩ | ⟨rfl, rfl⟩ |
    ⟨rfl, rfl⟩ | ⟨rfl, rfl⟩ | ⟨rfl, rfl⟩ | ⟨rfl, rfl⟩ := h <;> rfl

theorem parseTrimmed_letter (endpoint : Endpoint) (rest : List Char) :
    parseTrimmed (letter endpoint :: rest) =
      parseMove (letter endpoint :: rest) endpoint rest := by
  cases endpoint <;> simp [letter, parseTrimmed]

theorem Amount.trimmed {gap : List Char} (hgap : ∀ c ∈ gap, Text.isBlank c) (h : Amount cs n) :
    Text.trimChars (gap ++ cs) = cs :=
  trimChars_gap hgap h.signed.ne_nil h.isBlank

theorem DoublySigned.trimmed {gap : List Char} (hgap : ∀ c ∈ gap, Text.isBlank c)
    (h : DoublySigned cs n) : Text.trimChars (gap ++ cs) = cs := by
  obtain ⟨sign, digits, hcs, _⟩ := h.sign
  exact trimChars_gap hgap (hcs ▸ List.cons_ne_nil _ _) h.isBlank

theorem Means.parseTrimmed (h : Means text command) : parseTrimmed text = .ok command := by
  cases h with
  | key h => exact parseTrimmed_key h
  | file rest => simp [Command.parseTrimmed]
  | move endpoint hgap h =>
      rw [parseTrimmed_letter, parseMove_eq_ok_iff, h.trimmed hgap]
      exact ⟨_, rfl, .inl h⟩

theorem Doubled.parseTrimmed (h : Doubled text command) : parseTrimmed text = .ok command := by
  cases h with
  | move endpoint hgap h =>
      rw [parseTrimmed_letter, parseMove_eq_ok_iff, h.trimmed hgap]
      exact ⟨_, rfl, .inr h⟩

theorem means_or_doubled_of_parseMove {input : List Char} (hrest : rest <:+ Text.trimChars cs)
    (h : parseMove input endpoint rest = .ok command) :
    Means (letter endpoint :: rest) command ∨ Doubled (letter endpoint :: rest) command := by
  obtain ⟨n, rfl, hn⟩ := parseMove_eq_ok_iff.mp h
  -- the text is trimmed already, so trimming the rest only drops the gap
  obtain ⟨gap, hgapped, hgap⟩ := Text.trimChars_of_suffix_trimmed hrest
  rw [hgapped]
  rcases hn with hone | htwo
  · exact .inl (.move endpoint hgap hone)
  · exact .inr (.move endpoint hgap htwo)

theorem means_or_doubled_of_parseTrimmed (htext : text = Text.trimChars cs)
    (h : parseTrimmed text = .ok command) : Means text command ∨ Doubled text command := by
  unfold Command.parseTrimmed at h
  split at h
  case h_12 => cases h; exact .inl (.file _)
  case h_13 rest => exact means_or_doubled_of_parseMove (htext ▸ List.suffix_cons _ _) h
  case h_14 rest => exact means_or_doubled_of_parseMove (htext ▸ List.suffix_cons _ _) h
  case h_15 => cases h
  all_goals
    cases h
    exact .inl (.key (by decide))

theorem Means.amount (h : Means (letter endpoint :: rest) command) :
    ∃ n, Amount (Text.trimChars rest) n := by
  have hkey : ∀ entry ∈ keys, entry.1 ≠ letter endpoint := by
    cases endpoint <;> decide
  generalize htext : letter endpoint :: rest = text at h
  cases h with
  | key h => exact absurd (List.head_eq_of_cons_eq htext).symm (hkey _ h)
  | file => cases endpoint <;> cases htext
  | move other hgap h =>
      obtain ⟨_, rfl⟩ := List.cons.inj htext
      exact ⟨_, by rwa [h.trimmed hgap]⟩

theorem Doubled.not_means {other : Command} (h : Doubled text command) : ¬Means text other := by
  cases h with
  | move endpoint hgap h =>
      intro hmeans
      obtain ⟨m, hm⟩ := Means.amount hmeans
      rw [h.trimmed hgap] at hm
      exact h.not_amount hm

theorem parse_eq_ok_iff {input : String} :
    parse input = .ok command ↔
      Means (Text.trimChars input.toList) command ∨
        Doubled (Text.trimChars input.toList) command :=
  ⟨means_or_doubled_of_parseTrimmed rfl, fun h => h.elim Means.parseTrimmed Doubled.parseTrimmed⟩

theorem parse_eq_error_iff {input : String} :
    (∃ error, parse input = .error error) ↔
      ¬∃ command, Means (Text.trimChars input.toList) command ∨
        Doubled (Text.trimChars input.toList) command := by
  simp only [← parse_eq_ok_iff]
  cases parse input <;> simp

theorem parse_move (h : Text.Signed cs n) (hfits : Text.fitsWord n) (endpoint : Endpoint) :
    parse (String.ofList (letter endpoint :: cs)) = .ok (.move endpoint n) := by
  have hamount : Amount cs n := ⟨h, Text.fitsWord_iff.mp hfits⟩
  have htrimmed : Text.trimChars (letter endpoint :: cs) = letter endpoint :: cs :=
    Text.trimChars_of_forall
      (List.forall_mem_cons.mpr ⟨by cases endpoint <;> rfl, hamount.isBlank⟩)
  rw [parse_eq_ok_iff, String.toList_ofList, htrimmed]
  exact .inl (.move endpoint (List.forall_mem_nil _) hamount)

theorem parse_reads_language (input : String) (endpoint : Endpoint) (n : Int) :
    (∀ command, parse input = .ok command ↔
      Means (Text.trimChars input.toList) command ∨
        Doubled (Text.trimChars input.toList) command) ∧
    (((∀ command, parse input = .ok command ↔ Means (Text.trimChars input.toList) command) ∧
        ((∃ error, parse input = .error error) ↔
          ¬∃ command, Means (Text.trimChars input.toList) command)) ↔
      ¬∃ command, Doubled (Text.trimChars input.toList) command) ∧
    (Text.fitsWord n →
      parse (String.ofList (letter endpoint :: (Text.intText n).toList)) =
          .ok (.move endpoint n) ∧
        (0 ≤ n → parse (String.ofList (letter endpoint :: '+' :: (Text.intText n).toList)) =
          .ok (.move endpoint n))) := by
  refine ⟨fun _ => parse_eq_ok_iff, ?_, fun hfits => ?_⟩
  · constructor
    · rintro ⟨hok, _⟩ ⟨command, hdoubled⟩
      exact hdoubled.not_means ((hok command).mp (parse_eq_ok_iff.mpr (.inr hdoubled)))
    · intro hnone
      have hsame : ∀ command, Means (Text.trimChars input.toList) command ∨
          Doubled (Text.trimChars input.toList) command ↔
            Means (Text.trimChars input.toList) command :=
        fun command => or_iff_left (not_exists.mp hnone command)
      simp only [parse_eq_ok_iff, parse_eq_error_iff, hsame, implies_true, and_self]
  · exact ⟨parse_move (Text.signed_intText n) hfits endpoint,
      fun hpos => parse_move (Text.signed_plus_intText hpos) hfits endpoint⟩

theorem farthest_moves_are_read :
    (Text.fitsWord Text.minWord ∧
        parse "e-9223372036854775808" = .ok (.move .finish Text.minWord)) ∧
      Text.fitsWord Text.maxWord ∧ 0 ≤ Text.maxWord ∧
        parse "s+9223372036854775807" = .ok (.move .start Text.maxWord) := by
  have hleast : Text.fitsWord Text.minWord := by decide
  have hmost : Text.fitsWord Text.maxWord := by decide
  have hpos : 0 ≤ Text.maxWord := by decide
  obtain ⟨_, _, hback⟩ := parse_reads_language "" .finish Text.minWord
  obtain ⟨_, _, honward⟩ := parse_reads_language "" .start Text.maxWord
  exact ⟨⟨hleast, (hback hleast).1⟩, hmost, hpos, (honward hmost).2 hpos⟩

/-- Two signs before a number are no mistake to the reader. -/
theorem two_signs_are_read :
    parse "s+-5" = .ok (.move .start (-5)) ∧
      ¬∃ command, Means (Text.trimChars "s+-5".toList) command := by
  have hdoubled : Doubled (Text.trimChars "s+-5".toList) (.move .start (-5)) := by
    have hdigits : Text.Digits ['5'] 5 := Text.natural?_eq_some_iff.mp rfl
    exact .move .start (List.forall_mem_nil _)
      ⟨⟨'-', ['5'], rfl, .inr rfl, .minus hdigits⟩, by decide⟩
  exact ⟨parse_eq_ok_iff.mpr (.inr hdoubled), fun ⟨_, h⟩ => hdoubled.not_means h⟩

end Command

end SpanReview
