import SpanReview.Proofs.Text.Trim
import SpanReview.Text.Decimal

namespace SpanReview.Text

/-! A number that fits a word is read back from its own text, and no other is read. -/

theorem digit?_of_isDigit {c : Char} (h : c.isDigit) : digit? c = some (c.toNat - '0'.toNat) := by
  have hbounds : '0' ≤ c ∧ c ≤ '9' := by
    simpa [Char.isDigit, Char.le_def, UInt32.le_iff_toNat_le] using h
  rw [digit?, if_pos hbounds]

theorem isDigit_of_digit? {c : Char} {d : Nat} (h : digit? c = some d) : c.isDigit := by
  unfold digit? at h
  split at h
  · rename_i hbounds
    simpa [Char.isDigit, Char.le_def, UInt32.le_iff_toNat_le] using hbounds
  · cases h

theorem digitsFrom?_of_digits {cs : List Char} (h : ∀ c ∈ cs, c.isDigit) (acc : Nat) :
    digitsFrom? acc cs = some (Nat.ofDigitChars 10 cs acc) := by
  induction cs generalizing acc with
  | nil => rfl
  | cons c cs ih =>
      obtain ⟨hc, hcs⟩ := List.forall_mem_cons.mp h
      rw [digitsFrom?, digit?_of_isDigit hc, Nat.ofDigitChars_cons]
      exact ih hcs _

theorem toList_natText (n : Nat) : (natText n).toList = Nat.toDigits 10 n :=
  String.toList_ofList

theorem intText_eq_toString (n : Int) : intText n = toString n := by
  cases n <;> rfl

theorem isDigit_of_mem_natText {n : Nat} {c : Char} (h : c ∈ (natText n).toList) : c.isDigit := by
  rw [toList_natText] at h
  exact Nat.isDigit_of_mem_toDigits (by decide) (by decide) h

theorem natText_eq_cons (n : Nat) : ∃ c cs, (natText n).toList = c :: cs ∧ c.isDigit := by
  obtain ⟨c, cs, hcs⟩ := List.exists_cons_of_ne_nil (Nat.toDigits_ne_nil (n := n) (b := 10))
  rw [← toList_natText] at hcs
  exact ⟨c, cs, hcs, isDigit_of_mem_natText (by rw [hcs]; exact List.mem_cons_self)⟩

theorem natural?_natText (n : Nat) : natural? (natText n).toList = some n := by
  have hvalue := digitsFrom?_of_digits (fun _ => isDigit_of_mem_natText (n := n)) 0
  obtain ⟨c, cs, hcs, _⟩ := natText_eq_cons n
  rw [hcs] at hvalue ⊢
  rw [natural?, hvalue, ← hcs, toList_natText, Nat.ofDigitChars_ten_toDigits]

theorem integer?_of_isDigit {c : Char} (cs : List Char) (h : c.isDigit) :
    integer? (c :: cs) = (natural? (c :: cs)).bind fun n => word? n := by
  have hplus : c ≠ '+' := by
    rintro rfl
    exact absurd h (by decide)
  have hminus : c ≠ '-' := by
    rintro rfl
    exact absurd h (by decide)
  simp [integer?, hplus, hminus]

theorem integer?_intText (n : Int) : integer? (intText n).toList = word? n := by
  cases n with
  | ofNat n =>
      obtain ⟨c, cs, hcs, hdigit⟩ := natText_eq_cons n
      rw [intText, hcs, integer?_of_isDigit cs hdigit, ← hcs, natural?_natText, Option.bind_some]
      rfl
  | negSucc n =>
      have hchars : (intText (.negSucc n)).toList = '-' :: (natText (n + 1)).toList := by
        rw [intText, String.toList_append]
        rfl
      rw [hchars, integer?, natural?_natText, Option.bind_some]
      rfl

theorem mem_intText {n : Int} {c : Char} (h : c ∈ (intText n).toList) : c.isDigit ∨ c = '-' := by
  cases n with
  | ofNat n => exact .inl (isDigit_of_mem_natText h)
  | negSucc n =>
      rw [intText, String.toList_append] at h
      rcases List.mem_append.mp h with hsign | hdigits
      · exact .inr (List.mem_singleton.mp hsign)
      · exact .inl (isDigit_of_mem_natText hdigits)

theorem isBlank_of_isDigit {c : Char} (h : c.isDigit) : isBlank c = false := by
  have hrange : 48 ≤ c.toNat ∧ c.toNat ≤ 57 := by
    simpa [Char.isDigit, UInt32.le_iff_toNat_le] using h
  simp only [isBlank, Bool.or_eq_false_iff, Bool.and_eq_false_iff, decide_eq_false_iff_not,
    beq_eq_false_iff_ne]
  omega

theorem isBlank_of_mem_intText {n : Int} {c : Char} (h : c ∈ (intText n).toList) :
    isBlank c = false := by
  rcases mem_intText h with hdigit | rfl
  · exact isBlank_of_isDigit hdigit
  · rfl

theorem trimChars_intText (n : Int) : trimChars (intText n).toList = (intText n).toList :=
  trimChars_of_forall fun _ => isBlank_of_mem_intText

theorem fitsWord_iff {n : Int} : fitsWord n ↔ minWord ≤ n ∧ n ≤ maxWord := by
  simp [fitsWord]

theorem word?_of_fitsWord {n : Int} (h : fitsWord n) : word? n = some n :=
  if_pos h

/-! Which texts are numbers: digits after an optional sign, between any white space, with a value
that fits a word. -/

/-- A run of decimal digits and its value. -/
structure Digits (cs : List Char) (n : Nat) : Prop where
  nonempty : cs ≠ []
  digits : ∀ c ∈ cs, c.isDigit
  value : Nat.ofDigitChars 10 cs 0 = n

inductive Signed : List Char → Int → Prop
  | bare {cs : List Char} {n : Nat} (h : Digits cs n) : Signed cs n
  | plus {cs : List Char} {n : Nat} (h : Digits cs n) : Signed ('+' :: cs) n
  | minus {cs : List Char} {n : Nat} (h : Digits cs n) : Signed ('-' :: cs) (-n)

structure IsWord (cs : List Char) (n : Int) : Prop where
  spaced : ∃ lead core tail, cs = lead ++ core ++ tail ∧ (∀ c ∈ lead, isBlank c) ∧
    (∀ c ∈ tail, isBlank c) ∧ Signed core n
  fits : minWord ≤ n ∧ n ≤ maxWord

theorem digits_of_digitsFrom? {cs : List Char} {acc n : Nat} (h : digitsFrom? acc cs = some n) :
    ∀ c ∈ cs, c.isDigit := by
  induction cs generalizing acc with
  | nil => nofun
  | cons c cs ih =>
      rw [digitsFrom?] at h
      split at h
      · rename_i hdigit
        exact List.forall_mem_cons.mpr ⟨isDigit_of_digit? hdigit, ih h⟩
      · cases h

theorem natural?_eq_some_iff {cs : List Char} {n : Nat} : natural? cs = some n ↔ Digits cs n := by
  have hnatural : ∀ c rest, natural? (c :: rest) = digitsFrom? 0 (c :: rest) := fun _ _ => rfl
  constructor
  · intro h
    cases cs with
    | nil => cases h
    | cons c rest =>
        rw [hnatural] at h
        have hdigits := digits_of_digitsFrom? h
        rw [digitsFrom?_of_digits hdigits] at h
        exact ⟨List.cons_ne_nil _ _, hdigits, Option.some.inj h⟩
  · rintro ⟨hnonempty, hdigits, rfl⟩
    obtain ⟨c, rest, rfl⟩ := List.exists_cons_of_ne_nil hnonempty
    rw [hnatural, digitsFrom?_of_digits hdigits]

theorem word?_eq_some_iff {m n : Int} : word? m = some n ↔ m = n ∧ minWord ≤ n ∧ n ≤ maxWord := by
  constructor
  · intro h
    unfold word? at h
    split at h
    · rename_i hfits
      cases h
      exact ⟨rfl, fitsWord_iff.mp hfits⟩
    · cases h
  · rintro ⟨rfl, hfits⟩
    exact word?_of_fitsWord (fitsWord_iff.mpr hfits)

theorem integer?_eq_some_iff {cs : List Char} {n : Int} :
    integer? cs = some n ↔ Signed cs n ∧ minWord ≤ n ∧ n ≤ maxWord := by
  constructor
  · intro h
    unfold integer? at h
    split at h
    all_goals
      obtain ⟨m, hnatural, hword⟩ := Option.bind_eq_some_iff.mp h
      obtain ⟨rfl, hfits⟩ := word?_eq_some_iff.mp hword
      have hdigits := natural?_eq_some_iff.mp hnatural
    · exact ⟨.plus hdigits, hfits⟩
    · exact ⟨.minus hdigits, hfits⟩
    · exact ⟨.bare hdigits, hfits⟩
  · rintro ⟨h, hfits⟩
    cases h with
    | bare h =>
        obtain ⟨c, rest, rfl⟩ := List.exists_cons_of_ne_nil h.nonempty
        rw [integer?_of_isDigit rest (h.digits c List.mem_cons_self),
          natural?_eq_some_iff.mpr h, Option.bind_some]
        exact word?_eq_some_iff.mpr ⟨rfl, hfits⟩
    | plus h =>
        rw [integer?, natural?_eq_some_iff.mpr h, Option.bind_some]
        exact word?_eq_some_iff.mpr ⟨rfl, hfits⟩
    | minus h =>
        rw [integer?, natural?_eq_some_iff.mpr h, Option.bind_some]
        exact word?_eq_some_iff.mpr ⟨rfl, hfits⟩

theorem Signed.ne_nil {cs : List Char} {n : Int} (h : Signed cs n) : cs ≠ [] := by
  cases h with
  | bare h => exact h.nonempty
  | plus h => exact List.cons_ne_nil _ _
  | minus h => exact List.cons_ne_nil _ _

theorem Signed.mem {cs : List Char} {n : Int} (h : Signed cs n) :
    ∀ c ∈ cs, c.isDigit ∨ c = '+' ∨ c = '-' := by
  cases h with
  | bare h => exact fun c hc => .inl (h.digits c hc)
  | plus h =>
      exact List.forall_mem_cons.mpr ⟨.inr (.inl rfl), fun c hc => .inl (h.digits c hc)⟩
  | minus h =>
      exact List.forall_mem_cons.mpr ⟨.inr (.inr rfl), fun c hc => .inl (h.digits c hc)⟩

theorem Signed.isBlank {cs : List Char} {n : Int} (h : Signed cs n) :
    ∀ c ∈ cs, isBlank c = false := by
  intro c hc
  rcases h.mem c hc with hdigit | rfl | rfl
  · exact isBlank_of_isDigit hdigit
  · rfl
  · rfl

theorem IsWord.mem {cs : List Char} {n : Int} (h : IsWord cs n) :
    ∀ c ∈ cs, isBlank c ∨ c.isDigit ∨ c = '+' ∨ c = '-' := by
  obtain ⟨lead, core, tail, rfl, hlead, htail, hsigned⟩ := h.spaced
  intro c hc
  rcases List.mem_append.mp hc with hfront | hc
  · rcases List.mem_append.mp hfront with hc | hc
    · exact .inl (hlead c hc)
    · exact .inr (hsigned.mem c hc)
  · exact .inl (htail c hc)

theorem integer?_trimChars_iff {cs : List Char} {n : Int} :
    integer? (trimChars cs) = some n ↔ IsWord cs n := by
  rw [integer?_eq_some_iff]
  constructor
  · rintro ⟨hsigned, hfits⟩
    obtain ⟨lead, tail, hcs, hlead, htail⟩ := trimChars_split cs
    exact ⟨⟨lead, trimChars cs, tail, hcs.symm, hlead, htail, hsigned⟩, hfits⟩
  · rintro ⟨⟨lead, core, tail, rfl, hlead, htail, hsigned⟩, hfits⟩
    rw [trimChars_of_spaced hlead htail hsigned.ne_nil hsigned.isBlank]
    exact ⟨hsigned, hfits⟩

theorem isWord_intText {n : Int} (h : fitsWord n) : IsWord (intText n).toList n := by
  rw [← integer?_trimChars_iff, trimChars_intText, integer?_intText, word?_of_fitsWord h]

end SpanReview.Text
