import Mathlib.Data.List.DropRight
import SpanReview.Text.Blank

namespace SpanReview.Text

/-! Trimming takes blank characters off both ends of a text and keeps all others. -/

theorem trimChars_split (cs : List Char) :
    ∃ lead tail, lead ++ trimChars cs ++ tail = cs ∧ (∀ c ∈ lead, isBlank c) ∧
      ∀ c ∈ tail, isBlank c := by
  refine ⟨cs.takeWhile isBlank, (cs.dropWhile isBlank).rtakeWhile isBlank, ?_,
    fun _ => List.mem_takeWhile_imp, fun _ => List.mem_rtakeWhile_imp⟩
  have hcore : trimChars cs = (cs.dropWhile isBlank).rdropWhile isBlank := rfl
  rw [hcore, List.append_assoc, List.rdropWhile_append_rtakeWhile,
    List.takeWhile_append_dropWhile]

theorem mem_trimChars {c : Char} {cs : List Char} (hc : c ∈ cs) (hblank : isBlank c = false) :
    c ∈ trimChars cs := by
  obtain ⟨lead, tail, hcs, hlead, htail⟩ := trimChars_split cs
  rw [← hcs] at hc
  rcases List.mem_append.mp hc with hfront | hc
  · rcases List.mem_append.mp hfront with hc | hcore
    · exact absurd (hlead c hc) (by simp [hblank])
    · exact hcore
  · exact absurd (htail c hc) (by simp [hblank])

theorem trimChars_of_forall {cs : List Char} (h : ∀ c ∈ cs, isBlank c = false) :
    trimChars cs = cs := by
  obtain ⟨lead, tail, hcs, hlead, htail⟩ := trimChars_split cs
  have hnone : ∀ part ⊆ cs, (∀ c ∈ part, isBlank c) → part = [] := by
    intro part hpart hblank
    apply List.eq_nil_iff_forall_not_mem.mpr
    intro c hc
    exact absurd (hblank c hc) (by simp [h c (hpart hc)])
  have hprefix : lead <+: cs := ⟨trimChars cs ++ tail, by rw [← List.append_assoc, hcs]⟩
  have hsuffix : tail <:+ cs := ⟨lead ++ trimChars cs, hcs⟩
  rw [hnone lead hprefix.subset hlead, hnone tail hsuffix.subset htail, List.nil_append,
    List.append_nil] at hcs
  exact hcs

theorem head_trimChars {c : Char} {cs rest : List Char} (h : trimChars cs = c :: rest) :
    isBlank c = false := by
  obtain ⟨tail, htail⟩ : trimChars cs <+: cs.dropWhile isBlank := List.rdropWhile_prefix _ _
  rw [h, List.cons_append] at htail
  have hhead := List.head?_dropWhile_not isBlank cs
  rw [← htail] at hhead
  exact hhead

/-- What follows the trimmed text in a text is blank. -/
theorem trimChars_append_ne {c : Char} {cs rest : List Char} (hcore : trimChars cs ≠ [])
    (hblank : isBlank c = false) : trimChars cs ++ c :: rest ≠ cs := by
  obtain ⟨first, others, hfirst⟩ := List.exists_cons_of_ne_nil hcore
  obtain ⟨lead, tail, hcs, hlead, htail⟩ := trimChars_split cs
  intro heq
  have hsame := heq.trans hcs.symm
  have hlead' : lead = [] := by
    cases lead with
    | nil => rfl
    | cons c' lead =>
        rw [hfirst, List.cons_append, List.cons_append, List.cons_append] at hsame
        obtain rfl : first = c' := List.head_eq_of_cons_eq hsame
        exact absurd (hlead first List.mem_cons_self) (by simp [head_trimChars hfirst])
  rw [hlead', List.nil_append, List.append_cancel_left_eq] at hsame
  have hc : isBlank c := htail c (by simp [← hsame])
  simp [hblank] at hc

theorem dropWhile_isBlank {lead core : List Char} (hlead : ∀ c ∈ lead, isBlank c)
    (hne : core ≠ []) (hcore : ∀ c ∈ core, isBlank c = false) (rest : List Char) :
    (lead ++ core ++ rest).dropWhile isBlank = core ++ rest := by
  obtain ⟨first, others, rfl⟩ := List.exists_cons_of_ne_nil hne
  have hfirst := hcore first List.mem_cons_self
  rw [List.append_assoc, List.dropWhile_append_of_pos hlead, List.cons_append,
    List.dropWhile_cons_of_neg (by simp [hfirst])]

/-- What is left of a text without the blanks around it. -/
theorem trimChars_of_spaced {lead core tail : List Char} (hlead : ∀ c ∈ lead, isBlank c)
    (htail : ∀ c ∈ tail, isBlank c) (hne : core ≠ []) (hcore : ∀ c ∈ core, isBlank c = false) :
    trimChars (lead ++ core ++ tail) = core := by
  have hreverse : (core ++ tail).reverse = tail.reverse ++ core.reverse ++ [] := by simp
  rw [trimChars, dropWhile_isBlank hlead hne hcore, dropTrailing, hreverse,
    dropWhile_isBlank (fun c hc => htail c (List.mem_reverse.mp hc))
      (fun h => hne (List.reverse_eq_nil_iff.mp h))
      (fun c hc => hcore c (List.mem_reverse.mp hc)), List.append_nil, List.reverse_reverse]

end SpanReview.Text
