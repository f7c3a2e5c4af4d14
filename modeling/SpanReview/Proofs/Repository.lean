import Mathlib.Data.List.DropRight
import SpanReview.Proofs.Path
import SpanReview.Repository

namespace SpanReview

namespace Text

/-! What stands at the ends of a text. -/

variable {text front rest : List Char} {drops : Char → Bool}

theorem afterHead?_eq_some_iff {head : String} :
    afterHead? head text = some rest ↔ head.toList ++ rest = text :=
  List.isPrefixOf?_eq_some_iff_append_eq

theorem beforeTail?_eq_some_iff {tail : String} :
    beforeTail? tail text = some front ↔ front ++ tail.toList = text :=
  List.isSuffixOf?_eq_some_iff_append_eq

theorem beforeTail?_eq_none_iff {tail : String} :
    beforeTail? tail text = none ↔ ¬ tail.toList <:+ text := by
  rw [Option.eq_none_iff_forall_ne_some]
  simp only [ne_eq, beforeTail?_eq_some_iff]
  exact not_exists.symm

theorem dropTrailing_append (hdrops : ∀ c ∈ rest, drops c) :
    dropTrailing drops (text ++ rest) = dropTrailing drops text := by
  rw [dropTrailing, List.reverse_append,
    List.dropWhile_append_of_pos fun c hc => hdrops c (List.mem_reverse.mp hc), dropTrailing]

theorem dropTrailing_of_last (h : ∀ c, text.getLast? = some c → drops c = false) :
    dropTrailing drops text = text := by
  have hkept := List.rdropWhile_eq_self_iff (p := drops) (l := text)
  refine hkept.mpr fun hne => ?_
  simp [h _ (List.getLast?_eq_some_getLast hne)]

theorem exists_trailing (drops : Char → Bool) (text : List Char) :
    ∃ rest, text = dropTrailing drops text ++ rest ∧ ∀ c ∈ rest, drops c :=
  ⟨text.rtakeWhile drops, List.rdropWhile_append_rtakeWhile.symm,
    fun _ => List.mem_rtakeWhile_imp⟩

theorem last_dropTrailing {c : Char} (h : (dropTrailing drops text).getLast? = some c) :
    drops c = false := by
  rw [dropTrailing, List.getLast?_reverse] at h
  have hhead := List.head?_dropWhile_not drops text.reverse
  rw [h] at hhead
  exact hhead

end Text

namespace Repository

/-! Whatever the remote is, its fixtures go to a directory with one name. -/

/-- A character that a slug keeps and that does not separate its parts. -/
def isPart (c : Char) : Bool :=
  isWord c && c != '-'

/-- Takes one more character into a slug, which stands backwards. -/
def takeIn (slug : List Char) (c : Char) : List Char :=
  let c := if isWord c then c else '-'
  if c == '-' && slug.head? == some '-' then slug else c :: slug

def dashed (url : List Char) : List Char :=
  (url.foldl takeIn []).reverse

theorem slugOf_eq (url : List Char) :
    slugOf url = Text.dropTrailing (· == '-') ((dashed url).dropWhile (· == '-')) := rfl

theorem takeIn_part {slug : List Char} {c : Char} (h : isPart c) : takeIn slug c = c :: slug := by
  obtain ⟨hword, hdash⟩ : isWord c ∧ c ≠ '-' := by simpa [isPart] using h
  simp [takeIn, hword, hdash]

theorem takeIn_gap {slug : List Char} {c : Char} (h : isPart c = false) :
    takeIn slug c = if slug.head? = some '-' then slug else '-' :: slug := by
  have hdash : (if isWord c then c else '-') = '-' := by
    split
    · rename_i hword
      simpa [isPart, hword] using h
    · rfl
  simp [takeIn, hdash]

theorem foldl_takeIn_keeps {motive : List Char → Prop} (url : List Char) (hnil : motive [])
    (hpart : ∀ slug c, isPart c → motive slug → motive (c :: slug))
    (hdash : ∀ slug, slug.head? ≠ some '-' → motive slug → motive ('-' :: slug)) :
    motive (url.foldl takeIn []) := by
  refine List.foldlRecOn (motive := motive) url takeIn hnil fun slug hslug c _ => ?_
  -- A slug grows by parts, and by a dash where it does not end with one.
  cases h : isPart c with
  | true =>
      rw [takeIn_part h]
      exact hpart slug c h hslug
  | false =>
      rw [takeIn_gap h]
      split
      · exact hslug
      · rename_i hhead
        exact hdash slug hhead hslug

theorem isWord_of_isPart {c : Char} (h : isPart c) : isWord c := by
  unfold isPart at h
  exact (Bool.and_eq_true_iff.mp h).1

theorem word_of_mem_dashed {url : List Char} {c : Char} (hc : c ∈ dashed url) : isWord c := by
  have hwords := foldl_takeIn_keeps (motive := fun slug => ∀ c ∈ slug, isWord c) url
    (List.forall_mem_nil _)
    (fun _ _ hpart hslug => List.forall_mem_cons.mpr ⟨isWord_of_isPart hpart, hslug⟩)
    (fun _ _ hslug => List.forall_mem_cons.mpr ⟨by decide, hslug⟩)
  exact hwords c (List.mem_reverse.mp hc)

theorem single_dashed (url : List Char) : ¬ ['-', '-'] <:+: dashed url := by
  intro hinfix
  refine foldl_takeIn_keeps (motive := fun slug => ¬ ['-', '-'] <:+: slug) url (by decide)
    (fun slug c hpart hslug h => ?_) (fun slug hhead hslug h => ?_)
    (List.reverse_infix.mp hinfix)
  · rcases List.infix_cons_iff.mp h with hprefix | hrest
    · obtain rfl : '-' = c := (List.cons_prefix_cons.mp hprefix).1
      exact absurd hpart (by decide)
    · exact hslug hrest
  · rcases List.infix_cons_iff.mp h with hprefix | hrest
    · obtain ⟨rest, rfl⟩ := (List.cons_prefix_cons.mp hprefix).2
      exact hhead rfl
    · exact hslug hrest

theorem infix_slugOf (url : List Char) : slugOf url <:+: dashed url := by
  have hprefix : slugOf url <+: (dashed url).dropWhile (· == '-') := List.rdropWhile_prefix _ _
  exact hprefix.isInfix.trans (List.dropWhile_suffix _).isInfix

theorem word_of_mem_slugOf {url : List Char} {c : Char} (hc : c ∈ slugOf url) :
    isWord c = true :=
  word_of_mem_dashed ((infix_slugOf url).subset hc)

/-! A slug, and what makes it the slug of a remote. -/

/-- Words with single dashes between them. -/
structure IsSlug (cs : List Char) : Prop where
  words : ∀ c ∈ cs, isWord c
  single : ¬ ['-', '-'] <:+: cs
  first : cs.head? ≠ some '-'
  last : cs.getLast? ≠ some '-'

theorem isSlug_slugOf (url : List Char) : IsSlug (slugOf url) where
  words _ := word_of_mem_slugOf
  single h := single_dashed url (h.trans (infix_slugOf url))
  first h := by
    obtain ⟨rest, hrest⟩ : slugOf url <+: (dashed url).dropWhile (· == '-') :=
      List.rdropWhile_prefix _ _
    have hhead := List.head?_dropWhile_not (· == '-') (dashed url)
    rw [← hrest, List.head?_append, h] at hhead
    simp at hhead
  last h := absurd (Text.last_dropTrailing (slugOf_eq url ▸ h)) (by decide)

theorem foldl_takeIn_of_single {slug rest : List Char} (hwords : ∀ c ∈ rest, isWord c)
    (hsingle : ¬ ['-', '-'] <:+: slug.reverse ++ rest) :
    rest.foldl takeIn slug = rest.reverse ++ slug := by
  induction rest generalizing slug with
  | nil => rfl
  | cons c rest ih =>
      obtain ⟨hword, hwords⟩ := List.forall_mem_cons.mp hwords
      have htaken : takeIn slug c = c :: slug := by
        cases h : isPart c with
        | true => exact takeIn_part h
        | false =>
            obtain rfl : c = '-' := by simpa [isPart, hword] using h
            rw [takeIn_gap h, if_neg]
            intro hhead
            obtain ⟨before, rfl⟩ := List.head?_eq_some_iff.mp hhead
            exact hsingle ⟨before.reverse, rest, by simp⟩
      rw [List.foldl_cons, htaken, ih hwords (by simpa using hsingle)]
      simp

theorem slugOf_of_isSlug {cs : List Char} (h : IsSlug cs) : slugOf cs = cs := by
  have hdashed : dashed cs = cs := by
    have hsingle : ¬ ['-', '-'] <:+: [].reverse ++ cs := h.single
    rw [dashed, foldl_takeIn_of_single h.words hsingle]
    simp
  have hfront : cs.dropWhile (· == '-') = cs := by
    cases cs with
    | nil => rfl
    | cons c rest =>
        refine List.dropWhile_cons_of_neg fun hc => h.first ?_
        rw [List.head?_cons, beq_iff_eq.mp hc]
  rw [slugOf_eq, hdashed, hfront]
  refine Text.dropTrailing_of_last fun c hc => ?_
  rw [beq_eq_false_iff_ne]
  rintro rfl
  exact h.last hc

/-- The runs of parts in a text. -/
def parts (cs : List Char) : List (List Char) :=
  (cs.splitOnP fun c => !isPart c).filter (· ≠ [])

theorem parts_gap {front rest : List Char} {c : Char} (h : isPart c = false) :
    parts (front ++ c :: rest) = parts front ++ parts rest := by
  rw [parts, List.splitOnP_append_cons front rest (by simpa using h), List.filter_append, parts,
    parts]

theorem parts_gaps {gaps rest : List Char} (h : ∀ c ∈ gaps, isPart c = false) :
    parts (gaps ++ rest) = parts rest := by
  induction gaps with
  | nil => rfl
  | cons c gaps ih =>
      obtain ⟨hc, hgaps⟩ := List.forall_mem_cons.mp h
      have hgap : parts ([] ++ c :: (gaps ++ rest)) = _ := parts_gap hc
      exact hgap.trans (ih hgaps)

theorem parts_append_gaps {front gaps : List Char} (h : ∀ c ∈ gaps, isPart c = false) :
    parts (front ++ gaps) = parts front := by
  cases gaps with
  | nil => rw [List.append_nil]
  | cons c gaps =>
      obtain ⟨hc, hgaps⟩ := List.forall_mem_cons.mp h
      have hnone : parts gaps = [] := by
        have hall : parts (gaps ++ []) = parts [] := parts_gaps hgaps
        rwa [List.append_nil] at hall
      rw [parts_gap hc, hnone, List.append_nil]

theorem parts_foldl_takeIn (slug rest : List Char) :
    parts (rest.foldl takeIn slug).reverse = parts (slug.reverse ++ rest) := by
  induction rest generalizing slug with
  | nil => rw [List.foldl_nil, List.append_nil]
  | cons c rest ih =>
      rw [List.foldl_cons, ih]
      cases h : isPart c with
      | true => simp [takeIn_part h]
      | false =>
          have hdash : isPart '-' = false := by decide
          rw [parts_gap h, takeIn_gap h]
          split
          · rename_i hhead
            obtain ⟨before, rfl⟩ := List.head?_eq_some_iff.mp hhead
            rw [List.reverse_cons, List.append_assoc, List.singleton_append, parts_gap hdash,
              parts_gap hdash]
            simp [parts]
          · rw [List.reverse_cons, List.append_assoc, List.singleton_append, parts_gap hdash]

theorem parts_slugOf (url : List Char) : parts (slugOf url) = parts url := by
  have hdash : ∀ c : Char, (c == '-') = true → isPart c = false := by
    intro c hc
    obtain rfl := beq_iff_eq.mp hc
    decide
  obtain ⟨gaps, hgaps, hback⟩ :=
    Text.exists_trailing (· == '-') ((dashed url).dropWhile (· == '-'))
  calc parts (slugOf url)
      = parts (slugOf url ++ gaps) := (parts_append_gaps fun c hc => hdash c (hback c hc)).symm
    _ = parts ((dashed url).dropWhile (· == '-')) := congrArg parts hgaps.symm
    _ = parts ((dashed url).takeWhile (· == '-') ++ (dashed url).dropWhile (· == '-')) :=
        (parts_gaps fun c hc => hdash c (List.mem_takeWhile_imp (p := (· == '-')) hc)).symm
    _ = parts (dashed url) := by rw [List.takeWhile_append_dropWhile]
    _ = parts url := parts_foldl_takeIn [] url

theorem noSlash_of_ownerAndName? {path owner name : List Char}
    (h : ownerAndName? path = some (owner, name)) : '/' ∉ owner ∧ '/' ∉ name := by
  unfold ownerAndName? at h
  dsimp only at h
  split at h
  · rename_i hsplit
    split at h
    · contradiction
    · cases h
      have howner := hsplit.symm ▸ (List.mem_cons_self : owner ∈ [owner, name])
      have hname := hsplit.symm ▸ (by simp : name ∈ [owner, name])
      exact ⟨Text.not_mem_of_mem_splitOn howner, Text.not_mem_of_mem_splitOn hname⟩
  · contradiction

theorem isName_directory (repository : Repository) : Path.IsName repository.directory := by
  unfold directory directoryOf
  split
  · rename_i owner name hremote
    obtain ⟨path, _, hpath⟩ := Option.bind_eq_some_iff.mp hremote
    obtain ⟨howner, hname⟩ := noSlash_of_ownerAndName? hpath
    refine Path.isName_of_mem (c := '-') ?_ (by decide) ?_
    · simp
    · simp [howner, hname]
  · dsimp only
    split
    · exact Path.isName_of_mem (c := 'u') (by decide) (by decide) (by decide)
    · rename_i hslug
      obtain ⟨first, rest, hcs⟩ := List.exists_cons_of_ne_nil (by simpa using hslug)
      have hword : ∀ c ∈ first :: rest, isWord c = true := fun c hc =>
        word_of_mem_slugOf (hcs ▸ hc)
      rw [hcs]
      refine Path.isName_of_mem (c := first) ?_ ?_ ?_
      · simp
      · rintro rfl
        exact absurd (hword '.' List.mem_cons_self) (by decide)
      · rw [String.toList_ofList]
        exact fun hmem => absurd (hword '/' hmem) (by decide)

end Repository

end SpanReview
