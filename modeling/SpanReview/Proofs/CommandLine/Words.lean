import Mathlib.Data.List.Induction
import SpanReview.CommandLine.Words

namespace SpanReview.Words

/-! Every list of words has a line that is split into it, a line without quotes and backslashes
is cut at its blanks, and a line is refused exactly where it breaks off. -/

variable {cs before front rest body : List Char} {c quote : Char} {word : Option (List Char)}

def IsQuote (c : Char) : Prop :=
  c = '\'' ∨ c = '"'

/-- Stands for itself outside quotes. -/
structure Plain (c : Char) : Prop where
  notSingle : c ≠ '\''
  notDouble : c ≠ '"'
  notBackslash : c ≠ '\\'

instance (c : Char) : Decidable (Plain c) :=
  decidable_of_iff (c ≠ '\'' ∧ c ≠ '"' ∧ c ≠ '\\')
    ⟨fun ⟨hsingle, hdouble, hbackslash⟩ => ⟨hsingle, hdouble, hbackslash⟩,
      fun ⟨hsingle, hdouble, hbackslash⟩ => ⟨hsingle, hdouble, hbackslash⟩⟩

theorem plain_of_isBlank (h : Text.isBlank c) : Plain c := by
  refine ⟨?_, ?_, ?_⟩ <;> rintro rfl <;> exact absurd h (by decide)

theorem IsQuote.isBlank (h : IsQuote c) : Text.isBlank c = false := by
  rcases h with rfl | rfl <;> rfl

theorem IsQuote.ne_backslash (h : IsQuote c) : c ≠ '\\' := by
  rcases h with rfl | rfl <;> decide

theorem not_plain_iff : ¬Plain c ↔ IsQuote c ∨ c = '\\' := by
  constructor
  · intro h
    by_contra hnone
    obtain ⟨hquote, hbackslash⟩ := not_or.mp hnone
    obtain ⟨hsingle, hdouble⟩ := not_or.mp hquote
    exact h ⟨hsingle, hdouble, hbackslash⟩
  · rintro ((rfl | rfl) | rfl) h
    · exact h.notSingle rfl
    · exact h.notDouble rfl
    · exact h.notBackslash rfl

/-! One character of a line. -/

theorem splitFrom_closing (quote : Char) (word : Option (List Char)) (rest : List Char) :
    splitFrom (some quote) word (quote :: rest) = splitFrom none word rest := by
  rw [splitFrom.eq_def]
  exact if_pos rfl

theorem splitFrom_inside (hne : c ≠ quote) (hplain : quote = '\'' ∨ c ≠ '\\') :
    splitFrom (some quote) word (c :: rest) = splitFrom (some quote) (push word c) rest := by
  rw [splitFrom.eq_def]
  dsimp only
  rw [if_neg (by simpa using hne.symm)]
  split
  · rfl
  · rename_i hdouble
    have hbackslash : c ≠ '\\' := hplain.resolve_left fun h => hdouble (h ▸ rfl)
    rw [if_neg hbackslash]
    exact if_pos rfl

theorem splitFrom_escaped {quote : Option Char} (hsingle : quote ≠ some '\'')
    (hbackslash : quote ≠ some '\\') :
    splitFrom quote word ('\\' :: c :: rest) = splitFrom quote (push word c) rest := by
  rw [splitFrom.eq_def]
  dsimp only
  rw [if_neg hbackslash, if_neg hsingle]
  exact if_pos rfl

theorem splitFrom_opening (h : IsQuote c) :
    splitFrom none word (c :: rest) = splitFrom (some c) (some (word.getD [])) rest := by
  rw [splitFrom.eq_def]
  dsimp only
  rw [if_neg (by simp), if_neg (by simp), if_neg h.ne_backslash, if_neg (by simp)]
  exact if_pos h

theorem splitFrom_plain (h : Plain c) (hblank : Text.isBlank c = false) :
    splitFrom none word (c :: rest) = splitFrom none (push word c) rest := by
  rw [splitFrom.eq_def]
  dsimp only
  rw [if_neg (by simp), if_neg (by simp), if_neg h.notBackslash, if_neg (by simp),
    if_neg (by simp [h.notSingle, h.notDouble]), if_neg (by simp [hblank])]

theorem splitFrom_blank (h : Text.isBlank c) :
    splitFrom none word (c :: rest) = (splitFrom none none rest).map (close word ++ ·) := by
  have hplain := plain_of_isBlank h
  rw [splitFrom.eq_def]
  dsimp only
  rw [if_neg (by simp), if_neg (by simp), if_neg hplain.notBackslash, if_neg (by simp),
    if_neg (by simp [hplain.notSingle, hplain.notDouble])]
  exact if_pos h

/-! Words between single quotes. -/

/-- A single quote stands between the end of one quotation and the start of the next. -/
def wrapChar (c : Char) : List Char :=
  if c = '\'' then ['\'', '\\', '\'', '\''] else [c]

def wrap (word : String) : List Char :=
  '\'' :: word.toList.flatMap wrapChar ++ ['\'']

/-- A line of wrapped words with blanks between them. -/
inductive Wrapped : List String → List Char → Prop
  | nil : Wrapped [] []
  | last (word : String) : Wrapped [word] (wrap word)
  | cons (word : String) {next : String} {words : List String} {gap line : List Char}
      (hne : gap ≠ []) (hblank : ∀ c ∈ gap, Text.isBlank c) (h : Wrapped (next :: words) line) :
      Wrapped (word :: next :: words) (wrap word ++ gap ++ line)

theorem exists_wrapped (words : List String) : ∃ line, Wrapped words line := by
  induction words with
  | nil => exact ⟨[], .nil⟩
  | cons word words ih =>
      obtain ⟨line, hline⟩ := ih
      cases words with
      | nil => exact ⟨wrap word, .last word⟩
      | cons next words =>
          have hblank : ∀ c ∈ [' '], Text.isBlank c := List.all_eq_true.mp rfl
          exact ⟨wrap word ++ [' '] ++ line, .cons word (by simp) hblank hline⟩

theorem splitFrom_wrapChars (chars begun rest : List Char) :
    splitFrom (some '\'') (some begun) (chars.flatMap wrapChar ++ '\'' :: rest) =
      splitFrom none (some (chars.reverse ++ begun)) rest := by
  induction chars generalizing begun with
  | nil => exact splitFrom_closing _ _ _
  | cons c chars ih =>
      rw [List.flatMap_cons, List.append_assoc, List.reverse_cons, List.append_assoc,
        List.singleton_append]
      by_cases hc : c = '\''
      · subst hc
        calc splitFrom (some '\'') (some begun)
              (wrapChar '\'' ++ (chars.flatMap wrapChar ++ '\'' :: rest))
            = splitFrom none (some begun)
                ('\\' :: '\'' :: '\'' :: (chars.flatMap wrapChar ++ '\'' :: rest)) :=
              splitFrom_closing _ _ _
          _ = splitFrom none (some ('\'' :: begun))
                ('\'' :: (chars.flatMap wrapChar ++ '\'' :: rest)) :=
              splitFrom_escaped nofun nofun
          _ = splitFrom (some '\'') (some ('\'' :: begun))
                (chars.flatMap wrapChar ++ '\'' :: rest) :=
              splitFrom_opening (.inl rfl)
          _ = splitFrom none (some (chars.reverse ++ '\'' :: begun)) rest := ih _
      · rw [wrapChar, if_neg hc, List.singleton_append, splitFrom_inside hc (.inl rfl)]
        exact ih _

theorem splitFrom_wrap (word : String) (rest : List Char) :
    splitFrom none none (wrap word ++ rest) = splitFrom none (some word.toList.reverse) rest := by
  rw [wrap, List.append_assoc, List.cons_append, splitFrom_opening (.inl rfl),
    List.singleton_append]
  exact (splitFrom_wrapChars _ _ _).trans (by rw [Option.getD_none, List.append_nil])

theorem close_reverse (word : String) : close (some word.toList.reverse) = [word] := by
  rw [close, List.reverse_reverse, String.ofList_toList]

theorem splitFrom_blanks {gap : List Char} (hblank : ∀ c ∈ gap, Text.isBlank c) :
    splitFrom none none (gap ++ rest) = splitFrom none none rest := by
  induction gap with
  | nil => rfl
  | cons c gap ih =>
      obtain ⟨hc, hgap⟩ := List.forall_mem_cons.mp hblank
      rw [List.cons_append, splitFrom_blank hc, ih hgap]
      exact Except.map_id ▸ rfl

theorem splitFrom_gap {gap : List Char} (hne : gap ≠ []) (hblank : ∀ c ∈ gap, Text.isBlank c) :
    splitFrom none word (gap ++ rest) = (splitFrom none none rest).map (close word ++ ·) := by
  obtain ⟨c, gap, rfl⟩ := List.exists_cons_of_ne_nil hne
  obtain ⟨hc, hgap⟩ := List.forall_mem_cons.mp hblank
  rw [List.cons_append, splitFrom_blank hc, splitFrom_blanks hgap]

theorem Wrapped.splitFrom {words : List String} (h : Wrapped words cs) :
    splitFrom none none cs = .ok words := by
  induction h with
  | nil => rfl
  | last word =>
      rw [← List.append_nil (wrap word), splitFrom_wrap]
      exact congrArg Except.ok (close_reverse word)
  | cons word hne hblank _ ih =>
      rw [List.append_assoc, splitFrom_wrap, splitFrom_gap hne hblank, ih, close_reverse]
      rfl

/-! Lines without quotes and backslashes. -/

/-- The longest pieces of a text that no blank stands in. -/
def runs (cs : List Char) : List (List Char) :=
  (cs.splitOnP Text.isBlank).filter (· ≠ [])

/-- A word of which these characters are there, the latest first. -/
def begun : List Char → Option (List Char)
  | [] => none
  | c :: cs => some (c :: cs)

theorem push_begun (cs : List Char) (c : Char) : push (begun cs) c = begun (c :: cs) := by
  cases cs <;> rfl

theorem close_begun (cs : List Char) :
    close (begun cs) = ([cs.reverse].filter (· ≠ [])).map String.ofList := by
  cases cs with
  | nil => rfl
  | cons c cs => simp [begun, close]

theorem splitFrom_of_plain (h : ∀ c ∈ cs, Plain c) (pending : List Char) :
    splitFrom none (begun pending) cs =
      .ok ((((cs.splitOnP Text.isBlank).modifyHead (pending.reverse ++ ·)).filter (· ≠ [])).map
        String.ofList) := by
  -- the pending characters belong to the first piece, until a blank ends it
  induction cs generalizing pending with
  | nil =>
      rw [List.splitOnP_nil, List.modifyHead_cons, List.append_nil, ← close_begun]
      rfl
  | cons c cs ih =>
      obtain ⟨hc, hcs⟩ := List.forall_mem_cons.mp h
      rw [List.splitOnP_cons_eq_if_modifyHead]
      split
      · rename_i hblank
        have hnext := ih hcs []
        obtain ⟨first, others, hsplit⟩ :=
          List.exists_cons_of_ne_nil (List.splitOnP_ne_nil Text.isBlank cs)
        rw [hsplit] at hnext ⊢
        rw [splitFrom_blank hblank]
        refine (congrArg _ hnext).trans (congrArg Except.ok ?_)
        dsimp only
        rw [close_begun, List.modifyHead_cons, List.modifyHead_cons, List.append_nil,
          ← List.map_append, ← List.filter_append]
        rfl
      · rename_i hblank
        rw [splitFrom_plain hc (by simpa using hblank), push_begun, ih hcs,
          List.modifyHead_modifyHead]
        congr 4
        funext piece
        simp

/-! Where a line breaks off. -/

/-- What stands between two quotes of one kind: not the quote itself, and between double quotes
a backslash only with the character after it. -/
inductive Body (quote : Char) : List Char → Prop
  | nil : Body quote []
  | plain {c : Char} {cs : List Char} (hne : c ≠ quote) (hplain : quote = '\'' ∨ c ≠ '\\')
      (h : Body quote cs) : Body quote (c :: cs)
  | escaped {c : Char} {cs : List Char} (hquote : quote ≠ '\'') (h : Body quote cs) :
      Body quote ('\\' :: c :: cs)

/-- Text in which every quote is closed and every backslash has its character. -/
inductive Whole : List Char → Prop
  | nil : Whole []
  | plain {c : Char} {cs : List Char} (hc : Plain c) (h : Whole cs) : Whole (c :: cs)
  | escaped {c : Char} {cs : List Char} (h : Whole cs) : Whole ('\\' :: c :: cs)
  | quoted {quote : Char} {body cs : List Char} (hquote : IsQuote quote) (hbody : Body quote body)
      (h : Whole cs) : Whole (quote :: body ++ quote :: cs)

/-- The quote that is open at the end of a text, after whole characters and pairs. -/
inductive LeavesOpen : List Char → Option Char → Prop
  | outside {cs : List Char} (h : Whole cs) : LeavesOpen cs none
  | inside {before body : List Char} {quote : Char} (h : Whole before) (hquote : IsQuote quote)
      (hbody : Body quote body) : LeavesOpen (before ++ quote :: body) (some quote)

def EndsInQuote (cs : List Char) : Prop :=
  ∃ quote, LeavesOpen cs (some quote)

/-- The last character is a backslash, not in single quotes and not itself escaped. -/
def EndsAtBackslash (cs : List Char) : Prop :=
  ∃ front quote, LeavesOpen front quote ∧ quote ≠ some '\'' ∧ cs = front ++ ['\\']

theorem Body.append {other : List Char} (h : Body quote body) (hother : Body quote other) :
    Body quote (body ++ other) := by
  induction h with
  | nil => exact hother
  | plain hne hplain _ ih => exact .plain hne hplain ih
  | escaped hquote _ ih => exact .escaped hquote ih

theorem Whole.append (h : Whole cs) (hrest : Whole rest) : Whole (cs ++ rest) := by
  induction h with
  | nil => exact hrest
  | plain hc _ ih => exact .plain hc ih
  | escaped _ ih => exact .escaped ih
  | quoted hquote hbody _ ih =>
      rw [List.append_assoc, List.cons_append]
      exact .quoted hquote hbody ih

theorem LeavesOpen.isQuote (h : LeavesOpen cs (some quote)) : IsQuote quote := by
  cases h with
  | inside _ hquote _ => exact hquote

theorem LeavesOpen.concat {open? : Option Char} (h : LeavesOpen cs open?) (c : Char) :
    (∃ next, LeavesOpen (cs ++ [c]) next) ∨ EndsAtBackslash (cs ++ [c]) := by
  cases h with
  | outside h =>
      by_cases hc : Plain c
      · exact .inl ⟨none, .outside (h.append (.plain hc .nil))⟩
      · rcases not_plain_iff.mp hc with hquote | rfl
        · exact .inl ⟨some c, .inside h hquote .nil⟩
        · exact .inr ⟨cs, none, .outside h, nofun, rfl⟩
  | @inside before body quote h hquote hbody =>
      by_cases hclose : c = quote
      · subst hclose
        refine .inl ⟨none, .outside ?_⟩
        rw [List.append_assoc]
        exact h.append (.quoted hquote hbody .nil)
      · by_cases hplain : quote = '\'' ∨ c ≠ '\\'
        · refine .inl ⟨some quote, ?_⟩
          rw [List.append_assoc]
          exact .inside h hquote (hbody.append (.plain hclose hplain .nil))
        · obtain ⟨hdouble, hbackslash⟩ := not_or.mp hplain
          obtain rfl : c = '\\' := not_not.mp hbackslash
          exact .inr ⟨_, some quote, .inside h hquote hbody, by simpa using hdouble, rfl⟩

theorem EndsAtBackslash.concat (h : EndsAtBackslash cs) (c : Char) :
    ∃ next, LeavesOpen (cs ++ [c]) next := by
  obtain ⟨front, open?, hopen, hsingle, rfl⟩ := h
  rw [List.append_assoc]
  cases hopen with
  | outside h => exact ⟨none, .outside (h.append (.escaped .nil))⟩
  | @inside before body quote h hquote hbody =>
      rw [List.append_assoc]
      exact ⟨some quote, .inside h hquote (hbody.append (.escaped (by simpa using hsingle) .nil))⟩

theorem leavesOpen_or_endsAtBackslash (cs : List Char) :
    (∃ open?, LeavesOpen cs open?) ∨ EndsAtBackslash cs := by
  -- from the front, as the line is read: what is open depends on all that stands before
  induction cs using List.reverseRecOn with
  | nil => exact .inl ⟨none, .outside .nil⟩
  | append_singleton cs c ih =>
      rcases ih with ⟨open?, hopen⟩ | hbackslash
      · exact hopen.concat c
      · exact .inl (hbackslash.concat c)

theorem Body.splitFrom (h : Body quote body) (hquote : IsQuote quote)
    (word : Option (List Char)) :
    ∃ next, ∀ rest, splitFrom (some quote) word (body ++ rest) =
      splitFrom (some quote) next rest := by
  induction h generalizing word with
  | nil => exact ⟨word, fun _ => rfl⟩
  | @plain c cs hne hplain _ ih =>
      obtain ⟨next, hnext⟩ := ih (push word c)
      exact ⟨next, fun rest => (splitFrom_inside hne hplain).trans (hnext rest)⟩
  | @escaped c cs hsingle _ ih =>
      obtain ⟨next, hnext⟩ := ih (push word c)
      have hbackslash := hquote.ne_backslash
      exact ⟨next, fun rest =>
        (splitFrom_escaped (by simpa using hsingle) (by simpa using hbackslash)).trans
          (hnext rest)⟩

theorem Whole.splitFrom (h : Whole cs) (word : Option (List Char)) :
    ∃ words next, ∀ rest, splitFrom none word (cs ++ rest) =
      (splitFrom none next rest).map (words ++ ·) := by
  induction h generalizing word with
  | nil => exact ⟨[], word, fun _ => Except.map_id ▸ rfl⟩
  | @plain c cs hc _ ih =>
      by_cases hblank : Text.isBlank c
      · obtain ⟨words, next, hnext⟩ := ih none
        refine ⟨close word ++ words, next, fun rest => ?_⟩
        rw [List.cons_append, splitFrom_blank hblank, hnext]
        cases Words.splitFrom none next rest with
        | error _ => rfl
        | ok others => exact congrArg Except.ok (List.append_assoc _ _ _).symm
      · obtain ⟨words, next, hnext⟩ := ih (push word c)
        exact ⟨words, next, fun rest =>
          (splitFrom_plain hc (by simpa using hblank)).trans (hnext rest)⟩
  | @escaped c cs _ ih =>
      obtain ⟨words, next, hnext⟩ := ih (push word c)
      refine ⟨words, next, fun rest => ?_⟩
      rw [List.cons_append, List.cons_append, splitFrom_escaped (by simp) (by simp), hnext]
  | @quoted quote body cs hquote hbody _ ih =>
      -- an opening quote begins a word if none is there, so an empty body still gives one
      obtain ⟨inner, hinner⟩ := hbody.splitFrom hquote (some (word.getD []))
      obtain ⟨words, next, hnext⟩ := ih inner
      refine ⟨words, next, fun rest => ?_⟩
      rw [List.append_assoc, List.cons_append, List.cons_append, splitFrom_opening hquote, hinner,
        splitFrom_closing, hnext]

theorem LeavesOpen.splitFrom {open? : Option Char} (h : LeavesOpen cs open?) :
    ∃ words next, ∀ rest, splitFrom none none (cs ++ rest) =
      (splitFrom open? next rest).map (words ++ ·) := by
  cases h with
  | outside h => exact h.splitFrom none
  | inside h hquote hbody =>
      obtain ⟨words, outer, houter⟩ := h.splitFrom none
      obtain ⟨next, hnext⟩ := hbody.splitFrom hquote (some (outer.getD []))
      refine ⟨words, next, fun rest => ?_⟩
      rw [List.append_assoc, houter, List.cons_append, splitFrom_opening hquote, hnext]

theorem Whole.splitFrom_ok (h : Whole cs) : ∃ words, Words.splitFrom none none cs = .ok words := by
  obtain ⟨words, next, hnext⟩ := h.splitFrom none
  have hend := hnext []
  rw [List.append_nil] at hend
  exact ⟨words ++ close next, hend⟩

theorem LeavesOpen.splitFrom_error (h : LeavesOpen cs (some quote)) :
    Words.splitFrom none none cs = .error (.unclosedQuote quote) := by
  obtain ⟨words, next, hnext⟩ := h.splitFrom
  have hend := hnext []
  rwa [List.append_nil] at hend

theorem EndsAtBackslash.splitFrom_error (h : EndsAtBackslash cs) :
    Words.splitFrom none none cs = .error .trailingBackslash := by
  obtain ⟨front, open?, hopen, hsingle, rfl⟩ := h
  obtain ⟨words, next, hnext⟩ := hopen.splitFrom
  have hbackslash : open? ≠ some '\\' := by
    rintro rfl
    exact hopen.isQuote.ne_backslash rfl
  rw [hnext, Words.splitFrom.eq_def]
  dsimp only
  rw [if_neg hbackslash, if_neg hsingle]
  rfl

theorem splitFrom_error_iff :
    (∃ error, splitFrom none none cs = .error error) ↔ EndsInQuote cs ∨ EndsAtBackslash cs := by
  constructor
  · rintro ⟨error, herror⟩
    rcases leavesOpen_or_endsAtBackslash cs with ⟨open?, hopen⟩ | hbackslash
    · cases hopen with
      | outside h =>
          obtain ⟨words, hwords⟩ := h.splitFrom_ok
          cases herror.symm.trans hwords
      | inside h hquote hbody => exact .inl ⟨_, .inside h hquote hbody⟩
    · exact .inr hbackslash
  · rintro (⟨quote, hopen⟩ | hbackslash)
    · exact ⟨_, hopen.splitFrom_error⟩
    · exact ⟨_, hbackslash.splitFrom_error⟩

theorem split_spells_words :
    (∀ words, (∃ line, Wrapped words line) ∧
      ∀ line, Wrapped words line → split (String.ofList line) = .ok words) ∧
    (∀ line : String, (∀ c ∈ line.toList, Plain c) →
      split line = .ok ((runs line.toList).map String.ofList)) ∧
    ∀ line : String, (∃ error, split line = .error error) ↔
      EndsInQuote line.toList ∨ EndsAtBackslash line.toList := by
  refine ⟨fun words => ⟨exists_wrapped words, fun line h => ?_⟩, fun line h => ?_,
    fun line => splitFrom_error_iff⟩
  · rw [split, String.toList_ofList]
    exact h.splitFrom
  · have hruns := splitFrom_of_plain h []
    rw [split, runs]
    refine hruns.trans ?_
    cases line.toList.splitOnP Text.isBlank <;> rfl

theorem awkward_words_split :
    Wrapped ["it's", ""] "'it'\\''s' \t ''".toList ∧
      split "'it'\\''s' \t ''" = .ok ["it's", ""] ∧
      (∀ c ∈ "\u00a0a\u2003 b".toList, Plain c) ∧
      split "\u00a0a\u2003 b" = .ok ["a", "b"] := by
  have hspaced : Wrapped ["it's", ""] (wrap "it's" ++ [' ', '\t', ' '] ++ wrap "") :=
    .cons "it's" (by decide) (List.all_eq_true.mp rfl) (.last "")
  have hline : Wrapped ["it's", ""] "'it'\\''s' \t ''".toList := hspaced
  have hall : "\u00a0a\u2003 b".toList.all (decide <| Plain ·) := by decide
  have hplain : ∀ c ∈ "\u00a0a\u2003 b".toList, Plain c :=
    fun c hc => of_decide_eq_true (List.all_eq_true.mp hall c hc)
  have hwords := (split_spells_words.1 ["it's", ""]).2 _ hline
  rw [String.ofList_toList] at hwords
  refine ⟨hline, hwords, hplain, (split_spells_words.2.1 _ hplain).trans ?_⟩
  rfl

end SpanReview.Words
