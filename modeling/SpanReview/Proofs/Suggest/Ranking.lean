import SpanReview.Proofs.Suggest

namespace SpanReview.Suggest

/-! The names offered for a query are the best of those that match it, and the order in which the
names are listed does not count. -/

/-- What a name scores for a pattern, if it matches. -/
abbrev Scoring := (name pattern : List Char) → Option Int

variable {scoring : Scoring} {pattern : List Char} {names other : List String}

def matching (scoring : Scoring) (pattern : List Char) (names : List String) : List String :=
  names.filter fun name => (scoring name.toList pattern).isSome

/-- Both names match, and the first has the higher score or, with equal scores, does not come
after the second by name. -/
def Ranks (scoring : Scoring) (pattern : List Char) (name other : String) : Prop :=
  ∃ score less, scoring name.toList pattern = some score ∧
    scoring other.toList pattern = some less ∧ (less < score ∨ score = less ∧ name ≤ other)

/-! Scored names are in a total order. -/

namespace Scored

variable {a b c : Scored}

theorem before_iff :
    a.before b ↔ b.score < a.score ∨ a.score = b.score ∧ a.name ≤ b.name := by
  simp only [before, Bool.or_eq_true, Bool.and_eq_true, Bool.not_eq_true', decide_eq_true_eq,
    decide_eq_false_iff_not, beq_iff_eq, String.not_lt]

theorem before_total (a b : Scored) : a.before b || b.before a := by
  rw [Bool.or_eq_true, before_iff, before_iff]
  rcases Int.lt_trichotomy a.score b.score with hlt | heq | hlt
  · exact .inr (.inl hlt)
  · rcases String.le_total a.name b.name with hle | hle
    · exact .inl (.inr ⟨heq, hle⟩)
    · exact .inr (.inr ⟨heq.symm, hle⟩)
  · exact .inl (.inl hlt)

theorem before_trans (a b c : Scored) (hab : a.before b) (hbc : b.before c) : a.before c := by
  rw [before_iff] at hab hbc ⊢
  rcases hab with hab | ⟨hab, hname⟩
  · left
    omega
  · rcases hbc with hbc | ⟨hbc, hnext⟩
    · left
      omega
    · exact .inr ⟨hab.trans hbc, String.le_trans hname hnext⟩

theorem before_antisymm (hab : a.before b) (hba : b.before a) : a = b := by
  rw [before_iff] at hab hba
  obtain ⟨score, name⟩ := a
  obtain ⟨score', name'⟩ := b
  dsimp only at *
  obtain rfl : score = score' := by omega
  have hname : name ≤ name' := by simpa using hab
  have hback : name' ≤ name := by simpa using hba
  rw [String.le_antisymm hname hback]

end Scored

/-! Scoring the whole list. -/

theorem scoreAll_ofFunction (scoring : Scoring) (pattern : List Char) (names : List String) :
    (Matcher.ofFunction scoring).scoreAll () pattern names =
      names.filterMap fun name => (scoring name.toList pattern).map fun score => ⟨score, name⟩ := by
  induction names with
  | nil => rfl
  | cons name rest ih =>
      rw [Matcher.scoreAll]
      dsimp only [Matcher.ofFunction] at ih ⊢
      cases hscore : scoring name.toList pattern with
      | none => simpa [hscore] using ih
      | some score => simpa [hscore] using ih

def ranked (scoring : Scoring) (pattern : List Char) (names : List String) : List Scored :=
  ((Matcher.ofFunction scoring).scoreAll () pattern names).mergeSort Scored.before

theorem suggestWith_ofFunction (scoring : Scoring) (query : String) (names : List String)
    (limit : Nat) (hquery : Text.trimChars query.toList ≠ []) :
    suggestWith (.ofFunction scoring) query names limit =
      ((ranked scoring (Text.trimChars query.toList) names).map Scored.name).take limit := by
  rw [suggestWith, if_neg (by simpa using hquery), ← List.map_take]
  rfl

theorem pairwise_ranked (scoring : Scoring) (pattern : List Char) (names : List String) :
    (ranked scoring pattern names).Pairwise fun a b => a.before b :=
  List.pairwise_mergeSort Scored.before_trans Scored.before_total _

theorem scoring_of_mem_ranked {scored : Scored} (h : scored ∈ ranked scoring pattern names) :
    scoring scored.name.toList pattern = some scored.score := by
  rw [ranked, List.mem_mergeSort, scoreAll_ofFunction, List.mem_filterMap] at h
  obtain ⟨name, _, hname⟩ := h
  obtain ⟨score, hscore, rfl⟩ := Option.map_eq_some_iff.mp hname
  exact hscore

theorem pairwise_ranks (scoring : Scoring) (pattern : List Char) (names : List String) :
    ((ranked scoring pattern names).map Scored.name).Pairwise (Ranks scoring pattern) := by
  rw [List.pairwise_map]
  refine (pairwise_ranked scoring pattern names).imp_of_mem fun {a b} ha hb hbefore => ?_
  exact ⟨a.score, b.score, scoring_of_mem_ranked ha, scoring_of_mem_ranked hb,
    Scored.before_iff.mp hbefore⟩

theorem ranked_perm_matching (scoring : Scoring) (pattern : List Char) (names : List String) :
    ((ranked scoring pattern names).map Scored.name).Perm (matching scoring pattern names) := by
  refine ((List.mergeSort_perm _ _).map _).trans (.of_eq ?_)
  rw [scoreAll_ofFunction, matching, ← List.filterMap_eq_filter, List.map_filterMap]
  refine List.filterMap_congr fun name _ => ?_
  cases hscore : scoring name.toList pattern <;> simp [hscore, Option.guard]

theorem ranked_congr (h : other.Perm names) :
    ranked scoring pattern other = ranked scoring pattern names := by
  have hscored : ((Matcher.ofFunction scoring).scoreAll () pattern other).Perm
      ((Matcher.ofFunction scoring).scoreAll () pattern names) := by
    rw [scoreAll_ofFunction, scoreAll_ofFunction]
    exact h.filterMap _
  have hsorted : (ranked scoring pattern other).Perm (ranked scoring pattern names) :=
    ((List.mergeSort_perm _ _).trans hscored).trans (List.mergeSort_perm _ _).symm
  -- Entries that come before each other are equal, so there is only one list in order.
  exact hsorted.eq_of_pairwise (fun _ _ _ _ => Scored.before_antisymm)
    (pairwise_ranked scoring pattern other) (pairwise_ranked scoring pattern names)

/-- Nothing is offered for a blank query. Else the matching entries of the list are those that are
offered, as many as asked for if there are so many, and those left out; whoever is offered ranks
before all that come after it and all that are left out. Listed in any other order, the same names
give the same offer. -/
theorem suggests_best_matches (scoring : Scoring) (query : String) (names : List String)
    (limit : Nat) :
    let pattern := Text.trimChars query.toList
    let offered := suggestWith (.ofFunction scoring) query names limit
    (pattern = [] → offered = []) ∧
    (pattern ≠ [] → offered.length = min limit (matching scoring pattern names).length ∧
      ∃ left, (offered ++ left).Perm (matching scoring pattern names) ∧
        offered.Pairwise (Ranks scoring pattern) ∧
        ∀ name ∈ offered, ∀ other ∈ left, Ranks scoring pattern name other) ∧
    ∀ other, other.Perm names → suggestWith (.ofFunction scoring) query other limit = offered := by
  intro pattern offered
  have hblank (listed : List String) (hpattern : pattern = []) :
      suggestWith (.ofFunction scoring) query listed limit = [] := by
    rw [suggestWith, if_pos (by simpa using hpattern)]
  refine ⟨hblank names, fun hpattern => ?_, fun other hperm => ?_⟩
  · have hoffered : offered = ((ranked scoring pattern names).map Scored.name).take limit :=
      suggestWith_ofFunction scoring query names limit hpattern
    have hperm := ranked_perm_matching scoring pattern names
    have hranks := pairwise_ranks scoring pattern names
    generalize (ranked scoring pattern names).map Scored.name = best at hoffered hperm hranks
    rw [← List.take_append_drop limit best, List.pairwise_append, ← hoffered] at hranks
    refine ⟨?_, best.drop limit, ?_, hranks.1, hranks.2.2⟩
    · rw [hoffered, List.length_take, hperm.length_eq]
    · rw [hoffered, List.take_append_drop]
      exact hperm
  · by_cases hpattern : pattern = []
    · exact (hblank other hpattern).trans (hblank names hpattern).symm
    · rw [suggestWith_ofFunction scoring query other limit hpattern, ranked_congr hperm]
      exact (suggestWith_ofFunction scoring query names limit hpattern).symm

/-- A name listed twice, names with the same score, one too many and one that does not match. -/
theorem equal_scores_go_by_name :
    let scoring : Scoring := fun name pattern =>
      if pattern.isSublist name then some (-name.length) else none
    let names := ["tag.pug", "b.pug", "c.txt", "a.pug", "b.pug"]
    let other := ["b.pug", "b.pug", "a.pug", "tag.pug", "c.txt"]
    let offered := suggestWith (.ofFunction scoring) " pug " names 3
    Text.trimChars "  ".toList = [] ∧ Text.trimChars " pug ".toList ≠ [] ∧ other.Perm names ∧
      suggestWith (.ofFunction scoring) "  " names 3 = [] ∧ offered.length = 3 ∧
      suggestWith (.ofFunction scoring) " pug " other 3 = offered := by
  intro scoring names other offered
  have hblank : Text.trimChars "  ".toList = [] := by decide
  have hquery : Text.trimChars " pug ".toList ≠ [] := by decide
  have hperm : other.Perm names := by decide
  have hmatching : (matching scoring (Text.trimChars " pug ".toList) names).length = 4 := by decide
  obtain ⟨hnothing, _⟩ := suggests_best_matches scoring "  " names 3
  obtain ⟨_, hoffered, hlisted⟩ := suggests_best_matches scoring " pug " names 3
  obtain ⟨hlength, _⟩ := hoffered hquery
  rw [hmatching] at hlength
  exact ⟨hblank, hquery, hperm, hnothing hblank, hlength, hlisted other hperm⟩

end SpanReview.Suggest
