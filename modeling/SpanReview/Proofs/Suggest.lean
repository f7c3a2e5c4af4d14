import Mathlib.Data.List.Perm.Subperm
import SpanReview.Suggest

namespace SpanReview.Suggest

/-! What is offered for a name is taken from the list, no name more often than it is listed
and not more names than asked for, however they are scored. -/

theorem scoreAll_sublist (matcher : Matcher σ) (state : σ) (pattern : List Char)
    (names : List String) :
    ((matcher.scoreAll state pattern names).map Scored.name).Sublist names := by
  induction names generalizing state with
  | nil => exact List.Sublist.slnil
  | cons name rest ih =>
      unfold Matcher.scoreAll
      split
      · exact (ih _).cons_cons name
      · exact (ih _).cons name

theorem length_best_le (scored : List Scored) (limit : Nat) :
    (best scored limit).length ≤ limit := by
  rw [best, List.length_map]
  exact List.length_take_le limit _

theorem best_subperm (scored : List Scored) (limit : Nat) :
    (best scored limit).Subperm (scored.map Scored.name) := by
  have htaken := (List.take_sublist limit (scored.mergeSort Scored.before)).map Scored.name
  exact htaken.subperm.trans ((List.mergeSort_perm scored Scored.before).map _).subperm

theorem length_suggestWith_le (matcher : Matcher σ) (query : String) (names : List String)
    (limit : Nat) : (suggestWith matcher query names limit).length ≤ limit := by
  unfold suggestWith
  dsimp only
  split
  · exact Nat.zero_le limit
  · exact length_best_le _ limit

theorem suggestWith_subperm (matcher : Matcher σ) (query : String) (names : List String)
    (limit : Nat) : (suggestWith matcher query names limit).Subperm names := by
  unfold suggestWith
  dsimp only
  split
  · exact List.nil_subperm
  · exact (best_subperm _ limit).trans (scoreAll_sublist matcher _ _ names).subperm

end SpanReview.Suggest
