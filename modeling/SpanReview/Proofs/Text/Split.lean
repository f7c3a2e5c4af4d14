namespace SpanReview.Text

/-! Text between separators: no piece holds one, nor a character that the text does not hold, the
last piece ends as the text does, and text written backwards has the same pieces backwards. -/

theorem not_mem_of_mem_splitOn {cs piece : List Char} {separator : Char}
    (h : piece ∈ cs.splitOn separator) : separator ∉ piece := by
  induction cs generalizing piece with
  | nil =>
      obtain rfl := List.mem_singleton.mp h
      exact List.not_mem_nil
  | cons c cs ih =>
      rw [List.splitOn_cons_eq_if_modifyHead] at h
      split at h
      · rcases List.mem_cons.mp h with rfl | hrest
        · exact List.not_mem_nil
        · exact ih hrest
      · rename_i hne
        obtain ⟨first, rest, hsplit⟩ :=
          List.exists_cons_of_ne_nil (List.splitOn_ne_nil separator cs)
        rw [hsplit] at h ih
        rcases List.mem_cons.mp h with rfl | hrest
        · intro hmem
          rcases List.mem_cons.mp hmem with rfl | hfirst
          · exact hne (beq_self_eq_true _)
          · exact ih List.mem_cons_self hfirst
        · exact ih (List.mem_cons_of_mem _ hrest)

theorem subset_of_mem_splitOn {cs piece : List Char} {separator : Char}
    (h : piece ∈ cs.splitOn separator) : piece ⊆ cs := by
  induction cs generalizing piece with
  | nil =>
      obtain rfl := List.mem_singleton.mp h
      exact List.Subset.refl _
  | cons c cs ih =>
      rw [List.splitOn_cons_eq_if_modifyHead] at h
      split at h
      · rcases List.mem_cons.mp h with rfl | hrest
        · exact List.nil_subset _
        · exact List.subset_cons_of_subset c (ih hrest)
      · obtain ⟨first, rest, hsplit⟩ :=
          List.exists_cons_of_ne_nil (List.splitOn_ne_nil separator cs)
        rw [hsplit] at h ih
        rcases List.mem_cons.mp h with rfl | hrest
        · exact List.cons_subset_cons c (ih List.mem_cons_self)
        · exact List.subset_cons_of_subset c (ih (List.mem_cons_of_mem _ hrest))

theorem getLast?_splitOn {cs : List Char} {c separator : Char} (hc : cs.getLast? = some c)
    (hne : c ≠ separator) :
    ∃ piece, (cs.splitOn separator).getLast? = some piece ∧ piece.getLast? = some c := by
  induction cs with
  | nil => cases hc
  | cons first rest ih =>
      cases rest with
      | nil =>
          obtain rfl : first = c := Option.some.inj hc
          have hnot : separator ∉ [first] := by simpa using hne.symm
          exact ⟨[first], by rw [List.splitOn_eq_singleton hnot]; rfl, rfl⟩
      | cons second rest =>
          obtain ⟨piece, hpiece, hlast⟩ := ih hc
          rw [List.splitOn_cons_eq_if_modifyHead]
          obtain ⟨head, tail, hsplit⟩ :=
            List.exists_cons_of_ne_nil (List.splitOn_ne_nil separator (second :: rest))
          rw [hsplit] at hpiece ⊢
          split
          · exact ⟨piece, hpiece, hlast⟩
          · cases tail with
            | nil =>
                obtain rfl : head = piece := Option.some.inj hpiece
                refine ⟨first :: head, rfl, ?_⟩
                cases head with
                | nil => cases hlast
                | cons _ _ => exact hlast
            | cons next tail => exact ⟨piece, hpiece, hlast⟩

theorem splitOn_reverse (cs : List Char) (separator : Char) :
    cs.reverse.splitOn separator = ((cs.splitOn separator).map List.reverse).reverse := by
  by_cases hmem : separator ∈ cs
  · obtain ⟨before, after, hcs⟩ := List.append_of_mem hmem
    have hlength : cs.length = before.length + (after.length + 1) := by
      rw [hcs, List.length_append, List.length_cons]
    have hbefore := splitOn_reverse before separator
    have hafter := splitOn_reverse after separator
    rw [hcs, List.reverse_append, List.reverse_cons, List.append_assoc, List.singleton_append,
      List.splitOn_append_cons_self, hbefore, hafter, List.splitOn_append_cons_self,
      List.map_append, List.reverse_append]
  · have hreverse : separator ∉ cs.reverse := by simpa using hmem
    rw [List.splitOn_eq_singleton hreverse, List.splitOn_eq_singleton hmem]
    rfl
termination_by cs.length
decreasing_by all_goals omega

end SpanReview.Text
