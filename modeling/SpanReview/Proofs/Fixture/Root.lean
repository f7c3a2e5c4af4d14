import SpanReview.Proofs.Fixture.History

namespace SpanReview

/-! Whatever changes on a disk apart from the root of a store leaves the store as it is. -/

namespace Disk

variable {disk later last : Disk} {root : Path} {base place other : Location}
  {names : List String}

/-- What stands at the root and below it stays, and so does the way there. -/
structure KeepsRoot (root : Path) (base : Location) (disk later : Disk) : Prop where
  here : later.workingDirectory = disk.workingDirectory
  way : disk.descend (disk.origin root) root.names = .ok base →
    later.descend (disk.origin root) root.names = .ok base
  free : (∀ above, above <+: root.names → disk.NoFileAt (follow (disk.origin root) above)) →
    ∀ above, above <+: root.names → later.NoFileAt (follow (disk.origin root) above)
  below : ∀ names, later.entry? (base ++ names) = disk.entry? (base ++ names)

theorem KeepsRoot.refl (root : Path) (base : Location) (disk : Disk) :
    KeepsRoot root base disk disk :=
  ⟨rfl, id, id, fun _ => rfl⟩

theorem KeepsRoot.trans (hfirst : KeepsRoot root base disk later)
    (hsecond : KeepsRoot root base later last) : KeepsRoot root base disk last := by
  obtain ⟨hhere, hway, hfree, hbelow⟩ := hsecond
  rw [origin_congr hfirst.here] at hway hfree
  exact ⟨hhere.trans hfirst.here, hway ∘ hfirst.way, hfree ∘ hfirst.free,
    fun names => (hbelow names).trans (hfirst.below names)⟩

theorem KeepsRoot.noFileAt (h : KeepsRoot root base disk later)
    (hfree : disk.NoFileAt (base ++ names)) : later.NoFileAt (base ++ names) := by
  intro content hfile
  exact hfree content ((h.below names).symm.trans hfile)

theorem KeepsRoot.leadsTo (h : KeepsRoot root base disk later)
    (hroot : disk.LeadsTo root base) : later.LeadsTo root base :=
  hroot.keeps h.here (h.free hroot.free)

/-- Names without a step up lead through what stands below their start. -/
theorem descend_congr (hup : ".." ∉ names)
    (hsame : ∀ names, later.entry? (place ++ names) = disk.entry? (place ++ names)) :
    later.descend place names = disk.descend place names := by
  induction names generalizing place with
  | nil => rfl
  | cons name rest ih =>
      obtain ⟨hname, hrest⟩ := List.ne_and_not_mem_of_not_mem_cons hup
      have hhere := hsame []
      rw [List.append_nil] at hhere
      have hdeeper :
          later.descend (place ++ [name]) rest = disk.descend (place ++ [name]) rest := by
        refine ih hrest fun names => ?_
        rw [List.append_assoc]
        exact hsame ([name] ++ names)
      have hstep : (name == "..") = false := by simpa using hname.symm
      simp only [descend, hhere, hstep, hdeeper, Bool.false_eq_true, if_false]

theorem KeepsRoot.locate {path : Path} (h : KeepsRoot root base disk later)
    (hroot : disk.LeadsTo root base) (hup : ".." ∉ names)
    (horigin : disk.origin path = disk.origin root)
    (hpath : path.names = root.names ++ names) (hfound : disk.locate path = .ok place) :
    later.locate path = .ok place := by
  have hdescend := locate_ok hfound
  unfold Disk.locate at hfound ⊢
  split at hfound
  · cases hfound
  · split at hfound
    · cases hfound
    · rename_i hempty
      rw [if_neg hempty, origin_congr h.here]
      rw [hpath, horigin] at hdescend ⊢
      obtain ⟨reached, hreached, hrest⟩ := descend_ok_append hdescend
      obtain rfl : reached = base := (eq_follow_of_descend hreached).trans hroot.leads
      rw [descend_append, h.way hreached]
      exact (descend_congr hup h.below).trans hrest

end Disk

namespace FixtureStore

theorem Shelf.keepsRoot {store : FixtureStore} {base : Location} {calls : List StoreCall}
    {disk later : Disk} (h : store.Shelf base calls disk)
    (hkeeps : Disk.KeepsRoot store.root base disk later) : store.Shelf base calls later where
  root := hkeeps.leadsTo h.root
  folders := fun names hlength => hkeeps.noFileAt (h.folders names hlength)
  keeps := by
    intro key hkey
    have hkept := h.keeps key hkey
    cases hsaved : store.lastSaved? (store.pathFor key) calls with
    | none =>
        rw [hsaved] at hkept
        exact (hkeeps.below key.location).trans hkept
    | some saved =>
        rw [hsaved] at hkept
        obtain ⟨hlocate, hfile, hrecords⟩ := hkept
        have hup := Path.up_not_mem hkey.isName_location
        exact ⟨hkeeps.locate h.root hup (origin_pathFor hkey disk) (names_pathFor hkey) hlocate,
          (hkeeps.below key.location).trans hfile, hrecords⟩

end FixtureStore

end SpanReview
