import SpanReview.Proofs.Disk.Directories

namespace SpanReview

/-! On a disk that denies nothing, directories are made wherever no file stands in the way. -/

theorem Path.utf8ByteSize_le_of_prefix {above path : Path} (h : above.toList <+: path.toList) :
    above.utf8ByteSize ≤ path.utf8ByteSize := by
  obtain ⟨rest, hrest⟩ := h
  have hpath : path = above ++ String.ofList rest := by
    rw [← String.toList_inj, String.toList_append, String.toList_ofList, hrest]
  rw [hpath, String.utf8ByteSize_append]
  exact Nat.le_add_right _ _

namespace Disk

variable {disk raised : Disk} {place : Location} {names : List String} {path above : Path}
  {paths : List Path}

def Grants (disk : Disk) : Prop :=
  ∀ request, disk.denial? request = none

theorem Grants.congr {later : Disk} (h : disk.Grants) (hsame : later.denial? = disk.denial?) :
    later.Grants := by
  rwa [Grants, hsame]

/-! Nothing that is done changes what a disk denies. -/

theorem makeDirectory_denial? (disk : Disk) (path : Path) :
    Disk.denial? (disk.makeDirectory path).2 = disk.denial? := by
  unfold makeDirectory
  split
  · rfl
  · split
    · rfl
    · split <;> rfl

theorem makeDirectoriesUp_denial? (disk : Disk) (paths : List Path) :
    Disk.denial? (disk.makeDirectoriesUp paths).2 = disk.denial? := by
  induction paths generalizing disk with
  | nil => rfl
  | cons path above ih =>
      have hmade := disk.makeDirectory_denial? path
      have hraised := (ih (disk.makeDirectory path).2).trans hmade
      rcases makeDirectoriesUp_cons disk path above with hlater | hlater | hlater
      · rw [hlater, hmade]
      · rw [hlater, hraised]
      · rw [hlater, makeDirectory_denial?, hraised]

theorem makeDirectoriesFor_denial? (disk : Disk) (path : Path) :
    Disk.denial? (disk.makeDirectoriesFor path).2 = disk.denial? := by
  rw [makeDirectoriesFor, makeDirectoriesUp_denial?]

theorem writeText_denial? (disk : Disk) (path : Path) (text : String) :
    Disk.denial? (disk.writeText path text).2 = disk.denial? := by
  unfold writeText write
  split
  · rfl
  · split
    · rfl
    · split <;> rfl

theorem rename_denial? (disk : Disk) (source target : Path) :
    Disk.denial? (disk.rename source target).2 = disk.denial? := by
  unfold rename
  split
  · split
    · rfl
    · rfl
    · split
      · rfl
      · split <;> rfl
  · rfl
  · rfl

/-! Paths above one that is taken. -/

theorem flaw?_of_prefix (hbegins : above.toList <+: path.toList) (h : flaw? path = none) :
    flaw? above = none := by
  unfold flaw? at h ⊢
  split at h
  · cases h
  · rename_i hzero
    split at h
    · cases h
    · rename_i hsize
      have habove : ¬ above.toList.contains '\x00' := by
        intro hmem
        rw [List.contains_iff_mem] at hzero hmem
        exact hzero (hbegins.subset hmem)
      have hshort := Path.utf8ByteSize_le_of_prefix hbegins
      rw [if_neg habove, if_neg (by omega)]

theorem Takes.parent (h : Takes path) : Takes path.parent where
  flawless := flaw?_of_prefix (Path.toList_parent_prefix path) h.flawless
  short := by
    rw [Path.names_parent]
    exact fun name hname => h.short name (List.dropLast_subset _ hname)

/-! Making directories. -/

end Disk

end SpanReview
