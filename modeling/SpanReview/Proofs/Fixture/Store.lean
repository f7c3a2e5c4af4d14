import SpanReview.Fixture.Store
import SpanReview.Proofs.Disk.Directories
import SpanReview.Proofs.Fixture.Format

namespace SpanReview

/-! What a read of a fixture gives, from what stands on the disk, and after it was written. -/

namespace FixtureStore

variable {store : FixtureStore} {key : FixtureKey} {disk : Disk}

theorem load_of_missing (hread : disk.readText (store.pathFor key) = .error .missing) :
    store.load key disk = .ok none := by
  unfold load
  dsimp only
  rw [hread]

theorem load_of_text {path : Path} {content : String} {fixture : Fixture}
    (hpath : store.pathFor key = path) (hread : disk.readText path = .ok content)
    (hparse : Fixture.parse key content path = .ok fixture) :
    store.load key disk = .ok (some fixture) := by
  subst hpath
  unfold load
  dsimp only
  rw [hread]
  dsimp only
  rw [hparse]

theorem load_of_flaw {content : String} {e : FixtureError}
    (hread : disk.readText (store.pathFor key) = .ok content)
    (hparse : Fixture.parse key content (store.pathFor key) = .error e) :
    store.load key disk = .error e := by
  unfold load
  dsimp only
  rw [hread]
  dsimp only
  rw [hparse]

/-- A fixture that loads has the key it is loaded for, and can be written again. -/
theorem recordable_of_load {fixture : Fixture} (h : store.load key disk = .ok (some fixture)) :
    fixture.key = key ∧ ∀ span, some span ∈ fixture.records → span.Recordable := by
  unfold load at h
  dsimp only at h
  split at h
  · cases h
  · cases h
  · split at h
    · cases h
    · rename_i hparse
      cases h
      exact Fixture.recordable_of_parse hparse

theorem pathFor_endsAtFile (store : FixtureStore) (key : FixtureKey) :
    (store.pathFor key).endsAtDirectory = false := by
  have hname : (Path.stemOrSelf key.file ++ ".expected.txt").toList.getLast? = some 't' := by
    rw [String.toList_append, List.getLast?_append]
    rfl
  exact Path.endsAtDirectory_of_getLast? (Path.getLast?_join hname) (by decide) (by decide)

theorem save_ok {records : List (Option Span)} {path : Path} {later : Disk}
    (h : store.save key records disk = (.ok path, later)) :
    path = store.pathFor key ∧ ∃ made written,
      disk.makeDirectoriesFor (store.pathFor key) = (.ok (), made) ∧
      made.writeText (temporaryPath (store.pathFor key)) (Fixture.textOf key records) =
        (.ok (), written) ∧
      written.rename (temporaryPath (store.pathFor key)) (store.pathFor key) = (.ok (), later) := by
  unfold save at h
  dsimp only at h
  split at h
  · cases h
  · rename_i made hmade
    split at h
    · cases h
    · rename_i written hwrite
      split at h
      · cases h
      · rename_i hrename
        cases h
        exact ⟨rfl, made, written, hmade, hwrite, hrename⟩

theorem save_of_parts {records : List (Option Span)} {made written : Disk}
    (hmade : disk.makeDirectoriesFor (store.pathFor key) = (.ok (), made))
    (hwrite : made.writeText (temporaryPath (store.pathFor key)) (Fixture.textOf key records) =
      (.ok (), written))
    (hrename : written.rename (temporaryPath (store.pathFor key)) (store.pathFor key) =
      (.ok (), later)) :
    store.save key records disk = (.ok (store.pathFor key), later) := by
  unfold save
  dsimp only
  rw [hmade]
  dsimp only
  rw [hwrite]
  dsimp only
  rw [hrename]

/-- A save that succeeded would succeed again, whatever is saved. -/
theorem save_again {records : List (Option Span)} {path : Path}
    (h : store.save key records disk = (.ok path, later)) (others : List (Option Span)) :
    (store.save key others later).1 = .ok (store.pathFor key) := by
  obtain ⟨_, made, written, hmade, hwrite, hrename⟩ := save_ok h
  obtain ⟨place, hplace, hfree, hends, hgranted, rfl⟩ := Disk.write_eq_ok_iff.mp hwrite
  obtain ⟨fromPlace, toPlace, content, hfrom, hto, hfile, hunder, hmoved, rfl⟩ :=
    Disk.rename_eq_ok_iff.mp hrename
  have hwritten := Disk.keepsDirectories_set hfree (.file (Fixture.textOf key records).toUTF8)
  have hrenamed := Disk.keepsDirectories_move hfile hunder (.file content)
  obtain rfl : fromPlace = place := Except.ok.inj (hfrom.symm.trans (hwritten.locate hplace))
  generalize hlater : Disk.set _ toPlace (.file content) = later at hrenamed ⊢
  have hkeeps := hwritten.trans hrenamed
  have hmadeAgain := Disk.makeDirectoriesFor_again hmade hkeeps
  have hfreeAgain : later.isDirectoryAt fromPlace = false := by
    rw [← hlater]
    exact Disk.not_directory_set_file
      (Disk.not_directory_erase (Disk.not_directory_set_file hfree _)) _
  have hunderAgain : later.isDirectoryAt toPlace = false := by
    rw [← hlater]
    exact Disk.not_directory_set_file (Disk.not_directory_erase hunder) _
  have hgrantedAgain : later.denial? (.write fromPlace) = none := by
    rw [← hlater]
    exact hgranted
  have hmovedAgain : later.denial? (.rename fromPlace toPlace) = none := by
    rw [← hlater]
    exact hmoved
  have hwriteAgain : later.writeText (temporaryPath (store.pathFor key))
      (Fixture.textOf key others) = _ :=
    Disk.write_eq_ok_iff.mpr
      ⟨fromPlace, hkeeps.locate hplace, hfreeAgain, hends, hgrantedAgain, rfl⟩
  have hkept := Disk.keepsDirectories_set hfreeAgain (.file (Fixture.textOf key others).toUTF8)
  have hrenameAgain := Disk.rename_eq_ok_iff.mpr
    ⟨fromPlace, toPlace, _, hkept.locate (hkeeps.locate hplace), hkept.locate (hrenamed.locate hto),
      Disk.entry?_set_self (Disk.ne_nil_of_not_directory hfreeAgain) _,
      Disk.not_directory_set_file hunderAgain _, hmovedAgain, rfl⟩
  rw [save_of_parts hmadeAgain hwriteAgain hrenameAgain]

theorem readText_of_save {records : List (Option Span)} {path : Path} {later : Disk}
    (h : store.save key records disk = (.ok path, later)) :
    later.readText (store.pathFor key) = .ok (Fixture.textOf key records) := by
  obtain ⟨_, made, written, _, hwrite, hrename⟩ := save_ok h
  obtain ⟨_, toPlace, _, hto, hfile, _⟩ := Disk.write_rename_ok hwrite hrename
  exact Disk.readText_of_bytes (Disk.readBytes_of_file hto hfile (pathFor_endsAtFile store key))

/-- What is saved is loaded, as far as it can be read. -/
theorem load_of_save {records : List (Option Span)} {path : Path} {later : Disk}
    (hsave : store.save key records disk = (.ok path, later))
    (h : ∀ span, some span ∈ records → span.Recordable) :
    store.load key later = .ok (some ⟨key, records⟩) :=
  load_of_text rfl (readText_of_save hsave) (Fixture.parse_textOf _ h)

end FixtureStore

end SpanReview
