import SpanReview.Proofs.Disk.Granted
import SpanReview.Proofs.Disk.Tree
import SpanReview.Proofs.Fixture.History

namespace SpanReview.FixtureStore

/-! Where nothing is denied and nothing is in the way, every save succeeds. -/

variable {store : FixtureStore} {key : FixtureKey} {base : Location} {disk later : Disk}
  {calls : List StoreCall} {path : Path}

/-- There is a directory to begin in, and no directory where a fixture is to stand. -/
structure Open (store : FixtureStore) (base : Location) (disk : Disk) : Prop where
  grants : disk.Grants
  start : disk.entry? (disk.origin store.root) = some .directory
  clear : ∀ names, names.length = 4 → disk.entry? (base ++ names) ≠ some .directory

/-- A file system accepts the place of a fixture and the one where it is written first. -/
structure Takes (store : FixtureStore) (key : FixtureKey) : Prop where
  place : Disk.Takes (store.pathFor key)
  draft : Disk.Takes (temporaryPath (store.pathFor key))

theorem save_denial? (store : FixtureStore) (key : FixtureKey) (records : List (Option Span))
    (disk : Disk) : Disk.denial? (store.save key records disk).2 = disk.denial? := by
  have hmade := disk.makeDirectoriesFor_denial? (store.pathFor key)
  unfold save
  dsimp only
  generalize disk.makeDirectoriesFor (store.pathFor key) = outcome at hmade ⊢
  obtain ⟨_ | _, made⟩ := outcome
  · exact hmade
  · have hwritten := (made.writeText_denial? (temporaryPath (store.pathFor key))
      (Fixture.textOf key records)).trans hmade
    dsimp only
    generalize made.writeText (temporaryPath (store.pathFor key)) (Fixture.textOf key records) =
      outcome at hwritten ⊢
    obtain ⟨_ | _, written⟩ := outcome
    · exact hwritten
    · have hmoved := (written.rename_denial? (temporaryPath (store.pathFor key))
        (store.pathFor key)).trans hwritten
      dsimp only
      generalize written.rename (temporaryPath (store.pathFor key)) (store.pathFor key) =
        outcome at hmoved ⊢
      obtain ⟨_ | _, later⟩ := outcome
      · exact hmoved
      · exact hmoved

theorem Open.save (hopen : store.Open base disk) (hroot : disk.LeadsTo store.root base)
    (hkey : key.Plain) {records : List (Option Span)}
    (hsave : store.save key records disk = (.ok path, later)) : store.Open base later := by
  have heffect := saveEffect_of_ok hroot hkey hsave
  have hgranted := store.save_denial? key records disk
  rw [hsave] at hgranted
  refine ⟨hopen.grants.congr hgranted, ?_, fun names hlength => ?_⟩
  · rw [Disk.origin_congr heffect.keepsDirectories.here]
    exact heffect.keepsDirectories.stays _ hopen.start
  · by_cases hplace : base ++ names = base ++ key.location
    · rw [hplace, heffect.file]
      exact nofun
    · by_cases htemporary : base ++ names = base ++ key.temporaryLocation
      · rw [htemporary, heffect.draft]
        exact nofun
      · have hkept : ¬ OffShelf base (base ++ names) := fun hoff => hoff names hlength rfl
        rw [(heffect.elsewhere _ hplace htemporary).entry?_of_not hkept]
        exact hopen.clear names hlength

end SpanReview.FixtureStore
