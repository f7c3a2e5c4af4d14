import Mathlib.Data.List.Induction
import Mathlib.Tactic.ByContra
import SpanReview.Proofs.Engine.Coherence
import SpanReview.Proofs.Engine.Load
import SpanReview.Source.Memory

namespace SpanReview

/-! The file index names the loaded file, unless a selection by name has just missed: that
moves the index before the file is read, and keeps it when the file does not load. -/

namespace Setup

theorem loadIndex_name {setup : Setup σ} {engine : Engine} {index : Nat} {world : World σ}
    {file : LoadedFile} (hload : (setup.loadIndex engine index world).1 = .ok file) :
    engine.files[index]? = some file.name := by
  obtain ⟨_, _, _, hname, hfile⟩ := loadIndex_ok hload
  rw [hname, loadFile_name hfile]

end Setup

namespace Engine

variable {setup : Setup σ} {engine : Engine} {world : World σ}

structure PointsAtLoaded (engine : Engine) : Prop where
  name : ∀ file, engine.loaded = some file →
    engine.files[engine.fileIndex]? = some file.name
  last : engine.isExhausted → engine.files.length ≤ engine.fileIndex + 1

theorem start_pointsAtLoaded (display : DisplayOptions) : (start display).PointsAtLoaded where
  name := by
    intro file hloaded
    contradiction
  last := by
    intro hexhausted
    contradiction

theorem Change.keeps_pointsAtLoaded {first last : Engine} (hchange : Change setup first last)
    (h : first.PointsAtLoaded) : last.PointsAtLoaded := by
  cases hchange with
  | stage stage files => exact ⟨by intro _ hloaded; contradiction, by intro _; contradiction⟩
  | land index hload =>
      refine ⟨?_, by intro _; contradiction⟩
      intro file hloaded
      cases hloaded
      exact Setup.loadIndex_name hload
  | exhaust hlast => exact ⟨h.name, fun _ => hlast⟩
  | record hloaded hcurrent =>
      have hname := h.name _ hloaded
      refine ⟨?_, h.last⟩
      intro file hfile
      cases hfile
      exact hname
  | _ => exact ⟨h.name, h.last⟩

end Engine

namespace Operation

variable {setup : Setup σ} {engine : Engine} {world : World σ} {operation : Operation}

/-- The selection misses, and leaves an index that is not the one of the loaded file, or
not the last one although the engine is exhausted. -/
def Misdirects (setup : Setup σ) (engine : Engine) (world : World σ)
    (operation : Operation) : Prop :=
  ∃ index, operation.Misses setup engine world index ∧
    ((∃ file, engine.loaded = some file ∧ engine.files[index]? ≠ some file.name) ∨
      (engine.isExhausted ∧ index + 1 < engine.files.length))

theorem misdirects_of_misses {index : Nat} (hmiss : operation.Misses setup engine world index) :
    operation.Misdirects setup engine world ↔
      ¬ Engine.PointsAtLoaded { engine with fileIndex := index } := by
  have hunique : ∀ other, operation.Misses setup engine world other → other = index := by
    intro other hother
    cases hmiss with
    | selectFile _ hname _ =>
        cases hother with
        | selectFile _ hname' _ => exact Option.some.inj (hname'.symm.trans hname)
  constructor
  · rintro ⟨other, hother, hastray⟩ hpoints
    obtain rfl := hunique other hother
    rcases hastray with ⟨file, hloaded, hne⟩ | ⟨hexhausted, hlt⟩
    · exact hne (hpoints.name file hloaded)
    · exact Nat.not_le_of_lt hlt (hpoints.last hexhausted)
  · intro hpoints
    refine ⟨index, hmiss, ?_⟩
    by_contra hnone
    obtain ⟨hname, hlast⟩ := not_or.mp hnone
    refine hpoints ⟨fun file hloaded => ?_, fun hexhausted => ?_⟩
    · by_contra hne
      exact hname ⟨file, hloaded, hne⟩
    · exact Nat.le_of_not_lt fun hlt => hlast ⟨hexhausted, hlt⟩

theorem perform_pointsAtLoaded_iff (hrun : engine.runMode = false)
    (hpoints : engine.PointsAtLoaded) :
    (operation.perform setup engine world).PointsAtLoaded ↔
      ¬ operation.Misdirects setup engine world := by
  by_cases hmiss : ∃ index, operation.Misses setup engine world index
  · obtain ⟨index, hmiss⟩ := hmiss
    rw [perform_of_misses hmiss, misdirects_of_misses hmiss, not_not]
  · refine iff_of_true ?_ ?_
    · exact (perform_changes hrun (not_exists.mp hmiss)).keeps
        Engine.Change.keeps_pointsAtLoaded hpoints
    · rintro ⟨index, hindex, _⟩
      exact hmiss ⟨index, hindex⟩

end Operation

namespace Engine

variable {setup : Setup σ}

/-- Along a history of calls the index is that of the loaded file, and the last one when
the engine is exhausted, for exactly as long as no selection misdirects it. -/
theorem after_pointsAtLoaded_iff (setup : Setup σ) (display : DisplayOptions)
    (calls : List (Call σ)) :
    (∀ earlier, earlier <+: calls →
      ((start display).after setup earlier).PointsAtLoaded) ↔
    ∀ earlier call, earlier ++ [call] <+: calls →
      ¬ call.operation.Misdirects setup ((start display).after setup earlier) call.world := by
  have hstep (earlier : List (Call σ)) (call : Call σ)
      (hpoints : ((start display).after setup earlier).PointsAtLoaded) :
      ((start display).after setup (earlier ++ [call])).PointsAtLoaded ↔
        ¬ call.operation.Misdirects setup ((start display).after setup earlier) call.world := by
    rw [after_concat]
    exact Operation.perform_pointsAtLoaded_iff
      (after_coherent setup display earlier).runMode_off hpoints
  constructor
  · intro hpoints earlier call hprefix
    have hearlier : earlier <+: calls := (List.prefix_append earlier [call]).trans hprefix
    exact (hstep earlier call (hpoints earlier hearlier)).mp (hpoints _ hprefix)
  · intro hhit earlier hprefix
    -- A history is taken from its end, as the last call is the one that may misdirect.
    induction earlier using List.reverseRecOn with
    | nil => exact start_pointsAtLoaded display
    | append_singleton earlier call ih =>
        have hearlier : earlier <+: calls := (List.prefix_append earlier [call]).trans hprefix
        exact (hstep earlier call (ih hearlier)).mpr (hhit earlier call hprefix)

/-- Three case files are listed, and the last has no text. -/
def lastMissing : Setup Unit where
  source := .ofEntries
    [⟨"a.pug", some "p", .array [.object [("type", .string "text")]], .null, none⟩,
      ⟨"b.pug", some "i", .array [.object [("type", .string "text")]], .null, none⟩,
      ⟨"c.pug", none, .null, .null, none⟩] []
  store := ⟨"save"⟩
  repository := ⟨"https://github.com/pugjs/pug.git", "master"⟩
  caseExtension := "pug"

/-- After the selection of the missing file the first is still shown, but the step to the
next file finds none. -/
theorem missing_case_misdirects :
    let world : World Unit := ⟨.empty, ()⟩
    let engine := (start .off).after lastMissing
      [⟨.selectStage "lexer", world⟩, ⟨.selectFile "a", world⟩, ⟨.selectFile "c", world⟩]
    engine.currentFile? = some "a.pug" ∧ engine.files[engine.fileIndex]? = some "c.pug" ∧
      ¬ engine.PointsAtLoaded ∧
      (engine.nextFile lastMissing world).result = .ok .exhausted := by
  intro world engine
  let listed : Engine :=
    { start .off with stage := some .lexer, files := ["a.pug", "b.pug", "c.pug"] }
  let first : LoadedFile :=
    ⟨⟨lastMissing.repository, .lexer, "a.pug"⟩, LineTable.ofText "p",
      [⟨some "text", ⟨"a.pug", ⟨1, 1⟩, ⟨1, 1⟩⟩, .object [("type", .string "text")]⟩], none⟩
  let shown : Engine := (listed.place 0 first).rest
  have hstage : Operation.perform lastMissing (start .off) world (.selectStage "lexer") =
      listed := rfl
  have hload : lastMissing.loadIndex listed 0 world = (.ok first, world) := rfl
  have hname : listed.fileNamed? lastMissing (Text.trim "a") = some 0 := by decide
  have hselect : Operation.perform lastMissing listed world (.selectFile "a") = shown :=
    congrArg Outcome.engine (selectFile_of_off rfl rfl hname hload)
  have hname' : shown.fileNamed? lastMissing (Text.trim "c") = some 2 := by decide
  have hmiss : (Operation.selectFile "c").Misses lastMissing shown world 2 :=
    .selectFile rfl hname' rfl
  have hengine : engine = { shown with fileIndex := 2 } := by
    simp only [engine, after_cons, after_nil, Call.apply]
    rw [hstage, hselect, Operation.perform_of_misses hmiss]
  rw [hengine]
  refine ⟨rfl, rfl, ?_, rfl⟩
  intro hpoints
  have hname := hpoints.name first rfl
  simp [shown, listed, first, rest, place, LoadedFile.name] at hname

end Engine

end SpanReview
