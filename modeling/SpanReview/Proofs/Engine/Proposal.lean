import SpanReview.Proofs.Engine.Reload

namespace SpanReview

/-! Whatever the producers report, whatever stands in the fixtures and however the ends are
moved, what is proposed is a span of the text of the loaded file, and so is what is recorded. -/

/-- Named as the reported span, inside the text, and not ending before it starts. -/
structure Comparison.ProposesIn (comparison : Comparison) (table : LineTable) : Prop where
  filename : comparison.proposed.filename = comparison.actual.filename
  inside : comparison.proposed.Inside table
  ordered : comparison.proposed.start ≤ comparison.proposed.finish

namespace LoadedFile

variable {file : LoadedFile} {position : Nat} {comparison : Comparison}

theorem proposesIn_of_compareAt (h : file.compareAt position = some comparison) :
    comparison.ProposesIn file.lines := by
  obtain ⟨node, _, rfl⟩ := compareAt_eq_some_iff.mp h
  exact ⟨rfl, LineTable.inside_fixEndpoints _ _ _ _, LineTable.ordered_fixEndpoints _ _ _ _⟩

theorem record?_recordsWith {span recorded : Span} {other : Nat}
    (h : (Fixture.mk file.key (Engine.recordsWith file position span)).record? other =
      some recorded) :
    recorded = span ∨ file.fixture.bind (·.record? other) = some recorded := by
  have hget := Option.join_eq_some_iff.mp h
  rw [Engine.recordsWith, List.getElem?_set] at hget
  split at hget
  · split at hget
    · cases hget
      exact .inl rfl
    · cases hget
  · rw [List.getElem?_map] at hget
    obtain ⟨index, hindex, hrecord⟩ := Option.map_eq_some_iff.mp hget
    obtain ⟨_, rfl⟩ := List.getElem?_eq_some_iff.mp hindex
    rw [List.getElem_range] at hrecord
    exact .inr hrecord

end LoadedFile

theorem Comparison.ProposesIn.moveEndpoint {comparison : Comparison} {table : LineTable}
    (h : comparison.ProposesIn table) (endpoint : Endpoint) (amount : Int) :
    Comparison.ProposesIn { comparison with
      proposed := table.moveEndpoint comparison.proposed endpoint amount } table where
  filename := (table.filename_moveEndpoint _ _ _).trans h.filename
  inside := LineTable.inside_moveEndpoint endpoint amount h.inside
  ordered := table.ordered_moveEndpoint _ _ _

namespace Engine

variable {setup : Setup σ} {engine : Engine} {comparison : Comparison}

def ProposesInText (engine : Engine) : Prop :=
  ∀ comparison, engine.current = some comparison →
    ∃ file, engine.loaded = some file ∧ comparison.ProposesIn file.lines

theorem proposesInText_of_none (h : engine.current = none) : engine.ProposesInText := by
  intro comparison hcurrent
  rw [h] at hcurrent
  contradiction

theorem proposesInText_rest (engine : Engine) : engine.rest.ProposesInText := by
  intro comparison hcurrent
  obtain ⟨_, file, hloaded, hcompare⟩ := comparison?_eq_some_iff.mp hcurrent
  exact ⟨file, hloaded, LoadedFile.proposesIn_of_compareAt hcompare⟩

theorem Change.keeps_proposesInText {first last : Engine} (hchange : Change setup first last)
    (h : first.ProposesInText) : last.ProposesInText := by
  cases hchange with
  | stage stage files => exact proposesInText_of_none rfl
  | compare => exact proposesInText_rest _
  | land index hload => exact proposesInText_rest _
  | move position hlt => exact proposesInText_rest _
  | back => exact proposesInText_rest _
  | exhaust hlast => exact proposesInText_of_none rfl
  | resume => exact h
  | pause hlt => exact h
  | propose endpoint amount hloaded hcurrent =>
      -- Only the end that moves is clamped: the other is inside because it was before.
      obtain ⟨file, hfile, hproposes⟩ := h _ hcurrent
      obtain rfl := Option.some.inj (hloaded.symm.trans hfile)
      intro comparison hcomparison
      cases hcomparison
      exact ⟨_, hloaded, hproposes.moveEndpoint endpoint amount⟩
  | display display => exact h
  | record hloaded hcurrent => exact proposesInText_rest _

theorem perform_proposesInText (operation : Operation) (world : World σ)
    (hrun : engine.runMode = false) (h : engine.ProposesInText) :
    (operation.perform setup engine world).ProposesInText := by
  by_cases hmiss : ∃ index, operation.Misses setup engine world index
  · obtain ⟨index, hmiss⟩ := hmiss
    rw [Operation.perform_of_misses hmiss]
    exact h
  · exact (Operation.perform_changes hrun (not_exists.mp hmiss)).keeps
      Change.keeps_proposesInText h

theorem Reachable.proposesInText (h : engine.Reachable setup) : engine.ProposesInText := by
  obtain ⟨display, calls, rfl⟩ := h
  have hcall : ∀ engine (call : Call σ), engine.Coherent ∧ engine.ProposesInText →
      (call.apply setup engine).Coherent ∧ (call.apply setup engine).ProposesInText := by
    rintro engine call ⟨hcoherent, hproposes⟩
    exact ⟨perform_coherent call.operation call.world hcoherent,
      perform_proposesInText call.operation call.world hcoherent.runMode_off hproposes⟩
  exact (after_keeps hcall calls ⟨start_coherent display, proposesInText_of_none rfl⟩).2

/-- After any calls: what is proposed has the name of the reported span, lies in the text of
the loaded file and does not end before it starts. A save that succeeds leaves, in memory and
on the disk, no record that was not there before at its position, except such a span. -/
theorem proposed_in_text (setup : Setup σ) (display : DisplayOptions) (calls : List (Call σ)) :
    let engine := (start display).after setup calls
    (∀ comparison, engine.current = some comparison →
      ∃ file, engine.loaded = some file ∧
        comparison.proposed.filename = comparison.actual.filename ∧
        file.lines.Contains comparison.proposed.start ∧
        file.lines.Contains comparison.proposed.finish ∧
        comparison.proposed.start ≤ comparison.proposed.finish) ∧
    ∀ world, (engine.save setup world).result = .ok () →
      ∃ file held, engine.loaded = some file ∧
        (engine.save setup world).engine.loaded.bind LoadedFile.fixture = some held ∧
        (engine.save setup world).world.disk.readText (setup.store.pathFor file.key) =
          .ok held.text ∧
        ∀ position span, held.record? position = some span →
          file.fixture.bind (·.record? position) = some span ∨
            (span.isResolved ∧ span.start ≤ span.finish ∧ file.lines.Contains span.start ∧
              file.lines.Contains span.finish ∧ span ≠ Span.sentinel) := by
  intro engine
  have hreach : engine.Reachable setup := ⟨display, calls, rfl⟩
  refine ⟨fun comparison hcurrent => ?_, fun world hsave => ?_⟩
  · obtain ⟨file, hloaded, h⟩ := hreach.proposesInText comparison hcurrent
    exact ⟨file, hloaded, h.filename, h.inside.1, h.inside.2, h.ordered⟩
  · have hrun := hreach.coherent.runMode_off
    obtain ⟨file, comparison, path, hloaded, hcurrent, hstored⟩ := save_ok hsave
    have hread := FixtureStore.readText_of_save (stored_of_ok hstored)
    rw [← save_disk hrun hloaded hcurrent hstored] at hread
    refine ⟨file, ⟨file.key, recordsWith file engine.position comparison.proposed⟩, hloaded, ?_,
      hread, ?_⟩
    · rw [save_of_ok hrun hloaded hcurrent hstored]
      rfl
    · intro position span hrecord
      rcases LoadedFile.record?_recordsWith hrecord with rfl | hkept
      · right
        obtain ⟨shown, hshown, h⟩ := hreach.proposesInText comparison hcurrent
        obtain rfl := Option.some.inj (hloaded.symm.trans hshown)
        have hresolved := LineTable.resolved_of_inside h.inside
        refine ⟨hresolved, h.ordered, h.inside.1, h.inside.2, fun hsentinel => ?_⟩
        rw [hsentinel] at hresolved
        exact absurd hresolved (by decide)
      · exact .inl hkept

end Engine

end SpanReview
