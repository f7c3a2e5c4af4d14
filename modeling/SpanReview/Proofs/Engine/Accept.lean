import SpanReview.Proofs.Engine.Document
import SpanReview.Proofs.Engine.Forward
import SpanReview.Proofs.Fixture.Open

namespace SpanReview.Engine

/-! A review that saves what is proposed at every stop of its runs records every node, each
once and in order, and then finds nothing to correct. -/

/-- Runs and saves in turn, until a run comes to the end. -/
inductive AcceptsTo (setup : Setup σ) :
    Engine → World σ → List (Nat × Nat) → Engine → World σ → Prop
  | exhausted {engine last : Engine} {world later : World σ}
      (hrun : engine.run setup world = ⟨.ok .exhausted, last, later⟩) :
      AcceptsTo setup engine world [] last later
  | save {engine stopped saved last : Engine} {world there next later : World σ} {step : Step}
      {rest : List (Nat × Nat)}
      (hrun : engine.run setup world = ⟨.ok step, stopped, there⟩) (hstep : step ≠ .exhausted)
      (hsave : stopped.save setup there = ⟨.ok (), saved, next⟩)
      (hrest : AcceptsTo setup saved next rest last later) :
      AcceptsTo setup engine world (stopped.address :: rest) last later

/-- The engines that such a review saves with. -/
inductive AcceptsAt (setup : Setup σ) : Engine → World σ → Engine → World σ → Prop
  | first {engine stopped : Engine} {world there : World σ} {step : Step}
      (hrun : engine.run setup world = ⟨.ok step, stopped, there⟩) (hstep : step ≠ .exhausted) :
      AcceptsAt setup engine world stopped there
  | later {engine stopped saved last : Engine} {world there next later : World σ} {step : Step}
      (hrun : engine.run setup world = ⟨.ok step, stopped, there⟩) (hstep : step ≠ .exhausted)
      (hsave : stopped.save setup there = ⟨.ok (), saved, next⟩)
      (hrest : AcceptsAt setup saved next last later) :
      AcceptsAt setup engine world last later

variable {setup : Setup σ} {engine : Engine} {world : World σ}

/-! A run leaves a comparison made where it ends. -/

theorem AtRest.of_comparison (hcurrent : engine.current = engine.comparison?)
    (hoff : engine.runMode = false) : engine.AtRest := by
  rw [AtRest, rest, ← hcurrent, ← hoff]

theorem recompute_atRest (setup : Setup σ) (engine : Engine) (world : World σ) :
    (engine.recompute setup world).engine.AtRest := by
  fun_induction recompute setup engine world with
  | case1 engine world hnone => exact .of_comparison hnone.symm rfl
  | case2 engine world comparison hsome hskip outcome e herror => exact runAdvance_error herror
  | case3 engine world comparison hsome hskip outcome hmoved _ ih => exact ih
  | case4 engine world comparison hsome hskip outcome hnone =>
      rw [← rest_of_exhaust (runAdvance_false hnone)]
      exact .of_rest _
  | case5 engine world comparison hsome hskip hrun => exact .of_comparison hsome.symm rfl
  | case6 engine world comparison hsome hskip hrun =>
      exact .of_comparison hsome.symm (Bool.eq_false_iff.mpr hrun)

theorem run_atRest {file : LoadedFile} (hexhausted : engine.isExhausted = false)
    (hloaded : engine.loaded = some file) : (engine.run setup world).engine.AtRest := by
  cases hparked : engine.isParked with
  | true =>
      rw [run_parked hexhausted hloaded hparked]
      refine Outcome.andThen_cases (fun e herror => runAdvance_error herror) fun moved hok => ?_
      cases moved with
      | true =>
          rw [if_pos rfl, reportRun_engine]
          exact recompute_atRest setup _ _
      | false =>
          rw [if_neg Bool.false_ne_true, ← rest_of_exhaust (runAdvance_false hok)]
          exact .of_rest _
  | false =>
      rw [run_unparked hexhausted hloaded hparked, reportRun_engine]
      exact recompute_atRest setup _ _

theorem AtRest.proposes {site : Site} {node : Node} (hrest : engine.AtRest)
    (hstands : engine.StandsAt site) (hnode : site.file.nodes[site.position]? = some node)
    (hrecord : site.file.record? site.position = none) (hinside : node.span.Inside site.file.lines)
    (hordered : node.span.start ≤ node.span.finish) :
    ∃ comparison, engine.current = some comparison ∧ comparison.proposed = node.span := by
  have hcompare := LoadedFile.compareAt_eq_some_iff.mpr ⟨node, hnode, rfl⟩
  rw [← hstands.position] at hcompare
  have hsome := comparison?_eq_some_iff.mpr
    ⟨hstands.notExhausted, site.file, hstands.loaded, hcompare⟩
  have hcurrent : engine.current = engine.comparison? := (congrArg Engine.current hrest).symm
  refine ⟨_, hcurrent.trans hsome, ?_⟩
  have hexpected : site.file.expectedAt site.position = Span.sentinel := by
    rw [LoadedFile.expectedAt_eq]
    exact congrArg (Option.getD · Span.sentinel) hrecord
  rw [← hstands.position] at hexpected
  simp only [LoadedFile.propose, hexpected, Span.sentinel_unresolved, Bool.false_eq_true, if_false]
  exact LineTable.fixEndpoints_of_inside hinside hordered

/-! One run and one save. -/

section Round

variable {stage : Stage} {base : Location} {documents : List Document} {document : Document}
  {saved left : List (Nat × Nat)} {address : Nat × Nat}

abbrev filesAfter (setup : Setup σ) (stage : Stage) (documents : List Document)
    (saved : List (Nat × Nat)) (index : Nat) : List LoadedFile :=
  Shelved.files setup stage saved (index + 1) (documents.drop (index + 1))

/-- The documents are listed, and some of their nodes are saved. -/
structure Reviewing (setup : Setup σ) (stage : Stage) (base : Location)
    (documents : List Document) (saved : List (Nat × Nat)) (engine : Engine)
    (world : World σ) : Prop where
  coherent : engine.Coherent
  staged : engine.stage = some stage
  listed : engine.files = documents.map Document.name
  shelved : Shelved setup stage base documents saved world.disk

/-- The nodes that are left are what the next run is to search. -/
structure Accepting (setup : Setup σ) (stage : Stage) (base : Location)
    (documents : List Document) (saved left : List (Nat × Nat)) (engine : Engine)
    (world : World σ) : Prop extends Reviewing setup stage base documents saved engine world where
  notExhausted : engine.isExhausted = false
  searches : ∃ document, documents[engine.fileIndex]? = some document ∧
    engine.loaded = some (document.loaded setup stage engine.fileIndex saved) ∧
    (engine.runSites (document.loaded setup stage engine.fileIndex saved)
      (filesAfter setup stage documents saved engine.fileIndex)).map Site.address = left

/-- A run has stopped at a node, with the nodes that are left ahead. -/
structure StoppedFor (setup : Setup σ) (stage : Stage) (base : Location)
    (documents : List Document) (saved : List (Nat × Nat)) (address : Nat × Nat)
    (left : List (Nat × Nat)) (engine : Engine) (world : World σ) : Prop
    extends Reviewing setup stage base documents saved engine world where
  atRest : engine.AtRest
  pause : engine.runPause = some engine.position
  ahead : ∃ sites, engine.Ahead setup world sites ∧ sites.map Site.address = left
  stands : ∃ document node, documents[address.1]? = some document ∧
    document.nodes[address.2]? = some node ∧
    engine.StandsAt ⟨address.1, document.loaded setup stage address.1 saved, address.2⟩

theorem Reviewing.loadsLater (h : Reviewing setup stage base documents saved engine world)
    (hreviews : setup.Reviews stage base documents) :
    engine.LoadsLater setup world (filesAfter setup stage documents saved engine.fileIndex) := by
  obtain ⟨last, hloads, _⟩ : ∃ last, setup.Loads stage
      ((documents.drop (engine.fileIndex + 1)).map Document.name) world _ last ∧ _ :=
    h.shelved.loads hreviews rfl
  refine ⟨stage, last, h.staged, ?_⟩
  rw [h.listed, ← List.map_drop]
  exact hloads

theorem document_of_runSites (hdocument : documents[engine.fileIndex]? = some document)
    {site : Site} (hsite : site ∈ engine.runSites
      (document.loaded setup stage engine.fileIndex saved)
      (filesAfter setup stage documents saved engine.fileIndex)) :
    ∃ index position document node, documents[index]? = some document ∧
      document.nodes[position]? = some node ∧
      site = ⟨index, document.loaded setup stage index saved, position⟩ := by
  obtain ⟨index, file, position⟩ := site
  refine ⟨index, position, ?_⟩
  rcases List.mem_append.mp hsite with hhere | hlater
  · obtain ⟨rfl, rfl, _, hlt⟩ := Site.mem_ofFile.mp hhere
    exact ⟨document, _, hdocument, List.getElem?_eq_getElem hlt, rfl⟩
  · obtain ⟨hle, hfile, hlt⟩ := Site.mem_ofFiles.mp hlater
    dsimp only at hle hfile hlt
    obtain ⟨other, hother, rfl⟩ := Shelved.mem_files hfile
    have hindex : engine.fileIndex + 1 + (index - (engine.fileIndex + 1)) = index := by omega
    rw [List.getElem?_drop, hindex] at hother
    rw [hindex]
    exact ⟨other, _, hother, List.getElem?_eq_getElem hlt, rfl⟩

theorem Accepting.run_cases (h : Accepting setup stage base documents saved left engine world)
    (hreviews : setup.Reviews stage base documents) (hunsaved : ∀ address ∈ left, address ∉ saved) :
    (left = [] ∧ (engine.run setup world).result = .ok .exhausted ∧
        (engine.run setup world).engine.isExhausted ∧
        Shelved setup stage base documents saved (engine.run setup world).world.disk) ∨
      ∃ address rest step, left = address :: rest ∧ (engine.run setup world).result = .ok step ∧
        step ≠ .exhausted ∧
        StoppedFor setup stage base documents saved address rest (engine.run setup world).engine
          (engine.run setup world).world := by
  obtain ⟨document, hdocument, hloaded, hleft⟩ := h.searches
  have hframes := run_frames (Shelved.loadsWithin hreviews) engine h.shelved
  obtain ⟨hsearched, hresult⟩ :=
    run_searches h.coherent h.notExhausted hloaded (h.loadsLater hreviews)
  have hdiffers : ∀ site ∈ engine.runSites (document.loaded setup stage engine.fileIndex saved)
      (filesAfter setup stage documents saved engine.fileIndex), site.Differs := by
    intro site hsite
    obtain ⟨_, _, later, node, hlater, hnode, rfl⟩ := document_of_runSites hdocument hsite
    have hinside := (hreviews.recordable later (List.mem_of_getElem? hlater)).inside node
      (List.mem_of_getElem? hnode)
    exact Document.differs_of_unsaved hnode (LineTable.resolved_of_inside hinside)
      (hunsaved _ (hleft ▸ List.mem_map.mpr ⟨_, hsite, rfl⟩))
  rcases hsearched with ⟨stop, rest, ⟨passed, hsites, hpassed, _⟩, hstopped⟩ | ⟨hnone, hlast⟩
  · right
    have hnothing : passed = [] := by
      apply List.eq_nil_iff_forall_not_mem.mpr
      intro site hsite
      refine hpassed site hsite (hdiffers site ?_)
      rw [hsites]
      exact List.mem_append_left _ hsite
    subst hnothing
    have hstop : stop ∈ engine.runSites (document.loaded setup stage engine.fileIndex saved)
        (filesAfter setup stage documents saved engine.fileIndex) := by
      rw [hsites]
      exact List.mem_cons_self
    obtain ⟨_, _, later, node, hlater, hnode, rfl⟩ := document_of_runSites hdocument hstop
    rw [hstopped.stands.notExhausted, if_neg Bool.false_ne_true] at hresult
    rw [hsites] at hleft
    refine ⟨_, _, _, hleft.symm, hresult, by split <;> simp, ?_⟩
    exact {
      coherent := perform_coherent .run world h.coherent
      staged := hframes.stage.trans h.staged
      listed := hframes.files.trans h.listed
      shelved := hframes.world
      atRest := run_atRest h.notExhausted hloaded
      pause := hstopped.pause
      ahead := ⟨rest, hstopped.ahead, rfl⟩
      stands := ⟨later, node, hlater, hnode, hstopped.stands⟩ }
  · left
    have hempty : engine.runSites (document.loaded setup stage engine.fileIndex saved)
        (filesAfter setup stage documents saved engine.fileIndex) = [] :=
      List.eq_nil_iff_forall_not_mem.mpr fun site hsite => hnone site hsite (hdiffers site hsite)
    rw [if_pos hlast] at hresult
    rw [hempty] at hleft
    exact ⟨hleft.symm, hresult, hlast, hframes.world⟩

theorem StoppedFor.stored
    (h : StoppedFor setup stage base documents saved address left engine world)
    (hreviews : setup.Reviews stage base documents) (hunsaved : address ∉ saved) :
    engine.address = address ∧ ∃ document node comparison,
      documents[engine.fileIndex]? = some document ∧
      document.nodes[engine.position]? = some node ∧
      engine.loaded = some (document.loaded setup stage engine.fileIndex saved) ∧
      engine.current = some comparison ∧ comparison.proposed = node.span ∧
      engine.stored setup world (document.loaded setup stage engine.fileIndex saved) comparison =
        setup.store.save (document.key setup stage)
          (document.records engine.fileIndex (saved ++ [engine.address])) world.disk := by
  obtain ⟨document, node, hdocument, hnode, hstands⟩ := h.stands
  obtain ⟨index, position⟩ := address
  obtain rfl : engine.fileIndex = index := hstands.fileIndex
  obtain rfl : engine.position = position := hstands.position
  have hmem := List.mem_of_getElem? hnode
  have hgood := hreviews.recordable document (List.mem_of_getElem? hdocument)
  have hnone : (document.loaded setup stage engine.fileIndex saved).record? engine.position =
      none := by
    rw [Document.record?_loaded, if_neg hunsaved]
  obtain ⟨comparison, hcurrent, hproposed⟩ := h.atRest.proposes hstands hnode hnone
    (hgood.inside node hmem) (hgood.ordered node hmem)
  refine ⟨rfl, document, node, comparison, hdocument, hnode, hstands.loaded, hcurrent,
    hproposed, ?_⟩
  rw [Engine.stored, hproposed, Document.recordsWith_loaded hnode, Document.key_loaded, address]

/-- What a save leaves at a stop is again an engine whose next run searches what is left. -/
theorem StoppedFor.save (h : StoppedFor setup stage base documents saved address left engine world)
    (hreviews : setup.Reviews stage base documents) (hunsaved : address ∉ saved)
    (hsave : (engine.save setup world).result = .ok ()) :
    engine.address = address ∧
      Accepting setup stage base documents (saved ++ [address]) left
        (engine.save setup world).engine (engine.save setup world).world := by
  obtain ⟨_, _, _, _, hstands⟩ := h.stands
  obtain ⟨rfl, document, node, comparison, hdocument, hnode, hloaded, hcurrent, hproposed,
    hdisk⟩ := h.stored hreviews hunsaved
  obtain ⟨file, other, path, hfile, hother, hstored⟩ := save_ok hsave
  obtain rfl : comparison = other := Option.some.inj (hcurrent.symm.trans hother)
  obtain rfl : document.loaded setup stage engine.fileIndex saved = file :=
    Option.some.inj (hloaded.symm.trans hfile)
  have hcoherent : (engine.save setup world).engine.Coherent :=
    perform_coherent .save world h.coherent
  obtain ⟨disk, hsaved⟩ : ∃ disk, engine.stored setup world
      (document.loaded setup stage engine.fileIndex saved) comparison = (.ok path, disk) :=
    ⟨_, stored_of_ok hstored⟩
  rw [save_of_ok h.coherent.runMode_off hfile hcurrent hstored, hsaved] at hcoherent ⊢
  rw [hdisk] at hsaved
  rw [hproposed, Document.recordedAt_loaded hnode] at hcoherent ⊢
  refine ⟨rfl, ⟨hcoherent, h.staged, h.listed, ?_⟩, hstands.notExhausted, document,
    hdocument, rfl, ?_⟩
  · exact h.shelved.save hreviews hdocument hsaved
  · obtain ⟨_, ⟨shown, later, hshown, ⟨other, last, hother, hloads⟩, rfl⟩, rfl⟩ := h.ahead
    obtain rfl : stage = other := Option.some.inj (h.staged.symm.trans hother)
    rw [h.listed, ← List.map_drop] at hloads
    have hnodes := hloads.nodes_eq fun document hdrop =>
      (hreviews.recordable document (List.mem_of_mem_drop hdrop)).gives
    obtain rfl : document.loaded setup stage engine.fileIndex saved = shown :=
      Option.some.inj (hloaded.symm.trans hshown)
    rw [runSites, if_pos (by simp [isParked, rest, h.pause]), List.map_append, List.map_append,
      Site.address_ofFile, Site.address_ofFile, Site.address_ofFiles hnodes,
      Site.address_ofFiles (Shelved.nodes_files _)]
    rfl

theorem Accepting.accepts (hreviews : setup.Reviews stage base documents)
    (h : Accepting setup stage base documents saved left engine world)
    (hdistinct : (saved ++ left).Nodup)
    (hsaves : ∀ stopped there, AcceptsAt setup engine world stopped there →
      (stopped.save setup there).result = .ok ()) :
    ∃ last later, AcceptsTo setup engine world left last later ∧ last.isExhausted ∧
      Shelved setup stage base documents (saved ++ left) later.disk := by
  induction left generalizing saved engine world with
  | nil =>
      rcases h.run_cases hreviews (by simp) with ⟨_, hresult, hlast, hshelved⟩ | ⟨_, _, _, hleft, _⟩
      · rw [List.append_nil]
        have hrun := Outcome.eq_of_result hresult
        exact ⟨_, _, .exhausted hrun, hlast, hshelved⟩
      · contradiction
  | cons address rest ih =>
      have hunsaved : ∀ other ∈ address :: rest, other ∉ saved := fun other hleft hsaved =>
        (List.nodup_append.mp hdistinct).2.2 other hsaved other hleft rfl
      rcases h.run_cases hreviews hunsaved with
        ⟨hleft, _⟩ | ⟨first, _, step, hleft, hresult, hstep, hstopped⟩
      · contradiction
      · cases hleft
        have hrun := Outcome.eq_of_result hresult
        have hok := hsaves _ _ (.first hrun hstep)
        have hsave := Outcome.eq_of_result hok
        obtain ⟨haddress, hnext⟩ :=
          hstopped.save hreviews (hunsaved address List.mem_cons_self) hok
        have hall : saved ++ address :: rest = saved ++ [address] ++ rest := by simp
        rw [hall] at hdistinct ⊢
        obtain ⟨last, later, haccepts, hlast, hshelved⟩ := ih hnext hdistinct
          fun stopped there hlater => hsaves stopped there (.later hrun hstep hsave hlater)
        have hfirst := AcceptsTo.save hrun hstep hsave haccepts
        rw [haddress] at hfirst
        exact ⟨last, later, hfirst, hlast, hshelved⟩

/-! Where nothing is denied and nothing is in the way, no save of a review fails. -/

section Open

variable (hreviews : setup.Reviews stage base documents)
  (hdrafts : ∀ document ∈ documents,
    Disk.Takes (FixtureStore.temporaryPath (setup.store.pathFor (document.key setup stage))))
include hreviews

theorem Accepting.stopped {stopped : Engine} {there : World σ} {step : Step}
    (h : Accepting setup stage base documents saved left engine world)
    (hdistinct : (saved ++ left).Nodup) (hrun : engine.run setup world = ⟨.ok step, stopped, there⟩)
    (hstep : step ≠ .exhausted) :
    ∃ address rest, left = address :: rest ∧ address ∉ saved ∧
      StoppedFor setup stage base documents saved address rest stopped there := by
  have hunsaved : ∀ other ∈ left, other ∉ saved := fun other hleft hsaved =>
    (List.nodup_append.mp hdistinct).2.2 other hsaved other hleft rfl
  have hcases := h.run_cases hreviews hunsaved
  rw [hrun] at hcases
  rcases hcases with ⟨_, hresult, _⟩ | ⟨address, rest, _, rfl, _, _, hstopped⟩
  · cases hresult
    exact absurd rfl hstep
  · exact ⟨address, rest, rfl, hunsaved address List.mem_cons_self, hstopped⟩

include hdrafts

end Open

end Round

end SpanReview.Engine
