import SpanReview.Proofs.Engine.Forward

namespace SpanReview

/-! A step forward and a step back undo each other, over files without nodes and over the
end of the list, as long as the case files load as before. -/

/-- All that comparing looks at: the nodes of a case file and its fixture. -/
def LoadedFile.content (file : LoadedFile) : List Node × Option Fixture :=
  (file.nodes, file.fixture)

/-- The two spans to compare at a position: of its node, and recorded for it. -/
def comparedAt (content : List Node × Option Fixture) (position : Nat) : Option (Span × Span) :=
  (content.1[position]?).map fun node =>
    (node.span, (content.2.bind (·.record? position)).getD Span.sentinel)

theorem LoadedFile.compareAt_compared (file : LoadedFile) (position : Nat) :
    (file.compareAt position).map Comparison.compared = comparedAt file.content position := by
  simp only [compareAt, Option.map_map, comparedAt, content, ← file.expectedAt_eq]
  rfl

/-- However the case files are loaded one after another from here on, each of them loads,
always with the same content. -/
def Setup.LoadsAlike (setup : Setup σ) (stage : Stage) (names : List String) (world : World σ)
    (content : String → List Node × Option Fixture) : Prop :=
  ∀ visits, visits ⊆ names → ∀ name ∈ names,
    ∃ file, (setup.loadFile stage name (setup.worldAfter stage visits world)).1 = .ok file ∧
      file.content = content name

/-- The number of nodes of the case file at an index; a file that is not listed has none. -/
def countOf (names : List String) (content : String → List Node × Option Fixture)
    (index : Nat) : Nat :=
  (names[index]?).elim 0 fun name => (content name).1.length

/-- The file at an index of the list loads with this content. -/
def IsFileAt (names : List String) (content : String → List Node × Option Fixture)
    (index : Nat) (file : LoadedFile) : Prop :=
  ∃ name, names[index]? = some name ∧ file.content = content name

/-- Case file and position of a node, and of the node that comes after it. -/
def Follows (count : Nat → Nat) (node after : Nat × Nat) : Prop :=
  (after.1 = node.1 ∧ after.2 = node.2 + 1 ∧ after.2 < count node.1) ∨
    (node.1 < after.1 ∧ node.2 + 1 = count node.1 ∧ after.2 = 0 ∧ 0 < count after.1 ∧
      ∀ index, node.1 < index → index < after.1 → count index = 0)

def IsLast (count : Nat → Nat) (node : Nat × Nat) : Prop :=
  node.2 + 1 = count node.1 ∧ ∀ index, node.1 < index → count index = 0

section Order

variable {count : Nat → Nat} {node other after : Nat × Nat}

theorem Follows.right_unique {after' : Nat × Nat} (h : Follows count node after)
    (h' : Follows count node after') : after = after' := by
  rcases h with ⟨hfile, hposition, hlt⟩ | ⟨hlater, hend, hzero, hfull, hempty⟩
  · rcases h' with ⟨hfile', hposition', _⟩ | ⟨_, hend', _⟩
    · exact Prod.ext (hfile.trans hfile'.symm) (hposition.trans hposition'.symm)
    · omega
  · rcases h' with ⟨_, hposition', hlt'⟩ | ⟨hlater', _, hzero', hfull', hempty'⟩
    · omega
    · refine Prod.ext ?_ (hzero.trans hzero'.symm)
      rcases Nat.lt_trichotomy after.1 after'.1 with hlt | heq | hlt
      · exact absurd (hempty' _ hlater hlt) (Nat.ne_of_gt hfull)
      · exact heq
      · exact absurd (hempty _ hlater' hlt) (Nat.ne_of_gt hfull')

theorem Follows.left_unique (h : Follows count node after) (h' : Follows count other after) :
    node = other := by
  rcases h with ⟨hfile, hposition, _⟩ | ⟨hlater, hend, hzero, _, hempty⟩
  · rcases h' with ⟨hfile', hposition', _⟩ | ⟨_, _, hzero', _⟩
    · exact Prod.ext (hfile.symm.trans hfile') (by omega)
    · omega
  · rcases h' with ⟨_, hposition', _⟩ | ⟨hlater', hend', _, _, hempty'⟩
    · omega
    · have hindex : node.1 = other.1 := by
        rcases Nat.lt_trichotomy node.1 other.1 with hlt | heq | hlt
        · have := hempty _ hlt hlater'
          omega
        · exact heq
        · have := hempty' _ hlt hlater
          omega
      refine Prod.ext hindex ?_
      rw [hindex] at hend
      omega

theorem Follows.not_isLast (h : Follows count node after) : ¬ IsLast count node := by
  rintro ⟨hend, hnone⟩
  rcases h with ⟨_, hposition, hlt⟩ | ⟨hlater, _, _, hfull, _⟩
  · omega
  · exact absurd (hnone _ hlater) (Nat.ne_of_gt hfull)

end Order

section Loading

variable {setup : Setup σ} {stage : Stage} {names : List String} {world : World σ}
  {content : String → List Node × Option Fixture}

theorem IsFileAt.length_eq {index : Nat} {file : LoadedFile}
    (h : IsFileAt names content index file) : file.nodes.length = countOf names content index := by
  obtain ⟨name, hname, hcontent⟩ := h
  simp only [countOf, hname, Option.elim_some, ← hcontent, LoadedFile.content]

theorem countOf_of_le {index : Nat} (h : names.length ≤ index) :
    countOf names content index = 0 := by
  simp [countOf, List.getElem?_eq_none h]

theorem Setup.LoadsAlike.load (h : setup.LoadsAlike stage names world content) {name : String}
    (hname : name ∈ names) :
    ∃ file later, setup.loadFile stage name world = (.ok file, later) ∧
      file.content = content name ∧ setup.LoadsAlike stage names later content := by
  obtain ⟨file, hload, hcontent⟩ := h [] (List.nil_subset names) name hname
  refine ⟨file, (setup.loadFile stage name world).2, Prod.ext hload rfl, hcontent, ?_⟩
  intro visits hvisits
  exact h (name :: visits) (List.cons_subset.mpr ⟨hname, hvisits⟩)

theorem Setup.LoadsAlike.loadIndex {engine : Engine} {index : Nat}
    (h : setup.LoadsAlike stage engine.files world content) (hstage : engine.stage = some stage)
    (hlt : index < engine.files.length) :
    ∃ file later, setup.loadIndex engine index world = (.ok file, later) ∧
      IsFileAt engine.files content index file ∧
      setup.LoadsAlike stage engine.files later content := by
  have hname : engine.files[index]? = some engine.files[index] := List.getElem?_eq_getElem hlt
  obtain ⟨file, later, hload, hcontent, hlater⟩ := h.load (List.getElem_mem hlt)
  refine ⟨file, later, ?_, ⟨_, hname, hcontent⟩, hlater⟩
  rw [Setup.loadIndex_of_name hstage hname, hload]

end Loading

theorem Outcome.andThen_ne_ok {outcome : Outcome σ α}
    {next : α → Engine → World σ → Outcome σ β} {value : β}
    (h : ∀ a, outcome.result = .ok a →
      (next a outcome.engine outcome.world).result ≠ .ok value) :
    (outcome.andThen next).result ≠ .ok value := by
  intro hok
  obtain ⟨a, hresult, hnext⟩ := Outcome.andThen_of_ok hok
  rw [hnext] at hok
  exact h a hresult hok

namespace Engine

variable {setup : Setup σ} {engine : Engine} {world : World σ} {stage : Stage}
  {content : String → List Node × Option Fixture}

/-- The engine has stepped past a node, with no other node after it. -/
structure IsPast (setup : Setup σ) (stage : Stage) (content : String → List Node × Option Fixture)
    (engine : Engine) (world : World σ) (index : Nat) : Prop where
  alike : setup.LoadsAlike stage engine.files world content
  staged : engine.stage = some stage
  exhausted : engine.isExhausted
  runMode_off : engine.runMode = false
  index_le : index ≤ engine.fileIndex
  listed : engine.fileIndex < engine.files.length

theorem empty_after {count : Nat → Nat} {first limit : Nat} (hempty : count (first + 1) = 0)
    (hrest : ∀ between, first + 1 < between → between < limit → count between = 0) :
    ∀ between, first < between → between < limit → count between = 0 := by
  intro between hlt hlimit
  rcases Nat.eq_or_lt_of_le (Nat.succ_le_of_lt hlt) with rfl | hlater
  · exact hempty
  · exact hrest between hlater hlimit

theorem enterNextFile_finds (halike : setup.LoadsAlike stage engine.files world content)
    (hstage : engine.stage = some stage) (hlisted : engine.fileIndex < engine.files.length) :
    let count := countOf engine.files content
    (∃ index file later, engine.fileIndex < index ∧ 0 < count index ∧
        (∀ between, engine.fileIndex < between → between < index → count between = 0) ∧
        engine.enterNextFile setup world = ⟨.ok true, engine.place index file, later⟩ ∧
        IsFileAt engine.files content index file ∧
        setup.LoadsAlike stage engine.files later content) ∨
      ((∀ index, engine.fileIndex < index → count index = 0) ∧
        ∃ last later, engine.enterNextFile setup world = ⟨.ok false, last, later⟩ ∧
          last.files = engine.files ∧ last.IsPast setup stage content later engine.fileIndex) := by
  fun_induction enterNextFile setup engine world with
  | case1 engine world hlt error world' hload =>
      obtain ⟨file, later, hfile, _⟩ := halike.loadIndex hstage hlt
      cases hload.symm.trans hfile
  | case2 engine world hlt file world' hload hempty ih =>
      obtain ⟨file, later, hfile, hat, hlater⟩ := halike.loadIndex hstage hlt
      cases hload.symm.trans hfile
      have hnone : countOf engine.files content (engine.fileIndex + 1) = 0 := by
        rw [← hat.length_eq]
        exact List.isEmpty_iff_length_eq_zero.mp hempty
      rcases ih hlater hstage hlt with
        ⟨index, found, last, hindex, hfull, hbetween, heq, hfound⟩ |
          ⟨hrest, last, later, heq, hfiles, hpast⟩
      · left
        exact ⟨index, found, last, Nat.lt_of_succ_lt hindex, hfull,
          empty_after hnone hbetween, heq, hfound⟩
      · right
        refine ⟨fun index hindex => ?_, last, later, heq, hfiles, ?_⟩
        · exact empty_after hnone (fun between hbetween _ => hrest between hbetween) index hindex
            (Nat.lt_succ_self index)
        · exact { hpast with index_le := Nat.le_of_succ_le hpast.index_le }
  | case3 engine world hlt file world' hload hfull =>
      obtain ⟨file, later, hfile, hat, hlater⟩ := halike.loadIndex hstage hlt
      cases hload.symm.trans hfile
      left
      have hpos : 0 < countOf engine.files content (engine.fileIndex + 1) := by
        rw [← hat.length_eq]
        exact List.length_pos_iff.mpr (by simpa using hfull)
      refine ⟨engine.fileIndex + 1, file, _, Nat.lt_succ_self _, hpos, ?_, rfl, hat, hlater⟩
      intro between hlt hlt'
      omega
  | case4 engine world hlast =>
      right
      refine ⟨fun index hindex => countOf_of_le (by omega), _, _, rfl, rfl, ?_⟩
      exact ⟨halike, hstage, rfl, rfl, Nat.le_refl _, hlisted⟩

theorem enterPreviousFile_finds (halike : setup.LoadsAlike stage engine.files world content)
    (hstage : engine.stage = some stage) (hlisted : engine.fileIndex < engine.files.length) :
    let count := countOf engine.files content
    (∃ index file later, index < engine.fileIndex ∧ 0 < count index ∧
        (∀ between, index < between → between < engine.fileIndex → count between = 0) ∧
        engine.enterPreviousFile setup world =
          ⟨.ok true, (engine.place index file).toLastNode, later⟩ ∧
        IsFileAt engine.files content index file ∧
        setup.LoadsAlike stage engine.files later content) ∨
      ((∀ index, index < engine.fileIndex → count index = 0) ∧
        (engine.enterPreviousFile setup world).result = .ok false) := by
  fun_induction enterPreviousFile setup engine world with
  | case1 engine world hfirst =>
      right
      refine ⟨fun index hindex => ?_, rfl⟩
      omega
  | case2 engine world hfirst error world' hload =>
      have hlisted' : engine.fileIndex - 1 < engine.files.length := by omega
      obtain ⟨file, later, hfile, _⟩ := halike.loadIndex hstage hlisted'
      cases hload.symm.trans hfile
  | case3 engine world hfirst file world' hload hempty ih =>
      have hlisted' : engine.fileIndex - 1 < engine.files.length := by omega
      obtain ⟨file, later, hfile, hat, hlater⟩ := halike.loadIndex hstage hlisted'
      cases hload.symm.trans hfile
      have hnone : countOf engine.files content (engine.fileIndex - 1) = 0 := by
        rw [← hat.length_eq]
        exact List.isEmpty_iff_length_eq_zero.mp hempty
      have hback : ∀ between, between < engine.fileIndex → ¬ between < engine.fileIndex - 1 →
          countOf engine.files content between = 0 := by
        intro between hlt hge
        obtain rfl : between = engine.fileIndex - 1 := by omega
        exact hnone
      rcases ih hlater hstage hlisted' with
        ⟨index, found, last, hindex, hfull, hbetween, heq, hfound⟩ | ⟨hrest, hresult⟩
      · left
        refine ⟨index, found, last, ?_, hfull, fun between hlt hlt' => ?_, heq, hfound⟩
        · exact Nat.lt_of_lt_of_le hindex (Nat.sub_le _ 1)
        · by_cases hearlier : between < engine.fileIndex - 1
          · exact hbetween between hlt hearlier
          · exact hback between hlt' hearlier
      · right
        refine ⟨fun index hindex => ?_, hresult⟩
        by_cases hearlier : index < engine.fileIndex - 1
        · exact hrest index hearlier
        · exact hback index hindex hearlier
  | case4 engine world hfirst file world' hload hfull =>
      have hlisted' : engine.fileIndex - 1 < engine.files.length := by omega
      obtain ⟨file, later, hfile, hat, hlater⟩ := halike.loadIndex hstage hlisted'
      cases hload.symm.trans hfile
      left
      have hpos : 0 < countOf engine.files content (engine.fileIndex - 1) := by
        rw [← hat.length_eq]
        exact List.length_pos_iff.mpr (by simpa using hfull)
      refine ⟨engine.fileIndex - 1, file, _, by omega, hpos, ?_, rfl, hat, hlater⟩
      intro between hlt hlt'
      omega

/-! Steps between nodes, by the order of the nodes. -/

/-- The engine stands at a node of a case file that loads with the same content again. -/
structure Anchored (setup : Setup σ) (stage : Stage)
    (content : String → List Node × Option Fixture) (engine : Engine) (world : World σ)
    (node : Nat × Nat) : Prop where
  alike : setup.LoadsAlike stage engine.files world content
  staged : engine.stage = some stage
  loaded : ∃ file, engine.loaded = some file ∧ IsFileAt engine.files content node.1 file
  fileIndex : engine.fileIndex = node.1
  position : engine.position = node.2
  inFile : node.2 < countOf engine.files content node.1
  notExhausted : engine.isExhausted = false
  runMode_off : engine.runMode = false

variable {node : Nat × Nat}

theorem Anchored.nodeCount_eq (h : engine.Anchored setup stage content world node) :
    engine.nodeCount = countOf engine.files content node.1 := by
  obtain ⟨file, hloaded, hat⟩ := h.loaded
  rw [nodeCount_of_loaded hloaded, hat.length_eq]

theorem Anchored.listed (h : engine.Anchored setup stage content world node) :
    node.1 < engine.files.length := by
  apply Nat.lt_of_not_le
  intro hle
  have hinFile := h.inFile
  rw [countOf_of_le hle] at hinFile
  exact Nat.not_lt_zero _ hinFile

theorem Anchored.rest (h : engine.Anchored setup stage content world node) :
    engine.rest.Anchored setup stage content world node :=
  ⟨h.alike, h.staged, h.loaded, h.fileIndex, h.position, h.inFile, h.notExhausted, rfl⟩

theorem anchored_place {index : Nat} {file : LoadedFile}
    (halike : setup.LoadsAlike stage engine.files world content)
    (hstage : engine.stage = some stage) (hrun : engine.runMode = false)
    (hat : IsFileAt engine.files content index file)
    (hfull : 0 < countOf engine.files content index) :
    (engine.place index file).Anchored setup stage content world (index, 0) :=
  ⟨halike, hstage, ⟨file, rfl, hat⟩, rfl, rfl, hfull, rfl, hrun⟩

theorem anchored_toLastNode {index : Nat} {file : LoadedFile}
    (halike : setup.LoadsAlike stage engine.files world content)
    (hstage : engine.stage = some stage) (hrun : engine.runMode = false)
    (hat : IsFileAt engine.files content index file)
    (hfull : 0 < countOf engine.files content index) :
    (engine.place index file).toLastNode.Anchored setup stage content world
      (index, countOf engine.files content index - 1) :=
  ⟨halike, hstage, ⟨file, rfl, hat⟩, rfl, congrArg (· - 1) hat.length_eq,
    Nat.sub_lt hfull Nat.one_pos, rfl, hrun⟩

/-- A step that moves comes to a node, and leaves it compared. -/
structure Lands (setup : Setup σ) (stage : Stage) (content : String → List Node × Option Fixture)
    (names : List String) (outcome : Outcome σ Step) (node : Nat × Nat) : Prop where
  result : outcome.result = .ok .moved
  atRest : outcome.engine.AtRest
  files : outcome.engine.files = names
  anchored : outcome.engine.Anchored setup stage content outcome.world node

/-- A step forward that finds no node after a node of the file at an index. -/
structure RunsOut (setup : Setup σ) (stage : Stage) (content : String → List Node × Option Fixture)
    (names : List String) (outcome : Outcome σ Step) (index : Nat) : Prop where
  result : outcome.result = .ok .exhausted
  files : outcome.engine.files = names
  past : outcome.engine.IsPast setup stage content outcome.world index

theorem Anchored.settle_lands (h : engine.Anchored setup stage content world node) :
    Lands setup stage content engine.files (engine.settle setup world) node := by
  rw [settle_of_off h.runMode_off, settled, if_neg (by simp [h.notExhausted])]
  exact ⟨rfl, .of_rest engine, rfl, h.rest⟩

theorem Anchored.next_cases (h : engine.Anchored setup stage content world node) :
    let count := countOf engine.files content
    (∃ after, Follows count node after ∧
        Lands setup stage content engine.files (engine.next setup world) after) ∨
      (IsLast count node ∧
        RunsOut setup stage content engine.files (engine.next setup world) node.1) := by
  intro count
  obtain ⟨file, hloaded, hat⟩ := h.loaded
  have hcount := h.nodeCount_eq
  have hinFile := h.inFile
  rw [next_of_loaded h.notExhausted hloaded, advance]
  by_cases hlt : engine.position + 1 < engine.nodeCount
  · left
    rw [if_pos hlt]
    rw [hcount, h.position] at hlt
    have hthere : { engine with position := engine.position + 1 }.Anchored setup stage content
        world (node.1, node.2 + 1) :=
      ⟨h.alike, h.staged, h.loaded, h.fileIndex, congrArg (· + 1) h.position, hlt,
        h.notExhausted, h.runMode_off⟩
    exact ⟨(node.1, node.2 + 1), .inl ⟨rfl, rfl, hlt⟩, hthere.settle_lands⟩
  · have hend : node.2 + 1 = count node.1 := by
      rw [hcount, h.position] at hlt
      exact Nat.le_antisymm hinFile (Nat.le_of_not_lt hlt)
    have hlisted : engine.fileIndex < engine.files.length := h.fileIndex ▸ h.listed
    rw [if_neg hlt]
    rcases enterNextFile_finds h.alike h.staged hlisted with
      ⟨index, found, later, hindex, hfull, hbetween, heq, hfound, hlater⟩ |
      ⟨hnone, last, later, heq, hfiles, hpast⟩
    · left
      rw [h.fileIndex] at hindex hbetween
      rw [heq]
      exact ⟨(index, 0), .inr ⟨hindex, hend, rfl, hfull, hbetween⟩,
        (anchored_place hlater h.staged h.runMode_off hfound hfull).settle_lands⟩
    · right
      rw [h.fileIndex] at hnone hpast
      rw [heq]
      exact ⟨⟨hend, hnone⟩, rfl, hfiles, hpast⟩

theorem previous_of_ready (h : engine.loaded.isSome ∨ engine.isExhausted) :
    engine.previous setup world =
      (engine.retreat setup world).andThen fun moved last world =>
        if moved then last.settle setup world else ⟨.ok .atStart, last, world⟩ := by
  rw [previous, if_neg]
  rcases h with hloaded | hexhausted
  · simp [Option.isSome_iff_ne_none.mp hloaded]
  · simp [hexhausted]

theorem retreatFile_lands {index : Nat} {file : LoadedFile} {later : World σ}
    (heq : engine.enterPreviousFile setup world =
      ⟨.ok true, (engine.place index file).toLastNode, later⟩) :
    engine.retreatFile setup world = ⟨.ok true, (engine.place index file).toLastNode, later⟩ := by
  rw [retreatFile, heq]
  rfl

theorem retreatFile_stays (hnone : (engine.enterPreviousFile setup world).result = .ok false) :
    (engine.retreatFile setup world).result ≠ .ok true := by
  refine Outcome.andThen_ne_ok fun found hfound => ?_
  cases hfound.symm.trans hnone
  simp only [Bool.false_eq_true, if_false]
  split
  · simp
  · refine Outcome.andThen_ne_ok fun _ _ => Outcome.andThen_ne_ok fun _ _ => ?_
    simp

theorem Anchored.previous_cases (h : engine.Anchored setup stage content world node) :
    let count := countOf engine.files content
    (∃ before, Follows count before node ∧
        Lands setup stage content engine.files (engine.previous setup world) before) ∨
      ((∀ before, ¬ Follows count before node) ∧
        (engine.previous setup world).result ≠ .ok .moved) := by
  intro count
  obtain ⟨file, hloaded, hat⟩ := h.loaded
  have hinFile := h.inFile
  rw [previous_of_ready (.inl (by simp [hloaded])), retreat, if_neg (by simp [h.notExhausted])]
  by_cases hpos : 0 < engine.position
  · left
    rw [if_pos hpos]
    rw [h.position] at hpos
    have hthere : { engine with position := engine.position - 1 }.Anchored setup stage content
        world (node.1, node.2 - 1) :=
      ⟨h.alike, h.staged, h.loaded, h.fileIndex, congrArg (· - 1) h.position,
        Nat.lt_of_le_of_lt (Nat.sub_le _ 1) hinFile, h.notExhausted, h.runMode_off⟩
    exact ⟨(node.1, node.2 - 1), .inl ⟨rfl, (Nat.sub_add_cancel hpos).symm, hinFile⟩,
      hthere.settle_lands⟩
  · have hzero : node.2 = 0 := by
      rw [h.position] at hpos
      exact Nat.eq_zero_of_not_pos hpos
    have hlisted : engine.fileIndex < engine.files.length := h.fileIndex ▸ h.listed
    rw [if_neg hpos]
    rcases enterPreviousFile_finds h.alike h.staged hlisted with
      ⟨index, found, later, hindex, hfull, hbetween, heq, hfound, hlater⟩ | ⟨hnone, hresult⟩
    · left
      rw [h.fileIndex] at hindex hbetween
      rw [retreatFile_lands heq]
      exact ⟨(index, count index - 1),
        .inr ⟨hindex, Nat.sub_add_cancel hfull, hzero, Nat.zero_lt_of_lt hinFile, hbetween⟩,
        (anchored_toLastNode hlater h.staged h.runMode_off hfound hfull).settle_lands⟩
    · right
      rw [h.fileIndex] at hnone
      refine ⟨fun before hbefore => ?_, Outcome.andThen_ne_ok fun moved hmoved => ?_⟩
      · rcases hbefore with ⟨_, hposition, _⟩ | ⟨hearlier, hend, _⟩
        · omega
        · have hempty : count before.1 = 0 := hnone _ hearlier
          omega
      · cases moved with
        | true => exact absurd hmoved (retreatFile_stays hresult)
        | false => simp

theorem IsPast.previous_lands (h : engine.IsPast setup stage content world node.1)
    (hlast : IsLast (countOf engine.files content) node) :
    Lands setup stage content engine.files (engine.previous setup world) node := by
  obtain ⟨hend, hnone⟩ := hlast
  obtain ⟨file, later, hload, hat, hlater⟩ := h.alike.loadIndex h.staged h.listed
  have hcount : (engine.place engine.fileIndex file).nodeCount =
      countOf engine.files content engine.fileIndex := hat.length_eq
  rw [previous_of_ready (.inr h.exhausted), retreat, if_pos h.exhausted, enterFile, hload]
  dsimp only [Outcome.andThen]
  by_cases hfull : 0 < (engine.place engine.fileIndex file).nodeCount
  · rw [hcount] at hfull
    have hindex : engine.fileIndex = node.1 := by
      rcases Nat.eq_or_lt_of_le h.index_le with heq | hlater'
      · exact heq.symm
      · exact absurd (hnone _ hlater') (Nat.ne_of_gt hfull)
    have hthere := anchored_toLastNode hlater h.staged h.runMode_off hat hfull
    have hnode : (engine.fileIndex, countOf engine.files content engine.fileIndex - 1) = node :=
      Prod.ext hindex (by rw [hindex]; omega)
    rw [hnode] at hthere
    rw [if_pos (by rwa [hcount])]
    exact hthere.settle_lands
  · have hempty : countOf engine.files content engine.fileIndex = 0 := by
      rw [hcount] at hfull
      exact Nat.eq_zero_of_not_pos hfull
    have hbefore : node.1 < engine.fileIndex := by
      rcases Nat.eq_or_lt_of_le h.index_le with heq | hlt
      · rw [← heq] at hempty
        omega
      · exact hlt
    rw [if_neg hfull]
    have hlater' :
        setup.LoadsAlike stage (engine.place engine.fileIndex file).files later content :=
      hlater
    rcases enterPreviousFile_finds hlater' h.staged h.listed with
      ⟨index, found, last, hindex, hfound, hbetween, heq, hat', hlast⟩ | ⟨hall, _⟩
    · have hsame : index = node.1 := by
        rcases Nat.lt_trichotomy index node.1 with hlt | heq | hlt
        · have := hbetween _ hlt hbefore
          exact absurd this (by simp only [place]; omega)
        · exact heq
        · exact absurd (hnone _ hlt) (Nat.ne_of_gt hfound)
      have hthere : (engine.place index found).toLastNode.Anchored setup stage content last
          (index, countOf engine.files content index - 1) :=
        anchored_toLastNode hlast h.staged h.runMode_off hat' hfound
      have hnode : (index, countOf engine.files content index - 1) = node :=
        Prod.ext hsame (by rw [hsame]; omega)
      rw [hnode] at hthere
      rw [retreatFile_lands heq]
      exact hthere.settle_lands
    · have := hall _ hbefore
      exact absurd this (by simp only [place]; omega)

/-! Two steps. -/

theorem Anchored.next_previous (h : engine.Anchored setup stage content world node) :
    let ahead := engine.next setup world
    (ahead.result = .ok .moved ∨
        (ahead.result = .ok .exhausted ∧ IsLast (countOf engine.files content) node)) ∧
      Lands setup stage content engine.files (ahead.engine.previous setup ahead.world) node := by
  intro ahead
  rcases h.next_cases with ⟨after, hfollows, hthere⟩ | ⟨hlast, hpast⟩
  · refine ⟨.inl hthere.result, ?_⟩
    have hback := hthere.anchored.previous_cases
    rw [hthere.files] at hback
    rcases hback with ⟨before, hbefore, hlands⟩ | ⟨hnone, _⟩
    · obtain rfl := hbefore.left_unique hfollows
      exact hlands
    · exact absurd hfollows (hnone node)
  · refine ⟨.inr ⟨hpast.result, hlast⟩, ?_⟩
    have hlast' : IsLast (countOf ahead.engine.files content) node := by rwa [hpast.files]
    have hback := hpast.past.previous_lands hlast'
    rwa [hpast.files] at hback

theorem Anchored.previous_next (h : engine.Anchored setup stage content world node)
    (hmoved : (engine.previous setup world).result = .ok .moved) :
    let behind := engine.previous setup world
    Lands setup stage content engine.files (behind.engine.next setup behind.world) node := by
  intro behind
  rcases h.previous_cases with ⟨before, hfollows, hthere⟩ | ⟨_, hstays⟩
  · have hforth := hthere.anchored.next_cases
    rw [hthere.files] at hforth
    rcases hforth with ⟨after, hafter, hlands⟩ | ⟨hlast, _⟩
    · obtain rfl := hafter.right_unique hfollows
      exact hlands
    · exact absurd hlast hfollows.not_isLast
  · exact absurd hmoved hstays

theorem Anchored.next_of_isLast (h : engine.Anchored setup stage content world node)
    (hlast : IsLast (countOf engine.files content) node) :
    (engine.next setup world).result = .ok .exhausted ∧
      (engine.next setup world).engine.isExhausted := by
  rcases h.next_cases with ⟨after, hfollows, _⟩ | ⟨_, hpast⟩
  · exact absurd hlast hfollows.not_isLast
  · exact ⟨hpast.result, hpast.past.exhausted⟩

/-! What is shown at a node. -/

/-- Engines at the same node of the same case file, with the same spans to compare. -/
structure SameNode (engine other : Engine) : Prop where
  fileIndex : other.fileIndex = engine.fileIndex
  position : other.position = engine.position
  actual : other.current.map Comparison.actual = engine.current.map Comparison.actual
  expected : other.current.map Comparison.expected = engine.current.map Comparison.expected
  isMatch : other.current.map Comparison.isMatch = engine.current.map Comparison.isMatch

theorem SameNode.of_compared {other : Engine} (hindex : other.fileIndex = engine.fileIndex)
    (hposition : other.position = engine.position)
    (h : other.current.map Comparison.compared = engine.current.map Comparison.compared) :
    engine.SameNode other := by
  have hmap {α : Type} (f : Span × Span → α) :
      other.current.map (f ∘ Comparison.compared) =
        engine.current.map (f ∘ Comparison.compared) := by
    simpa only [Option.map_map] using congrArg (Option.map f) h
  exact ⟨hindex, hposition, hmap Prod.fst, hmap Prod.snd, hmap fun spans => spans.1 == spans.2⟩

theorem Anchored.compared (h : engine.Anchored setup stage content world node) :
    engine.comparison?.map Comparison.compared =
      (engine.files[node.1]?).bind fun name => comparedAt (content name) node.2 := by
  obtain ⟨file, hloaded, name, hname, hcontent⟩ := h.loaded
  rw [comparison?, if_neg (by simp [h.notExhausted]), hloaded, Option.bind_some,
    file.compareAt_compared, hcontent, h.position, hname, Option.bind_some]

theorem Anchored.sameNode {other : Engine} {later : World σ}
    (h : engine.Anchored setup stage content world node) (hcoherent : engine.Coherent)
    (hother : other.Anchored setup stage content later node) (hrest : other.AtRest)
    (hfiles : other.files = engine.files) : engine.SameNode other := by
  refine .of_compared (hother.fileIndex.trans h.fileIndex.symm)
    (hother.position.trans h.position.symm) ?_
  have hcurrent : other.current = other.comparison? := (congrArg Engine.current hrest).symm
  rw [hcoherent.compared, hcurrent, hother.compared, h.compared, hfiles]

/-- A reachable engine that shows a node is at a node of the order, if its case file loads
as it was loaded. -/
theorem Coherent.anchored {comparison : Comparison} {file : LoadedFile} (h : engine.Coherent)
    (hcurrent : engine.current = some comparison) (hloaded : engine.loaded = some file)
    (hname : engine.files[engine.fileIndex]? = some file.name) (hstage : engine.stage = some stage)
    (halike : setup.LoadsAlike stage engine.files world content)
    (hagain : content file.name = file.content) :
    engine.Anchored setup stage content world engine.address := by
  have hat : IsFileAt engine.files content engine.fileIndex file := ⟨_, hname, hagain.symm⟩
  obtain ⟨_, hexhausted, hlt⟩ := h.isSome_iff.mp (by simp [hcurrent])
  rw [nodeCount_of_loaded hloaded, hat.length_eq] at hlt
  exact ⟨halike, hstage, ⟨file, hloaded, hat⟩, rfl, rfl, hlt, hexhausted, h.runMode_off⟩

/-- From a node, a step forward and then one back lead to the same node again, also when
the step forward found no more nodes; so do a step back that moves and then one forward.
Back from where a step forward found no more nodes, the next step finds none again. -/
theorem next_previous_inverse {comparison : Comparison} {file : LoadedFile}
    (hreach : engine.Reachable setup) (hcurrent : engine.current = some comparison)
    (hloaded : engine.loaded = some file)
    (hname : engine.files[engine.fileIndex]? = some file.name) (hstage : engine.stage = some stage)
    (halike : setup.LoadsAlike stage engine.files world content)
    (hagain : content file.name = file.content) :
    let ahead := engine.next setup world
    let back := ahead.engine.previous setup ahead.world
    let behind := engine.previous setup world
    let forth := behind.engine.next setup behind.world
    ((ahead.result = .ok .moved ∨ ahead.result = .ok .exhausted) ∧ back.result = .ok .moved ∧
      engine.SameNode back.engine) ∧
    (behind.result = .ok .moved → forth.result = .ok .moved ∧ engine.SameNode forth.engine) ∧
    (ahead.result = .ok .exhausted →
      let again := back.engine.next setup back.world
      again.result = .ok .exhausted ∧ again.engine.isExhausted) := by
  intro ahead back behind forth
  have hcoherent := hreach.coherent
  have h := hcoherent.anchored hcurrent hloaded hname hstage halike hagain
  obtain ⟨hahead, hback⟩ := h.next_previous
  refine ⟨⟨?_, hback.result, ?_⟩, fun hmoved => ?_, fun hexhausted => ?_⟩
  · exact hahead.imp_right And.left
  · exact h.sameNode hcoherent hback.anchored hback.atRest hback.files
  · have hforth := h.previous_next hmoved
    exact ⟨hforth.result, h.sameNode hcoherent hforth.anchored hforth.atRest hforth.files⟩
  · rcases hahead with hmoved | ⟨_, hlast⟩
    · cases hexhausted.symm.trans hmoved
    · exact hback.anchored.next_of_isLast (by rwa [hback.files])

def recordedContent (name : String) : List Node × Option Fixture :=
  if name = "a.pug" then recordedFile.content
  else if name = "b.pug" then emptyFile.content
  else unrecordedFile.content

theorem loadsAlike_recorded :
    firstRecorded.LoadsAlike .lexer ["a.pug", "b.pug", "c.pug"] recordedWorld
      recordedContent := by
  have hload : ∀ name ∈ ["a.pug", "b.pug", "c.pug"], ∃ file,
      firstRecorded.loadFile .lexer name recordedWorld = (.ok file, recordedWorld) ∧
        file.content = recordedContent name := by
    intro name hname
    rcases List.mem_cons.mp hname with rfl | hname
    · exact ⟨recordedFile, loadFile_recorded, rfl⟩
    · rcases List.mem_cons.mp hname with rfl | hname
      · exact ⟨emptyFile, rfl, rfl⟩
      · obtain rfl := List.mem_singleton.mp hname
        exact ⟨unrecordedFile, rfl, rfl⟩
  intro visits hvisits
  have hworld : firstRecorded.worldAfter .lexer visits recordedWorld = recordedWorld := by
    induction visits with
    | nil => rfl
    | cons name visits ih =>
        obtain ⟨hname, hrest⟩ := List.cons_subset.mp hvisits
        obtain ⟨file, hfile, _⟩ := hload name hname
        rw [Setup.worldAfter, List.foldl_cons, hfile]
        exact ih hrest
  intro name hname
  obtain ⟨file, hfile, hcontent⟩ := hload name hname
  exact ⟨file, by rw [hworld, hfile], hcontent⟩

theorem back_over_empty_file :
    let listed : Engine :=
      { start .off with stage := some .lexer, files := ["a.pug", "b.pug", "c.pug"] }
    let shown := (listed.place 2 unrecordedFile).rest
    let behind := shown.previous firstRecorded recordedWorld
    let forth := behind.engine.next firstRecorded behind.world
    behind.result = .ok .moved ∧ behind.engine.fileIndex = 0 ∧ forth.result = .ok .moved ∧
      shown.SameNode forth.engine := by
  intro listed shown behind forth
  have hname : listed.fileNamed? firstRecorded (Text.trim "c") = some 2 := by decide
  have hload : firstRecorded.loadIndex listed 2 recordedWorld =
      (.ok unrecordedFile, recordedWorld) := rfl
  have hselect : Operation.perform firstRecorded listed recordedWorld (.selectFile "c") = shown :=
    congrArg Outcome.engine (selectFile_of_off rfl rfl hname hload)
  have hreach : shown.Reachable firstRecorded :=
    ⟨.off, [⟨.selectStage "lexer", recordedWorld⟩, ⟨.selectFile "c", recordedWorld⟩], hselect⟩
  obtain ⟨_, hforth, _⟩ := next_previous_inverse hreach rfl rfl rfl rfl loadsAlike_recorded rfl
  have hanchored : shown.Anchored firstRecorded .lexer recordedContent recordedWorld (2, 0) :=
    hreach.coherent.anchored rfl rfl rfl rfl loadsAlike_recorded rfl
  have hfollows : Follows (countOf shown.files recordedContent) (0, 0) (2, 0) := by
    refine .inr ⟨Nat.zero_lt_succ 1, rfl, rfl, Nat.one_pos, fun index hlt hlt' => ?_⟩
    obtain rfl : index = 1 := by omega
    rfl
  rcases hanchored.previous_cases with ⟨before, hbefore, hlands⟩ | ⟨hnone, _⟩
  · obtain rfl := hbefore.left_unique hfollows
    exact ⟨hlands.result, hlands.anchored.fileIndex, hforth hlands.result⟩
  · exact absurd hfollows (hnone (0, 0))

end Engine

end SpanReview
