import SpanReview.Proofs.Engine.Frame
import SpanReview.Proofs.Engine.Recorded
import SpanReview.Proofs.Engine.Reload
import SpanReview.Proofs.Engine.Stops
import SpanReview.Proofs.Fixture.Root

namespace SpanReview

/-! Case files whose nodes are recorded one after another: what their fixtures hold by then,
on the disk and when they are loaded. A node is told by its address, the index of its case
file and its position there. -/

structure Document where
  name : String
  text : String
  nodes : List Node

namespace Document

variable {setup : Setup σ} {stage : Stage} {document : Document} {index other position : Nat}
  {saved : List (Nat × Nat)} {node : Node}

def key (setup : Setup σ) (stage : Stage) (document : Document) : FixtureKey :=
  setup.keyFor stage document.name

/-- The nodes of documents in a row, the first of which has the given index. -/
def addresses (index : Nat) : List Document → List (Nat × Nat)
  | [] => []
  | document :: rest =>
      (List.range document.nodes.length).map (Prod.mk index) ++ addresses (index + 1) rest

/-- The records of the document once some nodes are saved. -/
def records (index : Nat) (saved : List (Nat × Nat)) (document : Document) :
    List (Option Span) :=
  document.nodes.mapIdx fun position node =>
    if (index, position) ∈ saved then some node.span else none

/-- There is a fixture from the first node on that is saved. -/
def fixture? (setup : Setup σ) (stage : Stage) (index : Nat) (saved : List (Nat × Nat))
    (document : Document) : Option Fixture :=
  if index ∈ saved.map Prod.fst then some ⟨document.key setup stage, document.records index saved⟩
  else none

def loaded (setup : Setup σ) (stage : Stage) (index : Nat) (saved : List (Nat × Nat))
    (document : Document) : LoadedFile :=
  ⟨document.key setup stage, LineTable.ofText document.text, document.nodes,
    document.fixture? setup stage index saved⟩

theorem key_loaded : (document.loaded setup stage index saved).key = document.key setup stage := rfl

theorem mem_addresses {first : Nat} {documents : List Document} :
    (index, position) ∈ addresses first documents ↔
      first ≤ index ∧ ∃ document, documents[index - first]? = some document ∧
        position < document.nodes.length := by
  induction documents generalizing first with
  | nil => simp [addresses]
  | cons head rest ih =>
      rw [addresses, List.mem_append, ih]
      rcases Nat.lt_trichotomy index first with hlt | rfl | hgt
      · have hne : first ≠ index := by omega
        simp [hne]
        omega
      · have hle : ¬ index + 1 ≤ index := by omega
        simp [hle]
      · obtain ⟨offset, rfl⟩ : ∃ offset, index = first + 1 + offset :=
          ⟨index - (first + 1), by omega⟩
        have hoffset : first + 1 + offset - first = offset + 1 := by omega
        have hne : first ≠ first + 1 + offset := by omega
        simp [hoffset, hne]
        omega

theorem record?_loaded :
    (document.loaded setup stage index saved).record? position =
      if (index, position) ∈ saved then (document.nodes[position]?).map Node.span else none := by
  simp only [LoadedFile.record?, loaded, fixture?]
  by_cases hbegun : index ∈ saved.map Prod.fst
  · rw [if_pos hbegun]
    simp only [Option.bind_some, Fixture.record?, records, List.getElem?_mapIdx]
    cases document.nodes[position]? <;> split <;> rfl
  · rw [if_neg hbegun, if_neg fun hmem => hbegun (List.mem_map_of_mem (f := Prod.fst) hmem)]
    rfl

theorem recordsWith_loaded (hnode : document.nodes[position]? = some node) :
    Engine.recordsWith (document.loaded setup stage index saved) position node.span =
      document.records index (saved ++ [(index, position)]) := by
  have hcount : (document.loaded setup stage index saved).nodes = document.nodes := rfl
  refine List.ext_getElem (by simp [Engine.recordsWith, records, hcount]) fun i _ hlt => ?_
  replace hlt : i < document.nodes.length := by simpa [records] using hlt
  have hrecord : (document.loaded setup stage index saved).fixture.bind (·.record? i) =
      if (index, i) ∈ saved then (document.nodes[i]?).map Node.span else none := record?_loaded
  by_cases hsame : position = i
  · subst hsame
    have hspan : document.nodes[position] = node := (List.getElem?_eq_some_iff.mp hnode).2
    simp [Engine.recordsWith, records, hspan]
  · have hne : i ≠ position := Ne.symm hsame
    simp [Engine.recordsWith, records, hsame, hne, hrecord, hlt]

theorem recordedAt_loaded (hnode : document.nodes[position]? = some node) :
    (document.loaded setup stage index saved).recordedAt position node.span =
      document.loaded setup stage index (saved ++ [(index, position)]) := by
  rw [LoadedFile.recordedAt, recordsWith_loaded hnode]
  simp [loaded, fixture?]

theorem fixture?_concat_of_ne (h : other ≠ index) :
    document.fixture? setup stage other (saved ++ [(index, position)]) =
      document.fixture? setup stage other saved := by
  have hbegun :
      other ∈ (saved ++ [(index, position)]).map Prod.fst ↔ other ∈ saved.map Prod.fst := by
    simp [h]
  simp only [fixture?, hbegun, records]
  simp [h]

theorem differs_of_unsaved (hnode : document.nodes[position]? = some node)
    (hresolved : node.span.isResolved) (hunsaved : (index, position) ∉ saved) :
    Site.Differs ⟨index, document.loaded setup stage index saved, position⟩ := by
  refine ⟨node, hnode, fun hsame => ?_⟩
  rw [LoadedFile.expectedAt_eq_iff hresolved, record?_loaded, if_neg hunsaved] at hsame
  contradiction

/-! Documents with all of their nodes saved. -/

end Document

/-! What it takes for every node of some case files to be recorded. -/

/-- The source gives the document at every call. -/
structure Setup.Gives (setup : Setup σ) (stage : Stage) (document : Document) : Prop where
  readCase : ∀ world, (setup.source.readCase stage document.name world).1 = .ok document.text
  nodes : ∀ world,
    (setup.source.nodes stage document.text document.name world).1 = .ok document.nodes

/-- The source leaves the root of the store alone. -/
structure Setup.KeepsRoot (setup : Setup σ) (base : Location) : Prop where
  caseFiles : ∀ stage world, Disk.KeepsRoot setup.store.root base world.disk
    (setup.source.caseFiles stage world).2.disk
  readCase : ∀ stage name world, Disk.KeepsRoot setup.store.root base world.disk
    (setup.source.readCase stage name world).2.disk
  nodes : ∀ stage text name world, Disk.KeepsRoot setup.store.root base world.disk
    (setup.source.nodes stage text name world).2.disk

structure Document.Recordable (setup : Setup σ) (stage : Stage) (document : Document) : Prop where
  gives : setup.Gives stage document
  name : '/' ∉ document.name.toList
  takes : Disk.Takes (setup.store.pathFor (document.key setup stage))
  inside : ∀ node ∈ document.nodes, node.span.Inside (LineTable.ofText document.text)
  ordered : ∀ node ∈ document.nodes, node.span.start ≤ node.span.finish
  recordable : ∀ node ∈ document.nodes, node.span.Recordable

structure Setup.Reviews (setup : Setup σ) (stage : Stage) (base : Location)
    (documents : List Document) : Prop where
  branch : Path.IsName setup.repository.branch
  stems : (documents.map fun document => Path.stemOrSelf document.name).Nodup
  keepsRoot : setup.KeepsRoot base
  recordable : ∀ document ∈ documents, document.Recordable setup stage

variable {setup : Setup σ} {stage : Stage} {base : Location} {documents : List Document}
  {document : Document} {index other position : Nat} {saved : List (Nat × Nat)}
  {disk later : Disk} {world : World σ}

theorem Setup.Gives.nodes_eq (h : setup.Gives stage document) {file : LoadedFile}
    (hload : (setup.loadFile stage document.name world).1 = .ok file) :
    file.nodes = document.nodes := by
  obtain ⟨text, read, _, hread, hnodes, _⟩ := Setup.loadFile_ok hload
  have htext : text = document.text :=
    Except.ok.inj ((congrArg Prod.fst hread).symm.trans (h.readCase world))
  subst htext
  exact Except.ok.inj ((congrArg Prod.fst hnodes).symm.trans (h.nodes read))

theorem Setup.Loads.nodes_eq (hgives : ∀ document ∈ documents, setup.Gives stage document)
    {files : List LoadedFile} {last : World σ}
    (h : setup.Loads stage (documents.map Document.name) world files last) :
    files.map LoadedFile.nodes = documents.map Document.nodes := by
  induction documents generalizing world files with
  | nil =>
      cases h
      rfl
  | cons document rest ih =>
      obtain ⟨hfirst, hrest⟩ := List.forall_mem_cons.mp hgives
      cases h with
      | cons hload hlater =>
          rw [List.map_cons, List.map_cons, hfirst.nodes_eq (congrArg Prod.fst hload),
            ih hrest hlater]

theorem Site.address_ofFile (index : Nat) (file : LoadedFile) (start : Nat) :
    (Site.ofFile index file start).map Site.address =
      (List.range' start (file.nodes.length - start)).map (Prod.mk index) := by
  rw [ofFile, List.map_map]
  rfl

theorem Site.address_ofFiles {files : List LoadedFile}
    (h : files.map LoadedFile.nodes = documents.map Document.nodes) :
    (Site.ofFiles index files).map Site.address = Document.addresses index documents := by
  induction documents generalizing index files with
  | nil =>
      obtain rfl := List.map_eq_nil_iff.mp h
      rfl
  | cons document rest ih =>
      obtain ⟨file, later, rfl, hnodes, hlater⟩ := List.map_eq_cons_iff.mp h
      rw [ofFiles, List.map_append, ih hlater, address_ofFile, hnodes, Document.addresses,
        Nat.sub_zero, ← List.range_eq_range']

theorem Setup.KeepsRoot.loadIndex (h : setup.KeepsRoot base) (engine : Engine) (index : Nat)
    (world : World σ) : Disk.KeepsRoot setup.store.root base world.disk
      (setup.loadIndex engine index world).2.disk := by
  have hwithin : setup.LoadsWithin fun later =>
      Disk.KeepsRoot setup.store.root base world.disk later.disk :=
    Setup.loadsWithin_of_source
      (fun stage name there hthere => hthere.trans (h.readCase stage name there))
      fun stage text name there hthere => hthere.trans (h.nodes stage text name there)
  exact hwithin engine index world (.refl _ _ _)

namespace Setup.Reviews

theorem plain (h : setup.Reviews stage base documents) (hmem : document ∈ documents) :
    (document.key setup stage).Plain :=
  ⟨h.branch, (h.recordable document hmem).name⟩

theorem pathFor_ne (h : setup.Reviews stage base documents) {document' : Document}
    (hdocument : documents[index]? = some document) (hother : documents[other]? = some document')
    (hne : index ≠ other) :
    setup.store.pathFor (document.key setup stage) ≠
      setup.store.pathFor (document'.key setup stage) := by
  intro hsame
  have hplace := (FixtureStore.pathFor_eq_iff (h.plain (List.mem_of_getElem? hdocument))
    (h.plain (List.mem_of_getElem? hother))).mp hsame
  have hstem : Path.stemOrSelf document.name = Path.stemOrSelf document'.name := by
    simpa [FixtureKey.location, Document.key, Setup.keyFor] using congrArg List.getLast? hplace
  obtain ⟨hlt, _⟩ := List.getElem?_eq_some_iff.mp hdocument
  refine hne ((List.getElem?_inj (by simpa using hlt) h.stems).mp ?_)
  rw [List.getElem?_map, List.getElem?_map, hdocument, hother, Option.map_some, Option.map_some,
    hstem]

end Setup.Reviews

/-! The disk and the files that load from it. -/

/-- The root of the store holds the saved nodes of the documents and nothing else of them. -/
def Shelved (setup : Setup σ) (stage : Stage) (base : Location) (documents : List Document)
    (saved : List (Nat × Nat)) (disk : Disk) : Prop :=
  ∃ calls, setup.store.Shelf base calls disk ∧
    ∀ (index : Nat) (document : Document), documents[index]? = some document →
      setup.store.lastSaved? (setup.store.pathFor (document.key setup stage)) calls =
        (document.fixture? setup stage index saved).map fun fixture =>
          (fixture.key, fixture.records)

namespace Shelved

theorem start (h : disk.EmptyAt setup.store.root base) :
    Shelved setup stage base documents [] disk :=
  ⟨[], .start h, fun _ _ _ => rfl⟩

theorem keepsRoot (h : Shelved setup stage base documents saved disk)
    (hkeeps : Disk.KeepsRoot setup.store.root base disk later) :
    Shelved setup stage base documents saved later := by
  obtain ⟨calls, hshelf, hsaved⟩ := h
  exact ⟨calls, hshelf.keepsRoot hkeeps, hsaved⟩

theorem loadsWithin (hreviews : setup.Reviews stage base documents) :
    setup.LoadsWithin fun world => Shelved setup stage base documents saved world.disk :=
  fun engine index world hworld =>
    hworld.keepsRoot (hreviews.keepsRoot.loadIndex engine index world)

theorem load (h : Shelved setup stage base documents saved disk)
    (hreviews : setup.Reviews stage base documents)
    (hdocument : documents[index]? = some document) :
    setup.store.load (document.key setup stage) disk =
      .ok (document.fixture? setup stage index saved) := by
  obtain ⟨calls, hshelf, hsaved⟩ := h
  have hmem := List.mem_of_getElem? hdocument
  rw [hshelf.load_eq (hreviews.plain hmem) (hreviews.recordable document hmem).takes,
    hsaved index document hdocument, Document.fixture?]
  split <;> simp_all

theorem loadFile (h : Shelved setup stage base documents saved world.disk)
    (hreviews : setup.Reviews stage base documents)
    (hdocument : documents[index]? = some document) :
    ∃ next, setup.loadFile stage document.name world =
        (.ok (document.loaded setup stage index saved), next) ∧
      Shelved setup stage base documents saved next.disk := by
  have hgives := (hreviews.recordable document (List.mem_of_getElem? hdocument)).gives
  have hread : setup.source.readCase stage document.name world = (.ok document.text, _) :=
    Prod.ext (hgives.readCase world) rfl
  have hnodes : setup.source.nodes stage document.text document.name
      (setup.source.readCase stage document.name world).2 = (.ok document.nodes, _) :=
    Prod.ext (hgives.nodes _) rfl
  have hshelved := (h.keepsRoot (hreviews.keepsRoot.readCase stage document.name world)).keepsRoot
    (hreviews.keepsRoot.nodes stage document.text document.name _)
  exact ⟨_, Setup.loadFile_of_parts hread hnodes (hshelved.load hreviews hdocument), hshelved⟩

/-- Documents in a row, the first of which has the given index, as they load. -/
def files (setup : Setup σ) (stage : Stage) (saved : List (Nat × Nat)) (index : Nat)
    (documents : List Document) : List LoadedFile :=
  (documents.zipIdx index).map fun (document, index) => document.loaded setup stage index saved

theorem nodes_files (rest : List Document) :
    (files setup stage saved index rest).map LoadedFile.nodes = rest.map Document.nodes := by
  induction rest generalizing index with
  | nil => rfl
  | cons document rest ih => exact congrArg (document.nodes :: ·) ih

theorem mem_files {rest : List Document} {k : Nat} {file : LoadedFile}
    (h : (files setup stage saved index rest)[k]? = some file) :
    ∃ document, rest[k]? = some document ∧
      file = document.loaded setup stage (index + k) saved := by
  rw [files, List.getElem?_map, List.getElem?_zipIdx] at h
  obtain ⟨⟨document, _⟩, hpair, rfl⟩ := Option.map_eq_some_iff.mp h
  obtain ⟨_, hdocument, hsame⟩ := Option.map_eq_some_iff.mp hpair
  cases hsame
  exact ⟨document, hdocument, rfl⟩

theorem loads (h : Shelved setup stage base documents saved world.disk)
    (hreviews : setup.Reviews stage base documents) {rest : List Document}
    (hrest : documents.drop index = rest) :
    ∃ last, setup.Loads stage (rest.map Document.name) world
        (files setup stage saved index rest) last ∧
      Shelved setup stage base documents saved last.disk := by
  induction rest generalizing index world with
  | nil => exact ⟨world, .nil, h⟩
  | cons document rest ih =>
      have hdocument : documents[index]? = some document := by
        rw [← List.head?_drop, hrest, List.head?_cons]
      have hlater : documents.drop (index + 1) = rest := by
        rw [← List.tail_drop, hrest, List.tail_cons]
      obtain ⟨next, hload, hnext⟩ := h.loadFile hreviews hdocument
      obtain ⟨last, hloads, hlast⟩ := ih hnext hlater
      exact ⟨last, .cons hload hloads, hlast⟩

theorem save (h : Shelved setup stage base documents saved disk)
    (hreviews : setup.Reviews stage base documents)
    (hdocument : documents[index]? = some document) {path : Path}
    (hsave : setup.store.save (document.key setup stage)
      (document.records index (saved ++ [(index, position)])) disk = (.ok path, later)) :
    Shelved setup stage base documents (saved ++ [(index, position)]) later := by
  obtain ⟨calls, hshelf, hsaved⟩ := h
  have hmem := List.mem_of_getElem? hdocument
  have hrecordable : ∀ span, some span ∈ document.records index (saved ++ [(index, position)]) →
      span.Recordable := by
    intro span hspan
    obtain ⟨i, hi, hrecord⟩ := List.mem_mapIdx.mp hspan
    split at hrecord
    · cases hrecord
      exact (hreviews.recordable document hmem).recordable _ (List.getElem_mem hi)
    · cases hrecord
  refine ⟨_, hshelf.save (hreviews.plain hmem) hrecordable hsave, fun other document' hother => ?_⟩
  by_cases hsame : other = index
  · subst hsame
    obtain rfl : document = document' := Option.some.inj (hdocument.symm.trans hother)
    rw [FixtureStore.lastSaved?_save _ rfl]
    simp [Document.fixture?]
  · have hpath := hreviews.pathFor_ne hdocument hother (Ne.symm hsame)
    rw [FixtureStore.lastSaved?_save_of_ne _ hpath, hsaved other document' hother,
      Document.fixture?_concat_of_ne hsame]

end Shelved

end SpanReview
