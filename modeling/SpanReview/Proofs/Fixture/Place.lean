import SpanReview.Proofs.Fixture.Store
import SpanReview.Proofs.Repository

namespace SpanReview

/-! Where a store keeps the fixture of a key. Keys share a place on purpose, but no place is
the one where another fixture is written before it is moved. -/

namespace FixtureKey

variable {key other : FixtureKey}

/-- A branch that is one name, and a file without slashes. -/
structure Plain (key : FixtureKey) : Prop where
  branch : Path.IsName key.repository.branch
  file : '/' ∉ key.file.toList

def folders (key : FixtureKey) : Location :=
  [key.repository.directory, key.repository.branch, key.stage.name]

/-- The names from the root of a store to the fixture of a key. -/
def location (key : FixtureKey) : Location :=
  key.folders ++ [Path.stemOrSelf key.file ++ ".expected.txt"]

/-- The names to where the fixture is written first. -/
def temporaryLocation (key : FixtureKey) : Location :=
  key.folders ++ [Path.stemOrSelf key.file ++ ".expected.txt.tmp"]

theorem length_location (key : FixtureKey) : key.location.length = 4 :=
  rfl

theorem length_temporaryLocation (key : FixtureKey) : key.temporaryLocation.length = 4 :=
  rfl

theorem temporaryLocation_ne (key other : FixtureKey) : key.temporaryLocation ≠ other.location := by
  intro hsame
  have hname := congrArg List.getLast? hsame
  rw [temporaryLocation, location, List.getLast?_concat, List.getLast?_concat] at hname
  have hlast := congrArg (fun name => name.toList.getLast?) (Option.some.inj hname)
  simp [String.toList_append, List.getLast?_append] at hlast

theorem isName_stage (stage : Stage) : Path.IsName stage.name := by
  cases stage with
  | lexer => exact Path.isName_of_mem (c := 'l') (by decide) (by decide) (by decide)
  | parser => exact Path.isName_of_mem (c := 'p') (by decide) (by decide) (by decide)

theorem isName_fixture (h : '/' ∉ key.file.toList) :
    Path.IsName (Path.stemOrSelf key.file ++ ".expected.txt") := by
  refine @Path.isName_of_mem _ 't' ?_ (by decide) ?_
  · rw [String.toList_append]
    exact List.mem_append_right _ (by decide)
  · rw [String.toList_append, List.mem_append]
    exact not_or.mpr ⟨Path.noSlash_stemOrSelf h, by decide⟩

theorem Plain.isName_folder (h : key.Plain) : ∀ name ∈ key.folders, Path.IsName name := by
  simp only [folders, List.forall_mem_cons]
  exact ⟨Repository.isName_directory _, h.branch, isName_stage _, List.forall_mem_nil _⟩

theorem Plain.isName_location (h : key.Plain) : ∀ name ∈ key.location, Path.IsName name := by
  rw [location, List.forall_mem_append, List.forall_mem_singleton]
  exact ⟨h.isName_folder, isName_fixture h.file⟩

end FixtureKey

namespace FixtureStore

variable {store : FixtureStore} {key other : FixtureKey}

theorem pathFor_eq_foldl (store : FixtureStore) (key : FixtureKey) :
    store.pathFor key = key.location.foldl Path.join store.root := by
  simp only [pathFor, FixtureKey.location, FixtureKey.folders, List.cons_append, List.nil_append,
    List.foldl_cons, List.foldl_nil]

theorem names_pathFor (h : key.Plain) :
    (store.pathFor key).names = store.root.names ++ key.location := by
  rw [pathFor_eq_foldl, Path.names_foldl_join h.isName_location]

theorem dropLast_names_pathFor (h : key.Plain) :
    (store.pathFor key).names.dropLast = store.root.names ++ key.folders := by
  rw [names_pathFor h, FixtureKey.location, ← List.append_assoc, List.dropLast_concat]

theorem origin_pathFor (h : key.Plain) (disk : Disk) :
    disk.origin (store.pathFor key) = disk.origin store.root := by
  rw [Disk.origin, Disk.origin, pathFor_eq_foldl, Path.isAbsolute_foldl_join h.isName_location]

theorem target_pathFor (h : key.Plain) (disk : Disk) :
    disk.target (store.pathFor key) = disk.target store.root ++ key.location := by
  rw [Disk.target, origin_pathFor h, names_pathFor h, Disk.follow_append,
    Disk.follow_eq_append (Path.up_not_mem h.isName_location)]
  rfl

theorem pathFor_eq_iff (hkey : key.Plain) (hother : other.Plain) :
    store.pathFor key = store.pathFor other ↔ key.location = other.location := by
  refine ⟨fun hsame => ?_, fun hsame => ?_⟩
  · have hnames := congrArg Path.names hsame
    rw [names_pathFor hkey, names_pathFor hother] at hnames
    exact List.append_cancel_left hnames
  · rw [pathFor_eq_foldl, pathFor_eq_foldl, hsame]

/-! Where a fixture is written first. -/

theorem endsWith_pathFor (store : FixtureStore) (key : FixtureKey) :
    ∃ folders stem, (store.pathFor key).EndsWith folders (stem ++ ".expected.txt") := by
  obtain ⟨before, hbefore⟩ := Path.join_endsWith
    (((Path.join store.root key.repository.directory).join key.repository.branch).join
      key.stage.name) (Path.stemOrSelf key.file ++ ".expected.txt")
  rw [String.toList_append, ← List.append_assoc] at hbefore
  exact Path.exists_endsWith (c := 't') hbefore (by decide) (by decide) (by decide)

theorem temporaryPath_pathFor (store : FixtureStore) (key : FixtureKey) :
    temporaryPath (store.pathFor key) = store.pathFor key ++ ".tmp" := by
  obtain ⟨folders, stem, hpath⟩ := endsWith_pathFor store key
  have hname : stem ++ ".expected.txt" = stem ++ ".expected" ++ "." ++ "txt" := by
    rw [String.append_assoc, String.append_assoc]
    rfl
  have hstem : stem ++ ".expected" ≠ "" := by
    intro hempty
    have hlength := congrArg String.length hempty
    rw [String.length_append] at hlength
    exact absurd hlength (by simp)
  have hcut : Path.cutAtDot (stem ++ ".expected.txt") = some (stem ++ ".expected", "txt") := by
    rw [hname]
    exact Path.cutAtDot_append hstem (by decide)
  have hwhole : store.pathFor key = String.ofList folders ++ (stem ++ ".expected.txt") := by
    rw [← String.toList_inj, hpath.text]
    simp [String.toList_append]
  have hlonger : "txt.tmp" = "txt" ++ ".tmp" := rfl
  rw [temporaryPath, hpath.withExtension hcut, hwhole, hname, hlonger]
  simp only [String.append_assoc]

/-- Where the fixture of a key is written first is beside its place. -/
theorem names_temporaryPath (store : FixtureStore) (key : FixtureKey) :
    ∃ folders name, Path.IsName name ∧ Path.IsName (name ++ ".tmp") ∧
      (store.pathFor key).names = folders ++ [name] ∧
      (temporaryPath (store.pathFor key)).names = folders ++ [name ++ ".tmp"] := by
  obtain ⟨folders, stem, hpath⟩ := endsWith_pathFor store key
  have htemporary := hpath.append ".tmp" (c := 't') (by decide) (by decide) (by decide)
  rw [temporaryPath_pathFor]
  exact ⟨_, _, hpath.name, htemporary.name, hpath.names_eq, htemporary.names_eq⟩

theorem origin_temporaryPath (store : FixtureStore) (key : FixtureKey) (disk : Disk) :
    disk.origin (temporaryPath (store.pathFor key)) = disk.origin (store.pathFor key) := by
  obtain ⟨folders, stem, hpath⟩ := endsWith_pathFor store key
  rw [temporaryPath_pathFor, Disk.origin, Disk.origin, hpath.isAbsolute_append]

theorem targets (store : FixtureStore) (key : FixtureKey) (disk : Disk) :
    ∃ folders name, (store.pathFor key).names = folders ++ [name] ∧
      disk.target (store.pathFor key) =
        Disk.follow (disk.origin (store.pathFor key)) folders ++ [name] ∧
      disk.target (temporaryPath (store.pathFor key)) =
        Disk.follow (disk.origin (store.pathFor key)) folders ++ [name ++ ".tmp"] := by
  obtain ⟨folders, name, hname, hdraft, hpath, htemporary⟩ := names_temporaryPath store key
  refine ⟨folders, name, hpath, ?_, ?_⟩
  · rw [Disk.target, hpath, Disk.follow_append]
    exact Disk.stepTo_name hname.notUp
  · rw [Disk.target, htemporary, Disk.follow_append, origin_temporaryPath]
    exact Disk.stepTo_name hdraft.notUp

theorem target_temporaryPath (h : key.Plain) (disk : Disk) :
    disk.target (temporaryPath (store.pathFor key)) =
      disk.target store.root ++ key.temporaryLocation := by
  obtain ⟨folders, name, _, hplace, hdraft⟩ := targets store key disk
  rw [target_pathFor h, FixtureKey.location, ← List.append_assoc] at hplace
  obtain ⟨hfolders, hname⟩ := List.append_inj' hplace rfl
  have htext : ".expected.txt.tmp" = ".expected.txt" ++ ".tmp" := rfl
  rw [hdraft, ← hfolders, ← List.singleton_inj.mp hname, FixtureKey.temporaryLocation, htext,
    ← String.append_assoc, List.append_assoc]

end FixtureStore

end SpanReview
