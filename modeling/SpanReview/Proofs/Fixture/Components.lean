import SpanReview.Proofs.Fixture.Place

namespace SpanReview

/-! A branch may have several names. The fixture of a key still stands below the root, and two
keys share a place only if no more than the extension of the file and the spelling of the
repository tell them apart. -/

namespace FixtureKey

variable {key other : FixtureKey} {stem : String}

/-- A branch of names between slashes, and a file without slashes. -/
structure Nested (key : FixtureKey) : Prop where
  branch : Path.IsTrail key.repository.branch
  file : '/' ∉ key.file.toList

/-- The names from the root of a store to the fixture, for a file of this stem. -/
def namesBelow (key : FixtureKey) (stem : String) : List String :=
  key.repository.directory :: Path.parts key.repository.branch ++
    [key.stage.name, stem ++ ".expected.txt"]

structure SharesPlace (key other : FixtureKey) : Prop where
  directory : key.repository.directory = other.repository.directory
  branch : key.repository.branch = other.repository.branch
  stage : key.stage = other.stage
  stem : ∃ stem, Path.IsStem key.file stem ∧ Path.IsStem other.file stem

theorem stage_name_inj {stage later : Stage} : stage.name = later.name ↔ stage = later := by
  refine ⟨fun h => ?_, congrArg Stage.name⟩
  cases stage with
  | lexer =>
      cases later with
      | lexer => rfl
      | parser => exact absurd h (by decide)
  | parser =>
      cases later with
      | lexer => exact absurd h (by decide)
      | parser => rfl

theorem Nested.isTrail_location (h : key.Nested) : ∀ part ∈ key.location, Path.IsTrail part := by
  simp only [location, folders, List.cons_append, List.nil_append, List.forall_mem_cons]
  exact ⟨(Repository.isName_directory _).isTrail, h.branch, (isName_stage _).isTrail,
    (isName_fixture h.file).isTrail, List.forall_mem_nil _⟩

theorem Nested.parts_location (h : key.Nested) (hstem : Path.IsStem key.file stem) :
    key.location.flatMap Path.parts = key.namesBelow stem := by
  obtain rfl := (Path.isStem_iff h.file).mp hstem
  simp [location, folders, namesBelow,
    Path.parts_of_noSlash (Repository.isName_directory key.repository).noSlash,
    Path.parts_of_noSlash (isName_stage key.stage).noSlash,
    Path.parts_of_noSlash (isName_fixture h.file).noSlash]

theorem Nested.isName_below (h : key.Nested) (hstem : Path.IsStem key.file stem) :
    ∀ name ∈ key.namesBelow stem, Path.IsName name := by
  obtain rfl := (Path.isStem_iff h.file).mp hstem
  simp only [namesBelow, List.forall_mem_append, List.forall_mem_cons]
  exact ⟨⟨Repository.isName_directory _, h.branch.isName⟩, isName_stage _, isName_fixture h.file,
    List.forall_mem_nil _⟩

/-- The names below a root tell the branch, as the stage and the fixture are always the last
two of them. -/
theorem namesBelow_inj {later : String} :
    key.namesBelow stem = other.namesBelow later ↔
      key.repository.directory = other.repository.directory ∧
        key.repository.branch = other.repository.branch ∧ key.stage = other.stage ∧
        stem = later := by
  constructor
  · intro h
    obtain ⟨hfolders, hlast⟩ := List.append_inj' h rfl
    obtain ⟨hdirectory, hbranch⟩ := List.cons.inj hfolders
    obtain ⟨hstage, hfixture⟩ := List.cons.inj hlast
    refine ⟨hdirectory, Path.parts_inj.mp hbranch, stage_name_inj.mp hstage, ?_⟩
    exact (String.append_left_inj _).mp (List.singleton_inj.mp hfixture)
  · rintro ⟨hdirectory, hbranch, hstage, rfl⟩
    simp only [namesBelow, hdirectory, hbranch, hstage]

theorem sharesPlace_iff (hkey : '/' ∉ key.file.toList) (hother : '/' ∉ other.file.toList) :
    key.SharesPlace other ↔
      key.repository.directory = other.repository.directory ∧
        key.repository.branch = other.repository.branch ∧ key.stage = other.stage ∧
        Path.stemOrSelf key.file = Path.stemOrSelf other.file := by
  constructor
  · rintro ⟨hdirectory, hbranch, hstage, stem, hstem, hstem'⟩
    rw [Path.isStem_iff hkey] at hstem
    rw [Path.isStem_iff hother] at hstem'
    exact ⟨hdirectory, hbranch, hstage, hstem.trans hstem'.symm⟩
  · rintro ⟨hdirectory, hbranch, hstage, hstem⟩
    have hboth := Path.isStem_stemOrSelf hkey
    exact ⟨hdirectory, hbranch, hstage, _, hboth, hstem ▸ Path.isStem_stemOrSelf hother⟩

end FixtureKey

namespace FixtureStore

variable {store : FixtureStore} {key other : FixtureKey} {stem : String}

theorem names_pathFor_nested (h : key.Nested) (hstem : Path.IsStem key.file stem) :
    (store.pathFor key).names = store.root.names ++ key.namesBelow stem := by
  rw [pathFor_eq_foldl, Path.names_foldl_join_trails h.isTrail_location, h.parts_location hstem]

theorem toList_pathFor (h : key.Nested) :
    (store.pathFor key).toList =
      store.root.lead ++ ['/'].intercalate (key.location.map String.toList) := by
  rw [pathFor_eq_foldl]
  exact Path.toList_foldl_join h.isTrail_location

theorem names_pathFor_inj (hkey : key.Nested) (hother : other.Nested) :
    (store.pathFor key).names = (store.pathFor other).names ↔ key.SharesPlace other := by
  rw [names_pathFor_nested hkey (Path.isStem_stemOrSelf hkey.file),
    names_pathFor_nested hother (Path.isStem_stemOrSelf hother.file), List.append_cancel_left_eq,
    FixtureKey.namesBelow_inj, FixtureKey.sharesPlace_iff hkey.file hother.file]

/-- The names of a fixture are those of the root, the directory of the repository, the names of
the branch, the stage, and the stem of the file with the extension of a fixture. Nothing in them
leads out of the root. Two keys have one path exactly if directory, branch, stage and stem are
the same. -/
theorem pathFor_components (store : FixtureStore) (hkey : key.Nested) (hother : other.Nested) :
    (∀ stem, Path.IsStem key.file stem →
      (store.pathFor key).names = store.root.names ++ key.namesBelow stem ∧
      (∀ name ∈ key.namesBelow stem, Path.IsName name) ∧
      (store.pathFor key).toList = store.root.lead ++ ['/'].intercalate
        ([key.repository.directory, key.repository.branch, key.stage.name,
          stem ++ ".expected.txt"].map String.toList)) ∧
    (store.pathFor key = store.pathFor other ↔ key.SharesPlace other) ∧
    ((store.pathFor key).names = (store.pathFor other).names ↔ key.SharesPlace other) := by
  have hnames : (store.pathFor key).names = (store.pathFor other).names ↔ key.SharesPlace other :=
    names_pathFor_inj hkey hother
  refine ⟨fun stem hstem => ⟨names_pathFor_nested hkey hstem, hkey.isName_below hstem, ?_⟩,
    ⟨fun hsame => hnames.mp (congrArg Path.names hsame), fun hshares => ?_⟩, hnames⟩
  · obtain rfl := (Path.isStem_iff hkey.file).mp hstem
    exact toList_pathFor hkey
  · obtain ⟨hdirectory, hbranch, hstage, hstem⟩ :=
      (FixtureKey.sharesPlace_iff hkey.file hother.file).mp hshares
    simp only [pathFor, hdirectory, hbranch, hstage, hstem]

/-- A branch that ends like a stage, and files that differ in their last extension. -/
theorem nested_branch_place :
    let store : FixtureStore := ⟨"save"⟩
    let key : String → Stage → String → FixtureKey := fun branch stage file =>
      ⟨⟨"https://github.com/pugjs/pug.git", branch⟩, stage, file⟩
    let long := key "fix/lexer" .parser "a.b.pug"
    let renamed := key "fix/lexer" .parser "a.b.jade"
    let short := key "fix" .lexer "a.b.pug"
    long.Nested ∧ renamed.Nested ∧ short.Nested ∧
      (store.pathFor long).names =
        ["save", "pugjs-pug", "fix", "lexer", "parser", "a.b.expected.txt"] ∧
      store.pathFor long = store.pathFor renamed ∧ store.pathFor long ≠ store.pathFor short := by
  intro store key long renamed short
  have hlong : long.Nested := ⟨by decide +kernel, by decide⟩
  have hrenamed : renamed.Nested := ⟨by decide +kernel, by decide⟩
  have hshort : short.Nested := ⟨by decide +kernel, by decide⟩
  have hlongName : long.file = "a.b" ++ "." ++ "pug" := rfl
  have hstem : Path.IsStem long.file "a.b" := .cut hlongName (by decide) (by decide) (by decide)
  have hrenamedName : renamed.file = "a.b" ++ "." ++ "jade" := rfl
  have hstem' : Path.IsStem renamed.file "a.b" :=
    .cut hrenamedName (by decide) (by decide) (by decide)
  obtain ⟨hbelow, hsame, _⟩ := pathFor_components store hlong hrenamed
  obtain ⟨_, hother, _⟩ := pathFor_components store hlong hshort
  obtain ⟨hnames, _, _⟩ := hbelow "a.b" hstem
  have hrepository : long.repository = renamed.repository := rfl
  have hshares : long.SharesPlace renamed :=
    ⟨congrArg _ hrepository, congrArg _ hrepository, rfl, "a.b", hstem, hstem'⟩
  refine ⟨hlong, hrenamed, hshort, ?_, hsame.mpr hshares, fun hpath => ?_⟩
  · rw [hnames]
    decide +kernel
  · exact absurd (hother.mp hpath).stage (by decide)

end FixtureStore

end SpanReview
