import SpanReview.Proofs.Disk.Tree
import SpanReview.Proofs.Fixture.History

namespace SpanReview.FixtureStore

/-! A save replaces the fixture or leaves it. What a save that fails has changed are directories
above the fixture and the file that was to be moved onto it. -/

variable {store : FixtureStore} {key : FixtureKey} {records : List (Option Span)}
  {disk later : Disk} {place : Location} {e : FixtureError} {path : Path}

theorem draft_ne (store : FixtureStore) (key : FixtureKey) (disk : Disk) :
    disk.target (temporaryPath (store.pathFor key)) ≠ disk.target (store.pathFor key) := by
  obtain ⟨folders, name, _, hplace, hdraft⟩ := targets store key disk
  rw [hplace, hdraft]
  intro hsame
  have hname := List.singleton_inj.mp (List.append_cancel_left hsame)
  have hlength := congrArg String.length hname
  rw [String.length_append] at hlength
  exact absurd hlength (by simp)

theorem length_draft (store : FixtureStore) (key : FixtureKey) (disk : Disk) :
    (disk.target (temporaryPath (store.pathFor key))).length =
      (disk.target (store.pathFor key)).length := by
  obtain ⟨folders, name, _, hplace, hdraft⟩ := targets store key disk
  rw [hplace, hdraft, List.length_append, List.length_append, List.length_singleton,
    List.length_singleton]

/-! What comes with the folders of a fixture. -/

/-- Where the way to the fixture of a key leads through. -/
def Above (store : FixtureStore) (key : FixtureKey) (disk : Disk) (place : Location) : Prop :=
  ∃ above, above <+: (store.pathFor key).names.dropLast ∧
    place = Disk.follow (disk.origin (store.pathFor key)) above

theorem length_lt_of_prefix (disk : Disk) (hup : ".." ∉ (store.pathFor key).names)
    {above : List String}
    (habove : above <+: (store.pathFor key).names) (hne : above ≠ (store.pathFor key).names) :
    (Disk.follow (disk.origin (store.pathFor key)) above).length <
      (disk.target (store.pathFor key)).length := by
  have hshorter : above.length < (store.pathFor key).names.length :=
    Nat.lt_of_le_of_ne habove.length_le fun hsame => hne (habove.eq_of_length hsame)
  rw [Disk.target, Disk.follow_eq_append hup,
    Disk.follow_eq_append fun hmem => hup (habove.subset hmem), List.length_append,
    List.length_append]
  omega

theorem not_above_self (hup : ".." ∉ (store.pathFor key).names) (disk : Disk) :
    ¬ store.Above key disk (disk.target (store.pathFor key)) := by
  rintro ⟨above, habove, hplace⟩
  obtain ⟨folders, name, hnames, _⟩ := targets store key disk
  have hne : above ≠ (store.pathFor key).names := by
    intro hsame
    have hlength := habove.length_le
    rw [hsame, hnames, List.dropLast_concat, List.length_append, List.length_singleton] at hlength
    omega
  have hlength := length_lt_of_prefix disk hup (habove.trans (List.dropLast_prefix _)) hne
  rw [← hplace] at hlength
  exact Nat.lt_irrefl _ hlength

/-- A save that fails stops after the folders were made, or with the fixture written beside its
place. -/
theorem save_error (h : store.save key records disk = (.error e, later)) :
    let made := (disk.makeDirectoriesFor (store.pathFor key)).2
    e = .inaccessible (store.pathFor key) ∧ (later = made ∨
      later = (made.writeText (temporaryPath (store.pathFor key))
        (Fixture.textOf key records)).2) := by
  unfold save at h
  dsimp only at h ⊢
  split at h
  · rename_i made hmade
    cases h
    exact ⟨rfl, .inl (by rw [hmade])⟩
  · rename_i made hmade
    rw [hmade]
    split at h
    · rename_i written hwrite
      cases h
      exact ⟨rfl, .inr (by rw [hwrite])⟩
    · rename_i written hwrite
      split at h
      · rename_i hrename
        cases h
        exact ⟨rfl, .inr (by rw [hwrite, Disk.rename_error hrename])⟩
      · cases h

theorem failed_save_here (h : store.save key records disk = (.error e, later)) :
    later.workingDirectory = disk.workingDirectory := by
  have hmade := (Disk.gains_makeDirectoriesFor disk (store.pathFor key)).here
  obtain ⟨_, hlater | hlater⟩ := save_error h
  · rw [hlater, hmade]
  · rw [hlater, Disk.writeText_here, hmade]

theorem gains_of_failed_save (h : store.save key records disk = (.error e, later))
    (hplace : place ≠ disk.target (temporaryPath (store.pathFor key))) :
    Disk.GainsAt (store.Above key disk) disk later place := by
  have hgains := Disk.gains_makeDirectoriesFor disk (store.pathFor key)
  obtain ⟨_, hlater | hlater⟩ := save_error h
  · rw [hlater]
    exact hgains.gains place
  · rw [hlater]
    refine (hgains.gains place).of_same (Disk.entry?_writeText_of_ne ?_ _)
    rwa [Disk.target_congr hgains.here]

theorem load_congr (h : later.readText (store.pathFor key) = disk.readText (store.pathFor key)) :
    store.load key later = store.load key disk := by
  unfold load
  dsimp only
  rw [h]

theorem load_of_fault {fault : Fault} (hread : disk.readText (store.pathFor key) = .error fault)
    (hthere : fault ≠ .missing) :
    store.load key disk = .error (.inaccessible (store.pathFor key)) := by
  unfold load
  dsimp only
  rw [hread]
  split
  · rename_i hmissing
    exact absurd (Except.error.inj hmissing) hthere
  · rfl
  · rename_i hok
    cases hok

theorem load_of_failed_save (hdisk : disk.IsTree) (hup : ".." ∉ (store.pathFor key).names)
    (h : store.save key records disk = (.error e, later)) :
    store.load key later = store.load key disk ∨
      Disk.HasLongName (store.pathFor key).names ∧ store.load key disk = .ok none ∧
        store.load key later = .error (.inaccessible (store.pathFor key)) := by
  have hhere := gains_of_failed_save h (draft_ne store key disk).symm
  have habove : ∀ above, above <+: (store.pathFor key).names →
      above ≠ (store.pathFor key).names → Disk.GainsAt (store.Above key disk) disk later
        (Disk.follow (disk.origin (store.pathFor key)) above) := by
    intro above hprefix hne
    refine gains_of_failed_save h fun hsame => ?_
    have hlength := length_lt_of_prefix disk hup hprefix hne
    rw [hsame, length_draft] at hlength
    exact Nat.lt_irrefl _ hlength
  have hentry := hhere.entry?_of_not (not_above_self hup disk)
  rcases Disk.readText_gains hdisk hup (failed_save_here h) habove hentry with
    hsame | ⟨hlong, hbefore, hafter⟩
  · exact .inl (load_congr hsame)
  · exact .inr ⟨hlong, load_of_missing hbefore, load_of_fault hafter nofun⟩

theorem isTree_save (hdisk : disk.IsTree) (store : FixtureStore) (key : FixtureKey)
    (records : List (Option Span)) : (store.save key records disk).2.IsTree := by
  have hmade := hdisk.makeDirectoriesFor (store.pathFor key)
  rcases hsave : store.save key records disk with ⟨e | path, later⟩
  · obtain ⟨_, hlater | hlater⟩ := save_error hsave
    · dsimp only
      rw [hlater]
      exact hmade
    · dsimp only
      rw [hlater]
      exact hmade.writeText _ _
  · obtain ⟨_, made, written, hmakes, hwrite, hrename⟩ := save_ok hsave
    have hpath := Path.names_ne_nil (pathFor_endsAtFile store key)
    rw [hmakes] at hmade
    have hwritten := hmade.writeText (temporaryPath (store.pathFor key))
      (Fixture.textOf key records)
    rw [hwrite] at hwritten
    have hmoved := hwritten.rename (temporaryPath (store.pathFor key)) hpath
    rwa [hrename] at hmoved

/-- A disk stays a tree along calls, whether or not they succeed. -/
theorem isTree_after (hdisk : disk.IsTree) (store : FixtureStore) (calls : List StoreCall) :
    (store.after disk calls).IsTree := by
  induction calls generalizing disk with
  | nil => exact hdisk
  | cons call calls ih =>
      rw [after, List.foldl_cons, ← after]
      refine ih ?_
      cases call with
      | save key records =>
          rw [StoreCall.apply]
          exact isTree_save hdisk store key records
      | load key => exact hdisk

/-- After a save that fails every file but the draft is as it was, and so is what the key loads
as, unless its place has a name that no file system takes. Then nothing was loaded before, for
lack of a folder, and with the folder the name is found to be too long. After a save that
succeeds the fixture is the text of the records, the draft is gone and nothing else changed. -/
theorem save_all_or_nothing (hdisk : disk.IsTree) (hup : ".." ∉ (store.pathFor key).names)
    (records : List (Option Span)) :
    let path := store.pathFor key
    let draft := disk.target (path ++ ".tmp")
    (∀ e later, store.save key records disk = (.error e, later) →
      (∀ place, place ≠ draft → later.fileAt? place = disk.fileAt? place) ∧
      (store.load key later = store.load key disk ∨
        Disk.HasLongName path.names ∧ store.load key disk = .ok none ∧
          store.load key later = .error (.inaccessible path))) ∧
    (∀ saved later, store.save key records disk = (.ok saved, later) →
      saved = path ∧
      later.readText path = .ok (Fixture.textOf key records) ∧
      later.fileAt? (disk.target path) = some (Fixture.textOf key records).toUTF8 ∧
      later.entry? draft = none ∧
      ∀ place, place ≠ draft → place ≠ disk.target path →
        later.fileAt? place = disk.fileAt? place) := by
  intro path draft
  have hdraft : draft = disk.target (temporaryPath (store.pathFor key)) := by
    rw [temporaryPath_pathFor]
  rw [hdraft]
  refine ⟨fun e later hsave => ⟨fun place hplace => ?_, load_of_failed_save hdisk hup hsave⟩,
    fun saved later hsave => ?_⟩
  · exact (gains_of_failed_save hsave hplace).fileAt?_eq
  · have hread := readText_of_save hsave
    obtain ⟨rfl, made, written, hmade, hwrite, hrename⟩ := save_ok hsave
    have hgains := Disk.gains_makeDirectoriesFor disk (store.pathFor key)
    rw [hmade] at hgains
    obtain ⟨hfile, hgone, hframe⟩ := Disk.move_written (draft_ne store key made) hwrite hrename
    rw [Disk.target_congr hgains.here] at hfile hgone
    simp only [Disk.target_congr hgains.here] at hframe
    exact ⟨rfl, hread, Disk.fileAt?_eq_some hfile, hgone, fun place hplace hother =>
      (Disk.fileAt?_congr (hframe place hplace hother)).trans (hgains.gains place).fileAt?_eq⟩

def caseKey (file : String) : FixtureKey :=
  ⟨⟨"u", "b"⟩, .lexer, file⟩

/-- The calls leave a directory where the fixture should be written first, so the old one stays.
On the disk before them the same fixture is saved. The root is not in the working directory. -/
theorem occupied_draft_keeps_fixture :
    let store : FixtureStore := ⟨"/srv/save"⟩
    let key := caseKey "a.pug"
    let inside : FixtureKey := ⟨⟨"u", "b/lexer/a.expected.txt.tmp"⟩, .lexer, "x.pug"⟩
    let place := ["srv", "save", "u", "b", "lexer", "a.expected.txt"]
    let occupied := store.after emptyHome [.save key [none], .save inside []]
    let failed := store.save key [] occupied
    let saved := store.save key [] emptyHome
    failed.1 = .error (.inaccessible "/srv/save/u/b/lexer/a.expected.txt") ∧
      failed.2.fileAt? place = some (Fixture.textOf key [none]).toUTF8 ∧
      store.load key failed.2 = store.load key occupied ∧
      saved.1 = .ok "/srv/save/u/b/lexer/a.expected.txt" ∧
      saved.2.fileAt? place = some (Fixture.textOf key []).toUTF8 ∧
      Disk.entry? saved.2 (place.dropLast ++ ["a.expected.txt.tmp"]) = none := by
  intro store key inside place occupied
  have hpath : store.pathFor key = "/srv/save/u/b/lexer/a.expected.txt" := by decide +kernel
  have hnames : (store.pathFor key).names = place := by
    rw [hpath]
    decide +kernel
  have hup : ".." ∉ (store.pathFor key).names := by
    rw [hnames]
    decide
  have hshort : ¬ Disk.HasLongName (store.pathFor key).names := by
    rw [hnames]
    unfold Disk.HasLongName
    decide
  have hhere : emptyHome.IsTree := Disk.isTree_of_entries (by decide +kernel)
  have htree : occupied.IsTree := isTree_after hhere store _
  have htargets : ∀ disk : Disk, disk.target (store.pathFor key) = place ∧
      disk.target (store.pathFor key ++ ".tmp") = place.dropLast ++ ["a.expected.txt.tmp"] := by
    intro disk
    rw [hpath]
    have habsolute : Path.isAbsolute "/srv/save/u/b/lexer/a.expected.txt" = true ∧
        Path.isAbsolute ("/srv/save/u/b/lexer/a.expected.txt" ++ ".tmp") = true := by
      decide +kernel
    simp only [Disk.target, Disk.origin, habsolute, if_true]
    decide +kernel
  have hold : occupied.fileAt? place = some (Fixture.textOf key [none]).toUTF8 := by
    decide +kernel
  have hfails : (store.save key [] occupied).1 =
      .error (.inaccessible "/srv/save/u/b/lexer/a.expected.txt") := by
    decide +kernel
  have hsaves : (store.save key [] emptyHome).1 = .ok "/srv/save/u/b/lexer/a.expected.txt" := by
    decide +kernel
  obtain ⟨herror, _⟩ := save_all_or_nothing htree hup []
  obtain ⟨_, hok⟩ := save_all_or_nothing hhere hup []
  rcases hfailed : store.save key [] occupied with ⟨result, later⟩
  rcases hsaved : store.save key [] emptyHome with ⟨path, last⟩
  rw [hfailed] at hfails
  rw [hsaved] at hsaves
  obtain rfl : result = _ := hfails
  obtain rfl : path = _ := hsaves
  obtain ⟨hfiles, hloads⟩ := herror _ _ hfailed
  obtain ⟨_, _, hfile, hgone, _⟩ := hok _ _ hsaved
  rw [(htargets emptyHome).1] at hfile
  rw [(htargets emptyHome).2] at hgone
  have hplace : place ≠ occupied.target (store.pathFor key ++ ".tmp") := by
    rw [(htargets occupied).2]
    decide
  refine ⟨rfl, (hfiles place hplace).trans hold, ?_, rfl, hfile, hgone⟩
  exact hloads.resolve_right fun hlate => hshort hlate.1

/-! The exception. -/

/-- Where the folders of a fixture can be made and its name is too long, the save fails and
leaves the folders, and from then on the load fails. -/
theorem long_name_fails {folders : Location} {name : String}
    (hup : ".." ∉ (store.pathFor key).names) (hflaw : Disk.flaw? (store.pathFor key) = none)
    (hnames : (store.pathFor key).names = folders ++ [name]) (hfolders : folders ≠ [])
    (hlong : Disk.maxNameBytes < name.utf8ByteSize)
    (hmade : disk.makeDirectoriesFor (store.pathFor key) = (.ok (), later))
    (records : List (Option Span)) :
    store.save key records disk = (.error (.inaccessible (store.pathFor key)), later) ∧
      store.load key later = .error (.inaccessible (store.pathFor key)) := by
  have hname : name ≠ ".." := by
    rintro rfl
    exact hup (hnames ▸ List.mem_concat_self)
  have hlocate := Disk.locate_of_long_name hflaw hmade hnames hfolders hname hlong
  refine ⟨?_, load_of_fault (Disk.readText_of_lost hlocate) nofun⟩
  obtain ⟨above, stem, hpath⟩ := endsWith_pathFor store key
  have htemporary := hpath.append ".tmp" (c := 't') (by decide) (by decide) (by decide)
  obtain ⟨hsplit, hlast⟩ := List.append_inj' (hpath.names_eq.symm.trans hnames) rfl
  obtain rfl := List.singleton_inj.mp hlast
  have hdropped : (store.pathFor key).names.dropLast = folders := by
    rw [hnames, List.dropLast_concat]
  obtain ⟨place, hfound, hentry⟩ := Disk.folders_of_made (by rwa [hdropped]) hmade
  rw [hdropped] at hfound
  have hlonger : Disk.maxNameBytes < (stem ++ ".expected.txt" ++ ".tmp").utf8ByteSize := by
    rw [String.utf8ByteSize_append]
    exact Nat.lt_add_right _ hlong
  have hlost : later.descend (later.origin (store.pathFor key ++ ".tmp"))
      (Path.names (store.pathFor key ++ ".tmp")) = .error .nameTooLong := by
    rw [htemporary.names_eq, hsplit, Disk.origin, hpath.isAbsolute_append, ← Disk.origin]
    exact Disk.descend_of_long_name hfound hentry htemporary.name.notUp hlonger
  obtain ⟨fault, hwrite⟩ := Disk.write_of_unfollowed hlost (Fixture.textOf key records)
  unfold save
  dsimp only
  rw [hmade, temporaryPath_pathFor]
  dsimp only
  rw [hwrite]

section LongName

variable {file : String}

theorem endsWith_caseKey (hslash : '/' ∉ file.toList) :
    (pathFor ⟨"save"⟩ (caseKey file)).EndsWith "save/u/b/lexer/".toList
      (Path.stemOrSelf file ++ ".expected.txt") := by
  have hlead : (((Path.join "save" (Repository.directory ⟨"u", "b"⟩)).join "b").join
      "lexer").lead = "save/u/b/lexer/".toList := by
    decide +kernel
  rw [← hlead]
  have hfile : '/' ∉ (caseKey file).file.toList := hslash
  exact Path.endsWith_join (FixtureKey.isName_fixture hfile)

theorem names_caseKey (hslash : '/' ∉ file.toList) :
    (pathFor ⟨"save"⟩ (caseKey file)).names =
      ["save", "u", "b", "lexer"] ++ [Path.stemOrSelf file ++ ".expected.txt"] := by
  have hfolders : (Path.pieces "save/u/b/lexer/".toList).map String.ofList =
      ["save", "u", "b", "lexer"] := by
    decide +kernel
  rw [(endsWith_caseKey hslash).names_eq, hfolders]

theorem flaw?_caseKey (hslash : '/' ∉ file.toList) (hzero : '\x00' ∉ (Path.stemOrSelf file).toList)
    (hshort : (Path.stemOrSelf file).utf8ByteSize ≤ 4000) :
    Disk.flaw? (pathFor ⟨"save"⟩ (caseKey file)) = none := by
  have htext : pathFor ⟨"save"⟩ (caseKey file) =
      "save/u/b/lexer/" ++ (Path.stemOrSelf file ++ ".expected.txt") := by
    rw [← String.toList_inj, (endsWith_caseKey hslash).text]
    simp only [String.toList_append]
  have hclean : (pathFor ⟨"save"⟩ (caseKey file)).toList.contains '\x00' = false := by
    rw [htext]
    simp [String.toList_append, hzero]
  have hfits : ¬ Disk.maxPathBytes < (pathFor ⟨"save"⟩ (caseKey file)).utf8ByteSize := by
    have hstarts : ("save/u/b/lexer/").utf8ByteSize = 15 := by decide
    have hends : (".expected.txt").utf8ByteSize = 13 := by decide
    rw [htext, String.utf8ByteSize_append, String.utf8ByteSize_append, hstarts, hends,
      Disk.maxPathBytes]
    omega
  rw [Disk.flaw?, hclean, if_neg hfits]
  rfl

theorem makeFolders_caseKey (hslash : '/' ∉ file.toList) :
    ∃ later, Disk.empty.makeDirectoriesFor (pathFor ⟨"save"⟩ (caseKey file)) = (.ok (), later) := by
  have hends := endsWith_caseKey hslash
  have hparent : (pathFor ⟨"save"⟩ (caseKey file)).parent = "save/u/b/lexer" := by
    rw [hends.parent]
    decide +kernel
  have hcount : (pathFor ⟨"save"⟩ (caseKey file)).names.length - 1 = 4 := by
    rw [names_caseKey hslash]
    rfl
  have hmade : (Disk.empty.makeDirectoriesUp
      ("save/u/b/lexer" :: Path.parents "save/u/b/lexer" 3)).1 = .ok () := by
    decide +kernel
  rw [Disk.makeDirectoriesFor, Path.directoriesAbove, hcount, Path.parents, hparent]
  generalize Disk.makeDirectoriesUp _ _ = made at hmade
  obtain ⟨result, later⟩ := made
  exact ⟨later, congrArg (·, later) hmade⟩

theorem load_caseKey_empty (hslash : '/' ∉ file.toList)
    (hflaw : Disk.flaw? (pathFor ⟨"save"⟩ (caseKey file)) = none) :
    load ⟨"save"⟩ (caseKey file) Disk.empty = .ok none := by
  refine load_of_missing (Disk.readText_missing hflaw (.inr ?_))
  have horigin : Disk.empty.origin (pathFor ⟨"save"⟩ (caseKey file)) = [] := by
    rw [Disk.origin]
    split <;> rfl
  rw [names_caseKey hslash, horigin]
  rfl

theorem caseKey_found_late (hslash : '/' ∉ file.toList)
    (hzero : '\x00' ∉ (Path.stemOrSelf file).toList)
    (hlong : 242 < (Path.stemOrSelf file).utf8ByteSize)
    (hshort : (Path.stemOrSelf file).utf8ByteSize ≤ 4000) :
    let path := pathFor ⟨"save"⟩ (caseKey file)
    ".." ∉ path.names ∧ load ⟨"save"⟩ (caseKey file) Disk.empty = .ok none ∧
      ∃ later, save ⟨"save"⟩ (caseKey file) [] Disk.empty = (.error (.inaccessible path), later) ∧
        load ⟨"save"⟩ (caseKey file) later = .error (.inaccessible path) := by
  intro path
  have hflaw := flaw?_caseKey hslash hzero hshort
  have hnames := names_caseKey hslash
  have hup : ".." ∉ path.names := by
    rw [hnames, List.mem_append, List.mem_singleton]
    exact not_or.mpr ⟨by decide, (endsWith_caseKey hslash).name.notUp.symm⟩
  have hsize : Disk.maxNameBytes < (Path.stemOrSelf file ++ ".expected.txt").utf8ByteSize := by
    have hends : (".expected.txt").utf8ByteSize = 13 := by decide
    rw [String.utf8ByteSize_append, hends, Disk.maxNameBytes]
    omega
  obtain ⟨later, hmade⟩ := makeFolders_caseKey hslash
  exact ⟨hup, load_caseKey_empty hslash hflaw, later,
    long_name_fails hup hflaw hnames (List.cons_ne_nil _ _) hsize hmade []⟩

theorem stemOrSelf_pug {stem : String} (hslash : '/' ∉ (stem ++ ".pug").toList)
    (hstem : stem ≠ "") : Path.stemOrSelf (stem ++ ".pug") = stem := by
  have hparts : stem ++ ".pug" = stem ++ "." ++ "pug" := by
    rw [String.append_assoc]
    rfl
  have hup : stem ++ ".pug" ≠ ".." := by
    intro hdots
    have hlast := congrArg (fun name => name.toList.getLast?) hdots
    simp [String.toList_append, List.getLast?_append] at hlast
  exact (Path.isStem_iff hslash).mp (.cut hparts (by decide) hstem hup)

end LongName

/-- The name of the fixture has 256 bytes. Nothing is found while its folders are not there. -/
theorem long_name_found_late :
    let store : FixtureStore := ⟨"save"⟩
    let key := caseKey (String.ofList (List.replicate 243 'a') ++ ".pug")
    Disk.empty.IsTree ∧ ".." ∉ (store.pathFor key).names ∧
      store.load key Disk.empty = .ok none ∧
      ∃ later, store.save key [] Disk.empty = (.error (.inaccessible (store.pathFor key)), later) ∧
        store.load key later = .error (.inaccessible (store.pathFor key)) := by
  intro store key
  have hsize : (String.ofList (List.replicate 243 'a')).utf8ByteSize = 243 := by decide +kernel
  have hletters : ∀ c ∈ (String.ofList (List.replicate 243 'a')).toList, c = 'a' := by
    rw [String.toList_ofList]
    exact fun c hc => List.eq_of_mem_replicate hc
  have hslash : '/' ∉ (String.ofList (List.replicate 243 'a') ++ ".pug").toList := by
    rw [String.toList_append, List.mem_append]
    exact not_or.mpr ⟨fun hc => absurd (hletters _ hc) (by decide), by decide⟩
  have hempty : String.ofList (List.replicate 243 'a') ≠ "" := by
    intro hnil
    rw [hnil] at hsize
    exact absurd hsize (by decide)
  have hstem := stemOrSelf_pug hslash hempty
  refine ⟨Disk.isTree_empty, caseKey_found_late hslash ?_ ?_ ?_⟩
  · rw [hstem]
    exact fun hc => absurd (hletters _ hc) (by decide)
  · rw [hstem, hsize]
    decide
  · rw [hstem, hsize]
    decide

end SpanReview.FixtureStore
