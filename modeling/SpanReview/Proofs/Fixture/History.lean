import SpanReview.Proofs.Disk.Directories
import SpanReview.Proofs.Fixture.Place

namespace SpanReview

/-! A store over a history of saves and loads is a map from places to what was last saved
there, and what was saved for another key is never given out. -/

inductive StoreCall where
  | save (key : FixtureKey) (records : List (Option Span))
  | load (key : FixtureKey)

namespace StoreCall

def apply (store : FixtureStore) (disk : Disk) : StoreCall → Disk
  | .save key records => (store.save key records disk).2
  | .load _ => disk

def Succeeds (store : FixtureStore) (disk : Disk) : StoreCall → Prop
  | .save key records => (store.save key records disk).1.isOk
  | .load _ => True

/-- A key with plain names, and records that a fixture can hold. -/
def Plain : StoreCall → Prop
  | .save key records => key.Plain ∧ ∀ span, some span ∈ records → span.Recordable
  | .load key => key.Plain

/-- What a call saved, if it went to a path. -/
def savedAt? (store : FixtureStore) (path : Path) :
    StoreCall → Option (FixtureKey × List (Option Span))
  | .save key records => if store.pathFor key = path then some (key, records) else none
  | .load _ => none

end StoreCall

namespace FixtureStore

def after (store : FixtureStore) (disk : Disk) (calls : List StoreCall) : Disk :=
  calls.foldl (StoreCall.apply store) disk

/-- Every save of a history succeeds on the disk that it finds. -/
def Succeed (store : FixtureStore) : Disk → List StoreCall → Prop
  | _, [] => True
  | disk, call :: calls => call.Succeeds store disk ∧ store.Succeed (call.apply store disk) calls

/-- The latest save that went to a path. -/
def lastSaved? (store : FixtureStore) (path : Path) (calls : List StoreCall) :
    Option (FixtureKey × List (Option Span)) :=
  calls.reverse.findSome? (StoreCall.savedAt? store path)

variable {store : FixtureStore} {key other : FixtureKey} {base : Location} {disk later : Disk}
  {calls : List StoreCall} {path : Path}

theorem lastSaved?_concat (calls : List StoreCall) (call : StoreCall) :
    store.lastSaved? path (calls ++ [call]) =
      (call.savedAt? store path).or (store.lastSaved? path calls) := by
  rw [lastSaved?, List.reverse_append, List.reverse_singleton, List.singleton_append,
    List.findSome?_cons]
  cases call.savedAt? store path <;> rfl

theorem lastSaved?_save (records : List (Option Span)) (h : store.pathFor key = path) :
    store.lastSaved? path (calls ++ [.save key records]) = some (key, records) := by
  rw [lastSaved?_concat, StoreCall.savedAt?, if_pos h, Option.some_or]

theorem lastSaved?_save_of_ne (records : List (Option Span)) (h : store.pathFor key ≠ path) :
    store.lastSaved? path (calls ++ [.save key records]) = store.lastSaved? path calls := by
  rw [lastSaved?_concat, StoreCall.savedAt?, if_neg h, Option.none_or]

/-! What stands below the root. -/

/-- A key's place holds what was last saved there, and nothing if nothing was. -/
def Keeps (store : FixtureStore) (base : Location) (disk : Disk) (key : FixtureKey) :
    Option (FixtureKey × List (Option Span)) → Prop
  | none => disk.entry? (base ++ key.location) = none
  | some (saved, records) =>
      disk.locate (store.pathFor key) = .ok (base ++ key.location) ∧
        disk.entry? (base ++ key.location) =
          some (.file (Fixture.textOf saved records).toUTF8) ∧
        ∀ span, some span ∈ records → span.Recordable

/-- The disk after a history of saves, as far as it lies below the root. -/
structure Shelf (store : FixtureStore) (base : Location) (calls : List StoreCall)
    (disk : Disk) : Prop where
  root : disk.LeadsTo store.root base
  folders : ∀ names, names.length < 4 → disk.NoFileAt (base ++ names)
  keeps : ∀ key, key.Plain →
    store.Keeps base disk key (store.lastSaved? (store.pathFor key) calls)

theorem Keeps.frame {saved : Option (FixtureKey × List (Option Span))}
    (h : store.Keeps base disk key saved) (hkeeps : disk.KeepsDirectories later)
    (hentry : later.entry? (base ++ key.location) = disk.entry? (base ++ key.location)) :
    store.Keeps base later key saved := by
  cases saved with
  | none => exact hentry.trans h
  | some saved =>
      obtain ⟨hlocate, hfile, hrecords⟩ := h
      exact ⟨hkeeps.locate hlocate, hentry.trans hfile, hrecords⟩

/-- A place where no fixture is kept. -/
def OffShelf (base place : Location) : Prop :=
  ∀ names, names.length = 4 → place ≠ base ++ names

theorem offShelf_of_length (base : Location) {names : List String} (h : names.length < 4) :
    OffShelf base (base ++ names) := by
  intro other hother hsame
  rw [List.append_cancel_left hsame] at h
  omega

/-- What a save that succeeds does: apart from the fixture and the place where it was written
first, only directories above them come. -/
structure SaveEffect (store : FixtureStore) (base : Location) (key : FixtureKey)
    (records : List (Option Span)) (disk later : Disk) : Prop where
  keepsDirectories : disk.KeepsDirectories later
  place : later.locate (store.pathFor key) = .ok (base ++ key.location)
  file : later.entry? (base ++ key.location) = some (.file (Fixture.textOf key records).toUTF8)
  draft : later.entry? (base ++ key.temporaryLocation) = none
  elsewhere : ∀ place, place ≠ base ++ key.location → place ≠ base ++ key.temporaryLocation →
    Disk.GainsAt (OffShelf base) disk later place

theorem gains_makeFolders (hroot : disk.LeadsTo store.root base) (hkey : key.Plain) :
    Disk.GainsDirectories (OffShelf base) disk
      (disk.makeDirectoriesFor (store.pathFor key)).2 := by
  have hgains := Disk.gains_makeDirectoriesFor disk (store.pathFor key)
  refine ⟨hgains.here, fun place => (hgains.gains place).imp_right ?_⟩
  rintro ⟨hnone, hnew, above, habove, hplace⟩
  refine ⟨hnone, hnew, ?_⟩
  rw [dropLast_names_pathFor hkey] at habove
  rw [origin_pathFor hkey] at hplace
  rcases hroot.cut (Path.up_not_mem hkey.isName_folder) habove with
    hhigh | ⟨rest, hrest, hfollow, _⟩
  · intro names hnames
    rw [hplace]
    exact hroot.outside above hhigh names (List.ne_nil_of_length_pos (by omega))
  · rw [hplace, hfollow]
    exact offShelf_of_length base (Nat.lt_succ_of_le hrest.length_le)

theorem saveEffect_of_ok (hroot : disk.LeadsTo store.root base) (hkey : key.Plain)
    {records : List (Option Span)} (hsave : store.save key records disk = (.ok path, later)) :
    store.SaveEffect base key records disk later := by
  obtain ⟨_, made, written, hmade, hwrite, hrename⟩ := save_ok hsave
  have hgains := gains_makeFolders hroot hkey
  rw [hmade] at hgains
  have hbase : made.target store.root = base :=
    (Disk.target_congr hgains.here store.root).trans hroot.leads
  have hplace : made.target (store.pathFor key) = base ++ key.location := by
    rw [target_pathFor hkey, hbase]
  have hdraft :
      made.target (temporaryPath (store.pathFor key)) = base ++ key.temporaryLocation := by
    rw [target_temporaryPath hkey, hbase]
  have hne : base ++ key.temporaryLocation ≠ base ++ key.location := fun hsame =>
    key.temporaryLocation_ne key (List.append_cancel_left hsame)
  obtain ⟨_, toPlace, _, hto, _, hkeeps, _⟩ := Disk.write_rename_ok hwrite hrename
  obtain ⟨hfile, hgone, hframe⟩ := Disk.move_written (by rwa [hplace, hdraft]) hwrite hrename
  rw [hplace] at hfile
  rw [hdraft] at hgone
  obtain rfl : toPlace = base ++ key.location := by
    rw [Disk.eq_target_of_locate hto, Disk.target_congr hkeeps.here, hplace]
  refine ⟨hgains.keepsDirectories.trans hkeeps, hto, hfile, hgone,
    fun place hother htemporary => ?_⟩
  exact (hgains.gains place).of_same
    (hframe place (by rwa [hdraft]) (by rwa [hplace]))

theorem SaveEffect.root {records : List (Option Span)} (hroot : disk.LeadsTo store.root base)
    (h : store.SaveEffect base key records disk later) : later.LeadsTo store.root base := by
  refine hroot.keeps h.keepsDirectories.here fun above habove => ?_
  have houtside := hroot.outside above habove
  refine (h.elsewhere _ (houtside _ ?_) (houtside _ ?_)).noFileAt (hroot.free above habove)
  · exact List.ne_nil_of_length_pos (by rw [key.length_location]; omega)
  · exact List.ne_nil_of_length_pos (by rw [key.length_temporaryLocation]; omega)

namespace Shelf

theorem start (h : disk.EmptyAt store.root base) : store.Shelf base [] disk where
  root := h.root
  folders := by
    intro names _
    by_cases hnames : names = []
    · rw [hnames, List.append_nil]
      exact h.root.noFile
    · intro content hfile
      rw [h.nothing names hnames] at hfile
      contradiction
  keeps := by
    intro key _
    exact h.nothing key.location (List.ne_nil_of_length_pos (by rw [key.length_location]; omega))

theorem save (h : store.Shelf base calls disk) (hkey : key.Plain)
    {records : List (Option Span)} (hrecords : ∀ span, some span ∈ records → span.Recordable)
    (hsave : store.save key records disk = (.ok path, later)) :
    store.Shelf base (calls ++ [.save key records]) later := by
  have heffect := saveEffect_of_ok h.root hkey hsave
  refine ⟨heffect.root h.root, fun names hlength => ?_, fun other hother => ?_⟩
  · have hoff := offShelf_of_length base hlength
    exact (heffect.elsewhere _ (hoff _ key.length_location)
      (hoff _ key.length_temporaryLocation)).noFileAt (h.folders names hlength)
  · by_cases hsame : store.pathFor key = store.pathFor other
    · rw [lastSaved?_save records hsame]
      have hlocation := (pathFor_eq_iff hkey hother).mp hsame
      refine ⟨?_, ?_, hrecords⟩
      · rw [← hsame, ← hlocation]
        exact heffect.place
      · rw [← hlocation]
        exact heffect.file
    · rw [lastSaved?_save_of_ne records hsame]
      have hlocation : base ++ other.location ≠ base ++ key.location := fun hplace =>
        hsame ((pathFor_eq_iff hkey hother).mpr (List.append_cancel_left hplace).symm)
      have htemporary : base ++ other.location ≠ base ++ key.temporaryLocation := fun hplace =>
        key.temporaryLocation_ne other (List.append_cancel_left hplace).symm
      have hkept : ¬ OffShelf base (base ++ other.location) := fun hoff =>
        hoff _ other.length_location rfl
      exact (h.keeps other hother).frame heffect.keepsDirectories
        ((heffect.elsewhere _ hlocation htemporary).entry?_of_not hkept)

theorem load (h : store.Shelf base calls disk) (key : FixtureKey) :
    store.Shelf base (calls ++ [.load key]) disk where
  root := h.root
  folders := h.folders
  keeps := by
    intro other hother
    rw [lastSaved?_concat]
    exact h.keeps other hother

theorem step (h : store.Shelf base calls disk) {call : StoreCall} (hplain : call.Plain)
    (hsucceeds : call.Succeeds store disk) :
    store.Shelf base (calls ++ [call]) (call.apply store disk) := by
  cases call with
  | save key records =>
      obtain ⟨hkey, hrecords⟩ := hplain
      change Except.isOk (store.save key records disk).1 = true at hsucceeds
      rw [StoreCall.apply]
      generalize hsave : store.save key records disk = outcome at hsucceeds ⊢
      obtain ⟨_ | path, later⟩ := outcome
      · cases hsucceeds
      · exact h.save hkey hrecords hsave
  | load key => exact h.load key

theorem after (h : store.Shelf base calls disk) {more : List StoreCall}
    (hplain : ∀ call ∈ more, call.Plain) (hsucceed : store.Succeed disk more) :
    store.Shelf base (calls ++ more) (store.after disk more) := by
  induction more generalizing calls disk with
  | nil =>
      rw [List.append_nil]
      exact h
  | cons call more ih =>
      obtain ⟨hcall, hmore⟩ := List.forall_mem_cons.mp hplain
      obtain ⟨hfirst, hrest⟩ := hsucceed
      have hall := ih (h.step hcall hfirst) hmore hrest
      rwa [List.append_assoc, List.singleton_append] at hall

theorem noFile_above (h : store.Shelf base calls disk) (hkey : key.Plain) {above : List String}
    (habove : above <+: (store.pathFor key).names) (hne : above ≠ (store.pathFor key).names) :
    disk.NoFileAt (Disk.follow (disk.origin (store.pathFor key)) above) := by
  rw [names_pathFor hkey] at habove hne
  rw [origin_pathFor hkey]
  rcases h.root.cut (Path.up_not_mem hkey.isName_location) habove with
    hhigh | ⟨rest, hrest, hfollow, rfl⟩
  · exact h.root.free above hhigh
  · have hlength : rest.length ≠ key.location.length := fun hsame =>
      hne (by rw [hrest.eq_of_length hsame])
    rw [hfollow]
    exact h.folders rest (Nat.lt_of_le_of_ne hrest.length_le hlength)

theorem load_unsaved (h : store.Shelf base calls disk) (hkey : key.Plain)
    (htakes : Disk.Takes (store.pathFor key))
    (hsaved : store.lastSaved? (store.pathFor key) calls = none) :
    store.load key disk = .ok none := by
  have hnothing := h.keeps key hkey
  rw [hsaved] at hnothing
  refine load_of_missing (Disk.readText_missing htakes.flawless ?_)
  rcases Disk.descend_of_free htakes.short fun above => h.noFile_above hkey with
    hthere | hmissing
  · refine .inl ⟨_, hthere, ?_⟩
    rw [← Disk.target, target_pathFor hkey, h.root.leads, hnothing]
  · exact .inr hmissing

theorem load_saved (h : store.Shelf base calls disk) (hkey : key.Plain) {saved : FixtureKey}
    {records : List (Option Span)}
    (hsaved : store.lastSaved? (store.pathFor key) calls = some (saved, records)) :
    store.load key disk =
      if saved = key then .ok (some ⟨key, records⟩)
      else .error (.corrupt (store.pathFor key) key.header saved.header) := by
  have hkeeps := h.keeps key hkey
  rw [hsaved] at hkeeps
  obtain ⟨hlocate, hfile, hrecords⟩ := hkeeps
  have hread := Disk.readText_of_bytes
    (Disk.readBytes_of_file hlocate hfile (pathFor_endsAtFile store key))
  split
  · rename_i hsame
    subst hsame
    exact load_of_text rfl hread (Fixture.parse_textOf _ hrecords)
  · rename_i hother
    exact load_of_flaw hread (Fixture.parse_textOf_other _ hother hrecords)

theorem load_eq (h : store.Shelf base calls disk) (hkey : key.Plain)
    (htakes : Disk.Takes (store.pathFor key)) :
    store.load key disk =
      match store.lastSaved? (store.pathFor key) calls with
      | none => .ok none
      | some (saved, records) =>
          if saved = key then .ok (some ⟨key, records⟩)
          else .error (.corrupt (store.pathFor key) key.header saved.header) := by
  cases hsaved : store.lastSaved? (store.pathFor key) calls with
  | none => exact h.load_unsaved hkey htakes hsaved
  | some saved => exact h.load_saved hkey hsaved

end Shelf

/-- On a root that is empty at first, after saves that all succeed: a load gives nothing if
nothing was saved to its place, the records that were last saved there if that was for its own
key, and else it fails. A call that saves nothing there does not change that. -/
theorem load_after_calls (hroot : disk.EmptyAt store.root base)
    (hcalls : ∀ call ∈ calls, call.Plain) (hsucceed : store.Succeed disk calls)
    (hkey : key.Plain) (htakes : Disk.Takes (store.pathFor key)) :
    store.load key (store.after disk calls) =
      (match store.lastSaved? (store.pathFor key) calls with
      | none => .ok none
      | some (saved, records) =>
          if saved = key then .ok (some ⟨key, records⟩)
          else .error (.corrupt (store.pathFor key) key.header saved.header)) ∧
    ∀ call : StoreCall, call.Plain → call.Succeeds store (store.after disk calls) →
      call.savedAt? store (store.pathFor key) = none →
      store.load key (call.apply store (store.after disk calls)) =
        store.load key (store.after disk calls) := by
  have hshelf : store.Shelf base calls (store.after disk calls) :=
    (Shelf.start hroot).after hcalls hsucceed
  have hload := hshelf.load_eq hkey htakes
  refine ⟨hload, fun call hplain hsucceeds helsewhere => ?_⟩
  rw [(hshelf.step hplain hsucceeds).load_eq hkey htakes, lastSaved?_concat, helsewhere,
    Option.none_or, ← hload]

def emptyHome : Disk where
  entries := [(["home"], .directory), (["home", "work"], .directory)]
  workingDirectory := ["home", "work"]

/-- Two cases with one stem: the one saved last is loaded, and the other is refused. The root is
beside the working directory. -/
theorem same_stem_is_refused :
    let store : FixtureStore := ⟨"../saved"⟩
    let key : String → FixtureKey := fun file => ⟨⟨"u", "b"⟩, .lexer, file⟩
    let calls : List StoreCall := [.save (key "a.pug") [none], .save (key "a.jade") []]
    store.load (key "a.jade") (store.after emptyHome calls) = .ok (some ⟨key "a.jade", []⟩) ∧
      store.load (key "a.pug") (store.after emptyHome calls) =
        .error (.corrupt (store.pathFor (key "a.pug")) (key "a.pug").header
          (key "a.jade").header) ∧
      store.load (key "b.pug") (store.after emptyHome calls) = .ok none := by
  intro store key calls
  have hroot : emptyHome.EmptyAt store.root ["home", "saved"] := by
    have hnames : store.root.names = ["..", "saved"] := by decide +kernel
    refine Disk.emptyAt_of_entries (by decide +kernel) (by decide) ?_
    rw [hnames]
    decide +kernel
  have hkey : ∀ file, '/' ∉ file.toList → (key file).Plain := fun file hfile =>
    ⟨@Path.isName_of_mem "b" 'b' (by decide) (by decide) (by decide), hfile⟩
  have hcalls : ∀ call ∈ calls, call.Plain := by
    have hempty : ∀ span, some span ∉ [(none : Option Span)] := by simp
    refine List.forall_mem_cons.mpr ⟨⟨hkey _ (by decide), fun span h => absurd h (hempty span)⟩, ?_⟩
    exact List.forall_mem_singleton.mpr ⟨hkey _ (by decide), by simp⟩
  have hsucceed : store.Succeed emptyHome calls := by
    have hfirst : Except.isOk (store.save (key "a.pug") [none] emptyHome).1 = true := by
      decide +kernel
    have hsecond : Except.isOk (store.save (key "a.jade") []
        (store.save (key "a.pug") [none] emptyHome).2).1 = true := by
      decide +kernel
    exact ⟨hfirst, hsecond, trivial⟩
  have hload := fun file hfile hflaw hshort =>
    (load_after_calls hroot hcalls hsucceed (hkey file hfile) ⟨hflaw, hshort⟩).1
  have hjade : store.lastSaved? (store.pathFor (key "a.jade")) calls = some (key "a.jade", []) := by
    decide +kernel
  have hpug : store.lastSaved? (store.pathFor (key "a.pug")) calls = some (key "a.jade", []) := by
    decide +kernel
  have hother : store.lastSaved? (store.pathFor (key "b.pug")) calls = none := by
    decide +kernel
  refine ⟨?_, ?_, ?_⟩
  · rw [hload "a.jade" (by decide) (by decide +kernel) (by decide +kernel), hjade]
    exact if_pos rfl
  · rw [hload "a.pug" (by decide) (by decide +kernel) (by decide +kernel), hpug]
    exact if_neg (by decide)
  · rw [hload "b.pug" (by decide) (by decide +kernel) (by decide +kernel), hother]

end FixtureStore

end SpanReview
