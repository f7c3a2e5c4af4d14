import Mathlib.Data.List.Infix
import SpanReview.Proofs.Disk.Update
import SpanReview.Proofs.Path

namespace SpanReview

/-! Where a path leads, and what making the directories above it changes: only directories
come, at places the path leads through, and everything else stays. -/

namespace Disk

variable {disk later last : Disk} {place other base : Location} {names more : List String}
  {allowed : Location → Prop} {path : Path}

/-- Nothing, or a directory that names can be followed through. -/
def NoFileAt (disk : Disk) (place : Location) : Prop :=
  ∀ content, disk.entry? place ≠ some (.file content)

/-! Following names. -/

theorem follow_append (place : Location) (names more : List String) :
    follow place (names ++ more) = follow (follow place names) more :=
  List.foldl_append

theorem stepTo_name {name : String} (hname : name ≠ "..") : stepTo place name = place ++ [name] :=
  if_neg (by simpa using hname)

theorem follow_eq_append (hup : ".." ∉ names) : follow place names = place ++ names := by
  induction names generalizing place with
  | nil => exact (List.append_nil place).symm
  | cons name rest ih =>
      obtain ⟨hname, hrest⟩ := List.ne_and_not_mem_of_not_mem_cons hup
      rw [follow, List.foldl_cons, ← follow, stepTo_name hname.symm, ih hrest,
        List.append_assoc, List.singleton_append]

theorem descend_append (place : Location) (names more : List String) :
    disk.descend place (names ++ more) =
      (disk.descend place names).bind fun reached => disk.descend reached more := by
  induction names generalizing place with
  | nil => rfl
  | cons name rest ih =>
      rw [List.cons_append, descend, descend]
      cases disk.entry? place with
      | none => rfl
      | some entry =>
          cases entry with
          | file content => rfl
          | directory =>
              dsimp only
              split
              · exact ih _
              · split
                · rfl
                · exact ih _

theorem descend_ok_append (h : disk.descend place (names ++ more) = .ok other) :
    ∃ reached, disk.descend place names = .ok reached ∧ disk.descend reached more = .ok other := by
  rw [descend_append] at h
  cases hreached : disk.descend place names with
  | error fault =>
      rw [hreached] at h
      cases h
  | ok reached =>
      rw [hreached] at h
      exact ⟨reached, rfl, h⟩

theorem descend_cons_of_directory {name : String} (hentry : disk.entry? place = some .directory) :
    disk.descend place (name :: names) =
      if name ≠ ".." ∧ maxNameBytes < name.utf8ByteSize then .error .nameTooLong
      else disk.descend (stepTo place name) names := by
  rw [descend, hentry]
  dsimp only
  by_cases hname : name = ".."
  · subst hname
    rfl
  · rw [if_neg (by simpa using hname), stepTo_name hname]
    simp only [hname, ne_eq, not_false_eq_true, true_and]

theorem descend_cons_ok {name : String} (h : disk.descend place (name :: names) = .ok other) :
    disk.entry? place = some .directory ∧ disk.descend (stepTo place name) names = .ok other := by
  have hentry : disk.entry? place = some .directory := by
    rw [descend] at h
    split at h
    · cases h
    · cases h
    · assumption
  rw [descend_cons_of_directory hentry] at h
  split at h
  · cases h
  · exact ⟨hentry, h⟩

theorem eq_follow_of_descend (h : disk.descend place names = .ok other) :
    other = follow place names := by
  induction names generalizing place with
  | nil =>
      cases h
      rfl
  | cons name rest ih => exact ih (descend_cons_ok h).2

/-- What holds of every place that names are followed from holds of the first one, and of those
that the other names are followed from. -/
theorem along_cons {holds : Location → Prop} {name : String}
    (h : ∀ above, above <+: name :: names → above ≠ name :: names → holds (follow place above)) :
    holds place ∧
      ∀ above, above <+: names → above ≠ names → holds (follow (stepTo place name) above) := by
  refine ⟨h [] List.nil_prefix (List.cons_ne_nil _ _).symm, fun above habove hne => ?_⟩
  exact h (name :: above) (List.cons_prefix_cons.mpr ⟨rfl, habove⟩)
    fun hsame => hne (List.cons.inj hsame).2

def HasLongName (names : List String) : Prop :=
  ∃ name ∈ names, maxNameBytes < name.utf8ByteSize

/-- With no file in the way, only a missing directory or a long name stops the descent. -/
theorem descend_of_noFile
    (hfree : ∀ above, above <+: names → above ≠ names → disk.NoFileAt (follow place above)) :
    disk.descend place names = .ok (follow place names) ∨
      disk.descend place names = .error .missing ∨
      HasLongName names ∧ disk.descend place names = .error .nameTooLong := by
  induction names generalizing place with
  | nil => exact .inl rfl
  | cons name rest ih =>
      obtain ⟨hhere, hbelow⟩ := along_cons hfree
      cases hentry : disk.entry? place with
      | none =>
          right
          left
          rw [descend, hentry]
      | some entry =>
          cases entry with
          | file content => exact absurd hentry (hhere content)
          | directory =>
              rw [descend_cons_of_directory hentry]
              split
              · rename_i hlong
                exact .inr (.inr ⟨⟨name, List.mem_cons_self, hlong.2⟩, rfl⟩)
              · rcases ih hbelow with hthere | hmissing | ⟨⟨other, hmem, hlong⟩, hstops⟩
                · exact .inl hthere
                · exact .inr (.inl hmissing)
                · exact .inr (.inr ⟨⟨other, List.mem_cons_of_mem _ hmem, hlong⟩, hstops⟩)

theorem descend_of_free (hshort : ∀ name ∈ names, name.utf8ByteSize ≤ maxNameBytes)
    (hfree : ∀ above, above <+: names → above ≠ names → disk.NoFileAt (follow place above)) :
    disk.descend place names = .ok (follow place names) ∨
      disk.descend place names = .error .missing := by
  rcases descend_of_noFile hfree with hthere | hmissing | ⟨⟨name, hname, hlong⟩, _⟩
  · exact .inl hthere
  · exact .inr hmissing
  · exact absurd (hshort name hname) (Nat.not_le_of_lt hlong)

theorem locate_of_flawless (hflaw : flaw? path = none) (hpath : path ≠ "") :
    disk.locate path = disk.descend (disk.origin path) path.names := by
  rw [locate, hflaw]
  dsimp only
  rw [if_neg (by simpa using hpath)]

theorem locate_ok (h : disk.locate path = .ok place) :
    disk.descend (disk.origin path) path.names = .ok place := by
  unfold locate at h
  split at h
  · cases h
  · split at h
    · cases h
    · exact h

theorem eq_target_of_locate (h : disk.locate path = .ok place) : place = disk.target path :=
  eq_follow_of_descend (locate_ok h)

theorem target_congr (h : later.workingDirectory = disk.workingDirectory) (path : Path) :
    later.target path = disk.target path := by
  rw [target, target, origin_congr h]

/-! A file that is written and then moved. -/

theorem rename_leaves {source target : Path}
    (hne : disk.target source ≠ disk.target target)
    (h : disk.rename source target = (.ok (), later)) :
    later.entry? (disk.target source) = none := by
  obtain ⟨fromPlace, toPlace, content, hfrom, hto, hfile, _, _, rfl⟩ := rename_eq_ok_iff.mp h
  rw [← eq_target_of_locate hfrom, ← eq_target_of_locate hto] at hne
  rw [← eq_target_of_locate hfrom]
  have hroot : fromPlace ≠ [] := by
    rintro rfl
    cases hfile
  rw [entry?_set_of_ne hne, entry?_erase_self hroot]

/-- After a file was written and moved to another place, it stands there and no longer where it
was written, and nothing else has changed. -/
theorem move_written {source target : Path} {text : String} {written : Disk}
    (hne : disk.target source ≠ disk.target target)
    (hwrite : disk.writeText source text = (.ok (), written))
    (hrename : written.rename source target = (.ok (), later)) :
    later.entry? (disk.target target) = some (.file text.toUTF8) ∧
      later.entry? (disk.target source) = none ∧
      ∀ place, place ≠ disk.target source → place ≠ disk.target target →
        later.entry? place = disk.entry? place := by
  obtain ⟨fromPlace, toPlace, hfrom, hto, hfile, hkeeps, hframe⟩ := write_rename_ok hwrite hrename
  obtain rfl : fromPlace = disk.target source := eq_target_of_locate hfrom
  obtain rfl : toPlace = disk.target target :=
    (eq_target_of_locate hto).trans (target_congr hkeeps.here target)
  obtain ⟨place, _, _, rfl⟩ := write_ok hwrite
  have hgone : later.entry? ((disk.set place (.file text.toUTF8)).target source) = none :=
    rename_leaves hne hrename
  exact ⟨hfile, hgone, hframe⟩

/-! Directories that come. -/

/-- What stood at a place stays, or a directory comes where nothing stood. -/
def GainsAt (allowed : Location → Prop) (disk later : Disk) (place : Location) : Prop :=
  later.entry? place = disk.entry? place ∨
    disk.entry? place = none ∧ later.entry? place = some .directory ∧ allowed place

/-- What is new are directories at allowed places. -/
structure GainsDirectories (allowed : Location → Prop) (disk later : Disk) : Prop where
  here : later.workingDirectory = disk.workingDirectory
  gains : ∀ place, GainsAt allowed disk later place

theorem GainsAt.noFileAt (h : GainsAt allowed disk later place) (hfree : disk.NoFileAt place) :
    later.NoFileAt place := by
  intro content hfile
  rcases h with hsame | ⟨_, hnew, _⟩
  · exact hfree content (hsame ▸ hfile)
  · rw [hnew] at hfile
    cases hfile

theorem GainsAt.of_same (h : GainsAt allowed disk later place)
    (hsame : last.entry? place = later.entry? place) : GainsAt allowed disk last place := by
  rwa [GainsAt, hsame]

theorem GainsAt.entry?_of_not (h : GainsAt allowed disk later place) (hplace : ¬ allowed place) :
    later.entry? place = disk.entry? place := by
  rcases h with hsame | ⟨_, _, hallowed⟩
  · exact hsame
  · exact absurd hallowed hplace

namespace GainsDirectories

theorem refl (disk : Disk) : GainsDirectories allowed disk disk :=
  ⟨rfl, fun _ => .inl rfl⟩

theorem trans (hfirst : GainsDirectories allowed disk later)
    (hsecond : GainsDirectories allowed later last) : GainsDirectories allowed disk last := by
  refine ⟨hsecond.here.trans hfirst.here, fun place => ?_⟩
  rcases hfirst.gains place with hfirst | ⟨hnone, hnew, hallowed⟩
  · rcases hsecond.gains place with hsecond | ⟨hnone, hnew, hallowed⟩
    · exact .inl (hsecond.trans hfirst)
    · exact .inr ⟨hfirst ▸ hnone, hnew, hallowed⟩
  · rcases hsecond.gains place with hsecond | ⟨hagain, _⟩
    · exact .inr ⟨hnone, hsecond.trans hnew, hallowed⟩
    · rw [hnew] at hagain
      contradiction

theorem keepsDirectories (h : GainsDirectories allowed disk later) :
    disk.KeepsDirectories later := by
  refine ⟨h.here, fun place hplace => ?_⟩
  rcases h.gains place with hsame | ⟨hnone, _⟩
  · rw [hsame, hplace]
  · rw [hnone] at hplace
    contradiction

end GainsDirectories

theorem gains_makeDirectory
    (h : ∀ place, disk.locate path = .ok place → disk.entry? place = none → allowed place) :
    GainsDirectories allowed disk (disk.makeDirectory path).2 := by
  unfold makeDirectory
  split
  · exact .refl disk
  · rename_i place hplace
    split
    · exact .refl disk
    · rename_i hnone
      split
      · exact .refl disk
      · refine ⟨rfl, fun other => ?_⟩
        by_cases hother : other = place
        · subst hother
          have hroot : other ≠ [] := by
            rintro rfl
            contradiction
          exact .inr ⟨hnone, entry?_set_self hroot _, h other hplace hnone⟩
        · exact .inl (entry?_set_of_ne hother _)

/-- One directory is made at once, or not at all, or when the ones above it are there. -/
theorem makeDirectoriesUp_cons (disk : Disk) (path : Path) (above : List Path) :
    let made := (disk.makeDirectory path).2
    let raised := (made.makeDirectoriesUp above).2
    let later := (disk.makeDirectoriesUp (path :: above)).2
    later = made ∨ later = raised ∨ later = (raised.makeDirectory path).2 := by
  dsimp only
  rw [makeDirectoriesUp]
  dsimp only
  split
  · rename_i made hmake
    rw [hmake]
    split
    · rename_i raised hraise
      rw [hraise]
      refine .inr (.inr ?_)
      split
      · rename_i hagain
        rw [hagain]
      · rename_i hagain
        rw [hagain]
        split
        · rfl
        · rfl
    · exact .inr (.inl rfl)
  · refine .inl ?_
    split
    · rename_i hmake
      rw [hmake]
    · rename_i hmake
      rw [hmake]
      split
      · rfl
      · rfl

theorem gains_makeDirectoriesUp {paths : List Path}
    (h : ∀ path ∈ paths, ∀ later, GainsDirectories allowed disk later →
      ∀ place, later.locate path = .ok place → later.entry? place = none → allowed place) :
    GainsDirectories allowed disk (disk.makeDirectoriesUp paths).2 := by
  induction paths generalizing disk with
  | nil => exact .refl disk
  | cons path above ih =>
      obtain ⟨hpath, habove⟩ := List.forall_mem_cons.mp h
      have hmade := gains_makeDirectory (hpath disk (.refl disk))
      have hraised := hmade.trans
        (ih fun path hmem later hgains => habove path hmem later (hmade.trans hgains))
      rcases makeDirectoriesUp_cons disk path above with hlater | hlater | hlater
      · exact hlater ▸ hmade
      · exact hlater ▸ hraised
      · exact hlater ▸ hraised.trans (gains_makeDirectory (hpath _ hraised))

theorem gains_makeDirectoriesFor (disk : Disk) (path : Path) :
    GainsDirectories
      (fun place =>
        ∃ above, above <+: path.names.dropLast ∧ place = follow (disk.origin path) above)
      disk (disk.makeDirectoriesFor path).2 := by
  refine gains_makeDirectoriesUp fun above hmem later hgains place hplace hnone => ?_
  have horigin : later.origin above = disk.origin path := by
    rw [origin_congr hgains.here, origin, origin, (Path.mem_directoriesAbove hmem).2]
  refine ⟨above.names, Path.names_prefix_of_mem_directoriesAbove hmem, ?_⟩
  rw [eq_target_of_locate hplace, target, horigin]

/-! A root that is there, or that the way is free to make. -/

/-- No file stands where a root is or on the way there, which does not lead through the root. -/
structure LeadsTo (disk : Disk) (root : Path) (base : Location) : Prop where
  leads : disk.target root = base
  free : ∀ above, above <+: root.names → disk.NoFileAt (follow (disk.origin root) above)
  outside : ∀ above, above <+: root.names → ∀ names, names ≠ [] →
    follow (disk.origin root) above ≠ base ++ names

namespace LeadsTo

variable {root : Path}

/-- Names that lead to the root and further, cut before or behind the root. -/
theorem cut (h : disk.LeadsTo root base) (hup : ".." ∉ more) {above : List String}
    (habove : above <+: root.names ++ more) :
    above <+: root.names ∨ ∃ rest, rest <+: more ∧
      follow (disk.origin root) above = base ++ rest ∧ above = root.names ++ rest := by
  rcases List.prefix_or_prefix_of_prefix habove (List.prefix_append root.names more) with
    hhigh | ⟨rest, rfl⟩
  · exact .inl hhigh
  · have hrest := (List.prefix_append_right_inj root.names).mp habove
    refine .inr ⟨rest, hrest, ?_, rfl⟩
    rw [follow_append, ← target, h.leads, follow_eq_append fun hmem => hup (hrest.subset hmem)]

theorem noFile (h : disk.LeadsTo root base) : disk.NoFileAt base := by
  have hfree := h.free root.names List.prefix_rfl
  rwa [← target, h.leads] at hfree

theorem keeps (h : disk.LeadsTo root base)
    (hhere : later.workingDirectory = disk.workingDirectory)
    (hfree : ∀ above, above <+: root.names → later.NoFileAt (follow (disk.origin root) above)) :
    later.LeadsTo root base where
  leads := (target_congr hhere root).trans h.leads
  free := origin_congr hhere root ▸ hfree
  outside := origin_congr hhere root ▸ h.outside

end LeadsTo

/-- A root with nothing below it: an empty directory, or a place that is free for one. -/
structure EmptyAt (disk : Disk) (root : Path) (base : Location) : Prop where
  root : disk.LeadsTo root base
  nothing : ∀ names, names ≠ [] → disk.entry? (base ++ names) = none

/-- Emptiness by a look at the entries and at the places on the way. -/
theorem emptyAt_of_entries {root : Path} (hroot : disk.target root = base)
    (hbelow : ∀ entry ∈ disk.entries, base <+: entry.1 → entry.1 = base)
    (hway : ∀ above ∈ root.names.inits,
      let place := follow (disk.origin root) above
      (disk.isDirectoryAt place ∨ disk.entry? place = none) ∧ (base <+: place → place = base)) :
    disk.EmptyAt root base where
  root :=
    { leads := hroot
      free := by
        intro above habove content hfile
        rcases (hway above ((List.mem_inits _ _).mpr habove)).1 with hdirectory | hnone
        · simp [isDirectoryAt, hfile] at hdirectory
        · cases hnone.symm.trans hfile
      outside := by
        intro above habove names hnames hplace
        have hbase := (hway above ((List.mem_inits _ _).mpr habove)).2 ⟨names, hplace.symm⟩
        rw [hplace] at hbase
        exact hnames (List.append_right_eq_self.mp hbase) }
  nothing := by
    intro names hnames
    rw [entry?_of_ne_nil (List.append_ne_nil_of_right_ne_nil _ hnames), List.lookup_eq_none_iff]
    intro entry hentry
    refine bne_iff_ne.mpr fun hplace => hnames ?_
    have hbase := hbelow entry hentry ⟨names, hplace⟩
    rw [← hplace] at hbase
    exact List.append_right_eq_self.mp hbase

/-! A path that a disk takes, with nothing where it leads. -/

/-- A path that a file system accepts: neither it nor a name in it is too long, and it has no
zero character. -/
structure Takes (path : Path) : Prop where
  flawless : flaw? path = none
  short : ∀ name ∈ path.names, name.utf8ByteSize ≤ maxNameBytes

theorem readText_missing (hpath : flaw? path = none)
    (h : (∃ place, disk.descend (disk.origin path) path.names = .ok place ∧
        disk.entry? place = none) ∨
      disk.descend (disk.origin path) path.names = .error .missing) :
    disk.readText path = .error .missing := by
  have hlocate : (∃ place, disk.locate path = .ok place ∧ disk.entry? place = none) ∨
      disk.locate path = .error .missing := by
    unfold locate
    rw [hpath]
    dsimp only
    split
    · exact .inr rfl
    · exact h
  have hfind : disk.find path = .error .missing := by
    rcases hlocate with ⟨place, hplace, hnone⟩ | hmissing
    · simp only [find, hplace, hnone]
    · simp only [find, hmissing]
  simp only [readText, readBytes, hfind]

/-! Directories that were made once are there the next time. -/

theorem isDirectory_iff :
    disk.isDirectory path ↔
      ∃ place, disk.locate path = .ok place ∧ disk.entry? place = some .directory := by
  unfold isDirectory find
  constructor
  · intro h
    split at h
    · rename_i hfind
      split at hfind
      · cases hfind
      · rename_i place hplace
        split at hfind
        · cases hfind
        · exact ⟨place, hplace, by assumption⟩
        · split at hfind
          · cases hfind
          · cases hfind
    · cases h
  · rintro ⟨place, hplace, hentry⟩
    simp [hplace, hentry]

theorem KeepsDirectories.isDirectory (h : disk.KeepsDirectories later)
    (hpath : disk.isDirectory path) : later.isDirectory path := by
  obtain ⟨place, hplace, hentry⟩ := isDirectory_iff.mp hpath
  exact isDirectory_iff.mpr ⟨place, h.locate hplace, h.stays place hentry⟩

theorem isDirectory_of_makeDirectory (h : disk.makeDirectory path = (.ok (), later)) :
    later.isDirectory path := by
  unfold makeDirectory at h
  split at h
  · cases h
  · rename_i place hplace
    split at h
    · cases h
    · rename_i hnone
      split at h
      · cases h
      · cases h
        have hfree : disk.isDirectoryAt place = false := not_directory_iff.mpr (by simp [hnone])
        have hkeeps := keepsDirectories_set hfree .directory
        exact isDirectory_iff.mpr ⟨place, hkeeps.locate hplace,
          entry?_set_self (ne_nil_of_not_directory hfree) _⟩

theorem isDirectory_of_settled
    (h : (match disk.makeDirectory path with
      | (.ok (), made) => (.ok (), made)
      | (.error fault, made) =>
          if made.isDirectory path then (.ok (), made) else (.error fault, made)) =
        ((.ok (), later) : Except Fault Unit × Disk)) : later.isDirectory path := by
  split at h
  · rename_i hmade
    cases h
    exact isDirectory_of_makeDirectory hmade
  · split at h
    · cases h
      assumption
    · cases h

theorem isDirectory_of_makeDirectoriesUp {above : List Path}
    (h : disk.makeDirectoriesUp (path :: above) = (.ok (), later)) : later.isDirectory path := by
  rw [makeDirectoriesUp] at h
  dsimp only at h
  split at h
  · split at h
    · exact isDirectory_of_settled h
    · rename_i hfailed
      exact absurd h (hfailed later)
  · exact isDirectory_of_settled h

theorem makeDirectoriesUp_of_isDirectory {above : List Path} (h : disk.isDirectory path) :
    disk.makeDirectoriesUp (path :: above) = (.ok (), disk) := by
  obtain ⟨place, hplace, hentry⟩ := isDirectory_iff.mp h
  have hoccupied : disk.makeDirectory path = (.error .occupied, disk) := by
    simp [makeDirectory, hplace, hentry]
  simp [makeDirectoriesUp, hoccupied, h]

theorem makeDirectoriesFor_again (h : disk.makeDirectoriesFor path = (.ok (), later))
    (hkeeps : later.KeepsDirectories last) :
    last.makeDirectoriesFor path = (.ok (), last) := by
  unfold makeDirectoriesFor at h ⊢
  cases hpaths : path.directoriesAbove with
  | nil => rfl
  | cons nearest above =>
      rw [hpaths] at h
      exact makeDirectoriesUp_of_isDirectory
        (hkeeps.isDirectory (isDirectory_of_makeDirectoriesUp h))

end Disk

end SpanReview
