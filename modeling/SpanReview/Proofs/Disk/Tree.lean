import SpanReview.Proofs.Disk.Directories

namespace SpanReview

/-! Disks on which everything stands in a directory. Where a path leads on such a disk hardly
changes when directories come, and a write or a move changes the files it names only. -/

namespace Disk

variable {disk later : Disk} {place other : Location} {names more : List String}
  {allowed : Location → Prop} {path source target : Path}

def IsTree (disk : Disk) : Prop :=
  ∀ place name entry, disk.entry? (place ++ [name]) = some entry →
    disk.entry? place = some .directory

/-- The content of the file at a place. -/
def fileAt? (disk : Disk) (place : Location) : Option ByteArray :=
  match disk.entry? place with
  | some (.file content) => some content
  | _ => none

theorem isTree_empty : Disk.empty.IsTree := by
  intro place name entry h
  rw [entry?_of_ne_nil (List.concat_ne_nil name place)] at h
  cases h

theorem isTree_of_entries (h : ∀ entry ∈ disk.entries, disk.isDirectoryAt entry.1.dropLast) :
    disk.IsTree := by
  intro place name entry hthere
  rw [entry?_of_ne_nil (List.concat_ne_nil name place)] at hthere
  obtain ⟨listed, hlisted, hplace⟩ :=
    List.lookup_isSome_iff.mp (Option.isSome_of_eq_some hthere)
  have habove := h listed hlisted
  rw [← beq_iff_eq.mp hplace, List.dropLast_concat, isDirectoryAt] at habove
  split at habove
  · assumption
  · cases habove

theorem IsTree.directory_above (hdisk : disk.IsTree) {entry : Entry} (hmore : more ≠ [])
    (h : disk.entry? (place ++ more) = some entry) : disk.entry? place = some .directory := by
  induction more generalizing place with
  | nil => exact absurd rfl hmore
  | cons name rest ih =>
      cases rest with
      | nil => exact hdisk place name entry h
      | cons next rest =>
          rw [List.append_cons] at h
          exact hdisk place name .directory (ih (List.cons_ne_nil _ _) h)

theorem IsTree.nothing_below (hdisk : disk.IsTree) (hmore : more ≠ [])
    (h : disk.entry? place ≠ some .directory) : disk.entry? (place ++ more) = none := by
  rw [Option.eq_none_iff_forall_ne_some]
  exact fun entry hbelow => h (hdisk.directory_above hmore hbelow)

theorem fileAt?_congr (h : later.entry? place = disk.entry? place) :
    later.fileAt? place = disk.fileAt? place := by
  rw [fileAt?, h, fileAt?]

theorem fileAt?_eq_some {content : ByteArray} (h : disk.entry? place = some (.file content)) :
    disk.fileAt? place = some content := by
  rw [fileAt?, h]

theorem GainsAt.fileAt?_eq (h : GainsAt allowed disk later place) :
    later.fileAt? place = disk.fileAt? place := by
  rcases h with hsame | ⟨hnone, hnew, _⟩
  · exact fileAt?_congr hsame
  · rw [fileAt?, hnew, fileAt?, hnone]

/-! Reading where directories have come. -/

/-- Directories that come let a descent go on that had found one of them missing, but not to
anything that was there. It may now come to a name that is too long. -/
theorem descend_gains (hdisk : disk.IsTree) (hup : ".." ∉ names)
    (hgains : ∀ above, above <+: names → above ≠ names →
      GainsAt allowed disk later (follow place above)) :
    later.descend place names = disk.descend place names ∨
      disk.descend place names = .error .missing ∧ disk.entry? (follow place names) = none ∧
        (later.descend place names = .ok (follow place names) ∨
          HasLongName names ∧ later.descend place names = .error .nameTooLong) := by
  induction names generalizing place with
  | nil => exact .inl rfl
  | cons name rest ih =>
      obtain ⟨hname, hrest⟩ := List.ne_and_not_mem_of_not_mem_cons hup
      obtain ⟨hhere, hbelow⟩ := along_cons hgains
      rcases hhere with hsame | ⟨hnone, _⟩
      · cases hentry : disk.entry? place with
        | none =>
            left
            rw [descend, descend, hsame, hentry]
        | some entry =>
            cases entry with
            | file content =>
                left
                rw [descend, descend, hsame, hentry]
            | directory =>
                rw [descend_cons_of_directory (hsame.trans hentry),
                  descend_cons_of_directory hentry]
                split
                · exact .inl rfl
                · rcases ih hrest hbelow with hsame | ⟨hmissing, hfree, hthere⟩
                  · exact .inl hsame
                  · refine .inr ⟨hmissing, hfree, hthere.imp_right ?_⟩
                    rintro ⟨⟨other, hmem, hlong⟩, hstops⟩
                    exact ⟨⟨other, List.mem_cons_of_mem _ hmem, hlong⟩, hstops⟩
      · have hbefore : disk.descend place (name :: rest) = .error .missing := by
          rw [descend, hnone]
        have hnowhere : ∀ above, above <+: name :: rest → above ≠ [] →
            disk.entry? (follow place above) = none := by
          intro above habove hne
          rw [follow_eq_append fun hmem => hup (habove.subset hmem)]
          exact hdisk.nothing_below hne (by simp [hnone])
        have hfree : ∀ above, above <+: name :: rest → above ≠ name :: rest →
            later.NoFileAt (follow place above) := by
          intro above habove hne
          refine (hgains above habove hne).noFileAt fun content hfile => ?_
          by_cases hstart : above = []
          · subst hstart
            cases hnone.symm.trans hfile
          · cases (hnowhere above habove hstart).symm.trans hfile
        have hend := hnowhere _ List.prefix_rfl (List.cons_ne_nil _ _)
        rcases descend_of_noFile hfree with hthere | hmissing | hlong
        · exact .inr ⟨hbefore, hend, .inl hthere⟩
        · exact .inl (hmissing.trans hbefore.symm)
        · exact .inr ⟨hbefore, hend, .inr hlong⟩

theorem locate_congr (h : later.descend (later.origin path) path.names =
    disk.descend (disk.origin path) path.names) : later.locate path = disk.locate path := by
  rw [locate, locate, h]

theorem readText_congr (hplace : later.locate path = disk.locate path)
    (hentry : ∀ place, disk.locate path = .ok place → later.entry? place = disk.entry? place) :
    later.readText path = disk.readText path := by
  have hfind : later.find path = disk.find path := by
    rw [find, find, hplace]
    cases hlocate : disk.locate path with
    | error fault => rfl
    | ok place =>
        dsimp only
        rw [hentry place hlocate]
  rw [readText, readText, readBytes, readBytes, hfind]

theorem readText_of_lost {fault : Fault} (h : disk.locate path = .error fault) :
    disk.readText path = .error fault := by
  simp only [readText, readBytes, find, h]

theorem readText_gains (hdisk : disk.IsTree) (hup : ".." ∉ path.names)
    (hhere : later.workingDirectory = disk.workingDirectory)
    (hgains : ∀ above, above <+: path.names → above ≠ path.names →
      GainsAt allowed disk later (follow (disk.origin path) above))
    (hentry : later.entry? (disk.target path) = disk.entry? (disk.target path)) :
    later.readText path = disk.readText path ∨
      HasLongName path.names ∧ disk.readText path = .error .missing ∧
        later.readText path = .error .nameTooLong := by
  have hthere : ∀ place, disk.locate path = .ok place →
      later.entry? place = disk.entry? place := by
    intro place hplace
    rw [eq_target_of_locate hplace, hentry]
  have horigin := origin_congr hhere path
  cases hflaw : flaw? path with
  | some fault =>
      have hlost (disk : Disk) : disk.locate path = .error fault := by
        rw [locate, hflaw]
      exact .inl (readText_congr ((hlost later).trans (hlost disk).symm) hthere)
  | none =>
      rcases descend_gains hdisk hup hgains with hsame | ⟨hmissing, hnone, hfound | hlong⟩
      · rw [← horigin] at hsame
        exact .inl (readText_congr (locate_congr (hsame.trans (by rw [horigin]))) hthere)
      · refine .inl ?_
        rw [readText_missing hflaw (.inr hmissing),
          readText_missing hflaw (.inl ⟨_, horigin ▸ hfound, hentry.trans hnone⟩)]
      · have hpath : path ≠ "" := by
          rintro rfl
          obtain ⟨name, hmem, _⟩ := hlong.1
          contradiction
        refine .inr ⟨hlong.1, readText_missing hflaw (.inr hmissing), readText_of_lost ?_⟩
        rw [locate_of_flawless hflaw hpath, horigin, hlong.2]

/-! Where the folders are there and the name is too long. -/

theorem folders_of_made (hfolders : path.names.dropLast ≠ [])
    (h : disk.makeDirectoriesFor path = (.ok (), later)) :
    ∃ place, later.descend (later.origin path) path.names.dropLast = .ok place ∧
      later.entry? place = some .directory := by
  unfold makeDirectoriesFor at h
  cases hcount : path.names.length - 1 with
  | zero => exact absurd (List.length_eq_zero_iff.mp (List.length_dropLast.trans hcount)) hfolders
  | succ count =>
      rw [Path.directoriesAbove, hcount, Path.parents] at h
      obtain ⟨place, hplace, hentry⟩ := isDirectory_iff.mp (isDirectory_of_makeDirectoriesUp h)
      have hdescend := locate_ok hplace
      rw [origin, Path.isAbsolute_parent hfolders, ← origin, Path.names_parent] at hdescend
      exact ⟨place, hdescend, hentry⟩

theorem descend_of_long_name {name : String}
    (hfolders : disk.descend other names = .ok place) (hentry : disk.entry? place = some .directory)
    (hname : name ≠ "..") (hlong : maxNameBytes < name.utf8ByteSize) :
    disk.descend other (names ++ [name]) = .error .nameTooLong := by
  rw [descend_append, hfolders]
  exact (descend_cons_of_directory hentry).trans (if_pos ⟨hname, hlong⟩)

/-- The folders of a file were made, and then the name of the file is too long. -/
theorem locate_of_long_name {name : String} (hflaw : flaw? path = none)
    (hmade : disk.makeDirectoriesFor path = (.ok (), later)) (hnames : path.names = names ++ [name])
    (hfolders : names ≠ []) (hname : name ≠ "..") (hlong : maxNameBytes < name.utf8ByteSize) :
    later.locate path = .error .nameTooLong := by
  have hpath : path ≠ "" := by
    rintro rfl
    exact absurd hnames.symm (List.concat_ne_nil _ _)
  have hdropped : path.names.dropLast = names := by rw [hnames, List.dropLast_concat]
  obtain ⟨place, hfound, hentry⟩ := folders_of_made (by rwa [hdropped]) hmade
  rw [hdropped] at hfound
  rw [locate_of_flawless hflaw hpath, hnames, descend_of_long_name hfound hentry hname hlong]

theorem write_of_unfollowed {fault : Fault}
    (h : disk.descend (disk.origin path) path.names = .error fault) (text : String) :
    ∃ fault, disk.writeText path text = (.error fault, disk) := by
  cases hlocate : disk.locate path with
  | ok place => cases h.symm.trans (locate_ok hlocate)
  | error fault => exact ⟨fault, by rw [writeText, write, hlocate]⟩

/-! Writing and moving files. -/

theorem entry?_writeText_of_ne (hplace : place ≠ disk.target path) (text : String) :
    Disk.entry? (disk.writeText path text).2 place = disk.entry? place := by
  unfold writeText write
  split
  · rfl
  · rename_i found hfound
    rw [← eq_target_of_locate hfound] at hplace
    split
    · rfl
    · split
      · rfl
      · exact entry?_set_of_ne hplace _
      · exact entry?_set_of_ne hplace _

theorem writeText_here (disk : Disk) (path : Path) (text : String) :
    Disk.workingDirectory (disk.writeText path text).2 = disk.workingDirectory := by
  unfold writeText write
  split
  · rfl
  · split
    · rfl
    · split <;> rfl

theorem rename_error {fault : Fault} (h : disk.rename source target = (.error fault, later)) :
    later = disk := by
  unfold rename at h
  split at h
  · split at h
    · cases h
      rfl
    · cases h
      rfl
    · split at h
      · cases h
        rfl
      · split at h
        · cases h
          rfl
        · cases h
  · cases h
    rfl
  · cases h
    rfl

/-! Every call leaves a tree. -/

/-- What stands at a place may stand there: above it is a directory. -/
def Based (disk : Disk) (place : Location) : Prop :=
  ∀ above name, place = above ++ [name] → disk.entry? above = some .directory

theorem IsTree.based (hdisk : disk.IsTree) {entry : Entry}
    (hthere : disk.entry? place = some entry) : disk.Based place := by
  rintro above name rfl
  exact hdisk above name entry hthere

theorem based_nil (disk : Disk) : disk.Based [] :=
  fun _ _ hnil => absurd hnil.symm (List.concat_ne_nil _ _)

theorem IsTree.based_dropLast (hdisk : disk.IsTree) (hplace : disk.entry? place = some .directory) :
    disk.Based place.dropLast := by
  rcases List.eq_nil_or_concat place with rfl | ⟨above, name, rfl⟩
  · exact disk.based_nil
  · rw [List.concat_eq_append, List.dropLast_concat]
    rw [List.concat_eq_append] at hplace
    exact hdisk.based (hdisk above name .directory hplace)

theorem IsTree.based_of_descend (hdisk : disk.IsTree) (hplace : disk.Based place)
    (h : disk.descend place names = .ok other) : disk.Based other := by
  induction names generalizing place with
  | nil =>
      cases h
      exact hplace
  | cons name rest ih =>
      obtain ⟨hentry, hstep⟩ := descend_cons_ok h
      refine ih ?_ hstep
      by_cases hname : name = ".."
      · subst hname
        exact hdisk.based_dropLast hentry
      · rw [stepTo_name hname]
        intro above last hsplit
        obtain ⟨rfl, _⟩ := List.append_inj' hsplit rfl
        exact hentry

/-- Where a name leads, an entry may stand. -/
theorem IsTree.based_of_locate (hdisk : disk.IsTree) (hnames : path.names ≠ [])
    (h : disk.locate path = .ok place) : disk.Based place := by
  obtain ⟨name, rest, hsplit⟩ := List.exists_cons_of_ne_nil hnames
  have hdescend := locate_ok h
  rw [hsplit] at hdescend
  have hentry := (descend_cons_ok hdescend).1
  exact hdisk.based_of_descend (hdisk.based hentry) hdescend

theorem IsTree.set (hdisk : disk.IsTree) (hplace : disk.entry? place ≠ some .directory)
    (habove : disk.Based place) (entry : Entry) : (disk.set place entry).IsTree := by
  intro above name other hthere
  by_cases hsame : above ++ [name] = place
  · have hne : above ≠ place := by
      rintro rfl
      exact absurd (congrArg List.length hsame) (by simp)
    rw [entry?_set_of_ne hne]
    exact habove above name hsame.symm
  · rw [entry?_set_of_ne hsame] at hthere
    have hdirectory := hdisk above name other hthere
    have hne : above ≠ place := by
      rintro rfl
      exact hplace hdirectory
    rwa [entry?_set_of_ne hne]

theorem IsTree.erase (hdisk : disk.IsTree) (hplace : disk.entry? place ≠ some .directory) :
    (disk.erase place).IsTree := by
  intro above name entry hthere
  have hsame : above ++ [name] ≠ place := by
    rintro rfl
    rw [entry?_erase_self (List.concat_ne_nil _ _)] at hthere
    cases hthere
  rw [entry?_erase_of_ne hsame] at hthere
  have hdirectory := hdisk above name entry hthere
  have hne : above ≠ place := by
    rintro rfl
    exact hplace hdirectory
  rwa [entry?_erase_of_ne hne]

theorem IsTree.makeDirectory (hdisk : disk.IsTree) (hnames : path.names ≠ []) :
    (disk.makeDirectory path).2.IsTree := by
  unfold Disk.makeDirectory
  split
  · exact hdisk
  · rename_i place hplace
    split
    · exact hdisk
    · rename_i hnone
      split
      · exact hdisk
      · exact hdisk.set (by simp [hnone]) (hdisk.based_of_locate hnames hplace) _

theorem IsTree.makeDirectoriesUp (hdisk : disk.IsTree) {paths : List Path}
    (hnames : ∀ path ∈ paths, path.names ≠ []) : (disk.makeDirectoriesUp paths).2.IsTree := by
  induction paths generalizing disk with
  | nil => exact hdisk
  | cons path above ih =>
      obtain ⟨hpath, habove⟩ := List.forall_mem_cons.mp hnames
      have hmade := hdisk.makeDirectory hpath
      rcases makeDirectoriesUp_cons disk path above with hlater | hlater | hlater
      · exact hlater ▸ hmade
      · exact hlater ▸ ih hmade habove
      · exact hlater ▸ (ih hmade habove).makeDirectory hpath

theorem IsTree.makeDirectoriesFor (hdisk : disk.IsTree) (path : Path) :
    (disk.makeDirectoriesFor path).2.IsTree :=
  hdisk.makeDirectoriesUp fun _ hmem => (Path.mem_directoriesAbove hmem).1

theorem IsTree.writeText (hdisk : disk.IsTree) (path : Path) (text : String) :
    (disk.writeText path text).2.IsTree := by
  unfold Disk.writeText write
  split
  · exact hdisk
  · rename_i place hplace
    split
    · exact hdisk
    · rename_i hfree
      simp only [Bool.or_eq_true, not_or, Bool.not_eq_true, not_directory_iff] at hfree
      have hbased := hdisk.based_of_locate (Path.names_ne_nil hfree.2) hplace
      split
      · exact hdisk
      · exact hdisk.set hfree.1 hbased _
      · exact hdisk.set hfree.1 hbased _

theorem IsTree.rename (hdisk : disk.IsTree) (source : Path) (htarget : target.names ≠ []) :
    (disk.rename source target).2.IsTree := by
  cases hrename : disk.rename source target with
  | mk result later =>
      cases result with
      | error fault => exact rename_error hrename ▸ hdisk
      | ok _ =>
          obtain ⟨fromPlace, toPlace, content, _, hto, hfile, hfree, _, rfl⟩ :=
            rename_eq_ok_iff.mp hrename
          have hfrom : disk.entry? fromPlace ≠ some .directory := by simp [hfile]
          refine (hdisk.erase hfrom).set (not_directory_iff.mp (not_directory_erase hfree)) ?_ _
          intro above name hsplit
          have hdirectory := hdisk.based_of_locate htarget hto above name hsplit
          have hne : above ≠ fromPlace := by
            rintro rfl
            exact hfrom hdirectory
          rwa [entry?_erase_of_ne hne]

end Disk

end SpanReview
