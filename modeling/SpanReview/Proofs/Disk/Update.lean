import SpanReview.Disk.Basic

namespace SpanReview

/-! What a change of one entry leaves on the disk. A path that leads somewhere still leads
there as long as every directory stays one. -/

namespace Disk

variable {disk : Disk} {place other : Location}

theorem lookup_filter_ne {entries : List (Location × Entry)} (h : other ≠ place) :
    (entries.filter fun entry => entry.1 != place).lookup other = entries.lookup other := by
  induction entries with
  | nil => rfl
  | cons entry entries ih =>
      obtain ⟨here, content⟩ := entry
      rw [List.filter_cons, List.lookup_cons]
      split
      · rw [List.lookup_cons, ih]
      · rename_i hsame
        have hne : (other == here) = false := by
          have hhere : here = place := by simpa using hsame
          simpa [hhere] using h
        rw [ih, hne]

theorem entry?_of_ne_nil (hplace : place ≠ []) :
    disk.entry? place = disk.entries.lookup place := by
  cases place with
  | nil => exact absurd rfl hplace
  | cons name rest => rfl

theorem entry?_erase_of_ne (h : other ≠ place) :
    Disk.entry? (disk.erase place) other = disk.entry? other := by
  cases other with
  | nil => rfl
  | cons name rest => exact lookup_filter_ne h

theorem entry?_set_self (hplace : place ≠ []) (entry : Entry) :
    Disk.entry? (disk.set place entry) place = some entry := by
  rw [entry?_of_ne_nil hplace, set, List.lookup_cons, beq_self_eq_true]

theorem entry?_set_of_ne (h : other ≠ place) (entry : Entry) :
    Disk.entry? (disk.set place entry) other = disk.entry? other := by
  cases other with
  | nil => rfl
  | cons name rest =>
      have hne : (name :: rest == place) = false := by simpa using h
      rw [entry?_of_ne_nil (List.cons_ne_nil _ _), set, List.lookup_cons, hne]
      exact lookup_filter_ne h

theorem entry?_erase_self (hplace : place ≠ []) : Disk.entry? (disk.erase place) place = none := by
  rw [entry?_of_ne_nil hplace, List.lookup_eq_none_iff]
  intro entry hentry
  have hkept : entry.1 ≠ place := bne_iff_ne.mp (List.mem_filter.mp hentry).2
  exact bne_iff_ne.mpr hkept.symm

theorem ne_nil_of_not_directory (h : disk.isDirectoryAt place = false) : place ≠ [] := by
  rintro rfl
  cases h

theorem not_directory_iff : disk.isDirectoryAt place = false ↔
    disk.entry? place ≠ some .directory := by
  unfold isDirectoryAt
  split
  · rename_i hentry
    simp [hentry]
  · rename_i hentry
    simpa using hentry

theorem not_directory_erase (h : disk.isDirectoryAt other = false) :
    (disk.erase place).isDirectoryAt other = false := by
  rw [not_directory_iff] at h ⊢
  by_cases hsame : other = place
  · rw [← hsame, entry?_erase_self (ne_nil_of_not_directory (not_directory_iff.mpr h))]
    exact nofun
  · rwa [entry?_erase_of_ne hsame]

theorem not_directory_set_file (h : disk.isDirectoryAt other = false) (content : ByteArray) :
    (disk.set place (.file content)).isDirectoryAt other = false := by
  rw [not_directory_iff] at h ⊢
  by_cases hsame : other = place
  · rw [← hsame, entry?_set_self (ne_nil_of_not_directory (not_directory_iff.mpr h))]
    exact nofun
  · rwa [entry?_set_of_ne hsame]

/-! Directories that stay. -/

structure KeepsDirectories (disk later : Disk) : Prop where
  here : later.workingDirectory = disk.workingDirectory
  stays : ∀ place, disk.entry? place = some .directory → later.entry? place = some .directory

theorem origin_congr {later : Disk} (h : later.workingDirectory = disk.workingDirectory)
    (path : Path) : later.origin path = disk.origin path := by
  rw [origin, origin, h]

theorem keepsDirectories_set (h : disk.isDirectoryAt place = false) (entry : Entry) :
    disk.KeepsDirectories (disk.set place entry) := by
  refine ⟨rfl, fun other hother => ?_⟩
  have hne : other ≠ place := by
    rintro rfl
    exact not_directory_iff.mp h hother
  rw [entry?_set_of_ne hne, hother]

theorem keepsDirectories_move {content : ByteArray}
    (hplace : disk.entry? place = some (.file content)) (hother : disk.isDirectoryAt other = false)
    (entry : Entry) : disk.KeepsDirectories ((disk.erase place).set other entry) := by
  refine ⟨rfl, fun kept hkept => ?_⟩
  have hfrom : kept ≠ place := by
    rintro rfl
    cases hkept.symm.trans hplace
  have hto : kept ≠ other := by
    rintro rfl
    exact not_directory_iff.mp hother hkept
  rw [entry?_set_of_ne hto, entry?_erase_of_ne hfrom, hkept]

theorem KeepsDirectories.descend {later : Disk} {names : List String}
    (h : disk.KeepsDirectories later) (hfound : disk.descend place names = .ok other) :
    later.descend place names = .ok other := by
  induction names generalizing place with
  | nil => exact hfound
  | cons name rest ih =>
      unfold Disk.descend at hfound ⊢
      cases hentry : disk.entry? place with
      | none =>
          rw [hentry] at hfound
          cases hfound
      | some entry =>
          cases entry with
          | file content =>
              rw [hentry] at hfound
              cases hfound
          | directory =>
              rw [hentry] at hfound
              rw [h.stays place hentry]
              dsimp only at hfound ⊢
              split at hfound
              · rename_i hup
                rw [if_pos hup]
                exact ih hfound
              · rename_i hup
                rw [if_neg hup]
                split at hfound
                · cases hfound
                · rename_i hshort
                  rw [if_neg hshort]
                  exact ih hfound

theorem KeepsDirectories.locate {later : Disk} {path : Path} (h : disk.KeepsDirectories later)
    (hfound : disk.locate path = .ok place) : later.locate path = .ok place := by
  unfold Disk.locate at hfound ⊢
  split at hfound
  · cases hfound
  · rename_i hflaw
    split at hfound
    · cases hfound
    · rename_i hempty
      rw [if_neg hempty, origin_congr h.here]
      exact h.descend hfound

/-! Writing and moving a file. -/

theorem write_eq_ok_iff {path : Path} {content : ByteArray} {later : Disk} :
    disk.write path content = (.ok (), later) ↔
      ∃ place, disk.locate path = .ok place ∧ disk.isDirectoryAt place = false ∧
        path.endsAtDirectory = false ∧ disk.denial? (.write place) = none ∧
        later = disk.set place (.file content) := by
  constructor
  · intro h
    unfold write at h
    split at h
    · cases h
    · rename_i place hplace
      split at h
      · cases h
      · rename_i hfree
        simp only [Bool.or_eq_true, not_or, Bool.not_eq_true] at hfree
        split at h
        · cases h
        · cases h
        · rename_i hgranted
          cases h
          exact ⟨place, hplace, hfree.1, hfree.2, hgranted, rfl⟩
  · rintro ⟨place, hplace, hfree, hpath, hgranted, rfl⟩
    simp [write, hplace, hfree, hpath, hgranted]

theorem rename_eq_ok_iff {source target : Path} {later : Disk} :
    disk.rename source target = (.ok (), later) ↔
      ∃ fromPlace toPlace content, disk.locate source = .ok fromPlace ∧
        disk.locate target = .ok toPlace ∧ disk.entry? fromPlace = some (.file content) ∧
        disk.isDirectoryAt toPlace = false ∧ disk.denial? (.rename fromPlace toPlace) = none ∧
        later = (disk.erase fromPlace).set toPlace (.file content) := by
  constructor
  · intro h
    unfold rename at h
    split at h
    · rename_i fromPlace toPlace hsource htarget
      split at h
      · cases h
      · cases h
      · rename_i content hcontent
        split at h
        · cases h
        · rename_i hdirectory
          split at h
          · cases h
          · rename_i hgranted
            cases h
            exact ⟨fromPlace, toPlace, content, hsource, htarget, hcontent,
              Bool.eq_false_iff.mpr hdirectory, hgranted, rfl⟩
    · cases h
    · cases h
  · rintro ⟨fromPlace, toPlace, content, hsource, htarget, hcontent, hfree, hgranted, rfl⟩
    simp [rename, hsource, htarget, hcontent, hfree, hgranted]

theorem write_ok {path : Path} {content : ByteArray} {later : Disk}
    (h : disk.write path content = (.ok (), later)) :
    ∃ place, disk.locate path = .ok place ∧ disk.isDirectoryAt place = false ∧
      later = disk.set place (.file content) := by
  obtain ⟨place, hplace, hfree, _, _, hlater⟩ := write_eq_ok_iff.mp h
  exact ⟨place, hplace, hfree, hlater⟩

theorem readBytes_of_file {path : Path} {content : ByteArray}
    (hplace : disk.locate path = .ok place) (hfile : disk.entry? place = some (.file content))
    (hpath : path.endsAtDirectory = false) : disk.readBytes path = .ok content := by
  simp [readBytes, find, hplace, hfile, hpath]

/-- What was written as text is read back as it was. -/
theorem readText_of_bytes {path : Path} {text : String}
    (h : disk.readBytes path = .ok text.toUTF8) : disk.readText path = .ok text := by
  have hvalid : text.toUTF8.IsValidUTF8 := text.isValidUTF8
  have hread : String.fromUTF8? text.toUTF8 = some text := dif_pos hvalid
  simp only [readText, h, hread]

theorem endsAtDirectory_of_write {path : Path} {content : ByteArray} {later : Disk}
    (h : disk.write path content = (.ok (), later)) : path.endsAtDirectory = false := by
  obtain ⟨_, _, _, hpath, _⟩ := write_eq_ok_iff.mp h
  exact hpath

theorem readBytes_of_write {path : Path} {content : ByteArray} {later : Disk}
    (h : disk.write path content = (.ok (), later)) : later.readBytes path = .ok content := by
  have hpath := endsAtDirectory_of_write h
  obtain ⟨place, hplace, hfree, rfl⟩ := write_ok h
  exact readBytes_of_file ((keepsDirectories_set hfree _).locate hplace)
    (entry?_set_self (ne_nil_of_not_directory hfree) _) hpath

theorem KeepsDirectories.trans {later last : Disk} (hfirst : disk.KeepsDirectories later)
    (hsecond : later.KeepsDirectories last) : disk.KeepsDirectories last where
  here := hsecond.here.trans hfirst.here
  stays := fun place hplace => hsecond.stays place (hfirst.stays place hplace)

/-- A file that was written beside its place and then moved onto it stands there, and nothing
changes but at the two places. -/
theorem write_rename_ok {source target : Path} {content : ByteArray} {written later : Disk}
    (hwrite : disk.write source content = (.ok (), written))
    (hrename : written.rename source target = (.ok (), later)) :
    ∃ fromPlace toPlace, disk.locate source = .ok fromPlace ∧ later.locate target = .ok toPlace ∧
      later.entry? toPlace = some (.file content) ∧ disk.KeepsDirectories later ∧
      ∀ other, other ≠ fromPlace → other ≠ toPlace → later.entry? other = disk.entry? other := by
  obtain ⟨place, hplace, hfree, rfl⟩ := write_ok hwrite
  obtain ⟨fromPlace, toPlace, moved, hsource, hto, hfile, hdirectory, _, rfl⟩ :=
    rename_eq_ok_iff.mp hrename
  have hwritten := keepsDirectories_set hfree (.file content)
  obtain rfl : fromPlace = place := Except.ok.inj (hsource.symm.trans (hwritten.locate hplace))
  have hmoved : moved = content := by
    rw [entry?_set_self (ne_nil_of_not_directory hfree)] at hfile
    cases hfile
    rfl
  obtain rfl := hmoved
  have hkeeps := keepsDirectories_move hfile hdirectory (.file moved)
  refine ⟨fromPlace, toPlace, hplace, hkeeps.locate hto,
    entry?_set_self (ne_nil_of_not_directory hdirectory) _, hwritten.trans hkeeps,
    fun other hfrom hother => ?_⟩
  rw [entry?_set_of_ne hother, entry?_erase_of_ne hfrom, entry?_set_of_ne hfrom]

end Disk

end SpanReview
