import SpanReview.Proofs.Disk.Update
import SpanReview.Proofs.Json.Pretty
import SpanReview.Settings.File

namespace SpanReview.Settings

open Json (Written Piece Spells Shows Textual)

/-! Settings that are saved are loaded again as they were. -/

theorem textual_strings (texts : List String) : Textual (.strings texts) := by
  refine .array fun item hitem => ?_
  obtain ⟨text, _, rfl⟩ := List.mem_map.mp hitem
  exact .string text

theorem textual_toJson (settings : Settings) : Textual settings.toJson := by
  have hdisplay : Textual settings.display.toJson := by
    refine .object fun member hmember => ?_
    rcases List.mem_pair.mp hmember with rfl | rfl <;> exact .bool _
  refine .object fun member hmember => ?_
  simp only [List.mem_cons, List.not_mem_nil, or_false] at hmember
  rcases hmember with rfl | rfl | rfl | rfl | rfl
  · exact .string _
  · exact .string _
  · exact .string _
  · exact textual_strings _
  · exact hdisplay

/-! Reading what shows a record. -/

/-- Members with distinct keys, all of them known, are the fields of a record. -/
theorem knownMembers_of_spells {names keys : List String} {members : List (List Piece × Written)}
    (hkeys : List.Forall₂ Spells (members.map Prod.fst) keys) (hknown : ∀ key ∈ keys, key ∈ names)
    (hdistinct : keys.Nodup) :
    knownMembers names members = some (keys.zip (members.map Prod.snd)) := by
  induction members generalizing keys with
  | nil =>
      cases hkeys
      rfl
  | cons member rest ih =>
      obtain ⟨pieces, value⟩ := member
      cases hkeys with
      | @cons _ key _ others hspells hrest =>
          obtain ⟨hfresh, hdistinct⟩ := List.nodup_cons.mp hdistinct
          have hothers := ih hrest (List.forall_mem_of_forall_mem_cons hknown) hdistinct
          have hname : names.contains key = true :=
            List.contains_iff_mem.mpr (hknown key List.mem_cons_self)
          have hnone : ((others.zip (rest.map Prod.snd)).lookup key).isSome = false := by
            rw [Option.isSome_eq_false_iff, Option.isNone_iff_eq_none, List.lookup_eq_none_iff]
            intro field hfield
            have hne : key ≠ field.1 := by
              rintro rfl
              exact hfresh (List.of_mem_zip hfield).1
            simpa using hne
          rw [knownMembers, hspells, hothers]
          simp only [hname, hnone, if_true, Bool.false_eq_true, if_false]
          rfl

/-- A written object with just the fields of a record, in their order. -/
theorem fields?_of_shows {names : List String} {written : Written} {values : List Json}
    (h : Shows written (.object (names.zip values))) (hlength : values.length = names.length)
    (hdistinct : names.Nodup) :
    ∃ fields, fields? names written = some (names.zip fields) ∧
      List.Forall₂ Shows fields values := by
  cases h with
  | @object members _ hkeys hvalues =>
      rw [List.map_fst_zip (Nat.le_of_eq hlength.symm)] at hkeys
      rw [List.map_snd_zip (Nat.le_of_eq hlength)] at hvalues
      exact ⟨members.map Prod.snd, knownMembers_of_spells hkeys (fun _ => id) hdistinct, hvalues⟩

theorem string?_of_shows {written : Written} {text : String} (h : Shows written (.string text)) :
    string? written = some text := by
  cases h with
  | string hspells => exact hspells

theorem bool?_of_shows {written : Written} {value : Bool} (h : Shows written (.bool value)) :
    bool? written = some value := by
  cases h
  rfl

theorem strings?_of_shows {written : Written} {texts : List String}
    (h : Shows written (.strings texts)) : strings? written = some texts := by
  cases h with
  | @array items _ hitems =>
      rw [strings?]
      induction texts generalizing items with
      | nil =>
          cases hitems
          rfl
      | cons text texts ih =>
          cases hitems with
          | cons hitem hrest => rw [List.mapM_cons, string?_of_shows hitem, ih hrest]; rfl

theorem display?_of_shows {written : Written} {display : DisplayOptions}
    (h : Shows written display.toJson) : display? written = some display := by
  obtain ⟨fields, hfields, hshows⟩ :=
    @fields?_of_shows ["json", "show_token"] _ [.bool display.json, .bool display.showToken] h rfl
      (by decide)
  obtain _ | ⟨hjson, _ | ⟨htoken, _ | _⟩⟩ := hshows
  simp [display?, hfields, field?, List.lookup_cons, bool?_of_shows hjson,
    bool?_of_shows htoken]

theorem ofWritten?_of_shows {written : Written} {settings : Settings}
    (h : Shows written settings.toJson) : ofWritten? written = some settings := by
  obtain ⟨fields, hfields, hshows⟩ := @fields?_of_shows fieldNames _
    [.string settings.casesDir, .string settings.caseExtension, .string settings.fixtureRoot,
      .strings settings.command, settings.display.toJson] h rfl (by decide)
  obtain _ | ⟨hcases, _ | ⟨hextension, _ | ⟨hroot, _ | ⟨hcommand, _ | ⟨hdisplay, _ | _⟩⟩⟩⟩⟩ :=
    hshows
  rw [ofWritten?, hfields]
  simp [fieldNames, field?, List.lookup_cons, string?_of_shows hcases, string?_of_shows hextension,
    string?_of_shows hroot, strings?_of_shows hcommand, display?_of_shows hdisplay]

theorem parse?_text (settings : Settings) : parse? settings.text = some settings := by
  obtain ⟨written, hparse, hshows⟩ := (textual_toJson settings).parse?_pretty
  rw [parse?, text, hparse]
  exact ofWritten?_of_shows hshows

/-! The settings file. -/

variable {settings stored : Settings} {path : Path} {display : DisplayOptions}
  {disk later : Disk}

theorem load_of_readBytes (h : later.readBytes path = disk.readBytes path) :
    load path later = load path disk := by
  rw [load, load, Disk.readText, Disk.readText, h]

theorem load_of_missing (h : disk.readBytes path = .error .missing) :
    load path disk = .ok default := by
  simp only [load, Disk.readText, h]

theorem load_of_text (h : disk.readBytes path = .ok settings.text.toUTF8) :
    load path disk = .ok settings := by
  simp only [load, Disk.readText_of_bytes h, parse?_text]

theorem load_of_save (h : settings.save path disk = (.ok (), later)) :
    load path later = .ok settings := by
  unfold save at h
  split at h
  · rename_i hwrite
    cases h
    exact load_of_text (Disk.readBytes_of_write hwrite)
  · cases h

theorem storeDisplay_of_ne (hload : load path disk = .ok stored)
    (hne : stored.display ≠ display) :
    storeDisplay path display disk = { stored with display := display }.save path disk := by
  simp only [storeDisplay, hload, if_neg hne]

/-- Stored display options take the place of those in the file, which keeps all else. -/
theorem load_of_storeDisplay (hload : load path disk = .ok stored)
    (h : storeDisplay path display disk = (.ok (), later)) :
    load path later = .ok { stored with display := display } := by
  by_cases hsame : stored.display = display
  · simp only [storeDisplay, hload, if_pos hsame] at h
    cases h
    rw [hload, ← hsame]
  · rw [storeDisplay_of_ne hload hsame] at h
    exact load_of_save h

end SpanReview.Settings
