import SpanReview.Proofs.Settings.Stored

namespace SpanReview

/-! A settings file may have members that are no settings. They are passed over when the file is
read, and a file that is written anew has the known members only. -/

namespace Json

/-- A member of a written object, by its key and its value. A repeated key may have several. -/
def Written.Holds : Written → String → Json → Prop
  | .object members, key, value => ∃ member ∈ members, Spells member.1 key ∧
      ∃ depth, member.2.json? depth = some value
  | _, _, _ => False

/-- A text, or a list of texts. -/
inductive Flat : Json → Prop
  | string (text : String) : Flat (.string text)
  | strings (texts : List String) : Flat (.strings texts)

section Values

variable {written item : Written} {value other : Json} {depth : Nat} {texts : List String}
  {items : List Written}

theorem items?_of_shows (h : List.Forall₂ Shows items (texts.map .string)) (depth : Nat) :
    Written.items? depth items = some (texts.map .string) := by
  induction texts generalizing items with
  | nil =>
      cases h
      rfl
  | cons text texts ih =>
      cases h with
      | @cons item _ rest _ hitem hrest =>
          cases hitem with
          | @string pieces _ hspells =>
              have hvalue : Written.json? depth (.string pieces) = some (.string text) := by
                rw [Written.json?, hspells, Option.map_some]
              rw [Written.items?, hvalue, ih hrest]
              rfl

theorem Flat.json?_of_shows (hflat : Flat value) (h : Shows item value) (depth : Nat) :
    item.json? (depth + 1) = some value := by
  cases hflat with
  | string text =>
      cases h with
      | string hspells => rw [Written.json?, hspells, Option.map_some]
  | strings texts =>
      cases h with
      | array hitems => rw [Written.json?, items?_of_shows hitems, Option.map_some, Json.strings]

theorem Flat.eq_of_json? (hflat : Flat value) (h : Shows item value)
    (hother : item.json? depth = some other) : other = value := by
  cases depth with
  | succ depth => exact Option.some.inj (hother.symm.trans (hflat.json?_of_shows h depth))
  | zero =>
      cases hflat with
      | string text =>
          cases h with
          | string hspells =>
              rw [Written.json?, hspells, Option.map_some] at hother
              exact (Option.some.inj hother).symm
      | strings texts =>
          cases h with
          | array hitems =>
              rw [Written.json?] at hother
              cases hother

end Values

/-! The members of what shows an object. -/

theorem exists_mem_of_forall₂ {related : α → β → Prop} {left : List α} {right : List β}
    (h : List.Forall₂ related left right) :
    (∀ a ∈ left, ∃ b ∈ right, related a b) ∧ ∀ b ∈ right, ∃ a ∈ left, related a b := by
  induction h with
  | nil => exact ⟨nofun, nofun⟩
  | cons hfirst hrest ih =>
      obtain ⟨hleft, hright⟩ := ih
      refine ⟨List.forall_mem_cons.mpr ⟨⟨_, List.mem_cons_self, hfirst⟩, fun a ha => ?_⟩,
        List.forall_mem_cons.mpr ⟨⟨_, List.mem_cons_self, hfirst⟩, fun b hb => ?_⟩⟩
      · obtain ⟨b, hb, hrelated⟩ := hleft a ha
        exact ⟨b, List.mem_cons_of_mem _ hb, hrelated⟩
      · obtain ⟨a, ha, hrelated⟩ := hright b hb
        exact ⟨a, List.mem_cons_of_mem _ ha, hrelated⟩

variable {written : Written} {values : List (String × Json)} {key : String} {value : Json}

theorem Shows.members (h : Shows written (.object values)) :
    ∃ members, written = .object members ∧
      List.Forall₂ (fun member value => Spells member.1 value.1 ∧ Shows member.2 value.2)
        members values := by
  cases h with
  | @object members _ hkeys hvalues =>
      refine ⟨members, rfl, ?_⟩
      induction members generalizing values with
      | nil =>
          cases values with
          | nil => exact .nil
          | cons value rest => cases hkeys
      | cons member members ih =>
          cases values with
          | nil => cases hkeys
          | cons value rest =>
              obtain ⟨hkey, hkeys⟩ := List.forall₂_cons.mp hkeys
              obtain ⟨hvalue, hvalues⟩ := List.forall₂_cons.mp hvalues
              exact .cons ⟨hkey, hvalue⟩ (ih hkeys hvalues)

theorem Shows.holds_iff (h : Shows written (.object values))
    (hflat : ∀ value, (key, value) ∈ values → Flat value) :
    written.Holds key value ↔ (key, value) ∈ values := by
  obtain ⟨members, rfl, hmembers⟩ := h.members
  obtain ⟨hleft, hright⟩ := exists_mem_of_forall₂ hmembers
  constructor
  · rintro ⟨member, hmember, hspells, depth, hvalue⟩
    obtain ⟨⟨other, shown⟩, hshown, hkey, hshows⟩ := hleft member hmember
    obtain rfl : key = other := Option.some.inj (hspells.symm.trans hkey)
    rwa [(hflat shown hshown).eq_of_json? hshows hvalue]
  · intro hvalue
    obtain ⟨member, hmember, hkey, hshows⟩ := hright _ hvalue
    exact ⟨member, hmember, hkey, 1, (hflat value hvalue).json?_of_shows hshows 0⟩

end Json

namespace Settings

open Json (Written Piece Spells Shows Flat)

variable {settings stored : Settings} {path : Path} {display : DisplayOptions}
  {disk later : Disk} {key : String} {value : Json} {item old : Written}

def members (settings : Settings) : List (String × Json) :=
  [("cases_dir", .string settings.casesDir), ("case_extension", .string settings.caseExtension),
    ("fixture_root", .string settings.fixtureRoot), ("command", .strings settings.command),
    ("display", settings.display.toJson)]

theorem flat_of_mem (hkey : key ≠ "display") (h : (key, value) ∈ settings.members) :
    Flat value := by
  simp only [members, List.mem_cons, Prod.mk.injEq, List.not_mem_nil, or_false] at h
  rcases h with ⟨_, rfl⟩ | ⟨_, rfl⟩ | ⟨_, rfl⟩ | ⟨_, rfl⟩ | ⟨rfl, _⟩
  · exact .string _
  · exact .string _
  · exact .string _
  · exact .strings _
  · exact absurd rfl hkey

theorem mem_fieldNames_of_mem (h : (key, value) ∈ settings.members) : key ∈ fieldNames :=
  List.mem_map_of_mem (f := Prod.fst) h

theorem mem_members_with (hkey : key ≠ "display") :
    (key, value) ∈ { settings with display := display }.members ↔
      (key, value) ∈ settings.members := by
  simp [members, hkey]

/-! Reading a known member. -/

theorem shows_of_string? {text : String} (h : string? item = some text) :
    Shows item (.string text) := by
  cases item with
  | string pieces => exact .string h
  | _ => cases h

theorem shows_of_strings? {texts : List String} (h : strings? item = some texts) :
    Shows item (.strings texts) := by
  cases item with
  | array items =>
      refine .array ?_
      rw [strings?] at h
      induction items generalizing texts with
      | nil =>
          cases h
          exact .nil
      | cons item items ih =>
          rw [List.mapM_cons, Option.bind_eq_bind, Option.bind_eq_some_iff] at h
          obtain ⟨text, hitem, hrest⟩ := h
          rw [Option.bind_eq_bind, Option.bind_eq_some_iff] at hrest
          obtain ⟨others, hothers, hall⟩ := hrest
          cases hall
          exact .cons (shows_of_string? hitem) (ih hothers)
  | _ => cases h

theorem lookup_knownMembers {names : List String} {members : List (List Piece × Written)}
    {fields : List (String × Written)} {member : List Piece × Written}
    (h : knownMembers names members = some fields) (hmember : member ∈ members)
    (hspells : Spells member.1 key) (hkey : key ∈ names) : fields.lookup key = some member.2 := by
  induction members generalizing fields with
  | nil => cases hmember
  | cons first rest ih =>
      obtain ⟨pieces, value⟩ := first
      rw [knownMembers] at h
      split at h
      · rename_i name others hname hothers
        split at h
        · rename_i hknown
          split at h
          · cases h
          · rename_i hfresh
            cases h
            rcases List.mem_cons.mp hmember with rfl | hrest
            · obtain rfl : key = name := Option.some.inj (hspells.symm.trans hname)
              exact List.lookup_cons_self
            · have hlater := ih hothers hrest
              have hne : (key == name) = false := by
                rw [beq_eq_false_iff_ne]
                rintro rfl
                exact hfresh (Option.isSome_of_eq_some hlater)
              rw [List.lookup_cons, hne, hlater]
        · rename_i hunknown
          cases h
          rcases List.mem_cons.mp hmember with rfl | hrest
          · obtain rfl : key = name := Option.some.inj (hspells.symm.trans hname)
            exact absurd (List.contains_iff_mem.mpr hkey) hunknown
          · exact ih hothers hrest
      · cases h

section Field

variable {fields : List (String × Written)} {depth : Nat}

theorem string_of_field {text default : String} (hitem : fields.lookup key = some item)
    (h : field? fields key string? default = some text) (hvalue : item.json? depth = some value) :
    value = .string text := by
  rw [field?, hitem] at h
  exact (Flat.string text).eq_of_json? (shows_of_string? h) hvalue

theorem strings_of_field {texts default : List String} (hitem : fields.lookup key = some item)
    (h : field? fields key strings? default = some texts)
    (hvalue : item.json? depth = some value) : value = .strings texts := by
  rw [field?, hitem] at h
  exact (Flat.strings texts).eq_of_json? (shows_of_strings? h) hvalue

end Field

/-- What a settings file holds for a known member is the setting that is read from it. -/
theorem mem_members_of_holds (h : ofWritten? old = some stored) (hold : old.Holds key value)
    (hknown : key ∈ fieldNames) (hkey : key ≠ "display") : (key, value) ∈ stored.members := by
  cases old with
  | object written =>
      obtain ⟨member, hmember, hspells, depth, hvalue⟩ := hold
      simp only [ofWritten?, fields?, Option.bind_eq_bind, Option.bind_eq_some_iff] at h
      obtain ⟨fields, hfields, casesDir, hcases, extension, hextension, root, hroot, command,
        hcommand, display, hdisplay, hstored⟩ := h
      cases hstored
      have hitem := lookup_knownMembers hfields hmember hspells hknown
      simp only [fieldNames, List.mem_cons, List.not_mem_nil, or_false] at hknown
      rcases hknown with rfl | rfl | rfl | rfl | rfl
      · simp [members, string_of_field hitem hcases hvalue]
      · simp [members, string_of_field hitem hextension hvalue]
      · simp [members, string_of_field hitem hroot hvalue]
      · simp [members, strings_of_field hitem hcommand hvalue]
      · exact absurd rfl hkey
  | _ => cases hold

/-! The settings file. -/

theorem members_of_save (h : settings.save path disk = (.ok (), later)) :
    ∃ text written, later.readText path = .ok text ∧ Written.parse? text = some written ∧
      Shows written (.object settings.members) := by
  unfold save at h
  split at h
  · rename_i hwrite
    cases h
    obtain ⟨written, hparse, hshows⟩ := (textual_toJson settings).parse?_pretty
    exact ⟨_, written, Disk.readText_of_bytes (Disk.readBytes_of_write hwrite), hparse, hshows⟩
  · cases h

/-- Display options that are stored leave every other member of the settings file as it was
exactly if they are not new or the member is a setting. A member that is none is gone once the
file is written. -/
theorem stored_members_kept_iff {text : String} {old : List (List Piece × Written)}
    (hread : disk.readText path = .ok text) (hold : Written.parse? text = some (.object old))
    (hload : load path disk = .ok stored)
    (hstore : storeDisplay path display disk = (.ok (), later)) :
    ∃ text new, later.readText path = .ok text ∧ Written.parse? text = some (.object new) ∧
      ∀ key value, key ≠ "display" → (Written.object old).Holds key value →
        ((Written.object new).Holds key value ↔ stored.display = display ∨ key ∈ fieldNames) := by
  by_cases hsame : stored.display = display
  · simp only [storeDisplay, hload, if_pos hsame] at hstore
    cases hstore
    exact ⟨text, old, hread, hold, fun key value _ hholds => iff_of_true hholds (.inl hsame)⟩
  · rw [storeDisplay_of_ne hload hsame] at hstore
    obtain ⟨later', written, hreads, hparse, hshows⟩ := members_of_save hstore
    obtain ⟨new, rfl, _⟩ := hshows.members
    have hstored : ofWritten? (.object old) = some stored := by
      simp only [load, hread, parse?, hold, Option.bind_some] at hload
      split at hload
      · rename_i hparsed
        cases hload
        exact hparsed
      · cases hload
    refine ⟨later', new, hreads, hparse, fun key value hkey hholds => ?_⟩
    rw [hshows.holds_iff fun value hmem => flat_of_mem hkey hmem, mem_members_with hkey]
    constructor
    · exact fun hmem => .inr (mem_fieldNames_of_mem hmem)
    · rintro (hshown | hknown)
      · exact absurd hshown hsame
      · exact mem_members_of_holds hstored hholds hknown hkey

def noteText : String :=
  "\x7b\"command\":[\"node\"],\"note\":1\x7d"

def noteMembers : List (List Piece × Written) :=
  [("command".toList.map .char, .array [.string ("node".toList.map .char)]),
    ("note".toList.map .char, .number ⟨false, ['1'], [], none⟩)]

/-- A settings file with a note of the operator in it. -/
def annotated : Disk where
  entries := [(["locfix.json"], .file noteText.toUTF8)]

theorem parse?_noteText : Written.parse? noteText = some (.object noteMembers) := by
  cbv

theorem readText_annotated : annotated.readText "locfix.json" = .ok noteText :=
  Disk.readText_of_bytes rfl

theorem load_annotated :
    load "locfix.json" annotated = .ok { Settings.default with command := ["node"] } := by
  simp only [load, readText_annotated, parse?, parse?_noteText, Option.bind_some]
  rfl

theorem storeDisplay_annotated :
    ∃ later, storeDisplay "locfix.json" ⟨true, false⟩ annotated = (.ok (), later) := by
  have hstores : (storeDisplay "locfix.json" ⟨true, false⟩ annotated).1 = .ok () := by
    have hdiffers : Settings.default.display ≠ ⟨true, false⟩ := by decide
    rw [storeDisplay_of_ne load_annotated hdiffers]
    decide +kernel
  generalize storeDisplay "locfix.json" ⟨true, false⟩ annotated = outcome at hstores
  obtain ⟨result, later⟩ := outcome
  exact ⟨later, congrArg (·, later) hstores⟩

theorem holds_command : (Written.object noteMembers).Holds "command" (.strings ["node"]) :=
  ⟨_, List.mem_cons_self, rfl, 1, rfl⟩

theorem holds_note : (Written.object noteMembers).Holds "note" (.int 1) :=
  ⟨_, List.mem_cons_of_mem _ List.mem_cons_self, rfl, 0, rfl⟩

theorem note_lost_command_kept :
    ∃ later text new, storeDisplay "locfix.json" ⟨true, false⟩ annotated = (.ok (), later) ∧
      later.readText "locfix.json" = .ok text ∧ Written.parse? text = some (.object new) ∧
      (Written.object new).Holds "command" (.strings ["node"]) ∧
      ¬ (Written.object new).Holds "note" (.int 1) := by
  obtain ⟨later, hstore⟩ := storeDisplay_annotated
  obtain ⟨text, new, hread, hparse, hkept⟩ :=
    stored_members_kept_iff readText_annotated parse?_noteText load_annotated hstore
  refine ⟨later, text, new, hstore, hread, hparse, ?_, ?_⟩
  · exact (hkept _ _ (by decide) holds_command).mpr (.inr (by decide))
  · exact fun hnote => absurd ((hkept _ _ (by decide) holds_note).mp hnote) (by decide)

/-- The file held a note, and what is written holds nothing of that name. -/
theorem note_is_dropped :
    annotated.readText "locfix.json" = .ok noteText ∧
      Written.parse? noteText = some (.object noteMembers) ∧
      (Written.object noteMembers).Holds "note" (.int 1) ∧
      ∃ later text new, storeDisplay "locfix.json" ⟨true, false⟩ annotated = (.ok (), later) ∧
        later.readText "locfix.json" = .ok text ∧ Written.parse? text = some new ∧
        ∀ value, ¬ new.Holds "note" value := by
  obtain ⟨later, hstore⟩ := storeDisplay_annotated
  refine ⟨readText_annotated, parse?_noteText, holds_note, later, ?_⟩
  have hdiffers : Settings.default.display ≠ ⟨true, false⟩ := by decide
  have hsave := (storeDisplay_of_ne load_annotated hdiffers).symm.trans hstore
  obtain ⟨text, new, hread, hparse, hshows⟩ := members_of_save hsave
  refine ⟨text, new, hstore, hread, hparse, fun value hnote => ?_⟩
  have hmem := (hshows.holds_iff fun value => flat_of_mem (by decide)).mp hnote
  exact absurd (mem_fieldNames_of_mem hmem) (by decide)

end Settings

end SpanReview
