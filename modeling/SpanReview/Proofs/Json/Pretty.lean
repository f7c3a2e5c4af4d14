import SpanReview.Proofs.Json.Strings

namespace SpanReview.Json

/-! The indented form of a value is read back as the value was written, numbers apart. -/

/-- Text that is read as some tokens, whatever stands before and after it. -/
def Scans (text : String) (tokens : List Token) : Prop :=
  ∀ read rest, Token.scanInto read (text.toList ++ rest) =
    Token.scanInto (tokens.reverse ++ read) rest

/-- Tokens that are read as a value wherever a value may stand. -/
def Reads (tokens : List Token) (written : Written) : Prop :=
  ∀ stack expected rest, expected = .value ∨ expected = .itemOrEnd →
    Reader.run ⟨stack, expected, none⟩ (tokens ++ rest) =
      (Reader.accept ⟨stack, .next, none⟩ written).bind fun reader => reader.run rest

/-- What is written is a value, its members in the order of the value. -/
inductive Shows : Written → Json → Prop
  | null : Shows .null .null
  | bool (value : Bool) : Shows (.bool value) (.bool value)
  | string {pieces : List Piece} {text : String} (h : Spells pieces text) :
      Shows (.string pieces) (.string text)
  | array {items : List Written} {values : List Json} (h : List.Forall₂ Shows items values) :
      Shows (.array items) (.array values)
  | object {members : List (List Piece × Written)} {values : List (String × Json)}
      (hkeys : List.Forall₂ Spells (members.map Prod.fst) (values.map Prod.fst))
      (hvalues : List.Forall₂ Shows (members.map Prod.snd) (values.map Prod.snd)) :
      Shows (.object members) (.object values)

inductive Textual : Json → Prop
  | null : Textual .null
  | bool (value : Bool) : Textual (.bool value)
  | string (text : String) : Textual (.string text)
  | array {items : List Json} (h : ∀ item ∈ items, Textual item) : Textual (.array items)
  | object {members : List (String × Json)} (h : ∀ member ∈ members, Textual member.2) :
      Textual (.object members)

def Tells (text : String) (value : Json) : Prop :=
  ∃ tokens written, Shows written value ∧ Scans text tokens ∧ Reads tokens written

/-! Scanning. -/

theorem Scans.append {text more : String} {tokens others : List Token} (h : Scans text tokens)
    (hmore : Scans more others) : Scans (text ++ more) (tokens ++ others) := by
  intro read rest
  rw [String.toList_append, List.append_assoc, h, hmore, List.reverse_append, List.append_assoc]

theorem scanInto_space {c : Char} (hspace : Token.isSpace c) (read : List Token)
    (rest : List Char) : Token.scanInto read (c :: rest) = Token.scanInto read rest := by
  rw [Token.scanInto, if_pos hspace]
  all_goals
    intros
    subst_vars
    cases hspace

theorem scanInto_spaces (n : Nat) (read : List Token) (rest : List Char) :
    Token.scanInto read (List.replicate n ' ' ++ rest) = Token.scanInto read rest := by
  induction n with
  | zero => rfl
  | succ n ih =>
      rw [List.replicate_succ, List.cons_append, scanInto_space rfl, ih]

theorem scans_newline (depth : Nat) : Scans (newline depth) [] := by
  intro read rest
  have htext : (newline depth).toList = '\n' :: List.replicate (2 * depth) ' ' := by
    rw [newline, String.toList_append]
    exact congrArg ('\n' :: ·) String.toList_ofList
  rw [htext, List.cons_append, scanInto_space rfl, scanInto_spaces]
  rfl

theorem Scans.spaced {text : String} {tokens : List Token} (h : Scans text tokens) (depth : Nat) :
    Scans (text ++ newline depth) tokens := by
  have hall := h.append (scans_newline depth)
  rwa [List.append_nil] at hall

theorem scans_comma : Scans "," [.comma] := fun read rest => scanInto_comma read rest

theorem scans_colon : Scans ": " [.colon] := by
  intro read rest
  have htext : ": ".toList ++ rest = ':' :: ' ' :: rest := rfl
  rw [htext, Token.scanInto, scanInto_space rfl]
  rfl

theorem scans_openArray : Scans "[" [.openArray] := by
  intro read rest
  have htext : "[".toList ++ rest = '[' :: rest := rfl
  rw [htext, Token.scanInto]
  rfl

theorem scans_closeArray : Scans "]" [.closeArray] := by
  intro read rest
  have htext : "]".toList ++ rest = ']' :: rest := rfl
  rw [htext, Token.scanInto]
  rfl

theorem scans_openObject : Scans "\x7b" [.openObject] := by
  intro read rest
  have htext : "\x7b".toList ++ rest = '\x7b' :: rest := rfl
  rw [htext, Token.scanInto]
  rfl

theorem scans_closeObject : Scans "\x7d" [.closeObject] := by
  intro read rest
  have htext : "\x7d".toList ++ rest = '\x7d' :: rest := rfl
  rw [htext, Token.scanInto]
  rfl

theorem scans_null : Scans "null" [.null] := by
  intro read rest
  have htext : "null".toList ++ rest = 'n' :: 'u' :: 'l' :: 'l' :: rest := rfl
  rw [htext, Token.scanInto]
  rfl

theorem scans_true : Scans "true" [.bool true] := by
  intro read rest
  have htext : "true".toList ++ rest = 't' :: 'r' :: 'u' :: 'e' :: rest := rfl
  rw [htext, Token.scanInto]
  rfl

theorem scans_false : Scans "false" [.bool false] := by
  intro read rest
  have htext : "false".toList ++ rest = 'f' :: 'a' :: 'l' :: 's' :: 'e' :: rest := rfl
  rw [htext, Token.scanInto]
  rfl

theorem scans_quote (text : String) :
    ∃ pieces, Spells pieces text ∧ Scans (quote text) [.string pieces] := by
  obtain ⟨pieces, hspells, hscan⟩ := scanInto_quote text
  exact ⟨pieces, hspells, hscan⟩

/-! Reading. -/

theorem Reader.step_first {token : Token} (stack : List Frame) (hclose : token ≠ .closeArray) :
    Reader.step ⟨stack, .itemOrEnd, none⟩ token =
      Reader.startValue ⟨stack, .itemOrEnd, none⟩ token := by
  cases token with
  | closeArray => exact absurd rfl hclose
  | _ => rfl

theorem reads_scalar {token : Token} {written : Written}
    (hstart : ∀ reader : Reader, reader.startValue token = reader.accept written)
    (hclose : token ≠ .closeArray) : Reads [token] written := by
  intro stack expected rest hexpected
  rw [List.singleton_append, Reader.run]
  rcases hexpected with rfl | rfl
  · exact congrArg (Option.bind · _) (hstart ⟨stack, .value, none⟩)
  · rw [Reader.step_first stack hclose]
    exact congrArg (Option.bind · _) (hstart ⟨stack, .itemOrEnd, none⟩)

theorem reads_null : Reads [.null] .null := reads_scalar (fun _ => rfl) nofun

theorem reads_bool (value : Bool) : Reads [.bool value] (.bool value) :=
  reads_scalar (fun _ => rfl) nofun

theorem reads_string (pieces : List Piece) : Reads [.string pieces] (.string pieces) :=
  reads_scalar (fun _ => rfl) nofun

theorem reads_array {tokens : List Token} {items : List Written}
    (hitems : ∀ below rest,
      Reader.run ⟨.array [] :: below, .itemOrEnd, none⟩ (tokens ++ .closeArray :: rest) =
        Reader.run ⟨.array items.reverse :: below, .next, none⟩ (.closeArray :: rest)) :
    Reads ([.openArray] ++ tokens ++ [.closeArray]) (.array items) := by
  intro stack expected rest hexpected
  have hopen : Reader.step ⟨stack, expected, none⟩ .openArray =
      some ⟨.array [] :: stack, .itemOrEnd, none⟩ := by
    rcases hexpected with rfl | rfl <;> rfl
  have hclose : Reader.step ⟨.array items.reverse :: stack, .next, none⟩ .closeArray =
      Reader.accept ⟨stack, .next, none⟩ (.array items) :=
    congrArg (fun items => Reader.accept ⟨stack, .next, none⟩ (.array items)) items.reverse_reverse
  rw [List.append_assoc, List.append_assoc, List.singleton_append, List.singleton_append,
    Reader.run, hopen, Option.bind_some, hitems, Reader.run, hclose]

theorem reads_object {tokens : List Token} {members : List (List Piece × Written)}
    (hmembers : ∀ below rest,
      Reader.run ⟨.object [] :: below, .memberOrEnd, none⟩ (tokens ++ .closeObject :: rest) =
        Reader.run ⟨.object members.reverse :: below, .next, none⟩ (.closeObject :: rest)) :
    Reads ([.openObject] ++ tokens ++ [.closeObject]) (.object members) := by
  intro stack expected rest hexpected
  have hopen : Reader.step ⟨stack, expected, none⟩ .openObject =
      some ⟨.object [] :: stack, .memberOrEnd, none⟩ := by
    rcases hexpected with rfl | rfl <;> rfl
  have hclose : Reader.step ⟨.object members.reverse :: stack, .next, none⟩ .closeObject =
      Reader.accept ⟨stack, .next, none⟩ (.object members) :=
    congrArg (fun members => Reader.accept ⟨stack, .next, none⟩ (.object members))
      members.reverse_reverse
  rw [List.append_assoc, List.append_assoc, List.singleton_append, List.singleton_append,
    Reader.run, hopen, Option.bind_some, hmembers, Reader.run, hclose]

/-! Values. -/

/-- Items in a row, after those that were read already. -/
theorem tells_items {depth : Nat} (item : Json) (rest : List Json)
    (hitems : ∀ other ∈ item :: rest, Tells (prettyAt depth other) other) :
    ∃ tokens items, List.Forall₂ Shows items (item :: rest) ∧
      Scans (prettyItems depth (item :: rest)) tokens ∧
      ∀ read below expected after, expected = .value ∨ expected = .itemOrEnd →
        Reader.run ⟨.array read :: below, expected, none⟩ (tokens ++ after) =
          Reader.run ⟨.array (items.reverse ++ read) :: below, .next, none⟩ after := by
  obtain ⟨tokens, written, hshows, hscans, hreads⟩ := hitems item List.mem_cons_self
  induction rest generalizing item tokens written with
  | nil =>
      refine ⟨tokens, [written], .cons hshows .nil, hscans, ?_⟩
      intro read below expected after hexpected
      exact hreads _ expected after hexpected
  | cons next rest ih =>
      have hlater := List.forall_mem_of_forall_mem_cons hitems
      obtain ⟨_, _, hnext, hnextScans, hnextReads⟩ := hlater next List.mem_cons_self
      obtain ⟨others, items, hshown, hothers, hrun⟩ :=
        ih next hlater _ _ hnext hnextScans hnextReads
      refine ⟨tokens ++ [.comma] ++ others, written :: items, .cons hshows hshown, ?_, ?_⟩
      · rw [prettyItems]
        · exact ((hscans.append scans_comma).spaced depth).append hothers
        · exact List.cons_ne_nil next rest
      · intro read below expected after hexpected
        have hcomma : Reader.step ⟨.array (written :: read) :: below, .next, none⟩ .comma =
            some ⟨.array (written :: read) :: below, .value, none⟩ := rfl
        rw [List.append_assoc, List.append_assoc, hreads _ _ _ hexpected, Reader.accept,
          Option.bind_some, List.singleton_append, Reader.run, hcomma, Option.bind_some,
          hrun _ _ _ _ (.inl rfl), List.reverse_cons, List.append_assoc, List.singleton_append]

/-- A member, after those of its object that were read already. -/
theorem run_member {key : List Piece} {tokens : List Token} {written : Written}
    (hreads : Reads tokens written) (read : List (List Piece × Written)) (below : List Frame)
    (expected : Expected) (rest : List Token)
    (hexpected : expected = .key ∨ expected = .memberOrEnd) :
    Reader.run ⟨.object read :: below, expected, none⟩
        ([.string key] ++ [.colon] ++ tokens ++ rest) =
      Reader.run ⟨.object ((key, written) :: read) :: below, .next, none⟩ rest := by
  have hkey : Reader.step ⟨.object read :: below, expected, none⟩ (.string key) =
      some ⟨.object read :: below, .colon key, none⟩ := by
    rcases hexpected with rfl | rfl <;> rfl
  have hcolon : Reader.step ⟨.object read :: below, .colon key, none⟩ .colon =
      some ⟨.member read key :: below, .value, none⟩ := rfl
  rw [List.append_assoc, List.append_assoc, List.singleton_append, List.singleton_append,
    Reader.run, hkey, Option.bind_some, Reader.run, hcolon, Option.bind_some,
    hreads _ _ _ (.inl rfl), Reader.accept, Option.bind_some]

theorem tells_members {depth : Nat} (member : String × Json) (rest : List (String × Json))
    (hmembers : ∀ other ∈ member :: rest, Tells (prettyAt depth other.2) other.2) :
    ∃ tokens, ∃ members : List (List Piece × Written),
      List.Forall₂ Spells (members.map Prod.fst) ((member :: rest).map Prod.fst) ∧
      List.Forall₂ Shows (members.map Prod.snd) ((member :: rest).map Prod.snd) ∧
      Scans (prettyMembers depth (member :: rest)) tokens ∧
      ∀ read below expected after, expected = .key ∨ expected = .memberOrEnd →
        Reader.run ⟨.object read :: below, expected, none⟩ (tokens ++ after) =
          Reader.run ⟨.object (members.reverse ++ read) :: below, .next, none⟩ after := by
  obtain ⟨tokens, written, hshows, hscans, hreads⟩ := hmembers member List.mem_cons_self
  obtain ⟨key, hspells, hkey⟩ := scans_quote member.1
  have hmember := (hkey.append scans_colon).append hscans
  induction rest generalizing member tokens written key with
  | nil =>
      refine ⟨_, [(key, written)], .cons hspells .nil, .cons hshows .nil, hmember, ?_⟩
      intro read below expected after hexpected
      exact run_member hreads read below expected after hexpected
  | cons next rest ih =>
      have hlater := List.forall_mem_of_forall_mem_cons hmembers
      obtain ⟨_, _, hnext, hnextScans, hnextReads⟩ := hlater next List.mem_cons_self
      obtain ⟨_, hnextSpells, hnextKey⟩ := scans_quote next.1
      obtain ⟨others, members, hkeys, hvalues, hothers, hrun⟩ :=
        ih next hlater _ _ hnext hnextScans hnextReads _ hnextSpells hnextKey
          ((hnextKey.append scans_colon).append hnextScans)
      refine ⟨[.string key] ++ [.colon] ++ tokens ++ [.comma] ++ others, (key, written) :: members,
        .cons hspells hkeys, .cons hshows hvalues, ?_, ?_⟩
      · rw [prettyMembers]
        · exact ((hmember.append scans_comma).spaced depth).append hothers
        · exact List.cons_ne_nil next rest
      · intro read below expected after hexpected
        have hcomma : Reader.step ⟨.object ((key, written) :: read) :: below, .next, none⟩ .comma =
            some ⟨.object ((key, written) :: read) :: below, .key, none⟩ := rfl
        rw [List.append_assoc, List.append_assoc, run_member hreads _ _ _ _ hexpected,
          List.singleton_append, Reader.run, hcomma, Option.bind_some, hrun _ _ _ _ (.inl rfl),
          List.reverse_cons, List.append_assoc, List.singleton_append]

theorem Textual.tells {value : Json} (h : Textual value) (depth : Nat) :
    Tells (prettyAt depth value) value := by
  induction h generalizing depth with
  | null =>
      rw [prettyAt]
      exact ⟨_, _, .null, scans_null, reads_null⟩
  | bool value =>
      cases value with
      | true =>
          rw [prettyAt]
          exact ⟨_, _, .bool true, scans_true, reads_bool true⟩
      | false =>
          rw [prettyAt]
          exact ⟨_, _, .bool false, scans_false, reads_bool false⟩
  | string text =>
      obtain ⟨pieces, hspells, hscans⟩ := scans_quote text
      rw [prettyAt]
      exact ⟨_, _, .string hspells, hscans, reads_string pieces⟩
  | @array items _ ih =>
      cases items with
      | nil =>
          rw [prettyAt]
          exact ⟨_, .array [], .array .nil, scans_openArray.append scans_closeArray,
            reads_array fun _ _ => rfl⟩
      | cons item rest =>
          obtain ⟨tokens, items, hshows, hscans, hrun⟩ :=
            tells_items item rest fun other hother => ih other hother (depth + 1)
          have hbegin := scans_openArray.spaced (depth + 1)
          have hall := ((hbegin.append hscans).spaced depth).append scans_closeArray
          rw [prettyAt]
          refine ⟨_, .array items, .array hshows, hall, reads_array ?_⟩
          intro below after
          rw [hrun [] below .itemOrEnd _ (.inr rfl), List.append_nil]
  | @object members _ ih =>
      cases members with
      | nil =>
          rw [prettyAt]
          exact ⟨_, .object [], .object .nil .nil, scans_openObject.append scans_closeObject,
            reads_object fun _ _ => rfl⟩
      | cons member rest =>
          obtain ⟨tokens, members, hkeys, hvalues, hscans, hrun⟩ :=
            tells_members member rest fun other hother => ih other hother (depth + 1)
          have hbegin := scans_openObject.spaced (depth + 1)
          have hall := ((hbegin.append hscans).spaced depth).append scans_closeObject
          rw [prettyAt]
          refine ⟨_, .object members, .object hkeys hvalues, hall, reads_object ?_⟩
          intro below after
          rw [hrun [] below .memberOrEnd _ (.inr rfl), List.append_nil]

/-- The indented text of a value is read back as the value was written. -/
theorem Textual.parse?_pretty {value : Json} (h : Textual value) :
    ∃ written, Written.parse? value.pretty = some written ∧ Shows written value := by
  obtain ⟨tokens, written, hshows, hscans, hreads⟩ := h.tells 0
  have hscan : Token.scan? value.pretty.toList = some tokens := by
    have hall := hscans [] []
    rw [List.append_nil, List.append_nil, Token.scanInto, List.reverse_reverse] at hall
    exact hall
  have hrun := hreads [] .value [] (.inl rfl)
  rw [List.append_nil] at hrun
  refine ⟨written, ?_, hshows⟩
  rw [Written.parse?, hscan, Option.bind_some, Written.ofTokens?, Reader.start, hrun]
  rfl

end SpanReview.Json
