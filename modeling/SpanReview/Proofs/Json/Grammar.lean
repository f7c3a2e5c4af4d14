import SpanReview.Proofs.Json.Pretty
import SpanReview.Proofs.Json.Reader

namespace SpanReview.Json

/-! Which texts are read as an array of strings: those of the form that the rules here describe,
and no others. -/

/-- The inside of a string and the text it stands for. A character outside the basic plane may be
written as the two halves of a pair. -/
inductive StringBody : List Char → List Char → Prop
  | nil : StringBody [] []
  | char {c : Char} {part chars text : List Char} (hpart : Spelling (.char c) part)
      (h : StringBody chars text) : StringBody (part ++ chars) (c :: text)
  | unit {code : Nat} {part chars text : List Char} (hpart : Spelling (.unit code) part)
      (hwhole : isHighHalf code = false ∧ isLowHalf code = false) (h : StringBody chars text) :
      StringBody (part ++ chars) (Char.ofNat code :: text)
  | pair {high low : Nat} {part other chars text : List Char}
      (hpart : Spelling (.unit high) part) (hother : Spelling (.unit low) other)
      (hhalves : isHighHalf high ∧ isLowHalf low) (h : StringBody chars text) :
      StringBody (part ++ (other ++ chars))
        (Char.ofNat (0x10000 + (high - 0xD800) * 0x400 + (low - 0xDC00)) :: text)

def Space (chars : List Char) : Prop :=
  ∀ c ∈ chars, Token.isSpace c

/-- A string in its quotes, with white space around it. -/
inductive StringItem : List Char → String → Prop
  | quoted {lead body tail : List Char} {text : String} (hlead : Space lead)
      (hbody : StringBody body text.toList) (htail : Space tail) :
      StringItem (lead ++ '"' :: (body ++ '"' :: tail)) text

/-- One or more strings with commas between them. -/
inductive StringItems : List Char → List String → Prop
  | last {chars : List Char} {text : String} (h : StringItem chars text) :
      StringItems chars [text]
  | next {chars more : List Char} {text : String} {texts : List String}
      (h : StringItem chars text) (hmore : StringItems more texts) :
      StringItems (chars ++ ',' :: more) (text :: texts)

inductive StringArray : List Char → List String → Prop
  | empty {lead inside tail : List Char} (hlead : Space lead) (hinside : Space inside)
      (htail : Space tail) : StringArray (lead ++ '[' :: (inside ++ ']' :: tail)) []
  | items {lead inside tail : List Char} {texts : List String} (hlead : Space lead)
      (hinside : StringItems inside texts) (htail : Space tail) :
      StringArray (lead ++ '[' :: (inside ++ ']' :: tail)) texts

/-! Strings, piece by piece. -/

/-- The pieces of a string, in the order of its text. -/
inductive Spelled : List Char → List Piece → Prop
  | nil : Spelled [] []
  | cons {piece : Piece} {part chars : List Char} {pieces : List Piece}
      (hpart : Spelling piece part) (h : Spelled chars pieces) :
      Spelled (part ++ chars) (piece :: pieces)

theorem Spelled.scan {body : List Char} {pieces : List Piece} (h : Spelled body pieces)
    (rest : List Char) : Token.scanString (body ++ '"' :: rest) = some (pieces, rest) := by
  induction h with
  | nil => rw [List.nil_append, Token.scanString]
  | cons hpart _ ih => rw [List.append_assoc, hpart.scan, ih, Option.map_some]

theorem spelled_of_scan {chars after : List Char} {pieces : List Piece}
    (h : Token.scanString chars = some (pieces, after)) :
    ∃ body, chars = body ++ '"' :: after ∧ Spelled body pieces := by
  fun_induction Token.scanString chars generalizing pieces after with
  | case1 => cases h
  | case2 rest =>
      cases h
      exact ⟨[], rfl, .nil⟩
  | case3 a b c d rest code ps rs hrest hcode ih =>
      cases h
      obtain ⟨body, rfl, hbody⟩ := ih hrest
      exact ⟨_, rfl, .cons (.number hcode) hbody⟩
  | case4 => cases h
  | case5 c rest _ e ps rs hrest he ih =>
      cases h
      obtain ⟨body, rfl, hbody⟩ := ih hrest
      exact ⟨_, rfl, .cons (.letter he) hbody⟩
  | case6 => cases h
  | case7 => cases h
  | case8 c rest hquote _ _ hplain ih =>
      obtain ⟨⟨ps, rs⟩, hrest, heq⟩ := Option.map_eq_some_iff.mp h
      cases heq
      obtain ⟨body, rfl, hbody⟩ := ih hrest
      obtain ⟨hvisible, hbackslash⟩ := not_or.mp hplain
      exact ⟨_, rfl, .cons (.plain hvisible (fun hc => hquote hc) hbackslash) hbody⟩

theorem StringBody.spelled {body text : List Char} (h : StringBody body text) :
    ∃ pieces, Spelled body pieces ∧ textOfPieces? pieces = some text := by
  induction h with
  | nil => exact ⟨[], .nil, rfl⟩
  | char hpart _ ih =>
      obtain ⟨pieces, hspelled, htext⟩ := ih
      exact ⟨_, .cons hpart hspelled, by rw [textOfPieces?, htext]; rfl⟩
  | unit hpart hwhole _ ih =>
      obtain ⟨pieces, hspelled, htext⟩ := ih
      exact ⟨_, .cons hpart hspelled, by
        rw [textOfPieces?_unit pieces hwhole.1 hwhole.2, htext]; rfl⟩
  | pair hpart hother hhalves _ ih =>
      obtain ⟨pieces, hspelled, htext⟩ := ih
      refine ⟨_, .cons hpart (.cons hother hspelled), ?_⟩
      rw [textOfPieces?, if_pos hhalves.1, if_pos hhalves.2, htext]
      rfl

theorem stringBody_of_text {body text : List Char} {pieces : List Piece}
    (h : Spelled body pieces) (htext : textOfPieces? pieces = some text) :
    StringBody body text := by
  fun_induction textOfPieces? pieces generalizing body text with
  | case1 =>
      cases htext
      cases h
      exact .nil
  | case2 c rest ih =>
      obtain ⟨more, hmore, rfl⟩ := Option.map_eq_some_iff.mp htext
      cases h with
      | cons hpart h => exact .char hpart (ih h hmore)
  | case3 high low rest hhigh hlow ih =>
      obtain ⟨more, hmore, rfl⟩ := Option.map_eq_some_iff.mp htext
      cases h with
      | cons hpart h =>
          cases h with
          | cons hother h => exact .pair hpart hother ⟨hhigh, hlow⟩ (ih h hmore)
  | case4 => cases htext
  | case5 => cases htext
  | case6 high low rest hhigh hlow ih =>
      obtain ⟨more, hmore, rfl⟩ := Option.map_eq_some_iff.mp htext
      cases h with
      | cons hpart h =>
          exact .unit hpart ⟨eq_false_of_ne_true hhigh, eq_false_of_ne_true hlow⟩ (ih h hmore)
  | case7 => cases htext
  | case8 code rest _ hhalf ih =>
      obtain ⟨more, hmore, rfl⟩ := Option.map_eq_some_iff.mp htext
      cases h with
      | cons hpart h =>
          exact .unit hpart (Bool.or_eq_false_iff.mp (eq_false_of_ne_true hhalf)) (ih h hmore)

/-! Reading the form. -/

theorem scanInto_skip {lead : List Char} (h : Space lead) (read : List Token) (rest : List Char) :
    Token.scanInto read (lead ++ rest) = Token.scanInto read rest := by
  induction lead with
  | nil => rfl
  | cons c lead ih =>
      obtain ⟨hc, hlead⟩ := List.forall_mem_cons.mp h
      rw [List.cons_append, scanInto_space hc, ih hlead]

theorem StringItem.scan {chars : List Char} {text : String} (h : StringItem chars text) :
    ∃ pieces, Spells pieces text ∧ ∀ read rest,
      Token.scanInto read (chars ++ rest) = Token.scanInto (.string pieces :: read) rest := by
  obtain ⟨hlead, hbody, htail⟩ := h
  obtain ⟨pieces, hspelled, htext⟩ := hbody.spelled
  refine ⟨pieces, ?_, fun read rest => ?_⟩
  · rw [Spells, stringOfPieces?, htext, Option.map_some, String.ofList_toList]
  · rw [List.append_assoc, scanInto_skip hlead, List.cons_append, List.append_assoc,
      List.cons_append, scanInto_string (hspelled.scan _), scanInto_skip htail]

theorem StringItems.scan {chars : List Char} {texts : List String} (h : StringItems chars texts) :
    ∃ items, List.Forall₂ Spells items texts ∧ ∀ read rest,
      Token.scanInto read (chars ++ rest) =
        Token.scanInto ((itemTokens items).reverse ++ read) rest := by
  induction h with
  | last h =>
      obtain ⟨pieces, hspells, hscan⟩ := h.scan
      exact ⟨[pieces], .cons hspells .nil, hscan⟩
  | next h hmore ih =>
      obtain ⟨pieces, hspells, hscan⟩ := h.scan
      obtain ⟨items, hitems, hrest⟩ := ih
      refine ⟨pieces :: items, .cons hspells hitems, fun read rest => ?_⟩
      have htokens : itemTokens (pieces :: items) =
          .string pieces :: .comma :: itemTokens items := by
        cases items with
        | nil => cases hitems; cases hmore
        | cons => rfl
      rw [List.append_assoc, hscan, List.cons_append, scanInto_comma, hrest, htokens]
      simp

theorem StringArray.scan {chars : List Char} {texts : List String} (h : StringArray chars texts) :
    ∃ items, List.Forall₂ Spells items texts ∧
      Token.scan? chars = some (.openArray :: itemTokens items ++ [.closeArray]) := by
  have hend : ∀ {tail : List Char}, Space tail → ∀ read : List Token,
      Token.scanInto read (']' :: tail) = some (.closeArray :: read).reverse := by
    intro tail htail read
    have hskip := scanInto_skip htail (.closeArray :: read) []
    rw [List.append_nil] at hskip
    rw [Token.scanInto, hskip, Token.scanInto]
  rw [Token.scan?]
  cases h with
  | empty hlead hinside htail =>
      refine ⟨[], .nil, ?_⟩
      rw [scanInto_skip hlead, Token.scanInto, scanInto_skip hinside, hend htail]
      rfl
  | items hlead hinside htail =>
      obtain ⟨items, hitems, hscan⟩ := hinside.scan
      refine ⟨items, hitems, ?_⟩
      rw [scanInto_skip hlead, Token.scanInto, hscan, hend htail]
      simp

/-! The form of what was read. -/

/-- How the text of one token is taken off a text. -/
inductive Taken : Token → List Char → List Char → Prop
  | openArray {rest : List Char} : Taken .openArray ('[' :: rest) rest
  | closeArray {rest : List Char} : Taken .closeArray (']' :: rest) rest
  | openObject {rest : List Char} : Taken .openObject ('\x7b' :: rest) rest
  | closeObject {rest : List Char} : Taken .closeObject ('\x7d' :: rest) rest
  | comma {rest : List Char} : Taken .comma (',' :: rest) rest
  | colon {rest : List Char} : Taken .colon (':' :: rest) rest
  | null {rest : List Char} : Taken .null ('n' :: 'u' :: 'l' :: 'l' :: rest) rest
  | true {rest : List Char} : Taken (.bool true) ('t' :: 'r' :: 'u' :: 'e' :: rest) rest
  | false {rest : List Char} : Taken (.bool false) ('f' :: 'a' :: 'l' :: 's' :: 'e' :: rest) rest
  | string {rest after : List Char} {pieces : List Piece}
      (h : Token.scanString rest = some (pieces, after)) :
      Taken (.string pieces) ('"' :: rest) after
  | negative {first : Char} {rest after : List Char} {n : Numeral} (hdigit : Text.isDigit first)
      (h : Token.scanNumeral true first rest = some (n, after)) :
      Taken (.number n) ('-' :: first :: rest) after
  | number {first : Char} {rest after : List Char} {n : Numeral} (hdigit : Text.isDigit first)
      (h : Token.scanNumeral false first rest = some (n, after)) :
      Taken (.number n) (first :: rest) after

theorem scanInto_eq_some {read tokens : List Token} {chars : List Char}
    (h : Token.scanInto read chars = some tokens) :
    (Space chars ∧ tokens = read.reverse) ∨
      ∃ token lead rest after, chars = lead ++ rest ∧ Space lead ∧ Taken token rest after ∧
        Token.scanInto (token :: read) after = some tokens := by
  have hhere : ∀ {token rest after}, Taken token rest after →
      Token.scanInto (token :: read) after = some tokens →
      ∃ token lead taken after, rest = lead ++ taken ∧ Space lead ∧ Taken token taken after ∧
        Token.scanInto (token :: read) after = some tokens :=
    fun htaken hlater => ⟨_, [], _, _, rfl, nofun, htaken, hlater⟩
  fun_induction Token.scanInto read chars with
  | case1 =>
      cases h
      exact .inl ⟨nofun, rfl⟩
  | case2 => exact .inr (hhere .openArray h)
  | case3 => exact .inr (hhere .closeArray h)
  | case4 => exact .inr (hhere .openObject h)
  | case5 => exact .inr (hhere .closeObject h)
  | case6 => exact .inr (hhere .comma h)
  | case7 => exact .inr (hhere .colon h)
  | case8 => exact .inr (hhere .null h)
  | case9 => exact .inr (hhere .true h)
  | case10 => exact .inr (hhere .false h)
  | case11 read rest pieces after hstring => exact .inr (hhere (.string hstring) h)
  | case13 read first rest hdigit n after hnumeral =>
      exact .inr (hhere (.negative hdigit hnumeral) h)
  | case16 read c rest =>
      rename_i hspace ih
      rcases ih h hhere with ⟨hblank, htokens⟩ | ⟨token, lead, taken, after, rfl, hlead, hrest⟩
      · exact .inl ⟨List.forall_mem_cons.mpr ⟨hspace, hblank⟩, htokens⟩
      · exact .inr ⟨token, c :: lead, taken, after, rfl,
          List.forall_mem_cons.mpr ⟨hspace, hlead⟩, hrest⟩
  | case17 read c rest =>
      rename_i hdigit n after hnumeral _ _
      exact .inr (hhere (.number hdigit hnumeral) h)
  | _ => cases h

theorem prefix_of_scanInto {read tokens : List Token} {chars : List Char}
    (h : Token.scanInto read chars = some tokens) : read.reverse <+: tokens := by
  have hshorter : ∀ {token : Token} {read : List Token}, (token :: read).reverse <+: tokens →
      read.reverse <+: tokens := by
    intro token read hread
    rw [List.reverse_cons] at hread
    exact (List.prefix_append _ _).trans hread
  fun_induction Token.scanInto read chars with
  | case1 =>
      cases h
      exact List.prefix_rfl
  | case12 => cases h
  | case14 => cases h
  | case15 => cases h
  | case16 =>
      rename_i ih
      exact ih h
  | case18 => cases h
  | case19 => cases h
  | _ =>
      rename_i ih
      exact hshorter (ih h)

theorem space_of_scanInto {read : List Token} {chars : List Char}
    (h : Token.scanInto read chars = some read.reverse) : Space chars := by
  rcases scanInto_eq_some h with ⟨hspace, _⟩ | ⟨token, _, _, _, _, _, _, hlater⟩
  · exact hspace
  · have hlength := (prefix_of_scanInto hlater).length_le
    rw [List.length_reverse, List.length_reverse, List.length_cons] at hlength
    omega

theorem taken_of_scanInto {read later : List Token} {token : Token} {chars : List Char}
    (h : Token.scanInto read chars = some (read.reverse ++ token :: later)) :
    ∃ lead rest after, chars = lead ++ rest ∧ Space lead ∧ Taken token rest after ∧
      Token.scanInto (token :: read) after = some ((token :: read).reverse ++ later) := by
  rcases scanInto_eq_some h with
    ⟨_, htokens⟩ | ⟨other, lead, rest, after, hchars, hlead, htaken, hlater⟩
  · have hlength := congrArg List.length htokens
    simp at hlength
  · -- What is read later does not change what was read, so the next token is the one in the result.
    have hprefix := prefix_of_scanInto hlater
    rw [List.reverse_cons, List.prefix_append_right_inj, List.cons_prefix_cons] at hprefix
    obtain rfl := hprefix.1
    refine ⟨lead, rest, after, hchars, hlead, htaken, ?_⟩
    rw [hlater, List.reverse_cons, List.append_assoc, List.singleton_append]

/-- A string that was scanned, up to the token after it. -/
theorem stringItem_of_scanInto {read later : List Token} {pieces : List Piece} {token : Token}
    {text : String} {chars : List Char} (hspells : Spells pieces text)
    (h : Token.scanInto read chars = some (read.reverse ++ .string pieces :: token :: later)) :
    ∃ item rest after, chars = item ++ rest ∧ StringItem item text ∧ Taken token rest after ∧
      Token.scanInto (token :: .string pieces :: read) after =
        some ((token :: .string pieces :: read).reverse ++ later) := by
  obtain ⟨lead, _, _, rfl, hlead, htaken, hnext⟩ := taken_of_scanInto h
  obtain ⟨tail, rest, after, rfl, htail, htoken, hlater⟩ := taken_of_scanInto hnext
  cases htaken with
  | string hstring =>
      obtain ⟨body, rfl, hbody⟩ := spelled_of_scan hstring
      obtain ⟨chars, htext, rfl⟩ := Option.map_eq_some_iff.mp hspells
      have hitem : StringItem (lead ++ '"' :: (body ++ '"' :: tail)) (String.ofList chars) :=
        .quoted hlead (by rw [String.toList_ofList]; exact stringBody_of_text hbody htext) htail
      exact ⟨_, rest, after, by simp, hitem, htoken, hlater⟩

theorem stringItems_of_scanInto {items : List (List Piece)} {texts : List String}
    (hitems : List.Forall₂ Spells items texts) (hne : items ≠ []) {read : List Token}
    {chars : List Char}
    (h : Token.scanInto read chars = some (read.reverse ++ (itemTokens items ++ [.closeArray]))) :
    ∃ inside tail, chars = inside ++ ']' :: tail ∧ StringItems inside texts ∧ Space tail := by
  induction hitems generalizing read chars with
  | nil => contradiction
  | @cons pieces text items texts hspells hitems ih =>
      cases hitems with
      | nil =>
          obtain ⟨item, rest, tail, rfl, hitem, htaken, hlater⟩ :=
            stringItem_of_scanInto hspells h
          cases htaken
          rw [List.append_nil] at hlater
          exact ⟨item, tail, rfl, .last hitem, space_of_scanInto hlater⟩
      | cons hnext hrest =>
          obtain ⟨item, rest, more, rfl, hitem, htaken, hlater⟩ :=
            stringItem_of_scanInto hspells h
          cases htaken
          obtain ⟨inside, tail, rfl, hinside, htail⟩ := ih (List.cons_ne_nil _ _) hlater
          exact ⟨item ++ ',' :: inside, tail, by simp, .next hitem hinside, htail⟩

theorem stringArray_of_scan {items : List (List Piece)} {texts : List String} {chars : List Char}
    (hitems : List.Forall₂ Spells items texts)
    (h : Token.scan? chars = some (.openArray :: itemTokens items ++ [.closeArray])) :
    StringArray chars texts := by
  have hopen : Token.scanInto [] chars =
      some ([].reverse ++ .openArray :: (itemTokens items ++ [.closeArray])) := h
  obtain ⟨lead, _, rest, rfl, hlead, htaken, hrest⟩ := taken_of_scanInto hopen
  cases htaken
  cases hitems with
  | nil =>
      obtain ⟨inside, _, tail, rfl, hinside, htaken, htail⟩ := taken_of_scanInto hrest
      cases htaken
      rw [List.append_nil] at htail
      exact .empty hlead hinside (space_of_scanInto htail)
  | cons hspells hitems =>
      obtain ⟨inside, tail, rfl, hinside, htail⟩ :=
        stringItems_of_scanInto (.cons hspells hitems) (List.cons_ne_nil _ _) hrest
      exact .items hlead hinside htail

/-! The strings of a document. -/

theorem strings?_eq_some_iff {value : Json} {texts : List String} :
    strings? value = some texts ↔ value = strings texts := by
  constructor
  · intro h
    cases value with
    | array items =>
        have hitems : items.mapM string? = some texts := h
        clear h
        refine congrArg Json.array ?_
        induction items generalizing texts with
        | nil => cases hitems; rfl
        | cons item items ih =>
            rw [List.mapM_cons] at hitems
            obtain ⟨text, htext, hitems⟩ := Option.bind_eq_some_iff.mp hitems
            obtain ⟨others, hothers, hcons⟩ := Option.bind_eq_some_iff.mp hitems
            cases hcons
            cases item with
            | string _ => cases htext; rw [ih hothers]; rfl
            | _ => cases htext
    | _ => cases h
  · rintro rfl
    exact strings?_strings texts

theorem number_of_json? {n : Numeral} {value : Json} (h : n.json? = some value) :
    (∃ integer, value = .int integer) ∨ ∃ real, value = .real real := by
  unfold Numeral.json? at h
  split at h
  · exact .inl ⟨_, (Option.some.inj h).symm⟩
  · obtain ⟨real, _, rfl⟩ := Option.map_eq_some_iff.mp h
    exact .inr ⟨real, rfl⟩

theorem array_of_json? {depth : Nat} {items : List Written} {value : Json}
    (h : Written.json? depth (.array items) = some value) :
    ∃ inner values, Written.items? inner items = some values ∧ value = .array values := by
  cases depth with
  | zero => cases h
  | succ inner =>
      obtain ⟨values, hvalues, rfl⟩ := Option.map_eq_some_iff.mp h
      exact ⟨inner, values, hvalues, rfl⟩

theorem object_of_json? {depth : Nat} {members : List (List Piece × Written)} {value : Json}
    (h : Written.json? depth (.object members) = some value) :
    ∃ values, value = .object values := by
  cases depth with
  | zero => cases h
  | succ inner =>
      obtain ⟨values, _, rfl⟩ := Option.map_eq_some_iff.mp h
      exact ⟨_, rfl⟩

theorem string_of_json? {depth : Nat} {item : Written} {text : String}
    (h : Written.json? depth item = some (.string text)) :
    ∃ pieces, item = .string pieces ∧ Spells pieces text := by
  cases item with
  | null => cases h
  | bool => cases h
  | number n => rcases number_of_json? h with ⟨_, heq⟩ | ⟨_, heq⟩ <;> cases heq
  | string pieces =>
      obtain ⟨other, hspells, heq⟩ := Option.map_eq_some_iff.mp h
      cases heq
      exact ⟨pieces, rfl, hspells⟩
  | array items =>
      obtain ⟨_, _, _, heq⟩ := array_of_json? h
      cases heq
  | object members =>
      obtain ⟨_, heq⟩ := object_of_json? h
      cases heq

theorem items_of_json? {depth : Nat} {document : Written} {values : List Json}
    (h : Written.json? depth document = some (.array values)) :
    ∃ inner items, document = .array items ∧ Written.items? inner items = some values := by
  cases document with
  | null => cases h
  | bool => cases h
  | number n => rcases number_of_json? h with ⟨_, heq⟩ | ⟨_, heq⟩ <;> cases heq
  | string pieces =>
      obtain ⟨_, _, heq⟩ := Option.map_eq_some_iff.mp h
      cases heq
  | array items =>
      obtain ⟨inner, _, hitems, heq⟩ := array_of_json? h
      cases heq
      exact ⟨inner, items, rfl, hitems⟩
  | object members =>
      obtain ⟨_, heq⟩ := object_of_json? h
      cases heq

theorem spells_of_items? {depth : Nat} {items : List Written} {texts : List String}
    (h : Written.items? depth items = some (texts.map .string)) :
    ∃ pieces : List (List Piece),
      items = pieces.map .string ∧ List.Forall₂ Spells pieces texts := by
  induction items generalizing texts with
  | nil =>
      cases texts with
      | nil => exact ⟨[], rfl, .nil⟩
      | cons text texts => cases h
  | cons item items ih =>
      unfold Written.items? at h
      split at h
      · rename_i hvalue hvalues
        cases texts with
        | nil => cases h
        | cons text texts =>
            cases h
            obtain ⟨pieces, rfl, hspells⟩ := string_of_json? hvalue
            obtain ⟨others, rfl, hothers⟩ := ih hvalues
            exact ⟨pieces :: others, rfl, .cons hspells hothers⟩
      · cases h

theorem separated_strings (items : List (List Piece)) :
    separated (Written.partsOfItems (items.map .string)) = itemTokens items := by
  induction items with
  | nil => rfl
  | cons item items ih =>
      cases items with
      | nil => rfl
      | cons next items => exact congrArg (.string item :: .comma :: ·) ih

theorem scan_of_parse? {text : String} {texts : List String}
    (h : parse? text = some (strings texts)) :
    ∃ items, List.Forall₂ Spells items texts ∧
      Token.scan? text.toList = some (.openArray :: itemTokens items ++ [.closeArray]) := by
  obtain ⟨document, hdocument, hvalue⟩ := Option.bind_eq_some_iff.mp h
  obtain ⟨tokens, hscan, htokens⟩ := Option.bind_eq_some_iff.mp hdocument
  obtain rfl := tokens_of_ofTokens? htokens
  obtain ⟨inner, parts, rfl, hparts⟩ := items_of_json? hvalue
  obtain ⟨items, rfl, hitems⟩ := spells_of_items? hparts
  refine ⟨items, hitems, ?_⟩
  rw [hscan, Written.tokens, separated_strings]

/-- A text is read as an array of some strings exactly if it has that form. -/
theorem strings?_parse?_iff {text : String} {texts : List String} :
    (parse? text).bind strings? = some texts ↔ StringArray text.toList texts := by
  constructor
  · intro h
    obtain ⟨value, hparse, hstrings⟩ := Option.bind_eq_some_iff.mp h
    obtain rfl := strings?_eq_some_iff.mp hstrings
    obtain ⟨items, hitems, hscan⟩ := scan_of_parse? hparse
    exact stringArray_of_scan hitems hscan
  · intro h
    obtain ⟨items, hitems, hscan⟩ := h.scan
    rw [parse?_of_scan hscan hitems, Option.bind_some]
    exact strings?_eq_some_iff.mpr rfl

end SpanReview.Json
