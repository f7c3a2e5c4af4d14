import Mathlib.Data.List.Forall2
import SpanReview.Json.Printer
import SpanReview.Json.Reading

namespace SpanReview.Json

/-! A list of texts is read back from its JSON text, and that text stands on one line. -/

/-- How one element of a string is written: by an escape of one letter, by its number, or as it
is. -/
inductive Spelling : Piece → List Char → Prop
  | letter {e c : Char} (h : Token.escape? e = some c) : Spelling (.char c) ['\\', e]
  | number {a b c d : Char} {code : Nat} (h : Token.unit? a b c d = some code) :
      Spelling (.unit code) ['\\', 'u', a, b, c, d]
  | plain {c : Char} (hvisible : ¬ c.toNat < 0x20) (hquote : c ≠ '"') (hbackslash : c ≠ '\\') :
      Spelling (.char c) [c]

theorem Spelling.scan {piece : Piece} {chars : List Char} (h : Spelling piece chars)
    (rest : List Char) :
    Token.scanString (chars ++ rest) =
      (Token.scanString rest).map fun (pieces, after) => (piece :: pieces, after) := by
  cases h with
  | @letter e c h =>
      have hunit : e ≠ 'u' := by
        rintro rfl
        cases h
      rw [List.cons_append, List.singleton_append, Token.scanString, h]
      · cases Token.scanString rest <;> rfl
      · intro _ _ _ _ _ he
        exact absurd he hunit
  | number h =>
      simp only [List.cons_append, List.nil_append, Token.scanString, h]
      cases Token.scanString rest <;> rfl
  | plain hvisible hquote hbackslash =>
      rw [List.singleton_append, Token.scanString, if_neg (by simp [hvisible, hbackslash])]
      · exact hquote
      · intro _ _ _ _ _ hc
        exact absurd hc hbackslash
      · intro _ _ hc
        exact absurd hc hbackslash

/-- What is read for a character, and how the character is written: by its number only if it is a
control character. -/
inductive Escaped (c : Char) : Piece → List Char → Prop
  | letter {e : Char} (h : Token.escape? e = some c) : Escaped c (.char c) ['\\', e]
  | number (h : c.toNat < 0x20) : Escaped c (.unit c.toNat)
      ['\\', 'u', '0', '0', hexDigit (c.toNat / 16), hexDigit (c.toNat % 16)]
  | plain (hvisible : ¬ c.toNat < 0x20) (hquote : c ≠ '"') (hbackslash : c ≠ '\\') :
      Escaped c (.char c) [c]

theorem escapeChar_escaped (c : Char) : ∃ piece, Escaped c piece (escapeChar c) := by
  unfold escapeChar
  split
  case h_8 hquote hbackslash _ _ _ _ _ =>
    split
    · exact ⟨_, .number (by assumption)⟩
    · exact ⟨_, .plain (by assumption) hquote hbackslash⟩
  all_goals exact ⟨_, .letter rfl⟩

theorem unit?_of_control : ∀ n < 0x20,
    Token.unit? '0' '0' (hexDigit (n / 16)) (hexDigit (n % 16)) = some n := by
  decide

theorem Escaped.spelling {c : Char} {piece : Piece} {chars : List Char}
    (h : Escaped c piece chars) : Spelling piece chars := by
  cases h with
  | letter h => exact .letter h
  | number h => exact .number (unit?_of_control _ h)
  | plain hvisible hquote hbackslash => exact .plain hvisible hquote hbackslash

theorem textOfPieces?_unit {code : Nat} (rest : List Piece) (hhigh : isHighHalf code = false)
    (hlow : isLowHalf code = false) :
    textOfPieces? (.unit code :: rest) = (textOfPieces? rest).map (Char.ofNat code :: ·) := by
  rw [textOfPieces?.eq_def]
  split <;> simp_all

theorem Escaped.text {c : Char} {piece : Piece} {chars : List Char} (h : Escaped c piece chars)
    (pieces : List Piece) :
    textOfPieces? (piece :: pieces) = (textOfPieces? pieces).map (c :: ·) := by
  cases h with
  | letter => rfl
  | number h =>
      have hhigh : isHighHalf c.toNat = false := by
        simp [isHighHalf]
        omega
      have hlow : isLowHalf c.toNat = false := by
        simp [isLowHalf]
        omega
      rw [textOfPieces?_unit pieces hhigh hlow, Char.ofNat_toNat]
  | plain => rfl

theorem scanString_escape (cs : List Char) :
    ∃ pieces, textOfPieces? pieces = some cs ∧
      ∀ rest, Token.scanString (escape cs ++ '"' :: rest) = some (pieces, rest) := by
  induction cs with
  | nil =>
      refine ⟨[], rfl, fun rest => ?_⟩
      rw [escape, List.flatMap_nil, List.nil_append, Token.scanString]
  | cons c cs ih =>
      obtain ⟨piece, hpiece⟩ := escapeChar_escaped c
      obtain ⟨pieces, htext, hscan⟩ := ih
      refine ⟨piece :: pieces, by rw [hpiece.text, htext]; rfl, fun rest => ?_⟩
      rw [escape, List.flatMap_cons, List.append_assoc, hpiece.spelling.scan]
      exact congrArg _ (hscan rest)

/-! Between brackets. -/

/-- The tokens of strings between commas. -/
def itemTokens : List (List Piece) → List Token
  | [] => []
  | [item] => [.string item]
  | item :: rest => .string item :: .comma :: itemTokens rest

theorem scanInto_string {read : List Token} {cs after : List Char} {pieces : List Piece}
    (h : Token.scanString cs = some (pieces, after)) :
    Token.scanInto read ('"' :: cs) = Token.scanInto (.string pieces :: read) after := by
  rw [Token.scanInto]
  split
  · rename_i h'
    cases h.symm.trans h'
    rfl
  · rename_i h'
    cases h.symm.trans h'

theorem scanInto_comma (read : List Token) (rest : List Char) :
    Token.scanInto read (',' :: rest) = Token.scanInto (.comma :: read) rest := by
  rw [Token.scanInto]

/-- The pieces of a written string spell a text. -/
def Spells (pieces : List Piece) (text : String) : Prop :=
  stringOfPieces? pieces = some text

theorem scanInto_quote (text : String) :
    ∃ pieces, Spells pieces text ∧ ∀ read rest,
      Token.scanInto read ((quote text).toList ++ rest) =
        Token.scanInto (.string pieces :: read) rest := by
  obtain ⟨pieces, htext, hscan⟩ := scanString_escape text.toList
  refine ⟨pieces, ?_, fun read rest => ?_⟩
  · rw [Spells, stringOfPieces?, htext, Option.map_some, String.ofList_toList]
  · rw [quote, String.toList_ofList, quoteChars, List.append_assoc]
    exact scanInto_string (hscan rest)

/-- A string is read back from its own text. -/
theorem parse?_quote (text : String) : parse? (quote text) = some (.string text) := by
  obtain ⟨pieces, hspells, hscan⟩ := scanInto_quote text
  have htokens : Token.scan? (quote text).toList = some [.string pieces] := by
    have hend : Token.scanInto [.string pieces] [] = some [.string pieces] := by
      rw [Token.scanInto, List.reverse_singleton]
    rw [Token.scan?, ← List.append_nil (quote text).toList, hscan, hend]
  have hwritten : Written.ofTokens? [.string pieces] = some (.string pieces) := rfl
  rw [parse?, parseTo?, Written.parse?, htokens, Option.bind_some, hwritten, Option.bind_some,
    Written.json?, hspells, Option.map_some]

theorem scanInto_items (text : String) (texts : List String) :
    ∃ item items, List.Forall₂ Spells (item :: items) (text :: texts) ∧ ∀ read rest,
      Token.scanInto read ((compactItems ((text :: texts).map .string)).toList ++ rest) =
        Token.scanInto ((itemTokens (item :: items)).reverse ++ read) rest := by
  induction texts generalizing text with
  | nil =>
      obtain ⟨pieces, hspells, hscan⟩ := scanInto_quote text
      exact ⟨pieces, [], .cons hspells .nil, hscan⟩
  | cons next texts ih =>
      obtain ⟨pieces, hspells, hscan⟩ := scanInto_quote text
      obtain ⟨item, items, hitems, hrest⟩ := ih next
      refine ⟨pieces, item :: items, .cons hspells hitems, fun read rest => ?_⟩
      have htext : (compactItems ((text :: next :: texts).map .string)).toList =
          (quote text).toList ++ ',' :: (compactItems ((next :: texts).map .string)).toList := by
        rw [List.map_cons, List.map_cons, compactItems, String.toList_append,
          String.toList_append, List.append_assoc]
        · rfl
        · exact List.cons_ne_nil _ _
      have htokens : (itemTokens (pieces :: item :: items)).reverse ++ read =
          (itemTokens (item :: items)).reverse ++ .comma :: .string pieces :: read := by
        simp [itemTokens]
      rw [htext, htokens, List.append_assoc, hscan, List.cons_append, scanInto_comma, hrest]

theorem run_items (item : List Piece) (items : List (List Piece)) (below : List Frame)
    (read : List Written) (rest : List Token) :
    Reader.run ⟨.array read :: below, .value, none⟩ (itemTokens (item :: items) ++ rest) =
      Reader.run ⟨.array (((item :: items).map .string).reverse ++ read) :: below, .next, none⟩
        rest := by
  induction items generalizing item read with
  | nil => rfl
  | cons next items ih =>
      have hnext := ih next (.string item :: read)
      rw [List.map_cons, List.reverse_cons, List.append_assoc, List.singleton_append]
      exact hnext

theorem run_first (item : List Piece) (items : List (List Piece)) (stack : List Frame)
    (rest : List Token) :
    Reader.run ⟨stack, .itemOrEnd, none⟩ (itemTokens (item :: items) ++ rest) =
      Reader.run ⟨stack, .value, none⟩ (itemTokens (item :: items) ++ rest) := by
  cases items <;> rfl

theorem items?_strings {items : List (List Piece)} {texts : List String}
    (h : List.Forall₂ Spells items texts) (depth : Nat) :
    Written.items? depth (items.map .string) = some (texts.map .string) := by
  induction h with
  | nil => rfl
  | cons hspells _ ih =>
      rw [List.map_cons, Written.items?, Written.json?, hspells, ih]
      rfl

theorem ofTokens?_items (items : List (List Piece)) :
    Written.ofTokens? (.openArray :: itemTokens items ++ [.closeArray]) =
      some (.array (items.map .string)) := by
  cases items with
  | nil => rfl
  | cons item items =>
      have hopen : Reader.start.run (.openArray :: itemTokens (item :: items) ++ [.closeArray]) =
          Reader.run ⟨[.array []], .itemOrEnd, none⟩
            (itemTokens (item :: items) ++ [.closeArray]) := rfl
      have hclose (read : List Written) :
          Reader.run ⟨[.array read], .next, none⟩ [.closeArray] =
            some ⟨[], .next, some (.array read.reverse)⟩ := rfl
      rw [Written.ofTokens?, hopen, run_first, run_items, List.append_nil, hclose,
        List.reverse_reverse]
      rfl

theorem parse?_of_scan {text : String} {items : List (List Piece)} {texts : List String}
    (hscan : Token.scan? text.toList = some (.openArray :: itemTokens items ++ [.closeArray]))
    (h : List.Forall₂ Spells items texts) : parse? text = some (strings texts) := by
  rw [parse?, parseTo?, Written.parse?, hscan, Option.bind_some, ofTokens?_items,
    Option.bind_some, maxDepth, Written.json?, items?_strings h]
  rfl

theorem parse?_strings (text : String) (texts : List String) :
    parse? (strings (text :: texts)).compact = some (strings (text :: texts)) := by
  obtain ⟨item, items, hitems, hscan⟩ := scanInto_items text texts
  have htext : (strings (text :: texts)).compact.toList =
      '[' :: ((compactItems ((text :: texts).map .string)).toList ++ [']']) := by
    rw [strings, compact, String.toList_append, String.toList_append]
    rfl
  have htokens : Token.scan? (strings (text :: texts)).compact.toList =
      some (.openArray :: itemTokens (item :: items) ++ [.closeArray]) := by
    rw [htext, Token.scan?, Token.scanInto, hscan, Token.scanInto, Token.scanInto]
    simp
  exact parse?_of_scan htokens hitems

theorem strings?_strings (texts : List String) : strings? (strings texts) = some texts := by
  have hitems : (texts.map Json.string).mapM string? = some texts := by
    induction texts with
    | nil => rfl
    | cons text texts ih =>
        rw [List.map_cons, List.mapM_cons, ih]
        rfl
  exact hitems

/-! On one line. -/

def Visible (cs : List Char) : Prop :=
  ∀ c ∈ cs, 0x20 ≤ c.toNat

theorem Visible.append {cs others : List Char} (h : Visible cs) (hothers : Visible others) :
    Visible (cs ++ others) := fun c hc =>
  (List.mem_append.mp hc).elim (h c) (hothers c)

theorem visible_hexDigit : ∀ n < 16, 0x20 ≤ (hexDigit n).toNat := by
  decide

theorem visible_of_escape? {e c : Char} (h : Token.escape? e = some c) : 0x20 ≤ e.toNat := by
  unfold Token.escape? at h
  split at h
  case h_9 => cases h
  all_goals decide

theorem Escaped.visible {c : Char} {piece : Piece} {chars : List Char}
    (h : Escaped c piece chars) : Visible chars := by
  cases h with
  | letter h => simpa [Visible] using visible_of_escape? h
  | number h =>
      have hhigh := visible_hexDigit (c.toNat / 16) (by omega)
      have hlow := visible_hexDigit (c.toNat % 16) (by omega)
      simpa [Visible] using ⟨hhigh, hlow⟩
  | plain hvisible => simpa [Visible] using hvisible

theorem visible_quote (text : String) : Visible (quote text).toList := by
  have hescape : Visible (escape text.toList) := by
    intro c hc
    obtain ⟨other, _, hother⟩ := List.mem_flatMap.mp hc
    obtain ⟨piece, hescaped⟩ := escapeChar_escaped other
    exact hescaped.visible c hother
  have hquote : Visible ['"'] := by simp [Visible]
  rw [quote, String.toList_ofList, quoteChars]
  exact (hquote.append hescape).append hquote

theorem visible_strings (texts : List String) : Visible (strings texts).compact.toList := by
  have hopen : Visible "[".toList := by simp [Visible]
  have hclose : Visible "]".toList := by simp [Visible]
  have hcomma : Visible ",".toList := by simp [Visible]
  have hitems : Visible (compactItems (texts.map .string)).toList := by
    induction texts with
    | nil => simp [Visible, compactItems]
    | cons text texts ih =>
        cases texts with
        | nil => exact visible_quote text
        | cons next texts =>
            rw [List.map_cons, List.map_cons, compactItems, String.toList_append,
              String.toList_append]
            · exact ((visible_quote text).append hcomma).append ih
            · exact List.cons_ne_nil _ _
  rw [strings, compact, String.toList_append, String.toList_append]
  exact (hopen.append hitems).append hclose

end SpanReview.Json
