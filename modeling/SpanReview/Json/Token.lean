import SpanReview.Text.Decimal

namespace SpanReview.Json

/-!
The words of a JSON text. A numeral keeps its digits and a string its escapes, because
what they are worth depends on whether anyone asks for the value.
-/

/-- One element of a string: a character, or the 16-bit unit of a `\u` escape. -/
inductive Piece where
  | char (c : Char)
  | unit (code : Nat)
  deriving DecidableEq, Repr

structure Numeral where
  negative : Bool
  whole : List Char
  fraction : List Char
  exponent : Option (Bool × List Char)
  deriving DecidableEq, Repr

def Numeral.isWhole (n : Numeral) : Bool :=
  n.fraction.isEmpty && n.exponent.isNone

inductive Token where
  | openArray
  | closeArray
  | openObject
  | closeObject
  | comma
  | colon
  | null
  | bool (value : Bool)
  | number (value : Numeral)
  | string (value : List Piece)
  deriving DecidableEq, Repr

namespace Token

def isSpace (c : Char) : Bool :=
  c == ' ' || c == '\t' || c == '\n' || c == '\r'

def hexDigit? (c : Char) : Option Nat :=
  if '0' ≤ c ∧ c ≤ '9' then some (c.toNat - '0'.toNat)
  else if 'a' ≤ c ∧ c ≤ 'f' then some (c.toNat - 'a'.toNat + 10)
  else if 'A' ≤ c ∧ c ≤ 'F' then some (c.toNat - 'A'.toNat + 10)
  else none

def unit? (a b c d : Char) : Option Nat := do
  let a ← hexDigit? a
  let b ← hexDigit? b
  let c ← hexDigit? c
  let d ← hexDigit? d
  return ((a * 16 + b) * 16 + c) * 16 + d

def escape? (c : Char) : Option Char :=
  match c with
  | '"' => some '"'
  | '\\' => some '\\'
  | '/' => some '/'
  | 'b' => some '\x08'
  | 'f' => some '\x0c'
  | 'n' => some '\n'
  | 'r' => some '\r'
  | 't' => some '\t'
  | _ => none

def scanString : List Char → Option (List Piece × List Char)
  | [] => none
  | '"' :: rest => some ([], rest)
  | '\\' :: 'u' :: a :: b :: c :: d :: rest =>
      match unit? a b c d, scanString rest with
      | some code, some (pieces, after) => some (.unit code :: pieces, after)
      | _, _ => none
  | '\\' :: c :: rest =>
      match escape? c, scanString rest with
      | some c, some (pieces, after) => some (.char c :: pieces, after)
      | _, _ => none
  | c :: rest =>
      if c.toNat < 0x20 ∨ c = '\\' then none
      else (scanString rest).map fun (pieces, after) => (.char c :: pieces, after)

theorem scanString_length {cs : List Char} {pieces : List Piece} {after : List Char}
    (h : scanString cs = some (pieces, after)) : after.length < cs.length := by
  fun_induction scanString cs generalizing pieces after with
  | case1 => simp at h
  | case2 rest =>
      simp only [Option.some.injEq, Prod.mk.injEq] at h
      simp [← h.2]
  | case3 a b c d rest code ps rs hrest _ ih =>
      simp only [Option.some.injEq, Prod.mk.injEq] at h
      have := ih hrest
      simp only [List.length_cons, ← h.2]
      omega
  | case4 => simp at h
  | case5 c rest _ code ps rs hrest _ ih =>
      simp only [Option.some.injEq, Prod.mk.injEq] at h
      have := ih hrest
      simp only [List.length_cons, ← h.2]
      omega
  | case6 => simp at h
  | case7 => simp at h
  | case8 c rest _ _ _ _ ih =>
      simp only [Option.map_eq_some_iff, Prod.mk.injEq] at h
      obtain ⟨⟨ps, rs⟩, hrest, -, rfl⟩ := h
      have := ih hrest
      simp only [List.length_cons]
      omega

def scanExponent : List Char → Option (Bool × List Char × List Char)
  | sign :: rest =>
      let negative := sign == '-'
      let digits := if sign == '-' || sign == '+' then rest else sign :: rest
      if (digits.takeWhile Text.isDigit).isEmpty then none
      else some (negative, digits.takeWhile Text.isDigit, digits.dropWhile Text.isDigit)
  | [] => none

theorem length_dropWhile_le (p : Char → Bool) (cs : List Char) :
    (cs.dropWhile p).length ≤ cs.length :=
  (List.dropWhile_sublist p).length_le

theorem scanExponent_length {cs after digits : List Char} {negative : Bool}
    (h : scanExponent cs = some (negative, digits, after)) : after.length ≤ cs.length := by
  cases cs with
  | nil => simp [scanExponent] at h
  | cons sign rest =>
      simp only [scanExponent] at h
      generalize hd : (if (sign == '-' || sign == '+') = true then rest else sign :: rest) = ds at h
      have hle : ds.length ≤ (sign :: rest).length := by
        rw [← hd]
        split
        · simp
        · exact Nat.le_refl _
      split at h
      · simp at h
      · simp only [Option.some.injEq, Prod.mk.injEq] at h
        rw [← h.2.2]
        exact Nat.le_trans (length_dropWhile_le _ _) hle

def scanNumeral (negative : Bool) (first : Char) (rest : List Char) :
    Option (Numeral × List Char) :=
  let whole := if first = '0' then ['0'] else first :: rest.takeWhile Text.isDigit
  let rest := if first = '0' then rest else rest.dropWhile Text.isDigit
  let afterPoint :=
    match rest with
    | '.' :: more =>
        if (more.takeWhile Text.isDigit).isEmpty then none
        else some (more.takeWhile Text.isDigit, more.dropWhile Text.isDigit)
    | more => some ([], more)
  match afterPoint with
  | none => none
  | some (fraction, e :: more) =>
      if e = 'e' ∨ e = 'E' then
        match scanExponent more with
        | some (sign, digits, after) =>
            some (⟨negative, whole, fraction, some (sign, digits)⟩, after)
        | none => none
      else some (⟨negative, whole, fraction, none⟩, e :: more)
  | some (fraction, []) => some (⟨negative, whole, fraction, none⟩, [])

theorem scanNumeral_length {negative : Bool} {first : Char} {cs after : List Char} {n : Numeral}
    (h : scanNumeral negative first cs = some (n, after)) : after.length ≤ cs.length := by
  simp only [scanNumeral] at h
  generalize hrest : (if first = '0' then cs else cs.dropWhile Text.isDigit) = rest at h
  have hle : rest.length ≤ cs.length := by
    rw [← hrest]
    split
    · exact Nat.le_refl _
    · exact length_dropWhile_le _ _
  generalize hpoint : (match rest with
    | '.' :: more =>
        if (more.takeWhile Text.isDigit).isEmpty then none
        else some (more.takeWhile Text.isDigit, more.dropWhile Text.isDigit)
    | more => some ([], more)) = point at h
  have hpointLe : ∀ f more, point = some (f, more) → more.length ≤ rest.length := by
    intro f more hp
    rw [hp] at hpoint
    split at hpoint
    · split at hpoint
      · simp at hpoint
      · simp only [Option.some.injEq, Prod.mk.injEq] at hpoint
        rw [← hpoint.2]
        exact Nat.le_trans (length_dropWhile_le _ _) (by simp)
    · simp only [Option.some.injEq, Prod.mk.injEq] at hpoint
      simp [hpoint.2]
  split at h
  · simp at h
  · rename_i fraction e more
    have := hpointLe _ _ rfl
    simp only [List.length_cons] at this
    split at h
    · split at h
      · rename_i hexp
        simp only [Option.some.injEq, Prod.mk.injEq] at h
        have := scanExponent_length hexp
        rw [← h.2]
        omega
      · simp at h
    · simp only [Option.some.injEq, Prod.mk.injEq] at h
      rw [← h.2, List.length_cons]
      omega
  · simp only [Option.some.injEq, Prod.mk.injEq] at h
    simp [← h.2]

/-- Reads tokens off a text until it ends; `read` holds those already read, latest first. -/
def scanInto (read : List Token) (cs : List Char) : Option (List Token) :=
  match cs with
  | [] => some read.reverse
  | '[' :: rest => scanInto (.openArray :: read) rest
  | ']' :: rest => scanInto (.closeArray :: read) rest
  | '{' :: rest => scanInto (.openObject :: read) rest
  | '}' :: rest => scanInto (.closeObject :: read) rest
  | ',' :: rest => scanInto (.comma :: read) rest
  | ':' :: rest => scanInto (.colon :: read) rest
  | 'n' :: 'u' :: 'l' :: 'l' :: rest => scanInto (.null :: read) rest
  | 't' :: 'r' :: 'u' :: 'e' :: rest => scanInto (.bool true :: read) rest
  | 'f' :: 'a' :: 'l' :: 's' :: 'e' :: rest => scanInto (.bool false :: read) rest
  | '"' :: rest =>
      match h : scanString rest with
      | some (pieces, after) =>
          have := scanString_length h
          scanInto (.string pieces :: read) after
      | none => none
  | '-' :: first :: rest =>
      if Text.isDigit first then
        match h : scanNumeral true first rest with
        | some (n, after) =>
            have := scanNumeral_length h
            scanInto (.number n :: read) after
        | none => none
      else none
  | c :: rest =>
      if isSpace c then scanInto read rest
      else if Text.isDigit c then
        match h : scanNumeral false c rest with
        | some (n, after) =>
            have := scanNumeral_length h
            scanInto (.number n :: read) after
        | none => none
      else none
termination_by cs.length
decreasing_by all_goals simp_all only [List.length_cons]; omega

def scan? (cs : List Char) : Option (List Token) :=
  scanInto [] cs

end Token

end SpanReview.Json
