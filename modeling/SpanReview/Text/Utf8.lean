namespace SpanReview.Text

/-!
Text from bytes that may not be UTF-8: the longest start of a character that breaks off
becomes one replacement character.
-/

def replacement : Char := '\ufffd'

def leadByte? (b : UInt8) : Option (Nat × UInt8 × UInt8) :=
  if 0xC2 ≤ b ∧ b ≤ 0xDF then some (1, 0x80, 0xBF)
  else if b = 0xE0 then some (2, 0xA0, 0xBF)
  else if b = 0xED then some (2, 0x80, 0x9F)
  else if 0xE1 ≤ b ∧ b ≤ 0xEF then some (2, 0x80, 0xBF)
  else if b = 0xF0 then some (3, 0x90, 0xBF)
  else if 0xF1 ≤ b ∧ b ≤ 0xF3 then some (3, 0x80, 0xBF)
  else if b = 0xF4 then some (3, 0x80, 0x8F)
  else none

/-- A character that has begun: its value so far, the bytes it still needs, and the bounds
of the next one. -/
structure Begun where
  value : Nat
  needed : Nat
  low : UInt8
  high : UInt8

def beginChar (b : UInt8) : List Char × Option Begun :=
  if b < 0x80 then ([Char.ofNat b.toNat], none)
  else
    match leadByte? b with
    | some (needed, low, high) =>
        ([], some ⟨b.toNat % (64 >>> needed), needed, low, high⟩)
    | none => ([replacement], none)

def decodeFrom : Option Begun → List UInt8 → List Char
  | none, [] => []
  | some _, [] => [replacement]
  | none, b :: rest =>
      let (cs, begun) := beginChar b
      cs ++ decodeFrom begun rest
  | some begun, b :: rest =>
      if begun.low ≤ b ∧ b ≤ begun.high then
        let value := begun.value * 64 + b.toNat % 64
        if begun.needed = 1 then Char.ofNat value :: decodeFrom none rest
        else decodeFrom (some ⟨value, begun.needed - 1, 0x80, 0xBF⟩) rest
      else
        let (cs, begun) := beginChar b
        replacement :: cs ++ decodeFrom begun rest

def decodeLossy (bytes : ByteArray) : String :=
  String.ofList (decodeFrom none bytes.toList)

end SpanReview.Text
