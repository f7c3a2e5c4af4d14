namespace SpanReview.Text

/-!
Bytes as text, each byte being the character with its number. A program that knows bytes
only and no encoding works on such text.
-/

def octetsOfBytes (bytes : ByteArray) : String :=
  String.ofList (bytes.toList.map fun b => Char.ofNat b.toNat)

def bytesOfOctets (octets : String) : ByteArray :=
  ⟨(octets.toList.map fun c => c.toNat.toUInt8).toArray⟩

def octets (text : String) : String :=
  octetsOfBytes text.toUTF8

/-- The text that is encoded with the bytes, if there is one. -/
def ofOctets? (octets : String) : Option String :=
  String.fromUTF8? (bytesOfOctets octets)

end SpanReview.Text
