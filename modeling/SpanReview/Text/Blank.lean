namespace SpanReview.Text

/-!
White space, and the two ways text is cut by it: at its ends and into words.
-/

/-- The characters with the Unicode property White_Space. -/
def isBlank (c : Char) : Bool :=
  let n := c.toNat
  (0x9 ≤ n && n ≤ 0xD) || n == 0x20 || n == 0x85 || n == 0xA0 || n == 0x1680 ||
    (0x2000 ≤ n && n ≤ 0x200A) || n == 0x2028 || n == 0x2029 || n == 0x202F ||
    n == 0x205F || n == 0x3000

def dropTrailing (drops : Char → Bool) (cs : List Char) : List Char :=
  (cs.reverse.dropWhile drops).reverse

def trimChars (cs : List Char) : List Char :=
  dropTrailing isBlank (cs.dropWhile isBlank)

def trim (text : String) : String :=
  String.ofList (trimChars text.toList)

def isBlankText (text : String) : Bool :=
  text.toList.all isBlank

def afterHead? (head : String) (text : List Char) : Option (List Char) :=
  head.toList.isPrefixOf? text

def beforeTail? (tail : String) (text : List Char) : Option (List Char) :=
  tail.toList.isSuffixOf? text

end SpanReview.Text
