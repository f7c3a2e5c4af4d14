import SpanReview.Shell.Numeral

namespace SpanReview.Shell

/-!
Escapes in text that is put out. An escape is one byte; a backslash that starts none stands
for itself.
-/

def isOctal (c : Char) : Bool :=
  '0' ≤ c && c ≤ '7'

def simpleEscape? (c : Char) : Option Char :=
  match c with
  | '\\' => some '\\'
  | 'a' => some '\x07'
  | 'b' => some '\x08'
  | 'e' => some '\x1b'
  | 'f' => some '\x0c'
  | 'n' => some '\n'
  | 'r' => some '\r'
  | 't' => some '\t'
  | 'v' => some '\x0b'
  | _ => none

/-- The byte that an escape stands for, its backslash being taken, and the text behind it. -/
def escape : List Char → Char × List Char
  | [] => ('\\', [])
  | c :: rest =>
      match simpleEscape? c with
      | some byte => (byte, rest)
      | none =>
          let digits := ((c :: rest).take 3).takeWhile isOctal
          if digits.isEmpty then ('\\', c :: rest)
          else (Char.ofNat (valueIn 8 digits % 256), (c :: rest).drop digits.length)

/-- Text with its escapes taken, an octal number in them being set off by a zero or not. It
ends at `\c`, the flag then being true. -/
def unescapeFrom : Nat → List Char → List Char × Bool
  | 0, _ => ([], false)
  | _, [] => ([], false)
  | _, '\\' :: 'c' :: _ => ([], true)
  | fuel + 1, '\\' :: rest =>
      let digits := match rest with
        | '0' :: d :: more => if isOctal d then d :: more else rest
        | _ => rest
      let (byte, rest) := escape digits
      let (cs, ended) := unescapeFrom fuel rest
      (byte :: cs, ended)
  | fuel + 1, c :: rest =>
      let (cs, ended) := unescapeFrom fuel rest
      (c :: cs, ended)

def unescape (text : String) : String × Bool :=
  let (cs, ended) := unescapeFrom (text.length + 1) text.toList
  (String.ofList cs, ended)

def echoed (ending : String) : List String → String
  | [] => ending
  | [word] =>
      let (text, ended) := unescape word
      if ended then text else text ++ ending
  | word :: rest =>
      let (text, ended) := unescape word
      if ended then text else text ++ " " ++ echoed ending rest

def echo : List String → String
  | "-n" :: words => echoed "" words
  | words => echoed "\n" words

end SpanReview.Shell
