import SpanReview.Shell.Machine
import SpanReview.Shell.Pattern

namespace SpanReview.Shell

/-!
Paths that patterns find. A pattern is taken apart at its slashes; each part with something
special in it is compared with the names in a directory.
-/

/-- A pattern cut at its slashes, a backslash being kept with the character behind it. -/
def partsOf : List Char → List (List Char)
  | [] => [[]]
  | '/' :: rest => [] :: partsOf rest
  | '\\' :: '/' :: rest => [] :: partsOf rest
  | '\\' :: c :: rest =>
      match partsOf rest with
      | part :: parts => ('\\' :: c :: part) :: parts
      | [] => [['\\', c]]
  | c :: rest =>
      match partsOf rest with
      | part :: parts => (c :: part) :: parts
      | [] => [[c]]

def closesBrackets : List Char → Bool
  | '!' :: rest => goesOn rest
  | rest => goesOn rest
where
  /-- Looks for the closing bracket behind the first character. -/
  goesOn : List Char → Bool
    | '\\' :: _ :: ']' :: _ => true
    | '\\' :: _ :: c :: rest => goesOn (c :: rest)
    | '\\' :: _ => false
    | _ :: ']' :: _ => true
    | _ :: c :: rest => goesOn (c :: rest)
    | _ => false

def isSpecialPart : List Char → Bool
  | [] => false
  | '*' :: _ => true
  | '?' :: _ => true
  | '[' :: rest => closesBrackets rest || isSpecialPart rest
  | '\\' :: _ :: rest => isSpecialPart rest
  | _ :: rest => isSpecialPart rest

def plainText : List Char → List Char
  | [] => []
  | '\\' :: c :: rest => c :: plainText rest
  | c :: rest => c :: plainText rest

def finds (part : List Char) (name : String) : Bool :=
  let dotted := part.head? == some '.' || part.take 2 == ['\\', '.']
  (dotted || name.toList.head? != some '.') && (Pattern.ofChars part).fits name.toList

def namesIn (machine : Machine) (directory : String) : List String :=
  match machine.entryAt directory with
  | .ok (place, .directory) => "." :: ".." :: (machine.world.namesIn place).map Text.octets
  | _ => []

/-- The paths that are found by the parts of a pattern behind what was found already, which is
written as it is to appear. -/
def pathsBehind (machine : Machine) (sofar : String) : List (List Char) → List String
  | [] => []
  | part :: rest =>
      let names :=
        if isSpecialPart part then
          (namesIn machine (if sofar.isEmpty then "." else sofar)).filter (finds part)
        else [String.ofList (plainText part)]
      let paths := names.map (sofar ++ ·)
      match rest with
      | [] =>
          if isSpecialPart part then paths
          else paths.filter fun path => (machine.entryAt path).toOption.isSome
      | rest => paths.flatMap fun path => pathsBehind machine (path ++ "/") rest

/-- The paths that a pattern finds, in order; none if there is nothing special in it. -/
def Machine.pathsOf (machine : Machine) (pattern : List Char) : List String :=
  let parts := partsOf pattern
  if parts.any isSpecialPart then
    (pathsBehind machine "" parts).mergeSort fun a b => !(b < a)
  else []

end SpanReview.Shell
