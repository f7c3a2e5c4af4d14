import SpanReview.Suggest.Fuzzy
import SpanReview.Text.Blank

namespace SpanReview.Suggest

/-!
Names to offer for a name that does not exist.
-/

/-- Scores one name after another for a pattern; what it remembers between them is its state. -/
structure Matcher (σ : Type) where
  start : σ
  score : σ → (name pattern : List Char) → Option Int × σ

def Matcher.ofFunction (f : (name pattern : List Char) → Option Int) : Matcher Unit :=
  ⟨(), fun state name pattern => (f name pattern, state)⟩

def Matcher.fuzzy : Matcher (Array Fuzzy.Cell) := ⟨#[], Fuzzy.score⟩

structure Scored where
  score : Int
  name : String
  deriving DecidableEq, Repr

/-- Higher scores first, names in order among equal scores. -/
def Scored.before (a b : Scored) : Bool :=
  b.score < a.score || (a.score == b.score && !(b.name < a.name))

def Matcher.scoreAll (matcher : Matcher σ) (state : σ) (pattern : List Char) :
    List String → List Scored
  | [] => []
  | name :: rest =>
      match matcher.score state name.toList pattern with
      | (some score, next) => ⟨score, name⟩ :: matcher.scoreAll next pattern rest
      | (none, next) => matcher.scoreAll next pattern rest

def best (scored : List Scored) (limit : Nat) : List String :=
  ((scored.mergeSort Scored.before).take limit).map Scored.name

def suggestWith (matcher : Matcher σ) (query : String) (names : List String) (limit : Nat) :
    List String :=
  let pattern := Text.trimChars query.toList
  if pattern.isEmpty then [] else best (matcher.scoreAll matcher.start pattern names) limit

def suggest (query : String) (names : List String) (limit : Nat) : List String :=
  suggestWith .fuzzy query names limit

structure Ranking where
  {State : Type}
  matcher : Matcher State

def Ranking.suggest (ranking : Ranking) (query : String) (names : List String) (limit : Nat) :
    List String :=
  suggestWith ranking.matcher query names limit

end SpanReview.Suggest
