namespace SpanReview

/-!
JSON values. A number is an integer when it is written as one and fits 64 bits, signed
or not; every other number is real. The members of an object stand in the order of
their keys, each key once.
-/

inductive Json where
  | null
  | bool (value : Bool)
  | int (value : Int)
  | real (value : Float)
  | string (value : String)
  | array (items : List Json)
  | object (members : List (String × Json))
  deriving Inhabited

namespace Json

def get? (value : Json) (key : String) : Option Json :=
  match value with
  | .object members => members.lookup key
  | _ => none

def string? : Json → Option String
  | .string value => some value
  | _ => none

/-- Integers above the signed range are not usable as integers. -/
def int? : Json → Option Int
  | .int value => if value ≤ 9223372036854775807 then some value else none
  | _ => none

def array? : Json → Option (List Json)
  | .array items => some items
  | _ => none

/-- Places a member by its key; an earlier member of that key gives way. -/
def putMember (key : String) (value : Json) : List (String × Json) → List (String × Json)
  | [] => [(key, value)]
  | (k, v) :: rest =>
      if key < k then (key, value) :: (k, v) :: rest
      else if key = k then (key, value) :: rest
      else (k, v) :: putMember key value rest

def sortMembers (members : List (String × Json)) : List (String × Json) :=
  members.foldl (fun sorted m => putMember m.1 m.2 sorted) []

def ofNat (n : Nat) : Json := .int n

def strings (texts : List String) : Json := .array (texts.map .string)

end Json

end SpanReview
