namespace SpanReview.Fuzzy

/-!
Scores for a pattern whose characters occur in order in a name. The score table has two
rows and is kept from one name to the next: cells that a name does not write still hold
what an earlier name left there, and may count.
-/

structure Cell where
  matched : Int
  skipped : Int
  bonus : Int
  deriving Inhabited

def low : Int := -32768

def Cell.unset : Cell := ⟨low, low, 0⟩

def alike (a b : Char) : Bool :=
  a.toLower == b.toLower

inductive CharClass where
  | empty
  | hardBreak
  | softBreak
  | digit
  | capital
  | other
  deriving DecidableEq

def classOf (c : Char) : CharClass :=
  let n := c.toNat
  if n = 0 then .empty
  else if " /\\|()[]\x7b\x7d".toList.contains c then .hardBreak
  else if (0x21 ≤ n && n ≤ 0x27) || (0x2A ≤ n && n ≤ 0x2E) || (0x3A ≤ n && n ≤ 0x40) ||
      (0x5E ≤ n && n ≤ 0x60) || n == 0x7E then .softBreak
  else if 0x30 ≤ n && n ≤ 0x39 then .digit
  else if 0x41 ≤ n && n ≤ 0x5A then .capital
  else .other

def bonusBetween (previous current : CharClass) : Int :=
  match previous, current with
  | .empty, _ => 8
  | .hardBreak, _ => 8
  | .softBreak, _ => 7
  | .other, .capital => 6
  | .digit, .capital => 6
  | _, _ => 0

/-- Bonus of every character of a name, that of the first counting twice. -/
def bonuses (name : List Char) : List Int :=
  match ('\x00' :: name).zipWith (fun p c => bonusBetween (classOf p) (classOf c)) name with
  | first :: rest => 2 * first :: rest
  | [] => []

def firstPlaces : (place : Nat) → (name pattern : List Char) → Option (List Nat)
  | _, _, [] => some []
  | _, [], _ :: _ => none
  | place, c :: name, p :: pattern =>
      if alike c p then (firstPlaces (place + 1) name pattern).map (place :: ·)
      else firstPlaces (place + 1) name (p :: pattern)

/-- A table of two rows. -/
structure Table where
  columns : Nat
  cells : Array Cell

namespace Table

def get (table : Table) (row column : Nat) : Cell :=
  table.cells.getD (row * table.columns + column) Cell.unset

def set (table : Table) (row column : Nat) (cell : Cell) : Table :=
  { table with cells := table.cells.setIfInBounds (row * table.columns + column) cell }

/-- Cells stay where they are in memory when the number of columns changes. -/
def resize (cells : Array Cell) (columns : Nat) : Table :=
  let size := 2 * columns
  if size ≤ cells.size then ⟨columns, cells.extract 0 size⟩
  else ⟨columns, cells ++ Array.replicate (size - cells.size) Cell.unset⟩

def visit (table : Table) (i j : Nat) (c p : Char) (bonus : Int) : Table :=
  let row := (i + 1) % 2
  let diagonal := table.get (i % 2) j
  let last := table.get row j
  let current := table.get row (j + 1)
  let hit := alike c p
  let kept := max (max last.bonus bonus) 4
  let last := if hit then { last with bonus := kept } else last
  let current :=
    if hit then
      { current with
        matched := max (diagonal.matched + kept) (diagonal.skipped + bonus) +
          if c == p then 16 else 14 }
    else { current with matched := low, bonus := 0 }
  let current := { current with skipped := max (last.matched - 4) (last.skipped - 1) }
  (table.set row j last).set row (j + 1) current

def fillRow (table : Table) (i : Nat) (p : Char) (name : List (Nat × Char × Int)) : Table :=
  name.foldl (fun table (j, c, bonus) => table.visit i j c p bonus) table

def best (table : Table) (row first : Nat) : Int :=
  ((List.range table.columns).drop first).foldl (fun most j => max most (table.get row j).matched)
    (table.get row first).matched

end Table

def score (cells : Array Cell) (name pattern : List Char) : Option Int × Array Cell :=
  match firstPlaces 0 name pattern with
  | none => (none, cells)
  | some places =>
      let table := Table.resize cells (name.length + 1)
      let table := table.set 1 (places.head?.getD 0) Cell.unset
      let table := (List.range (name.length + 1)).foldl
        (fun table j => table.set 0 j ⟨low, -1, 0⟩) table
      let marked := (List.range name.length).zip (name.zip (bonuses name))
      let table := ((places.zip pattern).zipIdx).foldl
        (fun table ((start, p), i) => table.fillRow i p (marked.drop start)) table
      (some (table.best (pattern.length % 2) (places.getLast?.getD 0)), table.cells)

end SpanReview.Fuzzy
