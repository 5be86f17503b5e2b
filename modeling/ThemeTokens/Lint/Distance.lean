/-! # Edit distance

    The least number of characters to insert, delete or replace that turns one
    text into another.  One row of the table is kept: its entries are the
    distances from what was read of the first text to each beginning of the
    second. -/

namespace ThemeTokens.Lint

/-- The entries of the next row, from the entry to the left, the entry above
    it, and the characters and entries still to come. -/
def nextEntries (c : Char) (left diagonal : Nat) :
    List (Char × Nat) → List Nat
  | [] => []
  | (d, above) :: rest =>
      let here := min (min (left + 1) (above + 1)) (diagonal + if c = d then 0 else 1)
      here :: nextEntries c here above rest

/-- The row after one more character of the first text. -/
def nextRow (other : List Char) (row : List Nat) (c : Char) : List Nat :=
  match row with
  | [] => []
  | first :: entries =>
      (first + 1) :: nextEntries c (first + 1) first (other.zip entries)

/-- The distance between two texts. -/
def distance (text other : List Char) : Nat :=
  (text.foldl (nextRow other) (List.range (other.length + 1))).getLastD 0

end ThemeTokens.Lint
