/-!
# Edit distance

The distance of two texts is the least number of insertions, deletions and
replacements of single characters that turn one into the other.  It is computed
row by row: a row holds the distances of one beginning of the first text to all
beginnings of the second.
-/

namespace PipeCheck
namespace Text

/-- The cells of a row after its first one.  `left` is the cell before, and
`diagonal` the cell above it. -/
def rowCells (character : Char) :
    (left diagonal : Nat) → List Char → List Nat → List Nat
  | left, diagonal, other :: others, above :: row =>
    let replaced := diagonal + if character = other then 0 else 1
    let cell := min replaced (min (left + 1) (above + 1))
    cell :: rowCells character cell above others row
  | _, _, _, _ => []

/-- The row of a text that is one character longer. -/
def nextRow (target : List Char) (row : List Nat) (character : Char) : List Nat :=
  match row with
  | [] => []
  | first :: rest => (first + 1) :: rowCells character (first + 1) first target rest

/-- The edit distance of two texts. -/
def editDistance (source target : String) : Nat :=
  let target := target.toList
  ((source.toList.foldl (nextRow target) (List.range (target.length + 1))).getLast?).getD 0

end Text
end PipeCheck
