import PipeCheck.Diagnostic.Basic
import PipeCheck.Source.LineMap

/-!
# Snippets of source text

The labels of a diagnostic are drawn below the lines that they start on.  A
snippet is the list of its rows; how a row looks is not decided here.
-/

namespace PipeCheck

/-- A label on its line: the columns from `first` up to `stop`, counted from
one. -/
structure Mark where
  /-- The line, counted from one. -/
  line : Nat
  /-- The first column. -/
  first : Nat
  /-- The column after the last. -/
  stop : Nat
  /-- What the mark is shown for. -/
  role : Role
  /-- The text beside it. -/
  message : Option String
deriving DecidableEq, Repr

/-- One row of a snippet. -/
inductive SnippetRow where
  /-- A line of source text. -/
  | source (line : Nat) (text : String)
  /-- The omission of lines. -/
  | gap
  /-- The underline of a line, perhaps with the message of its only label that
  has one. -/
  | underline (cells : List Char) (message : Option (Role × String))
  /-- The message of a label, below the column where the label starts. -/
  | message (column : Nat) (role : Role) (text : String)
deriving DecidableEq, Repr

namespace Mark

/-- The place of a label.  A label that ends on another line is drawn to the
end of its first one, and every label covers at least one column. -/
def ofLabel (map : LineMap) (label : Label) : Mark :=
  let start := map.position label.span.start.toNat
  let stop := map.position label.span.stop.toNat
  let stopColumn :=
    if stop.line = start.line then
      stop.column.toNat
    else
      ((map.lineText start.line).getD "").utf8ByteSize + 1
  { line := start.line.toNat
    first := start.column.toNat
    stop := max stopColumn (start.column.toNat + 1)
    role := label.role
    message := label.message }

/-- The character that draws a mark. -/
def symbol (mark : Mark) : Char :=
  match mark.role with
  | .primary => '^'
  | .secondary => '-'

/-- Whether a mark covers a column. -/
def covers (mark : Mark) (column : Nat) : Bool :=
  mark.first ≤ column && column < mark.stop

/-- Whether a mark is drawn no later than another: primary marks before
secondary ones, then from left to right. -/
def drawnBefore (left right : Mark) : Bool :=
  match left.role, right.role with
  | .primary, .secondary => true
  | .secondary, .primary => false
  | _, _ => left.first ≤ right.first

/-- Draws a mark into the cells that are still blank. -/
def draw (mark : Mark) (cells : List Char) : List Char :=
  cells.mapIdx fun index cell =>
    if cell = ' ' && mark.covers (index + 1) then mark.symbol else cell

/-- The message of a mark, with its role and its first column. -/
def note? (mark : Mark) : Option (Nat × Role × String) :=
  mark.message.map fun text => (mark.first, mark.role, text)

end Mark

namespace Snippet

/-- The number of columns that marks reach. -/
def width (marks : List Mark) : Nat :=
  (marks.map Mark.stop).foldl max 0

/-- The underline of marks that are drawn in order, the first one winning. -/
def underline (marks : List Mark) : List Char :=
  marks.foldl (fun cells mark => mark.draw cells) (List.replicate (width marks) ' ')

/-- The cells without the blanks at the end. -/
def trimEnd (cells : List Char) : List Char :=
  (cells.reverse.dropWhile fun cell => cell = ' ').reverse

/-- The rows below a line of source text.  Several messages get rows of their
own, the last one first. -/
def rowsBelow (marks : List Mark) : List SnippetRow :=
  let drawn := marks.mergeSort Mark.drawnBefore
  let cells := trimEnd (underline drawn)
  match drawn.filterMap Mark.note? with
  | [] => [.underline cells none]
  | [(_, role, text)] => [.underline cells (some (role, text))]
  | many =>
    .underline cells none ::
      many.reverse.map fun (column, role, text) => .message column role text

/-- The lines that marks start on, each once, in ascending order. -/
def lines (marks : List Mark) : List Nat :=
  ((marks.map Mark.line).eraseDups).mergeSort fun left right => left ≤ right

/-- The rows of one line: the source text and what stands below it. -/
def rowsOf (map : LineMap) (marks : List Mark) (line : Nat) : List SnippetRow :=
  .source line ((map.lineText line.toUInt32).getD "") ::
    rowsBelow (marks.filter fun mark => mark.line = line)

/-- The rows of several lines; lines left out between two of them show as a
gap. -/
def rowsFrom (map : LineMap) (marks : List Mark) : (previous : Option Nat) → List Nat →
    List SnippetRow
  | _, [] => []
  | previous, line :: rest =>
    let gap := match previous with
      | some earlier => if earlier + 1 < line then [SnippetRow.gap] else []
      | none => []
    gap ++ rowsOf map marks line ++ rowsFrom map marks (some line) rest

/-- All rows of a snippet. -/
def rows (map : LineMap) (marks : List Mark) : List SnippetRow :=
  rowsFrom map marks none (lines marks)

/-- The width of the column of line numbers: that of the last number, and at
least two. -/
def gutterWidth (marks : List Mark) : Nat :=
  match (lines marks).getLast? with
  | some line => max 2 line.repr.length
  | none => 2

end Snippet
end PipeCheck
