import PipeCheck.Text.Bytes

/-!
# Lines and columns

A line map turns byte offsets into line and column numbers.  Both are counted
from one, columns count bytes, and both are kept in 32 bits.
-/

namespace PipeCheck

/-- A line and a column, both counted from one and reduced to 32 bits. -/
structure Position where
  /-- The line. -/
  line : UInt32
  /-- The column. -/
  column : UInt32
deriving DecidableEq, Repr

/-- A text and the byte offsets at which its lines start. -/
structure LineMap where
  /-- The characters of the text. -/
  text : List Char
  /-- Where the lines start, in ascending order. -/
  starts : List Nat

namespace LineMap

/-- The byte offsets after each line break, the text itself starting at a
given offset. -/
def startsAfter (offset : Nat) : List Char → List Nat
  | [] => []
  | character :: rest =>
    let next := offset + character.utf8Size
    if character = '\n' then next :: startsAfter next rest else startsAfter next rest

/-- The line map of a text; its first line starts at offset zero. -/
def ofText (source : String) : LineMap :=
  { text := source.toList, starts := 0 :: startsAfter 0 source.toList }

/-- The line that an offset lies on: the number of lines that start no later. -/
def lineAt (map : LineMap) (offset : Nat) : Nat :=
  map.starts.countP fun start => start ≤ offset

/-- The byte offset at which a line starts. -/
def startOf (map : LineMap) (line : Nat) : Nat :=
  (map.starts[line - 1]?).getD 0

/-- The position of an offset, which may lie past the text.  The column is a sum in 64 bits
that is meant to wrap, as in a build without overflow checks; only at the last offset of all,
on the first line, would a build with them stop. -/
def position (map : LineMap) (offset : Nat) : Position :=
  let line := map.lineAt offset
  { line := line.toUInt32, column := (offset - map.startOf line + 1).toUInt32 }

/-- The text of a line without its line break. -/
def lineText (map : LineMap) (line : UInt32) : Option String :=
  if line = 0 then
    none
  else
    (map.starts[line.toNat - 1]?).map fun start =>
      String.ofList ((Text.dropBytes start map.text).takeWhile (· ≠ '\n'))

/-- The number of lines. -/
def lineCount (map : LineMap) : UInt32 :=
  map.starts.length.toUInt32

end LineMap
end PipeCheck
