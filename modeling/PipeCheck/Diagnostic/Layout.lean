import PipeCheck.Diagnostic.Snippet
import PipeCheck.Text.Style

/-!
# Diagnostics for a terminal

A diagnostic is laid out as a headline, the place of the problem, the snippet of
source text with its labels, and the notes and the help below it.
-/

namespace PipeCheck

/-- A label whose start column does not fit into 32 bits and became zero, so
that nothing can be drawn at it. -/
structure WrappedColumn where
  /-- The label's span. -/
  span : Span
deriving DecidableEq, Repr

/-- What the diagnostics of one source text are laid out with. -/
structure Layout where
  /-- The lines of the text. -/
  map : LineMap
  /-- The name of the source file, if it has one. -/
  file : Option String := none
  /-- Whether escape sequences for colours are written. -/
  coloured : Bool := false

namespace Layout

/-- The layout for a source text. -/
def ofSource (source : String) (file : Option String) (coloured : Bool) : Layout :=
  { map := LineMap.ofText source, file, coloured }

/-- The style of the arrow, the gutter and the gaps. -/
def gutterStyle : Text.Style := { colour := some .blue }

/-- The style of line numbers. -/
def numberStyle : Text.Style := { bold := true, colour := some .blue }

/-- The style of the sign before a note or the help. -/
def signStyle : Text.Style := { colour := some .cyan }

/-- The style of the words before a note or the help. -/
def footerStyle : Text.Style := { bold := true, colour := some .cyan }

/-- The style of an error code. -/
def codeStyle : Text.Style := { bold := true, colour := some .red }

/-- The style of a severity. -/
def severityStyle : Severity → Text.Style
  | .error => { bold := true, colour := some .red }
  | .warning => { bold := true, colour := some .yellow }
  | .note => { bold := true, colour := some .blue }

/-- The style of a label. -/
def roleStyle : Role → Text.Style
  | .primary => { bold := true, colour := some .red }
  | .secondary => { colour := some .blue }

/-- A number of blanks. -/
def blanks (count : Nat) : String :=
  "".pushn ' ' count

variable (layout : Layout)

/-- A text in a style. -/
def paint (style : Text.Style) (text : String) : String :=
  style.paint layout.coloured text

/-- The headline of a diagnostic. -/
def header (diagnostic : Diagnostic) : String :=
  let severity := layout.paint (severityStyle diagnostic.severity) diagnostic.severity.name
  let message := layout.paint { bold := true } diagnostic.message
  match diagnostic.code with
  | some code => severity ++ "[" ++ layout.paint codeStyle code ++ "]: " ++ message
  | none => severity ++ ": " ++ message

/-- The bar that divides line numbers from source text, below a line. -/
def bar (gutter : Nat) : String :=
  blanks (gutter + 1) ++ " " ++ layout.paint gutterStyle "|"

/-- The row that names the place of the problem. -/
def arrow (gutter : Nat) (span : Span) : String :=
  let position := layout.map.position span.start.toNat
  blanks gutter ++ layout.paint gutterStyle "-->" ++ " " ++ layout.file.getD "<source>" ++ ":" ++
    position.line.toNat.repr ++ ":" ++ position.column.toNat.repr

/-- A run of equal cells of an underline. -/
def run (cells : List Char) : String :=
  match cells.head? with
  | some '^' => layout.paint (roleStyle .primary) (String.ofList cells)
  | some '-' => layout.paint (roleStyle .secondary) (String.ofList cells)
  | _ => String.ofList cells

/-- An underline, its runs in the styles of their labels. -/
def underline (cells : List Char) : String :=
  String.join ((cells.splitBy fun left right => left = right).map layout.run)

/-- One row of a snippet. -/
def row (gutter : Nat) : SnippetRow → String
  | .source line text =>
    layout.paint numberStyle (Text.padLeft (gutter + 1) line.repr) ++ " " ++
      layout.paint gutterStyle "|" ++ " " ++ text
  | .gap => blanks gutter ++ " " ++ layout.paint gutterStyle "..."
  | .underline cells none => layout.bar gutter ++ " " ++ layout.underline cells
  | .underline cells (some (role, text)) =>
    layout.bar gutter ++ " " ++ layout.underline cells ++ " " ++
      layout.paint (roleStyle role) text
  | .message column role text =>
    layout.bar gutter ++ " " ++ blanks (column - 1) ++ layout.paint (roleStyle role) "|" ++ " " ++
      layout.paint (roleStyle role) text

/-- A note or the help below a snippet. -/
def footerRow (gutter : Nat) (word text : String) : String :=
  blanks (gutter + 1) ++ " " ++ layout.paint signStyle "=" ++ " " ++
    layout.paint footerStyle word ++ ": " ++ text

/-- The notes and the help of a diagnostic. -/
def footer (gutter : Nat) (diagnostic : Diagnostic) : List String :=
  diagnostic.notes.map (layout.footerRow gutter "note") ++
    (diagnostic.help.map (layout.footerRow gutter "help")).toList

/-- The place of the problem and the snippet; nothing without labels. -/
def snippet (gutter : Nat) (diagnostic : Diagnostic) (marks : List Mark) : List String :=
  match diagnostic.primarySpan? with
  | none => []
  | some span =>
    layout.arrow gutter span :: layout.bar gutter ::
      (Snippet.rows layout.map marks).map (layout.row gutter)

/-- All lines of a diagnostic, given the marks of its labels. -/
def lines (diagnostic : Diagnostic) (marks : List Mark) : List String :=
  let gutter := Snippet.gutterWidth marks
  layout.header diagnostic :: layout.snippet gutter diagnostic marks ++
    layout.footer gutter diagnostic

/-- The first label that nothing can be drawn at. -/
def wrappedLabel? (diagnostic : Diagnostic) : Option Label :=
  diagnostic.labels.find? fun label => (Mark.ofLabel layout.map label).first = 0

/-- The text of a diagnostic, each line ended by a line break. -/
def format (diagnostic : Diagnostic) : Except WrappedColumn String :=
  match layout.wrappedLabel? diagnostic with
  | some label => .error { span := label.span }
  | none =>
    let marks := diagnostic.labels.map (Mark.ofLabel layout.map)
    .ok (String.join ((layout.lines diagnostic marks).map fun line => line ++ "\n"))

end Layout
end PipeCheck
