import PipeCheck.Source.Span

/-!
# Diagnostics

A diagnostic is one problem to report: a headline, the spans it points at, and
notes and help below them.
-/

namespace PipeCheck

/-- How bad a problem is. -/
inductive Severity where
  | error
  | warning
  | note
deriving DecidableEq, Repr

/-- What a label is for. -/
inductive Role where
  /-- The label marks the problem itself. -/
  | primary
  /-- The label marks something that the problem has to do with. -/
  | secondary
deriving DecidableEq, Repr

/-- A span with a role and perhaps a message. -/
structure Label where
  /-- The place. -/
  span : Span
  /-- What the place is shown for. -/
  role : Role
  /-- The text beside it. -/
  message : Option String := none
deriving DecidableEq, Repr

/-- One problem to report. -/
structure Diagnostic where
  /-- How bad it is. -/
  severity : Severity := .error
  /-- The registered code, if any. -/
  code : Option String := none
  /-- The headline. -/
  message : String
  /-- The places it is about. -/
  labels : List Label := []
  /-- Further remarks. -/
  notes : List String := []
  /-- A hint how to solve it. -/
  help : Option String := none
deriving DecidableEq, Repr

namespace Severity

/-- The name of a severity. -/
def name : Severity → String
  | .error => "error"
  | .warning => "warning"
  | .note => "note"

end Severity

namespace Role

/-- The name of a role. -/
def name : Role → String
  | .primary => "primary"
  | .secondary => "secondary"

end Role

namespace Label

/-- A label on the problem itself. -/
def primary (span : Span) (message : String) : Label :=
  { span, role := .primary, message := some message }

/-- A label on something that the problem has to do with. -/
def secondary (span : Span) (message : String) : Label :=
  { span, role := .secondary, message := some message }

end Label

namespace Diagnostic

/-- Whether a diagnostic is an error. -/
def isError (diagnostic : Diagnostic) : Bool :=
  diagnostic.severity = .error

/-- Adds a note after the others. -/
def addNote (diagnostic : Diagnostic) (note : String) : Diagnostic :=
  { diagnostic with notes := diagnostic.notes ++ [note] }

/-- The span of the first primary label, or else of the first label. -/
def primarySpan? (diagnostic : Diagnostic) : Option Span :=
  ((diagnostic.labels.find? fun label => label.role = .primary) <|>
    diagnostic.labels.head?).map Label.span

end Diagnostic
end PipeCheck
