import PipeCheck.Diagnostic.Basic
import PipeCheck.Diagnostic.Code
import PipeCheck.Json.Writer
import PipeCheck.Source.LineMap

/-!
# Diagnostics for other programs

A report holds all diagnostics of one run as a JSON value, with every span
given by line, column and byte offset.
-/

namespace PipeCheck

/-- All diagnostics of one run over a source text. -/
structure Report where
  /-- The source text. -/
  source : String
  /-- Its file name. -/
  file : String
  /-- The pass that ended the run. -/
  phase : String
  /-- The problems found. -/
  diagnostics : List Diagnostic

namespace Report

/-- A field that is left out if it has no value. -/
def optionalField (name : String) (value : Option Json) : List (String × Json) :=
  (value.map fun json => (name, json)).toList

/-- The JSON form of an offset. -/
def positionJson (map : LineMap) (offset : UInt64) : Json :=
  let position := map.position offset.toNat
  .record [("line", .nat position.line.toNat), ("column", .nat position.column.toNat),
    ("byte_offset", .nat offset.toNat)]

/-- The JSON form of a label. -/
def labelJson (map : LineMap) (label : Label) : Json :=
  let line := (map.position label.span.start.toNat).line
  .record
    ([("role", .text label.role.name)] ++
      optionalField "message" (label.message.map Json.text) ++
      [("start", positionJson map label.span.start),
        ("end", positionJson map label.span.stop),
        ("source_line", .text ((map.lineText line).getD ""))])

/-- The category of a diagnostic's code, if the code is registered. -/
def category? (diagnostic : Diagnostic) : Option Category :=
  (diagnostic.code.bind ErrorCode.find?).map ErrorCode.category

/-- The JSON form of a diagnostic. -/
def diagnosticJson (map : LineMap) (diagnostic : Diagnostic) : Json :=
  let notes := if diagnostic.notes.isEmpty then none else some diagnostic.notes
  .record
    ([("severity", .text diagnostic.severity.name)] ++
      optionalField "code" (diagnostic.code.map Json.text) ++
      optionalField "category" ((category? diagnostic).map fun category => .text category.name) ++
      [("message", .text diagnostic.message)] ++
      optionalField "location"
        (diagnostic.primarySpan?.map fun span => positionJson map span.start) ++
      [("labels", .array (diagnostic.labels.map (labelJson map)))] ++
      optionalField "notes" (notes.map fun notes => .array (notes.map Json.text)) ++
      optionalField "help" (diagnostic.help.map Json.text))

/-- The number of diagnostics of a severity. -/
def count (report : Report) (severity : Severity) : Nat :=
  report.diagnostics.countP fun diagnostic => diagnostic.severity = severity

/-- Whether a run found no errors. -/
def success (report : Report) : Bool :=
  report.count .error = 0

/-- The JSON form of a report. -/
def toJson (report : Report) : Json :=
  let map := LineMap.ofText report.source
  .record
    [("version", .nat 1),
      ("file", .text report.file),
      ("phase", .text report.phase),
      ("success", .bool report.success),
      ("error_count", .nat (report.count .error)),
      ("warning_count", .nat (report.count .warning)),
      ("diagnostics", .array (report.diagnostics.map (diagnosticJson map)))]

/-- The text of a report. -/
def text (report : Report) : String :=
  report.toJson.pretty

end Report
end PipeCheck
