import PipeCheck.Text.Style

/-!
# Texts of the command line

The help text and the small pieces of output that are not diagnostics.
-/

namespace PipeCheck
namespace Output

/-- The version of the program. -/
def version : String := "0.1.0"

variable (coloured : Bool)

/-- The word before an error that is not a diagnostic. -/
def errorLabel : String :=
  ({ bold := true, colour := some .red } : Text.Style).paint coloured "error"

/-- The words of the last line of a check. -/
def verdict : (errors : Nat) → String
  | 0 => "Check OK"
  | 1 => "Check FAILED: 1 error"
  | errors => "Check FAILED: " ++ errors.repr ++ " errors"

/-- The last line of a check. -/
def banner (errors : Nat) : String :=
  let style : Text.Style :=
    { bold := true, colour := some (if errors = 0 then .green else .red) }
  let rule := ({ dimmed := true } : Text.Style).paint coloured "==="
  rule ++ " " ++ style.paint coloured (verdict errors) ++ " " ++ rule

/-- The name of a type. -/
def typeName (text : String) : String :=
  ({ colour := some .cyan } : Text.Style).paint coloured text

/-- The sign of a pipe that maps its function over a list. -/
def broadcastMarker : String :=
  ({ colour := some .yellow } : Text.Style).paint coloured "(broadcast)"

/-- A heading of the help text. -/
def heading (text : String) : String :=
  ({ bold := true, colour := some .yellow } : Text.Style).paint coloured text

/-- A command in the help text. -/
def commandWord (text : String) : String :=
  ({ colour := some .green } : Text.Style).paint coloured text

/-- An argument in the help text. -/
def argumentWord (text : String) : String :=
  ({ colour := some .cyan } : Text.Style).paint coloured text

/-- An entry of the help text, given the style of its first column. -/
def helpEntry (style : String → String) (entry : String × String) : String :=
  "  " ++ style (Text.padRight 20 entry.1) ++ " " ++ entry.2

/-- The commands in the help text. -/
def commandEntries : List (String × String) :=
  [("check <file.json>", "Type check a program document"),
    ("types <file.json>", "Print the type of every expression"),
    ("help", "Show this help"),
    ("version", "Show version")]

/-- The options in the help text. -/
def optionEntries : List (String × String) :=
  [("--format json", "Output as structured JSON"),
    ("--unify-lists", "Require list literal elements to agree"),
    ("--prune-quantifiers", "Drop unused quantified variables from results")]

/-- The environment variables in the help text. -/
def environmentEntries : List (String × String) :=
  [("PIPET_LOG", "Log filter, e.g. pipet_types=debug (default warn)"),
    ("NO_COLOR", "Disable colors"),
    ("FORCE_COLOR", "Force colors when piped")]

/-- The lines of the help text. -/
def helpLines : List String :=
  [({ bold := true } : Text.Style).paint coloured "pipet" ++ " " ++
      ({ dimmed := true } : Text.Style).paint coloured version ++
      " - type checker for Pipet programs",
    "",
    heading coloured "Usage" ++ ": " ++ commandWord coloured "pipet" ++ " " ++
      argumentWord coloured "<command>" ++ " " ++ argumentWord coloured "[options]",
    "",
    heading coloured "Commands:"] ++
  commandEntries.map (helpEntry (commandWord coloured)) ++
  ["", heading coloured "Options:"] ++
  optionEntries.map (helpEntry (argumentWord coloured)) ++
  ["", heading coloured "Environment:"] ++
  environmentEntries.map (helpEntry (argumentWord coloured))

/-- Lines as text, each ended by a line break. -/
def ofLines (lines : List String) : String :=
  String.join (lines.map fun line => line ++ "\n")

/-- The help text. -/
def help : String :=
  ofLines (helpLines coloured)

end Output
end PipeCheck
