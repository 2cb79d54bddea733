import PipeCheck.Analysis.Issue
import PipeCheck.Diagnostic.Basic
import PipeCheck.Program.Declarations
import PipeCheck.Text.Suggestion
import PipeCheck.Types.Equality

/-!
# Errors explained

Every kind of error has a diagnostic with a code, the spans it is about, and
hints for repair where there are any.
-/

namespace PipeCheck

/-- The diagnostic of a name error. -/
def NameError.diagnostic : NameError → Diagnostic
  | .undefinedSymbol name span =>
    { message := "undefined symbol: `" ++ name ++ "`"
      code := some "E0200"
      labels := [.primary span "not found in this scope"] }
  | .duplicateDefinition name previous span =>
    { message := "duplicate definition: `" ++ name ++ "`"
      code := some "E0201"
      labels := [.primary span "redefined here", .secondary previous "previously defined here"] }

namespace Issue

/-- The headline of an argument that does not fit. -/
def mismatchHeadline (function : String) : Option Nat → String
  | some position => "argument " ++ (position + 1).repr ++ " does not fit `" ++ function ++ "`"
  | none => "cannot apply `" ++ function ++ "`"

/-- The label of an argument that does not fit. -/
def mismatchLabel (function argument : String) : Option String → String
  | some expected => "expected `" ++ expected ++ "`, found `" ++ argument ++ "`"
  | none => "`" ++ function ++ "` is not a function"

/-- The notes of an argument that does not fit. -/
def mismatchNotes (expected : Option String) (position : Option Nat) : List String :=
  if position.isNone && expected.isSome then
    ["a list argument is mapped over only when its elements fit the function"]
  else
    []

/-- The diagnostic of a type error. -/
def diagnostic : Issue → Diagnostic
  | .untypedSymbol name span =>
    { message := "symbol `" ++ name ++ "` has no type"
      code := some "E0300"
      labels := [.primary span "type unknown"]
      help := some "declare the symbol with a type before using it" }
  | .applicationMismatch function argument expected position span =>
    { message := mismatchHeadline function position
      code := some "E0301"
      labels := [.primary span (mismatchLabel function argument expected)]
      notes := mismatchNotes expected position }
  | .elementMismatch expected found index span =>
    { message := "list elements have different types"
      code := some "E0302"
      labels :=
        [.primary span
          ("element " ++ index.repr ++ " is `" ++ found ++ "`, expected `" ++ expected ++ "`")] }
  | .emptyListLiteral span =>
    { message := "empty list literal"
      code := some "E0303"
      labels := [.primary span "element type cannot be determined"]
      notes := ["empty list literals are not supported yet"] }
  | .unhandledNodeKind kind span =>
    { message := "no typing rule for " ++ kind
      code := some "E0399"
      labels := [.primary span "cannot type this expression"]
      notes := ["this is a bug in the analyzer, not in the program"] }

end Issue

/-- The diagnostic of a malformed type. -/
def MalformedType.diagnostic (error : MalformedType) : Diagnostic :=
  { message := error.message
    code := some "E0398"
    notes := ["analysis stopped: the type representation is inconsistent"] }

namespace ReadError

/-- The type names that a misspelled name may have meant. -/
def knownNames : List String :=
  Reader.typeNames.map Prod.fst

/-- How to repair a written type, if something can be said about it. -/
def help : ReadError → Option String
  | .unknownType name _ =>
    Text.didYouMean name knownNames <|>
      some ("known types are " ++ ", ".intercalate knownNames)
  | _ => none

/-- The diagnostic of a written type that cannot be read. -/
def diagnostic (error : ReadError) : Diagnostic :=
  { message := "invalid type: " ++ error.message
    code := some "E0304"
    help := error.help }

end ReadError

namespace BadType

/-- What is wrong, in one sentence. -/
def message (bad : BadType) : String :=
  "bad type for symbol `" ++ bad.symbol ++ "`: " ++ bad.error.message

/-- The diagnostic of a declaration whose written type cannot be read. -/
def diagnostic (bad : BadType) : Diagnostic :=
  bad.error.diagnostic.addNote ("in the declared type of `" ++ bad.symbol ++ "`")

end BadType
end PipeCheck
