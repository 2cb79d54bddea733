import PipeCheck.Source.Span

/-!
# Type errors

An issue is a type error after which the analysis goes on: the expression at
fault has the invalid type.  Types are kept as text.
-/

namespace PipeCheck

/-- A type error and where it is. -/
inductive Issue where
  | untypedSymbol (name : String) (span : Span)
  /-- An argument that a function does not take.  `expected` is the function's
  parameter, if it is a function at all, and `position` the place of the
  argument among several. -/
  | applicationMismatch (function argument : String) (expected : Option String)
      (position : Option Nat) (span : Span)
  | elementMismatch (expected found : String) (index : Nat) (span : Span)
  | emptyListLiteral (span : Span)
  | unhandledNodeKind (kind : String) (span : Span)
deriving DecidableEq, Repr

namespace Issue

/-- What is wrong, in one sentence. -/
def message : Issue → String
  | .untypedSymbol name _ => "untyped symbol `" ++ name ++ "`"
  | .applicationMismatch function argument _ _ _ =>
    "cannot apply `" ++ function ++ "` to an argument of type `" ++ argument ++ "`"
  | .elementMismatch expected found index _ =>
    "list element " ++ index.repr ++ " has type `" ++ found ++
      "`, which does not agree with `" ++ expected ++ "`"
  | .emptyListLiteral _ => "empty list literals are not supported"
  | .unhandledNodeKind kind _ => "no typing rule for " ++ kind

/-- Where the error is. -/
def span : Issue → Span
  | .untypedSymbol _ span => span
  | .applicationMismatch _ _ _ _ span => span
  | .elementMismatch _ _ _ span => span
  | .emptyListLiteral span => span
  | .unhandledNodeKind _ span => span

end Issue
end PipeCheck
