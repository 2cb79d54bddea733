import PipeCheck.Analysis.Typing
import PipeCheck.Proofs.Store.Rendering

/-!
# A type checker on trees

This checker knows type trees and no store, and it keeps no tables: what it says
about an expression follows from what it says about the subexpressions.  It is
meant for programs whose symbols have types without variables and quantifiers,
so a function takes exactly its parameter's type.
-/

namespace PipeCheck

namespace Tree

/-- The type of an expression that has no type. -/
def invalid : Tree :=
  .primitive .invalid

/-- The parameter of a function. -/
def parameter? : Tree → Option Tree
  | .function domain _ => some domain
  | _ => none

/-- The element of a list. -/
def element? : Tree → Option Tree
  | .list element => some element
  | _ => none

/-- The result of a function for an argument of its parameter's type. -/
def resultFor : (function argument : Tree) → Option Tree
  | .function domain codomain, argument => if domain = argument then some codomain else none
  | _, _ => none

/-- The result of a function that an argument is piped into, and whether the
function is mapped over a list: the argument itself is tried first. -/
def resultPiped (function argument : Tree) : Option (Tree × Bool) :=
  match function.resultFor argument with
  | some result => some (result, false)
  | none =>
    (argument.element?.bind function.resultFor).map fun result => (.list result, true)

end Tree

/-- The types of symbols and the names that messages use for references. -/
structure Signature where
  /-- The type of a symbol, if it has one. -/
  typeOf? : SymbolId → Option Tree
  /-- The name that a message uses. -/
  nameOf : String → Option SymbolId → String

/-- What is found about an expression. -/
structure Judgement where
  /-- The type of the expression. -/
  type : Tree
  /-- Whether the expression is a pipe that maps its function over a list. -/
  broadcast : Bool := false
  /-- The issues of the expression and of all expressions in it, in order. -/
  issues : List Issue := []

namespace Judgement

/-- An expression without type, for a reason given elsewhere. -/
def invalid : Judgement where
  type := .invalid

/-- An expression without type. -/
def rejected (issue : Issue) : Judgement where
  type := .invalid
  issues := [issue]

/-- The judgement with the issues that were found before. -/
def after (judgement : Judgement) (issues : List Issue) : Judgement :=
  { judgement with issues := issues ++ judgement.issues }

/-- The list of elements of a type, if they have one. -/
def listOf : Option Tree → Judgement
  | none => invalid
  | some element => if element = .invalid then invalid else { type := .list element }

end Judgement

namespace TreeChecker

/-- A function was given an argument of another type. -/
def mismatch (function argument : Tree) (position : Option Nat) (span : Span) : Issue :=
  .applicationMismatch function.render argument.render (function.parameter?.map Tree.render)
    position span

/-- The type of a literal. -/
def literal : Literal → Tree
  | .str _ => .primitive .file
  | .file _ => .primitive .file
  | .glob _ => .list (.primitive .file)
  | .int _ => .primitive .int
  | .bool _ => .primitive .bool
  | .unit => .primitive .unit

/-- Whether elements, the first of them at a given index, all have the expected
type.  The first valid element that differs is an issue, and with an invalid
element there is no common type. -/
def agreeing (expected : Tree) (index : Nat) (sawInvalid : Bool)
    (elements : List (Tree × Span)) : Option Tree × List Issue :=
  match (elements.zipIdx index).find? fun ((type, _), _) => type ≠ .invalid ∧ type ≠ expected with
  | some ((found, span), place) =>
    (none, [.elementMismatch expected.render found.render place span])
  | none =>
    (if sawInvalid || elements.any fun (type, _) => type = .invalid then none else some expected,
      [])

/-- The common type of elements: the first valid one decides. -/
def commonType (index : Nat) (sawInvalid : Bool) (elements : List (Tree × Span)) :
    Option Tree × List Issue :=
  match elements.find? fun (type, _) => type ≠ .invalid with
  | some (expected, _) => agreeing expected index sawInvalid elements
  | none => (none, [])

/-- The type of the elements of a list literal, if they have one. -/
def elementType (policy : ListPolicy) (elements : List (Tree × Span)) :
    Option Tree × List Issue :=
  match policy with
  | .lastElement => (elements.getLast?.map Prod.fst, [])
  | .unify => commonType 0 false elements

/-- The type of a list literal, given the types of its elements. -/
def listLiteral (policy : ListPolicy) (span : Span) (elements : List (Tree × Span)) :
    Judgement :=
  if elements.isEmpty then
    .rejected (.emptyListLiteral span)
  else
    (Judgement.listOf (elementType policy elements).1).after (elementType policy elements).2

/-- The type of a tuple literal, given the types of its components. -/
def tupleLiteral (components : List Tree) : Judgement :=
  if components.isEmpty then { type := .primitive .unit }
  else if .invalid ∈ components then .invalid
  else { type := .tuple components }

/-- The type of a pipe, given the types of its operands. -/
def pipe (span : Span) (argument function : Tree) : Judgement :=
  if argument = .invalid ∨ function = .invalid then
    .invalid
  else
    match function.resultPiped argument with
    | some (type, broadcast) => { type, broadcast }
    | none => .rejected (mismatch function argument none span)

/-- What is left of a function after one more argument, and the issue if the
argument does not fit. -/
def applyArgument (span : Span) (position : Nat) (function : Option Tree) (argument : Tree) :
    Option Tree × List Issue :=
  match function with
  | none => (none, [])
  | some function =>
    if argument = .invalid then
      (none, [])
    else
      match function.resultFor argument with
      | some result => (some result, [])
      | none => (none, [mismatch function argument (some position) span])

/-- Feeds arguments to a function from left to right.  The issues of an argument
come before that of its application. -/
def applied (span : Span) : Nat → Option Tree → List Judgement → Option Tree × List Issue
  | _, function, [] => (function, [])
  | position, function, argument :: rest =>
    let next := applyArgument span position function argument.type
    let last := applied span (position + 1) next.1 rest
    (last.1, argument.issues ++ next.2 ++ last.2)

/-- The type of an application, given its function's type and its arguments.
Without arguments the function is applied to the unit. -/
def application (span : Span) (function : Tree) (arguments : List Judgement) : Judgement :=
  if function = .invalid then
    Judgement.invalid.after (arguments.flatMap Judgement.issues)
  else if arguments.isEmpty then
    match function.resultFor (.primitive .unit) with
    | some result => { type := result }
    | none => .rejected (mismatch function (.primitive .unit) none span)
  else
    let last := applied span 0 (some function) arguments
    { type := last.1.getD .invalid, issues := last.2 }

section

variable (policy : ListPolicy) (signature : Signature)

mutual

/-- What is found about an expression. -/
def check : Expr → Judgement
  | .reference site name symbol =>
    match symbol.bind signature.typeOf? with
    | some type => { type }
    | none => .rejected (.untypedSymbol (signature.nameOf name symbol) site.span)
  | .literal _ value => { type := literal value }
  | .list site items =>
    let judged := checkAll items
    (listLiteral policy site.span ((judged.map Judgement.type).zip (items.map Expr.span))).after
      (judged.flatMap Judgement.issues)
  | .tuple _ items =>
    let judged := checkAll items
    (tupleLiteral (judged.map Judgement.type)).after (judged.flatMap Judgement.issues)
  | .apply site function arguments =>
    let judged := check function
    (application site.span judged.type (checkAll arguments)).after judged.issues
  | .pipe site argument function =>
    let judgedArgument := check argument
    let judged := check function
    (pipe site.span judgedArgument.type judged.type).after (judgedArgument.issues ++ judged.issues)
  | .binary site _ left right =>
    (Judgement.rejected (.unhandledNodeKind "binary operator" site.span)).after
      ((check left).issues ++ (check right).issues)
  | .definition site _ init =>
    (Judgement.rejected (.unhandledNodeKind "let binding" site.span)).after (check init).issues
  | .placeholder _ => .invalid

/-- What is found about several expressions. -/
def checkAll : List Expr → List Judgement
  | [] => []
  | expr :: rest => check expr :: checkAll rest

end

end

@[simp] theorem checkAll_eq_map (policy : ListPolicy) (signature : Signature) (exprs : List Expr) :
    checkAll policy signature exprs = exprs.map (check policy signature) := by
  induction exprs with
  | nil => rfl
  | cons expr rest ih => rw [checkAll, ih, List.map_cons]

section CommonType

variable {expected type : Tree} {span : Span} {rest : List (Tree × Span)}

theorem agreeing_nil (expected : Tree) (index : Nat) (sawInvalid : Bool) :
    agreeing expected index sawInvalid [] = (if sawInvalid then none else some expected, []) := by
  simp [agreeing]

theorem agreeing_cons_invalid (expected : Tree) (index : Nat) (sawInvalid : Bool) (span : Span)
    (rest : List (Tree × Span)) :
    agreeing expected index sawInvalid ((.invalid, span) :: rest) =
      agreeing expected (index + 1) true rest := by
  simp [agreeing]

theorem agreeing_cons_self (valid : expected ≠ .invalid) (index : Nat) (sawInvalid : Bool) :
    agreeing expected index sawInvalid ((expected, span) :: rest) =
      agreeing expected (index + 1) sawInvalid rest := by
  have notInvalid : decide (expected = .invalid) = false := decide_eq_false valid
  simp only [agreeing, List.zipIdx_cons, List.find?_cons, List.any_cons, ne_eq, not_true_eq_false,
    and_false, decide_false, notInvalid, Bool.false_or]

theorem agreeing_cons_different (valid : type ≠ .invalid) (different : type ≠ expected)
    (index : Nat) (sawInvalid : Bool) :
    agreeing expected index sawInvalid ((type, span) :: rest) =
      (none, [.elementMismatch expected.render type.render index span]) := by
  simp [agreeing, valid, different]

theorem commonType_cons_invalid (index : Nat) (sawInvalid : Bool) (span : Span)
    (rest : List (Tree × Span)) :
    commonType index sawInvalid ((.invalid, span) :: rest) = commonType (index + 1) true rest := by
  simp [commonType, agreeing_cons_invalid]

theorem commonType_cons_valid (valid : type ≠ .invalid) (index : Nat) (sawInvalid : Bool) :
    commonType index sawInvalid ((type, span) :: rest) =
      agreeing type (index + 1) sawInvalid rest := by
  simp [commonType, valid, agreeing_cons_self]

end CommonType

/-- Without a function nothing is applied. -/
theorem applied_none (span : Span) (position : Nat) (args : List Judgement) :
    applied span position none args = (none, args.flatMap Judgement.issues) := by
  induction args generalizing position with
  | nil => rfl
  | cons arg rest ih =>
    simp [applied, applyArgument, ih]

end TreeChecker
end PipeCheck
