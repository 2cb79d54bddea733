import PipeCheck.Analysis.Config
import PipeCheck.Analysis.Issue
import PipeCheck.Expr.Traversal
import PipeCheck.Names.Symbol
import PipeCheck.Types.Unification

/-!
# Typing of expressions

Expressions are typed from their leaves up.  An expression that cannot be typed
gets the invalid type and an issue, and invalid types spread without further
issues.  A malformed type ends the analysis.
-/

namespace PipeCheck

/-- The symbols of a program and the types of those that have one. -/
structure Environment where
  /-- The declared symbols. -/
  table : SymbolTable
  /-- The types of those that have one. -/
  types : List (SymbolId × TypeId)

namespace Environment

/-- The type of a symbol. -/
def typeOf? (environment : Environment) (symbol : SymbolId) : Option TypeId :=
  environment.types.lookup symbol

/-- The name of a reference for a message. -/
def referenceName (environment : Environment) (name : String) :
    Option SymbolId → String
  | none => if name.isEmpty then environment.table.displayName none else name
  | some symbol => environment.table.displayName (some symbol)

end Environment

/-- What an analysis has found so far. -/
structure Progress where
  /-- The types created so far. -/
  store : Store
  /-- The types of the nodes that have been typed, the latest first. -/
  types : List (NodeId × TypeId) := []
  /-- The pipes that map a function over a list. -/
  broadcasts : List NodeId := []
  /-- The issues in order of discovery. -/
  issues : Array Issue := #[]

/-- Computations that type expressions.  What was found before a malformed type
is kept. -/
abbrev Typing := ExceptT MalformedType (StateM Progress)

namespace Typing

/-- Creates types. -/
def alloc {α : Type} (create : Alloc α) : Typing α :=
  modifyGetThe Progress fun progress =>
    let (value, store) := create.run progress.store
    (value, { progress with store })

/-- Creates types unless a malformed one is met. -/
def checked {α : Type} (create : Checked α) : Typing α :=
  ExceptT.mk <| modifyGet fun progress =>
    let (outcome, store) := create.run.run progress.store
    (outcome, { progress with store })

/-- The store at this point. -/
def store : Typing Store := do
  return (← get).store

/-- Adds an issue. -/
def report (issue : Issue) : Typing Unit :=
  modify fun progress => { progress with issues := progress.issues.push issue }

/-- Records the type of a node. -/
def record (node : NodeId) (type : TypeId) : Typing TypeId := do
  modify fun progress => { progress with types := (node, type) :: progress.types }
  return type

/-- Records that a pipe maps its function over a list. -/
def recordBroadcast (node : NodeId) : Typing Unit :=
  modify fun progress => { progress with broadcasts := node :: progress.broadcasts }

/-- The shared invalid type. -/
def invalid : Typing TypeId :=
  alloc (Alloc.primitive .invalid)

/-- Adds an issue for an expression, which is invalid. -/
def reject (issue : Issue) : Typing TypeId := do
  report issue
  invalid

/-- The type of a literal. -/
def literal : Literal → Typing TypeId
  | .str _ => alloc (Alloc.primitive .file)
  | .file _ => alloc (Alloc.primitive .file)
  | .glob _ => alloc do Alloc.list (← Alloc.primitive .file)
  | .int _ => alloc (Alloc.primitive .int)
  | .bool _ => alloc (Alloc.primitive .bool)
  | .unit => alloc (Alloc.primitive .unit)

/-- The type of a reference. -/
def reference (environment : Environment) (name : String) (symbol : Option SymbolId)
    (span : Span) : Typing TypeId :=
  match symbol.bind environment.typeOf? with
  | some type => return type
  | none => reject (.untypedSymbol (environment.referenceName name symbol) span)

/-- Adds the issue of an argument that does not fit. -/
def mismatch (function argument : TypeId) (position : Option Nat) (span : Span) :
    Typing Unit := do
  let store ← store
  let expected ←
    if store.isFunction function then
      pure (some (store.render (← store.parameter function)))
    else
      pure none
  report
    (.applicationMismatch (store.render function) (store.render argument) expected position span)

/-- The common instance of the element types of a list literal.  Invalid
elements are passed over, but then there is none. -/
def commonType (index : Nat) (common : Option TypeId) (sawInvalid : Bool) :
    List (TypeId × Span) → Typing (Option TypeId)
  | [] => return if sawInvalid then none else common
  | (type, span) :: rest => do
    if (← store).isInvalid type then
      commonType (index + 1) common true rest
    else
      match common with
      | none => commonType (index + 1) (some type) sawInvalid rest
      | some previous =>
        match ← alloc (Alloc.unify previous type) with
        | some unified => commonType (index + 1) (some unified) sawInvalid rest
        | none =>
          let store ← store
          report (.elementMismatch (store.render previous) (store.render type) index span)
          return none

/-- The element type of a list literal, if its elements have one. -/
def elementType (policy : ListPolicy) (elements : List (TypeId × Span)) :
    Typing (Option TypeId) :=
  match policy with
  | .lastElement => return elements.getLast?.map Prod.fst
  | .unify => commonType 0 none false elements

/-- The type of a list literal, given the types of its elements. -/
def listLiteral (policy : ListPolicy) (span : Span) (elements : List (TypeId × Span)) :
    Typing TypeId := do
  if elements.isEmpty then
    reject (.emptyListLiteral span)
  else
    match ← elementType policy elements with
    | none => invalid
    | some element =>
      if (← store).isInvalid element then invalid else alloc (Alloc.list element)

/-- The type of a tuple literal, given the types of its components. -/
def tupleLiteral (components : List TypeId) : Typing TypeId := do
  if components.isEmpty then
    alloc (Alloc.primitive .unit)
  else if components.any (← store).isInvalid then
    invalid
  else
    alloc (Alloc.tuple components)

/-- The type of a pipe, given the types of its operands. -/
def pipe (policy : QuantifierPolicy) (site : Site) (argument function : TypeId) :
    Typing TypeId := do
  let store ← store
  if store.isInvalid argument || store.isInvalid function then
    invalid
  else
    match ← checked (Checked.pipe policy argument function) with
    | some piped =>
      if piped.broadcast then
        recordBroadcast site.id
      return piped.result
    | none =>
      mismatch function argument none site.span
      invalid

/-- The type of an application without arguments. -/
def applyUnit (function : TypeId) (span : Span) : Typing TypeId := do
  match (← store).applyUnit function with
  | some result => return result
  | none =>
    let unit ← alloc (Alloc.primitive .unit)
    mismatch function unit none span
    invalid

/-- What is left of a function after one more argument; nothing if an earlier
argument failed or this one does. -/
def applyArgument (policy : QuantifierPolicy) (span : Span) (position : Nat)
    (function : Option TypeId) (argument : TypeId) : Typing (Option TypeId) := do
  match function with
  | none => return none
  | some function =>
    if (← store).isInvalid argument then
      return none
    else
      match ← checked (Checked.apply policy argument function) with
      | some result => return some result
      | none =>
        mismatch function argument (some position) span
        return none

section

variable (config : Config) (environment : Environment)

mutual

/-- Types an expression and all its subexpressions. -/
def expression : Expr → Typing TypeId
  | .reference site name symbol => do
    record site.id (← reference environment name symbol site.span)
  | .literal site value => do
    record site.id (← literal value)
  | .list site items => do
    let types ← expressions items
    record site.id
      (← listLiteral config.listLiterals site.span (types.zip (items.map Expr.span)))
  | .tuple site items => do
    record site.id (← tupleLiteral (← expressions items))
  | .pipe site argument function => do
    let argumentType ← expression argument
    let functionType ← expression function
    record site.id (← pipe config.quantifiers site argumentType functionType)
  | .apply site function arguments => do
    let functionType ← expression function
    if (← store).isInvalid functionType then
      let _ ← applied site.span 0 none arguments
      record site.id (← invalid)
    else if arguments.isEmpty then
      record site.id (← applyUnit functionType site.span)
    else
      match ← applied site.span 0 (some functionType) arguments with
      | some result => record site.id result
      | none => record site.id (← invalid)
  | .binary site op left right => do
    let _ ← expression left
    let _ ← expression right
    record site.id
      (← reject (.unhandledNodeKind (Expr.kindName (.binary site op left right)) site.span))
  | .definition site symbol init => do
    let _ ← expression init
    record site.id
      (← reject (.unhandledNodeKind (Expr.kindName (.definition site symbol init)) site.span))
  | .placeholder site => do
    record site.id (← invalid)

/-- Types several expressions in order. -/
def expressions : List Expr → Typing (List TypeId)
  | [] => return []
  | expr :: rest => do
    let type ← expression expr
    return type :: (← expressions rest)

/-- Types the arguments of an application in order and applies the function to
each; all are typed, even after a failure. -/
def applied (span : Span) (position : Nat) (function : Option TypeId) :
    List Expr → Typing (Option TypeId)
  | [] => return function
  | argument :: rest => do
    let argumentType ← expression argument
    let next ← applyArgument config.quantifiers span position function argumentType
    applied span (position + 1) next rest

end

end

end Typing

/-- The result of a completed analysis. -/
structure Analysis where
  /-- The type of the whole expression. -/
  root : TypeId
  /-- The types of the nodes, the latest first. -/
  types : List (NodeId × TypeId)
  /-- The pipes that map a function over a list. -/
  broadcasts : List NodeId
  /-- The issues in order of discovery. -/
  issues : List Issue

namespace Analysis

/-- The type of a node. -/
def typeOf? (analysis : Analysis) (node : NodeId) : Option TypeId :=
  analysis.types.lookup node

/-- Whether a node is a pipe that maps its function over a list. -/
def isBroadcast (analysis : Analysis) (node : NodeId) : Bool :=
  analysis.broadcasts.contains node

/-- Types an expression.  The store is returned even if a malformed type ends
the analysis. -/
def run (config : Config) (environment : Environment) (store : Store) (expr : Expr) :
    Except MalformedType Analysis × Store :=
  let (outcome, progress) :=
    (Typing.expression config environment expr).run { store }
  (outcome.map fun root =>
      { root
        types := progress.types
        broadcasts := progress.broadcasts
        issues := progress.issues.toList },
    progress.store)

end Analysis
end PipeCheck
