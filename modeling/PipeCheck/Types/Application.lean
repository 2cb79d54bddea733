import PipeCheck.Types.Matching

/-!
# Application of function types

A function without quantifier takes exactly its parameter's type.  A quantified
function takes every type that an instance of it takes.  A pipe also maps a
function over a list when the list itself is not accepted.
-/

namespace PipeCheck

/-- What to do with quantified variables that no longer occur in a result. -/
inductive QuantifierPolicy where
  /-- Keep the whole quantifier. -/
  | keepAll
  /-- Keep only the variables that occur. -/
  | prune
deriving DecidableEq, Repr

/-- Computations that create types and may meet a malformed one.  The types
created before the failure stay. -/
abbrev Checked := ExceptT MalformedType Alloc

/-- The outcome of a pipe. -/
structure Piped where
  /-- The type of the whole pipe. -/
  result : TypeId
  /-- Whether the function was mapped over a list. -/
  broadcast : Bool
deriving DecidableEq, Repr

namespace Store

/-- The parameter of a function type, looking through one quantifier. -/
def parameter (store : Store) (functionType : TypeId) : Except MalformedType TypeId :=
  match store.shape (store.body functionType) with
  | .function domain _ => .ok domain
  | _ => .error (.notAFunction (store.render functionType))

/-- The result of a function whose parameter is the unit type. -/
def applyUnit (store : Store) (functionType : TypeId) : Option TypeId :=
  match store.shape functionType with
  | .function domain codomain =>
    if store.kind domain = .primitive .unit then some codomain else none
  | _ => none

end Store

namespace QuantifierPolicy

/-- The variables that stay quantified over a result. -/
def binders (policy : QuantifierPolicy) (store : Store) (binders : List TypeId)
    (result : TypeId) : List TypeId :=
  match policy with
  | .keepAll => binders
  | .prune => binders.filter fun id => (store.freeVars result).contains id

end QuantifierPolicy

namespace Checked

/-- Gives up because a type is not a function. -/
def notAFunction {α : Type} (store : Store) (type : TypeId) : Checked α :=
  throw (.notAFunction (store.render type))

/-- The result of a function type, under the function's own quantifier. -/
def result (policy : QuantifierPolicy) (functionType : TypeId) : Checked TypeId := do
  let store ← get
  match store.shape functionType with
  | .function _ codomain => return codomain
  | .quantified binders body =>
    match store.shape body with
    | .function _ codomain =>
      Alloc.quantifiedOver (policy.binders store binders codomain) codomain
    | _ => notAFunction store functionType
  | _ => notAFunction store functionType

/-- The result of applying a function to one argument, or nothing if the
argument does not fit. -/
def apply (policy : QuantifierPolicy) (argument functionType : TypeId) :
    Checked (Option TypeId) := do
  let store ← get
  match store.shape functionType with
  | .function domain _ =>
    if ← store.equal domain argument then
      some <$> result policy functionType
    else
      return none
  | .quantified _ _ =>
    match ← Alloc.specialise functionType argument with
    | some specialised => some <$> result policy specialised
    | none => return none
  | _ => return none

/-- The element type of a list argument, under the list's own quantifier. -/
def elementOf? (argument : TypeId) : Checked (Option TypeId) := do
  let store ← get
  match store.element? argument, store.shape argument with
  | some element, .quantified binders _ => some <$> Alloc.quantified binders element
  | element, _ => return element

/-- The result of piping an argument into a function: of the application
itself, or else of mapping the function over a list argument. -/
def pipe (policy : QuantifierPolicy) (argument functionType : TypeId) :
    Checked (Option Piped) := do
  match ← apply policy argument functionType with
  | some type => return some { result := type, broadcast := false }
  | none =>
    match ← elementOf? argument with
    | none => return none
    | some element =>
      match ← apply policy element functionType with
      | none => return none
      | some type => return some { result := ← Alloc.list type, broadcast := true }

end Checked
end PipeCheck
