import PipeCheck.Types.Equality
import PipeCheck.Types.Substitution

/-!
# Unification of two types

The outermost quantifiers of both types are removed, their variables renamed
apart, and bindings of those variables are collected until the two bodies
agree.  A binding may mention other bound variables, so the bindings are
applied until nothing changes.
-/

namespace PipeCheck

/-- Why no unifying bindings were found. -/
inductive UnifyFailure where
  /-- The two types have no common instance. -/
  | clash
  /-- The search was cut off. -/
  | exhausted
deriving DecidableEq, Repr

namespace Bindings

/-- Follows bindings from variable to variable, a bounded number of times. -/
def resolveWithin (bindings : Bindings) : Nat → TypeId → TypeId
  | 0, id => id
  | steps + 1, id =>
    match bindings.find? id with
    | some next => bindings.resolveWithin steps next
    | none => id

/-- The end of a chain of bindings; a chain without cycle is no longer than the
bindings are many. -/
def resolve (bindings : Bindings) (id : TypeId) : TypeId :=
  bindings.resolveWithin bindings.length id

end Bindings

namespace Store

/-- Whether a variable occurs in a type under the bindings, looking only so
deep. -/
def occursWithin (store : Store) (bindings : Bindings) (var : TypeId) :
    Nat → TypeId → Except UnifyFailure Bool
  | 0, _ => .error .exhausted
  | depth + 1, id =>
    let id := bindings.resolve id
    if id = var then
      .ok true
    else
      match store.shape id with
      | .primitive _ => .ok false
      | .var _ => .ok false
      | .function domain codomain => do
        if ← store.occursWithin bindings var depth domain then
          return true
        else
          store.occursWithin bindings var depth codomain
      | .list element => store.occursWithin bindings var depth element
      | .tuple components => components.anyM (store.occursWithin bindings var depth)
      | .quantified _ body => store.occursWithin bindings var depth body

/-- A depth that no path through acyclic bindings exceeds: between two bound
variables indices decrease, and no variable is met twice. -/
def searchDepth (store : Store) (bound : Nat) : Nat :=
  (bound + 1) * (store.size + 1)

/-- Whether a variable occurs in a type under the bindings. -/
def occurs (store : Store) (bindings : Bindings) (var id : TypeId) :
    Except UnifyFailure Bool :=
  store.occursWithin bindings var (store.searchDepth bindings.length) id

/-- Binds a variable unless it occurs in the type it would stand for. -/
def bindVar (store : Store) (bindings : Bindings) (var type : TypeId) :
    Except UnifyFailure Bindings := do
  if ← store.occurs bindings var type then
    .error .clash
  else
    return bindings.bind var type

/-- Extends bindings of the listed variables until two types agree, looking
only so deep. -/
def unifyWithin (store : Store) (bindable : List TypeId) :
    Nat → (left right : TypeId) → Bindings → Except UnifyFailure Bindings
  | 0, _, _, _ => .error .exhausted
  | depth + 1, left, right, bindings =>
    let left := bindings.resolve left
    let right := bindings.resolve right
    if left = right then
      .ok bindings
    else if bindable.contains left then
      store.bindVar bindings left right
    else if bindable.contains right then
      store.bindVar bindings right left
    else
      match store.shape left, store.shape right with
      | .function leftDomain leftCodomain, .function rightDomain rightCodomain => do
        let bindings ← store.unifyWithin bindable depth leftDomain rightDomain bindings
        store.unifyWithin bindable depth leftCodomain rightCodomain bindings
      | .list leftElement, .list rightElement =>
        store.unifyWithin bindable depth leftElement rightElement bindings
      | .tuple leftComponents, .tuple rightComponents =>
        if leftComponents.length = rightComponents.length then
          (leftComponents.zip rightComponents).foldlM (fun bindings pair =>
            store.unifyWithin bindable depth pair.1 pair.2 bindings) bindings
        else
          .error .clash
      | _, _ => if store.same left right then .ok bindings else .error .clash

/-- Bindings of the listed variables under which two types agree. -/
def unifier (store : Store) (bindable : List TypeId) (left right : TypeId) :
    Except UnifyFailure Bindings :=
  store.unifyWithin bindable (store.searchDepth bindable.length) left right []

end Store

namespace Alloc

/-- Applies bindings again and again until the type stays the same, a bounded
number of times. -/
def substituteUntilStable (bindings : Bindings) : Nat → TypeId → Alloc TypeId
  | 0, id => pure id
  | rounds + 1, id => do
    let next ← substitute bindings id
    if next = id then return id else substituteUntilStable bindings rounds next

/-- Removes an outermost quantifier; its variables, renamed, are returned with
the body. -/
def stripQuantifier (id : TypeId) : Alloc (List TypeId × TypeId) := do
  match (← get).shape id with
  | .quantified binders body => freshen binders body
  | _ => return ([], id)

/-- The most general common instance of two types, if there is one.  The types
created on the way stay in the store in either case. -/
def unify (left right : TypeId) : Alloc (Option TypeId) := do
  if left = right then
    return some left
  let (leftVars, leftBody) ← stripQuantifier left
  let (rightVars, rightBody) ← stripQuantifier right
  let bindable := leftVars ++ rightVars
  match (← get).unifier bindable leftBody rightBody with
  | .error _ => return none
  | .ok bindings =>
    let body ← substituteUntilStable bindings (bindings.length + 1) leftBody
    let binders := ((← get).freeVars body).filter fun id => bindable.contains id
    some <$> quantifiedOver binders body

end Alloc
end PipeCheck
