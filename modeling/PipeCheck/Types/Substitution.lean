import PipeCheck.Types.Free

/-!
# Substitution of types for variables

Substitution creates new types only along the paths to a replaced variable;
everything else is shared with the given type.
-/

namespace PipeCheck

/-- Types for variables, the latest binding of a variable first. -/
abbrev Bindings := List (TypeId × TypeId)

namespace Bindings

/-- The type bound to a variable. -/
def find? (bindings : Bindings) (id : TypeId) : Option TypeId :=
  bindings.lookup id

/-- Whether a variable is bound. -/
def binds (bindings : Bindings) (id : TypeId) : Bool :=
  (bindings.find? id).isSome

/-- Binds a variable, hiding any earlier binding of it. -/
def bind (bindings : Bindings) (id type : TypeId) : Bindings :=
  (id, type) :: bindings

/-- The bindings of all variables but the listed ones. -/
def without (bindings : Bindings) (ids : List TypeId) : Bindings :=
  bindings.filter fun binding => !ids.contains binding.1

/-- Binds each variable to the type at the same place; of a variable listed
twice the later place counts. -/
def ofLists (ids types : List TypeId) : Bindings :=
  (ids.zip types).reverse

end Bindings

namespace Alloc

/-- Replaces variables in a type up to a height.  The index stays the same
exactly when no component changes. -/
def substituteWithin : Nat → Bindings → TypeId → Alloc TypeId
  | 0, _, id => pure id
  | height + 1, bindings, id =>
    if bindings.isEmpty then
      pure id
    else do
      match (← get).shape id with
      | .primitive _ => return id
      | .var _ => return (bindings.find? id).getD id
      | .function domain codomain =>
        let newDomain ← substituteWithin height bindings domain
        let newCodomain ← substituteWithin height bindings codomain
        if newDomain = domain ∧ newCodomain = codomain then
          return id
        else
          function newDomain newCodomain
      | .list element =>
        let newElement ← substituteWithin height bindings element
        if newElement = element then
          return id
        else
          list newElement
      | .tuple components =>
        let newComponents ← components.mapM (substituteWithin height bindings)
        if newComponents = components then
          return id
        else
          tuple newComponents
      | .quantified binders body =>
        let newBody ← substituteWithin height (bindings.without binders) body
        if newBody = body then
          return id
        else
          quantified binders newBody

/-- Replaces the free variables of a type by the types bound to them.
Variables under a quantifier of their own are left alone. -/
def substitute (bindings : Bindings) (id : TypeId) : Alloc TypeId :=
  substituteWithin (id + 1) bindings id

/-- Renames the listed variables of a body to new ones, which are returned with
the renamed body. -/
def freshen (binders : List TypeId) (body : TypeId) :
    Alloc (List TypeId × TypeId) := do
  let fresh ← binders.mapM fun _ => var
  let renamed ← substitute (Bindings.ofLists binders fresh) body
  return (fresh, renamed)

end Alloc
end PipeCheck
