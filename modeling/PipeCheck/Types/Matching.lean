import PipeCheck.Types.Equality
import PipeCheck.Types.Substitution

/-!
# Matching an argument against a parameter

A quantified function is instantiated for an argument by matching: the
variables of its quantifier, renamed apart, are bound to parts of the argument.
Only the parameter's variables are bound, never the argument's.
-/

namespace PipeCheck
namespace Store

/-- Extends bindings so that the pattern becomes the given type, up to a
height.  Only the listed variables may be bound. -/
def matchWithin (store : Store) (bindable : List TypeId) :
    Nat → (pattern type : TypeId) → Bindings → Option Bindings
  | 0, _, _, _ => none
  | height + 1, pattern, type, bindings =>
    if pattern = type then
      some bindings
    else if bindable.contains pattern then
      match bindings.find? pattern with
      | some bound => if store.same bound type then some bindings else none
      | none => some (bindings.bind pattern type)
    else
      match store.shape pattern, store.shape type with
      | .function patternDomain patternCodomain, .function domain codomain => do
        let bindings ← store.matchWithin bindable height patternDomain domain bindings
        store.matchWithin bindable height patternCodomain codomain bindings
      | .list patternElement, .list element =>
        store.matchWithin bindable height patternElement element bindings
      | .tuple patternComponents, .tuple components =>
        if patternComponents.length = components.length then
          (patternComponents.zip components).foldlM (fun bindings pair =>
            store.matchWithin bindable height pair.1 pair.2 bindings) bindings
        else
          none
      | _, _ => if store.same pattern type then some bindings else none

/-- Bindings of the listed variables that turn the pattern into the type. -/
def matchPattern (store : Store) (bindable : List TypeId) (pattern type : TypeId) :
    Option Bindings :=
  store.matchWithin bindable (pattern + 1) pattern type []

end Store

/-- Variables sorted by their place in a list; those not in it come last, and
ties keep their order. -/
def sortByPlace (order ids : List TypeId) : List TypeId :=
  ids.mergeSort fun left right => order.idxOf left ≤ order.idxOf right

namespace Alloc

/-- The variables that an instance is quantified over: those of the function
that matching left unbound, and those that came with the argument and occur. -/
def instanceBinders (fresh imported free : List TypeId) (bindings : Bindings) :
    List TypeId :=
  let unbound := fresh.filter fun id => !bindings.binds id
  let binders := imported.foldl (fun binders id =>
    if free.contains id && !binders.contains id then binders ++ [id] else binders) unbound
  sortByPlace free binders

/-- The instance of a quantified function whose parameter is the argument's
type, if there is one.  New variables are created in either case. -/
def specialise (functionType argument : TypeId) : Alloc (Option TypeId) := do
  match (← get).shape functionType with
  | .quantified binders body =>
    if (← get).kind body ≠ .function then
      return none
    let (fresh, renamed) ← freshen binders body
    let store ← get
    match store.shape renamed with
    | .function parameter _ =>
      match store.matchPattern fresh parameter (store.body argument) with
      | none => return none
      | some bindings =>
        let body ← substitute bindings renamed
        let free := (← get).freeVars body
        let binders := instanceBinders fresh (store.binders argument) free bindings
        some <$> quantifiedOver binders body
    | _ => return none
  | _ => return none

end Alloc
end PipeCheck
