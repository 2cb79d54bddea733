import PipeCheck.Proofs.Application.Quantified
import PipeCheck.Proofs.Unification.CommonInstances

/-!
# Properties that types hand on

Unification, application and pipes make new types of given ones.  A property of
trees is inherited when each of these steps hands it on, and then every type
that is returned has it.  What has to be shown of a property speaks of trees and
not of computations.
-/

namespace PipeCheck
namespace Store

variable {property : Tree → Prop} {store last : Store} {id : TypeId}

/-- A stored type whose tree has a property. -/
def Has (store : Store) (property : Tree → Prop) (id : TypeId) : Prop :=
  id < store.size ∧ property (store.tree id)

theorem Follows.has (follows : last.Follows store) (wf : store.WellFormed)
    (has : store.Has property id) :
    last.Has property id := by
  refine ⟨follows.grown.inside has.1, ?_⟩
  rw [follows.grown.tree_eq wf has.1]
  exact has.2

theorem Builds.has {tree : Tree} (built : store.Builds last id tree) (holds : property tree) :
    last.Has property id :=
  ⟨built.inside, built.tree_eq.symm ▸ holds⟩

/-- A property of trees that every type has which is made of types with the
property. -/
structure Inherited (property : Tree → Prop) : Prop where
  /-- A tree without quantifier hands the property on to what is below it. -/
  child : ∀ {tree child}, property tree → tree.kind ≠ .quantified → child ∈ tree.children →
    property child
  /-- Lists of such types have the property. -/
  list : ∀ {element}, property element → property (.list element)
  /-- The elements of a quantified list come under the list's quantifier. -/
  element : ∀ {binders element}, property (.quantified binders (.list element)) →
    property (.quantified binders element)
  /-- The result of a quantified function for an argument. -/
  image : ∀ {store last : Store} {binders parameter codomain argument fresh assignment quantifier
      domain image result} (policy : QuantifierPolicy),
    store.WellFormed →
    Specialises store last binders parameter codomain argument fresh assignment quantifier domain
      image result →
    property (.quantified binders (.function parameter codomain)) →
    store.Has property argument →
    property (image.quantifiedOver (policy.keeps quantifier image))
  /-- The common instance of two types. -/
  common : ∀ {store first middle last : Store} {left right leftVars leftBody rightVars rightBody
      bindings result binders body},
    store.WellFormed →
    Strips store first middle left right leftVars leftBody rightVars rightBody →
    middle.Unifies (leftVars ++ rightVars) [] bindings [(leftBody, rightBody)] →
    Rebuilds middle last (leftVars ++ rightVars) bindings leftBody result binders body →
    store.Has property left → store.Has property right →
    property (body.quantifiedOver binders)

namespace Inherited

variable (inherited : Inherited property)

include inherited

theorem component (wf : store.WellFormed) (has : store.Has property id)
    (notQuantified : store.kind id ≠ .quantified) {component : TypeId}
    (mem : component ∈ (store.shape id).components) :
    store.Has property component := by
  refine ⟨wf.component_inside has.1 component mem, ?_⟩
  rw [← Store.kind_tree] at notQuantified
  exact inherited.child has.2 notQuantified (wf.tree_mem_children mem)

theorem yields_unify (wf : store.WellFormed) {left right : TypeId}
    (leftHas : store.Has property left) (rightHas : store.Has property right) :
    Yields (Alloc.unify left right) store fun result last =>
      last.Follows store ∧ ∀ id, result = some id → last.Has property id := by
  by_cases same : left = right
  · rw [Alloc.unify, if_pos same]
    refine ⟨wf.follows_self, ?_⟩
    rintro _ ⟨⟩
    exact leftHas
  refine (Alloc.yields_unify wf same leftHas.1 rightHas.1).mono ?_
  rintro result last ⟨first, mid, leftVars, leftBody, rightVars, rightBody, strips, unified⟩
  have midFollows : mid.Follows store := strips.right.toFollows.trans strips.left.toFollows
  cases result with
  | none =>
    obtain ⟨rfl, _⟩ := unified
    exact ⟨midFollows, by simp⟩
  | some result =>
    obtain ⟨bindings, binders, body, unifies, rebuilds⟩ := unified
    refine ⟨rebuilds.toFollows.trans midFollows, ?_⟩
    rintro _ ⟨⟩
    exact rebuilds.toBuilds.has (inherited.common wf strips unifies rebuilds leftHas rightHas)

end Inherited

/-- Every stored type is as good as any other. -/
theorem trivial_inherited : Inherited fun _ => True where
  child _ _ _ := trivial
  list _ := trivial
  element _ := trivial
  image _ _ _ _ _ := trivial
  common _ _ _ _ _ _ := trivial

end Store

namespace Checked

open Store

variable {property : Tree → Prop} {store : Store}

/-- Every type that is returned has a property. -/
def Returns (property : Tree → Prop) (computation : Checked (Option TypeId)) (store : Store) :
    Prop :=
  Keeps Store.Follows computation store fun returned last =>
    ∀ id, returned = some id → last.Has property id

/-- A computation that ends in its first store returns a type that was there. -/
theorem returns_of_run_eq {action : Checked (Option TypeId)} (wf : store.WellFormed)
    {outcome : Except MalformedType (Option TypeId)}
    (runEq : action.run.run store = (outcome, store))
    (has : ∀ id, outcome = .ok (some id) → store.Has property id) :
    Returns property action store := by
  unfold Returns Keeps Yields
  rw [runEq]
  refine ⟨wf.follows_self, ?_⟩
  intro returned outcomeEq id returnedEq
  exact has id (outcomeEq.trans (congrArg _ returnedEq))

end Checked

namespace Store
namespace Inherited

open Checked

variable {property : Tree → Prop} (inherited : Inherited property) {store : Store}

include inherited

/-- The result of a function for the unit. -/
theorem applyUnit (wf : store.WellFormed) {fnType result : TypeId}
    (fnHas : store.Has property fnType) (applied : store.applyUnit fnType = some result) :
    store.Has property result := by
  unfold Store.applyUnit at applied
  split at applied
  · next domain codomain shapeEq =>
      split at applied
      · cases applied
        exact inherited.component wf fnHas (by simp [Store.kind, shapeEq, Shape.kind])
          (by simp [shapeEq, Shape.components])
      · cases applied
  · cases applied

/-- The result of a function that takes its argument. -/
theorem returns_apply (policy : QuantifierPolicy) (wf : store.WellFormed)
    {fnType arg : TypeId} (fnHas : store.Has property fnType) (argHas : store.Has property arg) :
    Returns property (apply policy arg fnType) store := by
  cases shapeEq : store.shape fnType with
  | function domain codomain =>
    have codomainHas : store.Has property codomain :=
      inherited.component wf fnHas (by simp [Store.kind, shapeEq, Shape.kind])
        (by simp [shapeEq, Shape.components])
    refine returns_of_run_eq wf (apply_function policy arg shapeEq) ?_
    intro id outcomeEq
    cases compared : store.equal domain arg with
    | error failure =>
      rw [compared] at outcomeEq
      cases outcomeEq
    | ok same =>
      rw [compared] at outcomeEq
      cases same with
      | false => cases outcomeEq
      | true =>
        cases outcomeEq
        exact codomainHas
  | quantified binders body =>
    unfold Returns Keeps
    refine Yields.mono (yields_apply_quantified policy wf shapeEq argHas.1) ?_
    rintro _ last ⟨returned, rfl, application⟩
    cases returned with
    | none => exact ⟨application.1, by simp⟩
    | some id =>
      obtain ⟨parameter, codomain, fresh, assign, quantifier, domain, image, mid,
        specialised, treeEq, specialises, built⟩ := application
      refine ⟨built.toFollows.trans specialises.toFollows, ?_⟩
      rintro _ ⟨⟩ _ ⟨⟩
      refine built.has (inherited.image policy wf specialises ?_ argHas)
      rw [← treeEq, ← wf.tree_of_quantified shapeEq]
      exact fnHas.2
  | _ =>
    exact returns_of_run_eq wf
      (apply_other policy arg (by simp [Store.kind, shapeEq, Shape.kind])
        (by simp [Store.kind, shapeEq, Shape.kind]))
      (by simp)

/-- The element type of a list. -/
theorem returns_elementOf? (wf : store.WellFormed) {arg : TypeId}
    (argHas : store.Has property arg) :
    Returns property (elementOf? arg) store := by
  refine Succeeds.keeps ((succeeds_elementOf? wf argHas.1).mono ?_)
  rintro _ last ⟨follows, ofArgument⟩
  refine ⟨follows, ?_⟩
  rintro _ ⟨⟩
  cases ofArgument with
  | direct shapeEq _ =>
    exact follows.has wf (inherited.component wf argHas
      (by simp [Store.kind, shapeEq, Shape.kind]) (by simp [shapeEq, Shape.components]))
  | quantified shapeEq bodyEq built _ =>
    have argProperty := argHas.2
    rw [wf.tree_of_quantified shapeEq, wf.tree_of_list bodyEq] at argProperty
    exact built.has (inherited.element argProperty)

/-- The result of a pipe. -/
theorem keeps_pipe (policy : QuantifierPolicy) (wf : store.WellFormed)
    {fnType arg : TypeId} (fnHas : store.Has property fnType) (argHas : store.Has property arg) :
    Keeps Store.Follows (pipe policy arg fnType) store fun returned last =>
      ∀ piped, returned = some piped → last.Has property piped.result := by
  refine Keeps.bind Store.Follows.trans (inherited.returns_apply policy wf fnHas argHas) ?_
  intro applied mid follows appliedHas
  cases applied with
  | some type =>
    refine keeps_pure follows.wellFormed.follows_self ?_
    rintro _ ⟨⟩
    exact appliedHas type rfl
  | none =>
    refine Keeps.bind Store.Follows.trans (inherited.returns_elementOf? follows.wellFormed
      (follows.has wf argHas)) ?_
    intro element afterElement elementFollows elementHas
    cases element with
    | none => exact keeps_pure elementFollows.wellFormed.follows_self (by simp)
    | some element =>
      have bothFollow := elementFollows.trans follows
      refine Keeps.bind Store.Follows.trans (inherited.returns_apply policy
        elementFollows.wellFormed (bothFollow.has wf fnHas) (elementHas element rfl)) ?_
      intro mapped last lastFollows mappedHas
      cases mapped with
      | none => exact keeps_pure lastFollows.wellFormed.follows_self (by simp)
      | some type =>
        have typeHas := mappedHas type rfl
        refine Keeps.map (keeps_lift ((Alloc.yields_list lastFollows.wellFormed typeHas.1).mono ?_))
        rintro id final ⟨built, _⟩
        refine ⟨built.toFollows, ?_⟩
        rintro _ ⟨⟩
        exact built.has (inherited.list typeHas.2)

end Inherited
end Store
end PipeCheck
