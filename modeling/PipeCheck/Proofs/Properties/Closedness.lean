import PipeCheck.Proofs.Properties.Inheritance

/-!
# Closed types

What is made of closed types by unification, application and pipes is closed
again.  Each of them removes a quantifier and puts another one in its place, so
each needs its own account of the variables that are left.
-/

namespace PipeCheck

open PipeCheck.Tree

/-- If all variables are renamed, only new ones occur. -/
theorem Tree.mem_fresh_of_rename {binders fresh : List TypeId}
    (sameLength : binders.length = fresh.length) {tree : Tree}
    (listed : ∀ id ∈ tree.occurrences, id ∈ binders) {leaf : TypeId}
    (occurs : leaf ∈ (tree.rename binders fresh).occurrences) :
    leaf ∈ fresh := by
  obtain ⟨source, sourceOccurs, present⟩ := exists_mem_occurrences_of_replace occurs
  rw [List.mem_singleton.1 present]
  exact Bindings.rename_mem sameLength (listed source sourceOccurs)

namespace Store

variable {store first mid last : Store} {id : TypeId}

theorem Follows.closedType (follows : last.Follows store) (wf : store.WellFormed)
    (closed : store.ClosedType id) :
    last.ClosedType id :=
  follows.grown.closedType wf closed

section

variable (closed : store.ClosedType id) (wf : store.WellFormed)

include closed wf

/-- Below its quantifier a closed type mentions only the variables listed
there. -/
theorem ClosedType.mem_binders
    {leaf : TypeId} (occurs : leaf ∈ (store.tree (store.body id)).occurrences) :
    leaf ∈ store.binders id := by
  rw [wf.tree_body] at occurs
  rw [← wf.binders_tree]
  exact closed.2.mem_binders occurs

theorem ClosedType.mem_of_quantified {binders : List TypeId} {body : TypeId}
    (shapeEq : store.shape id = .quantified binders body) {leaf : TypeId}
    (occurs : leaf ∈ (store.tree body).occurrences) :
    leaf ∈ binders := by
  have bindersEq : store.binders id = binders := by simp [Store.binders, shapeEq]
  have bodyEq : store.body id = body := by simp [Store.body, shapeEq]
  rw [← bodyEq] at occurs
  rw [← bindersEq]
  exact closed.mem_binders wf occurs

/-- The components of a closed type without quantifier are closed. -/
theorem ClosedType.component (notQuantified : store.kind id ≠ .quantified) {part : TypeId}
    (mem : part ∈ (store.shape id).components) :
    store.ClosedType part := by
  refine ⟨wf.component_inside closed.1 part mem, ?_⟩
  have noneOccurs := closed_iff_forall_notMem.1 closed.2
  rw [closed_iff_forall_notMem]
  exact wf.hereditary_occurrences (fun _ => False) noneOccurs notQuantified mem

end

section Unification

variable {bindable : List TypeId} {bindings : Bindings} {source result : TypeId}
  {binders : List TypeId} {body : Tree}

/-- A rebuilt type is closed if only the listed variables could get into it. -/
theorem Rebuilds.closed
    (rebuilds : Rebuilds mid last bindable bindings source result binders body)
    (values : bindings.Values fun type => ∀ leaf ∈ (mid.tree type).occurrences, leaf ∈ bindable)
    (sourceListed : ∀ leaf ∈ (mid.tree source).occurrences, leaf ∈ bindable) :
    (body.quantifiedOver binders).Closed := by
  have iterateListed : ∀ times,
      ∀ leaf ∈ ((replace (bindings.assignment mid))^[times]
        (mid.tree source)).occurrences, leaf ∈ bindable := by
    intro times
    induction times with
    | zero => exact sourceListed
    | succ times ih =>
      intro leaf occurs
      rw [Function.iterate_succ_apply'] at occurs
      obtain ⟨origin, originOccurs, present⟩ := exists_mem_occurrences_of_replace occurs
      cases found : bindings.find? origin with
      | none =>
        rw [Bindings.assignment_of_unbound found] at present
        rw [List.mem_singleton.1 present]
        exact ih origin originOccurs
      | some type =>
        rw [Bindings.assignment_of_find? found] at present
        exact values found leaf present
  obtain ⟨times, bodyEq⟩ := rebuilds.iterated
  rw [closed_quantifiedOver_iff]
  intro leaf occurs
  exact (rebuilds.mem_binders leaf).2 ⟨occurs, iterateListed times leaf (bodyEq ▸ occurs)⟩

/-- Closed types stripped of their quantifiers mention only the new
variables. -/
theorem Strips.mem_vars {left right : TypeId} {leftVars : List TypeId} {leftBody : TypeId}
    {rightVars : List TypeId} {rightBody : TypeId}
    (strips : Strips store first mid left right leftVars leftBody rightVars rightBody)
    (wf : store.WellFormed) (leftClosed : store.ClosedType left)
    (rightClosed : store.ClosedType right) :
    (∀ leaf ∈ (mid.tree leftBody).occurrences, leaf ∈ leftVars ++ rightVars) ∧
      ∀ leaf ∈ (mid.tree rightBody).occurrences, leaf ∈ leftVars ++ rightVars := by
  constructor
  · intro leaf occurs
    rw [strips.right.grown.tree_eq strips.left.wellFormed strips.left.inside,
      strips.left.tree_eq] at occurs
    exact List.mem_append_left _ (mem_fresh_of_rename strips.left.length_eq
      (fun _ => leftClosed.mem_binders wf) occurs)
  · intro leaf occurs
    rw [strips.right.tree_eq, strips.left.grown.tree_eq wf (wf.body_inside rightClosed.1)] at occurs
    exact List.mem_append_right _ (mem_fresh_of_rename strips.right.length_eq
      (fun _ => rightClosed.mem_binders wf) occurs)

end Unification

/-- Under its quantifier the image of an instance of a closed function is closed,
if the argument is. -/
theorem Specialises.mem_keeps {binders fresh quantifier : List TypeId}
    {parameter codomain domain image : Tree} {arg result : TypeId} {assign : TypeId → Tree}
    (specialises : Specialises store last binders parameter codomain arg fresh assign
      quantifier domain image result)
    (wf : store.WellFormed) (argumentClosed : store.ClosedType arg)
    (listed : ∀ id ∈ codomain.occurrences, id ∈ binders) (policy : QuantifierPolicy) :
    ∀ leaf ∈ image.occurrences, leaf ∈ policy.keeps quantifier image := by
  intro leaf occurs
  rw [QuantifierPolicy.mem_keeps]
  refine ⟨?_, fun _ => occurs⟩
  rw [specialises.mem_quantifier]
  have inImage := occurs
  rw [specialises.image_eq] at inImage
  obtain ⟨source, sourceOccurs, present⟩ := exists_mem_occurrences_of_replace inImage
  have sameLength : binders.length = fresh.length := by
    rw [specialises.fresh_eq, List.length_range']
  have isFresh := mem_fresh_of_rename sameLength listed sourceOccurs
  by_cases inParam : source ∈ (parameter.rename binders fresh).occurrences
  · have inArg := specialises.occurs_argument source isFresh inParam leaf present
    refine .inr ⟨argumentClosed.mem_binders wf inArg, ?_⟩
    rw [occurrences]
    exact List.mem_append_right _ occurs
  · rw [specialises.assignment_eq_var source inParam] at present
    rw [List.mem_singleton.1 present]
    exact .inl ⟨isFresh, inParam⟩

/-- Closed types make closed types. -/
theorem closed_inherited : Inherited Tree.Closed where
  child {tree child} closed notQuantified mem := by
    rw [Tree.closed_iff_forall_notMem] at closed ⊢
    intro id occurs
    exact closed id (Tree.mem_occurrences_of_mem_children mem notQuantified occurs)
  list closed := closed
  element closed := closed
  image {_ _ _ parameter codomain _ _ _ _ _ _ _} policy wf specialises fnClosed
      argumentClosed := by
    rw [Tree.closed_quantifiedOver_iff]
    refine specialises.mem_keeps wf argumentClosed ?_ policy
    intro id occurs
    apply fnClosed.mem_binders
    rw [Tree.body, Tree.occurrences]
    exact List.mem_append_right _ occurs
  common {_ _ mid _ _ _ leftVars leftBody rightVars rightBody bindings _ _ _} wf strips
      unifies rebuilds leftClosed rightClosed := by
    obtain ⟨leftListed, rightListed⟩ := strips.mem_vars wf leftClosed rightClosed
    have values : bindings.Values fun type => ∀ leaf ∈ (mid.tree type).occurrences,
        leaf ∈ leftVars ++ rightVars := by
      refine unifies.preserves (strips.right.wellFormed.hereditary_occurrences _) ?_
        fun _ _ none => by cases none
      intro pair mem
      rw [List.mem_singleton.1 mem]
      exact ⟨leftListed, rightListed⟩
    exact rebuilds.closed values leftListed

end Store
end PipeCheck
