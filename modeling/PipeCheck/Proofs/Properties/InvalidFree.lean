import PipeCheck.Proofs.Properties.Inheritance

/-!
# Types that do not mention the invalid type

What unification, application and pipes make of such types is again such a type:
every primitive type in a result comes from one of the given types.
-/

namespace PipeCheck

open List

namespace Tree

mutual

/-- The primitive types in a tree, from left to right. -/
def primitives : Tree → List Primitive
  | .primitive which => [which]
  | .function domain codomain => domain.primitives ++ codomain.primitives
  | .list element => element.primitives
  | .tuple components => primitivesAll components
  | .var _ => []
  | .quantified _ body => body.primitives

/-- The primitive types in several trees. -/
def primitivesAll : List Tree → List Primitive
  | [] => []
  | tree :: rest => tree.primitives ++ primitivesAll rest

end

@[simp] theorem primitivesAll_eq_flatMap (trees : List Tree) :
    primitivesAll trees = trees.flatMap primitives := by
  induction trees with
  | nil => rfl
  | cons tree rest ih =>
    rw [primitivesAll, ih, flatMap_cons]

theorem mem_primitives_of_mem_children {tree child : Tree} (mem : child ∈ tree.children)
    {which : Primitive} (occurs : which ∈ child.primitives) :
    which ∈ tree.primitives := by
  cases tree with
  | primitive own => simp [children] at mem
  | function domain codomain =>
    simp only [children, mem_cons, not_mem_nil, or_false] at mem
    rw [primitives, mem_append]
    rcases mem with rfl | rfl
    · exact .inl occurs
    · exact .inr occurs
  | list element => exact mem_singleton.1 mem ▸ occurs
  | tuple parts =>
    rw [primitives, primitivesAll_eq_flatMap]
    exact mem_flatMap.2 ⟨child, mem, occurs⟩
  | var id => simp [children] at mem
  | quantified binders body => exact mem_singleton.1 mem ▸ occurs

/-- The primitive types of a replaced tree are its own and those of the
replacements of its variables. -/
theorem mem_primitives_replace {tree : Tree} {assign : TypeId → Tree} {which : Primitive} :
    which ∈ (tree.replace assign).primitives ↔
      which ∈ tree.primitives ∨
        ∃ id ∈ tree.occurrences, which ∈ (assign id).primitives := by
  induction tree generalizing assign with
  | primitive own => simp [replace, primitives, occurrences]
  | function domain codomain domainIH codomainIH =>
    simp only [replace, primitives, occurrences, mem_append, domainIH, codomainIH]
    grind
  | list element elementIH =>
    simp only [replace, primitives, occurrences, elementIH]
  | tuple parts partIH =>
    simp only [replace, replaceAll_eq_map, primitives, primitivesAll_eq_flatMap, occurrences,
      occurrencesAll_eq_flatMap, flatMap_map, mem_flatMap]
    grind
  | var id => simp [replace, primitives, occurrences]
  | quantified binders body bodyIH =>
    simp only [replace, primitives, occurrences, bodyIH, mem_filter,
      Bool.not_eq_true', contains_eq_mem, decide_eq_false_iff_not]
    -- a listed variable stays one, and a variable is no primitive type
    refine or_congr_right (exists_congr fun id => ?_)
    by_cases listed : id ∈ binders
    · simp [shadow_of_mem listed, listed, primitives]
    · simp [shadow_of_notMem listed, listed]

theorem primitives_quantifiedOver (binders : List TypeId) (tree : Tree) :
    (tree.quantifiedOver binders).primitives = tree.primitives := by
  unfold quantifiedOver
  split
  · rfl
  · rw [primitives]

@[simp] theorem primitives_body (tree : Tree) : tree.body.primitives = tree.primitives := by
  cases tree with
  | quantified binders inner => rw [body, primitives]
  | _ => rfl

theorem mem_primitives_rename {tree : Tree} {binders fresh : List TypeId} {which : Primitive} :
    which ∈ (tree.rename binders fresh).primitives ↔ which ∈ tree.primitives := by
  rw [rename, mem_primitives_replace]
  simp [primitives]

/-- The invalid type occurs nowhere in a tree. -/
def InvalidFree (tree : Tree) : Prop :=
  .invalid ∉ tree.primitives

instance (tree : Tree) : Decidable tree.InvalidFree :=
  inferInstanceAs (Decidable (¬_))

end Tree

namespace Store

open PipeCheck.Tree

variable {store last : Store} {which : Primitive}

instance (store : Store) (id : TypeId) : Decidable (store.Has InvalidFree id) :=
  inferInstanceAs (Decidable (_ ∧ _))

/-- The result of a function for an argument mentions what the function's
codomain and the argument mention. -/
theorem Specialises.mem_primitives_image {binders fresh quantifier : List TypeId}
    {parameter codomain domain image : Tree} {arg result : TypeId} {assign : TypeId → Tree}
    (specialises : Specialises store last binders parameter codomain arg fresh assign
      quantifier domain image result) (wf : store.WellFormed) (occurs : which ∈ image.primitives) :
    which ∈ codomain.primitives ∨ which ∈ (store.tree arg).primitives := by
  rw [specialises.image_eq, mem_primitives_replace, mem_primitives_rename] at occurs
  rcases occurs with inCodomain | ⟨id, _, inAssigned⟩
  · exact .inl inCodomain
  · by_cases inParam : id ∈ (parameter.rename binders fresh).occurrences
    · right
      rw [← primitives_body, ← wf.tree_body, ← specialises.domain_eq_argument,
        specialises.domain_eq, mem_primitives_replace]
      exact .inr ⟨id, inParam, inAssigned⟩
    · rw [specialises.assignment_eq_var id inParam] at inAssigned
      simp [primitives] at inAssigned

/-- A rebuilt type mentions what its source and the bound types mention. -/
theorem Rebuilds.invalidFree {bindable : List TypeId} {bindings : Bindings}
    {source result : TypeId} {binders : List TypeId} {body : Tree}
    (rebuilds : Rebuilds store last bindable bindings source result binders body)
    (values : bindings.Values fun type => (store.tree type).InvalidFree)
    (sourceFree : (store.tree source).InvalidFree) :
    body.InvalidFree := by
  have preserved : ∀ tree : Tree, tree.InvalidFree →
      (tree.replace (bindings.assignment store)).InvalidFree := by
    intro tree free occurs
    rcases mem_primitives_replace.1 occurs with own | ⟨id, _, inAssigned⟩
    · exact free own
    · cases found : bindings.find? id with
      | none =>
        rw [Bindings.assignment_of_unbound found] at inAssigned
        simp [primitives] at inAssigned
      | some type =>
        rw [Bindings.assignment_of_find? found] at inAssigned
        exact values found inAssigned
  obtain ⟨times, bodyEq⟩ := rebuilds.iterated
  rw [bodyEq]
  exact Function.Iterate.rec Tree.InvalidFree sourceFree preserved times

/-- Freshening leaves the primitive types of a type alone. -/
theorem Freshens.invalidFree {binders fresh : List TypeId} {type renamed : TypeId}
    (freshens : Freshens store last binders type fresh renamed)
    (free : (store.tree type).InvalidFree) :
    (last.tree renamed).InvalidFree := by
  unfold InvalidFree
  rwa [freshens.tree_eq, mem_primitives_rename]

/-- Types without the invalid type make types without it. -/
theorem invalidFree_inherited : Inherited Tree.InvalidFree where
  child free _ mem := mt (mem_primitives_of_mem_children mem) free
  list free := free
  element free := free
  image {_ _ _ parameter codomain _ _ _ _ _ _ _} policy wf specialises fnFree
      argumentFree := by
    unfold InvalidFree
    rw [primitives_quantifiedOver]
    intro occurs
    rcases specialises.mem_primitives_image wf occurs with inCodomain | inArg
    · apply fnFree
      rw [primitives, primitives]
      exact mem_append_right _ inCodomain
    · exact argumentFree.2 inArg
  common {store first mid _ left right _ _ _ _ _ _ _ _} wf strips unifies rebuilds
      leftFree rightFree := by
    have bodyFree : ∀ id, store.Has InvalidFree id →
        (store.tree (store.body id)).InvalidFree := by
      intro id free
      unfold InvalidFree
      rw [wf.tree_body, primitives_body]
      exact free.2
    have leftBodyFree := strips.left.invalidFree (bodyFree left leftFree)
    rw [← strips.right.grown.tree_eq strips.left.wellFormed strips.left.inside] at leftBodyFree
    have rightBodyFree := bodyFree right rightFree
    rw [← strips.left.grown.tree_eq wf (wf.body_inside rightFree.1)] at rightBodyFree
    unfold InvalidFree
    rw [primitives_quantifiedOver]
    refine rebuilds.invalidFree (unifies.preserves ?_ ?_ fun _ _ none => by cases none) leftBodyFree
    · intro id part free _ mem
      exact mt (mem_primitives_of_mem_children (strips.right.wellFormed.tree_mem_children mem)) free
    · intro pair mem
      rw [mem_singleton.1 mem]
      exact ⟨leftBodyFree, strips.right.invalidFree rightBodyFree⟩

end Store
end PipeCheck
