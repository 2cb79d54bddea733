import PipeCheck.Proofs.Store.WellFormed
import PipeCheck.Types.Equality

/-!
# Comparing the components of two types

Sameness, matching and unification all go down two types at once, as long as
their shapes differ in the components only.  `Shape.pairs` lists the components
to be compared.  Two types are the same exactly when their trees are equal.
-/

namespace PipeCheck

open List Shape

namespace Shape

variable {left right : Shape} {paired : List (TypeId × TypeId)}

/-- The components at the same places of two shapes that differ in their
components only.  Variables, primitive types and quantifiers have none. -/
def pairs : Shape → Shape → Option (List (TypeId × TypeId))
  | .function leftDomain leftCodomain, .function rightDomain rightCodomain =>
    some [(leftDomain, rightDomain), (leftCodomain, rightCodomain)]
  | .list leftElement, .list rightElement => some [(leftElement, rightElement)]
  | .tuple leftComponents, .tuple rightComponents =>
    if leftComponents.length = rightComponents.length then
      some (leftComponents.zip rightComponents)
    else
      none
  | _, _ => none

/-- Paired components are components. -/
theorem mem_components_of_mem_pairs (pairsEq : left.pairs right = some paired)
    {pair : TypeId × TypeId} (mem : pair ∈ paired) :
    pair.1 ∈ left.components ∧ pair.2 ∈ right.components := by
  unfold pairs at pairsEq
  split at pairsEq
  · cases pairsEq
    simp only [mem_cons, not_mem_nil, or_false] at mem
    rcases mem with rfl | rfl <;> simp [components]
  · cases pairsEq
    simp only [mem_singleton] at mem
    subst mem
    simp [components]
  · split at pairsEq
    · cases pairsEq
      exact of_mem_zip mem
    · cases pairsEq
  · cases pairsEq

theorem pairs_eq_none (notFn : ∀ leftDomain leftCodomain rightDomain rightCodomain,
      left = .function leftDomain leftCodomain →
        right = .function rightDomain rightCodomain → False) (notList : ∀ leftElement rightElement,
      left = .list leftElement → right = .list rightElement → False)
    (notTuple : ∀ leftParts rightParts,
      left = .tuple leftParts → right = .tuple rightParts → False) :
    left.pairs right = none := by
  unfold pairs
  split
  · exact absurd rfl (notFn _ _ _ _ rfl)
  · exact absurd rfl (notList _ _ rfl)
  · exact absurd rfl (notTuple _ _ rfl)
  · rfl

/-- All components of the left shape are paired. -/
theorem map_fst_pairs (pairsEq : left.pairs right = some paired) :
    paired.map Prod.fst = left.components := by
  unfold pairs at pairsEq
  split at pairsEq
  · cases pairsEq
    rfl
  · cases pairsEq
    rfl
  · split at pairsEq
    · next sameLength =>
        cases pairsEq
        exact map_fst_zip (Nat.le_of_eq sameLength)
    · cases pairsEq
  · cases pairsEq

theorem kind_ne_quantified_of_pairs (pairsEq : left.pairs right = some paired) :
    left.kind ≠ .quantified ∧ right.kind ≠ .quantified := by
  unfold pairs at pairsEq
  split at pairsEq
  · simp [kind]
  · simp [kind]
  · simp [kind]
  · cases pairsEq

end Shape

namespace Store

variable {left right : TypeId} {paired : List (TypeId × TypeId)} {store : Store}

/-- Lists of equal length are equal after mapping exactly when they agree at
every pair of places. -/
theorem map_eq_map_iff_zip {left right : List TypeId} (sameLength : left.length = right.length)
    (first second : TypeId → Tree) :
    left.map first = right.map second ↔
      ∀ pair ∈ left.zip right, first pair.1 = second pair.2 := by
  induction left generalizing right with
  | nil =>
    cases right with
    | nil => simp
    | cons head tail => simp at sameLength
  | cons leftHead leftTail ih =>
    cases right with
    | nil => simp at sameLength
    | cons rightHead rightTail =>
      have tailLength : leftTail.length = rightTail.length := by simpa using sameLength
      simp [ih tailLength]

section

variable (wf : store.WellFormed)
  (pairsEq : (store.shape left).pairs (store.shape right) = some paired)

include wf pairsEq

/-- Two types whose shapes can be paired have equal instances when all pairs
have. -/
theorem WellFormed.replace_eq_iff_pairs (leftAssign rightAssign : TypeId → Tree) :
    (store.tree left).replace leftAssign = (store.tree right).replace rightAssign ↔
      ∀ pair ∈ paired,
        (store.tree pair.1).replace leftAssign =
          (store.tree pair.2).replace rightAssign := by
  unfold pairs at pairsEq
  split at pairsEq
  · next leftEq rightEq =>
      cases pairsEq
      rw [wf.tree_of_function leftEq, wf.tree_of_function rightEq]
      simp [Tree.replace]
  · next leftEq rightEq =>
      cases pairsEq
      rw [wf.tree_of_list leftEq, wf.tree_of_list rightEq]
      simp [Tree.replace]
  · next leftEq rightEq =>
      split at pairsEq
      · next sameLength =>
          cases pairsEq
          rw [wf.tree_of_tuple leftEq, wf.tree_of_tuple rightEq]
          simp only [Tree.replace, Tree.replaceAll_eq_map, map_map, Tree.tuple.injEq]
          exact map_eq_map_iff_zip sameLength _ _
      · cases pairsEq
  · cases pairsEq

/-- What occurs in the left type occurs on the left of a pair. -/
theorem WellFormed.mem_occurrences_iff_pairs {leaf : TypeId} :
    leaf ∈ (store.tree left).occurrences ↔
      ∃ pair ∈ paired, leaf ∈ (store.tree pair.1).occurrences := by
  constructor
  · intro occurs
    rcases wf.mem_occurrences_cases occurs with
      ⟨rfl, number, isVar⟩ | ⟨part, mem, inPart⟩
    · rw [isVar] at pairsEq
      cases pairsEq
    · rw [← map_fst_pairs pairsEq, mem_map] at mem
      obtain ⟨pair, inPaired, rfl⟩ := mem
      exact ⟨pair, inPaired, inPart⟩
  · rintro ⟨pair, mem, occurs⟩
    have part := (mem_components_of_mem_pairs pairsEq mem).1
    refine Tree.mem_occurrences_of_mem_children (wf.tree_mem_children part) ?_ occurs
    rw [store.kind_tree]
    exact (kind_ne_quantified_of_pairs pairsEq).1

theorem WellFormed.exists_places_of_pairs {place : Tree.Place}
    (mem : place ∈ (store.tree left).places) :
    ∃ pair ∈ paired, place ∈ (store.tree pair.1).places := by
  have notQuantified := (kind_ne_quantified_of_pairs pairsEq).1
  rcases Tree.mem_placesUnder_cases mem with ⟨isVar, _⟩ | ⟨child, isChild, inChild⟩
  · rw [store.kind_tree] at isVar
    obtain ⟨number, shapeEq⟩ := exists_shape_eq_var isVar
    rw [shapeEq] at pairsEq
    cases pairsEq
  · rw [wf.children_tree, ← map_fst_pairs pairsEq, map_map, mem_map] at isChild
    obtain ⟨pair, inPaired, rfl⟩ := isChild
    refine ⟨pair, inPaired, ?_⟩
    rwa [Tree.scopesBelow_of_kind (by rwa [store.kind_tree])] at inChild

end

/-- An instance has the kind of its type when variables stand for
themselves. -/
theorem kind_tree_replace {id : TypeId} {assign : TypeId → Tree}
    (fixed : store.kind id = .var → (store.tree id).replace assign = store.tree id) :
    ((store.tree id).replace assign).kind = store.kind id := by
  by_cases isVar : store.kind id = .var
  · rw [fixed isVar, store.kind_tree]
  · rw [← store.kind_tree] at isVar ⊢
    exact Tree.kind_replace isVar assign

section

variable (wf : store.WellFormed)

include wf

/-- Types whose shapes cannot be paired have equal instances only when they are
equal, provided that variables stand for themselves and the left type is not
quantified. -/
theorem WellFormed.tree_eq_of_unpaired
    (unpaired : (store.shape left).pairs (store.shape right) = none)
    (notQuantified : store.kind left ≠ .quantified) {leftAssign rightAssign : TypeId → Tree}
    (leftFixed : store.kind left = .var → (store.tree left).replace leftAssign = store.tree left)
    (rightFixed : store.kind right = .var →
      (store.tree right).replace rightAssign = store.tree right)
    (equal : (store.tree left).replace leftAssign = (store.tree right).replace rightAssign) :
    store.tree left = store.tree right := by
  have kinds : store.kind left = store.kind right := by
    rw [← kind_tree_replace leftFixed, equal, kind_tree_replace rightFixed]
  unfold kind at kinds notQuantified leftFixed rightFixed
  cases leftEq : store.shape left with
  | primitive which =>
    rw [leftEq] at kinds
    cases rightEq : store.shape right <;> rw [rightEq] at kinds <;> cases kinds
    rw [tree_of_primitive leftEq, tree_of_primitive rightEq]
  | function domain codomain =>
    rw [leftEq] at kinds unpaired
    cases rightEq : store.shape right <;> rw [rightEq] at kinds unpaired <;> cases kinds
    cases unpaired
  | list element =>
    rw [leftEq] at kinds unpaired
    cases rightEq : store.shape right <;> rw [rightEq] at kinds unpaired <;> cases kinds
    cases unpaired
  | tuple leftParts =>
    rw [leftEq] at kinds unpaired
    cases rightEq : store.shape right <;> rw [rightEq] at kinds unpaired <;> cases kinds
    next rightParts =>
      rw [wf.tree_of_tuple leftEq, wf.tree_of_tuple rightEq] at equal
      simp only [Tree.replace, Tree.replaceAll_eq_map, map_map, Tree.tuple.injEq] at equal
      have sameLength := congrArg List.length equal
      simp only [length_map] at sameLength
      simp [pairs, sameLength] at unpaired
  | var number =>
    rw [leftEq] at kinds leftFixed
    rw [← kinds] at rightFixed
    rwa [leftFixed rfl, rightFixed rfl] at equal
  | quantified binders body => exact absurd (by rw [leftEq]; rfl) notQuantified

/-- A type is the same as another, up to a height above its index, exactly when
their trees are equal. -/
theorem WellFormed.sameWithin_iff {height : Nat} (enough : left < height) :
    store.sameWithin height left right ↔ store.tree left = store.tree right := by
  induction height generalizing left right with
  | zero => exact absurd enough (Nat.not_lt_zero left)
  | succ height ih =>
    have lower : ∀ {part}, part < left → part < height :=
      fun below => Nat.lt_of_lt_of_le below (Nat.le_of_lt_succ enough)
    rw [sameWithin, Bool.or_eq_true, decide_eq_true_eq]
    by_cases identical : left = right
    · simp [identical]
    simp only [identical, false_or]
    split
    · next leftDomain leftCodomain rightDomain rightCodomain leftEq rightEq =>
        rw [wf.tree_of_function leftEq, wf.tree_of_function rightEq,
          Bool.and_eq_true, ih (lower (wf.domain_lt leftEq)),
          ih (lower (wf.codomain_lt leftEq)), Tree.function.injEq]
    · next leftElement rightElement leftEq rightEq =>
        rw [wf.tree_of_list leftEq, wf.tree_of_list rightEq,
          ih (lower (wf.element_lt leftEq)), Tree.list.injEq]
    · next leftParts rightParts leftEq rightEq =>
        rw [wf.tree_of_tuple leftEq, wf.tree_of_tuple rightEq,
          Bool.and_eq_true, decide_eq_true_eq, all_eq_true, Tree.tuple.injEq]
        constructor
        · rintro ⟨sameLength, sameParts⟩
          rw [map_eq_map_iff_zip sameLength]
          intro pair mem
          exact (ih (lower (wf.part_lt leftEq (of_mem_zip mem).1))).1 (sameParts pair mem)
        · intro equal
          have sameLength : leftParts.length = rightParts.length := by
            simpa using congrArg List.length equal
          rw [map_eq_map_iff_zip sameLength] at equal
          refine ⟨sameLength, ?_⟩
          intro pair mem
          exact (ih (lower (wf.part_lt leftEq (of_mem_zip mem).1))).2 (equal pair mem)
    · next leftBinders leftBody rightBinders rightBody leftEq rightEq =>
        rw [wf.tree_of_quantified leftEq, wf.tree_of_quantified rightEq,
          Bool.and_eq_true, decide_eq_true_eq,
          ih (lower (wf.body_lt leftEq)), Tree.quantified.injEq]
    · next leftWhich rightWhich leftEq rightEq =>
        rw [tree_of_primitive leftEq, tree_of_primitive rightEq, decide_eq_true_eq,
          Tree.primitive.injEq]
    · next notFn notList notTuple notQuantified notPrimitive =>
        simp only [Bool.false_eq_true, false_iff]
        intro equal
        have kinds := congrArg Tree.kind equal
        rw [store.kind_tree, store.kind_tree] at kinds
        unfold kind at kinds
        cases leftEq : store.shape left <;> rw [leftEq] at kinds <;>
          cases rightEq : store.shape right <;> rw [rightEq] at kinds <;> cases kinds
        · exact notPrimitive _ _ leftEq rightEq
        · exact notFn _ _ _ _ leftEq rightEq
        · exact notList _ _ leftEq rightEq
        · exact notTuple _ _ leftEq rightEq
        · rw [tree_of_var leftEq, tree_of_var rightEq] at equal
          exact identical (Tree.var.inj equal)
        · exact notQuantified _ _ _ _ leftEq rightEq

/-- Two types are the same exactly when their trees are equal. -/
theorem WellFormed.same_iff :
    store.same left right ↔ store.tree left = store.tree right :=
  wf.sameWithin_iff (Nat.lt_succ_self left)

/-- Tuples of different lengths are not the same. -/
theorem WellFormed.not_same_of_length_ne
    {leftParts rightParts : List TypeId} (leftEq : store.shape left = .tuple leftParts)
    (rightEq : store.shape right = .tuple rightParts)
    (different : leftParts.length ≠ rightParts.length) :
    ¬store.same left right := by
  rw [wf.same_iff, wf.tree_of_tuple leftEq, wf.tree_of_tuple rightEq, Tree.tuple.injEq]
  intro equal
  exact different (by simpa using congrArg List.length equal)

end

end Store
end PipeCheck
