import Mathlib.Data.List.Induction
import PipeCheck.Proofs.Store.WellFormed
import PipeCheck.Types.Free

/-!
# Free variables of stored types

The free variables of a stored type are those that occur free in its tree,
each listed at its first occurrence.  The main statement is
`Store.freeVars_inOrder`.
-/

namespace PipeCheck

open List

/-- Adds something at the end of a list that does not have it. -/
def addNew {Item : Type} [BEq Item] (found : List Item) (new : Item) : List Item :=
  if found.contains new then found else found ++ [new]

section AddNew

variable {Item : Type} [BEq Item] [LawfulBEq Item]

theorem mem_foldl_addNew {found items : List Item} {item : Item} :
    item ∈ items.foldl addNew found ↔ item ∈ found ∨ item ∈ items := by
  induction items generalizing found with
  | nil => simp
  | cons first rest ih =>
    rw [foldl_cons, ih]
    unfold addNew
    by_cases present : first ∈ found
    · simp only [contains_eq_mem, present, decide_true, ↓reduceIte, mem_cons]
      constructor
      · rintro (old | later)
        · exact .inl old
        · exact .inr (.inr later)
      · rintro (old | rfl | later)
        · exact .inl old
        · exact .inl present
        · exact .inr later
    · simp [present, or_assoc]

theorem nodup_foldl_addNew {found items : List Item} (nodup : found.Nodup) :
    (items.foldl addNew found).Nodup := by
  induction items generalizing found with
  | nil => exact nodup
  | cons first rest ih =>
    rw [foldl_cons]
    apply ih
    unfold addNew
    by_cases present : first ∈ found
    · simpa [present] using nodup
    · simp only [contains_eq_mem, present, decide_false, Bool.false_eq_true, ↓reduceIte]
      rw [nodup_append]
      refine ⟨nodup, by simp, ?_⟩
      intro old oldMem new newMem
      rw [mem_singleton.1 newMem]
      exact fun same => present (same ▸ oldMem)

/-- Items are kept in order of first occurrence. -/
theorem pairwise_foldl_addNew (items : List Item) :
    (items.foldl addNew []).Pairwise (items.idxOf · < items.idxOf ·) := by
  -- a further item at the end does not move the first occurrence of another
  induction items using List.reverseRecOn with
  | nil => exact .nil
  | append_singleton items last ih =>
    have inItems : ∀ {item}, item ∈ items.foldl addNew [] → item ∈ items := fun mem =>
      (mem_foldl_addNew.1 mem).resolve_left not_mem_nil
    have kept : (items.foldl addNew []).Pairwise
        ((items ++ [last]).idxOf · < (items ++ [last]).idxOf ·) := by
      refine ih.imp_of_mem ?_
      intro first second firstMem secondMem
      rw [idxOf_append_of_mem (inItems firstMem), idxOf_append_of_mem (inItems secondMem)]
      exact id
    rw [foldl_append, foldl_cons, foldl_nil, addNew]
    split
    · exact kept
    · next new =>
      refine pairwise_append.2 ⟨kept, pairwise_singleton _ _, ?_⟩
      intro first mem second isLast
      obtain rfl := mem_singleton.1 isLast
      have notIn : second ∉ items := by simpa [mem_foldl_addNew] using new
      rw [idxOf_append_of_mem (inItems mem), idxOf_append_of_notMem notIn]
      exact Nat.lt_add_right _ (idxOf_lt_length_of_mem (inItems mem))

end AddNew

/-- The variables at the free places of a tree, from left to right. -/
def Tree.freeLeaves (tree : Tree) : List TypeId :=
  (tree.places.filter (·.Free)).map Place.id

theorem Tree.freeLeaves_eq (tree : Tree) : tree.freeLeaves = tree.occurrences := by
  rw [freeLeaves, places, map_filter_placesUnder]
  simp

namespace Store

section Collecting

variable {store : Store}

section

variable (wf : store.WellFormed)

include wf

/-- Collecting goes through the free occurrences that no enclosing quantifier
hides, from left to right. -/
theorem WellFormed.collectFree_eq {height : Nat}
    {hidden found : List TypeId} {id : TypeId} (enough : id < height) :
    store.collectFree height hidden found id =
      ((store.tree id).occurrences.filter fun leaf => !hidden.contains leaf).foldl
        addNew found := by
  induction height generalizing hidden found id with
  | zero => exact absurd enough (Nat.not_lt_zero id)
  | succ height ih =>
    have lower : ∀ {part}, part < id → part < height :=
      fun below => Nat.lt_of_lt_of_le below (Nat.le_of_lt_succ enough)
    rw [collectFree]
    cases shapeEq : store.shape id with
    | primitive which =>
      rw [tree_of_primitive shapeEq]
      rfl
    | function domain codomain =>
      rw [wf.tree_of_function shapeEq, Tree.occurrences, filter_append, foldl_append]
      simp only
      rw [ih (lower (wf.domain_lt shapeEq)), ih (lower (wf.codomain_lt shapeEq))]
    | list element =>
      rw [wf.tree_of_list shapeEq, Tree.occurrences]
      exact ih (lower (wf.element_lt shapeEq))
    | tuple parts =>
      rw [wf.tree_of_tuple shapeEq, Tree.occurrences,
        Tree.occurrencesAll_eq_flatMap, flatMap_map, filter_flatMap, foldl_flatMap]
      apply foldl_ext
      intro found part mem
      exact ih (lower (wf.part_lt shapeEq mem))
    | var number =>
      rw [tree_of_var shapeEq]
      by_cases hides : id ∈ hidden
      · simp [Tree.occurrences, hides]
      · simp [Tree.occurrences, hides, addNew]
    | quantified binders body =>
      rw [wf.tree_of_quantified shapeEq, Tree.occurrences]
      simp only
      rw [ih (lower (wf.body_lt shapeEq)), filter_filter]
      congr 2
      funext leaf
      by_cases listed : leaf ∈ binders <;> simp [listed]

theorem WellFormed.freeVars_eq (id : TypeId) :
    store.freeVars id = (store.tree id).occurrences.foldl addNew [] := by
  rw [freeVars, wf.collectFree_eq (Nat.lt_succ_self id)]
  simp

/-- The free variables of a type are those that occur free in its tree. -/
theorem WellFormed.mem_freeVars {id leaf : TypeId} :
    leaf ∈ store.freeVars id ↔ leaf ∈ (store.tree id).occurrences := by
  rw [wf.freeVars_eq, mem_foldl_addNew]
  simp

theorem WellFormed.nodup_freeVars (id : TypeId) :
    (store.freeVars id).Nodup := by
  rw [wf.freeVars_eq]
  exact nodup_foldl_addNew nodup_nil

theorem WellFormed.freeVars_eq_nil_iff {id : TypeId} :
    store.freeVars id = [] ↔ (store.tree id).Closed := by
  rw [Tree.closed_iff_forall_notMem, eq_nil_iff_forall_not_mem]
  simp only [wf.mem_freeVars]

end

/-- The free variables of a type are those that stand at some place under no quantifier
that lists them, each once and in order of the first such place. -/
theorem freeVars_inOrder (wellFormed : store.WellFormed) (id : TypeId) :
    (∀ leaf, leaf ∈ store.freeVars id ↔
        ∃ place ∈ (store.tree id).places, place.Free ∧ place.id = leaf) ∧
      (store.freeVars id).Nodup ∧
      (store.freeVars id).Pairwise fun first second =>
        (store.tree id).freeLeaves.idxOf first < (store.tree id).freeLeaves.idxOf second := by
  refine ⟨fun leaf => ?_, wellFormed.nodup_freeVars id, ?_⟩
  · rw [wellFormed.mem_freeVars, Tree.places, Tree.exists_free_placesUnder_iff]
    simp
  · rw [wellFormed.freeVars_eq, Tree.freeLeaves_eq]
    exact pairwise_foldl_addNew _

/-- The type `('b, forall 'a. 'a -> 'b, 'a)`. -/
def boundOnce : Store where
  shapes := #[.var 0, .var 1, .function 0 1, .quantified [0] 2, .tuple [1, 3, 0]]
  slots _ := none
  nextVar := 2

theorem freeVars_inOrder_boundOnce :
    boundOnce.WellFormed ∧ boundOnce.freeVars 4 = [1, 0] ∧
      (boundOnce.freeVars 4).Pairwise fun first second =>
        (boundOnce.tree 4).freeLeaves.idxOf first < (boundOnce.tree 4).freeLeaves.idxOf second := by
  have wellFormed : boundOnce.WellFormed := by decide
  exact ⟨wellFormed, by decide, (freeVars_inOrder wellFormed 4).2.2⟩

end Collecting
end Store
end PipeCheck
