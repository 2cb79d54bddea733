import PipeCheck.Proofs.Store.FreeVars
import PipeCheck.Proofs.Store.Nameless
import PipeCheck.Proofs.Substitution.Trees

/-!
# What substitution replaces and what it shares

Substitution puts types for the free variables of a type by name.  Where no
quantifier inside the type lists a variable of a type that is put in, nothing is
captured: every free occurrence of a bound variable becomes the type bound to it,
and the free variables of the result are those of the types put in and those
that were left alone.  Whether anything is captured or not, the type itself is
returned, and nothing is created, exactly when all its free variables stay.
-/

namespace PipeCheck

open List

namespace Tree

variable {tree : Tree} {id : TypeId} {assign : TypeId → Tree}

mutual

/-- The variables that the quantifiers inside a tree list. -/
def quantifiedVars : Tree → List TypeId
  | .primitive _ => []
  | .function domain codomain => domain.quantifiedVars ++ codomain.quantifiedVars
  | .list element => element.quantifiedVars
  | .tuple components => quantifiedVarsAll components
  | .var _ => []
  | .quantified binders body => binders ++ body.quantifiedVars

/-- The variables that the quantifiers inside several trees list. -/
def quantifiedVarsAll : List Tree → List TypeId
  | [] => []
  | tree :: rest => tree.quantifiedVars ++ quantifiedVarsAll rest

end

@[simp] theorem quantifiedVarsAll_eq_flatMap (trees : List Tree) :
    quantifiedVarsAll trees = trees.flatMap quantifiedVars := by
  induction trees with
  | nil => rfl
  | cons tree rest ih =>
    simp [quantifiedVarsAll, ih]

theorem quantifiedVars_eq (tree : Tree) :
    tree.quantifiedVars = tree.binders ++ tree.children.flatMap quantifiedVars := by
  cases tree <;> simp [quantifiedVars, binders, children]

/-- The quantifiers above a place stand inside the tree or around it. -/
theorem mem_quantifiedVars_of_mem_scopes {scopes : List (List TypeId)} {place : Place}
    (mem : place ∈ tree.placesUnder scopes) (listed : id ∈ place.scopes.flatten) :
    id ∈ tree.quantifiedVars ∨ id ∈ scopes.flatten := by
  induction tree generalizing scopes with
  | primitive which => simp [placesUnder] at mem
  | function domain codomain domainIH codomainIH =>
    rw [quantifiedVars, mem_append]
    rcases mem_append.1 mem with inDomain | inCodomain
    · exact (domainIH inDomain).imp_left .inl
    · exact (codomainIH inCodomain).imp_left .inr
  | list element elementIH => exact elementIH mem
  | tuple parts partIH =>
    rw [placesUnder, placesUnderAll_eq_flatMap, mem_flatMap] at mem
    obtain ⟨part, inside, inPart⟩ := mem
    rw [quantifiedVars, quantifiedVarsAll_eq_flatMap, mem_flatMap]
    exact (partIH part inside inPart).imp_left fun inside' => ⟨part, inside, inside'⟩
  | var leaf =>
    rw [mem_singleton.1 mem] at listed
    exact .inr listed
  | quantified binders body bodyIH =>
    rw [quantifiedVars, mem_append]
    rcases bodyIH mem with inBody | above
    · exact .inl (.inr inBody)
    · rw [flatten_cons, mem_append] at above
      exact above.imp_left .inl

/-- Where no quantifier lists a variable that is put in for another one, nothing
is captured. -/
theorem not_captures_of_quantifiedVars (apart : ∀ id ∈ tree.occurrences, assign id ≠ .var id →
      ∀ leaf ∈ (assign id).occurrences, leaf ∉ tree.quantifiedVars) (leaf : TypeId) :
    ¬tree.Captures assign leaf := by
  rintro ⟨place, mem, isFree, occurs, listed⟩
  by_cases stays : assign place.id = .var place.id
  · rw [stays, occurrences, mem_singleton] at occurs
    exact isFree (occurs ▸ listed)
  · refine apart place.id (mem_occurrences_of_mem_places mem isFree) stays leaf occurs ?_
    exact (mem_quantifiedVars_of_mem_scopes mem listed).resolve_right (by simp)

/-- A variable that is put in stays free, unless a quantifier inside lists it. -/
theorem mem_occurrences_replace_of_mem {source : TypeId} (occurs : source ∈ tree.occurrences)
    (present : id ∈ (assign source).occurrences)
    (unlisted : id = source ∨ id ∉ tree.quantifiedVars) :
    id ∈ (tree.replace assign).occurrences := by
  induction tree generalizing assign with
  | primitive which => simp [occurrences] at occurs
  | function domain codomain domainIH codomainIH =>
    simp only [quantifiedVars, mem_append, not_or] at unlisted
    simp only [replace, occurrences, mem_append] at occurs ⊢
    rcases occurs with inDomain | inCodomain
    · exact .inl (domainIH inDomain present (unlisted.imp_right And.left))
    · exact .inr (codomainIH inCodomain present (unlisted.imp_right And.right))
  | list element elementIH => exact elementIH occurs present unlisted
  | tuple parts partIH =>
    simp only [quantifiedVars, quantifiedVarsAll_eq_flatMap, mem_flatMap, not_exists,
      not_and] at unlisted
    simp only [replace, replaceAll_eq_map, occurrences, occurrencesAll_eq_flatMap,
      mem_flatMap, mem_map] at occurs ⊢
    obtain ⟨part, mem, inPart⟩ := occurs
    exact ⟨part.replace assign, ⟨part, mem, rfl⟩,
      partIH part mem inPart present (unlisted.imp_right fun apart => apart part mem)⟩
  | var leaf =>
    rw [occurrences, mem_singleton] at occurs
    exact occurs ▸ present
  | quantified binders body bodyIH =>
    simp only [quantifiedVars, mem_append, not_or] at unlisted
    simp only [replace, occurrences, mem_filter, Bool.not_eq_true', contains_eq_mem,
      decide_eq_false_iff_not] at occurs ⊢
    refine ⟨bodyIH occurs.1 ?_ (unlisted.imp_right And.right), ?_⟩
    · rwa [shadow_of_notMem occurs.2]
    · rcases unlisted with rfl | apart
      · exact occurs.2
      · exact apart.1

/-- The quantifiers inside a replaced tree come from the tree or from a
replacement. -/
theorem mem_quantifiedVars_of_replace (listed : id ∈ (tree.replace assign).quantifiedVars) :
    id ∈ tree.quantifiedVars ∨
      ∃ source ∈ tree.occurrences, id ∈ (assign source).quantifiedVars := by
  induction tree generalizing assign with
  | primitive which => exact .inl listed
  | function domain codomain domainIH codomainIH =>
    simp only [replace, quantifiedVars, occurrences, mem_append] at listed ⊢
    rcases listed with inDomain | inCodomain
    · refine (domainIH inDomain).imp .inl ?_
      rintro ⟨source, occurs, present⟩
      exact ⟨source, .inl occurs, present⟩
    · refine (codomainIH inCodomain).imp .inr ?_
      rintro ⟨source, occurs, present⟩
      exact ⟨source, .inr occurs, present⟩
  | list element elementIH => exact elementIH listed
  | tuple parts partIH =>
    simp only [replace, replaceAll_eq_map, quantifiedVars, quantifiedVarsAll_eq_flatMap,
      occurrences, occurrencesAll_eq_flatMap, mem_flatMap, mem_map] at listed ⊢
    obtain ⟨_, ⟨part, mem, rfl⟩, inPart⟩ := listed
    refine (partIH part mem inPart).imp (fun inside => ⟨part, mem, inside⟩) ?_
    rintro ⟨source, occurs, present⟩
    exact ⟨source, ⟨part, mem, occurs⟩, present⟩
  | var leaf => exact .inr ⟨leaf, by simp [occurrences], listed⟩
  | quantified binders body bodyIH =>
    simp only [replace, quantifiedVars, occurrences, mem_append, mem_filter,
      Bool.not_eq_true', contains_eq_mem, decide_eq_false_iff_not] at listed ⊢
    rcases listed with isBinder | inBody
    · exact .inl (.inl isBinder)
    · refine (bodyIH inBody).imp .inr ?_
      rintro ⟨source, occurs, present⟩
      by_cases isBinder : source ∈ binders
      · simp [shadow_of_mem isBinder, quantifiedVars] at present
      · rw [shadow_of_notMem isBinder] at present
        exact ⟨source, ⟨occurs, isBinder⟩, present⟩

end Tree

namespace Store

variable {store : Store}

theorem WellFormed.quantifiedVars_tree (wf : store.WellFormed) (id : TypeId) :
    (store.tree id).quantifiedVars = store.binders id ++
      (store.shape id).components.flatMap fun part =>
        (store.tree part).quantifiedVars := by
  rw [Tree.quantifiedVars_eq, wf.binders_tree, wf.children_tree, flatMap_map]

/-- The quantifiers inside a stored type list variables of the store. -/
theorem WellFormed.inside_of_mem_quantifiedVars (wf : store.WellFormed)
    {id leaf : TypeId} (listed : leaf ∈ (store.tree id).quantifiedVars) :
    leaf < store.size := by
  induction id using Nat.strongRecOn with
  | ind id ih =>
    rw [wf.quantifiedVars_tree, mem_append, mem_flatMap] at listed
    rcases listed with isBinder | ⟨part, mem, inPart⟩
    · obtain ⟨number, isVar⟩ := wf.var_of_mem_binders isBinder
      exact lt_size_of_shape isVar (by simp)
    · exact ih part (wf.component_lt mem) inPart

end Store

namespace Bindings

/-- No quantifier inside a type lists a variable that is free in a type put
in. -/
def Uncaught (bindings : Bindings) (store : Store) (id : TypeId) : Prop :=
  ∀ ⦃key value⦄, bindings.find? key = some value →
    ∀ leaf ∈ store.freeVars value, leaf ∉ (store.tree id).quantifiedVars

variable {bindings : Bindings} {store : Store} {id : TypeId}

theorem Uncaught.not_captures (uncaught : bindings.Uncaught store id)
    (wf : store.WellFormed) (leaf : TypeId) :
    ¬(store.tree id).Captures (bindings.assignment store) leaf := by
  apply Tree.not_captures_of_quantifiedVars
  intro key _ changes leaf occurs
  cases found : bindings.find? key with
  | none => exact absurd (assignment_of_unbound found store) changes
  | some value =>
    rw [assignment_of_find? found] at occurs
    exact uncaught found leaf (wf.mem_freeVars.2 occurs)

/-- The free variables after a replacement: those of the types put in and those
left alone. -/
theorem Uncaught.mem_occurrences_replace (uncaught : bindings.Uncaught store id)
    (wf : store.WellFormed) (leaf : TypeId) :
    leaf ∈ ((store.tree id).replace (bindings.assignment store)).occurrences ↔
      (∃ key ∈ store.freeVars id, ∃ value, bindings.find? key = some value ∧
        leaf ∈ store.freeVars value) ∨
      leaf ∈ store.freeVars id ∧ bindings.find? leaf = none := by
  simp only [wf.mem_freeVars]
  constructor
  · intro occurs
    obtain ⟨source, sourceOccurs, present⟩ := Tree.exists_mem_occurrences_of_replace occurs
    cases found : bindings.find? source with
    | none =>
      rw [assignment_of_unbound found, Tree.occurrences, mem_singleton] at present
      exact .inr (present ▸ ⟨sourceOccurs, found⟩)
    | some value =>
      rw [assignment_of_find? found] at present
      exact .inl ⟨source, sourceOccurs, value, found, present⟩
  · rintro (⟨key, keyOccurs, value, found, present⟩ | ⟨occurs, unbound⟩)
    · have unlisted := uncaught found leaf (wf.mem_freeVars.2 present)
      rw [← assignment_of_find? found store] at present
      exact Tree.mem_occurrences_replace_of_mem keyOccurs present (.inr unlisted)
    · refine Tree.mem_occurrences_replace_of_mem occurs ?_ (.inl rfl)
      simp [assignment_of_unbound unbound, Tree.occurrences]

end Bindings

namespace Alloc

open Store

/-- Substitution replaces every free occurrence of a bound variable, once, by the
type bound to it, which is the instance of the type where nothing is captured;
and it returns the type itself exactly when every free variable is unbound or
bound to itself. -/
theorem substitute_replaces_and_shares {store : Store} (wellFormed : store.WellFormed)
    {bindings : Bindings} (bindingsInside : bindings.Inside store) {id : TypeId}
    (inside : id < store.size) :
    Yields (substitute bindings id) store fun result later =>
      (bindings.Uncaught store id →
        later.tree result = (store.tree id).replace (bindings.assignment store) ∧
        Tree.IsInstance (bindings.assignment store) (store.tree id) (later.tree result) ∧
        ∀ leaf, leaf ∈ later.freeVars result ↔
          (∃ key ∈ store.freeVars id, ∃ value, bindings.find? key = some value ∧
            leaf ∈ store.freeVars value) ∨
          leaf ∈ store.freeVars id ∧ bindings.find? leaf = none) ∧
      (result = id ∧ later = store ↔ ∀ leaf ∈ store.freeVars id,
        bindings.find? leaf = none ∨ bindings.find? leaf = some leaf) ∧
      (result = id → later = store) := by
  refine (yields_substitute wellFormed bindingsInside inside).mono ?_
  intro result later done
  have fixedIff : ∀ leaf, (bindings.find? leaf).getD leaf = leaf ↔
      bindings.find? leaf = none ∨ bindings.find? leaf = some leaf := by
    intro leaf
    cases bindings.find? leaf <;> simp
  refine ⟨?_, ?_, done.unchanged⟩
  · intro uncaught
    refine ⟨done.tree_eq, ?_, ?_⟩
    · rw [done.tree_eq]
      exact Tree.isInstance_replace_iff.2 (uncaught.not_captures wellFormed)
    · intro leaf
      rw [done.wellFormed.mem_freeVars, done.tree_eq]
      exact uncaught.mem_occurrences_replace wellFormed leaf
  · simp only [wellFormed.mem_freeVars, ← fixedIff, ← done.same_iff]
    exact ⟨And.left, fun same => ⟨same, done.unchanged same⟩⟩

/-- The type `(forall 'b. 'b -> 'a, 'b, Int)`, and `['c]`. -/
def shadowedPair : Store where
  shapes := #[.var 0, .var 1, .function 1 0, .quantified [1] 2, .var 2, .list 4,
    .primitive .int, .tuple [3, 1, 6]]
  slots which := if which = .int then some 6 else none
  nextVar := 3

/-- With `['c]` for `'a` and `Int` for `'b`, the type becomes
`(forall 'b. 'b -> ['c], Int, Int)`; with `'a` for itself and `Int` for `'c` it
stays. -/
theorem substitute_shadowedPair :
    shadowedPair.WellFormed ∧ Bindings.Uncaught [(0, 5), (1, 6)] shadowedPair 7 ∧
      (∃ later, (substitute [(0, 5), (1, 6)] 7).run shadowedPair = (10, later) ∧
        later.tree 10 = .tuple [.quantified [1] (.function (.var 1) (.list (.var 4))),
          .primitive .int, .primitive .int] ∧ 4 ∈ later.freeVars 10) ∧
      (substitute [(0, 0), (4, 6)] 7).run shadowedPair = (7, shadowedPair) := by
  have values : ∀ {first second key value : TypeId},
      Bindings.find? [(0, first), (second, 6)] key = some value →
        value = first ∨ value = 6 := by
    intro first second key value found
    have member := Bindings.mem_of_find? found
    simp only [List.mem_cons, Prod.mk.injEq, List.not_mem_nil, or_false] at member
    exact member.imp And.right And.right
  have uncaught : Bindings.Uncaught [(0, 5), (1, 6)] shadowedPair 7 := by
    intro key value found
    rcases values found with rfl | rfl <;> decide
  have returned : ((substitute [(0, 5), (1, 6)] 7).run shadowedPair).1 = 10 := by decide
  have replaced : Yields (substitute [(0, 5), (1, 6)] 7) shadowedPair _ :=
    substitute_replaces_and_shares (by decide)
      (fun key value found => by rcases values found with rfl | rfl <;> decide) (by decide)
  have shared : Yields (substitute [(0, 0), (4, 6)] 7) shadowedPair _ :=
    substitute_replaces_and_shares (by decide)
      (fun key value found => by rcases values found with rfl | rfl <;> decide) (by decide)
  rw [Yields, returned] at replaced
  obtain ⟨treeEq, _, freeIff⟩ := replaced.1 uncaught
  refine ⟨by decide, uncaught, ⟨_, Prod.ext returned rfl, treeEq.trans (by decide), ?_⟩, ?_⟩
  · exact (freeIff 4).2 (.inl ⟨0, by decide, 5, rfl, by decide⟩)
  · have same := shared.2.1.2 (by decide)
    exact Prod.ext same.1 same.2

end Alloc
end PipeCheck
