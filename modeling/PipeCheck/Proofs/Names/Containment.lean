import PipeCheck.Proofs.Names.Scopes

/-!
# Containment of scopes

However scopes are opened and left, they form a tree below the global scope, and lying
inside each other is the order of that tree.  The main statement is
`ScopeTree.isTreeOrder_of_reachable`.
-/

namespace PipeCheck

open List

namespace ScopeTree

variable {tree : ScopeTree} {id inner outer further : ScopeId}

/-- The trees that opening and leaving scopes and defining names lead to. -/
inductive Reachable : ScopeTree → Prop
  | new : Reachable new
  | push {tree : ScopeTree} : Reachable tree → Reachable tree.push
  | pop {tree : ScopeTree} : Reachable tree → Reachable tree.pop
  | define {tree : ScopeTree} (name : String) (symbol : SymbolId) :
      Reachable tree → Reachable (tree.define name symbol)

/-- The global scope is the only one without parent. -/
def Rooted (tree : ScopeTree) : Prop :=
  ∀ ⦃id scope⦄, tree.get? id = some scope → (scope.parent = none ↔ id = global)

theorem WellFormed.rooted_push (wf : tree.WellFormed) (rooted : tree.Rooted) :
    tree.push.Rooted := by
  intro id scope found
  rcases get?_push_cases found with old | ⟨rfl, rfl⟩
  · exact rooted old
  · exact iff_of_false nofun (Nat.ne_zero_of_lt wf.current_lt)

theorem Rooted.define (rooted : tree.Rooted) (name : String) (symbol : SymbolId) :
    (tree.define name symbol).Rooted := by
  intro id scope found
  rw [get?_define] at found
  obtain ⟨old, oldFound, rfl⟩ := Option.map_eq_some_iff.1 found
  rw [← rooted oldFound]
  split <;> rfl

theorem Reachable.wellFormed_and_rooted (reachable : tree.Reachable) :
    tree.WellFormed ∧ tree.Rooted := by
  induction reachable with
  | new =>
    refine ⟨wellFormed_new, ?_⟩
    intro id scope found
    obtain ⟨inside, rfl⟩ := Array.getElem?_eq_some_iff.1 found
    obtain rfl := Nat.lt_one_iff.1 inside
    exact iff_of_true rfl rfl
  | push _ ih => exact ⟨ih.1.push, ih.1.rooted_push ih.2⟩
  | pop _ ih => exact ⟨ih.1.pop, fun _ _ found => ih.2 (get?_pop ▸ found)⟩
  | define name symbol _ ih => exact ⟨ih.1.define name symbol, ih.2.define name symbol⟩

theorem WellFormed.getLast?_chain (wf : tree.WellFormed) (rooted : tree.Rooted)
    (inside : id < tree.scopes.size) :
    (tree.chain id).getLast? = tree.get? global := by
  induction id using Nat.strongRecOn with
  | ind id ih =>
    obtain ⟨scope, found⟩ := get?_eq_some_of_lt inside
    rw [wf.chain_eq found]
    cases parentEq : scope.parent with
    | none =>
      rw [← (rooted found).1 parentEq, found]
      rfl
    | some parent =>
      have below := wf.parent_lt found parentEq
      have ends := ih parent below (Nat.lt_trans below inside)
      obtain ⟨first, firstFound⟩ : ∃ first, tree.get? global = some first :=
        get?_eq_some_of_lt (Nat.zero_lt_of_lt inside)
      rw [Option.elim_some, getLast?_cons, ends, firstFound]
      rfl

theorem Within.inside (within : tree.Within inner outer) :
    inner < tree.scopes.size ∧ outer < tree.scopes.size := by
  induction within with
  | self found => exact ⟨lt_size_of_get? found, lt_size_of_get? found⟩
  | parent found _ _ ih => exact ⟨lt_size_of_get? found, ih.2⟩

theorem Within.trans (within : tree.Within inner outer) (next : tree.Within outer further) :
    tree.Within inner further := by
  induction within with
  | self _ => exact next
  | parent found parentEq _ ih => exact .parent found parentEq (ih next)

/-- A scope has one parent, so of two scopes around it one lies in the other. -/
theorem Within.comparable (within : tree.Within inner outer) (other : tree.Within inner further) :
    tree.Within outer further ∨ tree.Within further outer := by
  induction within with
  | self _ => exact .inl other
  | parent found parentEq within ih =>
    cases other with
    | self _ => exact .inr (.parent found parentEq within)
    | parent otherFound otherEq next =>
      obtain rfl := Option.some.inj (found.symm.trans otherFound)
      obtain rfl := Option.some.inj (parentEq.symm.trans otherEq)
      exact ih next

/-- Scopes form a tree, on whose scopes being inside is an order with the global scope as
its greatest element. -/
structure IsTreeOrder (tree : ScopeTree) : Prop extends tree.WellFormed where
  /-- The global scope is the root. -/
  rooted : tree.Rooted
  /-- The walk outwards ends there. -/
  walk_ends : ∀ id < tree.scopes.size, (tree.chain id).getLast? = tree.get? global
  /-- A scope is inside itself. -/
  refl : ∀ id < tree.scopes.size, tree.isInside id id
  /-- Being inside passes on. -/
  trans : ∀ inner middle outer, tree.isInside inner middle → tree.isInside middle outer →
    tree.isInside inner outer
  /-- Two scopes are not inside each other. -/
  antisymm : ∀ first second, tree.isInside first second → tree.isInside second first →
    first = second
  /-- All scopes are inside the global one. -/
  greatest : ∀ id < tree.scopes.size, tree.isInside id global
  /-- Scopes around a scope are inside one another. -/
  comparable : ∀ inner first second, tree.isInside inner first → tree.isInside inner second →
    tree.isInside first second ∨ tree.isInside second first
  /-- A scope that does not exist is inside none. -/
  missing : ∀ inner outer, ¬(inner < tree.scopes.size ∧ outer < tree.scopes.size) →
    tree.isInside inner outer = false

/-- At all times scopes form a tree, and being inside is its order. -/
theorem isTreeOrder_of_reachable (reachable : tree.Reachable) : tree.IsTreeOrder := by
  obtain ⟨wf, rooted⟩ := reachable.wellFormed_and_rooted
  have ends : ∀ id < tree.scopes.size, (tree.chain id).getLast? = tree.get? global :=
    fun _ => wf.getLast?_chain rooted
  refine ⟨wf, rooted, ends, ?_, ?_, ?_, ?_, ?_, ?_⟩
  all_goals simp only [Bool.eq_false_iff, Ne, wf.isInside_iff]
  · intro id inside
    obtain ⟨scope, found⟩ := get?_eq_some_of_lt inside
    exact .self found
  · exact fun _ _ _ => Within.trans
  · exact fun _ _ within back => Nat.le_antisymm (wf.le_of_within back) (wf.le_of_within within)
  · intro id inside
    obtain ⟨first, found⟩ : ∃ first, tree.get? global = some first :=
      get?_eq_some_of_lt (Nat.zero_lt_of_lt inside)
    have mem := mem_of_getLast? ((ends id inside).trans found)
    exact wf.id_eq found ▸ (wf.within_of_mem_chain mem).1
  · exact fun _ _ _ => Within.comparable
  · exact fun _ _ => mt Within.inside

/-- A scope in a scope, both left, and one beside them. -/
def siblings : ScopeTree :=
  (new.push.push.define "x" 0).pop.pop.push

theorem isTreeOrder_siblings :
    siblings.Reachable ∧ siblings.IsTreeOrder ∧ siblings.isInside 2 1 ∧ ¬siblings.isInside 3 1 := by
  have reachable : siblings.Reachable := .push (.pop (.pop (.define _ _ (.push (.push .new)))))
  exact ⟨reachable, isTreeOrder_of_reachable reachable, by decide, by decide⟩

end ScopeTree
end PipeCheck
