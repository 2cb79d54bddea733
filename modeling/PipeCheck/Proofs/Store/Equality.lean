import Mathlib.Data.List.Zip
import PipeCheck.Proofs.Typing.Monomorphic

/-!
# The two comparisons agree

`same` answers for all types whether their trees are equal.  Where `equal` has an
answer it is the same one.  With its operands exchanged `equal` gives the same answer
or meets the same two types the other way round, and next to a type without variables
and quantifiers it always has an answer.  The main statement is
`Store.equal_agrees_with_same`.
-/

namespace PipeCheck

open MalformedType

/-- The same complaint about two types that were compared in the other order. -/
def MalformedType.swapped : MalformedType → MalformedType
  | .variableEquality left right => .variableEquality right left
  | .quantifierEquality left right => .quantifierEquality right left
  | .notAFunction type => .notAFunction type

theorem Shape.pairs_swap (left right : Shape) :
    right.pairs left = (left.pairs right).map (List.map Prod.swap) := by
  cases left <;> cases right <;> try rfl
  next leftParts rightParts =>
    by_cases sameLength : leftParts.length = rightParts.length
    · simp [pairs, sameLength, List.zip_swap]
    · simp [pairs, sameLength, Ne.symm sameLength]

namespace Store

variable {store : Store} {left right : TypeId}

theorem refusal?_swap (store : Store) (left right : TypeId) :
    store.refusal? right left = (store.refusal? left right).map MalformedType.swapped := by
  unfold refusal?
  cases store.shape left <;> cases store.shape right <;> rfl

/-- Pairs are compared the other way round, one after the other. -/
theorem allM_swap {compare compareSwapped : TypeId × TypeId → Except MalformedType Bool}
    {paired : List (TypeId × TypeId)} (each : ∀ pair ∈ paired,
      compareSwapped pair.swap = (compare pair).mapError MalformedType.swapped) :
    (paired.map Prod.swap).allM compareSwapped =
      (paired.allM compare).mapError MalformedType.swapped := by
  induction paired with
  | nil => rfl
  | cons pair rest ih =>
    have others := ih (List.forall_mem_of_forall_mem_cons each)
    rw [List.map_cons, List.allM, List.allM, each pair List.mem_cons_self]
    cases compare pair with
    | error failure => rfl
    | ok same =>
      cases same with
      | false => rfl
      | true => exact others

/-- Each height only has to exceed the index on its own left. -/
theorem WellFormed.equalWithin_swap (wf : store.WellFormed) {height otherHeight : Nat}
    (enough : left < height) (otherEnough : right < otherHeight) :
    store.equalWithin otherHeight right left =
      (store.equalWithin height left right).mapError MalformedType.swapped := by
  induction height generalizing otherHeight left right with
  | zero => exact absurd enough (Nat.not_lt_zero left)
  | succ height ih =>
    obtain ⟨otherHeight, rfl⟩ := Nat.exists_eq_add_one.2 (Nat.zero_lt_of_lt otherEnough)
    rw [equalWithin_succ, equalWithin_succ, refusal?_swap, Shape.pairs_swap]
    by_cases identical : left = right
    · rw [if_pos identical, if_pos identical.symm]
      rfl
    rw [if_neg identical, if_neg (Ne.symm identical)]
    cases pairsEq : (store.shape left).pairs (store.shape right) with
    | none => cases store.refusal? left right <;> rfl
    | some paired =>
      refine allM_swap ?_
      intro pair mem
      obtain ⟨inLeft, inRight⟩ := Shape.mem_components_of_mem_pairs pairsEq mem
      exact ih (Nat.lt_of_lt_of_le (wf.component_lt inLeft) (Nat.le_of_lt_succ enough))
        (Nat.lt_of_lt_of_le (wf.component_lt inRight) (Nat.le_of_lt_succ otherEnough))

theorem WellFormed.equal_swap (wf : store.WellFormed) (left right : TypeId) :
    store.equal right left = (store.equal left right).mapError MalformedType.swapped :=
  wf.equalWithin_swap (Nat.lt_succ_self left) (Nat.lt_succ_self right)

/-- An answer is that of the comparison which always has one. -/
theorem WellFormed.eq_same_of_equal (wf : store.WellFormed) (leftInside : left < store.size)
    (rightInside : right < store.size) {answer : Bool}
    (answered : store.equal left right = .ok answer) :
    answer = store.same left right := by
  have compared := wf.compared_equal leftInside rightInside
  rw [answered] at compared
  rw [Bool.eq_iff_iff, wf.same_iff]
  exact compared.1

/-- A type without variables and quantifiers can be compared on either side. -/
theorem WellFormed.equal_isOk_of_monomorphic (wf : store.WellFormed)
    (leftInside : left < store.size) (rightInside : right < store.size)
    (monomorphic : (store.tree left).Monomorphic ∨ (store.tree right).Monomorphic) :
    (store.equal left right).isOk := by
  rcases monomorphic with leftMono | rightMono
  · rw [wf.equal_of_monomorphic leftInside rightInside leftMono]
    rfl
  · rw [wf.equal_swap right left, wf.equal_of_monomorphic rightInside leftInside rightMono]
    rfl

/-- `same` decides equality of trees.  `equal` answers as `same` does or not at all; with
the operands exchanged it gives the same answer, or the same kind of failure with the two
types exchanged; and it answers if one of the types has neither variables nor
quantifiers. -/
theorem equal_agrees_with_same (wellFormed : store.WellFormed) (leftInside : left < store.size)
    (rightInside : right < store.size) :
    (store.same left right ↔ store.tree left = store.tree right) ∧
      (∀ answer, store.equal left right = .ok answer → answer = store.same left right) ∧
      store.equal right left = (store.equal left right).mapError MalformedType.swapped ∧
      ((store.tree left).Monomorphic ∨ (store.tree right).Monomorphic →
        (store.equal left right).isOk) :=
  ⟨wellFormed.same_iff, fun _ => wellFormed.eq_same_of_equal leftInside rightInside,
    wellFormed.equal_swap left right, wellFormed.equal_isOk_of_monomorphic leftInside rightInside⟩

/-- The types `('a, forall 'b. 'b)` and `('a, forall 'c. ['c])`, which share their first
component, and `(Int, Int)`. -/
def sharedFirst : Store where
  shapes := #[.var 0, .var 1, .quantified [1] 1, .tuple [0, 2], .var 2, .list 4,
    .quantified [4] 5, .tuple [0, 6], .primitive .int, .tuple [8, 8]]
  slots which := if which = .int then some 8 else none
  nextVar := 3

/-- Of the first two tuples `equal` refuses the second components, in either order, though
the trees are different; next to the third one it has an answer. -/
theorem equal_agrees_with_same_sharedFirst :
    sharedFirst.WellFormed ∧ sharedFirst.tree 3 ≠ sharedFirst.tree 7 ∧
      sharedFirst.equal 3 7 = .error (.quantifierEquality "forall 'a. 'a" "forall 'a. ['a]") ∧
      sharedFirst.equal 7 3 = .error (.quantifierEquality "forall 'a. ['a]" "forall 'a. 'a") ∧
      sharedFirst.equal 3 9 = .ok false := by
  have wellFormed : sharedFirst.WellFormed := by decide
  have refused : sharedFirst.equal 3 7 =
      .error (.quantifierEquality "forall 'a. 'a" "forall 'a. ['a]") := by decide +kernel
  obtain ⟨sameIff, _, swapped, _⟩ :=
    @equal_agrees_with_same sharedFirst 3 7 wellFormed (by decide) (by decide)
  obtain ⟨_, answered, _, answers⟩ :=
    @equal_agrees_with_same sharedFirst 3 9 wellFormed (by decide) (by decide)
  refine ⟨wellFormed, ?_, refused, ?_, ?_⟩
  · rw [ne_eq, ← sameIff]
    decide
  · rw [swapped, refused]
    rfl
  · have isOk := answers (by decide)
    cases answer : sharedFirst.equal 3 9 with
    | error failure =>
      rw [answer] at isOk
      cases isOk
    | ok same =>
      rw [answered same answer]
      decide

end Store
end PipeCheck
