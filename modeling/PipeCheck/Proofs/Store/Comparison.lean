import PipeCheck.Proofs.Store.Sameness

/-!
# When two types can be compared

A comparison goes down two types from left to right.  It has an answer unless it
meets two different variables or two different quantified types, everything to
the left of them being equal; and the answer says whether the trees are equal.
-/

namespace PipeCheck
namespace Store

variable {paired : List (TypeId × TypeId)} {store : Store} {left right : TypeId}

/-- Why two types are not compared although their kinds agree. -/
def refusal? (store : Store) (left right : TypeId) : Option MalformedType :=
  match store.shape left, store.shape right with
  | .var _, .var _ => some (.variableEquality (store.render left) (store.render right))
  | .quantified _ _, .quantified _ _ =>
    some (.quantifierEquality (store.render left) (store.render right))
  | _, _ => none

/-- A comparison of two types comes to two that cannot be compared. -/
inductive Refuses (store : Store) : TypeId → TypeId → MalformedType → Prop
  | meets {left right : TypeId} {failure : MalformedType} :
      left ≠ right → store.refusal? left right = some failure →
      Refuses store left right failure
  | descends {left right : TypeId} {failure : MalformedType}
      {earlier later : List (TypeId × TypeId)} {pair : TypeId × TypeId} :
      left ≠ right →
      (store.shape left).pairs (store.shape right) = some (earlier ++ pair :: later) →
      (∀ before ∈ earlier, store.tree before.1 = store.tree before.2) →
      Refuses store pair.1 pair.2 failure →
      Refuses store left right failure

/-- One level of the comparison. -/
theorem equalWithin_succ (store : Store) (height : Nat) (left right : TypeId) :
    store.equalWithin (height + 1) left right =
      if left = right then .ok true
      else
        ((store.shape left).pairs (store.shape right)).elim
          ((store.refusal? left right).elim (.ok false) .error)
          fun paired => paired.allM fun pair => store.equalWithin height pair.1 pair.2 := by
  rw [equalWithin]
  unfold refusal?
  split
  · rfl
  split
  · next leftDomain leftCodomain rightDomain rightCodomain leftEq rightEq =>
      simp only [leftEq, rightEq, Shape.pairs, Option.elim, List.allM]
      cases store.equalWithin height leftDomain rightDomain with
      | error failure => rfl
      | ok same =>
        cases same with
        | false => rfl
        | true =>
          change store.equalWithin height leftCodomain rightCodomain = _
          cases store.equalWithin height leftCodomain rightCodomain with
          | error failure => rfl
          | ok same => cases same <;> rfl
  · next leftElement rightElement leftEq rightEq =>
      simp only [leftEq, rightEq, Shape.pairs, Option.elim, List.allM]
      cases store.equalWithin height leftElement rightElement with
      | error failure => rfl
      | ok same => cases same <;> rfl
  · next leftEq rightEq =>
      simp only [leftEq, rightEq, Shape.pairs]
      split <;> rfl
  · next leftEq rightEq =>
      simp only [leftEq, rightEq, Shape.pairs, Option.elim]
  · next leftEq rightEq =>
      simp only [leftEq, rightEq, Shape.pairs, Option.elim]
  · next notFn notList notTuple notVar notQuantified =>
      rw [Shape.pairs_eq_none notFn notList notTuple]
      simp only [Option.elim]

/-- What a comparison ends with. -/
def Compared (store : Store) (left right : TypeId) : Except MalformedType Bool → Prop
  | .ok same =>
    (same ↔ store.tree left = store.tree right) ∧ ∀ failure, ¬store.Refuses left right failure
  | .error failure => store.Refuses left right failure

/-- A comparison of one pair after the other comes to a pair that cannot be
compared. -/
def RefusesAmong (store : Store) (paired : List (TypeId × TypeId)) (failure : MalformedType) :
    Prop :=
  ∃ earlier pair later, paired = earlier ++ pair :: later ∧
    (∀ before ∈ earlier, store.tree before.1 = store.tree before.2) ∧
      store.Refuses pair.1 pair.2 failure

theorem refusesAmong_cons {pair : TypeId × TypeId} {rest : List (TypeId × TypeId)}
    {failure : MalformedType} :
    store.RefusesAmong (pair :: rest) failure ↔
      store.Refuses pair.1 pair.2 failure ∨
        store.tree pair.1 = store.tree pair.2 ∧ store.RefusesAmong rest failure := by
  constructor
  · rintro ⟨earlier, other, later, split, equal, refuses⟩
    cases earlier with
    | nil =>
      obtain ⟨rfl, _⟩ := List.cons.inj split
      exact .inl refuses
    | cons first earlier =>
      obtain ⟨rfl, restEq⟩ := List.cons.inj split
      exact .inr ⟨equal pair List.mem_cons_self, earlier, other, later, restEq,
        (List.forall_mem_of_forall_mem_cons equal), refuses⟩
  · rintro (refuses | ⟨equal, earlier, other, later, rfl, equalBefore, refuses⟩)
    · exact ⟨[], pair, rest, rfl, by simp, refuses⟩
    · refine ⟨pair :: earlier, other, later, rfl, ?_, refuses⟩
      intro before mem
      rcases List.mem_cons.1 mem with rfl | isEarlier
      · exact equal
      · exact equalBefore before isEarlier

/-- What comparing one pair after the other ends with. -/
def ComparedAll (store : Store) (paired : List (TypeId × TypeId)) :
    Except MalformedType Bool → Prop
  | .ok same =>
    (same ↔ ∀ pair ∈ paired, store.tree pair.1 = store.tree pair.2) ∧
      ∀ failure, ¬store.RefusesAmong paired failure
  | .error failure => store.RefusesAmong paired failure

theorem comparedAll_allM {compare : TypeId × TypeId → Except MalformedType Bool}
    (each : ∀ pair ∈ paired, store.Compared pair.1 pair.2 (compare pair)) :
    store.ComparedAll paired (paired.allM compare) := by
  induction paired with
  | nil =>
    refine ⟨by simp, ?_⟩
    rintro failure ⟨earlier, pair, later, split, _⟩
    simp at split
  | cons pair rest ih =>
    have first := each pair List.mem_cons_self
    have others := ih (List.forall_mem_of_forall_mem_cons each)
    rw [List.allM]
    cases compareEq : compare pair with
    | error failure =>
      rw [compareEq] at first
      exact refusesAmong_cons.2 (.inl first)
    | ok same =>
      rw [compareEq] at first
      obtain ⟨sameIff, comparable⟩ := first
      cases same with
      | false =>
        have different : store.tree pair.1 ≠ store.tree pair.2 := fun equal => by
          simpa using sameIff.2 equal
        refine ⟨?_, ?_⟩
        · simp [different]
        · intro failure refuses
          rcases refusesAmong_cons.1 refuses with now | ⟨equal, _⟩
          · exact comparable failure now
          · exact different equal
      | true =>
        have equal := sameIff.1 rfl
        change store.ComparedAll (pair :: rest) (rest.allM compare)
        cases restEq : rest.allM compare with
        | error failure =>
          rw [restEq] at others
          exact refusesAmong_cons.2 (.inr ⟨equal, others⟩)
        | ok same =>
          rw [restEq] at others
          refine ⟨?_, ?_⟩
          · simp [others.1, equal]
          · intro failure refuses
            rcases refusesAmong_cons.1 refuses with now | ⟨_, later⟩
            · exact comparable failure now
            · exact others.2 failure later

/-- Different types with equal trees have components to be compared, or are not
compared. -/
theorem WellFormed.tree_ne_of_unpaired (wf : store.WellFormed)
    (leftInside : left < store.size) (rightInside : right < store.size) (different : left ≠ right)
    (unpaired : (store.shape left).pairs (store.shape right) = none)
    (comparable : store.refusal? left right = none) :
    store.tree left ≠ store.tree right := by
  intro equal
  have kinds := congrArg Tree.kind equal
  rw [store.kind_tree, store.kind_tree] at kinds
  unfold kind at kinds
  unfold refusal? at comparable
  cases leftEq : store.shape left <;> cases rightEq : store.shape right <;>
    rw [leftEq, rightEq] at kinds unpaired comparable <;> cases kinds
  · next which =>
      -- a primitive type has a single place
      have leftSlot := (wf.slots_iff which left).2 ⟨leftInside, leftEq⟩
      have rightSlot := (wf.slots_iff which right).2 ⟨rightInside, rightEq⟩
      exact different (Option.some.inj (leftSlot.symm.trans rightSlot))
  · cases unpaired
  · cases unpaired
  · next leftParts rightParts =>
      rw [wf.tree_of_tuple leftEq, wf.tree_of_tuple rightEq] at equal
      have sameLength : leftParts.length = rightParts.length := by
        simpa using congrArg List.length (Tree.tuple.inj equal)
      simp [Shape.pairs, sameLength] at unpaired
  · cases comparable
  · cases comparable

theorem WellFormed.tree_eq_iff_pairs (wf : store.WellFormed)
    (pairsEq : (store.shape left).pairs (store.shape right) = some paired) :
    store.tree left = store.tree right ↔
      ∀ pair ∈ paired, store.tree pair.1 = store.tree pair.2 := by
  have iff := wf.replace_eq_iff_pairs pairsEq .var .var
  simpa only [Tree.replace_var] using iff

theorem refuses_iff_refusesAmong (different : left ≠ right)
    (pairsEq : (store.shape left).pairs (store.shape right) = some paired)
    {failure : MalformedType} :
    store.Refuses left right failure ↔ store.RefusesAmong paired failure := by
  constructor
  · intro refuses
    cases refuses with
    | meets _ refusalEq =>
      unfold refusal? at refusalEq
      split at refusalEq
      · next leftEq rightEq => simp [leftEq, rightEq, Shape.pairs] at pairsEq
      · next leftEq rightEq => simp [leftEq, rightEq, Shape.pairs] at pairsEq
      · cases refusalEq
    | descends _ otherPairs equal refuses =>
      rw [otherPairs] at pairsEq
      exact ⟨_, _, _, (Option.some.inj pairsEq).symm, equal, refuses⟩
  · rintro ⟨earlier, pair, later, split, equal, refuses⟩
    exact .descends different (pairsEq.trans (congrArg some split)) equal refuses

theorem ComparedAll.compared (wf : store.WellFormed) (different : left ≠ right)
    (pairsEq : (store.shape left).pairs (store.shape right) = some paired)
    {outcome : Except MalformedType Bool} (all : store.ComparedAll paired outcome) :
    store.Compared left right outcome := by
  cases outcome with
  | error failure => exact (refuses_iff_refusesAmong different pairsEq).2 all
  | ok same =>
    refine ⟨all.1.trans (wf.tree_eq_iff_pairs pairsEq).symm, ?_⟩
    intro failure refuses
    exact all.2 failure ((refuses_iff_refusesAmong different pairsEq).1 refuses)

/-- The height only has to exceed the left index. -/
theorem WellFormed.compared_equalWithin (wf : store.WellFormed) {height : Nat}
    (enough : left < height) (leftInside : left < store.size) (rightInside : right < store.size) :
    store.Compared left right (store.equalWithin height left right) := by
  induction height generalizing left right with
  | zero => exact absurd enough (Nat.not_lt_zero left)
  | succ height ih =>
    rw [equalWithin_succ]
    split
    · next identical =>
        subst identical
        refine ⟨by simp, ?_⟩
        intro failure refuses
        cases refuses with
        | meets different _ => exact different rfl
        | descends different _ _ _ => exact different rfl
    next different =>
      cases pairsEq : (store.shape left).pairs (store.shape right) with
      | none =>
        rw [Option.elim]
        cases refusalEq : store.refusal? left right with
        | some failure => exact .meets different refusalEq
        | none =>
          have treesDiffer := wf.tree_ne_of_unpaired leftInside rightInside
            different pairsEq refusalEq
          refine ⟨by simp [treesDiffer], ?_⟩
          intro failure refuses
          cases refuses with
          | meets _ someRefusal => simp [refusalEq] at someRefusal
          | descends _ somePairs _ _ => simp [pairsEq] at somePairs
      | some paired =>
        rw [Option.elim]
        refine (comparedAll_allM ?_).compared wf different pairsEq
        intro pair mem
        obtain ⟨inLeft, inRight⟩ := Shape.mem_components_of_mem_pairs pairsEq mem
        exact ih (Nat.lt_of_lt_of_le (wf.component_lt inLeft) (Nat.le_of_lt_succ enough))
          (wf.component_inside leftInside _ inLeft) (wf.component_inside rightInside _ inRight)

/-- A comparison of stored types answers whether their trees are equal, or it
comes to two types that cannot be compared. -/
theorem WellFormed.compared_equal (wf : store.WellFormed) (leftInside : left < store.size)
    (rightInside : right < store.size) :
    store.Compared left right (store.equal left right) :=
  wf.compared_equalWithin (Nat.lt_succ_self left) leftInside rightInside

end Store
end PipeCheck
