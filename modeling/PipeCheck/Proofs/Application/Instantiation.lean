import PipeCheck.Proofs.Application.Quantified

/-!
# Application of quantifier-free signatures

A function `forall vs. p -> r` without further quantifiers takes an argument
exactly when some assignment of its variables turns `p` into the argument's
body.  The result is `r` under that assignment, where the variables that `p`
does not mention become new ones, and it is quantified over these and over the
argument's own variables.
-/

namespace PipeCheck

open Bindings PipeCheck.Tree

/-- An assignment of the variables of a parameter, with new names for the
others. -/
def Tree.completed (parameter : Tree) (fresh : TypeId → TypeId) (assignment : TypeId → Tree) :
    TypeId → Tree :=
  fun id => if id ∈ parameter.occurrences then assignment id else .var (fresh id)

namespace Store

/-- The result of applying `forall binders. parameter -> codomain` to an
argument under an assignment that turns the parameter into its body. -/
structure AppliesTo (policy : QuantifierPolicy) (store last : Store) (binders : List TypeId)
    (parameter codomain argument : Tree) (assignment : TypeId → Tree)
    (fresh : TypeId → TypeId) (quantifier : List TypeId) (result : TypeId) : Prop where
  /-- The new names are those of variables created by the application. -/
  fresh_new : ∀ id ∈ binders, store.size ≤ fresh id ∧ ∃ number, last.shape (fresh id) = .var number
  /-- Different variables get different new names. -/
  fresh_injective : ∀ id ∈ binders, ∀ other ∈ binders, fresh id = fresh other → id = other
  /-- No variable is quantified twice. -/
  nodup : quantifier.Nodup
  /-- Which variables the result is quantified over. -/
  mem_quantifier : ∀ id, id ∈ quantifier ↔
    ((∃ unused ∈ binders, unused ∉ parameter.occurrences ∧ fresh unused = id) ∨
      id ∈ argument.binders ∧
        id ∈ ((function parameter codomain).replace
          (restrict binders (parameter.completed fresh assignment))).occurrences) ∧
    (policy = .prune →
      id ∈ (codomain.replace (restrict binders (parameter.completed fresh assignment))).occurrences)
  /-- The result is the quantified instance of the codomain. -/
  tree_eq : last.tree result =
    (codomain.replace
      (restrict binders (parameter.completed fresh assignment))).quantifiedOver quantifier

namespace Specialises

variable {id : TypeId} {given : TypeId → Tree} {store last : Store} {binders : List TypeId}
  {parameter codomain : Tree} {arg : TypeId} {fresh : List TypeId} {assignment : TypeId → Tree}
  {quantifier : List TypeId} {domain image : Tree} {result : TypeId}
  (specialises : Specialises store last binders parameter codomain arg fresh assignment
    quantifier domain image result)

include specialises

theorem length_eq : binders.length = fresh.length := by
  simp [specialises.fresh_eq]

theorem size_le_of_mem (mem : id ∈ fresh) : store.size ≤ id := by
  rw [specialises.fresh_eq] at mem
  exact (List.mem_range'_1.1 mem).1

theorem rename_injective {other : TypeId} (idOld : id < store.size) (otherOld : other < store.size)
    (same : Bindings.rename binders fresh id = Bindings.rename binders fresh other) :
    id = other := by
  have nodup : fresh.Nodup := by
    rw [specialises.fresh_eq]
    exact List.nodup_range'
  have new : ∀ {id}, id ∈ binders → store.size ≤ Bindings.rename binders fresh id :=
    fun listed => specialises.size_le_of_mem (Bindings.rename_mem specialises.length_eq listed)
  by_cases idListed : id ∈ binders
  · by_cases otherListed : other ∈ binders
    · exact Bindings.rename_injective specialises.length_eq nodup idListed otherListed same
    · rw [Bindings.rename_of_notMem otherListed] at same
      exact absurd otherOld (Nat.not_lt_of_le (same ▸ new idListed))
  · rw [Bindings.rename_of_notMem idListed] at same
    by_cases otherListed : other ∈ binders
    · exact absurd idOld (Nat.not_lt_of_le (same ▸ new otherListed))
    · rwa [Bindings.rename_of_notMem otherListed] at same

section QuantifierFree

variable (parameterFree : parameter.quantifierFree)
  (parameterOld : ∀ id ∈ parameter.occurrences, id < store.size)

include parameterFree parameterOld

/-- A variable occurs in the renamed parameter under its new name exactly when
it occurs in the parameter. -/
theorem rename_mem_occurrences_iff (idOld : id < store.size) :
    rename binders fresh id ∈ (parameter.rename binders fresh).occurrences ↔
      id ∈ parameter.occurrences := by
  rw [Tree.rename, Tree.mem_occurrences_replace parameterFree]
  simp only [Tree.occurrences, List.mem_singleton]
  constructor
  · rintro ⟨source, occurs, same⟩
    rwa [specialises.rename_injective idOld (parameterOld source occurs) same]
  · exact fun occurs => ⟨id, occurs, rfl⟩

section

variable (fits : parameter.replace (Tree.restrict binders given) = store.tree (store.body arg))

include fits

/-- Matching found the only assignment that turns the parameter into the
argument's body. -/
theorem assignment_rename (idOld : id < store.size) :
    assignment (rename binders fresh id) =
      Tree.restrict binders
        (parameter.completed (rename binders fresh) given) id := by
  by_cases listed : id ∈ binders
  · rw [Tree.restrict_of_mem listed, Tree.completed]
    by_cases occurs : id ∈ parameter.occurrences
    · rw [if_pos occurs]
      have equal : parameter.replace (fun id => assignment (rename binders fresh id)) =
          parameter.replace (Tree.restrict binders given) := by
        rw [fits, ← specialises.domain_eq_argument, specialises.domain_eq, Tree.rename,
          Tree.replace_replace_of_quantifierFree parameterFree]
        rfl
      rw [Tree.eq_of_replace_eq parameterFree equal occurs, Tree.restrict_of_mem listed]
    · rw [if_neg occurs]
      refine specialises.assignment_eq_var _ ?_
      rwa [specialises.rename_mem_occurrences_iff parameterFree parameterOld idOld]
  · rw [Tree.restrict_of_notMem listed, rename_of_notMem listed]
    exact specialises.assignsOnly fun mem =>
      Nat.not_lt_of_le (specialises.size_le_of_mem mem) idOld

theorem rename_replace_eq
    {tree : Tree} (free : tree.quantifierFree) (old : ∀ id ∈ tree.occurrences, id < store.size) :
    (tree.rename binders fresh).replace assignment =
      tree.replace (Tree.restrict binders
        (parameter.completed (rename binders fresh) given)) := by
  rw [Tree.rename, Tree.replace_replace_of_quantifierFree free]
  apply Tree.replace_congr
  intro id occurs
  exact specialises.assignment_rename parameterFree parameterOld fits (old id occurs)

end

/-- The parameter becomes the argument's body under some assignment of the
listed variables. -/
theorem exists_fits :
    ∃ given, parameter.replace (Tree.restrict binders given) =
      store.tree (store.body arg) := by
  refine ⟨fun id => assignment (rename binders fresh id), ?_⟩
  rw [← specialises.domain_eq_argument, specialises.domain_eq, Tree.rename,
    Tree.replace_replace_of_quantifierFree parameterFree]
  apply Tree.replace_congr
  intro id occurs
  rw [Tree.replace]
  by_cases listed : id ∈ binders
  · rw [Tree.restrict_of_mem listed]
  · rw [Tree.restrict_of_notMem listed, rename_of_notMem listed]
    refine (specialises.assignsOnly fun mem => ?_).symm
    exact Nat.not_lt_of_le (specialises.size_le_of_mem mem) (parameterOld id occurs)

/-- New variables that the renamed parameter does not mention rename variables
that the parameter does not mention. -/
theorem unused_iff (distinct : binders.Nodup) (bindersOld : ∀ id ∈ binders, id < store.size) :
    (id ∈ fresh ∧ id ∉ (parameter.rename binders fresh).occurrences) ↔
      ∃ unused ∈ binders, unused ∉ parameter.occurrences ∧
        rename binders fresh unused = id := by
  constructor
  · rintro ⟨mem, absent⟩
    obtain ⟨unused, listed, rfl⟩ := exists_rename_eq specialises.length_eq distinct mem
    rw [specialises.rename_mem_occurrences_iff parameterFree parameterOld
      (bindersOld unused listed)] at absent
    exact ⟨unused, listed, absent, rfl⟩
  · rintro ⟨unused, listed, absent, rfl⟩
    refine ⟨rename_mem specialises.length_eq listed, ?_⟩
    rwa [specialises.rename_mem_occurrences_iff parameterFree parameterOld
      (bindersOld unused listed)]

theorem appliesTo (policy : QuantifierPolicy) (wf : store.WellFormed) (distinct : binders.Nodup)
    (bindersOld : ∀ id ∈ binders, id < store.size) (codomainFree : codomain.quantifierFree)
    (codomainOld : ∀ id ∈ codomain.occurrences, id < store.size)
    (fits : parameter.replace (restrict binders given) = store.tree (store.body arg))
    {final : Store}
    (built : last.Builds final id (image.quantifiedOver (policy.keeps quantifier image))) :
    AppliesTo policy store final binders parameter codomain (store.tree arg) given
      (rename binders fresh) (policy.keeps quantifier image) id := by
  have domainEq := specialises.domain_eq.trans (specialises.rename_replace_eq parameterFree
    parameterOld fits parameterFree parameterOld)
  have imageEq := specialises.image_eq.trans (specialises.rename_replace_eq parameterFree
    parameterOld fits codomainFree codomainOld)
  refine ⟨?_, ?_, (specialises.nodup).sublist (policy.keeps_sublist _ _), ?_, ?_⟩
  · intro binder listed
    have mem := rename_mem specialises.length_eq listed
    obtain ⟨number, isVar⟩ := specialises.fresh_var _ mem
    have inside := lt_size_of_shape isVar (by simp)
    exact ⟨specialises.size_le_of_mem mem, number, (built.grown.shape_eq inside).trans isVar⟩
  · intro binder listed other otherListed same
    exact specialises.rename_injective (bindersOld binder listed) (bindersOld other otherListed)
      same
  · intro id
    rw [QuantifierPolicy.mem_keeps, specialises.mem_quantifier, wf.binders_tree,
      specialises.unused_iff parameterFree parameterOld distinct bindersOld, domainEq, imageEq]
    rfl
  · rw [built.tree_eq]
    exact congrArg (quantifiedOver _) imageEq

end QuantifierFree
end Specialises

/-- A function `forall binders. parameter -> codomain` without further
quantifiers takes an argument exactly when some assignment of its variables
turns the parameter into the argument's body, and its result is determined by
that assignment. -/
theorem apply_isSome_iff_exists_fits (policy : QuantifierPolicy) {store : Store}
    (wellFormed : store.WellFormed) {functionType argument : TypeId} {binders : List TypeId}
    {body parameter codomain : TypeId}
    (functionShape : store.shape functionType = .quantified binders body)
    (bodyShape : store.shape body = .function parameter codomain) (distinct : binders.Nodup)
    (parameterFree : (store.tree parameter).quantifierFree)
    (codomainFree : (store.tree codomain).quantifierFree) (argumentInside : argument < store.size) :
    Yields (Checked.apply policy argument functionType).run store fun outcome last =>
      ∃ returned, outcome = .ok returned ∧
        (returned.isSome ↔ ∃ given,
          (store.tree parameter).replace (restrict binders given) = (store.tree argument).body) ∧
        ∀ result ∈ returned, ∀ given,
          (store.tree parameter).replace (restrict binders given) =
              (store.tree argument).body →
            ∃ fresh quantifier,
              AppliesTo policy store last binders (store.tree parameter) (store.tree codomain)
                (store.tree argument) given fresh quantifier result := by
  have bodyTree := wellFormed.tree_of_function bodyShape
  have bindersOld : ∀ id ∈ binders, id < store.size := by
    intro id listed
    obtain ⟨number, isVar⟩ := wellFormed.binders_var functionShape id listed
    exact lt_size_of_shape isVar (by simp)
  refine (Checked.yields_apply_quantified policy wellFormed functionShape argumentInside).mono ?_
  rintro _ last ⟨returned, rfl, application⟩
  refine ⟨returned, rfl, ?_⟩
  rw [← wellFormed.tree_body]
  cases returned with
  | none =>
    refine ⟨?_, by simp⟩
    simp only [Option.isSome_none, Bool.false_eq_true, false_iff, not_exists]
    exact application.2 _ _ bodyTree parameterFree
  | some result =>
    obtain ⟨_, _, fresh, assignment, quantifier, domain, image, middle, specialised, treeEq,
      specialises, built⟩ := application
    rw [bodyTree, function.injEq] at treeEq
    obtain ⟨rfl, rfl⟩ := treeEq
    have old : ∀ {type}, ∀ id ∈ (store.tree type).occurrences, id < store.size :=
      fun id occurs => wellFormed.inside_of_mem_occurrences occurs
    refine ⟨⟨fun _ => specialises.exists_fits parameterFree old, fun _ => rfl⟩, ?_⟩
    rintro _ ⟨⟩ given fits
    exact ⟨_, _, specialises.appliesTo parameterFree old policy wellFormed distinct bindersOld
      codomainFree old fits built⟩

/-- The types `forall 'a, 'b. 'a -> ('a, 'b)` and `forall 'c. List 'c`. -/
def pairAndList : Store where
  shapes := #[.var 0, .var 1, .tuple [0, 1], .function 0 2, .quantified [0, 1] 3,
    .var 2, .list 5, .quantified [5] 6]
  slots _ := none
  nextVar := 3

/-- The first type takes the second: `'a` becomes `List 'c`, and `'b` stays
open. -/
theorem apply_pairAndList :
    pairAndList.WellFormed ∧
      ∃ result, ((Checked.apply .keepAll 7 4).run.run pairAndList).1 = .ok (some result) ∧
        ∃ fresh quantifier, AppliesTo .keepAll pairAndList
          ((Checked.apply .keepAll 7 4).run.run pairAndList).2 [0, 1]
          (pairAndList.tree 0) (pairAndList.tree 2) (pairAndList.tree 7)
          (fun _ => .list (.var 5)) fresh quantifier result := by
  have applied : Yields (Checked.apply .keepAll 7 4).run pairAndList _ :=
    apply_isSome_iff_exists_fits .keepAll (by decide) rfl rfl (by decide) rfl rfl (by decide)
  obtain ⟨returned, outcomeEq, isSome_iff, results⟩ := applied
  have fits : (pairAndList.tree 0).replace
      (restrict [0, 1] fun _ => .list (.var 5)) = (pairAndList.tree 7).body := rfl
  obtain ⟨result, rfl⟩ := Option.isSome_iff_exists.1 (isSome_iff.2 ⟨_, fits⟩)
  exact ⟨by decide, result, outcomeEq, results result rfl _ fits⟩

end Store
end PipeCheck
