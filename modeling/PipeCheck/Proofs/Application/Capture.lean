import PipeCheck.Proofs.Properties.Closedness
import PipeCheck.Proofs.Application.Instantiation
import PipeCheck.Proofs.Store.Nameless
import PipeCheck.Proofs.Reading.ClosedTypes

/-!
# When application captures variables

An instance of a quantified function has its outermost variables renamed, but
not those of the quantifiers inside, and the variables that come with the
argument keep their names.  All results of one function share the variables of
its inner quantifiers, so a result that is given back to the function may bring
in a variable that an inner quantifier lists.

The result of an application is the right instance of the function's codomain
exactly when no variable of the argument is captured in this way.
-/

namespace PipeCheck
namespace Store

variable {store : Store} {types : List TypeId} {arg : TypeId}

/-- The types that have been read into a store or are results of applying such
types to each other. -/
inductive Derived : Store → List TypeId → Prop
  | empty : Derived .empty []
  | read {store last : Store} {types : List TypeId} {text : String}
      {outcome : Except ReadError TypeId} (earlier : Derived store types)
      (reads : (Alloc.read text).run.run store = (outcome, last)) :
      Derived last (outcome.toOption.toList ++ types)
  | apply {store last : Store} {types : List TypeId} {policy : QuantifierPolicy}
      {functionType argument : TypeId} {outcome : Except MalformedType (Option TypeId)}
      (earlier : Derived store types) (functionDerived : functionType ∈ types)
      (argumentDerived : argument ∈ types)
      (applies : (Checked.apply policy argument functionType).run.run store = (outcome, last)) :
      Derived last (outcome.toOption.join.toList ++ types)

/-- Derived types are closed, in a well-formed store. -/
theorem Derived.valid (derived : Derived store types) :
    store.WellFormed ∧ store.DistinctBinders ∧ ∀ id ∈ types, store.ClosedType id := by
  have extended : ∀ {earlier last : Store} {types new : List TypeId}, last.Follows earlier →
      earlier.WellFormed ∧ earlier.DistinctBinders ∧ (∀ id ∈ types, earlier.ClosedType id) →
      (∀ id ∈ new, last.ClosedType id) →
      last.WellFormed ∧ last.DistinctBinders ∧ ∀ id ∈ new ++ types, last.ClosedType id := by
    rintro earlier last types new follows ⟨wf, distinct, closed⟩ newClosed
    refine ⟨follows.wellFormed, follows.distinct distinct, ?_⟩
    intro id mem
    rcases List.mem_append.1 mem with isNew | old
    · exact newClosed id isNew
    · exact follows.closedType wf (closed id old)
  induction derived with
  | empty => exact ⟨wellFormed_empty, distinctBinders_empty, by simp⟩
  | @read store last types text outcome earlier reads valid =>
    have read := Alloc.yields_read valid.1 text
    rw [Yields, reads] at read
    refine extended read.1 valid ?_
    intro id mem
    cases outcome with
    | error failure => cases mem
    | ok type =>
      rw [List.mem_singleton.1 mem]
      exact read.2 type rfl
  | @apply store last types policy fnType arg outcome earlier fnDerived
      argDerived applies valid =>
      have applied := closed_inherited.returns_apply policy valid.1
        (valid.2.2 fnType fnDerived) (valid.2.2 arg argDerived)
      rw [Checked.Returns, Keeps, Yields, applies] at applied
      refine extended applied.1 valid ?_
      intro id mem
      cases outcome with
      | error failure => cases mem
      | ok returned =>
        exact applied.2 returned rfl id (Option.mem_toList.1 mem)

theorem Derived.of_read (derived : Derived store types) {text : String} {id : TypeId}
    (reads : ((Alloc.read text).run.run store).1.toOption = some id) :
    Derived ((Alloc.read text).run.run store).2 (id :: types) := by
  have next : Derived ((Alloc.read text).run.run store).2 _ := derived.read Prod.mk.eta.symm
  rwa [reads] at next

theorem Derived.of_apply (derived : Derived store types) {policy : QuantifierPolicy}
    {fnType id : TypeId} (fnDerived : fnType ∈ types) (argDerived : arg ∈ types)
    (applies : ((Checked.apply policy arg fnType).run.run store).1.toOption.join = some id) :
    Derived ((Checked.apply policy arg fnType).run.run store).2 (id :: types) := by
  have next : Derived ((Checked.apply policy arg fnType).run.run store).2 _ :=
    derived.apply fnDerived argDerived Prod.mk.eta.symm
  rwa [applies] at next

namespace Specialises

variable {store last : Store} {binders : List TypeId} {parameter codomain : Tree}
  {arg : TypeId} {fresh : List TypeId} {assign : TypeId → Tree}
  {quantifier : List TypeId} {domain image : Tree} {result : TypeId}
  (specialises : Specialises store last binders parameter codomain arg fresh assign
    quantifier domain image result)
  (wf : store.WellFormed)

include specialises wf

/-- New variables are captured nowhere. -/
theorem not_captures_rename (id leaf : TypeId) :
    ¬(store.tree id).Captures (fun id => .var (Bindings.rename binders fresh id)) leaf := by
  rintro ⟨place, mem, isFree, occurs, listed⟩
  rw [List.mem_singleton.1 occurs] at listed
  by_cases isBinder : place.id ∈ binders
  · have new := specialises.size_le_of_mem (Bindings.rename_mem specialises.length_eq isBinder)
    exact Nat.not_lt_of_le new (wf.scope_inside (by simp) mem _ listed)
  · rw [Bindings.rename_of_notMem isBinder] at listed
    exact isFree listed

omit wf in
/-- The assignment found for the new variables, as one of the old. -/
theorem assignment_rename_eq {id : TypeId} (old : id < store.size) :
    assign (Bindings.rename binders fresh id) =
      Tree.restrict binders (fun id => assign (Bindings.rename binders fresh id)) id := by
  by_cases listed : id ∈ binders
  · rw [Tree.restrict_of_mem listed]
  · rw [Tree.restrict_of_notMem listed, Bindings.rename_of_notMem listed]
    exact specialises.assignsOnly fun mem =>
      Nat.not_lt_of_le (specialises.size_le_of_mem mem) old

theorem rename_replace (id : TypeId) :
    ((store.tree id).rename binders fresh).replace assign =
      (store.tree id).replace
        (Tree.restrict binders fun id => assign (Bindings.rename binders fresh id)) := by
  rw [Tree.rename, Tree.replace_replace (specialises.not_captures_rename wf id)]
  apply Tree.replace_congr
  intro leaf occurs
  exact specialises.assignment_rename_eq (wf.inside_of_mem_occurrences occurs)

/-- The parameter becomes the argument's body, without capture. -/
theorem isInstance_parameter {paramId : TypeId} (paramTree : store.tree paramId = parameter) :
    Tree.IsInstance
      (Tree.restrict binders fun id => assign (Bindings.rename binders fresh id))
      parameter (store.tree (store.body arg)) := by
  have clear : ∀ leaf, ¬(parameter.rename binders fresh).Captures assign leaf := by
    rintro leaf ⟨place, mem, isFree, occurs, listed⟩
    by_cases isFresh : place.id ∈ fresh
    · rw [specialises.exposed place mem isFree isFresh] at listed
      cases listed
    · rw [specialises.assignsOnly isFresh] at occurs
      rw [List.mem_singleton.1 occurs] at listed
      exact isFree listed
  have isInstance := Tree.isInstance_replace_iff.2 clear
  rw [← specialises.domain_eq, specialises.domain_eq_argument, Tree.IsInstance, Tree.rename,
    ← paramTree, Tree.instantiate_replace_var
      (specialises.not_captures_rename wf paramId)] at isInstance
  rw [Tree.IsInstance, isInstance, ← paramTree]
  apply Tree.instantiate_congr
  intro id occurs
  rw [specialises.assignment_rename_eq (wf.inside_of_mem_occurrences occurs)]

/-- What is captured came with the argument. -/
theorem mem_binders_of_captures (argClosed : store.ClosedType arg)
    {codomainId : TypeId} (codomainTree : store.tree codomainId = codomain)
    (listed : ∀ id ∈ codomain.occurrences, id ∈ binders) {leaf : TypeId}
    (captured : codomain.Captures
      (Tree.restrict binders fun id => assign (Bindings.rename binders fresh id)) leaf) :
    leaf ∈ store.binders arg := by
  obtain ⟨place, mem, isFree, occurs, inScope⟩ := captured
  have isBinder := listed place.id (Tree.mem_occurrences_of_mem_places mem isFree)
  have isFresh := Bindings.rename_mem specialises.length_eq isBinder
  rw [Tree.restrict_of_mem isBinder] at occurs
  by_cases inParam : Bindings.rename binders fresh place.id ∈
      (parameter.rename binders fresh).occurrences
  · exact argClosed.mem_binders wf (specialises.occurs_argument _ isFresh inParam leaf occurs)
  · rw [specialises.assignment_eq_var _ inParam] at occurs
    rw [List.mem_singleton.1 occurs] at inScope
    rw [← codomainTree] at mem
    exact absurd (wf.scope_inside (by simp) mem _ inScope)
      (Nat.not_lt_of_le (specialises.size_le_of_mem isFresh))

end Specialises

/-- An assignment of the variables of a function for an argument: the parameter
becomes the argument's body, and the variables that it does not mention become
new ones. -/
structure Solves (store : Store) (binders : List TypeId) (parameter argument : Tree)
    (assignment : TypeId → Tree) (fresh : TypeId → TypeId) : Prop where
  /-- Only variables of the function are assigned. -/
  assignsOnly : Tree.AssignsOnly binders assignment
  /-- The parameter becomes the argument's body. -/
  isInstance : Tree.IsInstance assignment parameter argument.body
  /-- What the parameter does not mention becomes new. -/
  unused : ∀ id ∈ binders, id ∉ parameter.occurrences → assignment id = .var (fresh id)
  /-- New variables were not stored before. -/
  fresh_new : ∀ id ∈ binders, store.size ≤ fresh id
  /-- Different variables become different ones. -/
  fresh_injective : ∀ id ∈ binders, ∀ other ∈ binders, fresh id = fresh other → id = other

theorem Specialises.solves {last : Store} {binders : List TypeId} {parameter codomain : Tree}
    {fresh : List TypeId} {assign : TypeId → Tree} {quantifier : List TypeId}
    {domain image : Tree} {result : TypeId}
    (specialises : Specialises store last binders parameter codomain arg fresh assign
      quantifier domain image result) (wf : store.WellFormed) {paramId : TypeId}
    (paramTree : store.tree paramId = parameter) (bindersOld : ∀ id ∈ binders, id < store.size) :
    Solves store binders parameter (store.tree arg)
      (Tree.restrict binders fun id => assign (Bindings.rename binders fresh id))
      (Bindings.rename binders fresh) where
  assignsOnly _ absent := Tree.restrict_of_notMem absent _
  isInstance := by
    rw [← wf.tree_body]
    exact specialises.isInstance_parameter wf paramTree
  unused id listed absent := by
    rw [Tree.restrict_of_mem listed]
    apply specialises.assignment_eq_var
    intro occurs
    obtain ⟨source, sourceOccurs, present⟩ := Tree.exists_mem_occurrences_of_replace occurs
    rw [← paramTree] at sourceOccurs
    have same := specialises.rename_injective (bindersOld id listed)
      (wf.inside_of_mem_occurrences sourceOccurs) (List.mem_singleton.1 present)
    rw [paramTree, ← same] at sourceOccurs
    exact absent sourceOccurs
  fresh_new _ listed :=
    specialises.size_le_of_mem (Bindings.rename_mem specialises.length_eq listed)
  fresh_injective id listed other otherListed same :=
    specialises.rename_injective (bindersOld id listed) (bindersOld other otherListed) same

/-- The result of a closed function is its codomain with the variables replaced
by name.  Whatever this captures comes with the argument. -/
theorem exists_solves {policy : QuantifierPolicy} {last : Store} (wf : store.WellFormed)
    {fnType result : TypeId} (fnClosed : store.ClosedType fnType)
    (argClosed : store.ClosedType arg) {binders : List TypeId} {body : TypeId}
    (shapeEq : store.shape fnType = .quantified binders body)
    (applies : (Checked.apply policy arg fnType).run.run store = (.ok (some result), last)) :
    ∃ parameter codomain assign fresh kept,
      store.tree fnType = .quantified binders (.function parameter codomain) ∧
      Solves store binders parameter (store.tree arg) assign fresh ∧
      last.tree result = (codomain.replace assign).quantifiedOver kept ∧
      (last.tree result).Closed ∧
      ∀ leaf, codomain.Captures assign leaf → leaf ∈ (store.tree arg).binders := by
  have yields := Checked.yields_apply_quantified policy wf shapeEq argClosed.1
  rw [Yields, applies] at yields
  obtain ⟨_, ⟨⟩, parameter, codomain, fresh, assign, quantifier, domain, image, mid,
    specialised, bodyTree, specialises, built⟩ := yields
  obtain ⟨paramId, codomainId, _, paramTree, codomainTree⟩ := wf.shape_of_tree_function bodyTree
  have listed : ∀ id ∈ codomain.occurrences, id ∈ binders := by
    intro id occurs
    apply fnClosed.mem_of_quantified wf shapeEq
    rw [bodyTree, Tree.occurrences]
    exact List.mem_append_right _ occurs
  have bindersOld : ∀ id ∈ binders, id < store.size := by
    intro id isBinder
    obtain ⟨number, isVar⟩ := wf.binders_var shapeEq id isBinder
    exact lt_size_of_shape isVar (by simp)
  have imageEq := specialises.rename_replace wf codomainId
  rw [codomainTree, ← specialises.image_eq] at imageEq
  refine ⟨parameter, codomain, _, _, policy.keeps quantifier image, ?_,
    specialises.solves wf paramTree bindersOld, ?_, ?_, ?_⟩
  · rw [wf.tree_of_quantified shapeEq, bodyTree]
  · rw [built.tree_eq, ← imageEq]
  · rw [built.tree_eq, Tree.closed_quantifiedOver_iff]
    exact specialises.mem_keeps wf argClosed listed policy
  · intro leaf captured
    rw [wf.binders_tree]
    exact specialises.mem_binders_of_captures wf argClosed codomainTree listed captured

/-- Among types that were read or derived by application, the result of a
quantified function is, up to the names of bound variables, the instance of its
codomain exactly when no variable of the argument is captured by a quantifier
inside the codomain. -/
theorem apply_alphaEq_iff_not_captures {policy : QuantifierPolicy} {store last : Store}
    {types : List TypeId} (derived : Derived store types)
    {functionType argument result : TypeId} (functionDerived : functionType ∈ types)
    (argumentDerived : argument ∈ types) {binders : List TypeId} {body : TypeId}
    (shapeEq : store.shape functionType = .quantified binders body)
    (applies : (Checked.apply policy argument functionType).run.run store =
      (.ok (some result), last)) :
    ∃ parameter codomain assignment fresh kept,
      store.tree functionType = .quantified binders (.function parameter codomain) ∧
      Solves store binders parameter (store.tree argument) assignment fresh ∧
      last.tree result = (codomain.replace assignment).quantifiedOver kept ∧
      (last.tree result).Closed ∧
      ((∃ image others, Tree.IsInstance assignment codomain image ∧
          (last.tree result).AlphaEq (image.quantifiedOver others)) ↔
        ∀ leaf ∈ (store.tree argument).binders, ¬codomain.Captures assignment leaf) := by
  obtain ⟨wellFormed, _, closed⟩ := derived.valid
  obtain ⟨parameter, codomain, assignment, fresh, kept, treeEq, solves, resultTree, resultClosed,
    fromArgument⟩ := exists_solves wellFormed (closed functionType functionDerived)
      (closed argument argumentDerived) shapeEq applies
  refine ⟨parameter, codomain, assignment, fresh, kept, treeEq, solves, resultTree, resultClosed,
    ?_⟩
  rw [resultTree]
  constructor
  · rintro ⟨image, others, isInstance, same⟩ leaf _
    exact Tree.not_captures_of_alphaEq isInstance same leaf
  · intro clear
    refine ⟨codomain.replace assignment, kept, Tree.isInstance_replace_iff.2 ?_, rfl⟩
    intro leaf captured
    exact clear leaf (fromArgument leaf captured) captured

/-- A store with the function `forall 'a. 'a -> (forall 'b. 'b -> 'a)` and a
second type. -/
def constantsAnd (text : String) : Store :=
  ((Alloc.read text).run.run
    ((Alloc.read "forall 'a. 'a -> (forall 'b. 'b -> 'a)").run.run .empty).2).2

/-- The codomain of that function. -/
def constants : Tree :=
  .quantified [1] (.function (.var 1) (.var 0))

/-- Applied to a type with variables of its own, the function returns the right
instance of its codomain. -/
theorem apply_constants_to_list :
    Derived (constantsAnd "forall 'c. ['c]") [8, 5] ∧
      ∃ last, (Checked.apply .keepAll 8 5).run.run (constantsAnd "forall 'c. ['c]") =
          (.ok (some 17), last) ∧
        ∃ parameter codomain assignment fresh,
          (constantsAnd "forall 'c. ['c]").tree 5 = .quantified [0] (.function parameter codomain) ∧
          Solves (constantsAnd "forall 'c. ['c]") [0] parameter
            ((constantsAnd "forall 'c. ['c]").tree 8) assignment fresh ∧
          ∃ image others, Tree.IsInstance assignment codomain image ∧
            (last.tree 17).AlphaEq (image.quantifiedOver others) := by
  have derived : Derived (constantsAnd "forall 'c. ['c]") [8, 5] :=
    (Derived.empty.of_read (by decide +kernel)).of_read (by decide +kernel)
  have shapeEq : (constantsAnd "forall 'c. ['c]").shape 5 = .quantified [0] 4 := by
    decide +kernel
  have functionTree : (constantsAnd "forall 'c. ['c]").tree 5 =
      .quantified [0] (.function (.var 0) constants) := by
    decide +kernel
  have bindersEq : (constantsAnd "forall 'c. ['c]").binders 8 = [6] := by decide +kernel
  have outcome : ((Checked.apply .keepAll 8 5).run.run (constantsAnd "forall 'c. ['c]")).1 =
      .ok (some 17) := by decide +kernel
  have applies := Prod.mk.eta.symm.trans (congrArg (Prod.mk · _) outcome)
  obtain ⟨parameter, codomain, assignment, fresh, kept, treeEq, solves, _, _, iff⟩ :=
    apply_alphaEq_iff_not_captures derived (by simp) (by simp) shapeEq applies
  refine ⟨derived, _, applies, parameter, codomain, assignment, fresh, treeEq, solves, iff.2 ?_⟩
  obtain rfl : constants = codomain :=
    (Tree.function.inj (Tree.quantified.inj (functionTree.symm.trans treeEq)).2).2
  rw [derived.valid.1.binders_tree, bindersEq]
  -- The argument's variable is not listed by the quantifier in the codomain.
  rintro leaf isBinder ⟨place, member, _, _, listed⟩
  rw [List.mem_singleton.1 isBinder] at listed
  simp only [constants, Tree.places, Tree.placesUnder, List.cons_append, List.nil_append,
    List.mem_cons, List.not_mem_nil, or_false] at member
  rcases member with rfl | rfl <;> simp at listed

/-- The store in which the function has been applied to an integer. -/
def constantsApplied : Store :=
  ((Checked.apply .keepAll 6 5).run.run (constantsAnd "Int")).2

theorem derived_constantsApplied : Derived constantsApplied [12, 6, 5] := by
  have derived : Derived (constantsAnd "Int") [6, 5] :=
    (Derived.empty.of_read (by decide +kernel)).of_read (by decide +kernel)
  exact derived.of_apply (by simp) (by simp) (by decide +kernel)

/-- Applied to its own result, the function captures a variable: no instance of
its codomain for that argument is what it returns. -/
theorem apply_captures_own_result :
    Derived constantsApplied [12, 6, 5] ∧
      constantsApplied.shape 5 = .quantified [0] 4 ∧
      constantsApplied.shape 4 = .function 0 3 ∧
      ∃ last, (Checked.apply .keepAll 12 5).run.run constantsApplied = (.ok (some 22), last) ∧
        ¬∃ assignment image kept,
          Tree.IsInstance assignment (constantsApplied.tree 0) (constantsApplied.tree 12).body ∧
          Tree.IsInstance assignment (constantsApplied.tree 3) image ∧
          (last.tree 22).AlphaEq (image.quantifiedOver kept) := by
  have codomainTree : constantsApplied.tree 3 = constants := by decide +kernel
  have argumentTree : constantsApplied.tree 12 =
      .quantified [1] (.function (.var 1) (.primitive .int)) := by
    decide +kernel
  have parameterTree : constantsApplied.tree 0 = .var 0 := by decide +kernel
  have outcome : ((Checked.apply .keepAll 12 5).run.run constantsApplied).1 =
      .ok (some 22) := by decide +kernel
  have applies := Prod.mk.eta.symm.trans (congrArg (Prod.mk · _) outcome)
  refine ⟨derived_constantsApplied, by decide +kernel, by decide +kernel, _, applies, ?_⟩
  have resultTree : ((Checked.apply .keepAll 12 5).run.run constantsApplied).2.tree 22 =
      .quantified [1] (.quantified [1]
        (.function (.var 1) (.function (.var 1) (.primitive .int)))) := by
    decide +kernel
  rintro ⟨assignment, image, kept, parameterBecomes, codomainBecomes, same⟩
  rw [parameterTree, argumentTree] at parameterBecomes
  rw [codomainTree] at codomainBecomes
  have isInstance : Tree.IsInstance (fun _ => .function (.var 1) (.primitive .int)) constants
      image := by
    refine codomainBecomes.trans (Tree.instantiate_congr ?_)
    intro id occurs
    have isZero : id = 0 := by simpa [constants, Tree.occurrences] using occurs
    rw [isZero]
    exact parameterBecomes.symm
  have replaced : .quantified [1] (.quantified [1]
      (.function (.var 1) (.function (.var 1) (.primitive .int)))) =
        (constants.replace fun _ => .function (.var 1) (.primitive .int)).quantifiedOver [1] := rfl
  rw [resultTree, replaced] at same
  exact Tree.not_captures_of_alphaEq isInstance same 1 (by decide)

end Store
end PipeCheck
