import PipeCheck.Proofs.Store.Places
import PipeCheck.Proofs.Store.Yields

/-!
# Well-formed stores

In a well-formed store every type refers to earlier types only, quantifiers
list variables, each primitive type has one place and each variable a number
of its own.  The tree of a type then unfolds shape by shape, and it stays the
same when the store grows.
-/

namespace PipeCheck

open List PipeCheck.Tree Primitive

namespace Shape

/-- The components of a shape.  The variables that a quantifier lists are not
among them. -/
def components : Shape → List TypeId
  | .primitive _ => []
  | .function domain codomain => [domain, codomain]
  | .list element => [element]
  | .tuple components => components
  | .var _ => []
  | .quantified _ body => [body]

theorem mem_references_of_mem_components {shape : Shape} {id : TypeId}
    (mem : id ∈ shape.components) :
    id ∈ shape.references := by
  cases shape <;> simp_all [components, references]

/-- The serial number of a variable. -/
def number? : Shape → Option Nat
  | .var number => some number
  | _ => none

theorem eq_var_of_number? {shape : Shape} {number : Nat} (isNumber : number ∈ shape.number?) :
    shape = .var number := by
  cases shape <;> simp_all [number?]

end Shape

/-- All primitive types. -/
def Primitive.all : List Primitive :=
  [.unit, .int, .num, .bool, .str, .file, .invalid]

theorem Primitive.mem_all (which : Primitive) : which ∈ all := by
  cases which <;> simp [all]

namespace Store

variable {store later earlier : Store} {id leaf : TypeId}

/-- The conditions that every store meets which is built by allocation. -/
structure WellFormed (store : Store) : Prop where
  /-- A type refers to types before it. -/
  references_lt : ∀ id, ∀ reference ∈ (store.shape id).references, reference < id
  /-- A quantifier lists variables. -/
  binders_var : ∀ {id binders body}, store.shape id = .quantified binders body →
    ∀ binder ∈ binders, ∃ number, store.shape binder = .var number
  /-- A slot holds the only place of its primitive type. -/
  slots_iff : ∀ which id,
    store.slots which = some id ↔ id < store.size ∧ store.shape id = .primitive which
  /-- Different variables have different numbers. -/
  var_injective : ∀ {first second number}, store.shape first = .var number →
    store.shape second = .var number → first = second
  /-- The next number has not been used. -/
  number_lt : ∀ {id number}, store.shape id = .var number → number < store.nextVar

/-- Every quantifier lists each variable once. -/
def DistinctBinders (store : Store) : Prop :=
  ∀ ⦃id binders body⦄, store.shape id = .quantified binders body → binders.Nodup

theorem DistinctBinders.nodup_binders (distinct : store.DistinctBinders) (id : TypeId) :
    (store.binders id).Nodup := by
  unfold binders
  split
  · next shapeEq => exact distinct shapeEq
  · exact nodup_nil

theorem WellFormed.var_of_mem_binders (wf : store.WellFormed) {binder : TypeId}
    (listed : binder ∈ store.binders id) :
    ∃ number, store.shape binder = .var number := by
  unfold binders at listed
  split at listed
  · next shapeEq => exact wf.binders_var shapeEq binder listed
  · cases listed

/-- The later store has all types of the earlier one in their places. -/
structure Extends (later earlier : Store) : Prop where
  /-- No type is lost. -/
  size_le : earlier.size ≤ later.size
  /-- None has changed. -/
  shape_eq : ∀ {id}, id < earlier.size → later.shape id = earlier.shape id

theorem Extends.refl (store : Store) : store.Extends store :=
  ⟨Nat.le_refl _, fun _ => rfl⟩

theorem Extends.trans {first second third : Store}
    (thirdSecond : third.Extends second) (secondFirst : second.Extends first) :
    third.Extends first := by
  refine ⟨Nat.le_trans secondFirst.size_le thirdSecond.size_le, ?_⟩
  intro id inside
  rw [thirdSecond.shape_eq (Nat.lt_of_lt_of_le inside secondFirst.size_le),
    secondFirst.shape_eq inside]

theorem Extends.inside (grown : later.Extends earlier) (inside : id < earlier.size) :
    id < later.size :=
  Nat.lt_of_lt_of_le inside grown.size_le

/-- Outside the store there is only the invalid type. -/
theorem shape_of_size_le (outside : store.size ≤ id) :
    store.shape id = .primitive .invalid := by
  unfold size at outside
  simp [shape, outside]

/-- An index with any other shape lies in the store. -/
theorem lt_size_of_shape {shape : Shape} (shapeEq : store.shape id = shape)
    (other : shape ≠ .primitive .invalid) :
    id < store.size := by
  by_contra outside
  rw [shape_of_size_le (Nat.le_of_not_lt outside)] at shapeEq
  exact other shapeEq.symm

theorem exists_shape_eq_var (isVar : store.kind id = .var) :
    ∃ number, store.shape id = .var number := by
  unfold kind at isVar
  cases shapeEq : store.shape id <;> rw [shapeEq] at isVar <;> cases isVar
  exact ⟨_, rfl⟩

theorem exists_shape_eq_quantified (isQuantified : store.kind id = .quantified) :
    ∃ binders body, store.shape id = .quantified binders body := by
  unfold kind at isQuantified
  cases shapeEq : store.shape id <;> rw [shapeEq] at isQuantified <;> cases isQuantified
  exact ⟨_, _, rfl⟩

section Checking

/-- The conditions of a well-formed store, asked of the stored types only. -/
def Checks (store : Store) : Prop :=
  (∀ id < store.size, ∀ reference ∈ (store.shape id).references, reference < id) ∧
  (∀ id < store.size, ∀ binder ∈ store.binders id, store.kind binder = .var) ∧
  (∀ which ∈ Primitive.all, ∀ id ∈ store.slots which,
    id < store.size ∧ store.shape id = .primitive which) ∧
  (∀ id < store.size, ∀ which ∈ Primitive.all, store.shape id = .primitive which →
    store.slots which = some id) ∧
  (∀ first < store.size, ∀ second < store.size, store.kind first = .var →
    store.shape first = store.shape second → first = second) ∧
  ∀ id < store.size, ∀ number ∈ (store.shape id).number?, number < store.nextVar

instance (store : Store) : Decidable store.Checks :=
  inferInstanceAs (Decidable (_ ∧ _))

theorem wellFormed_iff_checks : store.WellFormed ↔ store.Checks := by
  constructor
  · intro wf
    refine ⟨fun id _ => wf.references_lt id, ?_, ?_, ?_, ?_, ?_⟩
    · intro id _ binder mem
      unfold binders at mem
      split at mem
      · next shapeEq =>
          obtain ⟨number, isVar⟩ := wf.binders_var shapeEq binder mem
          rw [kind, isVar, Shape.kind]
      · simp at mem
    · intro which _ id slot
      exact (wf.slots_iff which id).1 slot
    · intro id inside which _ shapeEq
      exact (wf.slots_iff which id).2 ⟨inside, shapeEq⟩
    · intro first _ second _ isVar same
      obtain ⟨number, shapeEq⟩ := exists_shape_eq_var isVar
      exact wf.var_injective shapeEq (same ▸ shapeEq)
    · intro id _ number isNumber
      exact wf.number_lt (Shape.eq_var_of_number? isNumber)
  · rintro ⟨references_lt, binders_var, slot_shape, shape_slot, var_injective, number_lt⟩
    refine ⟨?_, ?_, ?_, ?_, ?_⟩
    · intro id reference mem
      by_cases inside : id < store.size
      · exact references_lt id inside reference mem
      · rw [shape_of_size_le (Nat.le_of_not_lt inside)] at mem
        simp [Shape.references] at mem
    · intro id binders body shapeEq binder mem
      have inside := lt_size_of_shape shapeEq (by simp)
      refine exists_shape_eq_var (binders_var id inside binder ?_)
      simpa [Store.binders, shapeEq] using mem
    · intro which id
      constructor
      · exact slot_shape which (mem_all which) id
      · rintro ⟨inside, shapeEq⟩
        exact shape_slot id inside which (mem_all which) shapeEq
    · intro first second number firstEq secondEq
      refine var_injective first (lt_size_of_shape firstEq (by simp)) second
        (lt_size_of_shape secondEq (by simp)) ?_ (firstEq.trans secondEq.symm)
      rw [kind, firstEq, Shape.kind]
    · intro id number shapeEq
      refine number_lt id (lt_size_of_shape shapeEq (by simp)) number ?_
      rw [shapeEq]
      rfl

instance (store : Store) : Decidable store.WellFormed :=
  decidable_of_iff store.Checks wellFormed_iff_checks.symm

end Checking

/-- A stored type without free variables. -/
def ClosedType (store : Store) (id : TypeId) : Prop :=
  id < store.size ∧ (store.tree id).Closed

/-- All these types are variables. -/
abbrev Vars (store : Store) (ids : List TypeId) : Prop :=
  ∀ id ∈ ids, ∃ number, store.shape id = .var number

section Unfolding

variable {store : Store} {id : TypeId}

theorem WellFormed.component_lt (wf : store.WellFormed) {part : TypeId}
    (mem : part ∈ (store.shape id).components) :
    part < id :=
  wf.references_lt id part (Shape.mem_references_of_mem_components mem)

section

variable (wf : store.WellFormed) {binders : List TypeId} {domain codomain element body : TypeId}
include wf

theorem WellFormed.domain_lt (shapeEq : store.shape id = .function domain codomain) :
    domain < id :=
  wf.component_lt (by simp [shapeEq, Shape.components])

theorem WellFormed.codomain_lt (shapeEq : store.shape id = .function domain codomain) :
    codomain < id :=
  wf.component_lt (by simp [shapeEq, Shape.components])

theorem WellFormed.element_lt (shapeEq : store.shape id = .list element) : element < id :=
  wf.component_lt (by simp [shapeEq, Shape.components])

theorem WellFormed.part_lt {parts : List TypeId} (shapeEq : store.shape id = .tuple parts)
    {part : TypeId} (mem : part ∈ parts) :
    part < id :=
  wf.component_lt (by simpa [shapeEq, Shape.components] using mem)

theorem WellFormed.body_lt (shapeEq : store.shape id = .quantified binders body) : body < id :=
  wf.component_lt (by simp [shapeEq, Shape.components])

end

theorem WellFormed.component_inside (wf : store.WellFormed) (inside : id < store.size) :
    ∀ part ∈ (store.shape id).components, part < store.size :=
  fun _ mem => Nat.lt_trans (wf.component_lt mem) inside

/-- The tree of a type depends on the shapes up to its index only, and any
height above the index unfolds all of it. -/
theorem WellFormed.treeWithin_congr (wf : store.WellFormed) {other : Store}
    (agree : ∀ place ≤ id, other.shape place = store.shape place)
    {height otherHeight : Nat} (enough : id < height) (otherEnough : id < otherHeight) :
    other.treeWithin otherHeight id = store.treeWithin height id := by
  induction id using Nat.strongRecOn generalizing height otherHeight with
  | ind id ih =>
    obtain ⟨height, rfl⟩ := Nat.exists_eq_add_one.2 (Nat.zero_lt_of_lt enough)
    obtain ⟨otherHeight, rfl⟩ := Nat.exists_eq_add_one.2 (Nat.zero_lt_of_lt otherEnough)
    have unfoldPart : ∀ part ∈ (store.shape id).components,
        other.treeWithin otherHeight part = store.treeWithin height part := by
      intro part mem
      have below := wf.component_lt mem
      exact ih part below
        (fun place before => agree place (Nat.le_trans before (Nat.le_of_lt below)))
        (Nat.lt_of_lt_of_le below (Nat.le_of_lt_succ enough))
        (Nat.lt_of_lt_of_le below (Nat.le_of_lt_succ otherEnough))
    simp only [treeWithin, agree id (Nat.le_refl id)]
    cases shapeEq : store.shape id with
    | primitive which => rfl
    | function domain codomain =>
      simp only [shapeEq, Shape.components] at unfoldPart
      simp [unfoldPart domain (by simp), unfoldPart codomain (by simp)]
    | list element =>
      simp only [shapeEq, Shape.components] at unfoldPart
      simp [unfoldPart element (by simp)]
    | tuple components =>
      simp only [shapeEq, Shape.components] at unfoldPart
      simp only [tuple.injEq]
      exact map_congr_left unfoldPart
    | var number => rfl
    | quantified binders body =>
      simp only [shapeEq, Shape.components] at unfoldPart
      simp [unfoldPart body (by simp)]

theorem WellFormed.treeWithin_eq_tree (wf : store.WellFormed) {height : Nat}
    (enough : id < height) :
    store.treeWithin height id = store.tree id :=
  wf.treeWithin_congr (fun _ _ => rfl) (Nat.lt_succ_self id) enough

theorem tree_of_primitive {which : Primitive} (shapeEq : store.shape id = .primitive which) :
    store.tree id = .primitive which := by
  simp [tree, treeWithin, shapeEq]

theorem tree_of_var {number : Nat} (shapeEq : store.shape id = .var number) :
    store.tree id = .var id := by
  simp [tree, treeWithin, shapeEq]

theorem kind_tree (store : Store) (id : TypeId) : (store.tree id).kind = store.kind id := by
  rw [kind, tree, treeWithin]
  cases store.shape id <;> rfl

section

variable (wf : store.WellFormed)

include wf

theorem WellFormed.tree_of_function
    {domain codomain : TypeId} (shapeEq : store.shape id = .function domain codomain) :
    store.tree id = .function (store.tree domain) (store.tree codomain) := by
  rw [tree, treeWithin, shapeEq]
  simp only [wf.treeWithin_eq_tree (wf.domain_lt shapeEq),
    wf.treeWithin_eq_tree (wf.codomain_lt shapeEq)]

theorem WellFormed.tree_of_list {element : TypeId} (shapeEq : store.shape id = .list element) :
    store.tree id = .list (store.tree element) := by
  rw [tree, treeWithin, shapeEq]
  simp only [wf.treeWithin_eq_tree (wf.element_lt shapeEq)]

theorem WellFormed.tree_of_tuple
    {components : List TypeId} (shapeEq : store.shape id = .tuple components) :
    store.tree id = .tuple (components.map store.tree) := by
  rw [tree, treeWithin, shapeEq]
  simp only [tuple.injEq]
  apply map_congr_left
  intro part mem
  apply wf.treeWithin_eq_tree
  exact wf.part_lt shapeEq mem

theorem WellFormed.tree_of_quantified
    {binders : List TypeId} {body : TypeId} (shapeEq : store.shape id = .quantified binders body) :
    store.tree id = .quantified binders (store.tree body) := by
  rw [tree, treeWithin, shapeEq]
  simp only [wf.treeWithin_eq_tree (wf.body_lt shapeEq)]

theorem WellFormed.shape_of_tree_function
    {domain codomain : Tree} (treeEq : store.tree id = .function domain codomain) :
    ∃ domainId codomainId, store.shape id = .function domainId codomainId ∧
      store.tree domainId = domain ∧ store.tree codomainId = codomain := by
  have kinds := store.kind_tree id
  rw [treeEq, kind] at kinds
  cases shapeEq : store.shape id <;> rw [shapeEq] at kinds <;> cases kinds
  rw [wf.tree_of_function shapeEq, function.injEq] at treeEq
  exact ⟨_, _, rfl, treeEq⟩

theorem WellFormed.shape_of_tree_quantified
    {binders : List TypeId} {body : Tree} (treeEq : store.tree id = .quantified binders body) :
    ∃ bodyId, store.shape id = .quantified binders bodyId ∧ store.tree bodyId = body := by
  have kinds := store.kind_tree id
  rw [treeEq, kind] at kinds
  cases shapeEq : store.shape id <;> rw [shapeEq] at kinds <;> cases kinds
  rw [wf.tree_of_quantified shapeEq, quantified.injEq] at treeEq
  exact ⟨_, by rw [treeEq.1], treeEq.2⟩

theorem WellFormed.tree_body (id : TypeId) :
    store.tree (store.body id) = (store.tree id).body := by
  unfold body
  cases shapeEq : store.shape id with
  | primitive which => simp [tree_of_primitive shapeEq, Tree.body]
  | function domain codomain => simp [wf.tree_of_function shapeEq, Tree.body]
  | list element => simp [wf.tree_of_list shapeEq, Tree.body]
  | tuple components => simp [wf.tree_of_tuple shapeEq, Tree.body]
  | var number => simp [tree_of_var shapeEq, Tree.body]
  | quantified binders body => simp [wf.tree_of_quantified shapeEq, Tree.body]

theorem WellFormed.binders_tree (id : TypeId) :
    (store.tree id).binders = store.binders id := by
  unfold binders
  cases shapeEq : store.shape id with
  | primitive which => simp [tree_of_primitive shapeEq, Tree.binders]
  | function domain codomain => simp [wf.tree_of_function shapeEq, Tree.binders]
  | list element => simp [wf.tree_of_list shapeEq, Tree.binders]
  | tuple components => simp [wf.tree_of_tuple shapeEq, Tree.binders]
  | var number => simp [tree_of_var shapeEq, Tree.binders]
  | quantified binders body => simp [wf.tree_of_quantified shapeEq, Tree.binders]

theorem WellFormed.body_inside (inside : id < store.size) :
    store.body id < store.size := by
  unfold body
  split
  · next binders body shapeEq => exact Nat.lt_trans (wf.body_lt shapeEq) inside
  · exact inside

theorem WellFormed.children_tree (id : TypeId) :
    (store.tree id).children = (store.shape id).components.map store.tree := by
  cases shapeEq : store.shape id with
  | primitive which =>
    rw [tree_of_primitive shapeEq]
    rfl
  | function domain codomain =>
    rw [wf.tree_of_function shapeEq]
    rfl
  | list element =>
    rw [wf.tree_of_list shapeEq]
    rfl
  | tuple components =>
    rw [wf.tree_of_tuple shapeEq]
    rfl
  | var number =>
    rw [tree_of_var shapeEq]
    rfl
  | quantified binders body =>
    rw [wf.tree_of_quantified shapeEq]
    rfl

theorem WellFormed.tree_mem_children {part : TypeId} (mem : part ∈ (store.shape id).components) :
    store.tree part ∈ (store.tree id).children := by
  rw [wf.children_tree]
  exact mem_map_of_mem mem

section

variable (occurs : leaf ∈ (store.tree id).occurrences)

include occurs

/-- A variable that occurs in a type is the type itself or occurs in a
component. -/
theorem WellFormed.mem_occurrences_cases :
    (leaf = id ∧ ∃ number, store.shape id = .var number) ∨
      ∃ part ∈ (store.shape id).components,
        leaf ∈ (store.tree part).occurrences := by
  cases shapeEq : store.shape id with
  | primitive which =>
    rw [tree_of_primitive shapeEq] at occurs
    simp [occurrences] at occurs
  | function domain codomain =>
    rw [wf.tree_of_function shapeEq, occurrences, mem_append] at occurs
    rcases occurs with inDomain | inCodomain
    · exact .inr ⟨domain, by simp [Shape.components], inDomain⟩
    · exact .inr ⟨codomain, by simp [Shape.components], inCodomain⟩
  | list element =>
    rw [wf.tree_of_list shapeEq] at occurs
    exact .inr ⟨element, by simp [Shape.components], occurs⟩
  | tuple components =>
    rw [wf.tree_of_tuple shapeEq] at occurs
    simp only [occurrences, occurrencesAll_eq_flatMap, mem_flatMap, mem_map] at occurs
    obtain ⟨_, ⟨part, mem, rfl⟩, inPart⟩ := occurs
    exact .inr ⟨part, mem, inPart⟩
  | var number =>
    rw [tree_of_var shapeEq] at occurs
    exact .inl ⟨mem_singleton.1 occurs, number, rfl⟩
  | quantified binders body =>
    rw [wf.tree_of_quantified shapeEq] at occurs
    simp only [occurrences, mem_filter] at occurs
    exact .inr ⟨body, by simp [Shape.components], occurs.1⟩

/-- A variable that occurs in a tree is a variable of the store, not after the
type itself. -/
theorem WellFormed.var_of_mem_occurrences :
    leaf ≤ id ∧ ∃ number, store.shape leaf = .var number := by
  induction id using Nat.strongRecOn with
  | ind id ih =>
    rcases wf.mem_occurrences_cases occurs with
      ⟨rfl, isVar⟩ | ⟨part, mem, inPart⟩
    · exact ⟨Nat.le_refl _, isVar⟩
    · have below := wf.component_lt mem
      obtain ⟨bound, isVar⟩ := ih part below inPart
      exact ⟨Nat.le_trans bound (Nat.le_of_lt below), isVar⟩

/-- A variable that occurs in the tree of a stored type lies in the store. -/
theorem WellFormed.inside_of_mem_occurrences :
    leaf < store.size := by
  obtain ⟨_, number, shapeEq⟩ := wf.var_of_mem_occurrences occurs
  exact lt_size_of_shape shapeEq (by simp)

end

/-- The quantifiers inside a stored type list variables of the store. -/
theorem WellFormed.scope_inside {scopes : List (List TypeId)}
    (outside : ∀ listed ∈ scopes.flatten, listed < store.size) {place : Tree.Place}
    (mem : place ∈ (store.tree id).placesUnder scopes) :
    ∀ listed ∈ place.scopes.flatten, listed < store.size := by
  induction id using Nat.strongRecOn generalizing scopes with
  | ind id ih =>
    rcases mem_placesUnder_cases mem with ⟨_, scopesEq⟩ | ⟨child, isChild, inChild⟩
    · exact scopesEq ▸ outside
    · rw [wf.children_tree, mem_map] at isChild
      obtain ⟨part, isPart, rfl⟩ := isChild
      refine ih part (wf.component_lt isPart) ?_ inChild
      intro listed listedBelow
      rw [flatten_scopesBelow, mem_append, wf.binders_tree] at listedBelow
      rcases listedBelow with isBinder | above
      · obtain ⟨number, isVar⟩ := wf.var_of_mem_binders isBinder
        exact lt_size_of_shape isVar (by simp)
      · exact outside listed above

end

/-- A property that a type hands on to its components, unless it is
quantified. -/
def Hereditary (store : Store) (holds : TypeId → Prop) : Prop :=
  ∀ ⦃id component⦄, holds id → store.kind id ≠ .quantified →
    component ∈ (store.shape id).components → holds component

theorem WellFormed.hereditary_quantifierFree (wf : store.WellFormed) :
    store.Hereditary fun id => (store.tree id).quantifierFree :=
  fun _ _ free _ mem => quantifierFree_of_mem_children free (wf.tree_mem_children mem)

/-- Outside quantifiers the variables of a part are variables of the whole. -/
theorem WellFormed.hereditary_occurrences (wf : store.WellFormed) (holds : TypeId → Prop) :
    store.Hereditary fun id => ∀ leaf ∈ (store.tree id).occurrences, holds leaf := by
  intro id part all notQuantified mem leaf occurs
  rw [← Store.kind_tree] at notQuantified
  exact all leaf (mem_occurrences_of_mem_children (wf.tree_mem_children mem) notQuantified occurs)

end Unfolding

/-- The tree of a type does not depend on what comes after it. -/
theorem Extends.tree_eq (grown : later.Extends earlier) (wf : earlier.WellFormed)
    (inside : id < earlier.size) :
    later.tree id = earlier.tree id := by
  apply wf.treeWithin_congr _ (Nat.lt_succ_self id) (Nat.lt_succ_self id)
  intro place before
  exact grown.shape_eq (Nat.lt_of_le_of_lt before inside)

theorem Extends.closedType (grown : later.Extends earlier) (wf : earlier.WellFormed)
    (closed : earlier.ClosedType id) :
    later.ClosedType id := by
  refine ⟨grown.inside closed.1, ?_⟩
  rw [grown.tree_eq wf closed.1]
  exact closed.2

end Store
end PipeCheck
