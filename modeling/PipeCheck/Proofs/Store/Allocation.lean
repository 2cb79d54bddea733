import PipeCheck.Proofs.Store.WellFormed

/-!
# What allocation leaves behind

Each way to create a type leaves a well-formed store that extends the one
before, and the new type has the tree its name promises.  `Follows` is the part
of this that every computation keeps, whatever it returns.
-/

namespace PipeCheck
namespace Store

/-- A later store is well-formed, has all types of the earlier one, and lists
variables without repetition if the earlier one did. -/
structure Follows (later earlier : Store) : Prop where
  /-- No type has changed. -/
  grown : later.Extends earlier
  /-- The store is in order. -/
  wellFormed : later.WellFormed
  /-- Binders stay distinct. -/
  distinct : earlier.DistinctBinders → later.DistinctBinders

/-- A later store follows the earlier one and holds a type with a given
tree. -/
structure Builds (earlier later : Store) (id : TypeId) (tree : Tree) : Prop
    extends later.Follows earlier where
  /-- The type is stored. -/
  inside : id < later.size
  /-- It has the tree. -/
  tree_eq : later.tree id = tree

theorem WellFormed.follows_self {store : Store} (wf : store.WellFormed) :
    store.Follows store :=
  ⟨Extends.refl store, wf, id⟩

theorem Follows.trans {first second third : Store}
    (thirdSecond : third.Follows second) (secondFirst : second.Follows first) :
    third.Follows first :=
  ⟨thirdSecond.grown.trans secondFirst.grown, thirdSecond.wellFormed,
    thirdSecond.distinct ∘ secondFirst.distinct⟩

theorem Follows.builds {first second third : Store} {id : TypeId} {tree : Tree}
    (built : second.Builds third id tree) (follows : second.Follows first) :
    first.Builds third id tree :=
  ⟨built.toFollows.trans follows, built.inside, built.tree_eq⟩

/-- A type that is there already. -/
theorem WellFormed.builds_self {store : Store} (wf : store.WellFormed)
    {id : TypeId} (inside : id < store.size) :
    store.Builds store id (store.tree id) :=
  ⟨wf.follows_self, inside, rfl⟩

theorem shape_extend (store : Store) (shape : Shape) (id : TypeId) :
    (store.extend shape).shape id = if id = store.size then shape else store.shape id := by
  by_cases last : id = store.size
  · subst last
    simp
  · rw [if_neg last]
    by_cases inside : id < store.size
    · exact shape_extend_of_lt store shape inside
    · have outside : store.size < id := Nat.lt_of_le_of_ne (Nat.le_of_not_lt inside) (Ne.symm last)
      rw [shape_of_size_le (Nat.le_of_lt outside), shape_of_size_le]
      rw [size_extend]
      exact outside

/-- The empty store is well-formed. -/
theorem wellFormed_empty : empty.WellFormed where
  references_lt id reference member := by
    rw [shape_of_size_le (Nat.zero_le id)] at member
    simp [Shape.references] at member
  binders_var {id binders body} shapeEq := by
    rw [shape_of_size_le (Nat.zero_le id)] at shapeEq
    cases shapeEq
  slots_iff which id := by simp [empty, size]
  var_injective {first second number} shapeEq := by
    rw [shape_of_size_le (Nat.zero_le first)] at shapeEq
    cases shapeEq
  number_lt {id number} shapeEq := by
    rw [shape_of_size_le (Nat.zero_le id)] at shapeEq
    cases shapeEq

theorem distinctBinders_empty : empty.DistinctBinders := by
  intro id binders body shapeEq
  rw [shape_of_size_le (Nat.zero_le id)] at shapeEq
  cases shapeEq

/-- The components of a shape are stored, and it lists stored variables. -/
structure Fits (store : Store) (shape : Shape) : Prop where
  /-- What the shape refers to is stored. -/
  inside : ∀ reference ∈ shape.references, reference < store.size
  /-- A quantifier lists variables. -/
  binders_var : ∀ {binders body}, shape = .quantified binders body →
    ∀ binder ∈ binders, ∃ number, store.shape binder = .var number

theorem fits_quantified {store : Store} {binders : List TypeId} {body : TypeId}
    (bodyInside : body < store.size) (vars : store.Vars binders) :
    store.Fits (.quantified binders body) := by
  refine ⟨?_, ?_⟩
  · intro reference member
    simp only [Shape.references, List.mem_append, List.mem_singleton] at member
    rcases member with listed | rfl
    · obtain ⟨number, isVar⟩ := vars reference listed
      exact lt_size_of_shape isVar (by simp)
    · exact bodyInside
  · intro otherBinders otherBody same
    cases same
    exact vars

/-- A store has one more shape, with the slots and the counter brought up to
date. -/
structure Appends (later store : Store) (shape : Shape) : Prop where
  /-- There is one more type. -/
  size_eq : later.size = store.size + 1
  /-- It has the shape, and no other has changed. -/
  shape_eq : ∀ id, later.shape id = if id = store.size then shape else store.shape id
  /-- A primitive type gets its slot. -/
  slots_iff : ∀ which id, later.slots which = some id ↔
    store.slots which = some id ∨ id = store.size ∧ shape = .primitive which
  /-- A variable gets an unused number. -/
  number_fresh : ∀ {number}, shape = .var number → store.nextVar ≤ number ∧ number < later.nextVar
  /-- Used numbers stay used. -/
  nextVar_le : store.nextVar ≤ later.nextVar

namespace Appends

variable {later store : Store} {shape : Shape}

section

variable (appends : later.Appends store shape)

include appends

theorem shape_last :
    later.shape store.size = shape := by
  rw [appends.shape_eq, if_pos rfl]

theorem grown : later.Extends store := by
  refine ⟨?_, ?_⟩
  · rw [appends.size_eq]
    exact Nat.le_succ _
  · intro id inside
    rw [appends.shape_eq, if_neg (Nat.ne_of_lt inside)]

theorem last_inside : store.size < later.size := by
  rw [appends.size_eq]
  exact Nat.lt_succ_self _

theorem wellFormed (wf : store.WellFormed) (fits : store.Fits shape) :
    later.WellFormed where
  references_lt id reference member := by
    rw [appends.shape_eq] at member
    split at member
    · next last => exact last ▸ fits.inside reference member
    · exact wf.references_lt id reference member
  binders_var {id binders body} isQuantified binder member := by
    have earlier : ∃ number, store.shape binder = .var number := by
      rw [appends.shape_eq] at isQuantified
      split at isQuantified
      · exact fits.binders_var isQuantified binder member
      · exact wf.binders_var isQuantified binder member
    obtain ⟨number, isVar⟩ := earlier
    refine ⟨number, ?_⟩
    rw [appends.grown.shape_eq (lt_size_of_shape isVar (by simp)), isVar]
  slots_iff which id := by
    rw [appends.slots_iff, wf.slots_iff, appends.shape_eq, appends.size_eq]
    by_cases last : id = store.size
    · simp [last]
    · have sizeIff : id < store.size + 1 ↔ id < store.size :=
        ⟨fun inside => Nat.lt_of_le_of_ne (Nat.le_of_lt_succ inside) last, Nat.lt_succ_of_lt⟩
      simp [last, sizeIff]
  var_injective {first second number} firstVar secondVar := by
    rw [appends.shape_eq] at firstVar secondVar
    split at firstVar <;> split at secondVar
    · next firstLast secondLast => exact firstLast.trans secondLast.symm
    · have fresh := (appends.number_fresh firstVar).1
      exact absurd (wf.number_lt secondVar) (Nat.not_lt_of_le fresh)
    · have fresh := (appends.number_fresh secondVar).1
      exact absurd (wf.number_lt firstVar) (Nat.not_lt_of_le fresh)
    · exact wf.var_injective firstVar secondVar
  number_lt {id number} isVar := by
    rw [appends.shape_eq] at isVar
    split at isVar
    · exact (appends.number_fresh isVar).2
    · exact Nat.lt_of_lt_of_le (wf.number_lt isVar) appends.nextVar_le

theorem follows (wf : store.WellFormed) (fits : store.Fits shape) (nodup : store.DistinctBinders →
      ∀ {binders body}, shape = .quantified binders body → binders.Nodup) :
    later.Follows store := by
  refine ⟨appends.grown, appends.wellFormed wf fits, ?_⟩
  intro distinct id binders body isQuantified
  rw [appends.shape_eq] at isQuantified
  split at isQuantified
  · exact nodup distinct isQuantified
  · exact distinct isQuantified

end

end Appends

theorem extend_appends (store : Store) {shape : Shape}
    (notPrimitive : ∀ which, shape ≠ .primitive which) (notVar : ∀ number, shape ≠ .var number) :
    (store.extend shape).Appends store shape where
  size_eq := size_extend store shape
  shape_eq := shape_extend store shape
  slots_iff which id := by
    have slotsEq : (store.extend shape).slots which = store.slots which := rfl
    simp [slotsEq, notPrimitive]
  number_fresh isVar := absurd isVar (notVar _)
  nextVar_le := Nat.le_refl _

end Store

namespace Alloc

open Store

variable {store : Store}

section

variable (wf : store.WellFormed)

include wf

/-- A new compound type is the last entry of a store that follows. -/
theorem yields_push {shape : Shape} (fits : store.Fits shape)
    (notPrimitive : ∀ which, shape ≠ .primitive which) (notVar : ∀ number, shape ≠ .var number)
    (nodup : store.DistinctBinders →
      ∀ {binders body}, shape = .quantified binders body → binders.Nodup) :
    Yields (push shape) store fun id later =>
      later.Follows store ∧ id < later.size ∧ later.shape id = shape ∧ id = store.size := by
  have appends := extend_appends store notPrimitive notVar
  exact ⟨appends.follows wf fits nodup, appends.last_inside, appends.shape_last, rfl⟩

theorem yields_function {domain codomain : TypeId}
    (domainInside : domain < store.size) (codomainInside : codomain < store.size) :
    Yields (function domain codomain) store fun id later =>
      store.Builds later id (.function (store.tree domain) (store.tree codomain)) ∧
        id = store.size := by
  have fits : store.Fits (.function domain codomain) :=
    ⟨by simp [Shape.references, domainInside, codomainInside], by simp⟩
  refine (yields_push wf fits (by simp) (by simp) (by simp)).mono ?_
  rintro id later ⟨follows, inside, shapeEq, last⟩
  refine ⟨⟨follows, inside, ?_⟩, last⟩
  rw [follows.wellFormed.tree_of_function shapeEq, follows.grown.tree_eq wf domainInside,
    follows.grown.tree_eq wf codomainInside]

theorem yields_list {element : TypeId} (elementInside : element < store.size) :
    Yields (list element) store fun id later =>
      store.Builds later id (.list (store.tree element)) ∧ id = store.size := by
  have fits : store.Fits (.list element) := ⟨by simp [Shape.references, elementInside], by simp⟩
  refine (yields_push wf fits (by simp) (by simp) (by simp)).mono ?_
  rintro id later ⟨follows, inside, shapeEq, last⟩
  refine ⟨⟨follows, inside, ?_⟩, last⟩
  rw [follows.wellFormed.tree_of_list shapeEq, follows.grown.tree_eq wf elementInside]

theorem yields_tuple {components : List TypeId}
    (partInside : ∀ component ∈ components, component < store.size) :
    Yields (tuple components) store fun id later =>
      store.Builds later id (.tuple (components.map store.tree)) ∧ id = store.size := by
  have fits : store.Fits (.tuple components) :=
    ⟨by simpa [Shape.references] using partInside, by simp⟩
  refine (yields_push wf fits (by simp) (by simp) (by simp)).mono ?_
  rintro id later ⟨follows, inside, shapeEq, last⟩
  refine ⟨⟨follows, inside, ?_⟩, last⟩
  rw [follows.wellFormed.tree_of_tuple shapeEq, Tree.tuple.injEq]
  apply List.map_congr_left
  intro component member
  exact follows.grown.tree_eq wf (partInside component member)

/-- A new quantified type.  Its variables have to be listed without repetition
only where all quantifiers of the store do so. -/
theorem yields_quantified {binders : List TypeId} {body : TypeId} (bodyInside : body < store.size)
    (vars : store.Vars binders) (nodup : store.DistinctBinders → binders.Nodup) :
    Yields (quantified binders body) store fun id later =>
      store.Builds later id (.quantified binders (store.tree body)) ∧
        later.shape id = .quantified binders body ∧ id = store.size := by
  have nodupShape : store.DistinctBinders → ∀ {otherBinders otherBody},
      Shape.quantified binders body = .quantified otherBinders otherBody →
        otherBinders.Nodup := by
    intro distinct otherBinders otherBody same
    cases same
    exact nodup distinct
  refine (yields_push wf (fits_quantified bodyInside vars) (by simp) (by simp) nodupShape).mono ?_
  rintro id later ⟨follows, inside, shapeEq, last⟩
  refine ⟨⟨follows, inside, ?_⟩, shapeEq, last⟩
  rw [follows.wellFormed.tree_of_quantified shapeEq, follows.grown.tree_eq wf bodyInside]

/-- A quantifier over no variable is left out. -/
theorem yields_quantifiedOver {binders : List TypeId} {body : TypeId}
    (bodyInside : body < store.size) (vars : store.Vars binders)
    (nodup : store.DistinctBinders → binders.Nodup) :
    Yields (quantifiedOver binders body) store fun id later =>
      store.Builds later id ((store.tree body).quantifiedOver binders) := by
  unfold quantifiedOver Tree.quantifiedOver
  split
  · exact wf.builds_self bodyInside
  · exact (yields_quantified wf bodyInside vars nodup).mono fun id later yields => yields.1

end

theorem var_appends (store : Store) :
    (var.run store).2.Appends store (.var store.nextVar) := by
  refine ⟨size_extend store _, shape_extend store _, ?_, ?_, Nat.le_succ _⟩
  · intro which id
    have slotsEq : (var.run store).2.slots which = store.slots which := rfl
    simp [slotsEq]
  · intro number isVar
    cases isVar
    exact ⟨Nat.le_refl _, Nat.lt_succ_self _⟩

theorem fits_var (store : Store) (number : Nat) : store.Fits (.var number) :=
  ⟨by simp [Shape.references], by simp⟩

/-- A new variable is the last entry of a store that follows. -/
theorem yields_var (wf : store.WellFormed) :
    Yields var store fun id later =>
      later.Follows store ∧ later.shape id = .var store.nextVar ∧ id = store.size ∧
        later.size = store.size + 1 := by
  have appends := var_appends store
  exact ⟨appends.follows wf (fits_var store _) (by simp), appends.shape_last, rfl, appends.size_eq⟩

theorem run_modifyGet {α : Type} (change : Store → α × Store) :
    (modifyGet change : Alloc α).run store = change store :=
  rfl

theorem primitive_of_slot {which : Primitive} {place : TypeId}
    (slot : store.slots which = some place) :
    (primitive which).run store = (place, store) := by
  rw [primitive, run_modifyGet, slot]

/-- A primitive type without slot is created at the end of the store. -/
theorem primitive_appends {which : Primitive} (slot : store.slots which = none) :
    ((primitive which).run store).1 = store.size ∧
      ((primitive which).run store).2.Appends store (.primitive which) := by
  rw [primitive, run_modifyGet, slot]
  refine ⟨rfl, size_extend store _, shape_extend store _, ?_, by simp, Nat.le_refl _⟩
  intro other id
  by_cases same : other = which
  · subst same
    simp [slot, eq_comm]
  · simp [same, Ne.symm same]

theorem fits_primitive (store : Store) (which : Primitive) : store.Fits (.primitive which) :=
  ⟨by simp [Shape.references], by simp⟩

/-- A primitive type is found in its slot or created there. -/
theorem yields_primitive (wf : store.WellFormed) (which : Primitive) :
    Yields (primitive which) store fun id later =>
      store.Builds later id (.primitive which) := by
  unfold Yields
  cases slot : store.slots which with
  | some place =>
    obtain ⟨inside, isPrimitive⟩ := (wf.slots_iff which place).1 slot
    rw [primitive_of_slot slot]
    exact ⟨wf.follows_self, inside, tree_of_primitive isPrimitive⟩
  | none =>
    obtain ⟨isLast, appends⟩ := primitive_appends slot
    rw [isLast]
    exact ⟨appends.follows wf (fits_primitive store which) (by simp),
      appends.last_inside, tree_of_primitive appends.shape_last⟩

end Alloc
end PipeCheck
