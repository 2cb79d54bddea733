import PipeCheck.Proofs.Typing.Clashes
import PipeCheck.Proofs.Unification.Copies

/-!
# The order of list elements

Where all elements of a list literal must have a common type, each element is
unified with what the elements before it have in common.  The instances of the
type that is found are those that all elements share, so the order of the
elements decides neither whether there is one nor which one it is, up to the
names of bound variables and up to variables that are listed but do not occur.
-/

namespace PipeCheck

open List

namespace Tree

/-- The tree whose outermost quantifier lists, of its variables, those that occur
below it. -/
def condensed (tree : Tree) : Tree :=
  tree.body.quantifiedOver (tree.binders.filter fun id => tree.body.occurrences.contains id)

/-- One tree becomes another when the variables of its outermost quantifier get
other labels. -/
structure Renames (label : TypeId → TypeId) (tree image : Tree) : Prop where
  /-- Different variables get different labels. -/
  injective : Set.InjOn label {id | id ∈ tree.body.occurrences}
  /-- The bodies differ in labels only. -/
  body_eq : image.body = tree.body.relabel label
  /-- Quantified variables stay quantified. -/
  mem_binders_iff : ∀ id ∈ tree.body.occurrences, label id ∈ image.binders ↔ id ∈ tree.binders
  /-- The others keep their labels. -/
  fixes : ∀ id ∈ tree.body.occurrences, id ∉ tree.binders → label id = id

section Generality

variable {tree image : Tree} {label : TypeId → TypeId} {id : TypeId}

section

variable (orderly : tree.Orderly) (free : tree.body.quantifierFree)

include orderly free

theorem Orderly.binders_eq :
    tree.binders =
      (tree.body.occurrences.foldl addNew []).filter fun id => tree.binders.contains id := by
  have bindersEq := congrArg binders orderly
  rwa [binders_quantifiedOver free] at bindersEq

theorem Orderly.binders_subset :
    tree.binders ⊆ tree.body.occurrences := by
  intro id listed
  rw [orderly.binders_eq free, mem_filter] at listed
  exact (mem_foldl_addNew.1 listed.1).resolve_left not_mem_nil

theorem Orderly.condensed_eq :
    tree.condensed = tree.body.quantifiedOver tree.binders := by
  rw [condensed, filter_eq_self.2]
  intro id listed
  simpa using orderly.binders_subset free listed

end

/-- What stands for any tree does so in every tree with the same instances. -/
theorem label_mem_binders_iff (free : tree.body.quantifierFree)
    (bodyEq : image.body = tree.body.relabel label) (same : image.instances = tree.instances)
    (occurs : id ∈ tree.body.occurrences) :
    label id ∈ image.binders ↔ id ∈ tree.binders := by
  have atLeaf : ∀ {first second : TypeId → Tree},
      image.body.replace first = tree.body.replace second → first (label id) = second id := by
    intro first second replaced
    rw [bodyEq, relabel_eq_replace free, replace_replace_of_quantifierFree free] at replaced
    exact eq_of_replace_eq free replaced occurs
  constructor
  · intro listed
    by_contra unlisted
    obtain ⟨assign, replaced⟩ := same.le ⟨fun _ => .primitive .unit, rfl⟩
    have eq := atLeaf replaced.symm
    rw [restrict_of_notMem unlisted, restrict_of_mem listed] at eq
    cases eq
  · intro listed
    by_contra unlisted
    obtain ⟨assign, replaced⟩ := same.ge ⟨fun _ => .primitive .unit, rfl⟩
    have eq := atLeaf replaced
    rw [restrict_of_notMem unlisted, restrict_of_mem listed] at eq
    cases eq

/-- Trees with the same instances become each other by renaming. -/
theorem exists_renames_of_instances_eq (free : tree.body.quantifierFree)
    (same : image.instances = tree.instances) :
    ∃ label, Renames label tree image := by
  obtain ⟨there, thereEq⟩ := same ▸ image.body_mem_instances
  obtain ⟨back, backEq⟩ := same.symm ▸ tree.body_mem_instances
  obtain ⟨label, injective, bodyEq⟩ := exists_relabel_of_replace free thereEq backEq
  refine ⟨label, injective, bodyEq, ?_, ?_⟩
  · intro id occurs
    exact label_mem_binders_iff free bodyEq same occurs
  · intro id occurs unlisted
    simp only [bodyEq, relabel_eq_replace free] at thereEq
    have atLeaf := eq_of_replace_eq free thereEq occurs
    rw [restrict_of_notMem unlisted, var.injEq] at atLeaf
    exact atLeaf.symm

theorem Renames.quantifierFree (renames : Renames label tree image)
    (free : tree.body.quantifierFree) :
    image.body.quantifierFree := by
  rw [renames.body_eq, quantifierFree_relabel]
  exact free

theorem Renames.binders_eq (renames : Renames label tree image)
    (free : tree.body.quantifierFree) (treeOrderly : tree.Orderly) (imageOrderly : image.Orderly) :
    image.binders = tree.binders.map label := by
  have order : image.body.occurrences.foldl addNew [] =
      (tree.body.occurrences.foldl addNew []).map label := by
    rw [renames.body_eq, occurrences_relabel free]
    exact foldl_addNew_map renames.injective (List.Subset.refl _) (nil_subset _)
  have listed : ∀ id ∈ tree.body.occurrences.foldl addNew [],
      image.binders.contains (label id) = tree.binders.contains id := by
    intro id mem
    have occurs := (mem_foldl_addNew.1 mem).resolve_left not_mem_nil
    rw [Bool.eq_iff_iff, contains_iff_mem, contains_iff_mem]
    exact renames.mem_binders_iff id occurs
  calc image.binders
    _ = ((tree.body.occurrences.foldl addNew []).map label).filter
          fun id => image.binders.contains id :=
        order ▸ imageOrderly.binders_eq (renames.quantifierFree free)
    _ = ((tree.body.occurrences.foldl addNew []).filter
          fun id => tree.binders.contains id).map label := by
        rw [filter_map]
        exact congrArg _ (filter_congr listed)
    _ = tree.binders.map label := by rw [← treeOrderly.binders_eq free]

/-- A renamed variable is read at the same place under the renamed quantifier. -/
theorem Renames.read_eq (renames : Renames label tree image)
    (subset : tree.binders ⊆ tree.body.occurrences) (occurs : id ∈ tree.body.occurrences) :
    Place.read ⟨[tree.binders.map label], label id⟩ .free =
      Place.read ⟨[tree.binders], id⟩ .free := by
  by_cases listed : id ∈ tree.binders
  · simp only [Place.read, binderAt?_of_mem listed, binderAt?_of_mem (mem_map_of_mem listed)]
    rw [idxOf_map_of_injOn renames.injective subset occurs]
  · have unlisted : label id ∉ tree.binders.map label :=
      fun mem => listed ((mem_map_iff_of_injOn renames.injective subset occurs).1 mem)
    have isFree : Place.Free ⟨[tree.binders], id⟩ := by simpa [Place.Free] using listed
    have imageFree : Place.Free ⟨[tree.binders.map label], label id⟩ := by
      rw [Place.Free, flatten_singleton]
      exact unlisted
    rw [Place.read_of_free isFree, Place.read_of_free imageFree]
    exact congrArg _ (renames.fixes id occurs listed)

/-- Trees with the same instances that list their variables in order of occurrence
differ in the names of bound variables only. -/
theorem Orderly.alphaEq_of_instances_eq (treeOrderly : tree.Orderly)
    (imageOrderly : image.Orderly) (free : tree.body.quantifierFree)
    (same : image.instances = tree.instances) :
    image.condensed.AlphaEq tree.condensed := by
  obtain ⟨label, renames⟩ := exists_renames_of_instances_eq free same
  have bodyEq : (tree.body.relabel label).namelessUnder [tree.binders.map label] =
      tree.body.namelessUnder [tree.binders] :=
    namelessUnder_relabel_of_read_eq free fun _ occurs =>
      renames.read_eq (treeOrderly.binders_subset free) occurs
  rw [AlphaEq, imageOrderly.condensed_eq (renames.quantifierFree free),
    treeOrderly.condensed_eq free, nameless_quantifiedOver, nameless_quantifiedOver,
    renames.binders_eq free treeOrderly imageOrderly, renames.body_eq, isEmpty_map,
    length_map, bodyEq]

end Generality
end Tree

namespace Store

/-- The trees that are instances of all listed types. -/
def commonInstances (store : Store) (types : List TypeId) : Set Tree :=
  {tree | ∀ type ∈ types, tree ∈ (store.tree type).instances}

/-- A type that stands for several earlier ones: it has their common instances.  It
is one of them only if they are all the same. -/
structure Represents (base store : Store) (types : List TypeId) (common : TypeId) : Prop where
  /-- No type has changed. -/
  follows : store.Follows base
  /-- The type is stored. -/
  inside : common < store.size
  /-- It has no inner quantifier. -/
  quantifierFree : (store.tree common).body.quantifierFree
  /-- It has the common instances. -/
  instances_eq : (store.tree common).instances = base.commonInstances types
  /-- It is all of them, or it lists its variables in order. -/
  origin : (common ∈ types ∧ ∀ type ∈ types, type = common) ∨
    ((∃ first ∈ types, ∃ second ∈ types, first ≠ second) ∧ (store.tree common).Orderly)

/-- What is found of several types: one that stands for all, unless there are none,
or some are invalid, or they have no instance in common. -/
structure Settles (base last : Store) (types : List TypeId) (someInvalid : Bool)
    (found : Option TypeId) : Prop where
  /-- When a type is found. -/
  isSome_iff : found.isSome ↔
    types ≠ [] ∧ someInvalid = false ∧ (base.commonInstances types).Nonempty
  /-- It stands for all. -/
  represents : ∀ common ∈ found, base.Represents last types common

variable {base store last : Store} {types others : List TypeId} {common found type : TypeId}

theorem commonInstances_append (base : Store) (types others : List TypeId) :
    base.commonInstances (types ++ others) =
      base.commonInstances types ∩ base.commonInstances others := by
  ext tree
  exact forall_mem_append

theorem commonInstances_singleton (base : Store) (type : TypeId) :
    base.commonInstances [type] = (base.tree type).instances := by
  ext tree
  exact forall_mem_singleton

theorem commonInstances_perm (perm : types.Perm others) :
    base.commonInstances types = base.commonInstances others := by
  ext tree
  exact forall_congr' fun type => imp_congr_left perm.mem_iff

theorem WellFormed.represents_self (wf : base.WellFormed) (inside : type < base.size)
    (free : (base.tree type).body.quantifierFree) :
    base.Represents base [type] type :=
  ⟨wf.follows_self, inside, free, (base.commonInstances_singleton type).symm,
    .inl ⟨mem_singleton_self type, fun _ => mem_singleton.1⟩⟩

section

variable (represents : base.Represents store types common)

include represents

theorem Represents.nonempty :
    (base.commonInstances types).Nonempty :=
  ⟨_, represents.instances_eq ▸ (store.tree common).body_mem_instances⟩

theorem Represents.types_ne_nil :
    types ≠ [] := by
  rintro rfl
  rcases represents.origin with ⟨mem, _⟩ | ⟨⟨_, mem, _⟩, _⟩ <;> cases mem

/-- What several types and one more have in common. -/
theorem Represents.inter_eq (wf : base.WellFormed) (inside : type < base.size) :
    (store.tree common).instances ∩ (store.tree type).instances =
      base.commonInstances (types ++ [type]) := by
  rw [represents.instances_eq, represents.follows.grown.tree_eq wf inside,
    commonInstances_append, commonInstances_singleton]

/-- What is found of a type that stands for several and of one more stands for all
of them. -/
theorem Represents.join (wf : base.WellFormed) (inside : type < base.size)
    (joins : Joins store last common type (some found)) :
    base.Represents last (types ++ [type]) found := by
  have instancesEq := (joins.instances_eq found rfl).trans (represents.inter_eq wf inside)
  refine ⟨joins.follows.trans represents.follows, joins.inside found rfl,
    joins.quantifierFree found rfl, instancesEq, ?_⟩
  have typeMem : type ∈ types ++ [type] := by simp
  by_cases same : common = type
  -- A type that stands for the earlier ones already is kept as it is.
  · obtain rfl : found = common := Option.some.inj (joins.self same)
    have treeEq : last.tree found = store.tree found :=
      joins.follows.grown.tree_eq represents.follows.wellFormed represents.inside
    rcases represents.origin with ⟨_, all⟩ | ⟨⟨first, firstMem, second, secondMem, ne⟩, orderly⟩
    · refine .inl ⟨same ▸ typeMem, ?_⟩
      rw [forall_mem_append, forall_mem_singleton]
      exact ⟨all, same.symm⟩
    · exact .inr ⟨⟨first, mem_append_left _ firstMem, second,
        mem_append_left _ secondMem, ne⟩, treeEq ▸ orderly⟩
  · refine .inr ⟨?_, joins.orderly same found rfl⟩
    rcases represents.origin with ⟨mem, _⟩ | ⟨⟨first, firstMem, second, secondMem, ne⟩, _⟩
    · exact ⟨common, mem_append_left _ mem, type, typeMem, same⟩
    · exact ⟨first, mem_append_left _ firstMem, second, mem_append_left _ secondMem, ne⟩

end

/-- Types that stand for the same earlier ones differ in the names of bound
variables and in unused ones only. -/
theorem Represents.alphaEq {otherLast : Store} {other : TypeId}
    (represents : base.Represents last types common)
    (otherRepresents : base.Represents otherLast others other) (wf : base.WellFormed)
    (inside : ∀ type ∈ types, type < base.size) (perm : types.Perm others) :
    (last.tree common).condensed.AlphaEq (otherLast.tree other).condensed := by
  have same : (last.tree common).instances = (otherLast.tree other).instances := by
    rw [represents.instances_eq, otherRepresents.instances_eq, commonInstances_perm perm]
  rcases represents.origin with ⟨mem, all⟩ | ⟨⟨first, firstMem, second, secondMem, ne⟩, orderly⟩
  · rcases otherRepresents.origin with
      ⟨otherMem, _⟩ | ⟨⟨first, firstMem, second, secondMem, ne⟩, _⟩
    -- All types are one and the same, and it was stored before.
    · obtain rfl := all other (perm.mem_iff.2 otherMem)
      rw [represents.follows.grown.tree_eq wf (inside _ mem),
        otherRepresents.follows.grown.tree_eq wf (inside _ mem)]
      rfl
    · exact absurd ((all first (perm.mem_iff.2 firstMem)).trans
        (all second (perm.mem_iff.2 secondMem)).symm) ne
  · rcases otherRepresents.origin with ⟨_, otherAll⟩ | ⟨_, otherOrderly⟩
    · exact absurd ((otherAll first (perm.mem_iff.1 firstMem)).trans
        (otherAll second (perm.mem_iff.1 secondMem)).symm) ne
    · exact otherOrderly.alphaEq_of_instances_eq orderly otherRepresents.quantifierFree same

end Store

namespace Typing

open Store

variable {base : Store} {progress : Progress} {types : List TypeId} {common : TypeId}
  {elements permuted : List (TypeId × Span)}

/-- What has been found stands for the elements so far, unless one of them is invalid. -/
structure Ongoing (base : Store) (types : List TypeId) (someInvalid : Bool)
    (common : Option TypeId) (sawInvalid : Bool) (rest : List (TypeId × Span))
    (progress : Progress) : Prop where
  /-- The elements that are left were stored before, with quantifiers at the outside only. -/
  earlier : ∀ element ∈ rest, element.1 < base.size ∧ (base.tree element.1).body.quantifierFree
  /-- Whether an invalid element has been met or is left. -/
  invalid_eq : (sawInvalid || rest.any fun element => base.isInvalid element.1) = someInvalid
  /-- The common type so far. -/
  found : match common with
    | none => progress.store = base ∧ (sawInvalid = false → rest.map Prod.fst = types)
    | some id => ∃ joined, base.Represents progress.store joined id ∧
      (sawInvalid = false → joined ++ rest.map Prod.fst = types)

theorem Ongoing.follows {found : Option TypeId} {someInvalid sawInvalid : Bool}
    (ongoing : Ongoing base types someInvalid found sawInvalid elements progress)
    (wf : base.WellFormed) :
    progress.store.Follows base := by
  have found := ongoing.found
  split at found
  · exact found.1 ▸ wf.follows_self
  · obtain ⟨_, represents, _⟩ := found
    exact represents.follows

theorem elementLoop_settles (wf : base.WellFormed) (types : List TypeId) (someInvalid : Bool) :
    ElementLoop (fun _ => Ongoing base types someInvalid)
      fun found last => base.Settles last.store types someInvalid found where
  done := by
    rintro _ common sawInvalid state ⟨_, rfl, found⟩
    cases sawInvalid with
    | true => exact ⟨by simp, by simp⟩
    | false =>
      cases common with
      | none =>
        obtain rfl := found.2 rfl
        exact ⟨by simp, by simp⟩
      | some id =>
        obtain ⟨joined, represents, typesEq⟩ := found
        obtain rfl : joined = types := by simpa using typesEq rfl
        refine ⟨by simp [represents.types_ne_nil, represents.nonempty], ?_⟩
        rintro _ ⟨⟩
        exact represents
  passes := by
    intro _ common _ type span rest state ongoing isInvalid
    obtain ⟨⟨inside, _⟩, earlier⟩ := forall_mem_cons.1 ongoing.earlier
    have invalidEq := ongoing.invalid_eq
    rw [((ongoing.follows wf).coincide wf).isInvalid_eq inside] at isInvalid
    refine ⟨earlier, by simpa [isInvalid] using invalidEq, ?_⟩
    have found := ongoing.found
    cases common with
    | none => exact ⟨found.1, by simp⟩
    | some id =>
      obtain ⟨joined, represents, _⟩ := found
      exact ⟨joined, represents, by simp⟩
  starts := by
    rintro _ _ type span rest state ⟨earlier, invalidEq, rfl, typesEq⟩ notInvalid
    obtain ⟨⟨inside, free⟩, earlier⟩ := forall_mem_cons.1 earlier
    exact ⟨earlier, by simpa [notInvalid] using invalidEq, [type], wf.represents_self inside free,
      typesEq⟩
  joins := by
    intro _ previous sawInvalid type span rest state ongoing notInvalid
    obtain ⟨⟨inside, free⟩, earlier⟩ := forall_mem_cons.1 ongoing.earlier
    have follows := ongoing.follows wf
    obtain ⟨joined, represents, typesEq⟩ := ongoing.found
    have invalidEq := ongoing.invalid_eq
    rw [(follows.coincide wf).isInvalid_eq inside] at notInvalid
    refine (yields_unify_joins follows.wellFormed represents.inside (follows.grown.inside inside)
      represents.quantifierFree (follows.grown.tree_eq wf inside ▸ free)).mono ?_
    intro unified last joins
    cases unified with
    | some unified =>
      exact ⟨earlier, by simpa [notInvalid] using invalidEq, joined ++ [type],
        represents.join wf inside joins, by simpa using typesEq⟩
    | none =>
      have nothing : base.commonInstances (joined ++ [type]) = ∅ := by
        rw [← Set.not_nonempty_iff_eq_empty, ← represents.inter_eq wf inside, ← joins.isSome_iff]
        simp
      refine ⟨?_, by simp⟩
      cases sawInvalid with
      | true => simp [← invalidEq]
      | false =>
        have split : types = (joined ++ [type]) ++ rest.map Prod.fst := by simp [← typesEq rfl]
        rw [split, commonInstances_append, nothing, Set.empty_inter]
        simp

theorem succeeds_commonType_settles (wf : progress.store.WellFormed)
    (inside : ∀ element ∈ elements, element.1 < progress.store.size)
    (free : ∀ element ∈ elements, (progress.store.tree element.1).body.quantifierFree) :
    Succeeds (elementType .unify elements) progress fun found last =>
      progress.store.Settles last.store (elements.map Prod.fst)
        (elements.any fun element => progress.store.isInvalid element.1) found :=
  (elementLoop_settles wf _ _).succeeds
    ⟨fun element mem => ⟨inside element mem, free element mem⟩, rfl, rfl, fun _ => rfl⟩

/-- The order of the elements of a list literal decides neither whether they have a
common type nor which one it is, up to the names of bound variables and up to
variables that are listed but do not occur. -/
theorem elementType_perm (wellFormed : progress.store.WellFormed)
    (inside : ∀ element ∈ elements, element.1 < progress.store.size)
    (free : ∀ element ∈ elements, (progress.store.tree element.1).body.quantifierFree)
    (perm : elements.Perm permuted) :
    Succeeds (elementType .unify elements) progress fun found last =>
      Succeeds (elementType .unify permuted) progress fun other otherLast =>
        (found.isSome ↔ other.isSome) ∧
          ∀ common ∈ found, ∀ otherCommon ∈ other,
            (last.store.tree common).condensed.AlphaEq
              (otherLast.store.tree otherCommon).condensed := by
  have permInside : ∀ element ∈ permuted, element.1 < progress.store.size :=
    fun element member => inside element (perm.mem_iff.2 member)
  have permFree : ∀ element ∈ permuted, (progress.store.tree element.1).body.quantifierFree :=
    fun element member => free element (perm.mem_iff.2 member)
  have typesPerm : (elements.map Prod.fst).Perm (permuted.map Prod.fst) := perm.map Prod.fst
  refine (succeeds_commonType_settles wellFormed inside free).mono ?_
  intro found last settles
  refine (succeeds_commonType_settles wellFormed permInside permFree).mono ?_
  intro other otherLast otherSettles
  constructor
  · rw [settles.isSome_iff, otherSettles.isSome_iff, commonInstances_perm typesPerm,
      perm.any_eq, ← List.length_pos_iff_ne_nil, typesPerm.length_eq, List.length_pos_iff_ne_nil]
  · intro common isCommon otherCommon isOtherCommon
    refine (settles.represents common isCommon).alphaEq
      (otherSettles.represents otherCommon isOtherCommon) wellFormed ?_ typesPerm
    rw [List.forall_mem_map]
    exact inside

/-- The types `forall 'b, 'a. ('a, 'b)`, `forall 'd, 'c. (['c], 'd)` and
`forall 'e. ('e, 'x)`, where `'x` is free. -/
def pairs : Store where
  shapes := #[.var 0, .var 1, .tuple [0, 1], .quantified [1, 0] 2,
    .var 2, .var 3, .list 4, .tuple [6, 5], .quantified [5, 4] 7,
    .var 4, .var 5, .tuple [9, 10], .quantified [9] 11]
  slots _ := none
  nextVar := 6

/-- The three types as elements of a list literal. -/
def pairElements : List (TypeId × Span) :=
  [(3, {}), (8, {}), (12, {})]

/-- In either order the common type is `forall 'c. (['c], 'x)`. -/
theorem elementType_perm_pairs :
    pairs.WellFormed ∧ pairElements.Perm pairElements.reverse ∧
      ∃ common last other otherLast,
        (elementType .unify pairElements).run.run { store := pairs } = (.ok (some common), last) ∧
        (elementType .unify pairElements.reverse).run.run { store := pairs } =
          (.ok (some other), otherLast) ∧
        (last.store.tree common).condensed.AlphaEq (otherLast.store.tree other).condensed := by
  have wellFormed : pairs.WellFormed := by decide
  have perm := (List.reverse_perm pairElements).symm
  have returned : ((elementType .unify pairElements).run.run
      { store := pairs }).1.toOption.join.isSome := by
    decide +kernel
  obtain ⟨found, last, runEq, succeeds⟩ :=
    (elementType_perm wellFormed (by decide) (by decide) perm :
      Succeeds (elementType .unify pairElements) { store := pairs } _).exists_run_eq
  obtain ⟨other, otherLast, otherRunEq, both, alike⟩ := succeeds.exists_run_eq
  rw [runEq] at returned
  obtain ⟨common, rfl⟩ := Option.isSome_iff_exists.1 returned
  obtain ⟨otherCommon, rfl⟩ := Option.isSome_iff_exists.1 (both.1 rfl)
  exact ⟨wellFormed, perm, common, last, otherCommon, otherLast, runEq, otherRunEq,
    alike common rfl otherCommon rfl⟩

end Typing
end PipeCheck
