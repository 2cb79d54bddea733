import Mathlib.Data.List.Nodup
import PipeCheck.Proofs.Store.Allocation
import PipeCheck.Types.Substitution

/-!
# Substitution replaces variables in trees

The tree of a substituted type is the tree of the type with the bound variables
replaced.  The index stays the same exactly when every free variable is unbound
or bound to itself, and then nothing is created.  Renaming the variables of a
quantifier is a substitution of variables that are new to the store.
-/

namespace PipeCheck

open List

namespace Bindings

variable {bindings : Bindings} {id type : TypeId}

/-- The trees that bindings assign to variables; an unbound variable stands for
itself. -/
def assignment (bindings : Bindings) (store : Store) : TypeId → Tree :=
  fun id =>
    match bindings.find? id with
    | some type => store.tree type
    | none => .var id

/-- Variables are bound to stored types. -/
def Inside (bindings : Bindings) (store : Store) : Prop :=
  ∀ ⦃id type⦄, bindings.find? id = some type → type < store.size

theorem assignment_of_find? (found : bindings.find? id = some type) (store : Store) :
    bindings.assignment store id = store.tree type := by
  simp [assignment, found]

theorem assignment_of_unbound (unbound : bindings.find? id = none) (store : Store) :
    bindings.assignment store id = .var id := by
  simp [assignment, unbound]

@[simp] theorem find?_nil (id : TypeId) : find? [] id = none := rfl

theorem find?_cons (binding : TypeId × TypeId) (bindings : Bindings) (id : TypeId) :
    find? (binding :: bindings) id =
      if id = binding.1 then some binding.2 else bindings.find? id := by
  unfold find?
  rw [lookup_cons]
  by_cases same : id = binding.1
  · rw [if_pos same, beq_iff_eq.2 same]
  · rw [if_neg same, beq_eq_false_iff_ne.2 same]

theorem find?_bind (bindings : Bindings) (id type other : TypeId) :
    (bindings.bind id type).find? other =
      if other = id then some type else bindings.find? other :=
  find?_cons (id, type) bindings other

theorem find?_without (bindings : Bindings) (ids : List TypeId) (id : TypeId) :
    (bindings.without ids).find? id = if id ∈ ids then none else bindings.find? id := by
  unfold without
  induction bindings with
  | nil => simp
  | cons binding rest ih =>
    rw [find?_cons]
    by_cases removed : binding.1 ∈ ids
    · rw [filter_cons_of_neg (by simpa using removed), ih]
      by_cases same : id = binding.1
      · rw [if_pos (same ▸ removed), if_pos (same ▸ removed)]
      · rw [if_neg same]
    · rw [filter_cons_of_pos (by simpa using removed), find?_cons, ih]
      by_cases same : id = binding.1
      · rw [if_pos same, if_pos same, if_neg (same ▸ removed)]
      · rw [if_neg same, if_neg same]

theorem mem_of_find? (found : bindings.find? id = some type) :
    (id, type) ∈ bindings := by
  obtain ⟨before, after, rfl, _⟩ := lookup_eq_some_iff.1 found
  simp

theorem exists_find?_of_mem (mem : (id, type) ∈ bindings) :
    ∃ found, bindings.find? id = some found := by
  induction bindings with
  | nil => cases mem
  | cons binding rest ih =>
    rw [find?_cons]
    by_cases same : id = binding.1
    · exact ⟨binding.2, if_pos same⟩
    · rw [if_neg same]
      rcases mem_cons.1 mem with rfl | later
      · exact absurd rfl same
      · exact ih later

/-- A property of every type that some variable is bound to. -/
def Values (bindings : Bindings) (holds : TypeId → Prop) : Prop :=
  ∀ ⦃id type⦄, bindings.find? id = some type → holds type

theorem values_bind {holds : TypeId → Prop} (values : bindings.Values holds) (new : holds type) :
    (bindings.bind id type).Values holds := by
  intro other bound found
  rw [find?_bind] at found
  split at found
  · cases found
    exact new
  · exact values found

/-- More variables are bound, and the earlier ones as before. -/
def Grows (later earlier : Bindings) : Prop :=
  ∀ ⦃id type⦄, earlier.find? id = some type → later.find? id = some type

theorem Grows.refl (bindings : Bindings) : bindings.Grows bindings :=
  fun _ _ found => found

theorem Grows.trans {first second third : Bindings} (thirdSecond : third.Grows second)
    (secondFirst : second.Grows first) :
    third.Grows first :=
  fun _ _ found => thirdSecond (secondFirst found)

theorem grows_bind (unbound : bindings.find? id = none) (type : TypeId) :
    (bindings.bind id type).Grows bindings := by
  intro other bound found
  have different : other ≠ id := by
    rintro rfl
    rw [unbound] at found
    cases found
  rw [find?_bind, if_neg different, found]

theorem assignment_without (bindings : Bindings) (ids : List TypeId) (store : Store) :
    (bindings.without ids).assignment store =
      Tree.shadow ids (bindings.assignment store) := by
  funext id
  by_cases removed : id ∈ ids
  · rw [Tree.shadow_of_mem removed, assignment_of_unbound]
    simp [find?_without, removed]
  · rw [Tree.shadow_of_notMem removed]
    simp [assignment, find?_without, removed]

theorem assignment_nil (store : Store) : assignment [] store = .var := rfl

theorem Inside.without {store : Store} (inside : bindings.Inside store) (ids : List TypeId) :
    (bindings.without ids).Inside store := by
  intro id type found
  rw [find?_without] at found
  split at found
  · cases found
  · exact inside found

theorem Inside.extends {earlier later : Store} (inside : bindings.Inside earlier)
    (grown : later.Extends earlier) :
    bindings.Inside later :=
  fun _ _ found => grown.inside (inside found)

theorem Inside.assignment_eq {earlier later : Store} (inside : bindings.Inside earlier)
    (grown : later.Extends earlier) (wf : earlier.WellFormed) :
    bindings.assignment later = bindings.assignment earlier := by
  funext id
  cases found : bindings.find? id with
  | none => rw [assignment_of_unbound found, assignment_of_unbound found]
  | some type =>
    rw [assignment_of_find? found, assignment_of_find? found, grown.tree_eq wf (inside found)]

end Bindings

namespace Store

/-- What substitution leaves behind: a type with the replaced tree, which is the
given type itself exactly when no variable is bound to another type. -/
structure Substitutes (bindings : Bindings) (earlier later : Store) (id result : TypeId) : Prop
    extends earlier.Builds later result
      ((earlier.tree id).replace (bindings.assignment earlier)) where
  /-- When the type is kept. -/
  same_iff : result = id ↔
    ∀ leaf ∈ (earlier.tree id).occurrences, (bindings.find? leaf).getD leaf = leaf
  /-- Then nothing is stored. -/
  unchanged : result = id → later = earlier

/-- What substitution in several types leaves behind. -/
structure SubstitutesAll (bindings : Bindings) (earlier later : Store)
    (ids results : List TypeId) : Prop extends later.Follows earlier where
  /-- The results are stored. -/
  inside : ∀ result ∈ results, result < later.size
  /-- They have the replaced trees. -/
  trees_eq : results.map later.tree =
    ids.map fun id => (earlier.tree id).replace (bindings.assignment earlier)
  /-- When all types are kept. -/
  same_iff : results = ids ↔
    ∀ id ∈ ids, ∀ leaf ∈ (earlier.tree id).occurrences, (bindings.find? leaf).getD leaf = leaf
  /-- Then nothing is stored. -/
  unchanged : results = ids → later = earlier

/-- Where no free variable is bound to another type, the type itself will do. -/
theorem WellFormed.substitutes_self {store : Store} (wf : store.WellFormed)
    {bindings : Bindings} {id : TypeId} (inside : id < store.size)
    (fixed : ∀ leaf ∈ (store.tree id).occurrences, (bindings.find? leaf).getD leaf = leaf) :
    Substitutes bindings store store id id := by
  refine ⟨⟨wf.follows_self, inside, (Tree.replace_eq_self ?_).symm⟩,
    ⟨fun _ => fixed, fun _ => rfl⟩, fun _ => rfl⟩
  intro leaf occurs
  have leafFixed := fixed leaf occurs
  cases found : bindings.find? leaf with
  | none => exact Bindings.assignment_of_unbound found store
  | some type =>
    rw [found, Option.getD_some] at leafFixed
    obtain ⟨_, number, isVar⟩ := wf.var_of_mem_occurrences occurs
    rw [Bindings.assignment_of_find? found, leafFixed, tree_of_var isVar]

/-- Where some free variable is bound to another type, a new type is needed. -/
theorem Follows.substitutes_new {store mid later : Store} (follows : mid.Follows store)
    {bindings : Bindings} {id result : TypeId} (inside : id < store.size)
    (built : mid.Builds later result ((store.tree id).replace (bindings.assignment store)))
    (new : result = mid.size)
    (changed : ¬∀ leaf ∈ (store.tree id).occurrences, (bindings.find? leaf).getD leaf = leaf) :
    Substitutes bindings store later id result := by
  have different : result ≠ id := by
    rw [new]
    exact Nat.ne_of_gt (follows.grown.inside inside)
  exact ⟨follows.builds built, ⟨fun same => absurd same different,
    fun fixed => absurd fixed changed⟩, fun same => absurd same different⟩

end Store

namespace Alloc

open Store

variable {id : TypeId}

/-- A computation substitutes in each of some types, in whichever store it takes
place. -/
def SubstitutesIn (substituteOne : Bindings → TypeId → Alloc TypeId) (ids : List TypeId) :
    Prop :=
  ∀ ⦃start : Store⦄ ⦃bindings : Bindings⦄ ⦃id : TypeId⦄, start.WellFormed →
    bindings.Inside start → id ∈ ids → id < start.size →
      Yields (substituteOne bindings id) start fun result later =>
        Substitutes bindings start later id result

variable {substituteOne : Bindings → TypeId → Alloc TypeId} {bindings : Bindings} {store : Store}

theorem yields_mapM_substitute {ids : List TypeId} (wf : store.WellFormed)
    (bindingsInside : bindings.Inside store) (idInside : ∀ id ∈ ids, id < store.size)
    (each : SubstitutesIn substituteOne ids) :
    Yields (ids.mapM (substituteOne bindings)) store fun results later =>
      SubstitutesAll bindings store later ids results := by
  induction ids generalizing store with
  | nil =>
    rw [mapM_nil, yields_pure]
    exact ⟨wf.follows_self, by simp, by simp, by simp, fun _ => rfl⟩
  | cons first rest ih =>
    rw [mapM_cons, yields_bind]
    refine (each wf bindingsInside (by simp) (idInside first (by simp))).mono ?_
    intro firstResult mid firstDone
    have midBindings := bindingsInside.extends firstDone.grown
    have midInside : ∀ id ∈ rest, id < mid.size := fun id mem =>
      firstDone.grown.inside (idInside id (by simp [mem]))
    have restYields := ih firstDone.wellFormed midBindings midInside
      fun _ _ _ startWf startBindings mem =>
        each startWf startBindings (by simp [mem])
    rw [yields_bind]
    refine restYields.mono ?_
    intro restResults later restDone
    rw [yields_pure]
    have firstTree : later.tree firstResult =
        (store.tree first).replace (bindings.assignment store) :=
      (restDone.grown.tree_eq firstDone.wellFormed firstDone.inside).trans firstDone.tree_eq
    have restTree : ∀ id ∈ rest, mid.tree id = store.tree id := fun id mem =>
      firstDone.grown.tree_eq wf (idInside id (by simp [mem]))
    refine ⟨restDone.toFollows.trans firstDone.toFollows, ?_, ?_, ?_, ?_⟩
    · intro result mem
      rcases mem_cons.1 mem with rfl | mem
      · exact restDone.grown.inside firstDone.inside
      · exact restDone.inside result mem
    · rw [map_cons, map_cons, firstTree, restDone.trees_eq,
        bindingsInside.assignment_eq firstDone.grown wf]
      congr 1
      apply map_congr_left
      intro id mem
      rw [restTree id mem]
    · have restSame : restResults = rest ↔ ∀ id ∈ rest,
          ∀ leaf ∈ (store.tree id).occurrences,
            (bindings.find? leaf).getD leaf = leaf := by
        rw [restDone.same_iff]
        constructor
        · intro fixed id mem
          rw [← restTree id mem]
          exact fixed id mem
        · intro fixed id mem
          rw [restTree id mem]
          exact fixed id mem
      simp only [List.cons.injEq, firstDone.same_iff, restSame, forall_mem_cons]
    · intro same
      rw [List.cons.injEq] at same
      rw [restDone.unchanged same.2, firstDone.unchanged same.1]

/-- Once its components are done, a type is kept where they are all the same and
is built anew where one of them has changed. -/
theorem yields_kept_or_built {later : Store} {build : Alloc TypeId} {same : Prop} [Decidable same]
    (wf : store.WellFormed) (inside : id < store.size) (follows : later.Follows store)
    (sameIff : same ↔ ∀ leaf ∈ (store.tree id).occurrences, (bindings.find? leaf).getD leaf = leaf)
    (unchanged : same → later = store) (builds : Yields build later fun result last =>
      later.Builds last result ((store.tree id).replace (bindings.assignment store)) ∧
        result = later.size) :
    Yields (if same then pure id else build) later fun result last =>
      Substitutes bindings store last id result := by
  split
  · next isSame =>
      rw [yields_pure, unchanged isSame]
      exact wf.substitutes_self inside (sameIff.1 isSame)
  · next changed =>
      refine builds.mono ?_
      rintro result last ⟨built, new⟩
      exact follows.substitutes_new inside built new (mt sameIff.2 changed)

section Components

variable {id : TypeId} (wf : store.WellFormed) (bindingsInside : bindings.Inside store)
  (inside : id < store.size) (each : SubstitutesIn substituteOne (store.shape id).components)

include wf bindingsInside inside each

theorem yields_substitute_function {domain codomain : TypeId}
    (shapeEq : store.shape id = .function domain codomain) :
    Yields (do
      let newDomain ← substituteOne bindings domain
      let newCodomain ← substituteOne bindings codomain
      if newDomain = domain ∧ newCodomain = codomain then
        return id
      else
        function newDomain newCodomain) store fun result later =>
      Substitutes bindings store later id result := by
  have treeEq := wf.tree_of_function shapeEq
  have partInside := wf.component_inside inside
  rw [shapeEq, Shape.components] at each partInside
  have codomainInside := partInside codomain (by simp)
  rw [yields_bind]
  refine (each wf bindingsInside (by simp) (partInside domain (by simp))).mono ?_
  intro newDomain mid domainDone
  rw [yields_bind]
  refine (each domainDone.wellFormed (bindingsInside.extends domainDone.grown) (by simp)
    (domainDone.grown.inside codomainInside)).mono ?_
  intro newCodomain later codomainDone
  have codomainTree := domainDone.grown.tree_eq wf codomainInside
  apply yields_kept_or_built wf inside (codomainDone.toFollows.trans domainDone.toFollows)
  · rw [domainDone.same_iff, codomainDone.same_iff, codomainTree, treeEq, Tree.occurrences]
    simp only [mem_append, or_imp, forall_and]
  · rintro ⟨sameDomain, sameCodomain⟩
    rw [codomainDone.unchanged sameCodomain, domainDone.unchanged sameDomain]
  · rw [treeEq, Tree.replace, ← domainDone.tree_eq, ← codomainTree,
      ← bindingsInside.assignment_eq domainDone.grown wf, ← codomainDone.tree_eq,
      ← codomainDone.grown.tree_eq domainDone.wellFormed domainDone.inside]
    exact yields_function codomainDone.wellFormed
      (codomainDone.grown.inside domainDone.inside) codomainDone.inside

theorem yields_substitute_list {element : TypeId} (shapeEq : store.shape id = .list element) :
    Yields (do
      let newElement ← substituteOne bindings element
      if newElement = element then
        return id
      else
        list newElement) store fun result later =>
      Substitutes bindings store later id result := by
  have treeEq := wf.tree_of_list shapeEq
  have partInside := wf.component_inside inside
  rw [shapeEq, Shape.components] at each partInside
  rw [yields_bind]
  refine (each wf bindingsInside (by simp) (partInside element (by simp))).mono ?_
  intro newElement later done
  apply yields_kept_or_built wf inside done.toFollows
  · rw [done.same_iff, treeEq, Tree.occurrences]
  · exact done.unchanged
  · rw [treeEq, Tree.replace, ← done.tree_eq]
    exact yields_list done.wellFormed done.inside

theorem yields_substitute_tuple {parts : List TypeId} (shapeEq : store.shape id = .tuple parts) :
    Yields (do
      let newParts ← parts.mapM (substituteOne bindings)
      if newParts = parts then
        return id
      else
        tuple newParts) store fun result later =>
      Substitutes bindings store later id result := by
  have treeEq := wf.tree_of_tuple shapeEq
  have partInside := wf.component_inside inside
  rw [shapeEq, Shape.components] at each partInside
  rw [yields_bind]
  refine (yields_mapM_substitute wf bindingsInside partInside each).mono ?_
  intro newParts later done
  apply yields_kept_or_built wf inside done.toFollows
  · rw [done.same_iff, treeEq, Tree.occurrences, Tree.occurrencesAll_eq_flatMap]
    simp only [mem_flatMap, mem_map]
    constructor
    · rintro fixed leaf ⟨_, ⟨part, mem, rfl⟩, occurs⟩
      exact fixed part mem leaf occurs
    · intro fixed part mem leaf occurs
      exact fixed leaf ⟨_, ⟨part, mem, rfl⟩, occurs⟩
  · exact done.unchanged
  · have builds := yields_tuple done.wellFormed done.inside
    rw [done.trees_eq] at builds
    rw [treeEq, Tree.replace, Tree.replaceAll_eq_map, map_map]
    exact builds

theorem yields_substitute_quantified {binders : List TypeId} {body : TypeId}
    (shapeEq : store.shape id = .quantified binders body) :
    Yields (do
      let newBody ← substituteOne (bindings.without binders) body
      if newBody = body then
        return id
      else
        quantified binders newBody) store fun result later =>
      Substitutes bindings store later id result := by
  have treeEq := wf.tree_of_quantified shapeEq
  have partInside := wf.component_inside inside
  rw [shapeEq, Shape.components] at each partInside
  rw [yields_bind]
  refine (each wf (bindingsInside.without binders) (by simp) (partInside body (by simp))).mono ?_
  intro newBody later done
  apply yields_kept_or_built wf inside done.toFollows
  · rw [done.same_iff, treeEq, Tree.occurrences]
    simp only [Bindings.find?_without, mem_filter, contains_eq_mem,
      Bool.not_eq_true', decide_eq_false_iff_not]
    constructor
    · rintro fixed leaf ⟨occurs, unlisted⟩
      have leafFixed := fixed leaf occurs
      rwa [if_neg unlisted] at leafFixed
    · intro fixed leaf occurs
      by_cases listed : leaf ∈ binders
      · simp [listed]
      · rw [if_neg listed]
        exact fixed leaf ⟨occurs, listed⟩
  · exact done.unchanged
  · have laterShape := done.grown.shape_eq inside
    rw [shapeEq] at laterShape
    rw [treeEq, Tree.replace, ← Bindings.assignment_without, ← done.tree_eq]
    refine (yields_quantified done.wellFormed done.inside
      (done.wellFormed.binders_var laterShape) fun distinct => distinct laterShape).mono ?_
    rintro result last ⟨built, _, new⟩
    exact ⟨built, new⟩

end Components

/-- The height only has to exceed the index. -/
theorem yields_substituteWithin {height : Nat} (wf : store.WellFormed)
    (bindingsInside : bindings.Inside store) (inside : id < store.size) (enough : id < height) :
    Yields (substituteWithin height bindings id) store fun result later =>
      Substitutes bindings store later id result := by
  induction height generalizing bindings store id with
  | zero => exact absurd enough (Nat.not_lt_zero id)
  | succ height ih =>
    have each : SubstitutesIn (substituteWithin height) (store.shape id).components := by
      intro start startBindings part startWf bindingsStart mem startInside
      apply ih startWf bindingsStart startInside
      exact Nat.lt_of_lt_of_le (wf.component_lt mem) (Nat.le_of_lt_succ enough)
    rw [substituteWithin]
    split
    · next isEmpty =>
        obtain rfl := List.isEmpty_iff.1 isEmpty
        rw [yields_pure]
        refine ⟨⟨wf.follows_self, inside, ?_⟩, by simp, fun _ => rfl⟩
        rw [Bindings.assignment_nil, Tree.replace_var]
    rw [yields_bind, yields_get]
    cases shapeEq : store.shape id with
    | primitive which =>
      simp only
      rw [yields_pure]
      apply wf.substitutes_self inside
      simp [tree_of_primitive shapeEq, Tree.occurrences]
    | var number =>
      simp only
      rw [yields_pure]
      have treeEq := tree_of_var shapeEq
      cases found : bindings.find? id with
      | none =>
        apply wf.substitutes_self inside
        simp [treeEq, Tree.occurrences, found]
      | some type =>
        refine ⟨⟨wf.follows_self, bindingsInside found, ?_⟩, ?_, fun _ => rfl⟩
        · rw [treeEq, Tree.replace, Bindings.assignment_of_find? found, Option.getD_some]
        · simp [treeEq, Tree.occurrences, found]
    | function domain codomain =>
      exact yields_substitute_function wf bindingsInside inside each shapeEq
    | list element =>
      exact yields_substitute_list wf bindingsInside inside each shapeEq
    | tuple parts =>
      exact yields_substitute_tuple wf bindingsInside inside each shapeEq
    | quantified binders body =>
      exact yields_substitute_quantified wf bindingsInside inside each shapeEq

theorem yields_substitute (wf : store.WellFormed) (bindingsInside : bindings.Inside store)
    (inside : id < store.size) :
    Yields (substitute bindings id) store fun result later =>
      Substitutes bindings store later id result :=
  yields_substituteWithin wf bindingsInside inside (Nat.lt_succ_self id)

end Alloc
end PipeCheck
