import PipeCheck.Proofs.Store.FreeVars
import PipeCheck.Proofs.Substitution.Freshening
import PipeCheck.Proofs.Application.Matching
import PipeCheck.Types.Application

/-!
# Applying quantified functions

To apply a quantified function its variables are renamed, the parameter is
matched against the body of the argument, and the instance is quantified again
over the variables left unbound and those that came with the argument.
`Specialises` describes the instance, whatever quantifiers lie inside.
-/

namespace PipeCheck

open List

/-- The variables that a policy keeps quantified over a result. -/
def QuantifierPolicy.keeps (policy : QuantifierPolicy) (binders : List TypeId)
    (result : Tree) : List TypeId :=
  match policy with
  | .keepAll => binders
  | .prune => binders.filter fun id => result.occurrences.contains id

theorem QuantifierPolicy.binders_eq_keeps (policy : QuantifierPolicy) {store : Store}
    (wf : store.WellFormed) (binders : List TypeId) (result : TypeId) :
    policy.binders store binders result = policy.keeps binders (store.tree result) := by
  cases policy with
  | keepAll => rfl
  | prune =>
    apply filter_congr
    intro id _
    rw [Bool.eq_iff_iff]
    simp [wf.mem_freeVars]

theorem QuantifierPolicy.keeps_sublist (policy : QuantifierPolicy) (binders : List TypeId)
    (result : Tree) :
    (policy.keeps binders result).Sublist binders := by
  cases policy with
  | keepAll => exact Sublist.refl binders
  | prune => exact filter_sublist

theorem QuantifierPolicy.mem_keeps {policy : QuantifierPolicy} {binders : List TypeId}
    {result : Tree} {id : TypeId} :
    id ∈ policy.keeps binders result ↔
      id ∈ binders ∧ (policy = .prune → id ∈ result.occurrences) := by
  cases policy <;> simp [keeps]

namespace Alloc

section InstanceBinders

variable {fresh imported free : List TypeId} {bindings : Bindings}

/-- The variables of the argument that occur are added where they are new. -/
theorem instanceBinders_eq (fresh imported free : List TypeId) (bindings : Bindings) :
    instanceBinders fresh imported free bindings =
      sortByPlace free ((imported.filter fun id => free.contains id).foldl addNew
        (fresh.filter fun id => !bindings.binds id)) := by
  unfold instanceBinders
  rw [foldl_filter]
  simp only
  congr 2
  funext binders id
  unfold addNew
  by_cases occurs : id ∈ free <;> by_cases present : id ∈ binders <;> simp [occurs, present]

theorem mem_instanceBinders {id : TypeId} :
    id ∈ instanceBinders fresh imported free bindings ↔
      (id ∈ fresh ∧ ¬bindings.binds id) ∨ (id ∈ imported ∧ id ∈ free) := by
  rw [instanceBinders_eq, sortByPlace, mem_mergeSort, mem_foldl_addNew]
  simp

theorem nodup_instanceBinders (nodup : fresh.Nodup) :
    (instanceBinders fresh imported free bindings).Nodup := by
  rw [instanceBinders_eq, sortByPlace]
  exact (mergeSort_perm _ _).nodup_iff.2 (nodup_foldl_addNew (nodup.filter _))

end InstanceBinders
end Alloc

namespace Store

variable {store mid : Store} {bindings : Bindings} {type body renamed : TypeId}
  {binders fresh : List TypeId}

/-- The instance of a function `forall binders. parameter -> codomain` for an
argument: a function from the argument's body, quantified over the renamed
variables that do not occur in the parameter and over those variables of the
argument's quantifier that occur. -/
structure Specialises (store last : Store) (binders : List TypeId) (parameter codomain : Tree)
    (argument : TypeId) (fresh : List TypeId) (assignment : TypeId → Tree)
    (quantifier : List TypeId) (domain image : Tree) (result : TypeId) : Prop
    extends store.Builds last result ((Tree.function domain image).quantifiedOver quantifier) where
  /-- The new variables are the next ones. -/
  fresh_eq : fresh = range' store.size binders.length
  /-- They are variables. -/
  fresh_var : ∀ id ∈ fresh, ∃ number, last.shape id = .var number
  /-- Only new variables are assigned. -/
  assignsOnly : Tree.AssignsOnly fresh assignment
  /-- What the parameter does not mention stays. -/
  assignment_eq_var : ∀ id ∉ (parameter.rename binders fresh).occurrences, assignment id = .var id
  /-- What is assigned is part of the argument. -/
  occurs_argument : ∀ id ∈ fresh, id ∈ (parameter.rename binders fresh).occurrences →
    ∀ leaf ∈ (assignment id).occurrences, leaf ∈ (store.tree (store.body argument)).occurrences
  /-- The domain is the instance of the parameter. -/
  domain_eq : domain = (parameter.rename binders fresh).replace assignment
  /-- It is the argument's body. -/
  domain_eq_argument : domain = store.tree (store.body argument)
  /-- The image is the instance of the codomain. -/
  image_eq : image = (codomain.rename binders fresh).replace assignment
  /-- No variable is quantified twice. -/
  nodup : quantifier.Nodup
  /-- Which variables are quantified. -/
  mem_quantifier : ∀ id, id ∈ quantifier ↔
    (id ∈ fresh ∧ id ∉ (parameter.rename binders fresh).occurrences) ∨
    (id ∈ store.binders argument ∧ id ∈ (Tree.function domain image).occurrences)
  /-- No new variable stands below a quantifier. -/
  exposed : ∀ place ∈ (parameter.rename binders fresh).places, place.Free →
    place.id ∈ fresh → place.scopes = []

/-- What specialising a quantified function for an argument ends with. -/
def Specialisation (store last : Store) (binders : List TypeId) (body argument : TypeId) :
    Option TypeId → Prop
  | none => last.Follows store ∧ ∀ parameter codomain,
      store.tree body = .function parameter codomain → parameter.quantifierFree →
        ∀ assignment, parameter.replace (Tree.restrict binders assignment) ≠
          store.tree (store.body argument)
  | some result => ∃ parameter codomain fresh assignment quantifier domain image,
      store.tree body = .function parameter codomain ∧
        Specialises store last binders parameter codomain argument fresh assignment quantifier
          domain image result

/-- What applying a quantified function to an argument ends with. -/
def Application (policy : QuantifierPolicy) (store last : Store) (binders : List TypeId)
    (body argument : TypeId) : Option TypeId → Prop
  | none => Specialisation store last binders body argument none
  | some id => ∃ parameter codomain fresh assignment quantifier domain image middle specialised,
      store.tree body = .function parameter codomain ∧
        Specialises store middle binders parameter codomain argument fresh assignment quantifier
          domain image specialised ∧
        middle.Builds last id (image.quantifiedOver (policy.keeps quantifier image))

/-- Matching binds variables to parts of the type. -/
theorem Matches.inside {bindable : List TypeId} {pattern : TypeId}
    (found : store.Matches bindable [] bindings [(pattern, type)]) (wf : store.WellFormed)
    (typeInside : type < store.size) :
    bindings.Inside store := by
  refine found.preserves ?_ ?_ fun _ _ none => by cases none
  · intro id component inside _ mem
    exact wf.component_inside inside component mem
  · intro pair mem
    rw [mem_singleton.1 mem]
    exact typeInside

theorem Matches.occurrences_subset {bindable : List TypeId} {pattern : TypeId}
    (found : store.Matches bindable [] bindings [(pattern, type)]) (wf : store.WellFormed) :
    bindings.Values fun part => ∀ leaf ∈ (store.tree part).occurrences,
      leaf ∈ (store.tree type).occurrences := by
  refine found.preserves (wf.hereditary_occurrences _) ?_ fun _ _ none => by cases none
  intro pair mem
  rw [mem_singleton.1 mem]
  exact fun leaf occurs => occurs

section

variable (freshens : Freshens store mid binders body fresh renamed)

include freshens

/-- Where the renamed parameter does not match, no assignment of the variables
turns the parameter into the type. -/
theorem Freshens.replace_restrict_ne {paramId : TypeId} {parameter codomain : Tree}
    (wf : store.WellFormed) (treeEq : store.tree body = .function parameter codomain)
    (paramTree : mid.tree paramId = parameter.rename binders fresh)
    (mismatches : mid.Mismatches fresh [] [(paramId, type)]) (free : parameter.quantifierFree)
    (assign : TypeId → Tree) :
    parameter.replace (Tree.restrict binders assign) ≠ mid.tree type := by
  intro fits
  obtain ⟨read, assignsOnly, readEq⟩ := freshens.exists_assignsOnly assign
  have old : ∀ id ∈ parameter.occurrences, id ∉ fresh := fun id occurs mem =>
    freshens.notMem_occurrences wf mem body (by simp [treeEq, Tree.occurrences, occurs])
  refine mismatches ?_ assignsOnly (fun _ _ found => by cases found) ?_
  · intro pair mem
    rw [mem_singleton.1 mem, paramTree]
    exact Tree.quantifierFree_replace free fun _ _ => rfl
  · intro pair mem
    rw [mem_singleton.1 mem, paramTree, ← fits, Tree.rename,
      Tree.replace_replace_of_quantifierFree free]
    apply Tree.replace_congr
    intro id occurs
    exact readEq id (old id occurs)

/-- An instance is quantified over variables. -/
theorem Freshens.instanceBinders_var {later : Store} {instanceBody : TypeId}
    (follows : later.Follows mid) {imported : List TypeId} :
    ∀ id ∈ Alloc.instanceBinders fresh imported (later.freeVars instanceBody) bindings,
      ∃ number, later.shape id = .var number := by
  intro id mem
  rcases Alloc.mem_instanceBinders.1 mem with ⟨isFresh, _⟩ | ⟨_, occurs⟩
  · obtain ⟨number, isVar⟩ := freshens.fresh_var id isFresh
    exact ⟨number, (follows.grown.shape_eq (freshens.inside_of_mem isFresh)).trans isVar⟩
  · exact (follows.wellFormed.var_of_mem_occurrences (follows.wellFormed.mem_freeVars.1 occurs)).2

theorem Freshens.specialises {later last : Store}
    {arg paramId instanceBody result : TypeId} {parameter codomain : Tree} (wf : store.WellFormed)
    (argumentInside : arg < store.size) (renamedTree : mid.tree renamed =
      .function (parameter.rename binders fresh) (codomain.rename binders fresh))
    (paramTree : mid.tree paramId = parameter.rename binders fresh)
    (found : mid.Matches fresh [] bindings [(paramId, store.body arg)])
    (substituted : Substitutes bindings mid later renamed instanceBody)
    (built : later.Builds last result ((later.tree instanceBody).quantifiedOver
      (Alloc.instanceBinders fresh (store.binders arg) (later.freeVars instanceBody) bindings))) :
    Specialises store last binders parameter codomain arg fresh
      (bindings.assignment mid)
      (Alloc.instanceBinders fresh (store.binders arg) (later.freeVars instanceBody) bindings)
      ((parameter.rename binders fresh).replace (bindings.assignment mid))
      ((codomain.rename binders fresh).replace (bindings.assignment mid)) result := by
  have binds_iff : ∀ {id}, bindings.binds id ↔
      id ∈ fresh ∧ id ∈ (parameter.rename binders fresh).occurrences := by
    intro id
    have iff := found.binds_iff id
    simpa [Bindings.binds, paramTree] using iff
  have unbound : ∀ {id}, ¬bindings.binds id → bindings.assignment mid id = .var id := by
    intro id notBound
    refine Bindings.assignment_of_unbound ?_ mid
    simpa [Bindings.binds] using notBound
  have argTree := freshens.grown.tree_eq wf (wf.body_inside argumentInside)
  have assignsOnly : Tree.AssignsOnly fresh (bindings.assignment mid) := fun id absent =>
    unbound fun bound => absent (binds_iff.1 bound).1
  have instanceTree := substituted.tree_eq
  rw [renamedTree] at instanceTree
  refine ⟨?_, freshens.fresh_eq, ?_, assignsOnly, ?_, ?_, rfl, ?_, rfl,
    Alloc.nodup_instanceBinders freshens.nodup, ?_, ?_⟩
  · rw [instanceTree] at built
    exact (substituted.toFollows.trans freshens.toFollows).builds built
  · intro id mem
    obtain ⟨number, isVar⟩ := freshens.fresh_var id mem
    have grown := built.grown.trans substituted.grown
    exact ⟨number, (grown.shape_eq (freshens.inside_of_mem mem)).trans isVar⟩
  · intro id absent
    exact unbound fun bound => absent (binds_iff.1 bound).2
  · intro id isFresh inParam leaf occurs
    obtain ⟨part, isBound⟩ := Option.isSome_iff_exists.1 (binds_iff.2 ⟨isFresh, inParam⟩)
    rw [Bindings.assignment_of_find? isBound] at occurs
    rw [← argTree]
    exact found.occurrences_subset freshens.wellFormed isBound leaf occurs
  · have fits := (found.readBy_iff assignsOnly fun _ _ none => by cases none).1
      (bindings.readBy_assignment mid)
    rw [← paramTree, ← argTree]
    exact fits (paramId, store.body arg) (by simp)
  · intro id
    rw [Alloc.mem_instanceBinders, binds_iff, substituted.wellFormed.mem_freeVars, instanceTree]
    simp only [Tree.replace, not_and]
    tauto
  · rw [← paramTree]
    exact found.exposed (paramId, store.body arg) (by simp)

end

end Store

namespace Alloc

open Store

theorem yields_specialise {store : Store} (wf : store.WellFormed)
    {fnType arg : TypeId} {binders : List TypeId} {body : TypeId}
    (shapeEq : store.shape fnType = .quantified binders body) (argumentInside : arg < store.size) :
    Yields (specialise fnType arg) store fun result last =>
      Specialisation store last binders body arg result := by
  have bodyInside := Nat.lt_trans (wf.body_lt shapeEq) (lt_size_of_shape shapeEq (by simp))
  unfold specialise
  rw [yields_bind, yields_get, shapeEq]
  simp only
  rw [yields_bind, yields_get]
  split
  · next notFn =>
      rw [yields_pure]
      refine ⟨wf.follows_self, ?_⟩
      intro parameter codomain treeEq
      rw [← Store.kind_tree, treeEq] at notFn
      exact absurd rfl notFn
  next isFunction =>
    rw [← Store.kind_tree] at isFunction
    obtain ⟨parameter, codomain, treeEq⟩ := Tree.exists_eq_function (not_not.1 isFunction)
    rw [yields_bind]
    refine (yields_freshen wf binders bodyInside).mono ?_
    rintro ⟨fresh, renamed⟩ mid freshens
    rw [yields_bind, yields_get]
    have renamedTree : mid.tree renamed =
        .function (parameter.rename binders fresh) (codomain.rename binders fresh) := by
      rw [freshens.tree_eq, treeEq]
      rfl
    obtain ⟨paramId, codomainId, renamedShape, paramTree, codomainTree⟩ :=
      freshens.wellFormed.shape_of_tree_function renamedTree
    have argShape := freshens.grown.shape_eq argumentInside
    have bodyEq : mid.body arg = store.body arg := by
      simp [Store.body, argShape]
    have bindersEq : mid.binders arg = store.binders arg := by
      simp [Store.binders, argShape]
    have argBody := wf.body_inside argumentInside
    have outcome : mid.MatchOutcome fresh [] [(paramId, store.body arg)] _ :=
      matchOutcome_matchPattern freshens.wellFormed freshens.fresh_var fun id mem =>
        Nat.lt_of_lt_of_le argBody (freshens.size_le_of_mem mem)
    simp only [renamedShape, bodyEq, bindersEq]
    cases matchEq : mid.matchPattern fresh paramId (store.body arg) with
    | none =>
      rw [matchEq] at outcome
      simp only
      rw [yields_pure]
      refine ⟨freshens.toFollows, ?_⟩
      intro otherParam otherCodomain otherEq free assign
      rw [treeEq, Tree.function.injEq] at otherEq
      obtain ⟨rfl, rfl⟩ := otherEq
      rw [← freshens.grown.tree_eq wf argBody]
      exact freshens.replace_restrict_ne wf treeEq paramTree outcome free assign
    | some bindings =>
      rw [matchEq] at outcome
      simp only
      have bindingsInside := outcome.inside freshens.wellFormed (freshens.grown.inside argBody)
      rw [yields_bind]
      refine (yields_substitute freshens.wellFormed bindingsInside freshens.inside).mono ?_
      intro instanceBody later substituted
      rw [yields_bind, yields_get, yields_map]
      refine (yields_quantifiedOver substituted.wellFormed substituted.inside
        (freshens.instanceBinders_var substituted.toFollows)
        fun _ => nodup_instanceBinders freshens.nodup).mono ?_
      intro result last built
      exact ⟨parameter, codomain, fresh, _, _, _, _, treeEq,
        freshens.specialises wf argumentInside renamedTree paramTree outcome substituted built⟩

end Alloc

namespace Checked

open Store

variable {store : Store} {fnType arg : TypeId}

section

variable (policy : QuantifierPolicy)

include policy

/-- The result of a quantified function, under the part of its quantifier that
the policy keeps. -/
theorem yields_result (wf : store.WellFormed)
    (inside : fnType < store.size) {quantifier : List TypeId} {domain image : Tree}
    (treeEq : store.tree fnType = (Tree.function domain image).quantifiedOver quantifier) :
    Yields (result policy fnType).run store fun outcome last =>
      ∃ id, outcome = .ok id ∧
        store.Builds last id (image.quantifiedOver (policy.keeps quantifier image)) := by
  unfold Tree.quantifiedOver at treeEq
  unfold result
  rw [yields_bind_run, yields_get_run]
  simp only
  split at treeEq
  · next isEmpty =>
      obtain ⟨domainId, codomainId, shapeEq, _, codomainTree⟩ := wf.shape_of_tree_function treeEq
      have keepsEmpty : policy.keeps quantifier image = [] := by
        rw [isEmpty_iff.1 isEmpty]
        cases policy <;> rfl
      rw [shapeEq]
      simp only
      rw [yields_pure_run, keepsEmpty]
      refine ⟨codomainId, rfl, ?_⟩
      rw [← codomainTree]
      exact wf.builds_self (Nat.lt_trans (wf.codomain_lt shapeEq) inside)
  · obtain ⟨bodyId, shapeEq, bodyTree⟩ := wf.shape_of_tree_quantified treeEq
    obtain ⟨domainId, codomainId, bodyShape, _, codomainTree⟩ := wf.shape_of_tree_function bodyTree
    have codomainBelow := Nat.lt_trans (wf.codomain_lt bodyShape) (wf.body_lt shapeEq)
    have sublist := policy.keeps_sublist quantifier image
    rw [shapeEq]
    simp only [bodyShape]
    rw [yields_lift_run, policy.binders_eq_keeps wf, codomainTree]
    refine (Alloc.yields_quantifiedOver wf (Nat.lt_trans codomainBelow inside)
      (fun id mem => wf.binders_var shapeEq id (sublist.subset mem))
      fun distinct => (distinct shapeEq).sublist sublist).mono ?_
    intro id last built
    rw [codomainTree] at built
    exact ⟨id, rfl, built⟩

/-- Application of a quantified function gives the result of its instance. -/
theorem yields_apply_quantified (wf : store.WellFormed) {binders : List TypeId} {body : TypeId}
    (shapeEq : store.shape fnType = .quantified binders body) (argumentInside : arg < store.size) :
    Yields (apply policy arg fnType).run store fun outcome last =>
      ∃ returned, outcome = .ok returned ∧
        Application policy store last binders body arg returned := by
  unfold apply
  rw [yields_bind_run, yields_get_run]
  simp only [shapeEq]
  rw [yields_bind_run, yields_lift_run]
  refine (Alloc.yields_specialise wf shapeEq argumentInside).mono ?_
  intro specialised mid specialisation
  cases specialised with
  | none => exact ⟨none, rfl, specialisation⟩
  | some specialised =>
    obtain ⟨parameter, codomain, fresh, assign, quantifier, domain, image, treeEq,
      specialises⟩ := specialisation
    simp only
    rw [yields_map_run]
    refine (yields_result policy specialises.wellFormed specialises.inside
      specialises.tree_eq).mono ?_
    rintro _ last ⟨id, rfl, built⟩
    exact ⟨some id, rfl, parameter, codomain, fresh, assign, quantifier, domain, image,
      mid, specialised, treeEq, specialises, built⟩

/-- The result of a function without quantifier needs no new type. -/
theorem result_function {domain codomain : TypeId}
    (shapeEq : store.shape fnType = .function domain codomain) :
    (result policy fnType).run.run store = (.ok codomain, store) := by
  rw [result, run_get_bind]
  simp only [shapeEq]
  rfl

/-- A function without quantifier has its parameter compared with the argument,
and the store stays as it is. -/
theorem apply_function {domain codomain : TypeId} (arg : TypeId)
    (shapeEq : store.shape fnType = .function domain codomain) :
    (apply policy arg fnType).run.run store =
      ((store.equal domain arg).map fun same => if same then some codomain else none,
        store) := by
  rw [apply, run_get_bind]
  simp only [shapeEq]
  cases compared : store.equal domain arg with
  | error failure => rfl
  | ok same =>
    cases same with
    | false => rfl
    | true =>
      change (some <$> result policy fnType : Checked (Option TypeId)).run.run store = _
      rw [ExceptT.run_map, StateT.run_map, result_function policy shapeEq]
      rfl

/-- What is no function takes no argument. -/
theorem apply_other (arg : TypeId)
    (notFn : store.kind fnType ≠ .function) (notQuantified : store.kind fnType ≠ .quantified) :
    (apply policy arg fnType).run.run store = (.ok none, store) := by
  unfold kind at notFn notQuantified
  rw [apply, run_get_bind]
  cases shapeEq : store.shape fnType with
  | function domain codomain => exact absurd (by rw [shapeEq]; rfl) notFn
  | quantified binders body => exact absurd (by rw [shapeEq]; rfl) notQuantified
  | _ => rfl

end

/-- A list stands at the root of a type, right under its quantifier, or at
neither place. -/
theorem isList_cases (store : Store) (id : TypeId) :
    (∃ element, store.shape id = .list element) ∨
      (∃ binders body element,
        store.shape id = .quantified binders body ∧ store.shape body = .list element) ∨
      ¬store.isList id := by
  by_cases isList : store.isList id
  · unfold Store.isList isKind Store.body at isList
    split at isList
    · next binders body shapeEq =>
        have kindEq : (store.shape body).kind = .list := of_decide_eq_true isList
        cases bodyEq : store.shape body <;> rw [bodyEq] at kindEq <;> cases kindEq
        exact .inr (.inl ⟨binders, body, _, shapeEq, bodyEq⟩)
    · have kindEq : (store.shape id).kind = .list := of_decide_eq_true isList
      cases shapeEq : store.shape id <;> rw [shapeEq] at kindEq <;> cases kindEq
      exact .inl ⟨_, rfl⟩
  · exact .inr (.inr isList)

theorem elementOf?_list {element : TypeId} (shapeEq : store.shape arg = .list element) :
    (elementOf? arg).run.run store = (.ok (some element), store) := by
  rw [elementOf?, run_get_bind]
  simp only [element?, body, shapeEq]
  rfl

/-- The element of a quantified list comes under the list's quantifier. -/
theorem elementOf?_quantified {body element : TypeId} {binders : List TypeId}
    (shapeEq : store.shape arg = .quantified binders body)
    (bodyEq : store.shape body = .list element) :
    (elementOf? arg).run.run store =
      (some <$> Alloc.quantified binders element : Checked (Option TypeId)).run.run store := by
  rw [elementOf?, run_get_bind]
  simp only [element?, Store.body, shapeEq, bodyEq]

theorem elementOf?_other (notList : ¬store.isList arg) :
    (elementOf? arg).run.run store = (.ok none, store) := by
  have noElement : store.element? arg = none := by
    unfold element?
    split
    · next isList =>
        exact absurd (by simp [Store.isList, isKind, kind, isList, Shape.kind]) notList
    · rfl
  rw [elementOf?, run_get_bind, noElement]
  rfl

/-- What taking the element of a type finds: the component of a list, the element
of a quantified list under the list's quantifier, or nothing. -/
inductive ElementOf (store last : Store) (arg : TypeId) : Option TypeId → Prop
  | direct {element : TypeId} (shapeEq : store.shape arg = .list element)
      (inside : element < store.size) : ElementOf store last arg (some element)
  | quantified {binders : List TypeId} {body element created : TypeId}
      (shapeEq : store.shape arg = .quantified binders body)
      (bodyEq : store.shape body = .list element)
      (built : store.Builds last created (.quantified binders (store.tree element)))
      (createdEq : last.shape created = .quantified binders element) :
      ElementOf store last arg (some created)
  | none (notList : ¬store.isList arg) : ElementOf store last arg none

/-- Taking the element of a type never fails. -/
theorem succeeds_elementOf? (wf : store.WellFormed) (argumentInside : arg < store.size) :
    Succeeds (elementOf? arg) store fun found last =>
      last.Follows store ∧ ElementOf store last arg found := by
  rcases isList_cases store arg with
    ⟨element, shapeEq⟩ | ⟨binders, body, element, shapeEq, bodyEq⟩ | notList
  · exact succeeds_of_run_eq (elementOf?_list shapeEq)
      ⟨wf.follows_self, .direct shapeEq (Nat.lt_trans (wf.element_lt shapeEq) argumentInside)⟩
  · have elementInside : element < store.size :=
      Nat.lt_trans (wf.element_lt bodyEq) (Nat.lt_trans (wf.body_lt shapeEq) argumentInside)
    obtain ⟨built, createdEq, _⟩ := Alloc.yields_quantified wf elementInside
      (wf.binders_var shapeEq) fun distinct => distinct shapeEq
    exact succeeds_of_run_eq (elementOf?_quantified shapeEq bodyEq)
      ⟨built.toFollows, .quantified shapeEq bodyEq built createdEq⟩
  · exact succeeds_of_run_eq (elementOf?_other notList) ⟨wf.follows_self, .none notList⟩

end Checked
end PipeCheck
