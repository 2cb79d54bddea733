import PipeCheck.Proofs.Application.Quantified
import PipeCheck.Proofs.Store.Twins

/-!
# Types are created alike in stores that look alike

A computation that creates types out of twins creates twins.  This holds of
substitution, of matching, and so of the application of a function, whichever
types each store has besides.
-/

namespace PipeCheck

open List Store Option

variable {bindings others : Bindings}

theorem exists_mem_of_forall₂ {Item Other : Type} {relation : Item → Other → Prop}
    {items : List Item} {others : List Other} (all : Forall₂ relation items others)
    {other : Other} (mem : other ∈ others) :
    ∃ item ∈ items, relation item other := by
  induction all with
  | nil => cases mem
  | cons head _ ih =>
    rcases mem_cons.1 mem with rfl | later
    · exact ⟨_, mem_cons_self, head⟩
    · obtain ⟨item, isItem, related⟩ := ih later
      exact ⟨item, mem_cons_of_mem _ isItem, related⟩

namespace Store

variable {later : Store} {twins : Twins} {left right : Store}

/-- The twin of a variable is a variable. -/
theorem Alike.exists_var (alike : left.Alike twins right) {first second : TypeId}
    (twin : twins first second) (isVar : ∃ number, left.shape first = .var number) :
    ∃ number, right.shape second = .var number := by
  obtain ⟨number, shapeEq⟩ := isVar
  have shapes := alike.shapes twin
  rw [shapeEq] at shapes
  generalize right.shape second = other at shapes
  cases shapes with
  | var number otherNumber => exact ⟨otherNumber, rfl⟩

theorem Alike.fits (alike : left.Alike twins right) {shape other : Shape}
    (shapes : shape.Alike twins other) (fits : left.Fits shape) :
    right.Fits other := by
  refine ⟨?_, ?_⟩
  · intro reference mem
    obtain ⟨first, _, twin⟩ := exists_mem_of_forall₂ shapes.references mem
    exact (alike.inside twin).2
  · rintro otherBinders otherBody rfl binder mem
    cases shapes with
    | quantified binders bodies =>
      obtain ⟨first, listed, twin⟩ := exists_mem_of_forall₂ binders mem
      exact alike.exists_var twin (fits.binders_var rfl first listed)

/-- A primitive type that is appended has not been there before. -/
theorem Appends.slots_eq_none {store : Store} {which : Primitive}
    (appends : later.Appends store (.primitive which)) (wf : store.WellFormed) :
    store.slots which = none := by
  cases slot : store.slots which with
  | none => rfl
  | some place =>
    have old := (appends.slots_iff which place).2 (.inl slot)
    have new := (appends.slots_iff which store.size).2 (.inr ⟨rfl, rfl⟩)
    have inside := ((wf.slots_iff which place).1 slot).1
    rw [old, some.injEq] at new
    exact absurd new (Nat.ne_of_lt inside)

/-- Alike shapes at the end of alike stores are twins. -/
theorem Alike.append (alike : left.Alike twins right) {shape other : Shape} {otherLater : Store}
    (appends : later.Appends left shape) (otherAppends : otherLater.Appends right other)
    (shapes : shape.Alike twins other) (fits : left.Fits shape) :
    later.Alike (twins.add left.size right.size) otherLater where
  leftWellFormed := appends.wellFormed alike.leftWellFormed fits
  rightWellFormed := otherAppends.wellFormed alike.rightWellFormed (alike.fits shapes fits)
  unique := twins.add_unique alike.unique (fun twin => Nat.lt_irrefl _ (alike.inside twin).1)
    fun twin => Nat.lt_irrefl _ (alike.inside twin).2
  inside := by
    rintro first second (twin | ⟨rfl, rfl⟩)
    · exact ⟨appends.grown.inside (alike.inside twin).1,
        otherAppends.grown.inside (alike.inside twin).2⟩
    · exact ⟨appends.last_inside, otherAppends.last_inside⟩
  shapes := by
    rintro first second (twin | ⟨rfl, rfl⟩)
    · rw [appends.grown.shape_eq (alike.inside twin).1,
        otherAppends.grown.shape_eq (alike.inside twin).2]
      exact (alike.shapes twin).mono (twins.le_add _ _)
    · rw [appends.shape_last, otherAppends.shape_last]
      exact shapes.mono (twins.le_add _ _)
  slots := by
    intro which first second slot otherSlot
    rw [appends.slots_iff] at slot
    rw [otherAppends.slots_iff] at otherSlot
    rcases slot with old | ⟨rfl, rfl⟩
    · rcases otherSlot with otherOld | ⟨rfl, rfl⟩
      · exact .inl (alike.slots old otherOld)
      · cases shapes
        rw [appends.slots_eq_none alike.leftWellFormed] at old
        cases old
    · rcases otherSlot with otherOld | ⟨rfl, _⟩
      · cases shapes
        rw [otherAppends.slots_eq_none alike.rightWellFormed] at otherOld
        cases otherOld
      · exact twins.add_new _ _

/-- A primitive type that only one of two stores has gets a twin when the other
creates it. -/
theorem Alike.catchUp (alike : left.Alike twins right) {which : Primitive} {place : TypeId}
    (slot : left.slots which = some place) (appends : later.Appends right (.primitive which)) :
    left.Alike (twins.add place right.size) later := by
  obtain ⟨placeInside, placeShape⟩ := (alike.leftWellFormed.slots_iff which place).1 slot
  have missing := appends.slots_eq_none alike.rightWellFormed
  have single : ∀ {second}, ¬twins place second := by
    intro second twin
    have shapes := alike.shapes twin
    rw [placeShape] at shapes
    have isPrimitive : right.shape second = .primitive which := by
      generalize right.shape second = other at shapes
      cases shapes
      rfl
    rw [(alike.rightWellFormed.slots_iff which second).2
      ⟨(alike.inside twin).2, isPrimitive⟩] at missing
    cases missing
  have rightWf := appends.wellFormed alike.rightWellFormed (Alloc.fits_primitive right which)
  refine ⟨alike.leftWellFormed, rightWf, ?_, ?_, ?_, ?_⟩
  · exact twins.add_unique alike.unique single fun twin => Nat.lt_irrefl _ (alike.inside twin).2
  · rintro first second (twin | ⟨rfl, rfl⟩)
    · exact ⟨(alike.inside twin).1, appends.grown.inside (alike.inside twin).2⟩
    · exact ⟨placeInside, appends.last_inside⟩
  · rintro first second (twin | ⟨rfl, rfl⟩)
    · rw [appends.grown.shape_eq (alike.inside twin).2]
      exact (alike.shapes twin).mono (twins.le_add _ _)
    · rw [placeShape, appends.shape_last]
      exact .primitive which
  · intro other first second firstSlot secondSlot
    rw [appends.slots_iff] at secondSlot
    rcases secondSlot with old | ⟨rfl, isOther⟩
    · exact .inl (alike.slots firstSlot old)
    · cases isOther
      rw [slot] at firstSlot
      cases firstSlot
      exact twins.add_new _ _

end Store

namespace Alloc

open Store

variable {others : List TypeId} {twins : Twins} {left right : Store}

section Creating

variable (alike : left.Alike twins right)

include alike

theorem parallel_push {shape other : Shape} (shapes : shape.Alike twins other)
    (fits : left.Fits shape) (notPrimitive : ∀ which, shape ≠ .primitive which)
    (notVar : ∀ number, shape ≠ .var number) :
    Parallel Alike twins left right (push shape) (push other) fun further => further := by
  have otherNotPrimitive : ∀ which, other ≠ .primitive which := by
    rintro which rfl
    cases shapes
    exact notPrimitive which rfl
  have otherNotVar : ∀ number, other ≠ .var number := by
    rintro number rfl
    cases shapes
    exact notVar _ rfl
  exact ⟨_, twins.le_add _ _, alike.append (extend_appends left notPrimitive notVar)
    (extend_appends right otherNotPrimitive otherNotVar) shapes fits, twins.add_new _ _⟩

theorem parallel_function {domain codomain otherDomain otherCodomain : TypeId}
    (domains : twins domain otherDomain) (codomains : twins codomain otherCodomain) :
    Parallel Alike twins left right (function domain codomain)
      (function otherDomain otherCodomain) fun further => further := by
  refine parallel_push alike (.function domains codomains) ⟨?_, by simp⟩ (by simp) (by simp)
  simp [Shape.references, (alike.inside domains).1, (alike.inside codomains).1]

theorem parallel_list {element other : TypeId} (elements : twins element other) :
    Parallel Alike twins left right (list element) (list other)
      fun further => further := by
  refine parallel_push alike (.list elements) ⟨?_, by simp⟩ (by simp) (by simp)
  simp [Shape.references, (alike.inside elements).1]

theorem inside_of_forall₂ {ids : List TypeId} (listed : Forall₂ twins ids others) :
    ∀ id ∈ ids, id < left.size := by
  intro id mem
  obtain ⟨other, _, twin⟩ := exists_mem_of_forall₂ (Forall₂.flip listed) mem
  exact (alike.inside twin).1

theorem parallel_tuple {parts : List TypeId} (listed : Forall₂ twins parts others) :
    Parallel Alike twins left right (tuple parts) (tuple others)
      fun further => further :=
  parallel_push alike (.tuple listed) ⟨inside_of_forall₂ alike listed, by simp⟩ (by simp) (by simp)

theorem parallel_quantified {binders : List TypeId} {body otherBody : TypeId}
    (vars : left.Vars binders)
    (listed : Forall₂ twins binders others) (bodies : twins body otherBody) :
    Parallel Alike twins left right (quantified binders body)
      (quantified others otherBody) fun further => further :=
  parallel_push alike (.quantified listed bodies)
    (fits_quantified (alike.inside bodies).1 vars) (by simp) (by simp)

theorem parallel_quantifiedOver {binders : List TypeId} {body otherBody : TypeId}
    (vars : left.Vars binders)
    (listed : Forall₂ twins binders others) (bodies : twins body otherBody) :
    Parallel Alike twins left right (quantifiedOver binders body)
      (quantifiedOver others otherBody) fun further => further := by
  cases listed with
  | nil => exact parallel_pure alike bodies
  | cons head rest => exact parallel_quantified alike vars (.cons head rest) bodies

theorem parallel_var :
    Parallel Alike twins left right var var fun further => further :=
  ⟨_, twins.le_add _ _, alike.append (var_appends left) (var_appends right) (.var _ _)
    (fits_var left _), twins.add_new _ _⟩

/-- A primitive type may have to be created in one store only. -/
theorem parallel_primitive (which : Primitive) :
    Parallel Alike twins left right (primitive which) (primitive which)
      fun further => further := by
  unfold Parallel
  cases slot : left.slots which with
  | some first =>
    rw [primitive_of_slot slot]
    cases otherSlot : right.slots which with
    | some second =>
      rw [primitive_of_slot otherSlot]
      exact ⟨twins, le_refl twins, alike, alike.slots slot otherSlot⟩
    | none =>
      obtain ⟨otherLast, otherAppends⟩ := primitive_appends otherSlot
      rw [otherLast]
      exact ⟨_, twins.le_add _ _, alike.catchUp slot otherAppends, twins.add_new _ _⟩
  | none =>
    obtain ⟨isLast, appends⟩ := primitive_appends slot
    rw [isLast]
    cases otherSlot : right.slots which with
    | some second =>
      rw [primitive_of_slot otherSlot]
      refine ⟨_, ?_, (alike.flip.catchUp otherSlot appends).flip, .inr ⟨rfl, rfl⟩⟩
      exact fun _ _ => .inl
    | none =>
      obtain ⟨otherLast, otherAppends⟩ := primitive_appends otherSlot
      rw [otherLast]
      exact ⟨_, twins.le_add _ _, alike.append appends otherAppends (.primitive which)
        (fits_primitive left which), twins.add_new _ _⟩

end Creating

end Alloc

namespace Bindings

variable {twins further : Twins} {bindings others : Bindings}

/-- Twins are bound to twins, one after the other. -/
def Alike (twins : Twins) (bindings others : Bindings) : Prop :=
  Forall₂ (twins.Pairs twins) bindings others

section

variable (alike : bindings.Alike twins others)

include alike

theorem Alike.mono (grown : twins ≤ further) :
    bindings.Alike further others :=
  Forall₂.imp (fun _ _ pair => ⟨grown _ _ pair.1, grown _ _ pair.2⟩) alike

theorem Alike.find? (unique : Relator.BiUnique twins)
    {first second : TypeId} (twin : twins first second) :
    Rel twins (bindings.find? first) (others.find? second) := by
  induction alike with
  | nil => exact .none
  | cons head _ ih =>
    rw [find?_cons, find?_cons]
    simp only [eq_iff_of_twins unique twin head.1]
    split
    · exact .some head.2
    · exact ih

theorem Alike.bind {first second type other : TypeId}
    (twin : twins first second) (types : twins type other) :
    (bindings.bind first type).Alike twins (others.bind second other) :=
  .cons ⟨twin, types⟩ alike

theorem Alike.without (unique : Relator.BiUnique twins)
    {ids otherIds : List TypeId} (listed : Forall₂ twins ids otherIds) :
    (bindings.without ids).Alike twins (others.without otherIds) := by
  refine rel_filter ?_ alike
  intro binding other pair
  simp only [contains_eq unique pair.1 listed]

end

theorem alike_ofLists {ids otherIds types otherTypes : List TypeId}
    (listed : Forall₂ twins ids otherIds) (typed : Forall₂ twins types otherTypes) :
    (ofLists ids types).Alike twins (ofLists otherIds otherTypes) :=
  rel_reverse (forall₂_pairs listed typed)

theorem Alike.inside {left right : Store} (alike : bindings.Alike twins others)
    (stores : left.Alike twins right) :
    bindings.Inside left := by
  intro id type found
  obtain ⟨other, _, pair⟩ := exists_mem_of_forall₂ (Forall₂.flip alike) (mem_of_find? found)
  exact (stores.inside pair.2).1

end Bindings

theorem twins_getD {twins : Twins} {found otherFound : Option TypeId} {first second : TypeId}
    (founds : Rel twins found otherFound) (twin : twins first second) :
    twins (found.getD first) (otherFound.getD second) := by
  cases founds with
  | none => exact twin
  | some types => exact types

namespace Alloc

open Store

variable {first second : TypeId} {twins : Twins} {left right : Store}

section

variable (alike : left.Alike twins right)

include alike

/-- Either both computations keep a type or both build one. -/
theorem parallel_kept_or_built {same otherSame : Prop} [Decidable same] [Decidable otherSame]
    {build otherBuild : Alloc TypeId} (sameIff : same ↔ otherSame) (twin : twins first second)
    (built : Parallel Alike twins left right build otherBuild fun further => further) :
    Parallel Alike twins left right (if same then pure first else build)
      (if otherSame then pure second else otherBuild) fun further => further := by
  by_cases holds : same
  · rw [if_pos holds, if_pos (sameIff.1 holds)]
    exact parallel_pure alike twin
  · rw [if_neg holds, if_neg (mt sameIff.2 holds)]
    exact built

theorem parallel_substituteWithin {bindings others : Bindings}
    (bound : bindings.Alike twins others) {height otherHeight : Nat}
    (twin : twins.below height otherHeight first second) :
    Parallel Alike twins left right (substituteWithin height bindings first)
      (substituteWithin otherHeight others second) fun further => further := by
  induction height generalizing twins left right bindings others first second otherHeight with
  | zero => exact absurd twin.2.1 (Nat.not_lt_zero first)
  | succ height ih =>
    obtain ⟨otherHeight, rfl⟩ := twin.exists_succ
    have emptyEq : bindings.isEmpty = others.isEmpty := by
      cases bound <;> rfl
    rw [substituteWithin, substituteWithin, emptyEq]
    split
    · exact parallel_pure alike twin.1
    refine parallel_get_bind ?_
    have shapes := alike.shapesBelow twin
    generalize leftEq : left.shape first = shape, right.shape second = other at shapes
    cases shapes with
    | primitive which => exact parallel_pure alike twin.1
    | var number otherNumber =>
      exact parallel_pure alike (twins_getD (bound.find? alike.unique twin.1) twin.1)
    | function domains codomains =>
      refine (ih alike bound domains).bind fun grown midAlike newDomains => ?_
      refine (ih midAlike (bound.mono grown) ⟨grown _ _ codomains.1, codomains.2⟩).bind
        fun more laterAlike newCodomains => ?_
      have all := grown.trans more
      have newDomains := more _ _ newDomains
      refine parallel_kept_or_built laterAlike (and_congr ?_ ?_) (all _ _ twin.1)
        (parallel_function laterAlike newDomains newCodomains)
      · exact eq_iff_of_twins laterAlike.unique newDomains (all _ _ domains.1)
      · exact eq_iff_of_twins laterAlike.unique newCodomains (all _ _ codomains.1)
    | list elements =>
      refine (ih alike bound elements).bind fun grown laterAlike newElements => ?_
      exact parallel_kept_or_built laterAlike
        (eq_iff_of_twins laterAlike.unique newElements (grown _ _ elements.1))
        (grown _ _ twin.1) (parallel_list laterAlike newElements)
    | tuple parts =>
      refine (parallel_mapM (fun further => further.below height otherHeight)
        (fun further => further) (fun more _ _ below => ⟨more _ _ below.1, below.2⟩)
        (fun more _ _ new => more _ _ new) (fun grown midAlike below => ih midAlike
          (bound.mono grown) below) alike parts).bind fun grown laterAlike new => ?_
      have old := forall₂_mono (le_trans (twins.below_le height otherHeight) grown) parts
      exact parallel_kept_or_built laterAlike (lists_eq_iff laterAlike.unique new old)
        (grown _ _ twin.1) (parallel_tuple laterAlike new)
    | quantified binders bodies =>
      have listed := forall₂_mono (twins.below_le height otherHeight) binders
      have without := bound.without alike.unique listed
      refine (ih alike without bodies).bind_of_run ?_
      intro further newBody later _ otherLater grown runEq laterAlike newBodies
      refine parallel_kept_or_built laterAlike
        (eq_iff_of_twins laterAlike.unique newBodies (grown _ _ bodies.1)) (grown _ _ twin.1)
        (parallel_quantified laterAlike ?_ (forall₂_mono grown listed) newBodies)
      intro binder isBinder
      obtain ⟨number, isVar⟩ := alike.leftWellFormed.binders_var leftEq binder isBinder
      have substitutes := (yields_substituteWithin alike.leftWellFormed
        (without.inside alike) (alike.inside bodies.1).1 bodies.2.1).of_run_eq runEq
      exact ⟨number, (substitutes.grown.shape_eq (lt_size_of_shape isVar (by simp))).trans isVar⟩

/-- Substitution of twins for twins in twins gives twins. -/
theorem parallel_substitute {bindings others : Bindings}
    (bound : bindings.Alike twins others) (twin : twins first second) :
    Parallel Alike twins left right (substitute bindings first) (substitute others second)
      fun further => further :=
  parallel_substituteWithin alike bound (twins.below_self twin)

/-- New variables are twins, and so are the renamed bodies. -/
theorem parallel_freshen {binders others : List TypeId} {body otherBody : TypeId}
    (listed : Forall₂ twins binders others) (bodies : twins body otherBody) :
    Parallel Alike twins left right (freshen binders body) (freshen others otherBody)
      fun further renamed otherRenamed =>
        Forall₂ further renamed.1 otherRenamed.1 ∧ further renamed.2 otherRenamed.2 := by
  unfold freshen
  refine (parallel_mapM (fun _ _ _ => True) (fun further => further) (fun _ _ _ _ => trivial)
    (fun more _ _ new => more _ _ new) (fun _ midAlike _ => parallel_var midAlike) alike
    (listed.imp fun _ _ _ => trivial)).bind fun grown midAlike freshTwins => ?_
  refine (parallel_substitute midAlike
    (Bindings.alike_ofLists (forall₂_mono grown listed) freshTwins) (grown _ _ bodies)).bind
    fun more laterAlike renamedTwins => ?_
  exact parallel_pure laterAlike ⟨forall₂_mono more freshTwins, renamedTwins⟩

end

end Alloc

section Matching

variable {twins : Twins} {pattern otherPattern type other : TypeId}

theorem optionRel_foldlM {Item Other State OtherState : Type}
    {relation : Item → Other → Prop} {states : State → OtherState → Prop}
    {step : State → Item → Option State} {otherStep : OtherState → Other → Option OtherState}
    {items : List Item} {others : List Other} (all : Forall₂ relation items others)
    (each : ∀ item other state otherState, relation item other → states state otherState →
      Rel states (step state item) (otherStep otherState other))
    {state : State} {otherState : OtherState} (start : states state otherState) :
    Rel states (items.foldlM step state) (others.foldlM otherStep otherState) := by
  induction all generalizing state otherState with
  | nil => exact .some start
  | cons head _ ih =>
    have first := each _ _ state otherState head start
    rw [foldlM_cons, foldlM_cons]
    generalize step state _ = result, otherStep otherState _ = otherResult at first
    cases first with
    | none => exact .none
    | some related => exact ih related

/-- Matching twins binds twins to twins. -/
theorem Store.Alike.matchWithin {left right : Store} (alike : left.Alike twins right)
    {bindable otherBindable : List TypeId} (listed : Forall₂ twins bindable otherBindable)
    {height otherHeight : Nat} (patterns : twins.below height otherHeight pattern otherPattern)
    (types : twins type other) (bound : bindings.Alike twins others) :
    Rel (Bindings.Alike twins) (left.matchWithin bindable height pattern type bindings)
      (right.matchWithin otherBindable otherHeight otherPattern other others) := by
  induction height generalizing pattern otherPattern type other otherHeight bindings others with
  | zero => exact absurd patterns.2.1 (Nat.not_lt_zero pattern)
  | succ height ih =>
    obtain ⟨otherHeight, rfl⟩ := patterns.exists_succ
    have pairs := (alike.shapesBelow patterns).pairs (alike.shapes types)
    have founds := bound.find? alike.unique patterns.1
    rw [alike.leftWellFormed.matchWithin_succ, alike.rightWellFormed.matchWithin_succ,
      alike.same_eq patterns.1 types]
    simp only [eq_iff_of_twins alike.unique patterns.1 types,
      rel_mem alike.unique patterns.1 listed]
    split
    · exact .some bound
    split
    · generalize bindings.find? pattern = found, others.find? otherPattern = otherFound at founds
      cases founds with
      | none => exact .some (bound.bind patterns.1 types)
      | some foundTwins =>
        simp only [alike.same_eq foundTwins types]
        split
        · exact .some bound
        · exact .none
    · generalize (left.shape pattern).pairs (left.shape type) = paired,
        (right.shape otherPattern).pairs (right.shape other) = otherPaired at pairs
      cases pairs with
      | none =>
        simp only
        split
        · exact .some bound
        · exact .none
      | some pairTwins =>
        refine optionRel_foldlM pairTwins ?_ bound
        intro pair otherPair bindings others twinPairs bound
        exact ih twinPairs.1 twinPairs.2 bound

theorem Store.Alike.matchPattern {left right : Store} (alike : left.Alike twins right)
    {bindable otherBindable : List TypeId} (listed : Forall₂ twins bindable otherBindable)
    (patterns : twins pattern otherPattern) (types : twins type other) :
    Rel (Bindings.Alike twins) (left.matchPattern bindable pattern type)
      (right.matchPattern otherBindable otherPattern other) :=
  alike.matchWithin listed (twins.below_self patterns) types .nil

theorem forall₂_sortByPlace (unique : Relator.BiUnique twins)
    {order otherOrder ids others : List TypeId} (ordered : Forall₂ twins order otherOrder)
    (listed : Forall₂ twins ids others) :
    Forall₂ twins (sortByPlace order ids) (sortByPlace otherOrder others) := by
  -- both sides sort the pairs of twins
  let before : TypeId × TypeId → TypeId × TypeId → Bool := fun first second =>
    order.idxOf first.1 ≤ order.idxOf second.1
  have places : ∀ pair ∈ ids.zip others, order.idxOf pair.1 = otherOrder.idxOf pair.2 := by
    rintro ⟨id, other⟩ mem
    exact idxOf_eq unique (forall₂_zip listed mem) ordered
  have firsts : sortByPlace order ids = ((ids.zip others).mergeSort before).map Prod.fst := by
    have sorted : _ = mergeSort ((ids.zip others).map Prod.fst)
        (fun left right => order.idxOf left ≤ order.idxOf right) :=
      map_mergeSort fun _ _ _ _ => rfl
    rw [sorted, map_fst_zip (Nat.le_of_eq listed.length_eq), sortByPlace]
  have seconds : sortByPlace otherOrder others =
      ((ids.zip others).mergeSort before).map Prod.snd := by
    have sorted : _ = mergeSort ((ids.zip others).map Prod.snd)
        (fun left right => otherOrder.idxOf left ≤ otherOrder.idxOf right) :=
      map_mergeSort fun first firstIn second secondIn => by
        rw [← places first firstIn, ← places second secondIn]
    rw [sorted, map_snd_zip (Nat.le_of_eq listed.length_eq.symm), sortByPlace]
  rw [firsts, seconds, forall₂_map_left_iff, forall₂_map_right_iff, forall₂_same]
  rintro ⟨id, other⟩ mem
  exact forall₂_zip listed (mem_mergeSort.1 mem)

theorem Bindings.Alike.binds_eq (bound : bindings.Alike twins others)
    (unique : Relator.BiUnique twins) {first second : TypeId} (twin : twins first second) :
    bindings.binds first = others.binds second := by
  have founds := bound.find? unique twin
  unfold Bindings.binds
  generalize bindings.find? first = found, others.find? second = otherFound at founds
  cases founds <;> rfl

theorem forall₂_instanceBinders (unique : Relator.BiUnique twins)
    {fresh otherFresh imported otherImported free otherFree : List TypeId}
    (freshTwins : Forall₂ twins fresh otherFresh)
    (importedTwins : Forall₂ twins imported otherImported)
    (freeTwins : Forall₂ twins free otherFree) (bound : bindings.Alike twins others) :
    Forall₂ twins (Alloc.instanceBinders fresh imported free bindings)
      (Alloc.instanceBinders otherFresh otherImported otherFree others) := by
  refine forall₂_sortByPlace unique freeTwins (rel_foldl ?_ ?_ importedTwins)
  · intro binders otherBinders bindersTwins id other twin
    simp only [contains_eq unique twin freeTwins, contains_eq unique twin bindersTwins]
    split
    · exact rel_append bindersTwins (.cons twin .nil)
    · exact bindersTwins
  · refine rel_filter ?_ freshTwins
    intro id other twin
    simp only [bound.binds_eq unique twin]

end Matching

namespace Alloc

open Store

variable {twins : Twins} {left right : Store}

/-- The instances of twins for twins are twins. -/
theorem parallel_specialise (alike : left.Alike twins right) {fnType otherFn arg otherArg : TypeId}
    (fns : twins fnType otherFn) (args : twins arg otherArg) :
    Parallel Alike twins left right (specialise fnType arg)
      (specialise otherFn otherArg) fun further => Rel further := by
  unfold specialise
  refine parallel_get_bind ?_
  have shapes := alike.shapes fns
  generalize left.shape fnType = shape, right.shape otherFn = other at shapes
  cases shapes with
  | quantified binders bodies =>
    refine parallel_get_bind ?_
    rw [alike.kind_eq bodies]
    split
    · exact parallel_pure alike .none
    refine (parallel_freshen alike binders bodies).bind_of_run ?_
    rintro further ⟨fresh, renamed⟩ mid ⟨otherFresh, otherRenamed⟩ otherMid grown runEq
      midAlike ⟨freshTwins, renamedTwins⟩
    refine parallel_get_bind ?_
    have renamedShapes := midAlike.shapes renamedTwins
    generalize mid.shape renamed = shape, otherMid.shape otherRenamed = other at renamedShapes
    cases renamedShapes with
    | function params codomains =>
      have argTwins := grown _ _ args
      have founds := midAlike.matchPattern freshTwins params (midAlike.body argTwins)
      simp only
      generalize mid.matchPattern fresh _ (mid.body arg) = found,
        otherMid.matchPattern otherFresh _ (otherMid.body otherArg) = otherFound at founds
      cases founds with
      | none => exact parallel_pure midAlike .none
      | some bound =>
        refine (parallel_substitute midAlike bound renamedTwins).bind_of_run ?_
        intro last instanceBody later otherInstance otherLater more substitutedEq
          laterAlike instanceTwins
        refine parallel_get_bind (Parallel.map ?_)
        refine (parallel_quantifiedOver laterAlike ?_ ?_ instanceTwins).mono
          fun _ _ _ _ twin => .some twin
        · have freshens := (yields_freshen alike.leftWellFormed _
            (alike.inside bodies).1).of_run_eq runEq
          have substitutes := (yields_substitute midAlike.leftWellFormed (bound.inside midAlike)
            (midAlike.inside renamedTwins).1).of_run_eq substitutedEq
          exact freshens.instanceBinders_var substitutes.toFollows
        · exact forall₂_instanceBinders laterAlike.unique (forall₂_mono more freshTwins)
            (forall₂_mono more (midAlike.binders argTwins))
            (laterAlike.freeVars instanceTwins) (bound.mono more)
    | _ => exact parallel_pure midAlike .none
  | _ => exact parallel_pure alike .none

end Alloc

namespace Checked

open Store

variable {fnType arg : TypeId} {twins : Twins} {left right : Store} (alike : left.Alike twins right)

include alike

theorem forall₂_policyBinders (policy : QuantifierPolicy) {binders others : List TypeId}
    {codomain otherCodomain : TypeId} (listed : Forall₂ twins binders others)
    (codomains : twins codomain otherCodomain) :
    Forall₂ twins (policy.binders left binders codomain)
      (policy.binders right others otherCodomain) := by
  cases policy with
  | keepAll => exact listed
  | prune =>
    refine rel_filter ?_ listed
    intro id other twin
    simp only [contains_eq alike.unique twin (alike.freeVars codomains)]

theorem concur_result (policy : QuantifierPolicy) {other : TypeId} (fns : twins fnType other) :
    Concur Alike twins left right (result policy fnType) (result policy other)
      fun further => further := by
  unfold result
  refine concur_get_bind ?_
  have refused : ∀ {further : Twins → TypeId → TypeId → Prop},
      Concur Alike twins left right (notAFunction left fnType : Checked TypeId)
        (notAFunction right other) further := by
    intro further
    unfold notAFunction
    rw [alike.render_eq fns]
    exact concur_throw alike
  have shapes := alike.shapes fns
  generalize leftEq : left.shape fnType = shape, right.shape other = otherShape at shapes
  cases shapes with
  | function domains codomains => exact concur_pure alike codomains
  | quantified binders bodies =>
    have bodyShapes := alike.shapes bodies
    simp only
    generalize left.shape _ = shape, right.shape _ = otherShape at bodyShapes
    cases bodyShapes with
    | function domains codomains =>
      refine concur_lift (Alloc.parallel_quantifiedOver alike ?_
        (forall₂_policyBinders alike policy binders codomains) codomains)
      intro binder kept
      refine alike.leftWellFormed.binders_var leftEq binder ?_
      cases policy with
      | keepAll => exact kept
      | prune => exact (mem_filter.1 kept).1
    | _ => exact refused
  | _ => exact refused

/-- Twins applied to twins give twins, or neither can be applied. -/
theorem concur_apply (policy : QuantifierPolicy) {otherArg otherFn : TypeId}
    (args : twins arg otherArg) (fns : twins fnType otherFn) :
    Concur Alike twins left right (apply policy arg fnType)
      (apply policy otherArg otherFn) fun further => Rel further := by
  unfold apply
  refine concur_get_bind ?_
  have shapes := alike.shapes fns
  generalize left.shape fnType = shape, right.shape otherFn = other at shapes
  cases shapes with
  | function domains codomains =>
    simp only
    rw [alike.equal_eq domains args]
    refine (concur_same _ alike).bind ?_
    rintro _ _ _ _ _ grown midAlike rfl
    split
    · refine Concur.map ((concur_result midAlike policy (grown _ _ fns)).mono ?_)
      exact fun _ _ _ _ twin => .some twin
    · exact concur_pure midAlike .none
  | quantified binders bodies =>
    refine (concur_lift (Alloc.parallel_specialise alike fns args)).bind
      fun _ midAlike instances => ?_
    cases instances with
    | none => exact concur_pure midAlike .none
    | some twin =>
      refine Concur.map ((concur_result midAlike policy twin).mono ?_)
      exact fun _ _ _ _ twin => .some twin
  | _ => exact concur_pure alike .none

theorem concur_elementOf? {other : TypeId} (args : twins arg other) :
    Concur Alike twins left right (elementOf? arg) (elementOf? other)
      fun further => Rel further := by
  unfold elementOf?
  refine concur_get_bind ?_
  have elements := alike.element? args
  have shapes := alike.shapes args
  generalize leftEq : left.shape arg = shape, right.shape other = otherShape at shapes
  generalize left.element? arg = element, right.element? other = otherElement at elements
  cases shapes with
  | quantified binders bodies =>
    cases elements with
    | none => exact concur_pure alike .none
    | some elementTwins =>
      refine Concur.map (concur_lift ((Alloc.parallel_quantified alike
        (alike.leftWellFormed.binders_var leftEq) binders elementTwins).mono ?_))
      exact fun _ _ _ _ twin => .some twin
  | _ =>
    cases elements with
    | none => exact concur_pure alike .none
    | some elementTwins => exact concur_pure alike (.some elementTwins)

/-- The outcomes of two pipes. -/
def PipedAlike (twins : Twins) (piped other : Piped) : Prop :=
  twins piped.result other.result ∧ piped.broadcast = other.broadcast

/-- Twins piped into twins give twins, and both pipes map or neither does. -/
theorem concur_pipe (policy : QuantifierPolicy) {otherArg otherFn : TypeId}
    (args : twins arg otherArg) (fns : twins fnType otherFn) :
    Concur Alike twins left right (pipe policy arg fnType)
      (pipe policy otherArg otherFn) fun further => Rel (PipedAlike further) := by
  unfold pipe
  refine (concur_apply alike policy args fns).bind fun grown midAlike directs => ?_
  cases directs with
  | some twin => exact concur_pure midAlike (.some ⟨twin, rfl⟩)
  | none =>
    refine (concur_elementOf? midAlike (grown _ _ args)).bind fun more laterAlike elements => ?_
    cases elements with
    | none => exact concur_pure laterAlike .none
    | some elementTwins =>
      have fns := more _ _ (grown _ _ fns)
      refine (concur_apply laterAlike policy elementTwins fns).bind fun _ finalAlike mappings => ?_
      cases mappings with
      | none => exact concur_pure finalAlike .none
      | some twin =>
        refine (concur_lift (Alloc.parallel_list finalAlike twin)).bind fun _ listAlike lists => ?_
        exact concur_pure listAlike (.some ⟨lists, rfl⟩)

end Checked
end PipeCheck
