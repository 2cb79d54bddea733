import Mathlib.Data.Set.Basic
import Mathlib.Logic.Function.Iterate
import PipeCheck.Proofs.Store.FreeVars
import PipeCheck.Proofs.Substitution.Freshening
import PipeCheck.Proofs.Unification.Search

/-!
# Unification computes common instances

The instances of a type are the trees that its body becomes when trees are put
for the variables of an outermost quantifier.  Where there are no further
quantifiers, the type that unification returns has exactly the instances that
the two given types have in common, and no type is returned only when they have
none in common.
-/

namespace PipeCheck

open List Option PipeCheck.Tree Alloc

variable {tree : Tree}

/-- The trees that a body becomes when the variables of its quantifier stand for
any trees. -/
def Tree.instances (tree : Tree) : Set Tree :=
  Set.range fun assignment => tree.body.replace (restrict tree.binders assignment)

theorem Tree.instances_quantifiedOver {body : Tree} (free : body.quantifierFree)
    (binders : List TypeId) :
    (body.quantifiedOver binders).instances =
      Set.range fun assign => body.replace (restrict binders assign) := by
  rw [instances, body_quantifiedOver free, binders_quantifiedOver free]

/-- An outermost quantifier lists variables that occur below it, in order of first
occurrence. -/
def Tree.Orderly (tree : Tree) : Prop :=
  tree = tree.body.quantifiedOver
    ((tree.body.occurrences.foldl addNew []).filter fun id => tree.binders.contains id)

/-- Below its quantifier every tree is an instance of itself. -/
theorem Tree.body_mem_instances (tree : Tree) : tree.body ∈ tree.instances := by
  refine ⟨.var, ?_⟩
  have nothing : restrict tree.binders .var = .var := by
    funext id
    unfold restrict
    split <;> rfl
  simp only [nothing, replace_var]

theorem Tree.Closed.instances_eq (closed : tree.Closed) :
    tree.instances = Set.range fun assign => tree.body.replace assign := by
  have restrictEq : ∀ assign, tree.body.replace (restrict tree.binders assign) =
      tree.body.replace assign := by
    intro assign
    apply replace_congr
    intro id occurs
    exact restrict_of_mem (closed.mem_binders occurs) assign
  simp only [instances, restrictEq]

theorem Tree.range_replace_subset (free : tree.quantifierFree) (inner : TypeId → Tree) :
    (Set.range fun assign => (tree.replace inner).replace assign) ⊆
      Set.range fun assign => tree.replace assign := by
  rintro _ ⟨assign, rfl⟩
  exact ⟨_, (replace_replace_of_quantifierFree free inner assign).symm⟩

/-- One assignment of the listed variables and another of the rest. -/
def Tree.joined (ids : List TypeId) (listed others : TypeId → Tree) (id : TypeId) : Tree :=
  if id ∈ ids then listed id else others id

theorem Tree.replace_joined_left {rightVars : List TypeId}
    (apart : ∀ id ∈ rightVars, id ∉ tree.occurrences) (leftVars : List TypeId)
    (leftAssign rightAssign : TypeId → Tree) :
    tree.replace
        (joined leftVars leftAssign (restrict rightVars rightAssign)) =
      tree.replace (restrict leftVars leftAssign) := by
  apply replace_congr
  intro id occurs
  by_cases listed : id ∈ leftVars
  · rw [joined, if_pos listed, restrict_of_mem listed]
  · have otherwise : id ∉ rightVars := fun mem => apart id mem occurs
    rw [joined, if_neg listed, restrict_of_notMem listed, restrict_of_notMem otherwise]

theorem Tree.replace_joined_right {leftVars : List TypeId}
    (apart : ∀ id ∈ leftVars, id ∉ tree.occurrences) (listed others : TypeId → Tree) :
    tree.replace (joined leftVars listed others) = tree.replace others := by
  apply replace_congr
  intro id occurs
  exact if_neg fun mem => apart id mem occurs

namespace Bindings

variable {bindings : Bindings} {store : Store}

/-- An assignment of the unbound variables, carried over to the bound ones a
number of times. -/
def carry (bindings : Bindings) (store : Store) (unbound : TypeId → Tree) :
    Nat → TypeId → Tree
  | 0 => unbound
  | times + 1 => fun id =>
    match bindings.find? id with
    | some type => (store.tree type).replace (bindings.carry store unbound times)
    | none => unbound id

theorem carry_of_unbound {id : TypeId} (isUnbound : bindings.find? id = none)
    (unbound : TypeId → Tree) (times : Nat) :
    bindings.carry store unbound times id = unbound id := by
  cases times with
  | zero => rfl
  | succ times => simp [carry, isUnbound]

/-- What ranks below the number of times does not change any more. -/
theorem carry_succ_eq {rank : TypeId → Nat} (ranked : bindings.Ranked store rank)
    (wf : store.WellFormed) (unbound : TypeId → Tree) {times : Nat} {id : TypeId}
    (low : rank id < times) :
    bindings.carry store unbound (times + 1) id = bindings.carry store unbound times id := by
  induction times generalizing id with
  | zero => exact absurd low (Nat.not_lt_zero _)
  | succ times ih =>
    cases found : bindings.find? id with
    | none => rw [carry_of_unbound found, carry_of_unbound found]
    | some type =>
      have leafLow : ∀ leaf ∈ (store.tree type).occurrences, rank leaf < times := by
        intro leaf occurs
        have lower := ranked.lt_of_mem_occurrences wf found occurs
        omega
      rw [carry, carry]
      simp only [found]
      apply replace_congr
      intro leaf occurs
      exact ih (leafLow leaf occurs)

/-- Acyclic bindings are solved by some assignment, whatever the unbound
variables stand for. -/
theorem Sound.exists_solvedBy {bindable : List TypeId} (sound : bindings.Sound store bindable)
    (wf : store.WellFormed) (vars : store.Vars bindable) (unbound : TypeId → Tree) :
    ∃ assign, bindings.SolvedBy store assign ∧
      ∀ id, bindings.find? id = none → assign id = unbound id := by
  obtain ⟨rank, ranked, rankLe⟩ := sound.exists_rank_le_size vars
  refine ⟨bindings.carry store unbound (store.size + 1), ?_,
    fun id isUnbound => carry_of_unbound isUnbound unbound _⟩
  intro id type found
  rw [← carry_succ_eq ranked wf unbound (Nat.lt_succ_of_le (rankLe id)), carry]
  simp only [found]

/-- Putting the bound types for their variables does not change an instance
under a solution. -/
theorem SolvedBy.replace_assignment {assign : TypeId → Tree}
    (solved : bindings.SolvedBy store assign) {tree : Tree} (free : tree.quantifierFree) :
    (tree.replace (bindings.assignment store)).replace assign =
      tree.replace assign := by
  rw [Tree.replace_replace_of_quantifierFree free]
  apply Tree.replace_congr
  intro id _
  cases found : bindings.find? id with
  | none => rw [assignment_of_unbound found, Tree.replace]
  | some type => rw [assignment_of_find? found, solved found]

/-- The bound variables that occur in a tree have levels up to a bound. -/
def LevelsWithin (bindings : Bindings) (rank : TypeId → Nat) (tree : Tree) (bound : Nat) : Prop :=
  ∀ leaf ∈ tree.occurrences, ∀ type, bindings.find? leaf = some type →
    level bindings.keys rank leaf ≤ bound

/-- There are as many levels as bound variables. -/
theorem levelsWithin_card (bindings : Bindings) (rank : TypeId → Nat) (tree : Tree) :
    bindings.LevelsWithin rank tree bindings.keys.card :=
  fun _ _ _ _ => level_le_card _ _ _

/-- A bound variable that a replacement leaves behind was brought in by one of
a higher level. -/
theorem Ranked.exists_level_lt {rank : TypeId → Nat} (ranked : bindings.Ranked store rank)
    (wf : store.WellFormed) {tree : Tree} {leaf type : TypeId}
    (occurs : leaf ∈ (tree.replace (bindings.assignment store)).occurrences)
    (found : bindings.find? leaf = some type) :
    ∃ source ∈ tree.occurrences, ∃ sourceType, bindings.find? source = some sourceType ∧
      level bindings.keys rank leaf < level bindings.keys rank source := by
  obtain ⟨source, sourceOccurs, present⟩ := exists_mem_occurrences_of_replace occurs
  cases sourceFound : bindings.find? source with
  | none =>
    rw [assignment_of_unbound sourceFound] at present
    rw [mem_singleton.1 present, sourceFound] at found
    cases found
  | some sourceType =>
    rw [assignment_of_find? sourceFound] at present
    exact ⟨source, sourceOccurs, sourceType, sourceFound,
      level_lt (ranked.lt_of_mem_occurrences wf sourceFound present)
        (mem_keys_of_find? sourceFound)⟩

end Bindings

namespace Alloc

open Store

variable {store : Store} {id : TypeId}

/-- One round of repeated substitution.  If the type stays, no bound variable
occurs in it; otherwise those that occur next have lower levels. -/
theorem yields_substitute_round {base : Store} (baseWf : base.WellFormed) {bindings : Bindings}
    {rank : TypeId → Nat} (ranked : bindings.Ranked base rank)
    (bindingsInside : bindings.Inside base) (follows : store.Follows base)
    (inside : id < store.size) {bound : Nat}
    (few : bindings.LevelsWithin rank (store.tree id) bound) :
    Yields (substitute bindings id) store fun next middle =>
      store.Builds middle next ((store.tree id).replace (bindings.assignment base)) ∧
      (next = id → middle = store ∧
        ∀ leaf ∈ (store.tree id).occurrences, bindings.find? leaf = none) ∧
      (next ≠ id → ∃ less, bound = less + 1 ∧
        bindings.LevelsWithin rank (middle.tree next) less) := by
  refine (yields_substitute follows.wellFormed (bindingsInside.extends follows.grown)
    inside).mono ?_
  intro next middle substituted
  have built := substituted.toBuilds
  rw [bindingsInside.assignment_eq follows.grown baseWf] at built
  refine ⟨built, fun same => ⟨substituted.unchanged same, ?_⟩, fun changed => ?_⟩
  · intro leaf occurs
    exact ranked.find?_eq_none_of_fixed (substituted.same_iff.1 same leaf occurs)
  · have someBound : bound ≠ 0 := by
      rintro rfl
      apply changed
      rw [substituted.same_iff]
      intro leaf occurs
      cases found : bindings.find? leaf with
      | none => rfl
      | some type =>
        have lower := level_lt (ranked (.inr found)) (Bindings.mem_keys_of_find? found)
        have levelLe := few leaf occurs type found
        omega
    obtain ⟨less, rfl⟩ := Nat.exists_eq_add_one_of_ne_zero someBound
    refine ⟨less, rfl, ?_⟩
    intro leaf occurs type found
    rw [built.tree_eq] at occurs
    obtain ⟨source, sourceOccurs, sourceType, sourceFound, lower⟩ :=
      ranked.exists_level_lt baseWf occurs found
    exact Nat.le_of_lt_succ (Nat.lt_of_lt_of_le lower
      (few source sourceOccurs sourceType sourceFound))

/-- Repeated substitution ends at a type without bound variables, if it may be
repeated more often than bound variables follow each other. -/
theorem yields_substituteUntilStable {base : Store} (baseWf : base.WellFormed)
    {bindings : Bindings} {rank : TypeId → Nat} (ranked : bindings.Ranked base rank)
    (bindingsInside : bindings.Inside base) (follows : store.Follows base)
    (inside : id < store.size) {rounds bound : Nat}
    (few : bindings.LevelsWithin rank (store.tree id) bound) (enough : bound < rounds) :
    Yields (substituteUntilStable bindings rounds id) store fun result later =>
      (∃ times, store.Builds later result
        ((replace (bindings.assignment base))^[times] (store.tree id))) ∧
      ∀ leaf ∈ (later.tree result).occurrences, bindings.find? leaf = none := by
  induction rounds generalizing store id bound with
  | zero => exact absurd enough (Nat.not_lt_zero _)
  | succ rounds ih =>
    rw [substituteUntilStable, yields_bind]
    refine (yields_substitute_round baseWf ranked bindingsInside follows inside few).mono ?_
    rintro next middle ⟨built, stays, changes⟩
    split
    · next same =>
        obtain ⟨storeEq, unbound⟩ := stays same
        rw [yields_pure, storeEq]
        exact ⟨⟨0, follows.wellFormed.builds_self inside⟩, unbound⟩
    · next changed =>
        obtain ⟨less, rfl, fewer⟩ := changes changed
        refine (ih (built.toFollows.trans follows) built.inside fewer
          (Nat.lt_of_succ_lt_succ enough)).mono ?_
        rintro result later ⟨⟨times, resultBuilt⟩, unbound⟩
        refine ⟨⟨times + 1, ?_⟩, unbound⟩
        rw [Function.iterate_succ_apply, ← built.tree_eq]
        exact built.toFollows.builds resultBuilt

/-- Removing a quantifier renames its variables; without one nothing is
renamed. -/
theorem yields_stripQuantifier (wf : store.WellFormed) (inside : id < store.size) :
    Yields (stripQuantifier id) store fun result later =>
      Freshens store later (store.binders id) (store.body id) result.1 result.2 := by
  have bodyInside := wf.body_inside inside
  unfold stripQuantifier
  rw [yields_bind, yields_get]
  split
  · next binders body shapeEq =>
      simp only [Store.binders, Store.body, shapeEq] at bodyInside ⊢
      exact yields_freshen wf binders bodyInside
  · next notQuantified =>
      have bindersEq : store.binders id = [] := by
        unfold Store.binders
        split
        · next shapeEq => exact absurd shapeEq (notQuantified _ _)
        · rfl
      have bodyEq : store.body id = id := by
        unfold Store.body
        split
        · next shapeEq => exact absurd shapeEq (notQuantified _ _)
        · rfl
      rw [yields_pure, bindersEq, bodyEq]
      refine ⟨⟨wf.follows_self, inside, ?_⟩, rfl, by simp⟩
      exact (replace_var _).symm

end Alloc

namespace Store

/-- Two types stripped of their quantifiers, the left one first. -/
structure Strips (store first middle : Store) (left right : TypeId)
    (leftVars : List TypeId) (leftBody : TypeId) (rightVars : List TypeId)
    (rightBody : TypeId) : Prop where
  /-- The left type is freshened first. -/
  left : Freshens store first (store.binders left) (store.body left) leftVars leftBody
  /-- The right type is freshened next. -/
  right : Freshens first middle (store.binders right) (store.body right) rightVars rightBody

/-- A type rebuilt from bindings: they are applied until no bound variable is
left, and what remains of the listed variables is quantified, in order of first
occurrence. -/
structure Rebuilds (middle last : Store) (bindable : List TypeId) (bindings : Bindings)
    (source result : TypeId) (binders : List TypeId) (body : Tree) : Prop
    extends middle.Builds last result (body.quantifiedOver binders) where
  /-- The bindings are applied some times. -/
  iterated : ∃ times, body = (replace (bindings.assignment middle))^[times] (middle.tree source)
  /-- No bound variable is left. -/
  unbound : ∀ leaf ∈ body.occurrences, bindings.find? leaf = none
  /-- What remains is quantified in order. -/
  binders_eq :
    binders = (body.occurrences.foldl addNew []).filter fun leaf => bindable.contains leaf

theorem Rebuilds.mem_binders {middle last : Store} {bindable : List TypeId} {bindings : Bindings}
    {source result : TypeId} {binders : List TypeId} {body : Tree}
    (rebuilds : Rebuilds middle last bindable bindings source result binders body) (leaf : TypeId) :
    leaf ∈ binders ↔ leaf ∈ body.occurrences ∧ leaf ∈ bindable := by
  simp [rebuilds.binders_eq, mem_filter, mem_foldl_addNew]

/-- What unification of two stripped types returns. -/
def Unification (middle last : Store) (bindable : List TypeId) (leftBody rightBody : TypeId) :
    Option TypeId → Prop
  | none => last = middle ∧ middle.Refutes bindable [] [(leftBody, rightBody)]
  | some result => ∃ bindings binders body,
      middle.Unifies bindable [] bindings [(leftBody, rightBody)] ∧
        Rebuilds middle last bindable bindings leftBody result binders body

theorem Strips.vars {store first middle : Store} {left right : TypeId}
    {leftVars : List TypeId} {leftBody : TypeId} {rightVars : List TypeId} {rightBody : TypeId}
    (strips : Strips store first middle left right leftVars leftBody rightVars rightBody) :
    middle.Vars (leftVars ++ rightVars) := by
  intro id mem
  rcases mem_append.1 mem with inLeft | inRight
  · obtain ⟨number, isVar⟩ := strips.left.fresh_var id inLeft
    have inside := lt_size_of_shape isVar (by simp)
    exact ⟨number, (strips.right.grown.shape_eq inside).trans isVar⟩
  · exact strips.right.fresh_var id inRight

end Store

namespace Alloc

open Store

/-- Different types are stripped of their quantifiers, and the search decides
what is returned. -/
theorem yields_unify {store : Store} (wf : store.WellFormed) {left right : TypeId}
    (different : left ≠ right) (leftInside : left < store.size) (rightInside : right < store.size) :
    Yields (unify left right) store fun result last =>
      ∃ first middle leftVars leftBody rightVars rightBody,
        Strips store first middle left right leftVars leftBody rightVars rightBody ∧
          Unification middle last (leftVars ++ rightVars) leftBody rightBody result := by
  unfold unify
  rw [if_neg different, yields_bind]
  refine (yields_stripQuantifier wf leftInside).mono ?_
  rintro ⟨leftVars, leftBody⟩ first leftDone
  rw [yields_bind]
  refine (yields_stripQuantifier leftDone.wellFormed (leftDone.grown.inside rightInside)).mono ?_
  rintro ⟨rightVars, rightBody⟩ middle rightDone
  have rightShape := leftDone.grown.shape_eq rightInside
  simp only [Store.binders, Store.body, rightShape] at rightDone
  have strips : Strips store first middle left right leftVars leftBody rightVars rightBody :=
    ⟨leftDone, rightDone⟩
  refine Yields.mono ?_ fun result last unification =>
    ⟨first, middle, leftVars, leftBody, rightVars, rightBody, strips, unification⟩
  have vars := strips.vars
  have outcome := outcome_unifier rightDone.wellFormed vars
    (rightDone.grown.inside leftDone.inside) rightDone.inside
  rw [yields_bind, yields_get]
  generalize leftVars ++ rightVars = bindable at vars outcome ⊢
  cases unifierEq : middle.unifier bindable leftBody rightBody with
  | error failure =>
    rw [unifierEq] at outcome
    rw [yields_pure]
    exact ⟨rfl, outcome.2⟩
  | ok bindings =>
    rw [unifierEq] at outcome
    obtain ⟨rank, ranked⟩ := outcome.sound.acyclic
    rw [yields_bind]
    refine (yields_substituteUntilStable rightDone.wellFormed ranked outcome.sound.inside
      rightDone.wellFormed.follows_self (rightDone.grown.inside leftDone.inside)
      (bindings.levelsWithin_card rank _) (Nat.lt_succ_of_le bindings.card_keys_le)).mono ?_
    rintro body later ⟨⟨times, built⟩, unbound⟩
    rw [yields_bind, yields_get, yields_map]
    have binderVars : ∀ id ∈ (later.freeVars body).filter fun id => bindable.contains id,
        ∃ number, later.shape id = .var number := by
      intro id mem
      have occurs := built.wellFormed.mem_freeVars.1 (mem_filter.1 mem).1
      exact (built.wellFormed.var_of_mem_occurrences occurs).2
    refine (yields_quantifiedOver built.wellFormed built.inside binderVars
      fun _ => (built.wellFormed.nodup_freeVars body).filter _).mono ?_
    intro result last rebuilt
    refine ⟨bindings, _, later.tree body, outcome, built.toFollows.builds rebuilt,
      ⟨times, built.tree_eq⟩, unbound, ?_⟩
    rw [built.wellFormed.freeVars_eq]

end Alloc
namespace Store

variable {binders bindable : List TypeId} {bindings : Bindings} {result : TypeId} {body : Tree}

section Instances

variable {store first middle last : Store} {left right : TypeId}
  {leftVars : List TypeId} {leftBody : TypeId} {rightVars : List TypeId} {rightBody : TypeId}

/-- A renamed body has the same instances. -/
theorem Freshens.range_replace_eq {fresh : List TypeId} {body renamed : TypeId}
    (freshens : Freshens store last binders body fresh renamed) (wf : store.WellFormed)
    (free : (store.tree body).quantifierFree) :
    (Set.range fun assign =>
        (store.tree body).replace (restrict binders assign)) =
      Set.range fun assign =>
        (last.tree renamed).replace (restrict fresh assign) := by
  have replaceRenamed : ∀ assign, (last.tree renamed).replace assign =
      (store.tree body).replace fun id => assign (Bindings.rename binders fresh id) := by
    intro assign
    rw [freshens.tree_eq, rename, replace_replace_of_quantifierFree free]
    rfl
  have old : ∀ id ∈ (store.tree body).occurrences, id ∉ fresh := fun id occurs mem =>
    freshens.notMem_occurrences wf mem body occurs
  apply Set.Subset.antisymm
  · rintro _ ⟨assign, rfl⟩
    obtain ⟨read, assignsOnly, readEq⟩ := freshens.exists_assignsOnly assign
    refine ⟨read, ?_⟩
    simp only
    rw [assignsOnly.replace_restrict fun _ _ listed => listed, replaceRenamed]
    apply replace_congr
    intro id occurs
    exact readEq id (old id occurs)
  · rintro _ ⟨assign, rfl⟩
    refine ⟨fun id => assign (Bindings.rename binders fresh id), ?_⟩
    simp only
    rw [replaceRenamed]
    apply replace_congr
    intro id occurs
    by_cases listed : id ∈ binders
    · rw [restrict_of_mem listed, restrict_of_mem (Bindings.rename_mem freshens.length_eq listed)]
    · rw [restrict_of_notMem listed, Bindings.rename_of_notMem listed,
        restrict_of_notMem (old id occurs)]

/-- Without quantifiers, bindings that are applied again and again keep every
instance under a solution. -/
theorem replace_iterate_assignment
    (values : bindings.Values fun type => (store.tree type).quantifierFree) {tree : Tree}
    (free : tree.quantifierFree) (times : Nat) :
    ((replace (bindings.assignment store))^[times] tree).quantifierFree ∧
      ∀ assign, bindings.SolvedBy store assign →
        ((replace (bindings.assignment store))^[times] tree).replace assign =
          tree.replace assign := by
  have assignedFree : ∀ id, (bindings.assignment store id).quantifierFree := by
    intro id
    cases found : bindings.find? id with
    | none =>
      rw [Bindings.assignment_of_unbound found]
      rfl
    | some type =>
      rw [Bindings.assignment_of_find? found]
      exact values found
  induction times with
  | zero => exact ⟨free, fun _ _ => rfl⟩
  | succ times ih =>
    rw [Function.iterate_succ_apply']
    refine ⟨quantifierFree_replace ih.1 fun id _ => assignedFree id, ?_⟩
    intro assign solved
    rw [solved.replace_assignment ih.1]
    exact ih.2 assign solved

section

variable (rebuilds : Rebuilds middle last bindable bindings leftBody result binders body)
  (unifies : middle.Unifies bindable [] bindings [(leftBody, rightBody)]) (wf : middle.WellFormed)

include rebuilds unifies wf

/-- A rebuilt type has no inner quantifier either, and under a solution it is the
stripped type. -/
theorem Rebuilds.replace_body (leftFree : (middle.tree leftBody).quantifierFree)
    (rightFree : (middle.tree rightBody).quantifierFree) :
    body.quantifierFree ∧ ∀ assign, bindings.SolvedBy middle assign →
      body.replace assign = (middle.tree leftBody).replace assign := by
  have values := unifies.preserves wf.hereditary_quantifierFree
    (fun pair mem => by rw [mem_singleton.1 mem]; exact ⟨leftFree, rightFree⟩)
    fun _ _ found => by cases found
  obtain ⟨times, bodyEq⟩ := rebuilds.iterated
  rw [bodyEq]
  exact replace_iterate_assignment values leftFree times

/-- The instances of a rebuilt type are the instances under which the two
stripped types agree. -/
theorem Rebuilds.mem_instances_iff (vars : middle.Vars bindable)
    (leftFree : (middle.tree leftBody).quantifierFree)
    (rightFree : (middle.tree rightBody).quantifierFree) (tree : Tree) :
    tree ∈ (last.tree result).instances ↔
      ∃ assign, AssignsOnly bindable assign ∧
        middle.Agree assign [(leftBody, rightBody)] ∧
          (middle.tree leftBody).replace assign = tree := by
  have solvedBy_iff : ∀ {assign}, bindings.SolvedBy middle assign ↔
      middle.Agree assign [(leftBody, rightBody)] :=
    unifies.solvedBy_iff fun _ _ found => by cases found
  obtain ⟨bodyFree, bodyReplace⟩ := rebuilds.replace_body unifies wf leftFree rightFree
  rw [rebuilds.tree_eq, instances_quantifiedOver bodyFree, Set.mem_range]
  constructor
  · rintro ⟨free, rfl⟩
    obtain ⟨assign, solved, onUnbound⟩ :=
      unifies.sound.exists_solvedBy wf vars (restrict binders free)
    refine ⟨assign, ?_, solvedBy_iff.1 solved, ?_⟩
    · intro id absent
      have isUnbound : bindings.find? id = none := by
        cases found : bindings.find? id with
        | none => rfl
        | some type => exact absurd (unifies.sound.key_mem found) absent
      have unlisted : id ∉ binders := fun listed => absent ((rebuilds.mem_binders id).1 listed).2
      rw [onUnbound id isUnbound, restrict_of_notMem unlisted]
    · rw [← bodyReplace assign solved]
      apply replace_congr
      intro id occurs
      exact onUnbound id (rebuilds.unbound id occurs)
  · rintro ⟨assign, assignsOnly, agree, rfl⟩
    refine ⟨assign, ?_⟩
    rw [← bodyReplace assign (solvedBy_iff.2 agree)]
    apply assignsOnly.replace_restrict
    intro id occurs listed
    exact (rebuilds.mem_binders id).2 ⟨occurs, listed⟩

end

section Stripped

variable
  (strips : Strips store first middle left right leftVars leftBody rightVars rightBody)
  (wf : store.WellFormed) (rightInside : right < store.size)

include strips wf rightInside

/-- The stripped types mention none of each other's new variables. -/
theorem Strips.apart :
    (∀ id ∈ rightVars, id ∉ (middle.tree leftBody).occurrences) ∧
      ∀ id ∈ leftVars, id ∉ (middle.tree rightBody).occurrences := by
  constructor
  · intro id mem
    rw [strips.right.grown.tree_eq strips.left.wellFormed strips.left.inside]
    exact strips.right.notMem_occurrences strips.left.wellFormed mem leftBody
  · intro id mem occurs
    rw [strips.right.tree_eq] at occurs
    obtain ⟨source, sourceOccurs, present⟩ := exists_mem_occurrences_of_replace occurs
    obtain rfl := mem_singleton.1 present
    by_cases listed : source ∈ store.binders right
    · have new := strips.right.size_le_of_mem (Bindings.rename_mem strips.right.length_eq listed)
      exact Nat.not_lt_of_le new (strips.left.inside_of_mem mem)
    · rw [Bindings.rename_of_notMem listed] at mem
      rw [strips.left.grown.tree_eq wf (wf.body_inside rightInside)] at sourceOccurs
      exact strips.left.notMem_occurrences wf mem _ sourceOccurs

variable (leftFree : (store.tree left).body.quantifierFree)
  (rightFree : (store.tree right).body.quantifierFree)

include leftFree rightFree

/-- Common instances of two types come from one assignment under which the
stripped types agree. -/
theorem Strips.mem_inter_instances_iff (tree : Tree) :
    tree ∈ (store.tree left).instances ∩ (store.tree right).instances ↔
      ∃ assign, AssignsOnly (leftVars ++ rightVars) assign ∧
        middle.Agree assign [(leftBody, rightBody)] ∧
          (middle.tree leftBody).replace assign = tree := by
  obtain ⟨leftApart, rightApart⟩ := strips.apart wf rightInside
  have rightTree := strips.left.grown.tree_eq wf (wf.body_inside rightInside)
  have leftTree := strips.right.grown.tree_eq strips.left.wellFormed strips.left.inside
  rw [← wf.tree_body] at leftFree rightFree
  have leftInstances := strips.left.range_replace_eq wf leftFree
  have rightInstances := strips.right.range_replace_eq strips.left.wellFormed
    (rightTree.symm ▸ rightFree)
  rw [← leftTree] at leftInstances
  rw [rightTree] at rightInstances
  rw [Set.mem_inter_iff, instances, instances, ← wf.tree_body,
    ← wf.tree_body, wf.binders_tree, wf.binders_tree, leftInstances, rightInstances]
  constructor
  · rintro ⟨⟨leftAssign, leftEq⟩, ⟨rightAssign, rightEq⟩⟩
    have leftJoined := replace_joined_left leftApart leftVars leftAssign rightAssign
    have rightJoined := replace_joined_right rightApart leftAssign (restrict rightVars rightAssign)
    refine ⟨_, ?_, ?_, leftJoined.trans leftEq⟩
    · intro id absent
      rw [mem_append, not_or] at absent
      exact (if_neg absent.1).trans (restrict_of_notMem absent.2 _)
    · intro pair mem
      rw [mem_singleton.1 mem]
      exact (leftJoined.trans leftEq).trans (rightJoined.trans rightEq).symm
  · rintro ⟨assign, assignsOnly, agree, leftEq⟩
    have rightEq : (middle.tree rightBody).replace assign = tree :=
      (agree (leftBody, rightBody) (by simp)).symm.trans leftEq
    refine ⟨⟨assign, ?_⟩, ⟨assign, ?_⟩⟩
    · rw [← leftEq]
      apply assignsOnly.replace_restrict
      intro id occurs listed
      exact (mem_append.1 listed).resolve_right fun mem => leftApart id mem occurs
    · rw [← rightEq]
      apply assignsOnly.replace_restrict
      intro id occurs listed
      exact (mem_append.1 listed).resolve_left fun mem => rightApart id mem occurs

theorem Strips.quantifierFree :
    (middle.tree leftBody).quantifierFree ∧ (middle.tree rightBody).quantifierFree := by
  rw [← wf.tree_body] at leftFree rightFree
  constructor
  · rw [strips.right.grown.tree_eq strips.left.wellFormed strips.left.inside, strips.left.tree_eq]
    exact quantifierFree_replace leftFree fun _ _ => rfl
  · rw [strips.right.tree_eq, strips.left.grown.tree_eq wf (wf.body_inside rightInside)]
    exact quantifierFree_replace rightFree fun _ _ => rfl

/-- What has no unifier has no common instance. -/
theorem Strips.inter_eq_empty
    (refutes : middle.Refutes (leftVars ++ rightVars) [] [(leftBody, rightBody)]) :
    (store.tree left).instances ∩ (store.tree right).instances = ∅ := by
  have common := strips.mem_inter_instances_iff wf rightInside leftFree rightFree
  have free := strips.quantifierFree wf rightInside leftFree rightFree
  rw [Set.eq_empty_iff_forall_notMem]
  intro tree mem
  obtain ⟨assign, assignsOnly, agree, _⟩ := (common tree).1 mem
  refine refutes ?_ (fun _ _ found => by cases found) assignsOnly
    (fun _ _ found => by cases found) agree
  intro pair mem
  rw [mem_singleton.1 mem]
  exact free

/-- What is rebuilt from a unifier has the common instances. -/
theorem Strips.instances_eq_inter
    (unifies : middle.Unifies (leftVars ++ rightVars) [] bindings [(leftBody, rightBody)])
    (rebuilds :
      Rebuilds middle last (leftVars ++ rightVars) bindings leftBody result binders body) :
    (last.tree result).instances =
      (store.tree left).instances ∩ (store.tree right).instances := by
  have common := strips.mem_inter_instances_iff wf rightInside leftFree rightFree
  have free := strips.quantifierFree wf rightInside leftFree rightFree
  ext tree
  rw [common, rebuilds.mem_instances_iff unifies strips.right.wellFormed strips.vars free.1 free.2]

end Stripped

/-- A rebuilt type without inner quantifiers lists its variables in order of first
occurrence. -/
theorem Rebuilds.orderly {source : TypeId}
    (rebuilds : Rebuilds middle last bindable bindings source result binders body)
    (free : body.quantifierFree) :
    (last.tree result).Orderly := by
  have bindersEq : binders =
      (body.occurrences.foldl addNew []).filter fun leaf => binders.contains leaf := by
    rw [rebuilds.binders_eq]
    apply filter_congr
    intro leaf mem
    rw [Bool.eq_iff_iff]
    simpa using fun _ => mem
  rw [Orderly, rebuilds.tree_eq, body_quantifiedOver free, binders_quantifiedOver free, ← bindersEq]

/-- What unification finds of two types without inner quantifiers: a type of the
same form with their common instances, unless they have none. -/
structure Joins (store last : Store) (left right : TypeId) (found : Option TypeId) : Prop where
  /-- No type has changed. -/
  follows : last.Follows store
  /-- A type is found if there are common instances. -/
  isSome_iff : found.isSome ↔ ((store.tree left).instances ∩ (store.tree right).instances).Nonempty
  /-- It is stored. -/
  inside : ∀ type ∈ found, type < last.size
  /-- It has no inner quantifier. -/
  quantifierFree : ∀ type ∈ found, (last.tree type).body.quantifierFree
  /-- It has the common instances. -/
  instances_eq : ∀ type ∈ found,
    (last.tree type).instances = (store.tree left).instances ∩ (store.tree right).instances
  /-- A type unifies with itself to itself. -/
  self : left = right → found = some left
  /-- Otherwise its variables are listed in order. -/
  orderly : left ≠ right → ∀ type ∈ found, (last.tree type).Orderly

theorem yields_unify_joins (wf : store.WellFormed) (leftInside : left < store.size)
    (rightInside : right < store.size) (leftFree : (store.tree left).body.quantifierFree)
    (rightFree : (store.tree right).body.quantifierFree) :
    Yields (unify left right) store fun found last => Joins store last left right found := by
  by_cases same : left = right
  · subst same
    unfold unify
    rw [if_pos rfl, yields_pure]
    refine ⟨wf.follows_self, ?_, ?_, ?_, ?_, fun _ => rfl, fun different => ?_⟩
    · simp only [isSome_some, Set.inter_self, true_iff]
      exact ⟨_, (store.tree left).body_mem_instances⟩
    · rintro _ ⟨⟩
      exact leftInside
    · rintro _ ⟨⟩
      exact leftFree
    · rintro _ ⟨⟩
      exact (Set.inter_self _).symm
    · exact absurd rfl different
  refine (yields_unify wf same leftInside rightInside).mono ?_
  rintro found last ⟨first, middle, leftVars, leftBody, rightVars, rightBody, strips, unified⟩
  have midFollows : middle.Follows store := strips.right.toFollows.trans strips.left.toFollows
  cases found with
  | none =>
    have noCommon := strips.inter_eq_empty wf rightInside leftFree rightFree unified.2
    obtain ⟨rfl, _⟩ := unified
    exact ⟨midFollows, by simp [noCommon], by simp, by simp, by simp,
      fun equal => absurd equal same, by simp⟩
  | some result =>
    obtain ⟨bindings, binders, body, unifies, rebuilds⟩ := unified
    have instancesEq := strips.instances_eq_inter wf rightInside leftFree rightFree unifies rebuilds
    have strippedFree := strips.quantifierFree wf rightInside leftFree rightFree
    have bodyFree := (rebuilds.replace_body unifies strips.right.wellFormed strippedFree.1
      strippedFree.2).1
    refine ⟨rebuilds.toFollows.trans midFollows, ?_, ?_, ?_, ?_,
      fun equal => absurd equal same, fun _ => ?_⟩
    · rw [← instancesEq]
      simp only [isSome_some, true_iff]
      exact ⟨_, (last.tree result).body_mem_instances⟩
    · rintro _ ⟨⟩
      exact rebuilds.inside
    · rintro _ ⟨⟩
      rw [rebuilds.tree_eq, body_quantifiedOver bodyFree]
      exact bodyFree
    · rintro _ ⟨⟩
      exact instancesEq
    · rintro _ ⟨⟩
      exact rebuilds.orderly bodyFree

/-- Unification returns a type whose instances are the common instances of the
two given types, and no type only when there are none. -/
theorem unify_instances_eq_inter (wellFormed : store.WellFormed) (leftInside : left < store.size)
    (rightInside : right < store.size) (leftFree : (store.tree left).body.quantifierFree)
    (rightFree : (store.tree right).body.quantifierFree) :
    Yields (unify left right) store fun result last =>
      match result with
      | some result =>
        (last.tree result).instances = (store.tree left).instances ∩ (store.tree right).instances
      | none => (store.tree left).instances ∩ (store.tree right).instances = ∅ := by
  by_cases different : left = right
  · subst different
    unfold unify
    rw [if_pos rfl, yields_pure]
    simp
  refine (yields_unify wellFormed different leftInside rightInside).mono ?_
  rintro result last ⟨first, middle, leftVars, leftBody, rightVars, rightBody, strips, unification⟩
  cases result with
  | none => exact strips.inter_eq_empty wellFormed rightInside leftFree rightFree unification.2
  | some result =>
    obtain ⟨bindings, binders, body, unifies, rebuilds⟩ := unification
    exact strips.instances_eq_inter wellFormed rightInside leftFree rightFree unifies rebuilds

/-- The types `forall 'a. 'a -> List 'a` and `forall 'b. Int -> 'b`. -/
def listAndConstant : Store where
  shapes := #[.var 0, .list 0, .function 0 1, .quantified [0] 2,
    .primitive .int, .var 1, .function 4 5, .quantified [5] 6]
  slots which := if which = .int then some 4 else none
  nextVar := 2

/-- The common instance of the two is `Int -> List Int`. -/
theorem unify_listAndConstant :
    listAndConstant.WellFormed ∧ ((unify 3 7).run listAndConstant).1 = some 14 ∧
      (((unify 3 7).run listAndConstant).2.tree 14).instances =
        (listAndConstant.tree 3).instances ∩ (listAndConstant.tree 7).instances := by
  have returned : ((unify 3 7).run listAndConstant).1 = some 14 := by decide
  have unified : Yields (unify 3 7) listAndConstant _ :=
    unify_instances_eq_inter (by decide) (by decide) (by decide) (by decide) (by decide)
  rw [Yields, returned] at unified
  exact ⟨by decide, returned, unified⟩

end Instances
end Store
end PipeCheck
