import PipeCheck.Proofs.Typing.ReplayTyping
import PipeCheck.Proofs.Application.Schemes
import PipeCheck.Proofs.Typing.Visits

/-!
# Steps of typing that drop unused variables

Quantified variables that do not occur may be kept or dropped.  A step that drops
them finds types with the same instances as a step that keeps them, as long as its
operands are type schemes and no argument is idly quantified: where the one step
finds no issue, neither does the other.
-/

namespace PipeCheck

open List Option PipeCheck.Tree

namespace Store

variable {kept pruned : Store} {type other : TypeId}

/-- A type corresponds to another one.  Idly quantified is only what is declared. -/
structure Corresponds (kept pruned : Store) (type other : TypeId) : Prop where
  /-- The type is stored. -/
  inside : type < kept.size
  /-- So is the other one. -/
  prunedInside : other < pruned.size
  /-- Their trees correspond. -/
  trees : (kept.tree type).Corresponds (pruned.tree other)
  /-- Idle types are the declared ones. -/
  idle : (pruned.tree other).Idle → type = other ∧ kept.tree type = pruned.tree other

/-- A type that corresponds to another one and is not idly quantified. -/
structure Derives (kept pruned : Store) (type other : TypeId) : Prop where
  /-- The type is stored. -/
  inside : type < kept.size
  /-- So is the other one. -/
  prunedInside : other < pruned.size
  /-- Their trees correspond. -/
  trees : (kept.tree type).Corresponds (pruned.tree other)
  /-- The other one is not idle. -/
  active : ¬(pruned.tree other).Idle

/-- Type schemes with the same instances. -/
structure Equivalent (kept pruned : Store) (type other : TypeId) : Prop where
  /-- The type is stored. -/
  inside : type < kept.size
  /-- So is the other one. -/
  prunedInside : other < pruned.size
  /-- Their trees have the same instances. -/
  trees : (kept.tree type).Equivalent (pruned.tree other)

theorem Equivalent.of_follows (equivalent : Equivalent kept pruned type other)
    (wf : kept.WellFormed) (prunedWf : pruned.WellFormed) {laterKept laterPruned : Store}
    (follows : laterKept.Follows kept) (prunedFollows : laterPruned.Follows pruned) :
    Equivalent laterKept laterPruned type other := by
  have shown := follows.shows wf ⟨equivalent.inside, rfl⟩
  have prunedShown := prunedFollows.shows prunedWf ⟨equivalent.prunedInside, rfl⟩
  refine ⟨shown.1, prunedShown.1, ?_⟩
  rw [shown.2, prunedShown.2]
  exact equivalent.trees

theorem Equivalent.derives (equivalent : Equivalent kept pruned type other)
    (active : ¬(pruned.tree other).Idle) :
    Derives kept pruned type other :=
  ⟨equivalent.inside, equivalent.prunedInside, equivalent.trees.corresponds, active⟩

theorem Derives.corresponds (derives : Derives kept pruned type other) :
    Corresponds kept pruned type other :=
  ⟨derives.inside, derives.prunedInside, derives.trees, fun idle => absurd idle derives.active⟩

theorem Corresponds.of_follows (corresponds : Corresponds kept pruned type other)
    (wf : kept.WellFormed) (prunedWf : pruned.WellFormed) {laterKept laterPruned : Store}
    (follows : laterKept.Follows kept) (prunedFollows : laterPruned.Follows pruned) :
    Corresponds laterKept laterPruned type other := by
  have shown := follows.shows wf ⟨corresponds.inside, rfl⟩
  have prunedShown := prunedFollows.shows prunedWf ⟨corresponds.prunedInside, rfl⟩
  refine ⟨shown.1, prunedShown.1, ?_, ?_⟩ <;> rw [shown.2, prunedShown.2]
  · exact corresponds.trees
  · exact corresponds.idle

theorem WellFormed.isInvalid_eq_body (wf : kept.WellFormed) (type : TypeId) :
    kept.isInvalid type = decide ((kept.tree type).body.kind = .primitive .invalid) := by
  rw [isInvalid, isKind, ← Store.kind_tree, wf.tree_body]

theorem Corresponds.isInvalid_eq (corresponds : Corresponds kept pruned type other)
    (wf : kept.WellFormed) (prunedWf : pruned.WellFormed) :
    pruned.isInvalid other = kept.isInvalid type := by
  rw [wf.isInvalid_eq_body, prunedWf.isInvalid_eq_body,
    decide_eq_decide.2 corresponds.trees.invalid_iff.symm]

/-- A type without quantifier has no unused variables. -/
theorem Corresponds.tree_eq (corresponds : Corresponds kept pruned type other)
    (free : (kept.tree type).quantifierFree) :
    pruned.tree other = kept.tree type := by
  by_cases idle : (pruned.tree other).Idle
  · exact (corresponds.idle idle).2.symm
  · have equivalent := corresponds.trees.equivalent
      (by rw [body_of_quantifierFree free]; exact free)
    exact equivalent.eq_of_monomorphic ⟨free, corresponds.trees.closed⟩ idle

end Store

theorem Progress.Undisturbed.noIssues {later earlier : Progress}
    (undisturbed : later.Undisturbed earlier) (noIssues : later.issues = #[]) :
    earlier.issues = #[] := by
  have allIssues := undisturbed.issues
  rw [noIssues] at allIssues
  exact Array.toList_eq_nil_iff.1 (prefix_nil.1 allIssues)

namespace Typing

open Progress Store

variable {kept pruned : Store} {elements prunedElements : List (TypeId × Span)} {α β : Type}
  {state other : Progress}

/-- A computation that never ends without an issue. -/
def Reporting (computation : Typing α) : Prop :=
  ∀ progress, Ensures computation progress fun _ last => last.issues ≠ #[]

theorem reporting_report (issue : Issue) : Reporting (report issue) := by
  rintro state _ _ ⟨⟩
  exact Array.push_ne_empty

theorem Reporting.bind {action : Typing α} {next : α → Typing β}
    (reporting : Reporting action) (rest : ∀ value, Undisturbing (next value)) :
    Reporting (action >>= next) := by
  intro state
  refine (reporting state).bind ?_
  intro value mid reported
  refine (rest value).ensures.mono ?_
  exact fun _ last undisturbed noIssues => reported (undisturbed.noIssues noIssues)

theorem reporting_of_rest {action : Typing α} {next : α → Typing β}
    (rest : ∀ value, Reporting (next value)) :
    Reporting (action >>= next) :=
  fun _ => Ensures.bind (fun _ _ _ => trivial) fun value mid _ => rest value mid

theorem reporting_reject (issue : Issue) : Reporting (reject issue) :=
  (reporting_report issue).bind fun _ => sameSteps_invalid.undisturbing

theorem reporting_mismatch (fn arg : TypeId) (position : Option Nat) (span : Span) :
    Reporting (mismatch fn arg position span) := by
  intro state
  refine ensures_store_bind ?_
  dsimp only
  split
  · exact reporting_of_rest (fun _ => reporting_report _) state
  · exact reporting_report _ state

/-- Where a computation ends without issues, another one succeeds without new
issues, and their values are related. -/
def Mirrors (kept : Typing α) (progress : Progress) (pruned : Typing β) (other : Progress)
    (related : Store → Store → α → β → Prop) : Prop :=
  Ensures kept progress fun value last => last.issues = #[] →
    last.store.Follows progress.store ∧ Succeeds pruned other fun counterpart final =>
      (∃ broadcasts, final.Steps other broadcasts []) ∧
        related last.store final.store value counterpart

section Mirroring

variable {kept : Typing α} {pruned : Typing β} {related : Store → Store → α → β → Prop}

theorem Reporting.mirrors (reporting : Reporting kept) :
    Mirrors kept state pruned other related :=
  (reporting state).mono fun _ _ reported noIssues => absurd noIssues reported

theorem mirrors_pure (wf : state.store.WellFormed) (otherWf : other.store.WellFormed) {value : α}
    {image : β} (holds : related state.store other.store value image) :
    Mirrors (pure value) state (pure image) other related :=
  ensures_pure fun _ => ⟨wf.follows_self, succeeds_pure ⟨⟨[], steps_self otherWf⟩, holds⟩⟩

theorem mirrors_store_bind {next : Store → Typing α} {otherNext : Store → Typing β}
    (rest : Mirrors (next state.store) state (otherNext other.store) other related) :
    Mirrors (store >>= next) state (store >>= otherNext) other related :=
  rest

section Bind

variable {γ δ : Type} {first : Typing γ} {otherFirst : Typing δ} {next : γ → Typing α}
  {otherNext : δ → Typing β} {mid : Progress} {otherPost : δ → Progress → Prop}

/-- A computation goes on where the other one has yet to come to the same point. -/
theorem Mirrors.of_succeeds (follows : mid.store.Follows state.store)
    (succeeds : Succeeds otherFirst other fun image otherMid =>
      (∃ broadcasts, otherMid.Steps other broadcasts []) ∧ otherPost image otherMid)
    (rest : ∀ image otherMid, otherMid.store.Follows other.store → otherPost image otherMid →
      Mirrors kept mid (otherNext image) otherMid related) :
    Ensures kept mid fun value last => last.issues = #[] →
      last.store.Follows state.store ∧ Succeeds (otherFirst >>= otherNext) other
        fun image final => (∃ broadcasts, final.Steps other broadcasts []) ∧
          related last.store final.store value image := by
  intro value last runEq noIssues
  constructor
  · obtain ⟨image, _, ⟨_, steps⟩, holds⟩ := succeeds
    exact (rest image _ steps.follows holds value last runEq noIssues).1.trans follows
  · refine succeeds.bind ?_
    rintro image otherMid ⟨⟨_, steps⟩, holds⟩
    refine (rest image otherMid steps.follows holds value last runEq noIssues).2.mono ?_
    rintro _ final ⟨⟨_, finalSteps⟩, finalHolds⟩
    exact ⟨⟨_, finalSteps.trans steps⟩, finalHolds⟩

theorem Mirrors.bind {firstRelated : Store → Store → γ → δ → Prop}
    (mirrors : Mirrors first state otherFirst other firstRelated)
    (undisturbing : ∀ value, Undisturbing (next value))
    (rest : ∀ value mid image otherMid, mid.store.Follows state.store →
      otherMid.store.Follows other.store → firstRelated mid.store otherMid.store value image →
      Mirrors (next value) mid (otherNext image) otherMid related) :
    Mirrors (first >>= next) state (otherFirst >>= otherNext) other related := by
  refine Ensures.bind mirrors ?_
  intro value mid mirrored returned last runEq noIssues
  have undisturbed := (undisturbing value).ensures returned last runEq
  obtain ⟨follows, succeeds⟩ := mirrored (undisturbed.noIssues noIssues)
  exact Mirrors.of_succeeds follows succeeds
    (fun image otherMid => rest value mid image otherMid follows) returned last runEq noIssues

theorem mirrors_bind {post : γ → Progress → Prop}
    (succeeds : Succeeds first state fun value mid => mid.Steps state [] [] ∧ post value mid)
    (otherSucceeds : Succeeds otherFirst other fun image mid =>
      mid.Steps other [] [] ∧ otherPost image mid)
    (rest : ∀ value mid image otherMid, mid.store.WellFormed →
      otherMid.store.WellFormed → post value mid → otherPost image otherMid →
      Mirrors (next value) mid (otherNext image) otherMid related) :
    Mirrors (first >>= next) state (otherFirst >>= otherNext) other related := by
  refine succeeds.ensures.bind ?_
  rintro value mid ⟨steps, holds⟩
  refine Mirrors.of_succeeds steps.follows
    (otherSucceeds.mono fun _ _ ended => ⟨⟨_, ended.1⟩, ended.2⟩) ?_
  intro image otherMid follows otherHolds
  exact rest value mid image otherMid steps.follows.wellFormed follows.wellFormed holds otherHolds

end Bind

end Mirroring

theorem mirrors_of_finds (node : NodeId) {kept pruned : Typing TypeId} {tree prunedTree : Tree}
    (finds : Finds node kept state { type := tree })
    (otherFinds : Finds node pruned other { type := prunedTree })
    (corresponds : tree.Corresponds prunedTree) (active : ¬prunedTree.Idle) :
    Mirrors kept state pruned other Derives := by
  refine finds.ensures.mono ?_
  rintro type last ⟨steps, inside, rfl⟩ _
  refine ⟨steps.follows, otherFinds.mono ?_⟩
  rintro image final ⟨finalSteps, prunedInside, rfl⟩
  exact ⟨⟨_, finalSteps⟩, inside, prunedInside, corresponds, active⟩

theorem mirrors_invalid (wf : state.store.WellFormed) (otherWf : other.store.WellFormed) :
    Mirrors invalid state invalid other Derives :=
  have monomorphic := monomorphic_primitive .invalid
  mirrors_of_finds .unnumbered (finds_primitive wf .invalid)
    (finds_primitive otherWf .invalid) monomorphic.2.corresponds_self monomorphic.not_idle

theorem mirrors_literal (wf : state.store.WellFormed)
    (otherWf : other.store.WellFormed) (value : Literal) :
    Mirrors (literal value) state (literal value) other Derives := by
  have monomorphic : (TreeChecker.literal value).Monomorphic := by
    cases value with
    | glob pattern => exact (monomorphic_primitive .file).list
    | _ => exact monomorphic_primitive _
  exact mirrors_of_finds .unnumbered (finds_literal wf value)
    (finds_literal otherWf value) monomorphic.2.corresponds_self monomorphic.not_idle

section Applications

variable {arg fn prunedArg prunedFn : TypeId}

/-- A pipe ends with the record that it maps its function, if it does. -/
theorem succeeds_piped (wf : state.store.WellFormed) (node : NodeId) (piped : Piped) :
    Succeeds (do
      if piped.broadcast then
        recordBroadcast node
      return piped.result : Typing TypeId) state fun type last =>
        type = piped.result ∧ last.store = state.store ∧
          ∃ broadcasts, last.Steps state broadcasts [] := by
  split
  · exact ⟨_, rfl, rfl, rfl, [node], wf.follows_self, rfl, rfl, (append_nil _).symm⟩
  · exact succeeds_pure ⟨rfl, rfl, _, steps_self wf⟩

section

variable (wf : state.store.WellFormed) (otherWf : other.store.WellFormed)

include wf otherWf

/-- The type of a pipe. -/
theorem mirrors_pipe (policy : QuantifierPolicy) (site : Site)
    (args : state.store.Corresponds other.store arg prunedArg)
    (fns : state.store.Corresponds other.store fn prunedFn)
    (argFree : (state.store.tree arg).body.quantifierFree)
    (fnFree : (state.store.tree fn).body.quantifierFree)
    (active : ¬(other.store.tree prunedArg).Idle) :
    Mirrors (pipe policy site arg fn) state
      (pipe .prune site prunedArg prunedFn) other Derives := by
  have equivalentArgs := args.trees.equivalent argFree
  have equivalentFns := fns.trees.equivalent fnFree
  refine mirrors_store_bind ?_
  rw [args.isInvalid_eq wf otherWf, fns.isInvalid_eq wf otherWf]
  split
  · exact mirrors_invalid wf otherWf
  refine mirrors_bind (succeeds_checked (Checked.succeeds_pipe_scheme policy wf
    fns.inside equivalentFns.scheme args.inside equivalentArgs.scheme))
    (succeeds_checked (Checked.succeeds_pipe_scheme .prune otherWf fns.prunedInside
      equivalentFns.otherScheme args.prunedInside equivalentArgs.otherScheme)) ?_
  rintro _ mid _ otherMid midWf otherMidWf ⟨outcome, pipes, shown⟩
    ⟨otherOutcome, otherPipes, otherShown⟩
  cases shown with
  | none =>
    exact ((reporting_mismatch _ _ _ _).bind fun _ => sameSteps_invalid.undisturbing).mirrors
  | @some piped result agrees =>
    obtain ⟨tree, broadcast⟩ := result
    obtain ⟨⟨inside, rfl⟩, _⟩ := agrees
    obtain ⟨otherTree, rfl, corresponds, activeResult⟩ :=
      pipes.of_equivalent otherPipes equivalentFns equivalentArgs active
    cases otherShown with
    | some otherAgrees =>
      obtain ⟨⟨otherInside, rfl⟩, _⟩ := otherAgrees
      refine (succeeds_piped midWf site.id piped).ensures.mono ?_
      rintro _ last ⟨rfl, storeEq, _⟩ _
      rw [storeEq]
      refine ⟨midWf.follows_self, (succeeds_piped otherMidWf site.id _).mono ?_⟩
      rintro _ final ⟨rfl, otherStoreEq, finalSteps⟩
      rw [otherStoreEq]
      exact ⟨finalSteps, inside, otherInside, corresponds, activeResult⟩

/-- The type of an application without arguments. -/
theorem mirrors_applyUnit (span : Span) (fns : state.store.Corresponds other.store fn prunedFn)
    (fnFree : (state.store.tree fn).body.quantifierFree) :
    Mirrors (applyUnit fn span) state (applyUnit prunedFn span) other Derives := by
  have applied := wf.applyUnit_rel fns.inside
  have otherApplied := otherWf.applyUnit_rel fns.prunedInside
  refine mirrors_store_bind ?_
  generalize state.store.applyUnit fn = found at applied
  generalize treeEq : (state.store.tree fn).resultFor (.primitive .unit) = tree at applied
  cases applied with
  | none =>
    exact (reporting_of_rest fun _ => (reporting_mismatch _ _ _ _).bind
      fun _ => sameSteps_invalid.undisturbing).mirrors
  | @some result tree shown =>
    obtain ⟨inside, rfl⟩ := shown
    have fnEq := Tree.resultFor_eq_some.1 treeEq
    have monomorphic : (state.store.tree fn).Monomorphic :=
      (fns.trees.equivalent fnFree).scheme.monomorphic (by simp [fnEq, Tree.kind])
    rw [fns.tree_eq monomorphic.1, treeEq] at otherApplied
    generalize other.store.applyUnit prunedFn = otherFound at otherApplied
    cases otherApplied with
    | some otherShown =>
      have resultMono : (state.store.tree result).Monomorphic :=
        monomorphic.of_mem_children (by simp [fnEq, Tree.children])
      refine mirrors_pure wf otherWf ⟨inside, otherShown.1, ?_, ?_⟩ <;>
        rw [otherShown.2]
      · exact resultMono.2.corresponds_self
      · exact resultMono.not_idle

/-- What is left of a function after one more argument. -/
theorem mirrors_applyArgument (policy : QuantifierPolicy) (span : Span)
    (position : Nat) {fn prunedFn : Option TypeId}
    (fns : Option.Rel (state.store.Equivalent other.store) fn prunedFn)
    (args : state.store.Corresponds other.store arg prunedArg)
    (argFree : (state.store.tree arg).body.quantifierFree)
    (active : ¬(other.store.tree prunedArg).Idle) :
    Mirrors (applyArgument policy span position fn arg) state
      (applyArgument .prune span position prunedFn prunedArg) other
        fun kept pruned => Option.Rel fun type image =>
          kept.Equivalent pruned type image ∧ ¬(pruned.tree image).Idle := by
  have equivalentArgs := args.trees.equivalent argFree
  cases fns with
  | none => exact mirrors_pure wf otherWf .none
  | @some fn prunedFn fns =>
    obtain ⟨functionInside, prunedFnInside, equivalentFns⟩ := fns
    refine mirrors_store_bind ?_
    rw [args.isInvalid_eq wf otherWf]
    split
    · exact mirrors_pure wf otherWf .none
    refine mirrors_bind (succeeds_checked (Checked.succeeds_apply_scheme policy wf
      functionInside equivalentFns.scheme args.inside equivalentArgs.scheme))
      (succeeds_checked (Checked.succeeds_apply_scheme .prune otherWf
        prunedFnInside equivalentFns.otherScheme args.prunedInside equivalentArgs.otherScheme)) ?_
    rintro returned mid otherReturned otherMid midWf otherMidWf
      ⟨accepts, gives⟩ ⟨otherAccepts, otherGives⟩
    cases returned with
    | none => exact ((reporting_mismatch _ _ _ _).bind fun _ => undisturbing_pure none).mirrors
    | some result =>
      have accepted := otherAccepts.2
        ((accepts.1 rfl).of_equivalent equivalentFns equivalentArgs active)
      obtain ⟨otherResult, rfl⟩ := isSome_iff_exists.1 accepted
      obtain ⟨inside, resultGives⟩ := gives result rfl
      obtain ⟨otherInside, otherResultGives⟩ := otherGives otherResult rfl
      exact mirrors_pure midWf otherMidWf (.some ⟨⟨inside, otherInside,
        resultGives.equivalent otherResultGives equivalentFns equivalentArgs⟩,
        otherResultGives.active rfl⟩)

end

end Applications

section Literals

/-- Two steps of unification.  An idle type is found only for a type with itself,
and then in both. -/
theorem corresponds_of_unified {keptLast prunedLast : Store}
    {left right prunedLeft prunedRight type : TypeId} {prunedFound : Option TypeId}
    (wf : kept.WellFormed) (prunedWf : pruned.WellFormed)
    (lefts : kept.Corresponds pruned left prunedLeft)
    (rights : kept.Corresponds pruned right prunedRight)
    (leftFree : (kept.tree left).body.quantifierFree)
    (rightFree : (kept.tree right).body.quantifierFree)
    (unified : kept.Unified keptLast left right (some type))
    (prunedUnified : pruned.Unified prunedLast prunedLeft prunedRight prunedFound) :
    ∃ image, prunedFound = some image ∧
      keptLast.Corresponds prunedLast type image := by
  have equivalentLefts := lefts.trees.equivalent leftFree
  have equivalentRights := rights.trees.equivalent rightFree
  have isSome : prunedFound.isSome := by
    rw [prunedUnified.isSome_iff, ← equivalentLefts.instances_eq, ← equivalentRights.instances_eq]
    exact unified.isSome_iff.1 rfl
  obtain ⟨image, rfl⟩ := isSome_iff_exists.1 isSome
  refine ⟨image, rfl, ?_⟩
  obtain ⟨inside, scheme⟩ := unified.scheme type rfl
  obtain ⟨prunedInside, prunedScheme⟩ := prunedUnified.scheme image rfl
  have equivalent : (keptLast.tree type).Equivalent (prunedLast.tree image) := by
    refine ⟨scheme, prunedScheme, ?_⟩
    rw [unified.instances_eq type rfl, prunedUnified.instances_eq image rfl,
      equivalentLefts.instances_eq, equivalentRights.instances_eq]
  refine ⟨inside, prunedInside, equivalent.corresponds, ?_⟩
  intro idle
  obtain rfl := prunedUnified.idle image rfl idle
  cases prunedUnified.self rfl
  have prunedShown := prunedUnified.follows.shows prunedWf ⟨lefts.prunedInside, rfl⟩
  rw [prunedShown.2] at idle ⊢
  obtain ⟨rfl, treeEq⟩ := lefts.idle idle
  obtain ⟨rfl, _⟩ := rights.idle idle
  cases unified.self rfl
  have shown := unified.follows.shows wf ⟨lefts.inside, rfl⟩
  rw [shown.2]
  exact ⟨rfl, treeEq⟩

theorem succeeds_unify (wf : state.store.WellFormed) {left right : TypeId}
    (leftHas : state.store.Has Scheme left) (rightHas : state.store.Has Scheme right) :
    Succeeds (alloc (Alloc.unify left right)) state fun found last =>
      last.Steps state [] [] ∧ state.store.Unified last.store left right found := by
  have yields := (Alloc.yields_unify_scheme wf leftHas rightHas).mono
    fun _ _ unified => And.intro unified.follows unified
  exact succeeds_alloc yields

section

variable (wf : state.store.WellFormed) (otherWf : other.store.WellFormed)

include wf otherWf

/-- The common type of elements.  Unless there is but one of them, they are type
schemes. -/
theorem mirrors_commonType (index : Nat) {common prunedCommon : Option TypeId}
    (commons : Option.Rel (state.store.Corresponds other.store) common prunedCommon)
    (sawInvalid : Bool)
    (paired : ElementsAlike (state.store.Corresponds other.store) elements prunedElements)
    (schemes : 2 ≤ (common.toList ++ elements.map Prod.fst).length →
      ∀ type ∈ common.toList ++ elements.map Prod.fst, state.store.Has Scheme type) :
    Mirrors (commonType index common sawInvalid elements) state
      (commonType index prunedCommon sawInvalid prunedElements) other
        fun kept pruned => Option.Rel (kept.Corresponds pruned) := by
  induction elements generalizing state other index common prunedCommon sawInvalid
    prunedElements with
  | nil =>
    cases paired
    refine mirrors_pure wf otherWf ?_
    split
    · exact .none
    · exact commons
  | cons element rest ih =>
    obtain ⟨type, span⟩ := element
    obtain ⟨⟨prunedType, _⟩, prunedRest, ⟨types, rfl⟩, restPaired, rfl⟩ :=
      forall₂_cons_left_iff.1 paired
    refine mirrors_store_bind ?_
    rw [types.isInvalid_eq wf otherWf]
    split
    · refine ih wf otherWf _ commons _ restPaired ?_
      have fewer : (common.toList ++ rest.map Prod.fst).Sublist
          (common.toList ++ ((type, span) :: rest).map Prod.fst) :=
        (sublist_cons_self _ _).append_left _
      exact fun several scheme mem =>
        schemes (several.trans fewer.length_le) scheme (fewer.subset mem)
    cases commons with
    | none =>
      exact ih wf otherWf _ (.some types) _ restPaired (by simpa using schemes)
    | @some previous prunedPrevious commons =>
      have allSchemes := schemes (by simp)
      simp only [toList_some, map_cons, singleton_append, forall_mem_cons] at allSchemes
      obtain ⟨previousHas, typeHas, restHave⟩ := allSchemes
      have previousFree := previousHas.2.quantifierFree
      have typeFree := typeHas.2.quantifierFree
      refine mirrors_bind (succeeds_unify wf previousHas typeHas)
        (succeeds_unify otherWf
          ⟨commons.prunedInside, (commons.trees.equivalent previousFree).otherScheme⟩
          ⟨types.prunedInside, (types.trees.equivalent typeFree).otherScheme⟩) ?_
      intro found mid prunedFound otherMid _ _ unified prunedUnified
      cases found with
      | none =>
        exact (reporting_of_rest fun _ => (reporting_report _).bind
          fun _ => undisturbing_pure none).mirrors
      | some joined =>
        obtain ⟨prunedJoined, rfl, corresponds⟩ := corresponds_of_unified wf
          otherWf commons types previousFree typeFree unified prunedUnified
        have follows := unified.follows
        refine ih follows.wellFormed prunedUnified.follows.wellFormed _
          (.some corresponds) _ (restPaired.imp fun _ _ pair =>
            ⟨pair.1.of_follows wf otherWf follows prunedUnified.follows, pair.2⟩) ?_
        simp only [toList_some, singleton_append, forall_mem_cons]
        exact fun _ => ⟨unified.scheme joined rfl,
          fun scheme mem => follows.has wf (restHave scheme mem)⟩

theorem mirrors_elementType (policy : ListPolicy)
    (paired : ElementsAlike (state.store.Corresponds other.store) elements prunedElements)
    (schemes : policy = .unify → 2 ≤ elements.length → ∀ element ∈ elements,
      state.store.Has Scheme element.1) :
    Mirrors (elementType policy elements) state (elementType policy prunedElements) other
      fun kept pruned => Option.Rel (kept.Corresponds pruned) := by
  cases policy with
  | unify =>
    refine mirrors_commonType wf otherWf 0 .none false paired ?_
    simpa using schemes rfl
  | lastElement => exact mirrors_pure wf otherWf paired.getLast?

/-- The type of a list literal. -/
theorem mirrors_listLiteral (policy : ListPolicy) (span : Span)
    (paired : ElementsAlike (state.store.Corresponds other.store) elements prunedElements)
    (schemes : policy = .unify → 2 ≤ elements.length → ∀ element ∈ elements,
      state.store.Has Tree.Scheme element.1) :
    Mirrors (listLiteral policy span elements) state
      (listLiteral policy span prunedElements) other Derives := by
  cases paired with
  | nil => exact (reporting_reject _).mirrors
  | @cons element prunedElement rest prunedRest pair restPaired =>
    refine (mirrors_elementType wf otherWf policy (.cons pair restPaired) schemes).bind ?_ ?_
    · intro found
      cases found with
      | none => exact sameSteps_invalid.undisturbing
      | some type =>
        refine undisturbing_store_bind fun store => ?_
        split
        · exact sameSteps_invalid.undisturbing
        · exact (SameSteps.alloc _).undisturbing
    intro found mid prunedFound otherMid follows otherFollows founds
    have midWf := follows.wellFormed
    have otherMidWf := otherFollows.wellFormed
    cases founds with
    | none => exact mirrors_invalid midWf otherMidWf
    | @some type prunedType types =>
      refine mirrors_store_bind ?_
      rw [types.isInvalid_eq midWf otherMidWf]
      split
      · exact mirrors_invalid midWf otherMidWf
      · exact mirrors_of_finds .unnumbered
          (.of_alloc ((Alloc.yields_list midWf types.inside).mono fun _ _ built => built.1))
          (.of_alloc ((Alloc.yields_list otherMidWf types.prunedInside).mono
            fun _ _ built => built.1))
          (types.trees.list types.tree_eq) (by simp [Tree.Idle, Tree.kind])

end

theorem closed_of_paired {types prunedTypes : List TypeId}
    (paired : List.Forall₂ (kept.Corresponds pruned) types prunedTypes) :
    (∀ type ∈ types, kept.ClosedType type) ∧ ∀ type ∈ prunedTypes, pruned.ClosedType type := by
  induction paired with
  | nil => simp
  | cons pair _ ih =>
    rw [forall_mem_cons, forall_mem_cons]
    exact ⟨⟨⟨pair.inside, pair.trees.closed⟩, ih.1⟩,
      ⟨pair.prunedInside, pair.trees.prunedClosed⟩, ih.2⟩

theorem trees_eq_of_paired {types prunedTypes : List TypeId}
    (paired : List.Forall₂ (kept.Corresponds pruned) types prunedTypes)
    (free : ∀ type ∈ types, (kept.tree type).quantifierFree) :
    prunedTypes.map pruned.tree = types.map kept.tree := by
  induction paired with
  | nil => rfl
  | cons pair _ ih =>
    rw [forall_mem_cons] at free
    rw [map_cons, map_cons, pair.tree_eq free.1, ih free.2]

theorem corresponds_tuple {parts prunedParts : List TypeId}
    (paired : List.Forall₂ (kept.Corresponds pruned) parts prunedParts) :
    (Tree.tuple (parts.map kept.tree)).Corresponds
      (.tuple (prunedParts.map pruned.tree)) := by
  obtain ⟨eachClosed, eachPrunedClosed⟩ := closed_of_paired paired
  have closed : (Tree.tuple (parts.map kept.tree)).Closed :=
    closed_lasting.tuple (List.forall_mem_map.2 fun part mem =>
      (eachClosed part mem).2)
  have prunedClosed : (Tree.tuple (prunedParts.map pruned.tree)).Closed :=
    closed_lasting.tuple (List.forall_mem_map.2 fun part mem =>
      (eachPrunedClosed part mem).2)
  refine ⟨closed, prunedClosed, by simp [Tree.body, Tree.kind], ?_⟩
  intro free
  have eachFree : ∀ part ∈ parts, (kept.tree part).quantifierFree := by
    simpa [Tree.body, Tree.quantifierFree, Tree.quantifierFreeAll_eq_all] using free
  rw [trees_eq_of_paired paired eachFree]
  exact closed.corresponds_self.equivalent free

/-- The type of a tuple literal. -/
theorem mirrors_tupleLiteral (wf : state.store.WellFormed)
    (otherWf : other.store.WellFormed) {parts prunedParts : List TypeId}
    (paired : List.Forall₂ (state.store.Corresponds other.store) parts prunedParts) :
    Mirrors (tupleLiteral parts) state (tupleLiteral prunedParts) other Derives := by
  have emptyEq : parts.isEmpty = prunedParts.isEmpty := by
    cases paired <;> rfl
  have anyEq : parts.any state.store.isInvalid =
      prunedParts.any other.store.isInvalid := by
    rw [any_eq_not_all_not, any_eq_not_all_not, all_eq_all paired]
    exact fun _ _ pair => by rw [pair.isInvalid_eq wf otherWf]
  unfold tupleLiteral
  rw [emptyEq]
  split
  · have monomorphic := Tree.monomorphic_primitive .unit
    exact mirrors_of_finds .unnumbered (finds_primitive wf .unit)
      (finds_primitive otherWf .unit) monomorphic.2.corresponds_self monomorphic.not_idle
  refine mirrors_store_bind ?_
  rw [anyEq]
  split
  · exact mirrors_invalid wf otherWf
  · obtain ⟨closed, prunedClosed⟩ := closed_of_paired paired
    exact mirrors_of_finds .unnumbered
      (.of_alloc ((Alloc.yields_tuple wf fun part mem =>
        (closed part mem).1).mono fun _ _ built => built.1))
      (.of_alloc ((Alloc.yields_tuple otherWf fun part mem =>
        (prunedClosed part mem).1).mono fun _ _ built => built.1))
      (corresponds_tuple paired) (by simp [Tree.Idle, Tree.kind])

end Literals

end Typing
end PipeCheck
