import PipeCheck.Proofs.Typing.ElementLoop
import PipeCheck.Proofs.Typing.Monomorphic

/-!
# What a step of typing finds

A step gives the type of one node, whose operands have types already.  It records
nothing, and where these types have neither variables nor quantifiers, it finds what
the checker on trees says.
-/

namespace PipeCheck

open List TreeChecker

namespace Progress

variable {earlier mid later : Progress} {broadcasts moreBroadcasts : List NodeId}
  {issues moreIssues : List Issue}

/-- Later progress has a store that follows, the same recorded types, and some
more broadcasts and issues. -/
structure Steps (later earlier : Progress) (broadcasts : List NodeId) (issues : List Issue) :
    Prop where
  /-- No type has changed. -/
  follows : later.store.Follows earlier.store
  /-- No type is recorded. -/
  types_eq : later.types = earlier.types
  /-- The new pipes come first. -/
  broadcasts_eq : later.broadcasts = broadcasts ++ earlier.broadcasts
  /-- The new issues come last. -/
  issues_eq : later.issues.toList = earlier.issues.toList ++ issues

theorem steps_self (wf : earlier.store.WellFormed) : earlier.Steps earlier [] [] :=
  ⟨wf.follows_self, rfl, rfl, (append_nil _).symm⟩

theorem steps_store {store : Store} (follows : store.Follows earlier.store) :
    ({ earlier with store } : Progress).Steps earlier [] [] :=
  ⟨follows, rfl, rfl, (append_nil _).symm⟩

theorem steps_reported {store : Store} (follows : store.Follows earlier.store) (issue : Issue) :
    Steps { earlier with store, issues := earlier.issues.push issue } earlier [] [issue] :=
  ⟨follows, rfl, rfl, Array.toList_push⟩

theorem Steps.trans (second : later.Steps mid moreBroadcasts moreIssues)
    (first : mid.Steps earlier broadcasts issues) :
    later.Steps earlier (moreBroadcasts ++ broadcasts) (issues ++ moreIssues) where
  follows := second.follows.trans first.follows
  types_eq := second.types_eq.trans first.types_eq
  broadcasts_eq := by
    rw [second.broadcasts_eq, first.broadcasts_eq, append_assoc]
  issues_eq := by
    rw [second.issues_eq, first.issues_eq, append_assoc]

/-- The store is in order and has all types of a base store, and all recorded
types are stored. -/
structure Sound (base : Store) (progress : Progress) : Prop where
  /-- The store is in order. -/
  wellFormed : progress.store.WellFormed
  /-- No type of the base has changed. -/
  grown : progress.store.Extends base
  /-- Recorded types are stored. -/
  inside : ∀ entry ∈ progress.types, entry.2 < progress.store.size

end Progress

namespace Typing

open Progress

section Steps

variable {α : Type} {state : Progress} {node : NodeId} {post : α → Store → Prop}

theorem succeeds_alloc {create : Alloc α} (yields : Yields create state.store fun value store =>
      store.Follows state.store ∧ post value store) :
    Succeeds (alloc create) state fun value last =>
      last.Steps state [] [] ∧ post value last.store :=
  ⟨_, rfl, steps_store yields.1, yields.2⟩

theorem succeeds_checked {create : Checked α}
    (succeeds : Succeeds create state.store fun value store =>
      store.Follows state.store ∧ post value store) :
    Succeeds (checked create) state fun value last =>
      last.Steps state [] [] ∧ post value last.store := by
  obtain ⟨value, ok, follows, holds⟩ := succeeds
  exact ⟨value, ok, steps_store follows, holds⟩

theorem ensures_of_checked {create : Checked α} (ensures : Ensures create state.store post) :
    Ensures (checked create) state fun value last =>
      ∃ store, last = { state with store } ∧ post value store := by
  intro value last runEq
  have ended : (create.run.run state.store).1 = .ok value ∧
      { state with store := (create.run.run state.store).2 } = last :=
    Prod.mk.inj runEq
  exact ⟨_, ended.2.symm, ensures value _ (Prod.ext ended.1 rfl)⟩

theorem ensures_store_bind {next : Store → Typing α} {post : α → Progress → Prop}
    (ensures : Ensures (next state.store) state post) :
    Ensures (store >>= next) state post :=
  ensures

theorem succeeds_store_bind {next : Store → Typing α} {post : α → Progress → Prop}
    (succeeds : Succeeds (next state.store) state post) :
    Succeeds (store >>= next) state post :=
  succeeds

theorem succeeds_report (wf : state.store.WellFormed) (issue : Issue) :
    Succeeds (report issue) state fun _ last => last.Steps state [] [issue] :=
  ⟨(), rfl, steps_reported wf.follows_self issue⟩

theorem succeeds_recordBroadcast (wf : state.store.WellFormed) (node : NodeId) :
    Succeeds (recordBroadcast node) state fun _ last => last.Steps state [node] [] :=
  ⟨(), rfl, wf.follows_self, rfl, rfl, (append_nil _).symm⟩

/-- A step at a node finds what a judgement says. -/
def Finds (node : NodeId) (computation : Typing TypeId) (progress : Progress)
    (own : Judgement) : Prop :=
  Succeeds computation progress fun type last =>
    last.Steps progress (if own.broadcast then [node] else []) own.issues ∧
      last.store.Shows type own.type

/-- What was found before comes first. -/
theorem Finds.after {action : Typing α} {next : α → Typing TypeId} {post : α → Progress → Prop}
    {issues : List Issue} {own : Judgement}
    (first : Succeeds action state fun value mid => mid.Steps state [] issues ∧ post value mid)
    (rest : ∀ value mid, mid.Steps state [] issues → post value mid →
      Finds node (next value) mid own) :
    Finds node (action >>= next) state (own.after issues) := by
  refine Succeeds.bind first ?_
  rintro value mid ⟨steps, holds⟩
  refine (rest value mid steps holds).mono ?_
  rintro type last ⟨lastSteps, shown⟩
  refine ⟨?_, shown⟩
  have both := lastSteps.trans steps
  rwa [append_nil] at both

theorem Finds.bind {action : Typing α} {next : α → Typing TypeId} {post : α → Progress → Prop}
    {own : Judgement}
    (first : Succeeds action state fun value mid => mid.Steps state [] [] ∧ post value mid)
    (rest : ∀ value mid, mid.Steps state [] [] → post value mid → Finds node (next value) mid own) :
    Finds node (action >>= next) state own :=
  Finds.after first rest

theorem Finds.of_alloc {create : Alloc TypeId} {tree : Tree}
    (yields : Yields create state.store fun id store => state.store.Builds store id tree) :
    Finds node (alloc create) state { type := tree } :=
  succeeds_alloc (yields.mono fun _ _ built => ⟨built.toFollows, built.shows⟩)

section

variable (wf : state.store.WellFormed)

include wf

theorem finds_primitive (which : Primitive) :
    Finds node (alloc (Alloc.primitive which)) state { type := .primitive which } :=
  .of_alloc (Alloc.yields_primitive wf which)

theorem finds_shown {id : TypeId} {tree : Tree} (shown : state.store.Shows id tree) :
    Finds node (return id) state { type := tree } :=
  succeeds_pure ⟨steps_self wf, shown⟩

theorem finds_reject (issue : Issue) :
    Finds node (reject issue) state (Judgement.invalid.after [issue]) := by
  refine Finds.after ((succeeds_report wf issue).mono fun _ _ steps => ⟨steps, trivial⟩) ?_
  intro _ mid steps _
  exact finds_primitive steps.follows.wellFormed .invalid

theorem finds_literal (value : Literal) :
    Finds node (literal value) state { type := TreeChecker.literal value } := by
  cases value with
  | glob pattern =>
    refine .of_alloc ?_
    rw [yields_bind]
    refine (Alloc.yields_primitive wf .file).mono ?_
    intro file mid fileBuilt
    refine (Alloc.yields_list fileBuilt.wellFormed fileBuilt.inside).mono ?_
    rintro id last ⟨built, _⟩
    rw [fileBuilt.tree_eq] at built
    exact fileBuilt.toFollows.builds built
  | _ => exact finds_primitive wf _

theorem finds_reference {env : Environment} {base : Store} (policy : ListPolicy) (site : Site)
    (name : String) {symbol : Option SymbolId}
    (shown : ∀ type ∈ symbol.bind env.typeOf?, state.store.Shows type (base.tree type)) :
    Finds node (reference env name symbol site.span) state
      (check policy (env.signature base) (.reference site name symbol)) := by
  have treeEq : symbol.bind (env.signature base).typeOf? =
      (symbol.bind env.typeOf?).map base.tree := by
    cases symbol <;> rfl
  rw [check, reference, treeEq]
  cases found : symbol.bind env.typeOf? with
  | none => exact finds_reject wf _
  | some type => exact finds_shown wf (shown type found)

end

section Applications

variable {function arg : TypeId} {fnTree argTree : Tree}

section

variable (wf : state.store.WellFormed)

include wf

section

variable (fnShown : state.store.Shows function fnTree) (argShown : state.store.Shows arg argTree)
  (monomorphic : fnTree.Monomorphic)

include fnShown argShown monomorphic

/-- The report of a mismatch names the parameter of a function. -/
theorem succeeds_mismatch (position : Option Nat) (span : Span) :
    Succeeds (mismatch function arg position span) state fun _ last =>
      last.Steps state [] [TreeChecker.mismatch fnTree argTree position span] := by
  obtain ⟨_, rfl⟩ := fnShown
  obtain ⟨_, rfl⟩ := argShown
  refine succeeds_store_bind ?_
  rw [TreeChecker.mismatch, ← wf.render_eq, ← wf.render_eq]
  dsimp only
  rw [Store.isFunction, wf.isKind_eq monomorphic]
  by_cases isFunction : (state.store.tree function).kind = .function
  · obtain ⟨domainTree, codomainTree, treeEq⟩ := Tree.exists_eq_function isFunction
    obtain ⟨domain, codomain, shapeEq, rfl, _⟩ := wf.shape_of_tree_function treeEq
    have paramEq : state.store.parameter function = .ok domain := by
      simp [Store.parameter, Store.body, shapeEq]
    rw [if_pos (decide_eq_true isFunction), paramEq, treeEq, Tree.parameter?, Option.map_some,
      ← wf.render_eq]
    exact succeeds_report wf _
  · have noParam : (state.store.tree function).parameter? = none := by
      cases treeEq : state.store.tree function with
      | function domain codomain =>
        rw [treeEq] at isFunction
        exact absurd rfl isFunction
      | _ => rfl
    rw [if_neg (by simpa using isFunction), noParam, Option.map_none]
    exact succeeds_report wf _

/-- After a mismatch the type is the invalid one. -/
theorem finds_mismatch (position : Option Nat) (span : Span) :
    Finds node (do mismatch function arg position span; invalid) state
      (.rejected (TreeChecker.mismatch fnTree argTree position span)) := by
  change Finds node _ state
    (Judgement.invalid.after [TreeChecker.mismatch fnTree argTree position span])
  refine Finds.after ((succeeds_mismatch wf fnShown argShown monomorphic
    position span).mono fun _ _ steps => ⟨steps, trivial⟩) ?_
  intro _ mid steps _
  exact finds_primitive steps.follows.wellFormed .invalid

end

/-- The type of a pipe. -/
theorem finds_pipe (policy : QuantifierPolicy) (site : Site)
    (fnShown : state.store.Shows function fnTree) (argShown : state.store.Shows arg argTree)
    (fnMono : fnTree.Monomorphic) (argMono : argTree.Monomorphic) :
    Finds site.id (pipe policy site arg function) state
      (TreeChecker.pipe site.span argTree fnTree) := by
  have argInvalid := argShown.isInvalid_eq wf argMono
  have fnInvalid := fnShown.isInvalid_eq wf fnMono
  refine succeeds_store_bind ?_
  unfold TreeChecker.pipe
  by_cases someInvalid : argTree = .invalid ∨ fnTree = .invalid
  · rw [if_pos someInvalid, if_pos (by simpa [argInvalid, fnInvalid] using someInvalid)]
    exact finds_primitive wf .invalid
  rw [if_neg someInvalid, if_neg (by simpa [argInvalid, fnInvalid] using someInvalid)]
  refine Finds.bind (succeeds_checked (Checked.succeeds_pipe_monomorphic policy wf
    fnShown argShown fnMono argMono)) ?_
  intro returned mid steps piped
  have midWf := steps.follows.wellFormed
  generalize fnTree.resultPiped argTree = result at piped
  cases piped with
  | none =>
    exact finds_mismatch midWf (steps.follows.shows wf fnShown)
      (steps.follows.shows wf argShown) fnMono none site.span
  | @some piped result agrees =>
    obtain ⟨type, broadcast⟩ := piped
    obtain ⟨tree, mapped⟩ := result
    obtain ⟨shown, rfl⟩ := agrees
    cases broadcast with
    | false => exact succeeds_pure ⟨steps_self midWf, shown⟩
    | true =>
      refine (succeeds_recordBroadcast midWf site.id).bind ?_
      intro _ last lastSteps
      exact succeeds_pure ⟨lastSteps, lastSteps.follows.shows midWf shown⟩

theorem finds_applyUnit (fnShown : state.store.Shows function fnTree)
    (monomorphic : fnTree.Monomorphic) (valid : fnTree ≠ .invalid) (span : Span) :
    Finds node (applyUnit function span) state
      (application span fnTree []) := by
  obtain ⟨functionInside, rfl⟩ := fnShown
  have applied := wf.applyUnit_rel functionInside
  rw [application, if_neg valid, if_pos (by rfl)]
  refine succeeds_store_bind ?_
  generalize (state.store.tree function).resultFor (.primitive .unit) = result at applied
  generalize state.store.applyUnit function = returned at applied
  cases applied with
  | some shown => exact finds_shown wf shown
  | none =>
    refine Finds.bind (succeeds_alloc ((Alloc.yields_primitive wf .unit).mono
      fun _ _ built => ⟨built.toFollows, built.shows⟩)) ?_
    intro unit mid steps unitShown
    exact finds_mismatch steps.follows.wellFormed
      (steps.follows.shows wf ⟨functionInside, rfl⟩) unitShown monomorphic none span

theorem succeeds_applyArgument
    (policy : QuantifierPolicy) (span : Span) (position : Nat) {function : Option TypeId}
    {fnTree : Option Tree} (fnShown : Option.Rel state.store.Shows function fnTree)
    (argShown : state.store.Shows arg argTree) (fnMono : ∀ tree ∈ fnTree, tree.Monomorphic)
    (argMono : argTree.Monomorphic) :
    Succeeds (applyArgument policy span position function arg) state fun found last =>
      last.Steps state []
          (TreeChecker.applyArgument span position fnTree argTree).2 ∧
        Option.Rel last.store.Shows found
          (TreeChecker.applyArgument span position fnTree argTree).1 := by
  cases fnShown with
  | none => exact succeeds_pure ⟨steps_self wf, .none⟩
  | @some function tree shown =>
    have monomorphic := fnMono tree rfl
    refine succeeds_store_bind ?_
    rw [TreeChecker.applyArgument, argShown.isInvalid_eq wf argMono]
    by_cases isInvalid : argTree = .invalid
    · rw [if_pos (decide_eq_true isInvalid), if_pos isInvalid]
      exact succeeds_pure ⟨steps_self wf, .none⟩
    rw [if_neg (by simpa using isInvalid), if_neg isInvalid]
    refine (succeeds_checked (Checked.succeeds_apply_monomorphic policy wf shown
      argShown monomorphic)).bind ?_
    rintro returned mid ⟨steps, agrees⟩
    have midWf := steps.follows.wellFormed
    generalize tree.resultFor argTree = result at agrees
    cases agrees with
    | some resultShown => exact succeeds_pure ⟨steps, .some resultShown⟩
    | none =>
      refine (succeeds_mismatch midWf (steps.follows.shows wf shown)
        (steps.follows.shows wf argShown) monomorphic _ span).bind ?_
      intro _ last lastSteps
      exact succeeds_pure ⟨lastSteps.trans steps, .none⟩

end

end Applications

section Literals

variable {elements : List (TypeId × Span)} {trees : List (Tree × Span)}

/-- Elements have given trees and spans. -/
def ShowsElements (store : Store) :
    List (TypeId × Span) → List (Tree × Span) → Prop :=
  List.Forall₂ fun element shown => store.Shows element.1 shown.1 ∧ element.2 = shown.2

theorem showsElements_of_follows {store last : Store} (follows : last.Follows store)
    (wf : store.WellFormed) (shown : ShowsElements store elements trees) :
    ShowsElements last elements trees :=
  shown.imp fun _ _ agrees => ⟨follows.shows wf agrees.1, agrees.2⟩

/-- On trees the walk through the elements that are left comes to this end.  Once there is
a common type, all further elements must have it. -/
structure Awaits (goal : Option Tree × List Issue) (start : Progress) (index : Nat)
    (common : Option TypeId) (sawInvalid : Bool) (rest : List (TypeId × Span))
    (trees : List (Tree × Span)) (state : Progress) : Prop where
  /-- Nothing is recorded or reported on the way. -/
  steps : state.Steps start [] []
  /-- The trees of the elements that are left. -/
  shown : ShowsElements state.store rest trees
  /-- They have neither variables nor quantifiers. -/
  each : ∀ element ∈ trees, element.1.Monomorphic
  /-- What the checker on trees finds from here on. -/
  goal_eq : match common with
    | none => TreeChecker.commonType index sawInvalid trees = goal
    | some id => ∃ expected, state.store.Shows id expected ∧ expected ≠ .invalid ∧
      expected.Monomorphic ∧ TreeChecker.agreeing expected index sawInvalid trees = goal

theorem Awaits.exists_cons {goal : Option Tree × List Issue} {start : Progress} {index : Nat}
    {common : Option TypeId} {sawInvalid : Bool} {id : TypeId} {span : Span}
    {rest : List (TypeId × Span)}
    (awaits : Awaits goal start index common sawInvalid ((id, span) :: rest) trees state) :
    ∃ tree restTrees, trees = (tree, span) :: restTrees ∧ state.store.Shows id tree ∧
      tree.Monomorphic ∧ state.store.isInvalid id = decide (tree = .invalid) ∧
      ShowsElements state.store rest restTrees ∧ ∀ element ∈ restTrees, element.1.Monomorphic := by
  obtain ⟨⟨tree, _⟩, restTrees, ⟨shown, rfl⟩, restShown, rfl⟩ :=
    forall₂_cons_left_iff.1 awaits.shown
  obtain ⟨monomorphic, restMono⟩ := forall_mem_cons.1 awaits.each
  exact ⟨tree, restTrees, rfl, shown, monomorphic,
    shown.isInvalid_eq awaits.steps.follows.wellFormed monomorphic, restShown, restMono⟩

theorem elementLoop_awaits (goal : Option Tree × List Issue) (start : Progress) :
    ElementLoop
      (fun index common sawInvalid rest state => ∃ trees,
        Awaits goal start index common sawInvalid rest trees state)
      fun found last =>
        last.Steps start [] goal.2 ∧ Option.Rel last.store.Shows found goal.1 where
  done := by
    rintro index common sawInvalid state ⟨trees, steps, shown, _, goalEq⟩
    cases shown
    cases common with
    | none =>
      obtain rfl := goalEq
      rw [ite_self]
      exact ⟨steps, .none⟩
    | some id =>
      obtain ⟨expected, commonShown, _, _, rfl⟩ := goalEq
      rw [agreeing_nil]
      refine ⟨steps, ?_⟩
      cases sawInvalid with
      | true => exact .none
      | false => exact .some commonShown
  passes := by
    rintro index common sawInvalid id span rest state ⟨trees, awaits⟩ isInvalid
    obtain ⟨tree, restTrees, rfl, _, _, invalidEq, restShown, restMono⟩ := awaits.exists_cons
    obtain rfl := of_decide_eq_true (invalidEq.symm.trans isInvalid)
    refine ⟨restTrees, awaits.steps, restShown, restMono, ?_⟩
    have goalEq := awaits.goal_eq
    cases common with
    | none => exact commonType_cons_invalid .. ▸ goalEq
    | some common =>
      obtain ⟨expected, commonShown, valid, monomorphic, rfl⟩ := goalEq
      exact ⟨expected, commonShown, valid, monomorphic, (agreeing_cons_invalid ..).symm⟩
  starts := by
    rintro index sawInvalid id span rest state ⟨trees, awaits⟩ notInvalid
    obtain ⟨tree, restTrees, rfl, shown, mono, invalidEq, restShown, restMono⟩ := awaits.exists_cons
    have valid := of_decide_eq_false (invalidEq.symm.trans notInvalid)
    exact ⟨restTrees, awaits.steps, restShown, restMono, tree, shown, valid, mono,
      commonType_cons_valid valid .. ▸ awaits.goal_eq⟩
  joins := by
    rintro index common sawInvalid id span rest state ⟨trees, awaits⟩ notInvalid
    obtain ⟨tree, restTrees, rfl, shown, mono, invalidEq, restShown, restMono⟩ := awaits.exists_cons
    have treeValid := of_decide_eq_false (invalidEq.symm.trans notInvalid)
    obtain ⟨expected, commonShown, valid, expectedMono, rfl⟩ := awaits.goal_eq
    have wf := awaits.steps.follows.wellFormed
    refine (Alloc.yields_unify_monomorphic wf commonShown shown expectedMono mono).mono ?_
    rintro found last ⟨follows, agrees⟩
    -- equal trees unify to that tree, so the expected tree stays the same all along
    by_cases same : expected = tree
    · subst same
      rw [if_pos rfl] at agrees
      cases agrees with
      | some unifiedShown =>
        exact ⟨restTrees, (steps_store follows).trans awaits.steps,
          showsElements_of_follows follows wf restShown, restMono, expected, unifiedShown, valid,
          expectedMono, (agreeing_cons_self valid ..).symm⟩
    · rw [if_neg same] at agrees
      rw [agreeing_cons_different treeValid (Ne.symm same)]
      cases agrees with
      | none =>
        have commonLater := follows.shows wf commonShown
        have idLater := follows.shows wf shown
        rw [Option.elim, follows.wellFormed.render_eq, follows.wellFormed.render_eq,
          commonLater.2, idLater.2]
        exact ⟨(steps_reported follows _).trans awaits.steps, .none⟩

theorem ShowsElements.getLast? {store : Store} (shown : ShowsElements store elements trees) :
    Option.Rel store.Shows (elements.getLast?.map Prod.fst) (trees.getLast?.map Prod.fst) := by
  induction elements generalizing trees with
  | nil =>
    cases shown
    exact .none
  | cons element rest ih =>
    obtain ⟨tree, restTrees, agrees, restShown, rfl⟩ := forall₂_cons_left_iff.1 shown
    cases rest with
    | nil =>
      cases restShown
      exact .some agrees.1
    | cons next others =>
      obtain ⟨nextTree, otherTrees, _, _, rfl⟩ := forall₂_cons_left_iff.1 restShown
      rw [getLast?_cons_cons, getLast?_cons_cons]
      exact ih restShown

theorem succeeds_elementType (wf : state.store.WellFormed) (policy : ListPolicy)
    (shown : ShowsElements state.store elements trees)
    (each : ∀ element ∈ trees, element.1.Monomorphic) :
    Succeeds (elementType policy elements) state fun found last =>
      last.Steps state [] (TreeChecker.elementType policy trees).2 ∧
        Option.Rel last.store.Shows found (TreeChecker.elementType policy trees).1 := by
  cases policy with
  | lastElement => exact succeeds_pure ⟨steps_self wf, shown.getLast?⟩
  | unify => exact (elementLoop_awaits _ state).succeeds ⟨trees, steps_self wf, shown, each, rfl⟩

theorem finds_listLiteral (wf : state.store.WellFormed) (policy : ListPolicy)
    (span : Span) (shown : ShowsElements state.store elements trees)
    (each : ∀ element ∈ trees, element.1.Monomorphic) :
    Finds node (listLiteral policy span elements) state
      (TreeChecker.listLiteral policy span trees) := by
  have isEmptyEq : trees.isEmpty = elements.isEmpty := by
    cases shown <;> rfl
  unfold listLiteral TreeChecker.listLiteral
  rw [isEmptyEq]
  split
  · exact finds_reject wf _
  have elementMono : ∀ tree ∈ (TreeChecker.elementType policy trees).1, tree.Monomorphic :=
    TreeChecker.monomorphic_elementType each
  refine Finds.after (succeeds_elementType wf policy shown each) ?_
  intro found mid steps agrees
  have midWf := steps.follows.wellFormed
  generalize (TreeChecker.elementType policy trees).1 = element at agrees elementMono
  cases agrees with
  | none => exact finds_primitive midWf .invalid
  | @some id tree idShown =>
    refine succeeds_store_bind ?_
    rw [idShown.isInvalid_eq midWf (elementMono tree rfl), Judgement.listOf]
    by_cases treeInvalid : tree = .invalid
    · rw [if_pos (decide_eq_true treeInvalid), if_pos treeInvalid]
      exact finds_primitive midWf .invalid
    · rw [if_neg (by simpa using treeInvalid), if_neg treeInvalid, ← idShown.2]
      exact Finds.of_alloc ((Alloc.yields_list midWf idShown.1).mono fun _ _ built => built.1)

theorem finds_tupleLiteral (wf : state.store.WellFormed) {parts : List TypeId} {trees : List Tree}
    (shown : List.Forall₂ state.store.Shows parts trees) (each : ∀ tree ∈ trees, tree.Monomorphic) :
    Finds node (tupleLiteral parts) state (TreeChecker.tupleLiteral trees) := by
  obtain ⟨rfl, inside⟩ := Store.map_tree_eq_of_shows shown
  have isInvalid_iff : ∀ part ∈ parts,
      (state.store.isInvalid part = true ↔ state.store.tree part = .invalid) := by
    intro part mem
    have partShown : state.store.Shows part _ := ⟨inside part mem, rfl⟩
    rw [partShown.isInvalid_eq wf (each _ (mem_map_of_mem mem)), decide_eq_true_iff]
  have anyInvalid : parts.any state.store.isInvalid = true ↔
      .invalid ∈ parts.map state.store.tree := by
    rw [any_eq_true, mem_map]
    exact exists_congr fun part => and_congr_right (isInvalid_iff part)
  unfold tupleLiteral TreeChecker.tupleLiteral
  rw [isEmpty_map]
  split
  · exact finds_primitive wf .unit
  refine succeeds_store_bind ?_
  by_cases someInvalid : .invalid ∈ parts.map state.store.tree
  · rw [if_pos (anyInvalid.2 someInvalid), if_pos someInvalid]
    exact finds_primitive wf .invalid
  · rw [if_neg (fun isAny => someInvalid (anyInvalid.1 isAny)), if_neg someInvalid]
    exact Finds.of_alloc ((Alloc.yields_tuple wf inside).mono fun _ _ built => built.1)

end Literals

end Steps

end Typing
end PipeCheck
