import PipeCheck.Proofs.Properties.ClosedProgram
import PipeCheck.Proofs.Typing.PrunedSteps

/-!
# Dropping unused variables

An expression that has no issues where unused quantified variables are kept may have
some where they are dropped: an argument that is declared with an idle quantifier is
taken by a function with another idle quantifier, but not by one without, and types
with quantifiers inside are compared as they are written.  Without such arguments and
such types, dropping unused variables finds no issue either.
-/

namespace PipeCheck

open List Option PipeCheck.Expr

namespace Expr

/-- The arguments of an application or a pipe. -/
def arguments : Expr → List Expr
  | .apply _ _ arguments => arguments
  | .pipe _ argument _ => [argument]
  | _ => []

/-- The subexpressions whose types are compared with others: all of applications and
pipes, and where they are unified, the elements of a list literal that has several. -/
def compared (policy : ListPolicy) : Expr → List Expr
  | .apply _ function arguments => function :: arguments
  | .pipe _ argument function => [argument, function]
  | .list _ (first :: second :: rest) =>
    if policy = .unify then first :: second :: rest else []
  | _ => []

theorem mem_and_children_subset {expr : Expr} {nodes : List Expr} (within : expr.preorder ⊆ nodes) :
    expr ∈ nodes ∧ ∀ child ∈ expr.children, child.preorder ⊆ nodes :=
  ⟨within expr.self_mem_preorder,
    fun _ isChild => List.Subset.trans (preorder_subset isChild) within⟩

theorem compared_list {policy : ListPolicy} (unify : policy = .unify) {items : List Expr}
    (several : 2 ≤ items.length) (site : Site) :
    (list site items).compared policy = items := by
  obtain _ | ⟨first, _ | ⟨second, rest⟩⟩ := items
  · simp at several
  · simp at several
  · rw [compared, if_pos unify]

end Expr

namespace Environment

/-- An expression is no symbol whose type is declared with an idle quantifier. -/
def Activates (env : Environment) (store : Store) (expr : Expr) : Prop :=
  ∀ type ∈ expr.symbol?.bind env.typeOf?, ¬(store.tree type).Idle

instance (env : Environment) (store : Store) (expr : Expr) :
    Decidable (env.Activates store expr) :=
  inferInstanceAs (Decidable (∀ type ∈ expr.symbol?.bind env.typeOf?, _))

end Environment

/-- Where types are compared, the recorded ones have no quantifier below their
outermost one. -/
def Store.ComparesSchemes (store : Store) (policy : ListPolicy) (nodes : List Expr)
    (types : List (NodeId × TypeId)) : Prop :=
  ∀ node ∈ nodes, ∀ operand ∈ node.compared policy, ∀ entry ∈ types,
    entry.1 = operand.id → (store.tree entry.2).body.quantifierFree

instance (store : Store) (policy : ListPolicy) (nodes : List Expr)
    (types : List (NodeId × TypeId)) :
    Decidable (store.ComparesSchemes policy nodes types) :=
  inferInstanceAs (Decidable (∀ node ∈ nodes, ∀ operand ∈ node.compared policy, ∀ entry ∈ types,
    entry.1 = operand.id → _))

namespace Progress

/-- The store has all types of a base store, and all declared and recorded types are
closed. -/
structure Started (base : Store) (env : Environment) (progress : Progress) : Prop where
  /-- Declared and recorded types are closed. -/
  valid : progress.Valid env
  /-- No type of the base has changed. -/
  follows : progress.store.Follows base

/-- Later progress continues earlier progress and has all its issues. -/
structure Accumulates (later earlier : Progress) : Prop extends later.Sustains Tree.Closed earlier
    where
  /-- No issue is lost. -/
  issues : earlier.issues.toList <+: later.issues.toList

/-- No issue was found, and only type schemes were compared. -/
structure Fine (policy : ListPolicy) (nodes : List Expr) (progress : Progress) : Prop where
  /-- No issue was found. -/
  noIssues : progress.issues = #[]
  /-- Only type schemes were compared. -/
  schemes : progress.store.ComparesSchemes policy nodes progress.types

/-- Later progress continues earlier progress without new issues. -/
structure Untroubled (later earlier : Progress) : Prop extends later.Sustains Tree.Closed earlier
    where
  /-- There is no new issue. -/
  issues_eq : later.issues = earlier.issues

variable {base : Store} {env : Environment} {policy : ListPolicy} {nodes : List Expr}
  {earlier mid later : Progress}

theorem Started.wellFormed (started : earlier.Started base env) :
    earlier.store.WellFormed :=
  started.valid.wellFormed

theorem Started.of_continues (started : earlier.Started base env)
    (continues : later.Continues earlier) :
    later.Started base env :=
  ⟨started.valid.of_sustains continues, continues.follows.trans started.follows⟩

theorem accumulates_self (valid : earlier.Valid env) : earlier.Accumulates earlier :=
  ⟨valid.sustains_self, prefix_rfl⟩

theorem untroubled_self (valid : earlier.Valid env) : earlier.Untroubled earlier :=
  ⟨valid.sustains_self, rfl⟩

theorem Accumulates.trans (second : later.Accumulates mid) (first : mid.Accumulates earlier) :
    later.Accumulates earlier :=
  ⟨second.toSustains.trans first.toSustains, first.issues.trans second.issues⟩

theorem Steps.untroubled {broadcasts : List NodeId} (steps : later.Steps earlier broadcasts [])
    (valid : earlier.Valid env) :
    later.Untroubled earlier := by
  refine ⟨⟨steps.follows, ?_, ?_⟩, Array.toList_inj.1 (steps.issues_eq.trans (append_nil _))⟩
  · rw [steps.types_eq]
    exact fun _ member => member
  · rw [steps.types_eq]
    exact fun entry member => steps.follows.has valid.wellFormed (valid.recorded entry member)

theorem Untroubled.trans (second : later.Untroubled mid) (first : mid.Untroubled earlier) :
    later.Untroubled earlier :=
  ⟨second.toSustains.trans first.toSustains, second.issues_eq.trans first.issues_eq⟩

/-- All was fine before, too. -/
theorem Fine.of_accumulates (fine : later.Fine policy nodes)
    (valid : earlier.Valid env) (accumulates : later.Accumulates earlier) :
    earlier.Fine policy nodes := by
  have noIssues := accumulates.issues
  rw [fine.noIssues] at noIssues
  refine ⟨Array.toList_eq_nil_iff.1 (prefix_nil.1 noIssues), ?_⟩
  intro node member operand isCompared entry recorded sameId
  have shown := accumulates.follows.shows valid.wellFormed ⟨(valid.recorded entry recorded).1, rfl⟩
  rw [← shown.2]
  exact fine.schemes node member operand isCompared entry (accumulates.types_subset recorded) sameId

end Progress

namespace Typing

open Progress Store

variable {step : Typing TypeId} {expr : Expr} {items : List Expr} {site : Site} {base : Store}
  {env : Environment} {policy : ListPolicy} {nodes : List Expr} {state other : Progress}

/-- The last step at a node adds its type to the records. -/
theorem ensures_accumulates (valid : state.Valid env) (gives : Gives Tree.Closed step state)
    (issues : Ensures step state fun _ last => state.issues.toList <+: last.issues.toList)
    (node : NodeId) :
    Ensures (do record node (← step)) state fun type last =>
      last.Accumulates state ∧ (node, type) ∈ last.types := by
  refine ((Keeps.ensures gives).and issues).bind ?_
  rintro type mid ⟨⟨sustains, closed⟩, kept⟩
  refine (Keeps.ensures (keeps_record (valid.of_sustains sustains) node closed)).and_run_eq.mono ?_
  rintro recorded last ⟨runEq, lastSustains, _, typesEq⟩
  refine ⟨⟨lastSustains.trans sustains, ?_⟩, by rw [typesEq]; exact mem_cons_self⟩
  cases runEq
  exact kept

/-- What is found at a node is recorded on both sides. -/
theorem Mirrors.recorded {kept pruned : Typing TypeId}
    {related : Store → Store → TypeId → TypeId → Prop}
    (mirrors : Mirrors kept state pruned other related) (otherValid : other.Valid env)
    (closed : ∀ {kept pruned type image}, related kept pruned type image →
      pruned.ClosedType image) (node : NodeId) :
    Ensures (do record node (← kept)) state fun type last => last.issues = #[] →
      Succeeds (do record node (← pruned)) other fun image final =>
        final.Untroubled other ∧ related last.store final.store type image := by
  refine Ensures.bind mirrors ?_
  rintro _ mid mirrored type last ⟨⟩ noIssues
  refine (mirrored noIssues).2.bind ?_
  rintro image otherMid ⟨⟨_, steps⟩, holds⟩
  have untroubled := steps.untroubled otherValid
  exact ⟨image, rfl, ⟨⟨untroubled.follows, subset_cons_of_subset _ untroubled.types_subset,
    forall_mem_cons.2 ⟨closed holds, untroubled.recorded⟩⟩, untroubled.issues_eq⟩, holds⟩

theorem Undisturbing.issues {α : Type} {action : Typing α} (undisturbing : Undisturbing action) :
    Ensures action state fun _ last =>
      state.issues.toList <+: last.issues.toList :=
  undisturbing.ensures.mono fun _ _ undisturbed => Progress.Undisturbed.issues undisturbed

section Simulation

variable (base env policy nodes)

/-- The types of an expression correspond, and without unused variables it is not
idly quantified unless it is declared so. -/
structure Agree (expr : Expr) (kept pruned : Store) (type counterpart : TypeId) : Prop where
  /-- The types correspond. -/
  corresponds : kept.Corresponds pruned type counterpart
  /-- The pruned one is idle only if declared so. -/
  active : env.Activates base expr → ¬(pruned.tree counterpart).Idle

/-- An expression has been typed, and typing that drops unused variables can follow:
where there is no issue and only type schemes have been compared, it finds an agreeing
type without issues. -/
structure Followed (expr : Expr) (start : Progress) (type : TypeId) (last : Progress) : Prop where
  /-- What was found is continued. -/
  accumulates : last.Accumulates start
  /-- The type of the expression is recorded. -/
  recorded : (expr.id, type) ∈ last.types
  /-- Typing that drops variables agrees. -/
  follows : last.Fine policy nodes → ∀ ⦃other : Progress⦄, other.Started base env →
    Succeeds (expression ⟨policy, .prune⟩ env expr) other fun counterpart final =>
      final.Untroubled other ∧ Agree base env expr last.store final.store type counterpart

/-- Typing that drops unused variables can follow wherever an expression is typed. -/
def Simulated (expr : Expr) : Prop :=
  ∀ ⦃progress : Progress⦄, progress.Started base env →
    Ensures (expression ⟨policy, .keepAll⟩ env expr) progress
      (Followed base env policy nodes expr progress)

variable {base env policy nodes}

theorem Mirrors.agree_of_derives {kept pruned : Typing TypeId}
    (mirrors : Mirrors kept state pruned other Derives) (expr : Expr) :
    Mirrors kept state pruned other (Agree base env expr) := by
  refine Ensures.mono mirrors ?_
  intro type last mirrored noIssues
  obtain ⟨follows, succeeds⟩ := mirrored noIssues
  refine ⟨follows, succeeds.mono ?_⟩
  rintro image final ⟨steps, derives⟩
  exact ⟨steps, derives.corresponds, fun _ => derives.active⟩

/-- The last step at a node.  It is enough to come to a step that mirrors it. -/
theorem ensures_concluded (expr : Expr) {start : Progress} (started : state.Started base env)
    (accumulates : state.Accumulates start) (gives : Gives Tree.Closed step state)
    (issues : Ensures step state fun _ last => state.issues.toList <+: last.issues.toList)
    (comes : state.Fine policy nodes → ∀ ⦃other : Progress⦄, other.Started base env →
      ∀ {post : TypeId → Progress → Prop},
      (∀ {prunedStep otherMid}, otherMid.Started base env →
        otherMid.Untroubled other →
        Mirrors step state prunedStep otherMid (Agree base env expr) →
        Succeeds (do record expr.id (← prunedStep)) otherMid post) →
      Succeeds (expression ⟨policy, .prune⟩ env expr) other post) :
    Ensures (do record expr.id (← step)) state
      (Followed base env policy nodes expr start) := by
  have closed : ∀ {kept pruned type image},
      Agree base env expr kept pruned type image → pruned.ClosedType image :=
    fun agree => ⟨agree.corresponds.prunedInside, agree.corresponds.trees.prunedClosed⟩
  refine (ensures_accumulates started.valid gives issues expr.id).and_run_eq.mono ?_
  rintro type last ⟨runEq, lastAccumulates, recorded⟩
  refine ⟨lastAccumulates.trans accumulates, recorded, ?_⟩
  intro fine other otherStarted
  refine comes (fine.of_accumulates started.valid lastAccumulates) otherStarted ?_
  intro prunedStep otherMid otherMidStarted untroubled mirrors
  refine (mirrors.recorded otherMidStarted.valid closed expr.id type last runEq
    fine.noIssues).mono ?_
  rintro image final ⟨lastUntroubled, agree⟩
  exact ⟨lastUntroubled.trans untroubled, agree⟩

/-- A node that is rejected has an issue, so there is nothing to follow. -/
theorem ensures_rejected (expr : Expr) (issue : Issue) {start : Progress}
    (started : state.Started base env) (accumulates : state.Accumulates start) :
    Ensures (do record expr.id (← reject issue)) state
      (Followed base env policy nodes expr start) := by
  have reported : Ensures (do record expr.id (← reject issue)) state fun _ last =>
      last.issues ≠ #[] := by
    refine (reporting_reject issue state).bind ?_
    rintro _ mid reported _ last ⟨⟩
    exact reported
  refine ((ensures_accumulates started.valid (gives_reject closed_lasting started.valid issue)
    (sameSteps_reject issue issue).undisturbing.issues expr.id).and reported).mono ?_
  rintro type last ⟨⟨lastAccumulates, recorded⟩, lastReported⟩
  exact ⟨lastAccumulates.trans accumulates, recorded, fun fine => absurd fine.noIssues lastReported⟩

/-- An expression without subexpressions. -/
theorem simulated_leaf (unfolded : ∀ quantifiers, expression ⟨policy, quantifiers⟩ env expr =
      do record expr.id (← step))
    (gives : ∀ {state}, state.Valid env → Gives Tree.Closed step state)
    (undisturbing : Undisturbing step) (mirrors : ∀ {state other}, state.Started base env →
      other.Started base env → Mirrors step state step other (Agree base env expr)) :
    Simulated base env policy nodes expr := by
  intro state started
  rw [unfolded]
  refine ensures_concluded expr started (accumulates_self started.valid) (gives started.valid)
    undisturbing.issues ?_
  intro _ other otherStarted post concludes
  rw [unfolded]
  exact concludes otherStarted (untroubled_self otherStarted.valid) (mirrors started otherStarted)

/-- A symbol has its declared type in both ways. -/
theorem simulated_reference (baseWf : base.WellFormed)
    (declared : ∀ entry ∈ env.types, base.ClosedType entry.2) (site : Site)
    (name : String) (symbol : Option SymbolId) :
    Simulated base env policy nodes (.reference site name symbol) := by
  refine simulated_leaf (fun quantifiers => by rw [expression]; rfl)
    (fun valid => gives_reference closed_lasting valid name symbol site.span)
    (sameSteps_reference env name symbol site.span _).undisturbing ?_
  intro state other started otherStarted
  unfold reference
  cases found : symbol.bind env.typeOf? with
  | none => exact (reporting_reject _).mirrors
  | some type =>
    have closed : base.ClosedType type := by
      obtain ⟨symbol, _, typeEq⟩ := bind_eq_some_iff.1 found
      obtain ⟨_, _, typesEq, _⟩ := lookup_eq_some_iff.1 typeEq
      exact declared (symbol, type) (by simp [typesEq])
    have shown := started.follows.shows baseWf ⟨closed.1, rfl⟩
    have otherShown := otherStarted.follows.shows baseWf ⟨closed.1, rfl⟩
    refine mirrors_pure started.wellFormed otherStarted.wellFormed
      ⟨⟨shown.1, otherShown.1, ?_, ?_⟩, ?_⟩ <;> rw [otherShown.2]
    · rw [shown.2]
      exact closed.2.corresponds_self
    · exact fun _ => ⟨rfl, shown.2⟩
    · exact fun activates => activates type found

theorem simulated_literal (site : Site) (value : Literal) :
    Simulated base env policy nodes (.literal site value) :=
  simulated_leaf (fun quantifiers => by rw [expression]; rfl)
    (fun valid => gives_literal closed_lasting valid value) (sameSteps_literal value).undisturbing
    fun started otherStarted =>
      (mirrors_literal started.wellFormed otherStarted.wellFormed value).agree_of_derives _

theorem simulated_placeholder (site : Site) :
    Simulated base env policy nodes (.placeholder site) :=
  simulated_leaf (fun quantifiers => by rw [expression]; rfl)
    (fun valid => gives_primitive closed_lasting valid .invalid) sameSteps_invalid.undisturbing
    fun started otherStarted =>
      (mirrors_invalid started.wellFormed otherStarted.wellFormed).agree_of_derives _

/-- Expressions one after the other. -/
theorem ensures_expressions {exprs : List Expr}
    (each : ∀ expr ∈ exprs, Simulated base env policy nodes expr)
    (started : state.Started base env) :
    Ensures (expressions ⟨policy, .keepAll⟩ env exprs) state fun types last =>
      last.Accumulates state ∧
        (∀ type ∈ types, ∃ expr ∈ exprs, (expr.id, type) ∈ last.types) ∧
          (last.Fine policy nodes → ∀ ⦃other : Progress⦄, other.Started base env →
            Succeeds (expressions ⟨policy, .prune⟩ env exprs) other
              fun images final => final.Untroubled other ∧
                List.Forall₂ (last.store.Corresponds final.store) types images) := by
  induction exprs generalizing state with
  | nil =>
    rw [expressions]
    refine ensures_pure ⟨accumulates_self started.valid, by simp, ?_⟩
    intro _ other otherStarted
    rw [expressions]
    exact succeeds_pure ⟨untroubled_self otherStarted.valid, .nil⟩
  | cons expr rest ih =>
    rw [expressions]
    refine (each expr mem_cons_self started).bind ?_
    rintro type mid ⟨accumulates, recorded, simulated⟩
    have midStarted := started.of_continues accumulates.toSustains
    refine (ih (forall_mem_of_forall_mem_cons each) midStarted).bind ?_
    rintro types last ⟨lastAccumulates, restRecorded, restSimulated⟩
    refine ensures_pure ⟨lastAccumulates.trans accumulates, ?_, ?_⟩
    · refine forall_mem_cons.2 ⟨⟨expr, mem_cons_self, lastAccumulates.types_subset recorded⟩, ?_⟩
      intro type member
      obtain ⟨found, isRest, foundRecorded⟩ := restRecorded type member
      exact ⟨found, mem_cons_of_mem _ isRest, foundRecorded⟩
    · intro fine other otherStarted
      have midFine := fine.of_accumulates midStarted.valid lastAccumulates
      rw [expressions]
      refine (simulated midFine otherStarted).bind ?_
      rintro image otherMid ⟨untroubled, agree⟩
      have otherMidStarted := otherStarted.of_continues untroubled.toSustains
      refine (restSimulated fine otherMidStarted).bind ?_
      rintro images final ⟨lastUntroubled, paired⟩
      refine succeeds_pure ⟨lastUntroubled.trans untroubled, .cons ?_ paired⟩
      exact agree.corresponds.of_follows midStarted.wellFormed otherMidStarted.wellFormed
        lastAccumulates.follows lastUntroubled.follows

/-- An expression whose subexpressions are typed one after the other. -/
theorem simulated_items (step : List TypeId → Typing TypeId)
    (each : ∀ item ∈ items, Simulated base env policy nodes item)
    (unfolded : ∀ quantifiers, expression ⟨policy, quantifiers⟩ env expr =
      do record expr.id (← step (← expressions ⟨policy, quantifiers⟩ env items)))
    (gives : ∀ {state types}, state.Valid env →
      (∀ type ∈ types, state.store.ClosedType type) → Gives Tree.Closed (step types) state)
    (undisturbing : ∀ types, Undisturbing (step types))
    (mirrors : ∀ {state other types images}, state.Started base env →
      other.Started base env → state.Fine policy nodes →
      (∀ type ∈ types, ∃ item ∈ items, (item.id, type) ∈ state.types) →
      List.Forall₂ (state.store.Corresponds other.store) types images →
      Mirrors (step types) state (step images) other Derives) :
    Simulated base env policy nodes expr := by
  intro state started
  rw [unfolded]
  refine (ensures_expressions each started).bind ?_
  rintro types mid ⟨accumulates, recorded, simulated⟩
  have midStarted := started.of_continues accumulates.toSustains
  have closed : ∀ type ∈ types, mid.store.ClosedType type := by
    intro type member
    obtain ⟨item, _, isRecorded⟩ := recorded type member
    exact accumulates.recorded (item.id, type) isRecorded
  refine ensures_concluded expr midStarted accumulates (gives midStarted.valid closed)
    (undisturbing types).issues ?_
  intro fine other otherStarted post concludes
  rw [unfolded]
  refine (simulated fine otherStarted).bind ?_
  rintro images otherMid ⟨untroubled, paired⟩
  have otherMidStarted := otherStarted.of_continues untroubled.toSustains
  exact concludes otherMidStarted untroubled
    ((mirrors midStarted otherMidStarted fine recorded paired).agree_of_derives expr)

theorem simulated_list (member : .list site items ∈ nodes)
    (each : ∀ item ∈ items, Simulated base env policy nodes item) :
    Simulated base env policy nodes (.list site items) := by
  refine simulated_items
    (fun types => listLiteral policy site.span (types.zip (items.map span))) each
    (fun quantifiers => by rw [expression]; rfl) ?_
    (fun types => (sameSteps_listLiteral policy site.span _ rfl).undisturbing) ?_
  · intro state types valid closed
    exact gives_listLiteral closed_lasting valid policy site.span
      fun element inZip => closed element.1 (of_mem_zip inZip).1
  · intro state other types images started otherStarted fine recorded paired
    refine mirrors_listLiteral started.wellFormed otherStarted.wellFormed policy site.span
      (elementsAlike_zip paired _) ?_
    intro unify several element inZip
    obtain ⟨item, isItem, isRecorded⟩ := recorded element.1 (of_mem_zip inZip).1
    obtain ⟨inside, closed⟩ := started.valid.recorded (item.id, element.1) isRecorded
    refine ⟨inside, closed, fine.schemes _ member item ?_ (item.id, element.1) isRecorded rfl⟩
    rw [compared_list unify (several.trans (by simp))]
    exact isItem

theorem simulated_tuple (each : ∀ item ∈ items, Simulated base env policy nodes item) :
    Simulated base env policy nodes (.tuple site items) :=
  simulated_items tupleLiteral each (fun quantifiers => by rw [expression]; rfl)
    (fun valid closed => gives_tupleLiteral closed_lasting valid closed)
    (fun types => (sameSteps_tupleLiteral types).undisturbing)
    fun started otherStarted _ _ paired =>
      mirrors_tupleLiteral started.wellFormed otherStarted.wellFormed paired

theorem simulated_pipe {arg fn : Expr} (member : .pipe site arg fn ∈ nodes)
    (active : env.Activates base arg) (argSimulated : Simulated base env policy nodes arg)
    (fnSimulated : Simulated base env policy nodes fn) :
    Simulated base env policy nodes (.pipe site arg fn) := by
  intro state started
  rw [expression]
  refine (argSimulated started).bind ?_
  rintro argType mid ⟨accumulates, argRecorded, argFollowed⟩
  have midStarted := started.of_continues accumulates.toSustains
  refine (fnSimulated midStarted).bind ?_
  rintro fnType later ⟨laterAccumulates, fnRecorded, fnFollowed⟩
  have laterStarted := midStarted.of_continues laterAccumulates.toSustains
  have stillRecorded := laterAccumulates.types_subset argRecorded
  have argClosed := laterAccumulates.recorded _ stillRecorded
  have fnClosed := laterAccumulates.recorded _ fnRecorded
  refine ensures_concluded (.pipe site arg fn) laterStarted
    (laterAccumulates.trans accumulates) (gives_pipe closed_lasting laterStarted.valid .keepAll
      site argClosed fnClosed) ?_ ?_
  · refine (ensures_pipe_maps .keepAll site laterStarted.wellFormed argClosed.1 fnClosed.1).mono ?_
    rintro _ last (undisturbed | ⟨lastEq, _⟩)
    · exact undisturbed.issues
    · rw [lastEq]
  intro fine other otherStarted post concludes
  have midFine := fine.of_accumulates midStarted.valid laterAccumulates
  rw [expression]
  refine (argFollowed midFine otherStarted).bind ?_
  rintro prunedArg otherMid ⟨untroubled, args⟩
  have otherMidStarted := otherStarted.of_continues untroubled.toSustains
  refine (fnFollowed fine otherMidStarted).bind ?_
  rintro prunedFunction otherLater ⟨laterUntroubled, fns⟩
  have otherLaterStarted := otherMidStarted.of_continues laterUntroubled.toSustains
  have stillArgs := args.corresponds.of_follows midStarted.wellFormed
    otherMidStarted.wellFormed laterAccumulates.follows laterUntroubled.follows
  have stillActive : ¬(otherLater.store.tree prunedArg).Idle := by
    rw [(laterUntroubled.follows.shows otherMidStarted.wellFormed
      ⟨args.corresponds.prunedInside, rfl⟩).2]
    exact args.active active
  have mirrors := mirrors_pipe laterStarted.wellFormed otherLaterStarted.wellFormed .keepAll site
    stillArgs fns.corresponds (fine.schemes _ member arg (by simp [compared]) _ stillRecorded rfl)
    (fine.schemes _ member fn (by simp [compared]) _ fnRecorded rfl) stillActive
  exact concludes otherLaterStarted (laterUntroubled.trans untroubled)
    (mirrors.agree_of_derives (.pipe site arg fn))

variable (base env policy nodes) in
/-- A function has been applied to arguments in turn, and typing that drops unused
variables can follow: from a function with the same instances it comes to one with the
same instances, which is not idly quantified after the first argument. -/
structure AppliedTo (arguments : List Expr) (span : Span) (position : Nat)
    (function : Option TypeId) (start : Progress) (found : Option TypeId) (last : Progress) :
    Prop where
  /-- What was found is continued. -/
  accumulates : last.Accumulates start
  /-- What is left of the function is closed. -/
  closed : ∀ id, found = some id → last.store.ClosedType id
  /-- Application that drops variables agrees. -/
  follows : last.Fine policy nodes → ∀ ⦃other prunedFunction⦄, other.Started base env →
    Option.Rel (fun type counterpart => start.store.Equivalent other.store type counterpart ∧
      (arguments = [] → ¬(other.store.tree counterpart).Idle)) function prunedFunction →
    Succeeds (applied ⟨policy, .prune⟩ env span position prunedFunction arguments) other
      fun prunedFound final => final.Untroubled other ∧
        Option.Rel (fun type counterpart => last.store.Equivalent final.store type counterpart ∧
          ¬(final.store.tree counterpart).Idle) found prunedFound

theorem ensures_applied {owner : Expr} (member : owner ∈ nodes) {args : List Expr}
    (each : ∀ arg ∈ args, Simulated base env policy nodes arg ∧
      arg ∈ owner.compared policy ∧ env.Activates base arg)
    (started : state.Started base env) (span : Span) (position : Nat) {fn : Option TypeId}
    (fnClosed : ∀ id, fn = some id → state.store.ClosedType id) :
    Ensures (applied ⟨policy, .keepAll⟩ env span position fn args) state
      (AppliedTo base env policy nodes args span position fn state) := by
  induction args generalizing state position fn with
  | nil =>
    rw [applied]
    refine ensures_pure ⟨accumulates_self started.valid, fnClosed, ?_⟩
    intro _ other prunedFunction otherStarted fns
    rw [applied]
    refine succeeds_pure ⟨untroubled_self otherStarted.valid, ?_⟩
    cases fns with
    | none => exact .none
    | some fns => exact .some ⟨fns.1, fns.2 rfl⟩
  | cons arg rest ih =>
    obtain ⟨argSimulated, isCompared, active⟩ := each arg mem_cons_self
    rw [applied]
    refine (argSimulated started).bind ?_
    rintro argType mid ⟨accumulates, recorded, argFollowed⟩
    have midStarted := started.of_continues accumulates.toSustains
    have stillClosed : ∀ id, fn = some id → mid.store.ClosedType id :=
      fun id isSome => started.valid.has accumulates.toSustains (fnClosed id isSome)
    have mayGive := mayGive_applyArgument closed_lasting midStarted.valid .keepAll span
      position stillClosed (accumulates.recorded _ recorded)
    refine ((Keeps.ensures mayGive).and (undisturbing_applyArgument .keepAll span position
      fn argType).ensures).and_run_eq.bind ?_
    rintro next later ⟨runEq, ⟨sustains, nextClosed⟩, undisturbed⟩
    have laterAccumulates : later.Accumulates mid := ⟨sustains, undisturbed.issues⟩
    have laterStarted := midStarted.of_continues sustains
    refine (ih (forall_mem_of_forall_mem_cons each) laterStarted _ nextClosed).mono ?_
    rintro found last ⟨lastAccumulates, foundClosed, restFollowed⟩
    refine ⟨lastAccumulates.trans (laterAccumulates.trans accumulates), foundClosed, ?_⟩
    intro fine other prunedFunction otherStarted fns
    have laterFine := fine.of_accumulates laterStarted.valid lastAccumulates
    have midFine := laterFine.of_accumulates midStarted.valid laterAccumulates
    rw [applied]
    refine (argFollowed midFine otherStarted).bind ?_
    rintro prunedArg otherMid ⟨untroubled, agree⟩
    have otherMidStarted := otherStarted.of_continues untroubled.toSustains
    have stillFns : Option.Rel (mid.store.Equivalent otherMid.store) fn
        prunedFunction := by
      cases fns with
      | none => exact .none
      | some fns =>
        exact .some (fns.1.of_follows started.wellFormed otherStarted.wellFormed
          accumulates.follows untroubled.follows)
    have mirrored := mirrors_applyArgument midStarted.wellFormed otherMidStarted.wellFormed
      .keepAll span position stillFns agree.corresponds
      (midFine.schemes owner member arg isCompared _ recorded rfl) (agree.active active)
      next later runEq laterFine.noIssues
    refine mirrored.2.bind ?_
    rintro prunedNext otherLater ⟨⟨_, steps⟩, nexts⟩
    have laterUntroubled := steps.untroubled otherMidStarted.valid
    refine (restFollowed fine (otherMidStarted.of_continues laterUntroubled.toSustains) ?_).mono ?_
    · cases nexts with
      | none => exact .none
      | some nexts => exact .some ⟨nexts.1, fun _ => nexts.2⟩
    · rintro prunedFound final ⟨lastUntroubled, founds⟩
      exact ⟨lastUntroubled.trans (laterUntroubled.trans untroubled), founds⟩

section Application

variable {site : Site} {fn : Expr} {args : List Expr} {start : Progress}
  {fnType : TypeId} (started : state.Started base env)
  (followed : Followed base env policy nodes fn start fnType state)
  (member : .apply site fn args ∈ nodes) (each : ∀ arg ∈ args, Simulated base env policy nodes arg)
  (active : ∀ arg ∈ args, env.Activates base arg)

include started followed member

/-- The application of a function to no argument. -/
theorem ensures_applied_unit (noArgs : args.isEmpty) (isValid : ¬state.store.isInvalid fnType) :
    Ensures (do record site.id (← applyUnit fnType site.span)) state
      (Followed base env policy nodes (.apply site fn args) start) := by
  refine ensures_concluded (.apply site fn args) started followed.accumulates
    (gives_applyUnit closed_lasting started.valid
      (followed.accumulates.recorded _ followed.recorded) site.span)
    (sameSteps_applyUnit fnType site.span _).undisturbing.issues ?_
  intro fine other otherStarted post concludes
  rw [expression]
  refine (followed.follows fine otherStarted).bind ?_
  rintro prunedFunction otherMid ⟨untroubled, fns⟩
  have otherMidStarted := otherStarted.of_continues untroubled.toSustains
  refine succeeds_store_bind ?_
  rw [if_neg (by rwa [fns.corresponds.isInvalid_eq started.wellFormed
    otherMidStarted.wellFormed]), if_pos noArgs]
  have fnFree := fine.schemes _ member fn mem_cons_self _ followed.recorded rfl
  exact concludes otherMidStarted untroubled ((mirrors_applyUnit started.wellFormed
    otherMidStarted.wellFormed site.span fns.corresponds fnFree).agree_of_derives _)

/-- After the arguments it is enough to go on from what is left of the function. -/
theorem succeeds_apply_of_appliedTo (someArgs : ¬args.isEmpty)
    (isValid : ¬state.store.isInvalid fnType) {found : Option TypeId} {later : Progress}
    (appliedTo : AppliedTo base env policy nodes args site.span 0 (some fnType) state found later)
    (fine : later.Fine policy nodes) (otherStarted : other.Started base env)
    {post : TypeId → Progress → Prop}
    (continues : ∀ {prunedFound otherLater}, otherLater.Started base env →
      otherLater.Untroubled other →
      Option.Rel (later.store.Derives otherLater.store) found prunedFound →
      Succeeds (prunedFound.elim (do record site.id (← invalid)) (record site.id)) otherLater
        post) :
    Succeeds (expression ⟨policy, .prune⟩ env (.apply site fn args)) other
      post := by
  have midFine := fine.of_accumulates started.valid appliedTo.accumulates
  rw [expression]
  refine (followed.follows midFine otherStarted).bind ?_
  rintro prunedFunction otherMid ⟨untroubled, fns⟩
  have otherMidStarted := otherStarted.of_continues untroubled.toSustains
  have fnFree := midFine.schemes _ member fn mem_cons_self _ followed.recorded rfl
  refine succeeds_store_bind ?_
  rw [if_neg (by rwa [fns.corresponds.isInvalid_eq started.wellFormed
    otherMidStarted.wellFormed]), if_neg someArgs]
  refine (appliedTo.follows fine otherMidStarted (.some ⟨⟨fns.corresponds.inside,
    fns.corresponds.prunedInside, fns.corresponds.trees.equivalent fnFree⟩,
    fun empty => absurd (List.isEmpty_iff.2 empty) someArgs⟩)).bind ?_
  rintro prunedFound otherLater ⟨laterUntroubled, founds⟩
  have derives : Option.Rel (later.store.Derives otherLater.store) found prunedFound := by
    cases founds with
    | none => exact .none
    | some founds => exact .some (founds.1.derives founds.2)
  have ends := continues (otherMidStarted.of_continues laterUntroubled.toSustains)
    (laterUntroubled.trans untroubled) derives
  cases prunedFound <;> exact ends

include each active

/-- The arguments of a function without type. -/
theorem ensures_applied_invalid (isInvalid : state.store.isInvalid fnType) :
    Ensures (do
      let _ ← applied ⟨policy, .keepAll⟩ env site.span 0 none args
      record site.id (← invalid)) state
      (Followed base env policy nodes (.apply site fn args) start) := by
  refine (ensures_applied member (fun arg isArg => ⟨each arg isArg,
    mem_cons_of_mem _ isArg, active arg isArg⟩) started site.span 0 (by simp)).bind ?_
  rintro _ later ⟨accumulates, _, argsFollowed⟩
  have laterStarted := started.of_continues accumulates.toSustains
  refine ensures_concluded (.apply site fn args) laterStarted
    (accumulates.trans followed.accumulates)
    (gives_primitive closed_lasting laterStarted.valid .invalid)
    sameSteps_invalid.undisturbing.issues ?_
  intro fine other otherStarted post concludes
  rw [expression]
  refine (followed.follows (fine.of_accumulates started.valid accumulates) otherStarted).bind ?_
  rintro prunedFunction otherMid ⟨untroubled, fns⟩
  have otherMidStarted := otherStarted.of_continues untroubled.toSustains
  refine succeeds_store_bind ?_
  rw [if_pos (by rwa [fns.corresponds.isInvalid_eq started.wellFormed otherMidStarted.wellFormed])]
  refine (argsFollowed fine otherMidStarted .none).bind ?_
  rintro _ otherLater ⟨laterUntroubled, _⟩
  have otherLaterStarted := otherMidStarted.of_continues laterUntroubled.toSustains
  exact concludes otherLaterStarted (laterUntroubled.trans untroubled)
    ((mirrors_invalid laterStarted.wellFormed otherLaterStarted.wellFormed).agree_of_derives _)

/-- The application of a function to arguments. -/
theorem ensures_applied_some (someArgs : ¬args.isEmpty) (isValid : ¬state.store.isInvalid fnType) :
    Ensures (applied ⟨policy, .keepAll⟩ env site.span 0 (some fnType) args)
      state fun found later =>
        Ensures (found.elim (do record site.id (← invalid)) (record site.id)) later
          (Followed base env policy nodes (.apply site fn args) start) := by
  have closed : ∀ id, some fnType = some id → state.store.ClosedType id := by
    rintro _ ⟨⟩
    exact followed.accumulates.recorded _ followed.recorded
  refine (ensures_applied member (fun arg isArg => ⟨each arg isArg,
    mem_cons_of_mem _ isArg, active arg isArg⟩) started site.span 0 closed).mono ?_
  intro found later appliedTo
  have laterStarted := started.of_continues appliedTo.accumulates.toSustains
  have allAccumulates := appliedTo.accumulates.trans followed.accumulates
  cases found with
  | none =>
    refine ensures_concluded (.apply site fn args) laterStarted allAccumulates
      (gives_primitive closed_lasting laterStarted.valid .invalid)
      sameSteps_invalid.undisturbing.issues ?_
    intro fine other otherStarted post concludes
    refine succeeds_apply_of_appliedTo started followed member someArgs isValid appliedTo
      fine otherStarted ?_
    intro prunedFound otherLater otherLaterStarted untroubled founds
    cases founds with
    | none =>
      exact concludes otherLaterStarted untroubled ((mirrors_invalid laterStarted.wellFormed
        otherLaterStarted.wellFormed).agree_of_derives _)
  | some result =>
    rw [elim_some, ← pure_bind result (record site.id)]
    refine ensures_concluded (.apply site fn args) laterStarted allAccumulates
      (keeps_pure laterStarted.valid.sustains_self (appliedTo.closed result rfl))
      (ensures_pure prefix_rfl) ?_
    intro fine other otherStarted post concludes
    refine succeeds_apply_of_appliedTo started followed member someArgs isValid appliedTo
      fine otherStarted ?_
    intro prunedFound otherLater otherLaterStarted untroubled founds
    cases founds with
    | some derives =>
      rw [elim_some, ← pure_bind _ (record site.id)]
      exact concludes otherLaterStarted untroubled ((mirrors_pure laterStarted.wellFormed
        otherLaterStarted.wellFormed derives).agree_of_derives _)

end Application

theorem simulated_apply {fn : Expr} {args : List Expr} (member : .apply site fn args ∈ nodes)
    (active : ∀ arg ∈ args, env.Activates base arg)
    (fnSimulated : Simulated base env policy nodes fn)
    (each : ∀ arg ∈ args, Simulated base env policy nodes arg) :
    Simulated base env policy nodes (.apply site fn args) := by
  intro state started
  rw [expression]
  refine (fnSimulated started).bind ?_
  intro fnType mid followed
  have midStarted := started.of_continues followed.accumulates.toSustains
  refine ensures_store_bind ?_
  split
  · next isInvalid =>
      exact ensures_applied_invalid midStarted followed member each active isInvalid
  · next isValid =>
      split
      · next noArgs =>
          exact ensures_applied_unit midStarted followed member noArgs isValid
      · next someArgs =>
          refine (ensures_applied_some midStarted followed member each active someArgs
            isValid).bind ?_
          intro found later ends
          cases found <;> exact ends

theorem simulated_binary {op : BinaryOp} {left right : Expr}
    (leftSimulated : Simulated base env policy nodes left)
    (rightSimulated : Simulated base env policy nodes right) :
    Simulated base env policy nodes (.binary site op left right) := by
  intro state started
  rw [expression]
  refine (leftSimulated started).bind ?_
  intro _ mid leftFollowed
  have midStarted := started.of_continues leftFollowed.accumulates.toSustains
  refine (rightSimulated midStarted).bind ?_
  intro _ later rightFollowed
  exact ensures_rejected (.binary site op left right) _
    (midStarted.of_continues rightFollowed.accumulates.toSustains)
    (rightFollowed.accumulates.trans leftFollowed.accumulates)

theorem simulated_definition {symbol : Option SymbolId} {init : Expr}
    (initSimulated : Simulated base env policy nodes init) :
    Simulated base env policy nodes (.definition site symbol init) := by
  intro state started
  rw [expression]
  refine (initSimulated started).bind ?_
  intro _ mid followed
  exact ensures_rejected (.definition site symbol init) _
    (started.of_continues followed.accumulates.toSustains) followed.accumulates

/-- Typing that drops unused variables can follow through every expression. -/
theorem simulated (baseWf : base.WellFormed)
    (declared : ∀ entry ∈ env.types, base.ClosedType entry.2)
    (active : ∀ node ∈ nodes, ∀ arg ∈ node.arguments, env.Activates base arg)
    (within : expr.preorder ⊆ nodes) :
    Simulated base env policy nodes expr := by
  induction expr with
  | reference site name symbol => exact simulated_reference baseWf declared site name symbol
  | literal site value => exact simulated_literal site value
  | list site items each =>
    obtain ⟨member, below⟩ := mem_and_children_subset within
    exact simulated_list member fun item isItem => each item isItem (below item isItem)
  | tuple site items each =>
    obtain ⟨_, below⟩ := mem_and_children_subset within
    exact simulated_tuple fun item isItem => each item isItem (below item isItem)
  | apply site fn args fnIH each =>
    obtain ⟨member, below⟩ := mem_and_children_subset within
    exact simulated_apply member (active _ member)
      (fnIH (below fn (by simp [children])))
      fun arg isArg =>
        each arg isArg (below arg (by simp [children, isArg]))
  | pipe site arg fn argIH fnIH =>
    obtain ⟨member, below⟩ := mem_and_children_subset within
    exact simulated_pipe member (active _ member arg mem_cons_self)
      (argIH (below arg (by simp [children]))) (fnIH (below fn (by simp [children])))
  | binary site op left right leftIH rightIH =>
    obtain ⟨_, below⟩ := mem_and_children_subset within
    exact simulated_binary (leftIH (below left (by simp [children])))
      (rightIH (below right (by simp [children])))
  | definition site symbol init initIH =>
    obtain ⟨_, below⟩ := mem_and_children_subset within
    exact simulated_definition (initIH (below init (by simp [children])))
  | placeholder site => exact simulated_placeholder site

end Simulation

end Typing

/-- A run that succeeds completes the analysis. -/
theorem Analysis.run_of_ok {config : Config} {env : Environment} {store : Store}
    {expr : Expr} {root : TypeId} {last : Progress}
    (runEq : (Typing.expression config env expr).run.run { store } = (.ok root, last)) :
    run config env store expr =
      (.ok ⟨root, last.types, last.broadcasts, last.issues.toList⟩, last.store) := by
  change (Typing.expression config env expr).run { store } = (.ok root, last) at runEq
  rw [run, runEq]
  rfl

theorem Analysis.exists_progress_of_run {config : Config} {env : Environment} {store : Store}
    {expr : Expr} {analysis : Analysis} (completed : (run config env store expr).1 = .ok analysis) :
    ∃ root last, (Typing.expression config env expr).run.run { store } = (.ok root, last) ∧
      run config env store expr = (.ok analysis, last.store) ∧
        analysis.types = last.types ∧ analysis.issues = last.issues.toList := by
  rcases runEq : (Typing.expression config env expr).run.run { store } with ⟨outcome, last⟩
  cases outcome with
  | error failure =>
    change Except.map _ ((Typing.expression config env expr).run.run { store }).1 = _ at completed
    rw [runEq] at completed
    cases completed
  | ok root =>
    rw [run_of_ok runEq] at completed ⊢
    cases completed
    exact ⟨root, last, rfl, rfl, rfl, rfl⟩

namespace Program

/-- An expression without issues has none where unused variables are dropped, if only
type schemes are compared and no argument is declared with an idle quantifier. -/
theorem analyse_prune_of_keepAll {document : Document} {program : Program}
    (loads : load document = .ok program) (policy : ListPolicy) {analysis : Analysis}
    (completed : (program.analyse ⟨policy, .keepAll⟩).1 = .ok analysis)
    (noIssues : analysis.issues = [])
    (schemes : (program.analyse ⟨policy, .keepAll⟩).2.ComparesSchemes policy
      program.expr.preorder analysis.types)
    (active : ∀ node ∈ program.expr.preorder, ∀ argument ∈ node.arguments,
      program.environment.Activates program.declared.store argument) :
    ∃ pruned, (program.analyse ⟨policy, .prune⟩).1 = .ok pruned ∧ pruned.issues = [] := by
  have declaredValid := valid_of_load loads
  have started : ({ store := program.declared.store } : Progress).Started program.declared.store
      program.environment :=
    ⟨⟨declaredValid.wellFormed, declaredValid.closed, by simp⟩,
      declaredValid.wellFormed.follows_self⟩
  have simulated : Typing.Simulated program.declared.store program.environment policy
      program.expr.preorder program.expr :=
    Typing.simulated declaredValid.wellFormed declaredValid.closed active (List.Subset.refl _)
  obtain ⟨root, last, runEq, analysedEq, typesEq, issuesEq⟩ :=
    Analysis.exists_progress_of_run completed
  have fine : last.Fine policy program.expr.preorder := by
    refine ⟨Array.toList_eq_nil_iff.1 (issuesEq.symm.trans noIssues), ?_⟩
    rw [analyse, analysedEq, typesEq] at schemes
    exact schemes
  obtain ⟨prunedRoot, ok, untroubled, _⟩ := (simulated started root last runEq).follows fine started
  unfold analyse
  rw [Analysis.run_of_ok (Prod.ext ok rfl)]
  exact ⟨_, rfl, Array.toList_eq_nil_iff.2 untroubled.issues_eq⟩

/-- Applications leave idle quantifiers behind where unused variables are kept, and a
list of their results is mapped. -/
def skipping : Document where
  declarations :=
    [{ name := "none", type := some "forall 'a. ['a]" },
      { name := "skip", type := some "forall 'a. ['a] -> Int -> Int" },
      { name := "next", type := some "Int -> Int" }]
  expr :=
    .pipe {}
      (.list {}
        [.apply {} (.apply {} (.reference {} "skip" none) [.reference {} "none" none])
            [.apply {} (.reference {} "skip" none)
              [.reference {} "none" none, .literal {} (.int 1)]],
          .literal {} (.int 2)])
      (.reference {} "next" none)

theorem analyse_skipping :
    ∃ program, load skipping = .ok program ∧
      (∀ node ∈ program.expr.preorder, ∀ argument ∈ node.arguments,
        program.environment.Activates program.declared.store argument) ∧
      ∀ policy, ∃ analysis, (program.analyse ⟨policy, .keepAll⟩).1 = .ok analysis ∧
        analysis.issues = [] ∧
        (program.analyse ⟨policy, .keepAll⟩).2.ComparesSchemes policy
          program.expr.preorder analysis.types ∧
        (∃ entry ∈ analysis.types, ((program.analyse ⟨policy, .keepAll⟩).2.tree entry.2).Idle) ∧
        ∃ pruned, (program.analyse ⟨policy, .prune⟩).1 = .ok pruned ∧ pruned.issues = [] := by
  have computes : ∃ program, load skipping = .ok program ∧
      (∀ node ∈ program.expr.preorder, ∀ argument ∈ node.arguments,
        program.environment.Activates program.declared.store argument) ∧
      ∀ policy, ∃ analysis, (program.analyse ⟨policy, .keepAll⟩).1 = .ok analysis ∧
        analysis.issues = [] ∧
        (program.analyse ⟨policy, .keepAll⟩).2.ComparesSchemes policy
          program.expr.preorder analysis.types ∧
        ∃ entry ∈ analysis.types,
          ((program.analyse ⟨policy, .keepAll⟩).2.tree entry.2).Idle := by
    decide +kernel
  obtain ⟨program, loads, active, completes⟩ := computes
  refine ⟨program, loads, active, ?_⟩
  intro policy
  obtain ⟨analysis, completed, noIssues, schemes, idle⟩ := completes policy
  exact ⟨analysis, completed, noIssues, schemes, idle,
    analyse_prune_of_keepAll loads policy completed noIssues schemes active⟩

/-- An argument is declared with an idle quantifier. -/
def idleArgument : Document where
  declarations :=
    [{ name := "one", type := some "forall 'a. Int" },
      { name := "none", type := some "forall 'a. ['a]" },
      { name := "skip", type := some "forall 'a. ['a] -> Int -> Int" }]
  expr :=
    .apply {} (.reference {} "skip" none) [.reference {} "none" none, .reference {} "one" none]

/-- Two arguments are lists of quantified types. -/
def nestedArguments : Document where
  declarations :=
    [{ name := "none", type := some "forall 'a. ['a]" },
      { name := "pick", type := some "forall 'a, 'b. 'b -> ['a] -> 'b -> Int" }]
  expr :=
    .apply {} (.reference {} "pick" none)
      [.list {} [.reference {} "none" none], .reference {} "none" none,
        .list {} [.pipe {} (.reference {} "none" none) (.reference {} "id" none)]]

/-- Neither condition can be dropped: with an idle quantifier an issue appears, and with
quantifiers inside, the analysis fails. -/
theorem analyse_prune_refuses :
    (∃ program, load idleArgument = .ok program ∧ program.nameErrors = [] ∧
      ∀ policy,
        (∃ analysis, (program.analyse ⟨policy, .keepAll⟩).1 = .ok analysis ∧
          analysis.issues = [] ∧
          (program.analyse ⟨policy, .keepAll⟩).2.ComparesSchemes policy
            program.expr.preorder analysis.types) ∧
        ∃ pruned, (program.analyse ⟨policy, .prune⟩).1 = .ok pruned ∧ pruned.issues.length = 1) ∧
    ∃ program, load nestedArguments = .ok program ∧ program.nameErrors = [] ∧
      (∀ node ∈ program.expr.preorder, ∀ argument ∈ node.arguments,
        program.environment.Activates program.declared.store argument) ∧
      ∀ policy,
        (∃ analysis, (program.analyse ⟨policy, .keepAll⟩).1 = .ok analysis ∧ analysis.issues = []) ∧
        (program.analyse ⟨policy, .prune⟩).1 =
          .error (.quantifierEquality "forall 'a. ['a]" "forall 'a. ['a]") := by
  decide +kernel

end Program
end PipeCheck
