import PipeCheck.Proofs.Properties.Lasting
import PipeCheck.Proofs.Store.Twins

/-!
# Where a subexpression is typed

Typing an expression types each of its subexpressions on the way.  What happens before
and after that leaves no record at the nodes of the subexpression.  A pipe is recorded
as mapping its function over a list only where the function could not be applied to
the list.
-/

namespace PipeCheck

open List PipeCheck.Expr

namespace Expr

variable {node expr : Expr}

/-- An expression that pipes an argument into a function. -/
def IsPipe (expr : Expr) : Prop :=
  ∃ site argument function, expr = .pipe site argument function

/-- A node that is none of the nodes of an expression. -/
def Outside (expr other : Expr) : Prop :=
  other.id ∉ expr.preorder.map id

theorem preorder_subset_of_downward {nodes : List Expr} (downward : Downward nodes)
    (mem : node ∈ nodes) :
    node.preorder ⊆ nodes := by
  induction node using inductionOnChildren with
  | step node ih =>
    rw [preorder_eq, cons_subset]
    refine ⟨mem, ?_⟩
    intro below isBelow
    obtain ⟨child, isChild, inside⟩ := mem_flatMap.1 isBelow
    exact ih child isChild (downward node mem child isChild) inside

/-- The nodes of a subexpression come in the same order. -/
theorem preorder_sublist (mem : node ∈ expr.preorder) :
    node.preorder.Sublist expr.preorder := by
  induction expr using inductionOnChildren with
  | step expr ih =>
    rw [preorder_eq expr, mem_cons, mem_flatMap] at mem
    rcases mem with rfl | ⟨child, isChild, inside⟩
    · exact List.Sublist.refl _
    · rw [preorder_eq expr, List.flatMap]
      exact ((ih child isChild inside).trans
        (sublist_flatten_of_mem (mem_map_of_mem isChild))).cons expr

theorem DistinctIds.of_mem (distinct : expr.DistinctIds) (mem : node ∈ expr.preorder) :
    node.DistinctIds :=
  distinct.sublist ((preorder_sublist mem).map id)

theorem DistinctIds.typingOrder (distinct : expr.DistinctIds) :
    (expr.typingOrder.map id).Nodup :=
  (expr.typingOrder_perm_preorder.map id).nodup_iff.2 distinct

theorem Downward.append {nodes others : List Expr} (downward : Downward nodes)
    (othersDownward : Downward others) :
    Downward (nodes ++ others) := by
  intro node mem child isChild
  rcases mem_append.1 mem with inNodes | inOthers
  · exact mem_append_left _ (downward node inNodes child isChild)
  · exact mem_append_right _ (othersDownward node inOthers child isChild)

section Apart

variable {nodes others : List Expr}

theorem outside_of_nodup (distinct : ((nodes ++ others).map id).Nodup) (downward : Downward nodes) :
    ∀ node ∈ nodes, ∀ other ∈ others, node.Outside other := by
  intro node mem other otherMem inside
  rw [map_append, nodup_append'] at distinct
  obtain ⟨below, isBelow, sameId⟩ := mem_map.1 inside
  have idInside := mem_map_of_mem (f := id) (preorder_subset_of_downward downward mem isBelow)
  exact distinct.2.2 (sameId ▸ idInside) (mem_map_of_mem otherMem)

theorem outside_of_nodup_right (distinct : ((nodes ++ others).map id).Nodup)
    (downward : Downward others) :
    ∀ node ∈ others, ∀ other ∈ nodes, node.Outside other :=
  outside_of_nodup ((perm_append_comm.map id).nodup_iff.1 distinct) downward

end Apart
end Expr

namespace Typing

theorem undisturbing_applyArgument (policy : QuantifierPolicy) (span : Span) (position : Nat)
    (fn : Option TypeId) (arg : TypeId) :
    Undisturbing (applyArgument policy span position fn arg) := by
  cases fn with
  | none => exact undisturbing_pure _
  | some fn =>
    refine undisturbing_store_bind fun store => ?_
    split
    · exact undisturbing_pure _
    have created : Undisturbing (checked (Checked.apply policy arg fn)) :=
      fun _ => ⟨rfl, rfl, prefix_rfl⟩
    refine created.bind fun result => ?_
    cases result with
    | some result => exact undisturbing_pure _
    | none => exact ((sameSteps_mismatch _ _ _ _ _ _).bind fun _ => .pure none).undisturbing

end Typing

namespace Checked

variable {policy : QuantifierPolicy} {arg fn result : TypeId} {before after : Store}

/-- The result of mapping a function over a list that it could not be applied to. -/
structure Maps (policy : QuantifierPolicy) (argument function result : TypeId)
    (before after : Store) : Prop where
  /-- The store is in order. -/
  wellFormed : before.WellFormed
  /-- No type has changed. -/
  follows : after.Follows before
  /-- The argument is stored. -/
  argumentInside : argument < before.size
  /-- The function is stored. -/
  functionInside : function < before.size
  /-- The function could not be applied. -/
  refused : ((apply policy argument function).run.run before).1 = .ok none
  /-- The argument is a list. -/
  isList : before.isList argument
  /-- The result is stored. -/
  resultInside : result < after.size
  /-- The result is a list. -/
  result_kind : after.kind result = .list

/-- Only a pipe that maps says that it does. -/
theorem ensures_pipe_maps (wf : before.WellFormed) (argumentInside : arg < before.size)
    (functionInside : fn < before.size) :
    Ensures (pipe policy arg fn) before fun returned after =>
      ∀ piped, returned = some piped → piped.broadcast = true →
        Maps policy arg fn piped.result before after := by
  have inherited := Store.trivial_inherited
  refine (inherited.returns_apply policy wf ⟨functionInside, trivial⟩
    ⟨argumentInside, trivial⟩).ensures.and_run_eq.bind ?_
  rintro applied mid ⟨appliedEq, midFollows, _⟩
  cases applied with
  | some type =>
    refine ensures_pure ?_
    rintro _ ⟨⟩ isBroadcast
    cases isBroadcast
  | none =>
    have stillInside := midFollows.grown.inside argumentInside
    refine (inherited.returns_elementOf? midFollows.wellFormed
      ⟨stillInside, trivial⟩).ensures.and_run_eq.bind ?_
    rintro element afterElement ⟨elementEq, elementFollows, elementHas⟩
    cases element with
    | none => exact ensures_pure (by simp)
    | some element =>
      have bothFollow := elementFollows.trans midFollows
      refine Ensures.bind (inherited.returns_apply policy elementFollows.wellFormed
        ⟨bothFollow.grown.inside functionInside, trivial⟩ (elementHas element rfl)).ensures ?_
      rintro mapped last ⟨lastFollows, mappedHas⟩
      cases mapped with
      | none => exact ensures_pure (by simp)
      | some type =>
        have creates : Ensures (monadLift (Alloc.list type) : Checked TypeId) last
            fun id final => last.Builds final id (.list (last.tree type)) :=
          (succeeds_lift ((Alloc.yields_list lastFollows.wellFormed
            (mappedHas type rfl).1).mono fun _ _ built => built.1)).ensures
        refine creates.bind ?_
        intro id final built
        refine ensures_pure ?_
        rintro _ ⟨⟩ _
        have isList : mid.isList arg := by
          by_contra notList
          rw [elementOf?_other notList] at elementEq
          cases elementEq
        have shared : Twins.shared before.size arg arg := ⟨rfl, argumentInside⟩
        refine ⟨wf, built.toFollows.trans (lastFollows.trans bothFollow),
          argumentInside, functionInside, congrArg Prod.fst appliedEq, ?_, built.inside, ?_⟩
        · exact ((midFollows.grown.alike wf midFollows.wellFormed).isKind_eq
            shared .list).trans isList
        · rw [← Store.kind_tree, built.tree_eq]
          rfl

end Checked

/-- A pipe records nothing, or that it maps its function where it does. -/
theorem Typing.ensures_pipe_maps (policy : QuantifierPolicy) (site : Site) {state : Progress}
    (wf : state.store.WellFormed) {arg fn : TypeId} (argumentInside : arg < state.store.size)
    (functionInside : fn < state.store.size) :
    Ensures (pipe policy site arg fn) state fun type last =>
      last.Undisturbed state ∨
        last = { state with
          store := last.store, broadcasts := site.id :: state.broadcasts } ∧
          Checked.Maps policy arg fn type state.store last.store := by
  refine ensures_store_bind ?_
  split
  · exact sameSteps_invalid.undisturbing.ensures.mono fun _ _ => .inl
  refine (ensures_of_checked (Checked.ensures_pipe_maps wf argumentInside functionInside)).bind ?_
  rintro returned _ ⟨after, rfl, maps⟩
  have undisturbed : ({ state with store := after } : Progress).Undisturbed state :=
    ⟨rfl, rfl, prefix_rfl⟩
  cases returned with
  | none =>
    refine (sameSteps_mismatch_invalid _ _ _ _ _ _).undisturbing.ensures.mono ?_
    exact fun _ _ last => .inl (last.trans undisturbed)
  | some piped =>
    dsimp only
    split
    · next isBroadcast => exact ensures_pure (.inr ⟨rfl, maps piped rfl isBroadcast⟩)
    · exact ensures_pure (.inl undisturbed)

namespace Journal

variable {config : Config} {env : Environment}
  {earlier mid later : Journal} {among others : Expr → Prop}

/-- Later journals have records and reports of some more nodes, and the reports are
the new issues. -/
structure Within (among : Expr → Prop) (later earlier : Journal) : Prop where
  /-- What was found is continued. -/
  sustains : later.progress.Sustains (fun _ => True) earlier.progress
  /-- Only these nodes get records. -/
  types : Prepends (fun entry => ∃ node, among node ∧ node.id = entry.1) later.progress.types
    earlier.progress.types
  /-- Only pipes among them are marked. -/
  broadcasts : Prepends (fun id => ∃ node, among node ∧ node.id = id ∧ node.IsPipe)
    later.progress.broadcasts earlier.progress.broadcasts
  /-- Only these nodes get issues. -/
  reports : later.Reports (fun id => ∃ node, among node ∧ node.id = id) earlier

theorem within_self (upholds : earlier.progress.Upholds (fun _ => True) env) :
    earlier.Within among earlier :=
  ⟨upholds.sustains_self, ⟨[], rfl, by simp⟩, ⟨[], rfl, by simp⟩, ⟨[], by simp⟩⟩

theorem Within.mono (within : later.Within among earlier)
    (weaken : ∀ node, among node → others node) :
    later.Within others earlier := by
  refine ⟨within.sustains, within.types.mono ?_, within.broadcasts.mono ?_, within.reports.mono ?_⟩
  all_goals
    rintro _ ⟨node, isAmong, found⟩
    exact ⟨node, weaken node isAmong, found⟩

theorem Within.trans (second : later.Within among mid) (first : mid.Within among earlier) :
    later.Within among earlier :=
  ⟨second.sustains.trans first.sustains, second.types.trans first.types,
    second.broadcasts.trans first.broadcasts, second.reports.trans first.reports⟩

/-- On the way from one journal to another a node was typed, and all else was done
outside it. -/
def Visits (config : Config) (env : Environment) (later earlier : Journal)
    (node : Expr) : Prop :=
  ∃ before type after,
    (Journaling.expression config env node).run.run before = (.ok type, after) ∧
      (node.id, type) ∈ after.progress.types ∧
        before.Within node.Outside earlier ∧ later.Within node.Outside after

/-- A node that was typed has a type. -/
theorem Visits.exists_lookup {node : Expr} (visits : later.Visits config env earlier node) :
    ∃ type, later.progress.types.lookup node.id = some type := by
  obtain ⟨_, type, _, _, recorded, _, within⟩ := visits
  rw [← Option.isSome_iff_exists, lookup_isSome_iff]
  exact ⟨(node.id, type), within.sustains.types_subset recorded, by simp⟩

/-- On the way from one journal to another some nodes were typed, and records were
made of these or others. -/
structure Passes (config : Config) (env : Environment) (among : Expr → Prop)
    (nodes : List Expr) (later earlier : Journal) : Prop where
  /-- Only certain nodes get records. -/
  within : later.Within among earlier
  /-- The nodes were typed. -/
  visits : ∀ node ∈ nodes, later.Visits config env earlier node

theorem Within.passes (within : later.Within among earlier) :
    later.Passes config env among [] earlier :=
  ⟨within, by simp⟩

theorem Passes.mono {nodes : List Expr} (passes : later.Passes config env among nodes earlier)
    (weaken : ∀ node, among node → others node) :
    later.Passes config env others nodes earlier :=
  ⟨passes.within.mono weaken, passes.visits⟩

/-- What is done at other nodes, before or after, does not matter to a visit. -/
theorem Passes.append {nodes moreNodes : List Expr}
    (first : mid.Passes config env among nodes earlier)
    (second : later.Passes config env others moreNodes mid)
    (away : ∀ node ∈ nodes, ∀ other, others other → node.Outside other)
    (moreAway : ∀ node ∈ moreNodes, ∀ other, among other → node.Outside other) :
    later.Passes config env (fun node => among node ∨ others node) (nodes ++ moreNodes)
      earlier := by
  refine ⟨(second.within.mono fun _ => .inr).trans (first.within.mono fun _ => .inl), ?_⟩
  rw [forall_mem_append]
  constructor
  · intro node mem
    obtain ⟨before, type, after, runEq, recorded, beforeWithin, afterWithin⟩ :=
      first.visits node mem
    exact ⟨before, type, after, runEq, recorded, beforeWithin,
      (second.within.mono (away node mem)).trans afterWithin⟩
  · intro node mem
    obtain ⟨before, type, after, runEq, recorded, beforeWithin, afterWithin⟩ :=
      second.visits node mem
    exact ⟨before, type, after, runEq, recorded,
      beforeWithin.trans (first.within.mono (moreAway node mem)), afterWithin⟩

section Frame

variable {expr node : Expr}

/-- What was reported at the nodes of an expression. -/
def reportsIn (journal : Journal) (expr : Expr) : List (NodeId × Issue) :=
  journal.reports.filter fun report => report.1 ∈ expr.preorder.map Expr.id

section

variable (within : later.Within expr.Outside earlier)

include within

theorem Within.lookup_eq (mem : node ∈ expr.preorder) :
    later.progress.types.lookup node.id = earlier.progress.types.lookup node.id := by
  obtain ⟨new, typesEq, newOutside⟩ := within.types
  have notNew : new.lookup node.id = none := by
    rw [lookup_eq_none_iff]
    intro entry isNew
    obtain ⟨other, outside, sameId⟩ := newOutside entry isNew
    have different : node.id ≠ entry.1 := fun same =>
      outside (sameId.trans same.symm ▸ mem_map_of_mem mem)
    simpa using different
  rw [typesEq, lookup_append, notNew, Option.none_or]

theorem Within.mem_broadcasts_iff (mem : node ∈ expr.preorder) :
    node.id ∈ later.progress.broadcasts ↔ node.id ∈ earlier.progress.broadcasts := by
  obtain ⟨new, broadcastsEq, newOutside⟩ := within.broadcasts
  rw [broadcastsEq, mem_append, or_iff_right_iff_imp]
  intro isNew
  obtain ⟨other, outside, sameId, _⟩ := newOutside node.id isNew
  exact absurd (sameId ▸ mem_map_of_mem mem) outside

theorem Within.reportsIn_eq :
    later.reportsIn expr = earlier.reportsIn expr := by
  obtain ⟨new, reportsEq, newOutside, _⟩ := within.reports
  unfold reportsIn
  rw [reportsEq, filter_append, append_right_eq_self, filter_eq_nil_iff]
  intro report isNew
  obtain ⟨other, outside, sameId⟩ := newOutside report isNew
  rw [← sameId, decide_eq_true_iff]
  exact outside

end

end Frame

end Journal

namespace Journaling

open Journal Progress Typing

variable {last : Journal} {action : Typing TypeId} {expr fn : Expr}
  {args : List Expr} {site : Site} {α : Type} {config : Config} {env : Environment}
  {journal : Journal}

section Steps

variable {node : Expr}

/-- The reports of a step are its new issues. -/
theorem reports_attempt (issues : journal.progress.issues.toList <+: last.progress.issues.toList)
    (reportsEq : last.reports = journal.reports ++
      (last.progress.issues.toList.drop journal.progress.issues.size).map (node.id, ·)) :
    last.Reports (fun id => ∃ other, other ∈ [node] ∧ other.id = id) journal := by
  refine ⟨_, reportsEq, ?_, ?_⟩
  · intro report mem
    obtain ⟨_, _, rfl⟩ := mem_map.1 mem
    exact ⟨node, mem_singleton_self node, rfl⟩
  · rw [map_map, ← Array.length_toList]
    simpa using prefix_append_drop issues

/-- A step that records nothing. -/
theorem ensures_undisturbed {action : Typing α} {post : α → Progress → Prop}
    (keeps : Keeps (Sustains fun _ => True) action journal.progress post)
    (undisturbing : Undisturbing action) (call : Option Call) :
    Ensures (attempt node.id call action) journal fun value last =>
      post value last.progress ∧ last.Within (· ∈ [node]) journal := by
  refine (ensures_attempt call (keeps.ensures.and undisturbing.ensures)).mono ?_
  rintro value last ⟨⟨⟨sustains, holds⟩, undisturbed⟩, reportsEq⟩
  exact ⟨holds, sustains, ⟨[], undisturbed.types_eq, by simp⟩,
    ⟨[], undisturbed.broadcasts_eq, by simp⟩, reports_attempt undisturbed.issues reportsEq⟩

/-- The type of a node and its record. -/
structure Recorded (node : Expr) (type : TypeId) (last : Journal) : Prop where
  /-- The type is stored. -/
  has : last.progress.store.Has (fun _ => True) type
  /-- Its record is the latest. -/
  first : last.progress.types.head? = some (node.id, type)

theorem Recorded.mem_types {type : TypeId} (recorded : Recorded node type last) :
    (node.id, type) ∈ last.progress.types :=
  mem_of_head? recorded.first

theorem Recorded.lookup_eq {type : TypeId} (recorded : Recorded node type last) :
    last.progress.types.lookup node.id = some type := by
  have first := recorded.first
  cases typesEq : last.progress.types with
  | nil =>
    rw [typesEq] at first
    cases first
  | cons entry rest =>
    rw [typesEq] at first
    cases first
    rw [lookup_cons_self]

/-- What the last step of a node may find before it records the type. -/
structure Marked (node : Expr) (later earlier : Progress) : Prop where
  /-- No type is recorded. -/
  types_eq : later.types = earlier.types
  /-- No issue is lost. -/
  issues : earlier.issues.toList <+: later.issues.toList
  /-- Only this pipe may be marked. -/
  broadcasts : Prepends (fun id => node.id = id ∧ node.IsPipe) later.broadcasts earlier.broadcasts

theorem marked_of_undisturbed {earlier later : Progress} (undisturbed : later.Undisturbed earlier) :
    Marked node later earlier :=
  ⟨undisturbed.types_eq, undisturbed.issues, ⟨[], undisturbed.broadcasts_eq, by simp⟩⟩

theorem ensures_noted_of_marked (node : Expr)
    (gives : Gives (fun _ => True) action journal.progress)
    (marks : Ensures action journal.progress fun _ last => Marked node last journal.progress)
    (call : Option Call) :
    Ensures (attempt node.id call do record node.id (← action)) journal fun type last =>
      Recorded node type last ∧ last.Within (· ∈ [node]) journal := by
  have records : Ensures (do record node.id (← action)) journal.progress fun type last =>
      ∃ before : Progress, (before.Sustains (fun _ => True) journal.progress ∧
        before.store.Has (fun _ => True) type) ∧ Marked node before journal.progress ∧
          last = { before with types := (node.id, type) :: before.types } := by
    refine ((Keeps.ensures gives).and marks).bind ?_
    rintro type before ⟨sustains, marked⟩
    exact ensures_pure ⟨before, sustains, marked, rfl⟩
  refine (ensures_attempt call records).mono ?_
  rintro type last ⟨⟨before, ⟨sustains, has⟩, marked, progressEq⟩, reportsEq⟩
  refine ⟨⟨by rw [progressEq]; exact has, by rw [progressEq]; rfl⟩, ?_, ?_, ?_, ?_⟩
  · rw [progressEq]
    exact ⟨sustains.follows, subset_cons_of_subset _ sustains.types_subset,
      forall_mem_cons.2 ⟨has, sustains.recorded⟩⟩
  · refine ⟨[(node.id, type)], ?_, by simp⟩
    rw [progressEq, marked.types_eq]
    rfl
  · obtain ⟨new, newEq, mapped⟩ := marked.broadcasts
    rw [progressEq]
    exact ⟨new, newEq, fun id mem => ⟨node, mem_singleton_self node, mapped id mem⟩⟩
  · refine reports_attempt ?_ reportsEq
    rw [progressEq]
    exact marked.issues

theorem ensures_noted (node : Expr) (gives : Gives (fun _ => True) action journal.progress)
    (undisturbing : Undisturbing action) (call : Option Call) :
    Ensures (attempt node.id call do record node.id (← action)) journal fun type last =>
      Recorded node type last ∧ last.Within (· ∈ [node]) journal := by
  exact ensures_noted_of_marked node gives
    (undisturbing.ensures.mono fun _ _ => marked_of_undisturbed) call

end Steps

section Runs

/-- Typing an expression visits all its nodes and records types for these only. -/
def PassesThrough (config : Config) (env : Environment) (expr : Expr) : Prop :=
  ∀ ⦃journal : Journal⦄, journal.progress.Upholds (fun _ => True) env →
    (expr.typingOrder.map Expr.id).Nodup →
      Ensures (expression config env expr) journal fun type last =>
        Recorded expr type last ∧
          last.Passes config env (· ∈ expr.typingOrder) expr.typingOrder journal

theorem passes_expressions {exprs : List Expr}
    (each : ∀ expr ∈ exprs, PassesThrough config env expr)
    (upholds : journal.progress.Upholds (fun _ => True) env)
    (distinct : ((Expr.typingOrderAll exprs).map Expr.id).Nodup) :
    Ensures (expressions config env exprs) journal fun types last =>
      (∀ type ∈ types, last.progress.store.Has (fun _ => True) type) ∧
        last.Passes config env (· ∈ Expr.typingOrderAll exprs)
          (Expr.typingOrderAll exprs) journal := by
  induction exprs generalizing journal with
  | nil =>
    rw [expressions]
    exact ensures_pure ⟨by simp, (within_self upholds).passes⟩
  | cons expr rest ih =>
    rw [Expr.typingOrderAll] at distinct ⊢
    rw [expressions]
    have ids := distinct
    rw [map_append] at ids
    refine (each expr mem_cons_self upholds ids.of_append_left).bind ?_
    rintro type mid ⟨recorded, passes⟩
    have midUpholds := upholds.of_sustains passes.within.sustains
    refine (ih (forall_mem_of_forall_mem_cons each) midUpholds ids.of_append_right).bind ?_
    rintro types last ⟨typesHave, restPasses⟩
    refine ensures_pure ⟨?_, (passes.append restPasses
      (Expr.outside_of_nodup distinct (Expr.downward_typingOrder expr))
      (Expr.outside_of_nodup_right distinct (Expr.downward_typingOrderAll rest))).mono ?_⟩
    · exact forall_mem_cons.2 ⟨midUpholds.has restPasses.within.sustains recorded.has, typesHave⟩
    · exact fun node mem => mem_append.2 mem

/-- Once all nodes below an expression are visited, its last step is all that is
missing. -/
theorem passes_last {below : List Expr} {mid : Journal} {action : Journaling TypeId}
    (passes : mid.Passes config env (· ∈ below ++ [expr]) below journal)
    (distinct : ((below ++ [expr]).map Expr.id).Nodup) (downward : Expr.Downward below)
    (noted : Ensures action mid fun type last =>
      Recorded expr type last ∧ last.Within (· ∈ [expr]) mid) :
    Ensures action mid fun type last => Recorded expr type last ∧
      last.Passes config env (· ∈ below ++ [expr]) below journal := by
  refine noted.mono ?_
  rintro type last ⟨recorded, within⟩
  have both := passes.append within.passes (Expr.outside_of_nodup distinct downward) (by simp)
  rw [append_nil] at both
  refine ⟨recorded, both.mono ?_⟩
  rintro node (earlier | isLast)
  · exact earlier
  · exact mem_append_right _ isLast

/-- The arguments of an application are visited, and the issues of the application
itself come in between. -/
theorem passes_applied {owner : Expr} (each : ∀ arg ∈ args, PassesThrough config env arg)
    (upholds : journal.progress.Upholds (fun _ => True) env)
    (distinct : ((Expr.typingOrderAll args ++ [owner]).map Expr.id).Nodup) (position : Nat)
    {fn : Option TypeId}
    (fnHas : ∀ id, fn = some id → journal.progress.store.Has (fun _ => True) id) :
    Ensures (applied config env owner.site position fn args) journal
      fun found last =>
        (∀ id, found = some id → last.progress.store.Has (fun _ => True) id) ∧
          last.Passes config env (· ∈ Expr.typingOrderAll args ++ [owner])
            (Expr.typingOrderAll args) journal := by
  induction args generalizing journal position fn with
  | nil =>
    rw [applied]
    exact ensures_pure ⟨fnHas, (within_self upholds).passes⟩
  | cons arg rest ih =>
    rw [Expr.typingOrderAll, append_assoc] at distinct
    rw [Expr.typingOrderAll, applied]
    have away := Expr.outside_of_nodup distinct (Expr.downward_typingOrder arg)
    have restDistinct : ((Expr.typingOrderAll rest ++ [owner]).map Expr.id).Nodup :=
      distinct.sublist ((sublist_append_right _ _).map _)
    have argsDistinct : ((arg.typingOrder ++ Expr.typingOrderAll rest).map
        Expr.id).Nodup :=
      distinct.sublist (((sublist_append_left _ _).append_left _).map _)
    refine (each arg mem_cons_self upholds
      (distinct.sublist ((sublist_append_left _ _).map _))).bind ?_
    rintro type mid ⟨recorded, passes⟩
    have midUpholds := upholds.of_sustains passes.within.sustains
    have mayGive := mayGive_applyArgument Store.trivial_lasting midUpholds
      config.quantifiers owner.span position
      (fun id isSome => upholds.has passes.within.sustains (fnHas id isSome)) recorded.has
    refine (ensures_undisturbed mayGive (undisturbing_applyArgument _ _ _ _ _) _).bind ?_
    rintro next afterNext ⟨nextHas, within⟩
    refine (ih (forall_mem_of_forall_mem_cons each)
      (midUpholds.of_sustains within.sustains) restDistinct _ nextHas).mono ?_
    rintro found last ⟨foundHas, restPasses⟩
    have ownPasses := within.passes.append restPasses (by simp)
      (Expr.outside_of_nodup restDistinct (Expr.downward_typingOrderAll rest))
    have outside := Expr.outside_of_nodup_right argsDistinct (Expr.downward_typingOrderAll rest)
    refine ⟨foundHas, (passes.append ownPasses ?_ outside).mono ?_⟩
    · rintro node mem other (isOwner | isRest)
      · exact away node mem other (mem_append_right _ isOwner)
      · exact away node mem other isRest
    · rintro node (inArg | isOwner | isRest)
      · simp [inArg]
      · simp [mem_singleton.1 isOwner]
      · rw [append_assoc]
        exact mem_append_right _ isRest

/-- An expression is visited itself when all nodes below it are. -/
theorem passesThrough_of_below {below : List Expr} (orderEq : expr.typingOrder = below ++ [expr])
    (typed : ∀ ⦃journal : Journal⦄, journal.progress.Upholds (fun _ => True) env →
      ((below ++ [expr]).map Expr.id).Nodup →
        Ensures (expression config env expr) journal fun type last =>
          Recorded expr type last ∧ last.Passes config env (· ∈ below ++ [expr]) below journal) :
    PassesThrough config env expr := by
  intro journal upholds distinct
  rw [orderEq] at distinct ⊢
  refine (typed upholds distinct).and_run_eq.mono ?_
  rintro type last ⟨runEq, recorded, passes⟩
  refine ⟨recorded, passes.within, ?_⟩
  rw [forall_mem_append, forall_mem_singleton]
  exact ⟨passes.visits, journal, type, last, runEq, recorded.mem_types, within_self upholds,
    within_self (upholds.of_sustains passes.within.sustains)⟩

theorem passesThrough_leaf (orderEq : expr.typingOrder = [expr])
    (expressionEq : expression config env expr = step expr.id do record expr.id (← action))
    (gives : ∀ state : Progress, state.Upholds (fun _ => True) env →
      Gives (fun _ => True) action state) (undisturbing : Undisturbing action) :
    PassesThrough config env expr := by
  refine passesThrough_of_below (orderEq.trans (nil_append _).symm) ?_
  intro journal upholds distinct
  rw [expressionEq]
  exact passes_last (within_self upholds).passes distinct (by simp [Downward])
    (ensures_noted expr (gives _ upholds) undisturbing none)

/-- A list or tuple of expressions. -/
theorem passesThrough_items {items : List Expr}
    (orderEq : expr.typingOrder = typingOrderAll items ++ [expr])
    (each : ∀ item ∈ items, PassesThrough config env item)
    {action : List TypeId → Typing TypeId} (expressionEq : expression config env expr = do
      let types ← expressions config env items
      step expr.id do record expr.id (← action types))
    (gives : ∀ (types : List TypeId) (state : Progress),
      state.Upholds (fun _ => True) env →
      (∀ type ∈ types, state.store.Has (fun _ => True) type) →
        Gives (fun _ => True) (action types) state)
    (undisturbing : ∀ types, Undisturbing (action types)) :
    PassesThrough config env expr := by
  refine passesThrough_of_below orderEq ?_
  intro journal upholds distinct
  rw [expressionEq]
  refine (passes_expressions each upholds
    (distinct.sublist ((sublist_append_left _ _).map _))).bind ?_
  rintro types mid ⟨typesHave, passes⟩
  exact passes_last (passes.mono fun _ => mem_append_left _) distinct
    (downward_typingOrderAll items)
    (ensures_noted expr
      (gives types _ (upholds.of_sustains passes.within.sustains) typesHave) (undisturbing types)
      none)

/-- The operands of a node with two of them are typed in turn. -/
theorem passes_both {left right : Expr} (leftPasses : PassesThrough config env left)
    (rightPasses : PassesThrough config env right)
    (upholds : journal.progress.Upholds (fun _ => True) env)
    (distinct : ((left.typingOrder ++ right.typingOrder).map Expr.id).Nodup)
    {next : TypeId → TypeId → Journaling α} {post : α → Journal → Prop}
    (rest : ∀ leftType rightType last,
      last.Passes config env (· ∈ left.typingOrder ++ right.typingOrder)
        (left.typingOrder ++ right.typingOrder) journal →
      last.progress.store.Has (fun _ => True) leftType →
      last.progress.store.Has (fun _ => True) rightType →
      last.progress.types.lookup left.id = some leftType →
      last.progress.types.lookup right.id = some rightType →
      Ensures (next leftType rightType) last post) :
    Ensures (do
      let leftType ← expression config env left
      let rightType ← expression config env right
      next leftType rightType) journal post := by
  refine (leftPasses upholds (distinct.sublist ((sublist_append_left _ _).map _))).bind ?_
  rintro leftType mid ⟨leftRecorded, passes⟩
  have midUpholds := upholds.of_sustains passes.within.sustains
  refine (rightPasses midUpholds (distinct.sublist ((sublist_append_right _ _).map _))).bind ?_
  rintro rightType last ⟨rightRecorded, restPasses⟩
  have away := Expr.outside_of_nodup distinct (Expr.downward_typingOrder left)
  have both := passes.append restPasses away
    (Expr.outside_of_nodup_right distinct (Expr.downward_typingOrder right))
  have leftAway := restPasses.within.mono (away left left.self_mem_typingOrder)
  exact rest leftType rightType last (both.mono fun _ => mem_append.2)
    (midUpholds.has restPasses.within.sustains leftRecorded.has) rightRecorded.has
    ((leftAway.lookup_eq left.self_mem_preorder).trans leftRecorded.lookup_eq)
    rightRecorded.lookup_eq

theorem passesThrough_pipe {arg : Expr} (argPasses : PassesThrough config env arg)
    (fnPasses : PassesThrough config env fn) :
    PassesThrough config env (.pipe site arg fn) := by
  have orderEq : (Expr.pipe site arg fn).typingOrder =
      (arg.typingOrder ++ fn.typingOrder) ++ [.pipe site arg fn] := by
    rw [Expr.typingOrder]
  refine passesThrough_of_below orderEq ?_
  intro journal upholds distinct
  rw [expression]
  refine passes_both argPasses fnPasses upholds
    (distinct.sublist ((sublist_append_left _ _).map _)) ?_
  intro argType fnType last passes argHas fnHas _ _
  have lastUpholds := upholds.of_sustains passes.within.sustains
  have marks : Ensures (pipe config.quantifiers site argType fnType) last.progress
      fun _ final => Marked (.pipe site arg fn) final last.progress := by
    refine (ensures_pipe_maps config.quantifiers site lastUpholds.wellFormed argHas.1
      fnHas.1).mono ?_
    rintro _ final (undisturbed | ⟨finalEq, _⟩)
    · exact marked_of_undisturbed undisturbed
    · rw [finalEq]
      exact ⟨rfl, prefix_rfl, ⟨[site.id], rfl, by simp [Expr.IsPipe, Expr.id, Expr.site]⟩⟩
  exact passes_last (passes.mono fun _ => mem_append_left _) distinct
    ((Expr.downward_typingOrder arg).append (Expr.downward_typingOrder fn))
    (ensures_noted_of_marked (.pipe site arg fn)
      (gives_pipe Store.trivial_lasting lastUpholds _ site argHas fnHas) marks _)

/-- The arguments of an application are visited after its function. -/
theorem passes_arguments {mid : Journal} (each : ∀ arg ∈ args, PassesThrough config env arg)
    (upholds : mid.progress.Upholds (fun _ => True) env)
    (passes : mid.Passes config env (· ∈ fn.typingOrder) fn.typingOrder journal)
    (distinct : ((fn.typingOrder ++ Expr.typingOrderAll args ++
      [Expr.apply site fn args]).map Expr.id).Nodup) {found : Option TypeId}
    (foundHas : ∀ id, found = some id → mid.progress.store.Has (fun _ => True) id) :
    Ensures (applied config env site 0 found args) mid fun result last =>
      (∀ id, result = some id → last.progress.store.Has (fun _ => True) id) ∧
        last.progress.Upholds (fun _ => True) env ∧
          last.Passes config env (· ∈ fn.typingOrder ++
            Expr.typingOrderAll args ++ [.apply site fn args])
            (fn.typingOrder ++ Expr.typingOrderAll args) journal := by
  rw [append_assoc] at distinct
  have away := Expr.outside_of_nodup distinct (Expr.downward_typingOrder fn)
  have bothDistinct : ((fn.typingOrder ++ Expr.typingOrderAll args).map
      Expr.id).Nodup :=
    distinct.sublist (((sublist_append_left _ _).append_left _).map _)
  have visits := passes_applied each upholds
    (distinct.sublist ((sublist_append_right _ _).map _)) 0 foundHas
  refine Ensures.mono visits ?_
  rintro result last ⟨resultHas, restPasses⟩
  refine ⟨resultHas, upholds.of_sustains restPasses.within.sustains,
    (passes.append restPasses away (Expr.outside_of_nodup_right bothDistinct
      (Expr.downward_typingOrderAll args))).mono ?_⟩
  intro node mem
  rw [append_assoc]
  exact mem_append.2 mem

theorem passesThrough_apply (fnPasses : PassesThrough config env fn)
    (each : ∀ arg ∈ args, PassesThrough config env arg) :
    PassesThrough config env (.apply site fn args) := by
  have orderEq := typingOrder_apply site fn args
  refine passesThrough_of_below orderEq ?_
  intro journal upholds distinct
  have downward := (downward_typingOrder fn).append (downward_typingOrderAll args)
  have lasting := Store.trivial_lasting
  rw [expression]
  refine (fnPasses upholds (distinct.sublist
    (((sublist_append_left _ _).trans (sublist_append_left _ _)).map _))).bind ?_
  rintro fnType mid ⟨recorded, passes⟩
  have midUpholds := upholds.of_sustains passes.within.sustains
  refine ensures_store_bind ?_
  split
  · refine (passes_arguments each midUpholds passes distinct (by simp)).bind ?_
    rintro _ last ⟨_, lastUpholds, lastPasses⟩
    exact passes_last lastPasses distinct downward (ensures_noted (.apply site fn _)
      (gives_primitive lasting lastUpholds .invalid) sameSteps_invalid.undisturbing none)
  split
  · next noArgs =>
      rw [List.isEmpty_iff] at noArgs
      subst noArgs
      simp only [typingOrderAll, append_nil] at distinct downward ⊢
      exact passes_last (passes.mono fun _ => mem_append_left _) distinct downward
        (ensures_noted (.apply site fn _) (gives_applyUnit lasting midUpholds recorded.has
          site.span) (sameSteps_applyUnit fnType site.span _).undisturbing none)
  · refine (passes_arguments each midUpholds passes distinct (by simpa using recorded.has)).bind ?_
    rintro found last ⟨foundHas, lastUpholds, lastPasses⟩
    refine passes_last lastPasses distinct downward ?_
    cases found with
    | some result =>
      have gives : Gives (fun _ => True) (pure result) last.progress :=
        keeps_pure lastUpholds.sustains_self (foundHas result rfl)
      exact ensures_noted (.apply site fn _) gives (undisturbing_pure result) none
    | none =>
      exact ensures_noted (.apply site fn _) (gives_primitive lasting lastUpholds .invalid)
        sameSteps_invalid.undisturbing none

/-- Typing passes through every expression. -/
theorem passesThrough (config : Config) (env : Environment) (expr : Expr) :
    PassesThrough config env expr := by
  have lasting := Store.trivial_lasting
  induction expr with
  | reference site name symbol =>
    exact passesThrough_leaf (by rw [typingOrder]; rfl) (by rw [expression]; rfl)
      (fun _ upholds => gives_reference lasting upholds name symbol site.span)
      (sameSteps_reference env name symbol site.span _).undisturbing
  | literal site value =>
    exact passesThrough_leaf (by rw [typingOrder]; rfl) (by rw [expression]; rfl)
      (fun _ upholds => gives_literal lasting upholds value) (sameSteps_literal value).undisturbing
  | list site items each =>
    refine passesThrough_items (by rw [typingOrder]) each (by rw [expression]; rfl) ?_
      fun types => (sameSteps_listLiteral config.listLiterals site.span _ rfl).undisturbing
    intro types state upholds typesHave
    refine gives_listLiteral lasting upholds _ site.span ?_
    intro element mem
    exact typesHave element.1 (of_mem_zip mem).1
  | tuple site items each =>
    exact passesThrough_items (by rw [typingOrder]) each (by rw [expression]; rfl)
      (fun _ _ upholds typesHave => gives_tupleLiteral lasting upholds typesHave)
      fun types => (sameSteps_tupleLiteral types).undisturbing
  | apply site fn args fnPasses each =>
    exact passesThrough_apply fnPasses each
  | pipe site arg fn argPasses fnPasses =>
    exact passesThrough_pipe argPasses fnPasses
  | binary site op left right leftPasses rightPasses =>
    refine passesThrough_of_below (by rw [typingOrder]) ?_
    intro journal upholds distinct
    rw [expression]
    refine passes_both leftPasses rightPasses upholds
      (distinct.sublist ((sublist_append_left _ _).map _)) ?_
    intro _ _ last passes _ _ _ _
    exact passes_last (passes.mono fun _ => mem_append_left _) distinct
      ((downward_typingOrder left).append (downward_typingOrder right))
      (ensures_noted (.binary site op left right)
        (gives_reject lasting (upholds.of_sustains passes.within.sustains) _)
        (sameSteps_reject _ _).undisturbing none)
  | definition site symbol init initPasses =>
    refine passesThrough_of_below (by rw [typingOrder]) ?_
    intro journal upholds distinct
    rw [expression]
    refine (initPasses upholds (distinct.sublist ((sublist_append_left _ _).map _))).bind ?_
    rintro _ last ⟨_, passes⟩
    exact passes_last (passes.mono fun _ => mem_append_left _) distinct
      (downward_typingOrder init)
      (ensures_noted (.definition site symbol init)
        (gives_reject lasting (upholds.of_sustains passes.within.sustains) _)
        (sameSteps_reject _ _).undisturbing none)
  | placeholder site =>
    exact passesThrough_leaf (by rw [typingOrder]; rfl) (by rw [expression]; rfl)
      (fun _ upholds => gives_primitive lasting upholds .invalid) sameSteps_invalid.undisturbing

end Runs

end Journaling

end PipeCheck
