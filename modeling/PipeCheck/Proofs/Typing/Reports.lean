import PipeCheck.Proofs.Properties.ClosedProgram
import PipeCheck.Proofs.Typing.Settled

/-!
# Every invalid node is explained

Typing with a journal settles every node of an expression, whatever its kind.  So
the invalid type is never hidden in another type, is always explained by an issue or
a placeholder, and brings no further issues.  The main statement is
`Analysis.invalid_explained`.
-/

namespace PipeCheck

open List PipeCheck.Expr

namespace Journaling

open Journal Progress Typing

variable {action : Typing TypeId} {node fn : Expr} {old : List Issue} {site : Site}
  {args : List Expr} {α : Type} {base : Store} {journal : Journal}

theorem drop_issues {last : Progress} {broadcasts : List NodeId} {issues : List Issue}
    (steps : last.Steps journal.progress broadcasts issues) :
    last.issues.toList.drop journal.progress.issues.size = issues := by
  rw [steps.issues_eq, ← Array.length_toList, drop_left]

theorem reportsAt_append {later : Journal} {node : NodeId} {issues : List Issue}
    (reportsEq : later.reports = journal.reports ++ issues.map (node, ·)) :
    later.reportsAt node = journal.reportsAt node ++ issues.map (node, ·) := by
  unfold reportsAt
  rw [reportsEq, filter_append]
  congr 1
  rw [filter_eq_self]
  simp

theorem ensures_record {state : Progress} {node : NodeId} {post : TypeId → Progress → Prop}
    (ensures : Ensures action state post) :
    Ensures (do record node (← action)) state fun type last =>
      ∃ before, post type before ∧
        last = { before with types := [(node, type)] ++ before.types } := by
  refine ensures.bind ?_
  intro type before holds
  exact ensures_pure ⟨before, holds, rfl⟩

/-- The last step in the typing of a node ends with a verdict on the issues of all
its steps, and a pipe with an invalid operand has none. -/
def Closes (journal : Journal) (node : Expr) (excuse : Prop) (old : List Issue)
    (computation : Typing TypeId) : Prop :=
  Ensures computation journal.progress fun type last => ∃ broadcasts issues,
    last.Steps journal.progress broadcasts issues ∧ last.store.Verdict excuse type (old ++ issues) ∧
    (node.isPipe → (∃ child ∈ node.children, journal.InvalidAt child) → old ++ issues = [])

theorem closes_of_concludes {excuse : Prop}
    (concludes : Concludes excuse action journal.progress) (notPipe : node.isPipe = false) :
    Closes journal node excuse [] action := by
  refine Ensures.mono concludes ?_
  rintro type last ⟨broadcasts, issues, steps, verdict⟩
  exact ⟨broadcasts, issues, steps, verdict, by simp [notPipe]⟩

theorem closes_invalid {excuse : Prop} (wf : journal.progress.store.WellFormed)
    (interim : journal.progress.store.Interim excuse none old) (notPipe : node.isPipe = false) :
    Closes journal node excuse old invalid := by
  have finds : Finds 0 invalid journal.progress .invalid := finds_primitive wf .invalid
  refine (Succeeds.ensures finds).mono ?_
  rintro type last ⟨steps, shown⟩
  refine ⟨[], [], steps, ?_, by simp [notPipe]⟩
  rw [append_nil]
  exact interim.verdict shown

/-- The last step in the typing of a node settles it. -/
theorem ensures_recorded (siteEq : node.site = site) (sound : journal.progress.Sound base)
    {excuse : Prop} (closes : Closes journal node excuse old action)
    (reported : journal.reportsAt node.id = old.map (node.id, ·))
    (childrenApart : ∀ child ∈ node.children, child.id ≠ node.id)
    (excused : excuse → journal.Excuses node) (call : Option Call) :
    Ensures (attempt site.id call do record site.id (← action)) journal fun type last =>
      last.Completed journal [node] ∧ last.progress.types.lookup node.id = some type := by
  subst siteEq
  change Ensures (attempt node.id call do record node.id (← action)) journal _
  refine (ensures_attempt call (ensures_record closes)).mono ?_
  rintro type last ⟨⟨before, ⟨broadcasts, issues, steps, verdict, silent⟩, progressEq⟩, reportsEq⟩
  have typeInside : type < before.store.size := verdict.inside
  have lastIssues : last.progress.issues = before.issues := by rw [progressEq]
  rw [lastIssues, drop_issues steps] at reportsEq
  have touches : last.Touches journal [node.id] :=
    touches_of_steps sound steps progressEq (by simpa using typeInside) reportsEq
  -- the step writes to its own node only, so the children are what they were
  have invalidIff : ∀ child ∈ node.children, last.InvalidAt child ↔ journal.InvalidAt child := by
    intro child mem
    unfold InvalidAt
    rw [touches.treeAt?_eq sound (by simpa using childrenApart child mem)]
  have reportsAtEq : last.reportsAt node.id = (old ++ issues).map (node.id, ·) := by
    rw [reportsAt_append reportsEq, reported, map_append]
  refine ⟨⟨touches, ?_⟩, by simp [progressEq]⟩
  rw [forall_mem_singleton]
  refine settled_of_verdict (by simp [treeAt?, progressEq]) reportsAtEq verdict ?_ ?_
  · intro isExcused
    refine (excused isExcused).imp_right ?_
    rintro ⟨child, mem, isInvalid⟩
    exact ⟨child, mem, (invalidIff child mem).2 isInvalid⟩
  · rintro isPipe ⟨child, mem, isInvalid⟩
    exact silent isPipe ⟨child, mem, (invalidIff child mem).1 isInvalid⟩

section Runs

variable {config : Config} {env : Environment}

/-- Typing an expression settles all its nodes. -/
def Settles (config : Config) (env : Environment) (base : Store) (expr : Expr) : Prop :=
  ∀ ⦃journal : Journal⦄, journal.progress.Sound base → journal.Awaits expr.typingOrder →
    Ensures (expression config env expr) journal fun type last =>
      last.Completed journal expr.typingOrder ∧ last.progress.types.lookup expr.id = some type

theorem ensures_expressions {exprs : List Expr}
    (each : ∀ expr ∈ exprs, Settles config env base expr)
    (sound : journal.progress.Sound base) (awaits : journal.Awaits (typingOrderAll exprs)) :
    Ensures (expressions config env exprs) journal fun types last =>
      last.Completed journal (typingOrderAll exprs) ∧
        ∀ type ∈ types, ∃ expr ∈ exprs, last.StandsFor type expr := by
  induction exprs generalizing journal with
  | nil =>
    rw [expressions]
    exact ensures_pure ⟨⟨touches_self sound, by simp [typingOrderAll]⟩, by simp⟩
  | cons expr rest ih =>
    rw [typingOrderAll] at awaits ⊢
    rw [expressions]
    refine (each expr mem_cons_self sound awaits.left).bind ?_
    rintro type mid ⟨completed, recorded⟩
    refine (ih (forall_mem_of_forall_mem_cons each)
      (completed.touches.sound sound) (awaits.right completed.touches)).bind ?_
    rintro types last ⟨restCompleted, standing⟩
    have allCompleted := restCompleted.trans completed sound (downward_typingOrder expr)
      awaits.apart
    refine ensures_pure ⟨allCompleted, ?_⟩
    rw [forall_mem_cons]
    constructor
    · refine ⟨expr, mem_cons_self, allCompleted.standsFor ?_ ?_⟩
      · exact mem_append_left _ expr.self_mem_typingOrder
      · rw [restCompleted.touches.lookup_eq (awaits.apart expr expr.self_mem_typingOrder)]
        exact recorded
    · intro type mem
      obtain ⟨other, isRest, stands⟩ := standing type mem
      exact ⟨other, mem_cons_of_mem _ isRest, stands⟩

/-- The operands of a node with two of them are typed in turn. -/
theorem ensures_both {left right : Expr} (leftSettles : Settles config env base left)
    (rightSettles : Settles config env base right) (sound : journal.progress.Sound base)
    (awaits : journal.Awaits (left.typingOrder ++ right.typingOrder))
    {next : TypeId → TypeId → Journaling α} {post : α → Journal → Prop}
    (rest : ∀ leftType rightType last,
      last.Completed journal (left.typingOrder ++ right.typingOrder) →
      last.StandsFor leftType left → last.StandsFor rightType right →
      Ensures (next leftType rightType) last post) :
    Ensures (do
      let leftType ← expression config env left
      let rightType ← expression config env right
      next leftType rightType) journal post := by
  refine (leftSettles sound awaits.left).bind ?_
  rintro leftType mid ⟨leftCompleted, leftRecorded⟩
  refine (rightSettles (leftCompleted.touches.sound sound)
    (awaits.right leftCompleted.touches)).bind ?_
  rintro rightType last ⟨rightCompleted, rightRecorded⟩
  have completed := rightCompleted.trans leftCompleted sound (downward_typingOrder left)
    awaits.apart
  rw [← rightCompleted.touches.lookup_eq (awaits.apart left left.self_mem_typingOrder)]
    at leftRecorded
  exact rest leftType rightType last completed
    (completed.standsFor (mem_append_left _ left.self_mem_typingOrder) leftRecorded)
    (completed.standsFor (mem_append_right _ right.self_mem_typingOrder) rightRecorded)

section Applications

variable {site : Site} {done : List Expr} {fn : Option TypeId}

/-- One more argument. -/
theorem ensures_applyArgument (sound : journal.progress.Sound base) (policy : QuantifierPolicy)
    (position : Nat) (pending : journal.Pending site.id done fn) {arg : Expr}
    {type : TypeId} (stands : journal.StandsFor type arg)
    (apart : ∀ child ∈ done ++ [arg], child.id ≠ site.id) (call : Option Call) :
    Ensures (attempt site.id call
        (Typing.applyArgument policy site.span position fn type)) journal
      fun next last => last.Touches journal [site.id] ∧
        last.Pending site.id (done ++ [arg]) next := by
  obtain ⟨old, reported, interim⟩ := pending
  have decides : Ensures (Typing.applyArgument policy site.span position fn type)
      journal.progress fun next last => ∃ issues, last.Steps journal.progress [] issues ∧
        last.store.Interim (∃ child ∈ done ++ [arg], journal.InvalidAt child) next
          (old ++ issues) := by
    cases interim with
    | found free =>
      refine Ensures.mono (decides_applyArgument sound.wellFormed policy site.span position free
        stands.decided) ?_
      rintro next last ⟨issues, steps, interim⟩
      exact ⟨issues, steps, interim.mono fun isInvalid =>
        ⟨arg, by simp, stands.invalid_iff.2 isInvalid⟩⟩
    | reported issue =>
      exact ensures_pure ⟨[], steps_self sound.wellFormed, .reported issue⟩
    | excused excuse =>
      obtain ⟨child, mem, isInvalid⟩ := excuse
      exact ensures_pure ⟨[], steps_self sound.wellFormed,
        .excused ⟨child, mem_append_left _ mem, isInvalid⟩⟩
  refine (ensures_attempt call decides).mono ?_
  rintro next last ⟨⟨issues, steps, interim⟩, reportsEq⟩
  rw [drop_issues steps] at reportsEq
  have noTypes : last.progress = { last.progress with types := [] ++ last.progress.types } := rfl
  have touches : last.Touches journal [site.id] :=
    touches_of_steps sound steps noTypes (by simp) reportsEq
  refine ⟨touches, old ++ issues, ?_, interim.mono ?_⟩
  · rw [reportsAt_append reportsEq, reported, map_append]
  · rintro ⟨child, mem, isInvalid⟩
    exact ⟨child, mem, (touches.treeAt?_eq sound (by simpa using apart child mem)).trans isInvalid⟩

/-- Arguments are typed and applied one after the other. -/
theorem ensures_applied (each : ∀ arg ∈ args, Settles config env base arg)
    (sound : journal.progress.Sound base) (position : Nat)
    (awaits : journal.Awaits (Expr.typingOrderAll args))
    (apart : ∀ node ∈ Expr.typingOrderAll args, node.id ≠ site.id) (doneApart : ∀ child ∈ done,
      child.id ≠ site.id ∧ child.id ∉ (Expr.typingOrderAll args).map Expr.id)
    (pending : journal.Pending site.id done fn) :
    Ensures (applied config env site position fn args) journal
      fun found last =>
        last.Touches journal (site.id :: (Expr.typingOrderAll args).map Expr.id) ∧
          (∀ node ∈ Expr.typingOrderAll args, last.Settled node) ∧
            last.Pending site.id (done ++ args) found := by
  induction args generalizing journal position fn done with
  | nil =>
    rw [applied]
    exact ensures_pure ⟨touches_self sound, by simp [Expr.typingOrderAll], by simpa using pending⟩
  | cons arg rest ih =>
    rw [Expr.typingOrderAll] at awaits apart doneApart ⊢
    rw [forall_mem_append] at apart
    have restApart := awaits.apart
    rw [applied]
    refine (each arg mem_cons_self sound awaits.left).bind ?_
    rintro type mid ⟨completed, recorded⟩
    have midSound := completed.touches.sound sound
    have stands := completed.standsFor arg.self_mem_typingOrder recorded
    have argApart : site.id ∉ arg.typingOrder.map Expr.id := by
      rw [mem_map]
      rintro ⟨node, mem, sameId⟩
      exact apart.1 node mem sameId
    have midPending : mid.Pending site.id done fn :=
      pending.of_touches completed.touches sound argApart fun child mem inFirst =>
        (doneApart child mem).2 (by simp [inFirst])
    -- from here on the argument is done: nothing may touch its record any more
    have nextApart : ∀ child ∈ done ++ [arg],
        child.id ≠ site.id ∧ child.id ∉ (Expr.typingOrderAll rest).map Expr.id := by
      rw [forall_mem_append, forall_mem_singleton]
      refine ⟨fun child mem => ⟨(doneApart child mem).1, fun inRest =>
        (doneApart child mem).2 (by simp [inRest])⟩, ?_⟩
      exact ⟨apart.1 arg arg.self_mem_typingOrder, restApart arg arg.self_mem_typingOrder⟩
    refine (ensures_applyArgument midSound config.quantifiers position midPending stands
      (fun child mem => (nextApart child mem).1) _).bind ?_
    rintro next afterNext ⟨touches, nextPending⟩
    have midAwaits := awaits.right completed.touches
    have nextAwaits : afterNext.Awaits (Expr.typingOrderAll rest) := by
      refine ⟨midAwaits.distinct, ?_⟩
      intro node mem
      rw [touches.reportsAt_eq (by simpa using apart.2 node mem)]
      exact midAwaits.unreported node mem
    refine (ih (forall_mem_of_forall_mem_cons each)
      (touches.sound midSound) (position + 1) nextAwaits apart.2 nextApart nextPending).mono ?_
    rintro found last ⟨restTouches, restSettled, lastPending⟩
    have lastTouches : last.Touches mid
        (site.id :: (Expr.typingOrderAll rest).map Expr.id) :=
      restTouches.trans (touches.mono (by simp))
    refine ⟨?_, ?_, by simpa using lastPending⟩
    · refine (lastTouches.mono ?_).trans (completed.touches.mono ?_)
      · exact cons_subset_cons _ (by simp)
      · exact subset_cons_of_subset _ (by simp)
    · rw [forall_mem_append]
      refine ⟨forall_settled_of_touches completed.settled lastTouches midSound
        (Expr.downward_typingOrder arg) ?_, restSettled⟩
      intro node mem
      rw [mem_cons, not_or]
      exact ⟨apart.1 node mem, restApart node mem⟩

end Applications

section Nodes

variable {expr : Expr} {site : Site} {below : List Expr} {mid : Journal}
  {action : Typing TypeId} {excuse : Prop}

section

variable (siteEq : expr.site = site) (orderEq : expr.typingOrder = below ++ [expr])
  (sound : journal.progress.Sound base)

include siteEq orderEq sound

/-- When all nodes below an expression are settled, its last step settles the
expression. -/
theorem ensures_finished (awaits : journal.Awaits expr.typingOrder)
    (touches : mid.Touches journal (expr.typingOrder.map Expr.id))
    (settled : ∀ node ∈ below, mid.Settled node) (closes : Closes mid expr excuse old action)
    (reported : mid.reportsAt expr.id = old.map (expr.id, ·))
    (excused : excuse → mid.Excuses expr) (call : Option Call) :
    Ensures (attempt site.id call do record site.id (← action)) mid fun type last =>
      last.Completed journal expr.typingOrder ∧
        last.progress.types.lookup expr.id = some type := by
  have midSound := touches.sound sound
  have belowEq : below = expr.operands.flatMap Expr.typingOrder :=
    append_cancel_right (orderEq.symm.trans expr.typingOrder_eq)
  have downward : Expr.Downward below := by
    rw [belowEq, ← Expr.typingOrderAll_eq_flatMap]
    exact Expr.downward_typingOrderAll expr.operands
  have belowApart : ∀ node ∈ below, node.id ∉ [expr].map Expr.id := by
    rw [orderEq] at awaits
    exact awaits.apart
  have childrenApart : ∀ child ∈ expr.children, child.id ≠ expr.id := by
    intro child mem
    have inBelow : child ∈ below := by
      rw [belowEq, mem_flatMap]
      exact ⟨child, expr.operands_perm_children.mem_iff.2 mem, child.self_mem_typingOrder⟩
    simpa using belowApart child inBelow
  refine (ensures_recorded siteEq midSound closes reported childrenApart excused call).mono ?_
  rintro type last ⟨completed, recorded⟩
  refine ⟨⟨(completed.touches.mono ?_).trans touches, ?_⟩, recorded⟩
  · simpa using ⟨expr, expr.self_mem_typingOrder, rfl⟩
  · rw [orderEq, forall_mem_append]
    exact ⟨forall_settled_of_touches settled completed.touches midSound downward belowApart,
      completed.settled⟩

/-- An expression that has no steps before all nodes below it are settled. -/
theorem ensures_completed (awaits : journal.Awaits expr.typingOrder)
    (completed : mid.Completed journal below) (closes : Closes mid expr excuse [] action)
    (excused : excuse → mid.Excuses expr) (call : Option Call) :
    Ensures (attempt site.id call do record site.id (← action)) mid fun type last =>
      last.Completed journal expr.typingOrder ∧
        last.progress.types.lookup expr.id = some type := by
  refine ensures_finished siteEq orderEq sound awaits (completed.touches.mono ?_)
    completed.settled closes ?_ excused call
  · rw [orderEq, map_append]
    exact subset_append_left _ _
  · rw [orderEq] at awaits
    exact (awaits.right completed.touches).unreported expr (mem_singleton_self expr)

end

/-- An expression without operands. -/
theorem ensures_leaf (siteEq : expr.site = site) (orderEq : expr.typingOrder = [expr])
    (notPipe : expr.isPipe = false) (sound : journal.progress.Sound base)
    (awaits : journal.Awaits expr.typingOrder)
    (concludes : Concludes excuse action journal.progress)
    (excused : excuse → journal.Excuses expr) :
    Ensures (step site.id do record site.id (← action)) journal fun type last =>
      last.Completed journal expr.typingOrder ∧
        last.progress.types.lookup expr.id = some type := by
  have noneBelow : expr.typingOrder = [] ++ [expr] := orderEq
  exact ensures_completed siteEq noneBelow sound awaits ⟨touches_self sound, by simp⟩
    (closes_of_concludes concludes notPipe) excused none

end Nodes

theorem settles_list {items : List Expr} (each : ∀ item ∈ items, Settles config env base item) :
    Settles config env base (.list site items) := by
  intro journal sound awaits
  have orderEq : (list site items).typingOrder =
      typingOrderAll items ++ [.list site items] := by rw [typingOrder]
  rw [expression]
  refine (ensures_expressions each sound (orderEq ▸ awaits).left).bind ?_
  rintro types mid ⟨completed, standing⟩
  refine ensures_completed rfl orderEq sound awaits completed (closes_of_concludes
    (concludes_listLiteral completed.touches.follows.wellFormed config.listLiterals site.span ?_
      ?_) rfl) (fun excuse => excuse) none
  · intro element mem
    obtain ⟨_, _, stands⟩ := standing element.1 (of_mem_zip mem).1
    exact stands.decided
  · rintro ⟨element, mem, isInvalid⟩
    obtain ⟨item, isItem, stands⟩ := standing element.1 (of_mem_zip mem).1
    exact .inr ⟨item, isItem, stands.invalid_iff.2 isInvalid⟩

theorem settles_tuple {items : List Expr} (each : ∀ item ∈ items, Settles config env base item) :
    Settles config env base (.tuple site items) := by
  intro journal sound awaits
  have orderEq : (tuple site items).typingOrder =
      typingOrderAll items ++ [.tuple site items] := by rw [typingOrder]
  rw [expression]
  refine (ensures_expressions each sound (orderEq ▸ awaits).left).bind ?_
  rintro types mid ⟨completed, standing⟩
  refine ensures_completed rfl orderEq sound awaits completed (closes_of_concludes
    (concludes_tupleLiteral completed.touches.follows.wellFormed ?_ ?_) rfl)
    (fun excuse => excuse) none
  · intro type mem
    obtain ⟨_, _, stands⟩ := standing type mem
    exact stands.decided
  · intro type mem isInvalid
    obtain ⟨item, isItem, stands⟩ := standing type mem
    exact .inr ⟨item, isItem, stands.invalid_iff.2 isInvalid⟩

theorem settles_pipe {arg : Expr} (argSettles : Settles config env base arg)
    (fnSettles : Settles config env base fn) :
    Settles config env base (.pipe site arg fn) := by
  intro journal sound awaits
  have orderEq : (pipe site arg fn).typingOrder =
      arg.typingOrder ++ fn.typingOrder ++ [.pipe site arg fn] := by
    rw [typingOrder]
  rw [expression]
  refine ensures_both argSettles fnSettles sound (orderEq ▸ awaits).left ?_
  intro argType fnType last completed argStands fnStands
  have wf := completed.touches.follows.wellFormed
  -- an invalid operand silences the pipe, and without one the pipe has no excuse
  by_cases someInvalid : last.progress.store.tree argType = .invalid ∨
      last.progress.store.tree fnType = .invalid
  · have excuses : last.Excuses (.pipe site arg fn) := by
      right
      rcases someInvalid with isInvalid | isInvalid
      · exact ⟨arg, by simp [children], argStands.invalid_iff.2 isInvalid⟩
      · exact ⟨fn, by simp [children], fnStands.invalid_iff.2 isInvalid⟩
    refine ensures_completed rfl orderEq sound awaits completed ?_ (fun _ : True => excuses) _
    refine (ensures_pipe_of_invalid wf config.quantifiers site fnStands.decided
      argStands.decided someInvalid).mono ?_
    rintro type final ⟨steps, shown⟩
    exact ⟨_, _, steps, .excused shown trivial, fun _ _ => rfl⟩
  · rw [not_or] at someInvalid
    have noneInvalid : ¬∃ child ∈ (pipe site arg fn).children,
        last.InvalidAt child := by
      simp only [children, mem_cons, not_mem_nil, or_false]
      rintro ⟨child, rfl | rfl, isInvalid⟩
      · exact someInvalid.1 (argStands.invalid_iff.1 isInvalid)
      · exact someInvalid.2 (fnStands.invalid_iff.1 isInvalid)
    refine ensures_completed rfl orderEq sound awaits completed ?_ False.elim _
    have concludes : Concludes False
        (Typing.pipe config.quantifiers site argType fnType) last.progress :=
      concludes_pipe wf config.quantifiers site (fnStands.decided.invalidFree someInvalid.2)
        (argStands.decided.invalidFree someInvalid.1)
    refine Ensures.mono concludes ?_
    rintro type final ⟨broadcasts, issues, steps, verdict⟩
    exact ⟨broadcasts, issues, steps, verdict, fun _ child => absurd child noneInvalid⟩

/-- The arguments of an application, whose function is settled. -/
theorem ensures_arguments (each : ∀ arg ∈ args, Settles config env base arg)
    (sound : journal.progress.Sound base)
    (awaits : journal.Awaits (Expr.apply site fn args).typingOrder) {mid : Journal}
    (completed : mid.Completed journal fn.typingOrder) {start : Option TypeId}
    (interim : mid.progress.store.Interim (mid.InvalidAt fn) start []) :
    Ensures (applied config env site 0 start args) mid fun found last =>
      last.Touches journal ((Expr.apply site fn args).typingOrder.map Expr.id) ∧
      (∀ node ∈ fn.typingOrder ++ Expr.typingOrderAll args, last.Settled node) ∧
      last.Pending site.id (fn :: args) found ∧
      (mid.InvalidAt fn → last.InvalidAt fn) := by
  rw [Expr.typingOrder, append_assoc] at awaits
  have fnApart := awaits.apart
  have midAwaits := awaits.right completed.touches
  have argsApart : ∀ node ∈ Expr.typingOrderAll args, node.id ≠ site.id := by
    simpa [Expr.id, Expr.site] using midAwaits.apart
  have doneApart : ∀ node ∈ fn.typingOrder,
      node.id ≠ site.id ∧ node.id ∉ (Expr.typingOrderAll args).map Expr.id := by
    intro node mem
    have apart := fnApart node mem
    rw [map_append, mem_append, not_or] at apart
    exact ⟨by simpa [Expr.id, Expr.site] using apart.2, apart.1⟩
  have pending : mid.Pending site.id [fn] start := by
    refine ⟨[], ?_, interim.mono fun isInvalid => ⟨fn, by simp, isInvalid⟩⟩
    exact midAwaits.unreported (.apply site fn args) (by simp)
  refine (ensures_applied each (completed.touches.sound sound) 0 midAwaits.left argsApart
    (by simpa using doneApart fn fn.self_mem_typingOrder) pending).mono ?_
  rintro found last ⟨touches, settled, lastPending⟩
  have midSound := completed.touches.sound sound
  have apart : ∀ node ∈ fn.typingOrder,
      node.id ∉ site.id :: (Expr.typingOrderAll args).map Expr.id := by
    intro node mem
    rw [mem_cons, not_or]
    exact doneApart node mem
  refine ⟨?_, ?_, lastPending, fun isInvalid => ?_⟩
  · rw [Expr.typingOrder]
    refine (touches.mono ?_).trans (completed.touches.mono ?_)
    · simp [Expr.id, Expr.site]
    · simp
  · rw [forall_mem_append]
    exact ⟨forall_settled_of_touches completed.settled touches midSound
      (Expr.downward_typingOrder fn) apart, settled⟩
  · exact (touches.treeAt?_eq midSound (apart fn fn.self_mem_typingOrder)).trans isInvalid

/-- The application of a function to its arguments in turn. -/
theorem settles_apply (fnSettles : Settles config env base fn)
    (each : ∀ arg ∈ args, Settles config env base arg) :
    Settles config env base (.apply site fn args) := by
  intro journal sound awaits
  have orderEq := typingOrder_apply site fn args
  rw [expression]
  refine (fnSettles sound (orderEq ▸ awaits).left.left).bind ?_
  rintro fnType mid ⟨completed, recorded⟩
  have stands := completed.standsFor fn.self_mem_typingOrder recorded
  have wf := completed.touches.follows.wellFormed
  have excused : ∀ {last : Journal}, (∃ child ∈ fn :: args, last.InvalidAt child) →
      last.Excuses (.apply site fn args) := by
    rintro last ⟨child, mem, isInvalid⟩
    refine .inr ⟨child, ?_, isInvalid⟩
    simpa [children, or_comm] using mem
  refine ensures_store_bind ?_
  split
  · next isInvalid =>
      -- the arguments are typed all the same, and what is found for them is dismissed
      have fnInvalid := stands.invalid_iff.2 ((stands.decided.isInvalid_iff wf).1 isInvalid)
      refine (ensures_arguments each sound awaits completed (.excused fnInvalid)).bind ?_
      rintro found last ⟨touches, settled, ⟨old, reported, interim⟩, stillInvalid⟩
      have excuse : ∃ child ∈ fn :: args, last.InvalidAt child :=
        ⟨fn, mem_cons_self, stillInvalid fnInvalid⟩
      exact ensures_finished rfl orderEq sound awaits touches settled
        (closes_invalid touches.follows.wellFormed (interim.dismiss excuse) rfl) reported excused
        none
  next notInvalid =>
    have fnFree := stands.decided.invalidFree fun treeEq =>
      notInvalid ((stands.decided.isInvalid_iff wf).2 treeEq)
    split
    · next noArgs =>
        rw [List.isEmpty_iff] at noArgs
        subst noArgs
        rw [typingOrderAll, append_nil] at orderEq
        exact ensures_completed rfl orderEq sound awaits completed
          (closes_of_concludes (concludes_applyUnit wf fnFree site.span) rfl) False.elim none
    · refine (ensures_arguments each sound awaits completed (.found fnFree)).bind ?_
      rintro found last ⟨touches, settled, ⟨old, reported, interim⟩, _⟩
      cases found with
      | none =>
        exact ensures_finished rfl orderEq sound awaits touches settled
          (closes_invalid touches.follows.wellFormed interim rfl) reported excused none
      | some result =>
        have closes : Closes last (.apply site fn args) False old (pure result) := by
          cases interim with
          | found free =>
            exact ensures_pure ⟨[], [], steps_self touches.follows.wellFormed, .valid free,
              fun _ _ => rfl⟩
        exact ensures_finished rfl orderEq sound awaits touches settled closes reported
          False.elim none

/-- Typing settles every node, if the declared types do not mention the invalid
type. -/
theorem settles (baseWf : base.WellFormed)
    (declared : ∀ entry ∈ env.types, base.Has Tree.InvalidFree entry.2) (expr : Expr) :
    Settles config env base expr := by
  induction expr with
  | reference site name symbol =>
    intro journal sound awaits
    rw [expression]
    refine ensures_leaf rfl (by rw [typingOrder]; rfl) rfl sound awaits
      (concludes_reference sound.wellFormed ?_ name symbol site.span) False.elim
    intro entry mem
    have free := declared entry mem
    exact ⟨sound.grown.inside free.1, (sound.grown.tree_eq baseWf free.1).symm ▸ free.2⟩
  | literal site value =>
    intro journal sound awaits
    rw [expression]
    exact ensures_leaf rfl (by rw [typingOrder]; rfl) rfl sound awaits
      (concludes_literal sound.wellFormed value) False.elim
  | list site items each => exact settles_list each
  | tuple site items each => exact settles_tuple each
  | apply site fn args fnSettles each => exact settles_apply fnSettles each
  | pipe site arg fn argSettles fnSettles =>
    exact settles_pipe argSettles fnSettles
  | binary site op left right leftSettles rightSettles =>
    intro journal sound awaits
    have orderEq : (binary site op left right).typingOrder =
        left.typingOrder ++ right.typingOrder ++ [.binary site op left right] := by
      rw [typingOrder]
    rw [expression]
    refine ensures_both leftSettles rightSettles sound (orderEq ▸ awaits).left ?_
    intro _ _ last completed _ _
    exact ensures_completed rfl orderEq sound awaits completed (closes_of_concludes
      (concludes_reject completed.touches.follows.wellFormed _) rfl) False.elim none
  | definition site symbol init initSettles =>
    intro journal sound awaits
    have orderEq : (definition site symbol init).typingOrder =
        init.typingOrder ++ [.definition site symbol init] := by
      rw [typingOrder]
    rw [expression]
    refine (initSettles sound (orderEq ▸ awaits).left).bind ?_
    rintro _ mid ⟨completed, _⟩
    exact ensures_completed rfl orderEq sound awaits completed (closes_of_concludes
      (concludes_reject completed.touches.follows.wellFormed _) rfl) False.elim none
  | placeholder site =>
    intro journal sound awaits
    rw [expression]
    exact ensures_leaf rfl (by rw [typingOrder]; rfl) rfl sound awaits
      (concludes_excused sound.wellFormed trivial) fun _ => .inl rfl

end Runs

end Journaling

namespace Analysis

/-- A node whose type is the invalid type. -/
def InvalidAt (analysis : Analysis) (store : Store) (node : Expr) : Prop :=
  (analysis.typeOf? node.id).map store.tree = some .invalid

/-- The invalid type is always explained, never hidden, and does not spread
issues; `reports` are the issues with the nodes they were found at. -/
structure Explained (analysis : Analysis) (store : Store) (expr : Expr)
    (reports : List (NodeId × Issue)) : Prop where
  /-- The reports are the issues. -/
  issues_eq : analysis.issues = reports.map Prod.snd
  /-- A node has the invalid type or one that does not mention it. -/
  decided : ∀ node ∈ expr.preorder, ∃ type, analysis.typeOf? node.id = some type ∧
    (store.tree type = .invalid ∨ (store.tree type).InvalidFree)
  /-- A node with the invalid type is a placeholder, or has an issue, or something
  directly below it has the invalid type. -/
  explained : ∀ node ∈ expr.preorder, analysis.InvalidAt store node →
    node.isPlaceholder ∨ node.id ∈ reports.map Prod.fst ∨
      ∃ child ∈ node.children, analysis.InvalidAt store child
  /-- An invalid expression has an issue or a placeholder. -/
  root : store.tree analysis.root = .invalid →
    (∃ node ∈ expr.preorder, node.isPlaceholder) ∨ analysis.issues ≠ []
  /-- Issues are found at nodes that get the invalid type. -/
  reported : ∀ report ∈ reports, ∃ node ∈ expr.preorder,
    node.id = report.1 ∧ analysis.InvalidAt store node
  /-- A node has one issue at most. -/
  once : (reports.map Prod.fst).Nodup
  /-- A pipe with an invalid operand has no issue. -/
  silent : ∀ node ∈ expr.preorder, node.isPipe →
    (∃ child ∈ node.children, analysis.InvalidAt store child) → node.id ∉ reports.map Prod.fst

/-- If the declared types do not mention the invalid type, every invalid node of a
completed analysis is explained. -/
theorem invalid_explained (config : Config) (environment : Environment) {store : Store}
    (wellFormed : store.WellFormed)
    (declared : ∀ entry ∈ environment.types, store.Has Tree.InvalidFree entry.2) {expr : Expr}
    (distinct : expr.DistinctIds) {analysis : Analysis}
    (completed : (run config environment store expr).1 = .ok analysis) :
    analysis.Explained (run config environment store expr).2 expr
      (journal config environment store expr).reports := by
  obtain ⟨root, journalledEq, rfl⟩ := exists_root_of_run completed
  have storeEq : (run config environment store expr).2 =
      (journal config environment store expr).progress.store := by rw [run_eq_journalled]
  have startSound : ({ store } : Progress).Sound store := ⟨wellFormed, .refl store, by simp⟩
  have awaits : ({ progress := { store } } : Journal).Awaits expr.typingOrder :=
    ⟨(expr.typingOrder_perm_preorder.map Expr.id).nodup_iff.2 distinct, fun _ _ => rfl⟩
  have settles : Journaling.Settles config environment store expr :=
    Journaling.settles wellFormed declared expr
  obtain ⟨settled, recorded⟩ := settles startSound awaits root _ journalledEq
  rw [storeEq]
  generalize journal config environment store expr = last at settled recorded ⊢
  have nodeSettled : ∀ node ∈ expr.preorder, last.Settled node :=
    fun node member => settled.settled node (Expr.mem_typingOrder.2 member)
  obtain ⟨new, reportsEq, reportsIn, issuesEq⟩ := settled.touches.reports
  rw [List.nil_append] at reportsEq issuesEq
  have node_of_report : ∀ id ∈ last.reports.map Prod.fst,
      ∃ node ∈ expr.preorder, node.id = id := by
    intro id member
    obtain ⟨report, isReport, rfl⟩ := List.mem_map.1 member
    obtain ⟨node, inOrder, idEq⟩ := List.mem_map.1 (reportsIn report (reportsEq ▸ isReport))
    exact ⟨node, Expr.mem_typingOrder.1 inOrder, idEq⟩
  constructor
  case issues_eq => exact issuesEq.trans (congrArg _ reportsEq.symm)
  case decided =>
    intro node member
    obtain ⟨tree, found, decided⟩ := (nodeSettled node member).exists_treeAt?
    obtain ⟨type, typeEq, rfl⟩ := Option.map_eq_some_iff.1 found
    exact ⟨type, typeEq, decided⟩
  case explained =>
    intro node member isInvalid
    rcases (nodeSettled node member).explained isInvalid with
      (isPlaceholder | childInvalid) | isReported
    · exact .inl isPlaceholder
    · exact .inr (.inr childInvalid)
    · exact .inr (.inl isReported)
  case root =>
    intro rootInvalid
    have isInvalid : last.InvalidAt expr := by
      rw [Journal.InvalidAt, Journal.treeAt?, recorded, Option.map_some]
      exact congrArg some rootInvalid
    refine (Journal.exists_cause nodeSettled isInvalid).imp_right ?_
    intro someReports noIssues
    have noNew := issuesEq.symm.trans noIssues
    rw [List.map_eq_nil_iff] at noNew
    exact someReports (reportsEq.trans noNew)
  case reported =>
    intro report isReport
    have isReported := List.mem_map_of_mem isReport (f := Prod.fst)
    obtain ⟨node, member, idEq⟩ := node_of_report report.1 isReported
    exact ⟨node, member, idEq, ((nodeSettled node member).reported_once (idEq ▸ isReported)).1⟩
  case once =>
    -- a settled node has one report at most, and all reports are found at nodes
    rw [List.nodup_iff_count_le_one]
    intro id
    by_cases isReported : id ∈ last.reports.map Prod.fst
    · obtain ⟨node, member, rfl⟩ := node_of_report id isReported
      rw [last.count_reports, ((nodeSettled node member).reported_once isReported).2.1]
    · rw [List.count_eq_zero_of_not_mem isReported]
      exact Nat.zero_le 1
  case silent =>
    rintro node member isPipe ⟨child, isChild, childInvalid⟩ isReported
    exact ((nodeSettled node member).reported_once isReported).2.2 isPipe child isChild childInvalid

/-- A symbol without type, a placeholder and an argument that does not fit make
everything around them invalid. -/
def spreading : Document where
  declarations := [{ name := "stock" }]
  expr :=
    .list {}
      [.pipe {} (.tuple {} [.reference {} "stock" none, .literal {} (.int 1)])
          (.reference {} "count" none),
        .apply {} (.reference {} "pair" none) [.placeholder {}, .literal {} .unit],
        .pipe {} (.literal {} (.int 1)) (.reference {} "size" none)]

/-- In this document two issues explain all invalid nodes, under all settings. -/
theorem invalid_spreading : ∃ program, Program.load spreading = .ok program ∧
    ∀ config, ∃ analysis, (program.analyse config).1 = .ok analysis ∧
      analysis.issues.length = 2 ∧
      (program.analyse config).2.tree analysis.root = .invalid ∧
      analysis.Explained (program.analyse config).2 program.expr
        (journal config program.environment program.declared.store program.expr).reports := by
  have computes : ∃ program, Program.load spreading = .ok program ∧ program.expr.DistinctIds ∧
      (∀ entry ∈ program.environment.types, program.declared.store.Has Tree.InvalidFree entry.2) ∧
      ∀ config, ∃ analysis, (program.analyse config).1 = .ok analysis ∧
        analysis.issues.length = 2 ∧
          (program.analyse config).2.tree analysis.root = .invalid := by
    decide +kernel
  obtain ⟨program, loads, distinct, declared, completes⟩ := computes
  refine ⟨program, loads, ?_⟩
  intro config
  obtain ⟨analysis, completed, twoIssues, rootInvalid⟩ := completes config
  exact ⟨analysis, completed, twoIssues, rootInvalid, invalid_explained config
    program.environment (Program.valid_of_load loads).wellFormed declared distinct completed⟩

end Analysis
end PipeCheck
