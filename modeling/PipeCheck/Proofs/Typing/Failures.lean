import PipeCheck.Proofs.Properties.ClosedProgram

/-!
# When an analysis fails

The journal of an analysis lists the applications that were tried.  As long as none
of them clashes the analysis goes on, and at the first one that does it fails.  So
it is completed just if no application clashes.  The main statement is
`Program.analyse_isOk_iff_forall_not_clashes`.

All types of an analysis are closed, so a comparison never comes to two variables.
By `Program.analyse_error_meetsQuantifiers` an analysis fails only where two
quantified types are compared.
-/

namespace PipeCheck

open List

namespace Journal

open Progress Call

/-- The types are in order and no application that was tried clashes. -/
structure Passed (env : Environment) (journal : Journal) : Prop where
  /-- The types are in order. -/
  valid : journal.progress.Valid env
  /-- Tried functions and arguments are stored. -/
  stored : ∀ call ∈ journal.calls, call.Stored journal.progress.store
  /-- No application that was tried clashes. -/
  comparable : ∀ call ∈ journal.calls, ∀ failure, ¬call.Clashes journal.progress.store failure

/-- One more step that does not clash. -/
theorem Passed.append {env : Environment} {journal : Journal}
    (passed : journal.Passed env) {progress : Progress}
    (continues : progress.Continues journal.progress) (reports : List (NodeId × Issue))
    {call : Option Call} (callStored : ∀ tried ∈ call, tried.Stored journal.progress.store)
    (callComparable : ∀ tried ∈ call, ∀ failure, ¬tried.Clashes journal.progress.store failure) :
    Passed env { progress, reports, calls := journal.calls ++ call.toList } := by
  have stored : ∀ tried ∈ journal.calls ++ call.toList, tried.Stored journal.progress.store := by
    rw [forall_mem_append]
    exact ⟨passed.stored, by simpa using callStored⟩
  have comparable : ∀ tried ∈ journal.calls ++ call.toList, ∀ failure,
      ¬tried.Clashes journal.progress.store failure := by
    rw [forall_mem_append]
    exact ⟨passed.comparable, by simpa using callComparable⟩
  refine ⟨passed.valid.of_sustains continues, ?_, ?_⟩
  · intro tried mem
    obtain ⟨functionInside, argumentInside⟩ := stored tried mem
    exact ⟨continues.follows.grown.inside functionInside,
      continues.follows.grown.inside argumentInside⟩
  · intro tried mem failure
    rw [(stored tried mem).clashes_iff passed.valid.wellFormed continues.follows]
    exact comparable tried mem failure

end Journal

namespace Journaling

open Journal Progress Typing Store Call

variable {α β : Type} {env : Environment} {journal : Journal} {post : α → Progress → Prop}

/-- A computation goes on as long as no application clashes, and the first one that
does is the last to be tried. -/
def Screens (env : Environment) (computation : Journaling α) (journal : Journal)
    (post : α → Progress → Prop) : Prop :=
  Yields computation.run journal fun outcome last =>
    match outcome with
    | .ok value => last.Passed env ∧ last.progress.Continues journal.progress ∧
        post value last.progress
    | .error failure =>
      ∃ call ∈ last.calls.getLast?, call.Clashes last.progress.store failure

theorem screens_pure (passed : journal.Passed env) {value : α}
    (holds : post value journal.progress) :
    Screens env (pure value) journal post :=
  ⟨passed, passed.valid.sustains_self, holds⟩

theorem Screens.bind {action : Journaling α} {next : α → Journaling β}
    {midPost : α → Progress → Prop} {post : β → Progress → Prop}
    (screens : Screens env action journal midPost) (rest : ∀ value mid, mid.Passed env →
      mid.progress.Continues journal.progress → midPost value mid.progress →
      Screens env (next value) mid post) :
    Screens env (action >>= next) journal post := by
  unfold Screens
  rw [yields_bind_run]
  refine Yields.mono screens ?_
  intro outcome mid screened
  cases outcome with
  | error failure => exact screened
  | ok value =>
    obtain ⟨passed, continues, holds⟩ := screened
    refine Yields.mono (rest value mid passed continues holds) ?_
    intro outcome last screened
    cases outcome with
    | error failure => exact screened
    | ok value =>
      obtain ⟨lastPassed, lastContinues, lastHolds⟩ := screened
      exact ⟨lastPassed, lastContinues.trans continues, lastHolds⟩

theorem screens_store_bind {next : Store → Journaling α}
    (screens : Screens env (next journal.progress.store) journal post) :
    Screens env (store >>= next) journal post :=
  screens

section

variable (passed : journal.Passed env) (node : NodeId)

include passed node

/-- A step fails at the application that it tries. -/
theorem screens_attempt {call : Option Call}
    (stored : ∀ tried ∈ call, tried.Stored journal.progress.store) {action : Typing α}
    (keeps : Keeps Continues action journal.progress post)
    (judges : Judges journal.progress.store call (action.run.run journal.progress).1) :
    Screens env (attempt node call action) journal post := by
  rcases runEq : action.run.run journal.progress with ⟨outcome, progress⟩
  unfold Keeps Yields at keeps
  rw [runEq] at keeps judges
  obtain ⟨continues, holds⟩ := keeps
  unfold Screens Yields
  rw [run_attempt runEq]
  cases outcome with
  | error failure =>
    obtain ⟨tried, isCall, clashes⟩ := judges
    refine ⟨tried, by cases isCall; simp, ?_⟩
    -- the attempt may have added types before it failed
    exact ((stored tried isCall).clashes_iff passed.valid.wellFormed continues.follows).2 clashes
  | ok value => exact ⟨passed.append continues _ stored judges, continues, holds value rfl⟩

/-- A step that types a node. -/
theorem screens_recorded
    {call : Option Call} (stored : ∀ tried ∈ call, tried.Stored journal.progress.store)
    {action : Typing TypeId} (closes : Gives Tree.Closed action journal.progress)
    (judges : Judges journal.progress.store call (action.run.run journal.progress).1) :
    Screens env (attempt node call do record node (← action)) journal
      fun type last => last.store.ClosedType type :=
  screens_attempt passed node stored (gives_recorded passed.valid closes node)
    (judges_bind judges fun type => total_record node type)

/-- A step that types a node and tries no application. -/
theorem screens_step {action : Typing TypeId} (closes : Gives Tree.Closed action journal.progress)
    (total : Total action) :
    Screens env (step node do record node (← action)) journal
      fun type last => last.store.ClosedType type :=
  screens_recorded passed node (by simp) closes (total.judges (by simp))

end

section Expressions

variable {config : Config}

/-- Typing an expression fails just at the first application that clashes. -/
def ScreensNode (config : Config) (env : Environment) (expr : Expr) : Prop :=
  ∀ ⦃journal : Journal⦄, journal.Passed env →
    Screens env (expression config env expr) journal fun type last => last.store.ClosedType type

theorem screens_expressions {exprs : List Expr} (each : ∀ expr ∈ exprs, ScreensNode config env expr)
    (passed : journal.Passed env) :
    Screens env (expressions config env exprs) journal
      fun types last => ∀ type ∈ types, last.store.ClosedType type := by
  induction exprs generalizing journal with
  | nil =>
    rw [expressions]
    exact screens_pure passed (by simp)
  | cons expr rest ih =>
    rw [expressions]
    refine (each expr mem_cons_self passed).bind ?_
    intro type mid midPassed _ closed
    refine (ih (forall_mem_of_forall_mem_cons each) midPassed).bind ?_
    intro types last lastPassed continues restClosed
    refine screens_pure lastPassed ?_
    rw [forall_mem_cons]
    exact ⟨midPassed.valid.has continues closed, restClosed⟩

theorem screens_applied {args : List Expr} (each : ∀ arg ∈ args, ScreensNode config env arg)
    (passed : journal.Passed env) (site : Site) (position : Nat) {function : Option TypeId}
    (fnClosed : ∀ id, function = some id → journal.progress.store.ClosedType id) :
    Screens env (applied config env site position function args) journal
      fun found last => ∀ id, found = some id → last.store.ClosedType id := by
  induction args generalizing journal position function with
  | nil =>
    rw [applied]
    exact screens_pure passed fnClosed
  | cons arg rest ih =>
    rw [applied]
    refine (each arg mem_cons_self passed).bind ?_
    intro type mid midPassed continues typeClosed
    have stillClosed : ∀ id, function = some id → mid.progress.store.ClosedType id :=
      fun id isSome => passed.valid.has continues (fnClosed id isSome)
    have stored : ∀ tried ∈ function.map fun function =>
        ({ function, argument := type, piped := false } : Call),
          tried.Stored mid.progress.store := by
      intro tried mem
      obtain ⟨id, isSome, rfl⟩ := Option.mem_map.1 mem
      exact ⟨(stillClosed id isSome).1, typeClosed.1⟩
    refine (screens_attempt midPassed site.id stored
      (mayGive_applyArgument closed_lasting midPassed.valid config.quantifiers site.span
        position stillClosed typeClosed)
      (judges_applyArgument midPassed.valid.wellFormed config.quantifiers site.span position
        (fun id isSome => (stillClosed id isSome).1) typeClosed.1)).bind ?_
    intro next last lastPassed _ nextClosed
    exact ih (forall_mem_of_forall_mem_cons each) lastPassed (position + 1) nextClosed

theorem screensNode_apply {site : Site} {function : Expr} {args : List Expr}
    (fnScreens : ScreensNode config env function)
    (each : ∀ arg ∈ args, ScreensNode config env arg) :
    ScreensNode config env (.apply site function args) := by
  intro journal passed
  rw [expression]
  refine (fnScreens passed).bind ?_
  intro fnType mid midPassed _ fnClosed
  refine screens_store_bind ?_
  split
  · refine (screens_applied each midPassed site 0 (by simp)).bind ?_
    intro _ last lastPassed _ _
    exact screens_step lastPassed site.id (gives_primitive closed_lasting lastPassed.valid .invalid)
      sameSteps_invalid.total
  split
  · exact screens_step midPassed site.id
      (gives_applyUnit closed_lasting midPassed.valid fnClosed site.span)
      (sameSteps_applyUnit _ _ _).total
  · refine (screens_applied each midPassed site 0 (by simpa using fnClosed)).bind ?_
    intro found last lastPassed _ foundClosed
    cases found with
    | some result =>
      exact screens_step lastPassed site.id
        (keeps_pure lastPassed.valid.sustains_self (foundClosed result rfl))
        (SameSteps.pure result).total
    | none =>
      exact screens_step lastPassed site.id
        (gives_primitive closed_lasting lastPassed.valid .invalid) sameSteps_invalid.total

theorem screensNode (expr : Expr) : ScreensNode config env expr := by
  induction expr with
  | reference site name symbol =>
    intro journal passed
    rw [expression]
    exact screens_step passed site.id
      (gives_reference closed_lasting passed.valid name symbol site.span)
      (sameSteps_reference env name symbol site.span _).total
  | literal site value =>
    intro journal passed
    rw [expression]
    exact screens_step passed site.id (gives_literal closed_lasting passed.valid value)
      (sameSteps_literal value).total
  | list site items each =>
    intro journal passed
    rw [expression]
    refine (screens_expressions each passed).bind ?_
    intro types mid midPassed _ typesClosed
    refine screens_step midPassed site.id
      (gives_listLiteral closed_lasting midPassed.valid _ site.span ?_)
      (sameSteps_listLiteral _ _ _ rfl).total
    intro element mem
    exact typesClosed element.1 (of_mem_zip mem).1
  | tuple site items each =>
    intro journal passed
    rw [expression]
    refine (screens_expressions each passed).bind ?_
    intro types mid midPassed _ typesClosed
    exact screens_step midPassed site.id
      (gives_tupleLiteral closed_lasting midPassed.valid typesClosed)
      (sameSteps_tupleLiteral types).total
  | apply site function args fnScreens each =>
    exact screensNode_apply fnScreens each
  | pipe site arg function argScreens fnScreens =>
    intro journal passed
    rw [expression]
    refine (argScreens passed).bind ?_
    intro argType mid midPassed _ argClosed
    refine (fnScreens midPassed).bind ?_
    intro fnType last lastPassed continues fnClosed
    have stillClosed := midPassed.valid.has continues argClosed
    refine screens_recorded lastPassed site.id ?_
      (gives_pipe closed_lasting lastPassed.valid config.quantifiers site stillClosed fnClosed)
      (judges_pipe lastPassed.valid.wellFormed config.quantifiers site fnClosed.1 stillClosed.1)
    intro tried isCall
    cases isCall
    exact ⟨fnClosed.1, stillClosed.1⟩
  | binary site op left right leftScreens rightScreens =>
    intro journal passed
    rw [expression]
    refine (leftScreens passed).bind ?_
    intro _ mid midPassed _ _
    refine (rightScreens midPassed).bind ?_
    intro _ last lastPassed _ _
    exact screens_step lastPassed site.id (gives_reject closed_lasting lastPassed.valid _)
      (sameSteps_reject _ _).total
  | definition site symbol init initScreens =>
    intro journal passed
    rw [expression]
    refine (initScreens passed).bind ?_
    intro _ mid midPassed _ _
    exact screens_step midPassed site.id (gives_reject closed_lasting midPassed.valid _)
      (sameSteps_reject _ _).total
  | placeholder site =>
    intro journal passed
    rw [expression]
    exact screens_step passed site.id (gives_primitive closed_lasting passed.valid .invalid)
      sameSteps_invalid.total

end Expressions

end Journaling

namespace Program

/-- The applications that the analysis of a program tries, in order. -/
def tried (program : Program) (config : Config) : List Call :=
  (Analysis.journal config program.environment program.declared.store program.expr).calls

/-- The analysis of a program is completed just if no application clashes that it
tries.  Otherwise the last one does, and the analysis fails for the same reason. -/
theorem analyse_isOk_iff_forall_not_clashes {document : Document} {program : Program}
    (loads : load document = .ok program) (config : Config) :
    ((∃ analysis, (program.analyse config).1 = .ok analysis) ↔
      ∀ call ∈ program.tried config, ∀ failure, ¬call.Clashes (program.analyse config).2 failure) ∧
    ∀ failure, (program.analyse config).1 = .error failure →
      ∃ call ∈ (program.tried config).getLast?,
        call.Clashes (program.analyse config).2 failure := by
  have declaredValid := valid_of_load loads
  have passed : ({ progress := { store := program.declared.store } } : Journal).Passed
      program.environment :=
    ⟨⟨declaredValid.wellFormed, declaredValid.closed, by simp⟩, by simp, by simp⟩
  have screens : Journaling.ScreensNode config program.environment program.expr :=
    Journaling.screensNode program.expr
  have screened := screens passed
  unfold Journaling.Screens Yields at screened
  unfold tried analyse
  rw [Analysis.run_eq_journalled]
  unfold Analysis.journal Analysis.journalled
  generalize (Journaling.expression config program.environment program.expr).run.run
    { progress := { store := program.declared.store } } = result at screened ⊢
  obtain ⟨outcome, journal⟩ := result
  cases outcome with
  | error failure =>
    obtain ⟨call, isLast, clashes⟩ := screened
    refine ⟨⟨?_, ?_⟩, ?_⟩
    · rintro ⟨analysis, completed⟩
      cases completed
    · intro comparable
      exact absurd clashes (comparable call (List.mem_of_getLast? isLast) failure)
    · intro otherFailure failed
      cases failed
      exact ⟨call, isLast, clashes⟩
  | ok root =>
    obtain ⟨lastPassed, _⟩ := screened
    refine ⟨⟨fun _ => lastPassed.comparable, fun _ => ⟨_, rfl⟩⟩, ?_⟩
    intro failure failed
    cases failed

/-- An expression is piped into a function of polymorphic functions. -/
def pipingInto (argument : Expr) : Document where
  declarations := [{ name := "f", type := some "(forall 'a. 'a -> 'a) -> Int" }]
  expr := .pipe {} argument (.reference {} "f" none)

/-- A list of numbers is no list of polymorphic functions, which is an issue.  A list
with a polymorphic function of another type clashes when the function is mapped. -/
theorem analyse_pipingInto_list :
    (∃ program, load (pipingInto (.list {} [.literal {} (.int 1)])) = .ok program ∧
      ∀ config, program.tried config ≠ [] ∧
        (∃ analysis, (program.analyse config).1 = .ok analysis ∧ analysis.issues.length = 1) ∧
        ∀ call ∈ program.tried config, ∀ failure,
          ¬call.Clashes (program.analyse config).2 failure) ∧
    ∃ program, load (pipingInto (.list {} [.reference {} "count" none])) = .ok program ∧
      ∀ config, ∃ failure, (program.analyse config).1 = .error failure ∧
        ∃ call ∈ (program.tried config).getLast?,
          call.Clashes (program.analyse config).2 failure := by
  constructor
  · have computes : ∃ program, load (pipingInto (.list {} [.literal {} (.int 1)])) = .ok program ∧
        ∀ config, program.tried config ≠ [] ∧ ∃ analysis,
          (program.analyse config).1 = .ok analysis ∧ analysis.issues.length = 1 := by
      decide +kernel
    obtain ⟨program, loads, facts⟩ := computes
    refine ⟨program, loads, ?_⟩
    intro config
    obtain ⟨someTried, analysis, completed, oneIssue⟩ := facts config
    exact ⟨someTried, ⟨analysis, completed, oneIssue⟩,
      (analyse_isOk_iff_forall_not_clashes loads config).1.1 ⟨analysis, completed⟩⟩
  · have computes : ∃ program,
        load (pipingInto (.list {} [.reference {} "count" none])) = .ok program ∧
          ∀ config, (program.analyse config).1 =
            .error (.quantifierEquality "forall 'a. 'a -> 'a" "forall 'a. ['a] -> Int") := by
      decide +kernel
    obtain ⟨program, loads, fails⟩ := computes
    refine ⟨program, loads, ?_⟩
    intro config
    exact ⟨_, fails config, (analyse_isOk_iff_forall_not_clashes loads config).2 _ (fails config)⟩

/-- A document without name errors fails under all settings. -/
theorem analyse_pipingInto_fails :
    ∃ program, load (pipingInto (.reference {} "count" none)) = .ok program ∧
      program.nameErrors = [] ∧
      ∀ config, (program.analyse config).1 =
        .error (.quantifierEquality "forall 'a. 'a -> 'a" "forall 'a. ['a] -> Int") := by
  decide +kernel

end Program

namespace Store

variable {store : Store} {failure : MalformedType}

/-- Two different closed types are quantified, and a failure tells them apart by
their texts. -/
def MeetsQuantifiers (store : Store) (failure : MalformedType) : Prop :=
  ∃ left right, left ≠ right ∧ store.ClosedType left ∧ store.ClosedType right ∧
    store.kind left = .quantified ∧ store.kind right = .quantified ∧
    failure = .quantifierEquality (store.render left) (store.render right)

/-- A comparison goes down two closed types without coming under a quantifier, so it
never comes to a variable. -/
theorem Refuses.meetsQuantifiers {left right : TypeId}
    (refuses : store.Refuses left right failure) (wf : store.WellFormed)
    (leftClosed : store.ClosedType left) (rightClosed : store.ClosedType right) :
    store.MeetsQuantifiers failure := by
  induction refuses with
  | @meets left right failure different refusalEq =>
    unfold refusal? at refusalEq
    split at refusalEq
    · next leftEq rightEq =>
        have noneOccurs := leftClosed.2
        rw [tree_of_var leftEq, Tree.Closed, Tree.occurrences] at noneOccurs
        cases noneOccurs
    · next leftEq rightEq =>
        cases refusalEq
        exact ⟨left, right, different, leftClosed, rightClosed, congrArg Shape.kind leftEq,
          congrArg Shape.kind rightEq, rfl⟩
    · cases refusalEq
  | descends _ pairsEq _ _ ih =>
    obtain ⟨leftNot, rightNot⟩ := Shape.kind_ne_quantified_of_pairs pairsEq
    obtain ⟨inLeft, inRight⟩ := Shape.mem_components_of_mem_pairs pairsEq
      (mem_append_right _ mem_cons_self)
    exact ih (leftClosed.component wf leftNot inLeft) (rightClosed.component wf rightNot inRight)

end Store

namespace Program

/-- An analysis fails only where two quantified types are compared, whatever
expression is analysed. -/
theorem analyse_error_meetsQuantifiers {document : Document} {program : Program}
    (loads : load document = .ok program) (config : Config) (expr : Expr)
    {failure : MalformedType}
    (failed : (({ program with expr } : Program).analyse config).1 = .error failure) :
    (({ program with expr } : Program).analyse config).2.MeetsQuantifiers failure := by
  have declaredValid := valid_of_load loads
  have declared : ∀ entry ∈ program.environment.types,
      program.declared.store.Has Tree.Closed entry.2 := declaredValid.closed
  obtain ⟨follows, fails⟩ := Analysis.run_lasts Store.closed_lasting declaredValid.wellFormed
    declared config expr
  obtain ⟨left, right, leftClosed, rightClosed, refuses⟩ := fails failure failed
  exact refuses.meetsQuantifiers follows.wellFormed leftClosed rightClosed

/-- An analysis that does fail. -/
theorem analyse_pipingInto_meetsQuantifiers :
    ∃ program, load (pipingInto (.reference {} "count" none)) = .ok program ∧
      ∃ failure, (program.analyse {}).1 = .error failure ∧
        (program.analyse {}).2.MeetsQuantifiers failure := by
  have computes : ∃ program, load (pipingInto (.reference {} "count" none)) = .ok program ∧
      (program.analyse {}).1 =
        .error (.quantifierEquality "forall 'a. 'a -> 'a" "forall 'a. ['a] -> Int") := by
    decide +kernel
  obtain ⟨program, loads, fails⟩ := computes
  exact ⟨program, loads, _, fails, analyse_error_meetsQuantifiers loads {} program.expr fails⟩

end Program
end PipeCheck
