import PipeCheck.Proofs.Expr.Nodes
import PipeCheck.Proofs.Store.Yields
import PipeCheck.Analysis.Typing

/-!
# A journal of typing

The issues of an analysis do not say which node they belong to, and an
application that was tried leaves no trace.  Typing with a journal takes the same
steps and notes both.  Without the notes it is typing.
-/

namespace PipeCheck

open Typing

/-- A function and an argument that it is applied to. -/
structure Call where
  /-- The function. -/
  function : TypeId
  /-- Its argument. -/
  argument : TypeId
  /-- Whether the argument is piped into the function, so that the function may
  also be mapped over a list. -/
  piped : Bool
deriving DecidableEq, Repr

/-- What an analysis has found so far and how it was found. -/
structure Journal where
  /-- What has been found. -/
  progress : Progress
  /-- The issues in order of discovery, each with the node it was found at. -/
  reports : List (NodeId × Issue) := []
  /-- The applications in the order in which they were tried. -/
  calls : List Call := []

section Growth

variable {α : Type} {among others : α → Prop} {earlier mid later : List α}

/-- A list has some more entries of a kind in front. -/
abbrev Prepends (among : α → Prop) (later earlier : List α) : Prop :=
  ∃ new, later = new ++ earlier ∧ ∀ entry ∈ new, among entry

theorem Prepends.mono (prepends : Prepends among later earlier)
    (weaken : ∀ entry, among entry → others entry) :
    Prepends others later earlier := by
  obtain ⟨new, laterEq, isAmong⟩ := prepends
  exact ⟨new, laterEq, fun entry mem => weaken entry (isAmong entry mem)⟩

theorem Prepends.trans (second : Prepends among later mid) (first : Prepends among mid earlier) :
    Prepends among later earlier := by
  obtain ⟨new, midEq, isAmong⟩ := first
  obtain ⟨more, laterEq, moreAmong⟩ := second
  refine ⟨more ++ new, ?_, List.forall_mem_append.2 ⟨moreAmong, isAmong⟩⟩
  rw [laterEq, midEq, List.append_assoc]

end Growth

namespace Journal

variable {among others : NodeId → Prop} {earlier mid later : Journal}

/-- Later journals have reports of some more nodes, and these are the new issues. -/
abbrev Reports (among : NodeId → Prop) (later earlier : Journal) : Prop :=
  ∃ new, later.reports = earlier.reports ++ new ∧ (∀ report ∈ new, among report.1) ∧
    later.progress.issues.toList = earlier.progress.issues.toList ++ new.map Prod.snd

theorem Reports.mono (reports : later.Reports among earlier)
    (weaken : ∀ node, among node → others node) :
    later.Reports others earlier := by
  obtain ⟨new, reportsEq, isAmong, issuesEq⟩ := reports
  exact ⟨new, reportsEq, fun report mem => weaken report.1 (isAmong report mem), issuesEq⟩

theorem Reports.trans (second : later.Reports among mid) (first : mid.Reports among earlier) :
    later.Reports among earlier := by
  obtain ⟨new, reportsEq, isAmong, issuesEq⟩ := first
  obtain ⟨more, moreEq, moreAmong, moreIssuesEq⟩ := second
  refine ⟨new ++ more, ?_, List.forall_mem_append.2 ⟨isAmong, moreAmong⟩, ?_⟩
  · rw [moreEq, reportsEq, List.append_assoc]
  · rw [moreIssuesEq, issuesEq, List.append_assoc, List.map_append]

end Journal

/-- Computations that type expressions and keep a journal. -/
abbrev Journaling := ExceptT MalformedType (StateM Journal)

namespace Journaling

variable {α β : Type}

/-- The store at this point. -/
def store : Journaling Store := do
  return (← get).progress.store

/-- A step in the typing of a node that tries an application, if there is one to
try.  The issues it adds are found at the node. -/
def attempt (node : NodeId) (call : Option Call) (computation : Typing α) : Journaling α :=
  ExceptT.mk <| modifyGet fun journal =>
    let (outcome, progress) := computation.run.run journal.progress
    let issues := progress.issues.toList.drop journal.progress.issues.size
    (outcome, {
      progress
      reports := journal.reports ++ issues.map (node, ·)
      calls := journal.calls ++ call.toList })

/-- A step in the typing of a node that tries no application. -/
def step (node : NodeId) (computation : Typing α) : Journaling α :=
  attempt node none computation

theorem run_attempt {node : NodeId} {call : Option Call} {action : Typing α}
    {journal : Journal} {outcome : Except MalformedType α} {progress : Progress}
    (runEq : action.run.run journal.progress = (outcome, progress)) :
    (attempt node call action).run.run journal =
      (outcome, {
        progress
        reports := journal.reports ++
          (progress.issues.toList.drop journal.progress.issues.size).map (node, ·)
        calls := journal.calls ++ call.toList }) := by
  have outcomeEq : outcome = (action.run.run journal.progress).1 := by rw [runEq]
  have progressEq : progress = (action.run.run journal.progress).2 := by rw [runEq]
  subst outcomeEq progressEq
  rfl

/-- What a step adds is reported at its node. -/
theorem ensures_attempt {action : Typing α} {post : α → Progress → Prop} {node : NodeId}
    {journal : Journal} (call : Option Call) (ensures : Ensures action journal.progress post) :
    Ensures (attempt node call action) journal fun value last =>
      post value last.progress ∧ last.reports = journal.reports ++
        (last.progress.issues.toList.drop journal.progress.issues.size).map (node, ·) := by
  intro value last runEq
  rcases actionEq : action.run.run journal.progress with ⟨outcome, progress⟩
  rw [run_attempt actionEq] at runEq
  cases runEq
  exact ⟨ensures value progress actionEq, rfl⟩

theorem ensures_store_bind {next : Store → Journaling α} {post : α → Journal → Prop}
    {journal : Journal} (ensures : Ensures (next journal.progress.store) journal post) :
    Ensures (store >>= next) journal post :=
  ensures

section

variable (config : Config) (env : Environment)

mutual

/-- Types an expression and all its subexpressions. -/
def expression : Expr → Journaling TypeId
  | .reference site name symbol =>
    step site.id do
      record site.id (← reference env name symbol site.span)
  | .literal site value =>
    step site.id do
      record site.id (← literal value)
  | .list site items => do
    let types ← expressions items
    step site.id do
      record site.id
        (← listLiteral config.listLiterals site.span (types.zip (items.map Expr.span)))
  | .tuple site items => do
    let types ← expressions items
    step site.id do
      record site.id (← tupleLiteral types)
  | .pipe site argument function => do
    let argumentType ← expression argument
    let functionType ← expression function
    attempt site.id (some { function := functionType, argument := argumentType, piped := true }) do
      record site.id (← pipe config.quantifiers site argumentType functionType)
  | .apply site function arguments => do
    let functionType ← expression function
    if (← store).isInvalid functionType then
      let _ ← applied site 0 none arguments
      step site.id do
        record site.id (← invalid)
    else if arguments.isEmpty then
      step site.id do
        record site.id (← applyUnit functionType site.span)
    else
      match ← applied site 0 (some functionType) arguments with
      | some result => step site.id (record site.id result)
      | none =>
        step site.id do
          record site.id (← invalid)
  | .binary site op left right => do
    let _ ← expression left
    let _ ← expression right
    step site.id do
      record site.id
        (← reject
          (.unhandledNodeKind (Expr.kindName (.binary site op left right)) site.span))
  | .definition site symbol init => do
    let _ ← expression init
    step site.id do
      record site.id
        (← reject
          (.unhandledNodeKind (Expr.kindName (.definition site symbol init)) site.span))
  | .placeholder site =>
    step site.id do
      record site.id (← invalid)

/-- Types several expressions in order. -/
def expressions : List Expr → Journaling (List TypeId)
  | [] => return []
  | expr :: rest => do
    let type ← expression expr
    return type :: (← expressions rest)

/-- Types the arguments of an application in order and applies the function to
each. -/
def applied (site : Site) (position : Nat) (function : Option TypeId) :
    List Expr → Journaling (Option TypeId)
  | [] => return function
  | argument :: rest => do
    let argumentType ← expression argument
    let next ← attempt site.id
      (function.map fun function => { function, argument := argumentType, piped := false })
      (applyArgument config.quantifiers site.span position function argumentType)
    applied site (position + 1) next rest

end

end

section Erasure

/-- Without the notes a computation is one that keeps no journal. -/
def Erases (journaling : Journaling α) (typing : Typing α) : Prop :=
  ∀ journal, Prod.map id Journal.progress (journaling.run.run journal) =
    typing.run.run journal.progress

theorem erases_pure (value : α) : Erases (pure value) (pure value) := fun _ => rfl

theorem erases_attempt (node : NodeId) (call : Option Call) (action : Typing α) :
    Erases (attempt node call action) action := fun _ => rfl

theorem Erases.bind {journaling : Journaling α} {typing : Typing α}
    {next : α → Journaling β} {typingNext : α → Typing β} (erases : Erases journaling typing)
    (rest : ∀ value, Erases (next value) (typingNext value)) :
    Erases (journaling >>= next) (typing >>= typingNext) := by
  intro journal
  have first := erases journal
  rcases runEq : journaling.run.run journal with ⟨outcome, mid⟩
  rw [runEq] at first
  cases outcome with
  | error failure =>
    rw [run_bind_of_error runEq, run_bind_of_error first.symm]
    rfl
  | ok value =>
    rw [run_bind_of_ok runEq, run_bind_of_ok first.symm]
    exact rest value mid

theorem erases_store_bind {next : Store → Journaling α} {typingNext : Store → Typing α}
    (rest : ∀ store, Erases (next store) (typingNext store)) :
    Erases (store >>= next) (Typing.store >>= typingNext) :=
  fun journal => rest journal.progress.store journal

variable {config : Config} {env : Environment}

theorem erases_expressions {exprs : List Expr}
    (each : ∀ expr ∈ exprs, Erases (expression config env expr)
      (Typing.expression config env expr)) :
    Erases (expressions config env exprs) (Typing.expressions config env exprs) := by
  induction exprs with
  | nil =>
    rw [expressions, Typing.expressions]
    exact erases_pure []
  | cons expr rest ih =>
    rw [expressions, Typing.expressions]
    refine (each expr List.mem_cons_self).bind fun type => ?_
    refine (ih (List.forall_mem_of_forall_mem_cons each)).bind fun types => ?_
    exact erases_pure (type :: types)

theorem erases_applied {args : List Expr}
    (each : ∀ arg ∈ args, Erases (expression config env arg) (Typing.expression config env arg))
    (site : Site) (position : Nat) (fn : Option TypeId) :
    Erases (applied config env site position fn args)
      (Typing.applied config env site.span position fn args) := by
  induction args generalizing position fn with
  | nil =>
    rw [applied, Typing.applied]
    exact erases_pure fn
  | cons arg rest ih =>
    rw [applied, Typing.applied]
    refine (each arg List.mem_cons_self).bind fun type => ?_
    refine (erases_attempt site.id _ _).bind fun next => ?_
    exact ih (List.forall_mem_of_forall_mem_cons each) (position + 1) next

/-- Typing with a journal is typing. -/
theorem erases_expression (expr : Expr) :
    Erases (expression config env expr) (Typing.expression config env expr) := by
  induction expr with
  | reference site name symbol =>
    rw [expression, Typing.expression]
    exact erases_attempt site.id _ _
  | literal site value =>
    rw [expression, Typing.expression]
    exact erases_attempt site.id _ _
  | list site items each =>
    rw [expression, Typing.expression]
    exact (erases_expressions each).bind fun _ => erases_attempt site.id _ _
  | tuple site items each =>
    rw [expression, Typing.expression]
    exact (erases_expressions each).bind fun _ => erases_attempt site.id _ _
  | apply site fn args fnErases each =>
    rw [expression, Typing.expression]
    refine fnErases.bind fun fnType => erases_store_bind fun store => ?_
    split
    · exact (erases_applied each site 0 none).bind fun _ => erases_attempt site.id _ _
    split
    · exact erases_attempt site.id _ _
    · refine (erases_applied each site 0 (some fnType)).bind fun result => ?_
      cases result with
      | some result => exact erases_attempt site.id _ _
      | none => exact erases_attempt site.id _ _
  | pipe site arg fn argErases fnErases =>
    rw [expression, Typing.expression]
    exact argErases.bind fun _ => fnErases.bind fun _ =>
      erases_attempt site.id _ _
  | binary site op left right leftErases rightErases =>
    rw [expression, Typing.expression]
    exact leftErases.bind fun _ => rightErases.bind fun _ => erases_attempt site.id _ _
  | definition site symbol init initErases =>
    rw [expression, Typing.expression]
    exact initErases.bind fun _ => erases_attempt site.id _ _
  | placeholder site =>
    rw [expression, Typing.expression]
    exact erases_attempt site.id _ _

end Erasure

end Journaling

namespace Analysis

/-- The outcome of typing an expression, and the journal of it. -/
def journalled (config : Config) (env : Environment) (store : Store) (expr : Expr) :
    Except MalformedType TypeId × Journal :=
  (Journaling.expression config env expr).run.run { progress := { store } }

/-- The journal of an analysis. -/
def journal (config : Config) (env : Environment) (store : Store) (expr : Expr) :
    Journal :=
  (journalled config env store expr).2

/-- The analysis that a journal tells. -/
def ofJournal (journal : Journal) (root : TypeId) : Analysis where
  root
  types := journal.progress.types
  broadcasts := journal.progress.broadcasts
  issues := journal.progress.issues.toList

variable {config : Config} {env : Environment} {store : Store} {expr : Expr}

theorem run_eq_journalled :
    run config env store expr =
      ((journalled config env store expr).1.map
          (ofJournal (journal config env store expr)),
        (journal config env store expr).progress.store) := by
  have erases : Journaling.Erases (Journaling.expression config env expr)
      (expression config env expr) := Journaling.erases_expression expr
  have runEq : (expression config env expr).run { store } =
      ((journalled config env store expr).1,
        (journal config env store expr).progress) := (erases { progress := { store } }).symm
  unfold run
  rw [runEq]
  rfl

/-- A completed analysis is the one that its journal tells. -/
theorem exists_root_of_run {analysis : Analysis}
    (completed : (run config env store expr).1 = .ok analysis) :
    ∃ root, journalled config env store expr =
        (.ok root, journal config env store expr) ∧
      analysis = ofJournal (journal config env store expr) root := by
  rw [run_eq_journalled] at completed
  cases outcomeEq : (journalled config env store expr).1 with
  | error failure =>
    rw [outcomeEq] at completed
    cases completed
  | ok root =>
    rw [outcomeEq] at completed
    cases completed
    exact ⟨root, Prod.ext outcomeEq rfl, rfl⟩

end Analysis
end PipeCheck
