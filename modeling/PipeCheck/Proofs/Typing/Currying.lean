import PipeCheck.Proofs.Properties.ClosedProgram
import PipeCheck.Proofs.Typing.ReplayTyping
import PipeCheck.Proofs.Typing.Sites

/-!
# Applications to several arguments

A function takes its arguments one after the other.  So an application to several
arguments is typed as the application to the first of them and the application of its
result to the others.  Where nothing is left of the function between the two, the second
application meets an invalid function, which is one type more in the store, and the
arguments that follow are typed on top of it.  The main statement is
`Analysis.run_apply_append`.
-/

namespace PipeCheck
namespace Typing

variable {config : Config} {env : Environment}

section Equations

/-- What an application begins with: nothing if its function is invalid. -/
def applicable (store : Store) (function : TypeId) : Option TypeId :=
  if store.isInvalid function then none else some function

/-- Records the type of an application, which is invalid if nothing is left of its function. -/
def concluded (node : NodeId) : Option TypeId → Typing TypeId
  | some result => record node result
  | none => do record node (← invalid)

theorem applied_append (span : Span) (position : Nat) (function : Option TypeId)
    (first second : List Expr) :
    applied config env span position function (first ++ second) =
      applied config env span position function first >>= fun next =>
        applied config env span (position + first.length) next second := by
  induction first generalizing position function with
  | nil =>
    rw [List.nil_append, applied, pure_bind]
    rfl
  | cons arg rest ih =>
    rw [List.cons_append, applied, applied, bind_assoc]
    refine bind_congr fun type => ?_
    rw [bind_assoc]
    refine bind_congr fun next => ?_
    rw [ih, List.length_cons, Nat.add_right_comm, Nat.add_assoc]

/-- Nothing is left of nothing, though all arguments are typed. -/
theorem applied_none (span : Span) (position : Nat) (args : List Expr) :
    applied config env span position none args =
      expressions config env args >>= fun _ => pure none := by
  induction args generalizing position with
  | nil =>
    rw [applied, expressions, pure_bind]
  | cons arg rest ih =>
    rw [applied, expressions, bind_assoc]
    refine bind_congr fun type => ?_
    rw [bind_assoc]
    change applied config env span (position + 1) none rest = _
    rw [ih]
    simp only [pure_bind]

/-- What is left of the type of a function after its arguments. -/
def remaining (config : Config) (env : Environment) (span : Span) (function : Expr)
    (arguments : List Expr) : Typing (Option TypeId) := do
  let functionType ← expression config env function
  applied config env span 0 (applicable (← store) functionType) arguments

theorem remaining_append (span : Span) (function : Expr) (first second : List Expr) :
    remaining config env span function (first ++ second) =
      remaining config env span function first >>= fun next =>
        applied config env span first.length next second := by
  unfold remaining
  simp only [applied_append, bind_assoc, Nat.zero_add]

theorem expression_apply (site : Site) (function : Expr) {args : List Expr} (someArgs : args ≠ []) :
    expression config env (.apply site function args) =
      remaining config env site.span function args >>= concluded site.id := by
  have notEmpty : args.isEmpty = false := by simpa using someArgs
  rw [expression, remaining, bind_assoc]
  refine bind_congr fun fnType => ?_
  rw [bind_assoc]
  refine bind_congr fun store => ?_
  unfold applicable
  split
  · simp only [applied_none, bind_assoc, pure_bind]
    rfl
  · rw [notEmpty]
    refine bind_congr fun found => ?_
    cases found <;> rfl

theorem remaining_apply (span : Span) (site : Site) (function : Expr) {first : List Expr}
    (someFirst : first ≠ []) (second : List Expr) :
    remaining config env span (.apply site function first) second =
      remaining config env site.span function first >>= fun next =>
        concluded site.id next >>= fun result => store >>= fun store =>
          applied config env span 0 (applicable store result) second := by
  rw [remaining, expression_apply site function someFirst, bind_assoc]

end Equations

/-- Two ways to type one expression end with one failure, with the invalid type each, or
with one type in one store. -/
inductive SameRoot :
    Except MalformedType TypeId × Progress → Except MalformedType TypeId × Progress → Prop
  | failed (failure : MalformedType) (left right : Progress) :
      SameRoot (.error failure, left) (.error failure, right)
  | invalid {root other : TypeId} {left right : Progress} :
      left.store.kind root = .primitive .invalid →
      right.store.kind other = .primitive .invalid →
      SameRoot (.ok root, left) (.ok other, right)
  | same (root : TypeId) {left right : Progress} :
      left.store = right.store → SameRoot (.ok root, left) (.ok root, right)

theorem SameTypes.sameRoot {first second : Typing TypeId} (same : SameTypes first second)
    {left right : Progress} (stores : left.store = right.store) :
    SameRoot (first.run.run left) (second.run.run right) := by
  obtain ⟨outcomes, lastStores⟩ := same stores
  rcases runEq : first.run.run left with ⟨outcome, last⟩
  rcases otherEq : second.run.run right with ⟨other, otherLast⟩
  rw [runEq, otherEq] at outcomes lastStores
  obtain rfl : outcome = other := outcomes
  cases outcome with
  | error failure => exact .failed failure last otherLast
  | ok root => exact .same root lastStores

theorem sameTypes_self (config : Config) (env : Environment) (expr : Expr) :
    SameTypes (expression config env expr) (expression config env expr) :=
  (sameTypes_bare config env expr).trans (sameTypes_bare config env expr).symm

theorem sameTypes_of_bare_eq {expr other : Expr} (same : expr.bare = other.bare) :
    SameTypes (expression config env expr) (expression config env other) := by
  have first := sameTypes_bare config env expr
  rw [same] at first
  exact first.trans (sameTypes_bare config env other).symm

theorem sameTypes_concluded (node other : NodeId) (found : Option TypeId) :
    SameTypes (concluded node found) (concluded other found) := by
  cases found with
  | none => exact sameSteps_invalid.sameTypes.recorded
  | some result => exact sameTypes_record _ _ _

theorem sameTypes_applied_self (span : Span) (position otherPos : Nat)
    (function : Option TypeId) (args : List Expr) :
    SameTypes (applied config env span position function args)
      (applied config env span otherPos function args) :=
  have bare := fun arg (_ : arg ∈ args) => sameTypes_bare config env arg
  (sameTypes_applied bare span span position position function).trans
    (sameTypes_applied bare span span otherPos position function).symm

theorem isInvalid_of_kind {store : Store} {id : TypeId}
    (kindEq : store.kind id = .primitive .invalid) :
    store.isInvalid id := by
  unfold Store.isInvalid Store.isKind Store.body
  split
  · next shapeEq =>
      rw [Store.kind, shapeEq] at kindEq
      cases kindEq
  · exact decide_eq_true kindEq

/-- The invalid type is given where nothing is left of a function. -/
theorem run_concluded_none {state : Progress}
    (upholds : state.Upholds (fun _ => True) env) (node : NodeId) :
    ∃ root last, (concluded node none).run.run state = (.ok root, last) ∧
      last.Sustains (fun _ => True) state ∧ last.store.kind root = .primitive .invalid := by
  have gives := gives_primitive Store.trivial_lasting upholds .invalid
  have built := Alloc.yields_primitive upholds.wellFormed .invalid
  refine ⟨_, _, rfl, (gives_recorded upholds gives node).1, ?_⟩
  exact (Store.kind_tree _ _).symm.trans (congrArg Tree.kind built.tree_eq)

theorem run_store_bind {α : Type} (next : Store → Typing α) (state : Progress) :
    (store >>= next).run.run state = (next state.store).run.run state := rfl

section Failed

variable {left right : Progress}

/-- Expressions meet the same malformed type, if any, when more types are there. -/
theorem outcomes_expressions (config : Config) (exprs : List Expr) (wf : left.store.WellFormed)
    (declared : ∀ entry ∈ env.types, entry.2 < left.store.size)
    (follows : right.store.Follows left.store) :
    ∃ twins, Outcomes List.Forall₂ twins
      ((expressions config env exprs).run.run left).1
      ((expressions config env exprs).run.run right).1 := by
  have bare := fun expr (_ : expr ∈ exprs) => sameTypes_bare config env expr
  have fresh : ({ store := left.store } : Progress).store = left.store := rfl
  have alone : ((expressions config env exprs).run.run { store := left.store }).1 =
      ((expressions config env exprs).run.run left).1 :=
    ((sameTypes_expressions bare).trans (sameTypes_expressions bare).symm fresh).1
  have alike : Journal.Alike { progress := right } (Twins.shared left.store.size)
      { progress := { store := left.store } } { progress := right } :=
    ⟨⟨follows.grown.alike wf follows.wellFormed, ⟨[], rfl, .nil⟩, rfl, by simp⟩, rfl⟩
  obtain ⟨twins, _, _, outcomes⟩ := Journaling.concur_expressions
    (fun entry mem => ⟨rfl, declared entry mem⟩) alike
    fun expr _ => Journaling.replays config env expr
  have erases : Journaling.Erases (Journaling.expressions config env exprs) _ :=
    Journaling.erases_expressions fun expr _ => Journaling.erases_expression expr
  have erased := congrArg Prod.fst (erases { progress := { store := left.store } })
  have otherErased := congrArg Prod.fst (erases { progress := right })
  rw [← alone, ← erased, ← otherErased]
  exact ⟨twins, outcomes⟩

/-- Where nothing is left of a function, the arguments that follow may be typed with or
without one more type in the store. -/
theorem sameRoot_none (upholds : left.Upholds (fun _ => True) env)
    (rightUpholds : right.Upholds (fun _ => True) env) (follows : right.store.Follows left.store)
    (span : Span) (position otherPos : Nat) (node other : NodeId) (args : List Expr) :
    SameRoot
      ((applied config env span position none args >>= concluded node).run.run left)
      ((applied config env span otherPos none args >>=
        concluded other).run.run right) := by
  obtain ⟨_, outcomes⟩ := outcomes_expressions config args upholds.wellFormed
    (fun entry mem => (upholds.declared entry mem).1) follows
  have each : ∀ arg ∈ args,
      LastsThrough (fun _ => True) config env arg :=
    fun arg _ => lastsThrough Store.trivial_lasting arg
  have keeps := (lasts_expressions each upholds).keeps.1
  have otherKeeps := (lasts_expressions each rightUpholds).keeps.1
  rw [applied_none, applied_none]
  simp only [bind_assoc, pure_bind]
  rcases runEq : (expressions config env args).run.run left with ⟨outcome, last⟩
  rcases otherEq : (expressions config env args).run.run right with
    ⟨otherOutcome, otherLast⟩
  rw [runEq, otherEq] at outcomes
  rw [runEq] at keeps
  rw [otherEq] at otherKeeps
  cases outcome with
  | error failure =>
    cases otherOutcome with
    | ok types => exact absurd outcomes id
    | error otherFailure =>
      obtain rfl : failure = otherFailure := outcomes
      rw [run_bind_of_error runEq, run_bind_of_error otherEq]
      exact .failed failure last otherLast
  | ok types =>
    cases otherOutcome with
    | error failure => exact absurd outcomes id
    | ok otherTypes =>
      rw [run_bind_of_ok runEq, run_bind_of_ok otherEq]
      obtain ⟨root, _, rootEq, _, isInvalid⟩ := run_concluded_none (upholds.of_sustains keeps) node
      obtain ⟨otherRoot, _, otherRootEq, _, otherIsInvalid⟩ :=
        run_concluded_none (rightUpholds.of_sustains otherKeeps) other
      rw [rootEq, otherRootEq]
      exact .invalid isInvalid otherIsInvalid

end Failed

section InvalidFunction

variable {state : Progress} {function : TypeId}

theorem yields_specialise_of_isInvalid {store : Store} {binders : List TypeId} {body : TypeId}
    (shapeEq : store.shape function = .quantified binders body)
    (kindEq : store.kind body = .primitive .invalid) (arg : TypeId) :
    Yields (Alloc.specialise function arg) store fun found last =>
      found = none ∧ last = store := by
  have notFn : store.kind body ≠ .function := by
    rw [kindEq]
    exact Kind.noConfusion
  unfold Alloc.specialise
  rw [yields_bind, yields_get, shapeEq]
  simp only
  rw [yields_bind, yields_get, if_pos notFn, yields_pure]
  exact ⟨rfl, rfl⟩

/-- An invalid function accepts no argument. -/
theorem succeeds_apply_of_isInvalid {store : Store} (isInvalid : store.isInvalid function)
    (policy : QuantifierPolicy) (arg : TypeId) :
    Succeeds (Checked.apply policy arg function) store fun found last =>
      found = none ∧ last = store := by
  have kindEq : store.kind (store.body function) = .primitive .invalid :=
    of_decide_eq_true isInvalid
  unfold Checked.apply Store.body at *
  refine succeeds_get_bind ?_
  cases shapeEq : store.shape function with
  | function domain codomain =>
    simp only [shapeEq, Store.kind] at kindEq
    cases kindEq
  | quantified binders body =>
    simp only [shapeEq] at kindEq ⊢
    refine (succeeds_lift (yields_specialise_of_isInvalid shapeEq kindEq arg)).bind ?_
    rintro _ _ ⟨rfl, rfl⟩
    exact succeeds_pure ⟨rfl, rfl⟩
  | _ => exact succeeds_pure ⟨rfl, rfl⟩

theorem succeeds_applyArgument_of_isInvalid (isInvalid : state.store.isInvalid function)
    (policy : QuantifierPolicy) (span : Span) (position : Nat) (arg : TypeId) :
    Succeeds (applyArgument policy span position (some function) arg) state
      fun found last => found = none ∧ last.store = state.store := by
  unfold applyArgument
  refine succeeds_store_bind ?_
  split
  · exact succeeds_pure ⟨rfl, rfl⟩
  have notApplied : Succeeds (checked (Checked.apply policy arg function)) state
      fun found last => found = none ∧ last.store = state.store :=
    succeeds_apply_of_isInvalid isInvalid policy arg
  refine notApplied.bind ?_
  rintro _ mid ⟨rfl, storeEq⟩
  have notFn : ¬mid.store.isFunction function := by
    have kindEq := of_decide_eq_true isInvalid
    rw [storeEq, Store.isFunction, Store.isKind, kindEq]
    decide
  have reported : Succeeds (mismatch function arg (some position) span) mid
      fun _ last => last.store = mid.store := by
    refine succeeds_store_bind ?_
    rw [if_neg notFn]
    exact ⟨(), rfl, rfl⟩
  refine reported.bind ?_
  intro _ last lastEq
  exact succeeds_pure ⟨rfl, lastEq.trans storeEq⟩

/-- So the arguments that follow are typed as if nothing were left of it. -/
theorem sameRoot_invalid (upholds : state.Upholds (fun _ => True) env)
    (inside : function < state.store.size) (isInvalid : state.store.isInvalid function)
    (span : Span) (position otherPos : Nat) (node other : NodeId) {args : List Expr}
    (someArgs : args ≠ []) {right : Progress} (stores : state.store = right.store) :
    SameRoot
      ((applied config env span position (some function) args >>= concluded node).run.run state)
      ((applied config env span otherPos none args >>=
        concluded other).run.run right) := by
  obtain ⟨arg, rest, rfl⟩ := List.exists_cons_of_ne_nil someArgs
  have lasts : LastsThrough (fun _ => True) config env arg := lastsThrough Store.trivial_lasting arg
  have keeps := (lasts upholds).keeps.1
  obtain ⟨outcomes, midStores⟩ := sameTypes_self config env arg stores
  rw [applied, applied, bind_assoc, bind_assoc]
  rcases runEq : (expression config env arg).run.run state with ⟨outcome, mid⟩
  rcases otherEq : (expression config env arg).run.run right with
    ⟨other, otherMid⟩
  rw [runEq] at keeps
  rw [runEq, otherEq] at outcomes midStores
  obtain rfl : outcome = other := outcomes
  cases outcome with
  | error failure =>
    rw [run_bind_of_error runEq, run_bind_of_error otherEq]
    exact .failed failure mid otherMid
  | ok type =>
    rw [run_bind_of_ok runEq, run_bind_of_ok otherEq, bind_assoc]
    have grown := keeps.follows.grown.alike upholds.wellFormed keeps.follows.wellFormed
    have stillInvalid : mid.store.isInvalid function :=
      (grown.isInvalid_eq ⟨rfl, inside⟩).symm.trans isInvalid
    obtain ⟨_, last, lastEq, rfl, storeEq⟩ := (succeeds_applyArgument_of_isInvalid stillInvalid
      config.quantifiers span position type).exists_run_eq
    rw [run_bind_of_ok lastEq]
    exact ((sameTypes_applied_self span _ _ none rest).bind
      fun found => sameTypes_concluded node other found).sameRoot (storeEq.trans midStores)

end InvalidFunction

/-- A second application goes on from what the first one leaves of its function as if
the two were one. -/
theorem sameRoot_seam {state : Progress} (upholds : state.Upholds (fun _ => True) env)
    {next : Option TypeId} (inside : ∀ id, next = some id → state.store.Has (fun _ => True) id)
    (site : Site) (position : Nat) {args : List Expr} (someArgs : args ≠ []) :
    SameRoot
      ((applied config env site.span position next args >>= concluded site.id).run.run state)
      ((concluded site.id next >>= fun function => store >>= fun store =>
        applied config env site.span 0 (applicable store function) args >>=
          concluded site.id).run.run state) := by
  cases next with
  | none =>
    obtain ⟨function, mid, midEq, sustains, kindEq⟩ := run_concluded_none upholds site.id
    have start : applicable mid.store function = none := if_pos (isInvalid_of_kind kindEq)
    rw [run_bind_of_ok midEq, run_store_bind, start]
    exact sameRoot_none upholds (upholds.of_sustains sustains) sustains.follows _ _ _ _ _ _
  | some function =>
    -- the first application leaves nothing in the store but its result
    have recorded : (concluded site.id (some function)).run.run state =
        (.ok function, { state with types := (site.id, function) :: state.types }) := rfl
    rw [run_bind_of_ok recorded, run_store_bind]
    cases isInvalid : state.store.isInvalid function with
    | true =>
      have start : applicable state.store function = none := if_pos isInvalid
      rw [start]
      exact sameRoot_invalid upholds (inside function rfl).1 isInvalid _ _ _ _ _ someArgs rfl
    | false =>
      have start : applicable state.store function = some function := if_neg (by simp [isInvalid])
      rw [start]
      exact ((sameTypes_applied_self _ _ _ _ _).bind
        fun found => sameTypes_concluded _ _ found).sameRoot rfl

theorem lasts_remaining (config : Config) {state : Progress}
    (upholds : state.Upholds (fun _ => True) env) (span : Span) (function : Expr)
    (args : List Expr) :
    Lasts (fun _ => True) (remaining config env span function args) state
      fun found last => ∀ id, found = some id → last.store.Has (fun _ => True) id := by
  have through : ∀ expr, LastsThrough (fun _ => True) config env expr :=
    fun expr => lastsThrough Store.trivial_lasting expr
  refine (through function upholds).bind upholds ?_
  rintro type mid midUpholds _ ⟨typeHas, _⟩
  refine lasts_store_bind ?_
  refine (lasts_applied Store.trivial_lasting (fun arg _ => through arg) midUpholds
    span 0 ?_).mono fun _ _ _ holds => holds.1
  intro id isSome
  unfold applicable at isSome
  split at isSome
  · cases isSome
  · cases isSome
    exact typeHas

/-- One application to all arguments is typed as two applications in a row. -/
theorem sameRoot_apply_append (config : Config) {state : Progress}
    (upholds : state.Upholds (fun _ => True) env) (site : Site) (function : Expr)
    {first second : List Expr} (someFirst : first ≠ []) (someSecond : second ≠ []) :
    SameRoot
      ((expression config env (.apply site function (first ++ second))).run.run state)
      ((expression config env
        (.apply site (.apply site function first) second)).run.run state) := by
  obtain ⟨⟨sustains, given⟩, _⟩ := lasts_remaining config upholds site.span function first
  rw [expression_apply site function (List.append_ne_nil_of_left_ne_nil someFirst second),
    expression_apply site _ someSecond, remaining_append, remaining_apply site.span _ _ someFirst]
  simp only [bind_assoc]
  rcases runEq : (remaining config env site.span function first).run.run state with
    ⟨outcome, mid⟩
  rw [runEq] at sustains given
  cases outcome with
  | error failure =>
    rw [run_bind_of_error runEq, run_bind_of_error runEq]
    exact .failed failure mid mid
  | ok next =>
    rw [run_bind_of_ok runEq, run_bind_of_ok runEq]
    exact sameRoot_seam (upholds.of_sustains sustains) (given next rfl) site first.length someSecond

theorem SameRoot.of_sameTypes {first second other image : Typing TypeId}
    (same : SameTypes first other) (otherSame : SameTypes second image) {state : Progress}
    (sameRoot : SameRoot (other.run.run state) (image.run.run state)) :
    SameRoot (first.run.run state) (second.run.run state) := by
  obtain ⟨outcomes, stores⟩ := same (Eq.refl state.store)
  obtain ⟨otherOutcomes, otherStores⟩ := otherSame (Eq.refl state.store)
  generalize first.run.run state = firstRun, second.run.run state = secondRun,
    other.run.run state = otherRun, image.run.run state = imageRun at *
  obtain ⟨_, left⟩ := firstRun
  obtain ⟨_, right⟩ := secondRun
  cases sameRoot with
  | failed failure =>
    cases outcomes
    cases otherOutcomes
    exact .failed failure left right
  | invalid isInvalid otherIsInvalid =>
    cases outcomes
    cases otherOutcomes
    rw [← stores] at isInvalid
    rw [← otherStores] at otherIsInvalid
    exact .invalid isInvalid otherIsInvalid
  | same root storesEq =>
    cases outcomes
    cases otherOutcomes
    exact .same root (stores.trans (storesEq.trans otherStores.symm))

end Typing

namespace Analysis

/-- The application of a function to some arguments followed by others, and the
application to the others of what the application to the first gives, whatever their ids
and spans: both end with the same failure, or neither fails.  Then one is invalid exactly
if the other one is, and else they have the same type in the same store. -/
theorem run_apply_append {config : Config} {environment : Environment} {store : Store}
    (wellFormed : store.WellFormed) (declared : ∀ entry ∈ environment.types, entry.2 < store.size)
    {function : Expr} {first second : List Expr} (someFirst : first ≠ [])
    (someSecond : second ≠ []) {whole nested : Expr}
    (wholeEq : whole.bare = (Expr.apply {} function (first ++ second)).bare)
    (nestedEq : nested.bare = (Expr.apply {} (.apply {} function first) second).bare) :
    (∃ failure, (run config environment store whole).1 = .error failure ∧
      (run config environment store nested).1 = .error failure) ∨
    ∃ analysis other, (run config environment store whole).1 = .ok analysis ∧
      (run config environment store nested).1 = .ok other ∧
      ((run config environment store whole).2.kind analysis.root = .primitive .invalid ↔
        (run config environment store nested).2.kind other.root = .primitive .invalid) ∧
      ((run config environment store whole).2.kind analysis.root ≠ .primitive .invalid →
        analysis.root = other.root ∧
          (run config environment store whole).2 = (run config environment store nested).2) := by
  have upholds : ({ store } : Progress).Upholds (fun _ => True) environment :=
    ⟨wellFormed, fun entry member => ⟨declared entry member, trivial⟩, by simp⟩
  have sameRoot : Typing.SameRoot ((Typing.expression config environment whole).run { store })
      ((Typing.expression config environment nested).run { store }) :=
    (Typing.sameRoot_apply_append config upholds {} function someFirst someSecond).of_sameTypes
      (Typing.sameTypes_of_bare_eq wholeEq) (Typing.sameTypes_of_bare_eq nestedEq)
  unfold run
  generalize (Typing.expression config environment whole).run { store } = wholeRun,
    (Typing.expression config environment nested).run { store } = nestedRun at sameRoot ⊢
  cases sameRoot with
  | failed failure => exact .inl ⟨failure, rfl, rfl⟩
  | invalid isInvalid otherIsInvalid =>
    exact .inr ⟨_, _, rfl, rfl, iff_of_true isInvalid otherIsInvalid, absurd isInvalid⟩
  | same root stores =>
    refine .inr ⟨_, _, rfl, rfl, ?_, fun _ => ⟨rfl, stores⟩⟩
    exact Iff.of_eq (congrArg (fun last => Store.kind last root = .primitive .invalid) stores)

/-- A reference to a polymorphic function of two arguments. -/
def keeping : Document where
  declarations := [{ name := "keep", type := some "'a -> Int -> 'a" }]
  expr := .reference {} "keep" none

/-- A function applied to itself and a number at once. -/
def atOnce (function : Expr) : Expr :=
  .apply {} function [function, .literal {} (.int 1)]

/-- A function applied to itself, and the result to a number. -/
def inTurn (function : Expr) : Expr :=
  .apply { id := 1 } (.apply { id := 2 } function [function]) [.literal { id := 3 } (.int 1)]

/-- The two applications of this function have the same type in the same store, which is
not invalid, under all settings. -/
theorem keeping_run_apply_append : ∃ program, Program.load keeping = .ok program ∧
    ∀ config, ∃ analysis other last,
      run config program.environment program.declared.store (atOnce program.expr) =
        (.ok analysis, last) ∧
      run config program.environment program.declared.store (inTurn program.expr) =
        (.ok other, last) ∧
      analysis.root = other.root ∧ last.kind analysis.root ≠ .primitive .invalid := by
  have computes : ∃ program, Program.load keeping = .ok program ∧ ∀ config, ∃ analysis,
      (run config program.environment program.declared.store (atOnce program.expr)).1 =
        .ok analysis ∧
      (run config program.environment program.declared.store (atOnce program.expr)).2.kind
        analysis.root ≠ .primitive .invalid := by
    decide +kernel
  obtain ⟨program, loads, completes⟩ := computes
  obtain ⟨wellFormed, _, closed⟩ := Program.valid_of_load loads
  refine ⟨program, loads, ?_⟩
  intro config
  obtain ⟨found, foundEq, valid⟩ := completes config
  have applies := @run_apply_append config program.environment program.declared.store wellFormed
    (fun entry member => (closed entry member).1) program.expr [program.expr]
    [.literal {} (.int 1)] (by simp) (by simp) (atOnce program.expr) (inTurn program.expr) rfl rfl
  rcases applies with ⟨failure, failed, _⟩ | ⟨analysis, other, wholeEq, nestedEq, _, same⟩
  · cases failed.symm.trans foundEq
  · cases wholeEq.symm.trans foundEq
    obtain ⟨rootEq, stores⟩ := same valid
    exact ⟨found, other, _, Prod.ext wholeEq rfl, Prod.ext nestedEq stores.symm, rootEq, valid⟩

end Analysis
end PipeCheck
