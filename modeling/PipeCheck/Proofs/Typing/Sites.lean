import PipeCheck.Proofs.Expr.Nodes
import PipeCheck.Proofs.Typing.SameSteps

/-!
# Typing does not look at ids and spans

Ids and spans go into what is recorded and reported, and neither is looked at again.
So an expression is given the same type in the same store whatever its ids and spans
are, and whatever has been recorded and reported before.
-/

namespace PipeCheck

open List PipeCheck.Expr

namespace Expr

mutual

/-- An expression without its ids and spans. -/
def bare : Expr → Expr
  | .reference _ name symbol => .reference {} name symbol
  | .literal _ value => .literal {} value
  | .list _ items => .list {} (bareAll items)
  | .tuple _ items => .tuple {} (bareAll items)
  | .apply _ function arguments => .apply {} function.bare (bareAll arguments)
  | .pipe _ argument function => .pipe {} argument.bare function.bare
  | .binary _ op left right => .binary {} op left.bare right.bare
  | .definition _ symbol init => .definition {} symbol init.bare
  | .placeholder _ => .placeholder {}

/-- Several expressions without their ids and spans. -/
def bareAll : List Expr → List Expr
  | [] => []
  | expr :: rest => expr.bare :: bareAll rest

end

@[simp] theorem bareAll_eq_map (exprs : List Expr) : bareAll exprs = exprs.map bare := by
  induction exprs with
  | nil => rfl
  | cons expr rest ih => simp [bareAll, ih]

end Expr

namespace Typing

variable {α β : Type}

theorem SameTypes.symm {first second : Typing α} (same : SameTypes first second) :
    SameTypes second first :=
  fun _ _ stores => ⟨(same stores.symm).1.symm, (same stores.symm).2.symm⟩

theorem SameTypes.trans {first second third : Typing α} (same : SameTypes first second)
    (further : SameTypes second third) :
    SameTypes first third :=
  fun left _ stores =>
    have here := same (Eq.refl left.store)
    have there := further stores
    ⟨here.1.trans there.1, here.2.trans there.2⟩

theorem sameTypes_pure (value : α) : SameTypes (pure value) (pure value) :=
  (SameSteps.pure value).sameTypes

/-- Operations on the store see nothing but the store. -/
theorem sameTypes_checked (create : Checked α) : SameTypes (checked create) (checked create) := by
  rintro ⟨store, leftTypes, leftBroadcasts, leftIssues⟩
    ⟨_, rightTypes, rightBroadcasts, rightIssues⟩ ⟨⟩
  exact ⟨rfl, rfl⟩

/-- Recording a type leaves the store as it is. -/
theorem sameTypes_record (node other : NodeId) (type : TypeId) :
    SameTypes (record node type) (record other type) :=
  fun _ _ stores => ⟨rfl, stores⟩

/-- Types that are the same are recorded for any nodes. -/
theorem SameTypes.recorded {first second : Typing TypeId} (same : SameTypes first second)
    {node other : NodeId} :
    SameTypes (do record node (← first)) (do record other (← second)) :=
  same.bind fun _ => sameTypes_record _ _ _

/-- Recording that a pipe maps leaves the store as it is, too. -/
theorem sameTypes_recordBroadcast (node other : NodeId) :
    SameTypes (recordBroadcast node) (recordBroadcast other) :=
  fun _ _ stores => ⟨rfl, stores⟩

/-- A pipe has one type at all sites. -/
theorem sameTypes_pipe (policy : QuantifierPolicy) (site other : Site) (arg fn : TypeId) :
    SameTypes (pipe policy site arg fn) (pipe policy other arg fn) := by
  refine sameTypes_store_bind fun store => ?_
  split
  · exact sameSteps_invalid.sameTypes
  refine (sameTypes_checked _).bind fun piped => ?_
  cases piped with
  | none => exact (sameSteps_mismatch_invalid _ _ _ _ _ _).sameTypes
  | some piped =>
    dsimp only
    split
    · exact (sameTypes_recordBroadcast _ _).bind fun _ => sameTypes_pure _
    · exact sameTypes_pure _

/-- So has a function applied to an argument. -/
theorem sameTypes_applyArgument (policy : QuantifierPolicy) (span other : Span)
    (position otherPos : Nat) (fn : Option TypeId) (arg : TypeId) :
    SameTypes (applyArgument policy span position fn arg)
      (applyArgument policy other otherPos fn arg) := by
  cases fn with
  | none => exact sameTypes_pure none
  | some fn =>
    refine sameTypes_store_bind fun store => ?_
    split
    · exact sameTypes_pure none
    refine (sameTypes_checked _).bind fun result => ?_
    cases result with
    | some result => exact sameTypes_pure _
    | none => exact ((sameSteps_mismatch _ _ _ _ _ _).bind fun _ => .pure none).sameTypes

section Nodes

variable {config : Config} {env : Environment}

/-- Several expressions are typed as without ids and spans. -/
theorem sameTypes_expressions {exprs : List Expr}
    (each : ∀ expr ∈ exprs, SameTypes (expression config env expr)
      (expression config env expr.bare)) :
    SameTypes (expressions config env exprs) (expressions config env (exprs.map bare)) := by
  induction exprs with
  | nil =>
    rw [map_nil, expressions]
    exact sameTypes_pure []
  | cons expr rest ih =>
    rw [map_cons, expressions, expressions]
    refine (each expr mem_cons_self).bind fun type => ?_
    refine (ih (forall_mem_of_forall_mem_cons each)).bind fun types => ?_
    exact sameTypes_pure _

/-- So are the arguments of a function. -/
theorem sameTypes_applied {args : List Expr}
    (each : ∀ arg ∈ args, SameTypes (expression config env arg) (expression config env arg.bare))
    (span other : Span) (position otherPos : Nat) (fn : Option TypeId) :
    SameTypes (applied config env span position fn args)
      (applied config env other otherPos fn (args.map bare)) := by
  induction args generalizing position otherPos fn with
  | nil =>
    rw [map_nil, applied, applied]
    exact sameTypes_pure _
  | cons arg rest ih =>
    rw [map_cons, applied, applied]
    refine (each arg mem_cons_self).bind fun type => ?_
    refine (sameTypes_applyArgument _ _ _ _ _ _ _).bind fun next => ?_
    exact ih (forall_mem_of_forall_mem_cons each) _ _ _

/-- An expression is typed as it is without its ids and spans. -/
theorem sameTypes_bare (config : Config) (env : Environment) (expr : Expr) :
    SameTypes (expression config env expr) (expression config env expr.bare) := by
  induction expr with
  | reference site name symbol =>
    rw [bare, expression, expression]
    exact (sameSteps_reference _ _ _ _ _).sameTypes.recorded
  | literal site value =>
    rw [bare, expression, expression]
    exact (sameSteps_literal value).sameTypes.recorded
  | list site items each =>
    rw [bare, bareAll_eq_map, expression, expression]
    refine (sameTypes_expressions each).bind fun types => ?_
    refine (sameSteps_listLiteral _ _ _ ?_).sameTypes.recorded
    simp only [map_map, zip_map_right]
    rfl
  | tuple site items each =>
    rw [bare, bareAll_eq_map, expression, expression]
    refine (sameTypes_expressions each).bind fun types => ?_
    exact (sameSteps_tupleLiteral types).sameTypes.recorded
  | apply site fn args fnIH each =>
    rw [bare, bareAll_eq_map, expression, expression, isEmpty_map]
    refine fnIH.bind fun fnType => ?_
    refine sameTypes_store_bind fun store => ?_
    split
    · refine (sameTypes_applied each _ _ _ _ _).bind fun _ => ?_
      exact sameSteps_invalid.sameTypes.recorded
    split
    · exact (sameSteps_applyUnit _ _ _).sameTypes.recorded
    refine (sameTypes_applied each _ _ _ _ _).bind fun result => ?_
    cases result with
    | some result => exact sameTypes_record _ _ _
    | none => exact sameSteps_invalid.sameTypes.recorded
  | pipe site arg fn argIH fnIH =>
    rw [bare, expression, expression]
    refine argIH.bind fun _ => fnIH.bind fun _ => ?_
    exact (sameTypes_pipe _ _ _ _ _).recorded
  | binary site op left right leftIH rightIH =>
    rw [bare, expression, expression]
    refine leftIH.bind fun _ => rightIH.bind fun _ => ?_
    exact (sameSteps_reject _ _).sameTypes.recorded
  | definition site symbol init initIH =>
    rw [bare, expression, expression]
    refine initIH.bind fun _ => ?_
    exact (sameSteps_reject _ _).sameTypes.recorded
  | placeholder site =>
    rw [bare, expression, expression]
    exact sameSteps_invalid.sameTypes.recorded

end Nodes

end Typing
end PipeCheck
