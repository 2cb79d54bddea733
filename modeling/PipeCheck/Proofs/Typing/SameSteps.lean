import PipeCheck.Analysis.Typing
import PipeCheck.Proofs.Store.WellFormed

/-!
# Steps that cannot fail

Most steps of typing look at the store, create types and report issues, and do nothing
else.  What they create does not depend on spans and positions.  `SameSteps` walks through
each of them once, for two computations side by side.  That such steps succeed, record
nothing and end in the same types follows from the walk.
-/

namespace PipeCheck

open List

namespace Progress

variable {earlier mid later : Progress}

/-- Later progress has the same records and all earlier issues. -/
structure Undisturbed (later earlier : Progress) : Prop where
  /-- No type is recorded. -/
  types_eq : later.types = earlier.types
  /-- No pipe is recorded. -/
  broadcasts_eq : later.broadcasts = earlier.broadcasts
  /-- New issues come after the earlier ones. -/
  issues : earlier.issues.toList <+: later.issues.toList

theorem undisturbed_self (state : Progress) : state.Undisturbed state :=
  ⟨rfl, rfl, prefix_rfl⟩

theorem Undisturbed.trans (second : later.Undisturbed mid) (first : mid.Undisturbed earlier) :
    later.Undisturbed earlier :=
  ⟨second.types_eq.trans first.types_eq, second.broadcasts_eq.trans first.broadcasts_eq,
    first.issues.trans second.issues⟩

end Progress

namespace Typing

open Progress

variable {α β : Type} {elements others : List (TypeId × Span)}

/-- A computation that succeeds from wherever it starts. -/
def Total (computation : Typing α) : Prop :=
  ∀ progress, Succeeds computation progress fun _ _ => True

/-- A step that records nothing. -/
def Undisturbing (computation : Typing α) : Prop :=
  ∀ progress, (computation.run.run progress).2.Undisturbed progress

/-- From the same store two computations come to the same value or failure and leave
the same store.  They may record and report different things. -/
def SameTypes (first second : Typing α) : Prop :=
  ∀ ⦃left right : Progress⦄, left.store = right.store →
    (first.run.run left).1 = (second.run.run right).1 ∧
      (first.run.run left).2.store = (second.run.run right).2.store

/-- Two computations look at the store, create types and report issues, each what the
other does but for the issues. -/
inductive SameSteps : {α : Type} → Typing α → Typing α → Prop
  | pure {α : Type} (value : α) : SameSteps (pure value) (pure value)
  | alloc {α : Type} (create : Alloc α) : SameSteps (alloc create) (alloc create)
  | report (issue other : Issue) : SameSteps (report issue) (report other)
  | look {α : Type} {next otherNext : Store → Typing α} :
    (∀ store, SameSteps (next store) (otherNext store)) →
      SameSteps (store >>= next) (store >>= otherNext)
  | bind {α β : Type} {first second : Typing α} {next otherNext : α → Typing β} :
    SameSteps first second → (∀ value, SameSteps (next value) (otherNext value)) →
      SameSteps (first >>= next) (second >>= otherNext)

section Consequences

variable {first second : Typing α} {next otherNext : α → Typing β}

theorem Total.bind (total : Total first) (rest : ∀ value, Total (next value)) :
    Total (first >>= next) :=
  fun state => (total state).bind fun value mid _ => rest value mid

theorem total_record (node : NodeId) (type : TypeId) : Total (record node type) :=
  fun _ => ⟨_, rfl, trivial⟩

theorem undisturbing_pure (value : α) : Undisturbing (pure value) := undisturbed_self

theorem undisturbing_store_bind {next : Store → Typing α}
    (rest : ∀ store, Undisturbing (next store)) :
    Undisturbing (store >>= next) :=
  fun state => rest state.store state

theorem Undisturbing.bind (undisturbing : Undisturbing first)
    (rest : ∀ value, Undisturbing (next value)) :
    Undisturbing (first >>= next) := by
  intro state
  have undisturbed := undisturbing state
  rcases runEq : first.run.run state with ⟨outcome, mid⟩
  rw [runEq] at undisturbed
  cases outcome with
  | error failure =>
    rw [run_bind_of_error runEq]
    exact undisturbed
  | ok value =>
    rw [run_bind_of_ok runEq]
    exact (rest value mid).trans undisturbed

theorem Undisturbing.ensures (undisturbing : Undisturbing first) {state : Progress} :
    Ensures first state fun _ last => last.Undisturbed state := by
  intro value last runEq
  have undisturbed := undisturbing state
  rwa [runEq] at undisturbed

/-- A sequence has the same types if its parts do. -/
theorem SameTypes.bind (same : SameTypes first second)
    (rest : ∀ value, SameTypes (next value) (otherNext value)) :
    SameTypes (first >>= next) (second >>= otherNext) := by
  intro left right stores
  obtain ⟨outcomes, midStores⟩ := same stores
  rcases runEq : first.run.run left with ⟨outcome, mid⟩
  rcases otherEq : second.run.run right with ⟨otherOutcome, otherMid⟩
  rw [runEq, otherEq] at outcomes midStores
  obtain rfl : outcome = otherOutcome := outcomes
  cases outcome with
  | error failure =>
    rw [run_bind_of_error runEq, run_bind_of_error otherEq]
    exact ⟨rfl, midStores⟩
  | ok value =>
    rw [run_bind_of_ok runEq, run_bind_of_ok otherEq]
    exact rest value midStores

theorem sameTypes_store_bind {next otherNext : Store → Typing β}
    (rest : ∀ store, SameTypes (next store) (otherNext store)) :
    SameTypes (store >>= next) (store >>= otherNext) := by
  rintro ⟨store, leftTypes, leftBroadcasts, leftIssues⟩
    ⟨_, rightTypes, rightBroadcasts, rightIssues⟩ ⟨⟩
  exact rest store rfl

/-- Such steps never fail. -/
theorem SameSteps.total_left (same : SameSteps first second) : Total first := by
  induction same with
  | pure value => exact fun _ => succeeds_pure trivial
  | alloc _ | report _ _ => exact fun _ => ⟨_, rfl, trivial⟩
  | look _ rest => exact fun state => rest state.store state
  | bind _ _ total rest => exact total.bind rest

theorem SameSteps.total (same : SameSteps first first) : Total first :=
  same.total_left

/-- They record nothing. -/
theorem SameSteps.undisturbing_left (same : SameSteps first second) : Undisturbing first := by
  induction same with
  | pure value => exact undisturbing_pure value
  | alloc _ => exact fun _ => ⟨rfl, rfl, prefix_rfl⟩
  | report issue _ =>
    refine fun state => ⟨rfl, rfl, ?_⟩
    change _ <+: (state.issues.push issue).toList
    rw [Array.toList_push]
    exact prefix_append _ _
  | look _ rest => exact undisturbing_store_bind rest
  | bind _ _ undisturbing rest => exact undisturbing.bind rest

theorem SameSteps.undisturbing (same : SameSteps first first) : Undisturbing first :=
  same.undisturbing_left

/-- They come to the same types. -/
theorem SameSteps.sameTypes (same : SameSteps first second) : SameTypes first second := by
  induction same with
  | pure _ | report _ _ => exact fun _ _ stores => ⟨rfl, stores⟩
  | alloc _ =>
    rintro ⟨store, leftTypes, leftBroadcasts, leftIssues⟩
      ⟨_, rightTypes, rightBroadcasts, rightIssues⟩ ⟨⟩
    exact ⟨rfl, rfl⟩
  | look _ rest => exact sameTypes_store_bind rest
  | bind _ _ same rest => exact same.bind rest

end Consequences

theorem sameSteps_invalid : SameSteps invalid invalid :=
  .alloc _

theorem sameSteps_reject (issue other : Issue) : SameSteps (reject issue) (reject other) :=
  .bind (.report issue other) fun _ => sameSteps_invalid

theorem sameSteps_literal (value : Literal) : SameSteps (literal value) (literal value) := by
  unfold literal
  cases value <;> exact .alloc _

theorem sameSteps_reference (env : Environment) (name : String) (symbol : Option SymbolId)
    (span other : Span) :
    SameSteps (reference env name symbol span) (reference env name symbol other) := by
  unfold reference
  split
  · exact .pure _
  · exact sameSteps_reject _ _

/-- The parameter is looked up of functions only. -/
theorem exists_parameter_eq {store : Store} {function : TypeId}
    (isFunction : store.isFunction function) :
    ∃ domain, store.parameter function = .ok domain := by
  have kindEq : store.kind (store.body function) = .function := of_decide_eq_true isFunction
  unfold Store.kind at kindEq
  unfold Store.parameter
  cases shapeEq : store.shape (store.body function) <;> rw [shapeEq] at kindEq <;> cases kindEq
  exact ⟨_, rfl⟩

/-- Only the report depends on the site. -/
theorem sameSteps_mismatch (function argument : TypeId) (position otherPos : Option Nat)
    (span other : Span) :
    SameSteps (mismatch function argument position span)
      (mismatch function argument otherPos other) := by
  refine .look fun store => ?_
  dsimp only
  split
  · next isFunction =>
      obtain ⟨domain, paramEq⟩ := exists_parameter_eq isFunction
      rw [paramEq]
      exact .report _ _
  · exact .report _ _

theorem sameSteps_mismatch_invalid (function argument : TypeId) (position otherPos : Option Nat)
    (span other : Span) :
    SameSteps (do mismatch function argument position span; invalid)
      (do mismatch function argument otherPos other; invalid) :=
  .bind (sameSteps_mismatch _ _ _ _ _ _) fun _ => sameSteps_invalid

/-- Spans go into the reports only. -/
theorem sameSteps_commonType (index : Nat) (common : Option TypeId) (sawInvalid : Bool)
    (types : elements.map Prod.fst = others.map Prod.fst) :
    SameSteps (commonType index common sawInvalid elements)
      (commonType index common sawInvalid others) := by
  induction elements generalizing index common sawInvalid others with
  | nil =>
    rw [map_nil, eq_comm, map_eq_nil_iff] at types
    rw [types]
    exact .pure _
  | cons element rest ih =>
    obtain ⟨other, otherRest, rfl, sameType, restTypes⟩ := map_eq_cons_iff.1 types.symm
    obtain ⟨type, span⟩ := element
    obtain ⟨otherType, otherSpan⟩ := other
    obtain rfl : otherType = type := sameType
    refine .look fun store => ?_
    split
    · exact ih _ _ _ restTypes.symm
    cases common with
    | none => exact ih _ _ _ restTypes.symm
    | some previous =>
      refine .bind (.alloc _) fun unified => ?_
      cases unified with
      | some type => exact ih _ _ _ restTypes.symm
      | none => exact .look fun store => .bind (.report _ _) fun _ => .pure none

/-- A list is typed in the same steps at any site. -/
theorem sameSteps_listLiteral (policy : ListPolicy) (span other : Span)
    (types : elements.map Prod.fst = others.map Prod.fst) :
    SameSteps (listLiteral policy span elements) (listLiteral policy other others) := by
  have element : SameSteps (elementType policy elements) (elementType policy others) := by
    cases policy with
    | lastElement =>
      simp only [elementType, ← getLast?_map, types]
      exact .pure _
    | unify => exact sameSteps_commonType 0 none false types
  have empty : elements.isEmpty = others.isEmpty := by
    rw [← isEmpty_map, types, isEmpty_map]
  unfold listLiteral
  rw [empty]
  split
  · exact sameSteps_reject _ _
  refine .bind element fun found => ?_
  cases found with
  | none => exact sameSteps_invalid
  | some type =>
    refine .look fun store => ?_
    split
    · exact sameSteps_invalid
    · exact .alloc _

theorem sameSteps_tupleLiteral (parts : List TypeId) :
    SameSteps (tupleLiteral parts) (tupleLiteral parts) := by
  unfold tupleLiteral
  split
  · exact .alloc _
  refine .look fun store => ?_
  split
  · exact sameSteps_invalid
  · exact .alloc _

theorem sameSteps_applyUnit (function : TypeId) (span other : Span) :
    SameSteps (applyUnit function span) (applyUnit function other) := by
  refine .look fun store => ?_
  split
  · exact .pure _
  · exact .bind (.alloc _) fun _ => sameSteps_mismatch_invalid _ _ _ _ _ _

end Typing
end PipeCheck
