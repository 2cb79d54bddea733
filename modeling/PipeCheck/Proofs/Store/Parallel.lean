import Mathlib.Data.List.Forall2
import Mathlib.Order.Basic
import PipeCheck.Proofs.Store.Yields

/-!
# Two computations side by side

The same computation takes the same course in two stores whose types stand for
each other, although it meets other indices.  It is followed in both at once:
the types that stand for each other grow in number, and values and states stay
related through them.
-/

namespace PipeCheck

/-- Which types of one store stand for which types of another. -/
abbrev Twins := TypeId → TypeId → Prop

variable {First Second Value Counterpart Next NextCounterpart Failure : Type}
  {states : Twins → First → Second → Prop} {twins : Twins} {left : First} {right : Second}
  {related weaker : Twins → Value → Counterpart → Prop}
  {lastRelated : Twins → Next → NextCounterpart → Prop}

section

variable {first : StateM First Value} {second : StateM Second Counterpart}

/-- Two computations end in related states and with related values.  More types
may have become twins. -/
def Parallel (states : Twins → First → Second → Prop) (twins : Twins) (left : First)
    (right : Second) (first : StateM First Value) (second : StateM Second Counterpart)
    (related : Twins → Value → Counterpart → Prop) : Prop :=
  ∃ further, twins ≤ further ∧ states further (first.run left).2 (second.run right).2 ∧
    related further (first.run left).1 (second.run right).1

theorem Parallel.mono (parallel : Parallel states twins left right first second related)
    (weaken : ∀ further, twins ≤ further → ∀ value image,
      related further value image → weaker further value image) :
    Parallel states twins left right first second weaker := by
  obtain ⟨further, grown, ended, holds⟩ := parallel
  exact ⟨further, grown, ended, weaken further grown _ _ holds⟩

theorem parallel_pure {value : Value} {image : Counterpart} (start : states twins left right)
    (holds : related twins value image) :
    Parallel states twins left right (pure value) (pure image) related :=
  ⟨twins, le_refl twins, start, holds⟩

section Sequence

variable {next : Value → StateM First Next}
  {otherNext : Counterpart → StateM Second NextCounterpart}
  (parallel : Parallel states twins left right first second related)

include parallel

/-- What follows may depend on how the first computation has run. -/
theorem Parallel.bind_of_run
    (rest : ∀ further value mid image otherMid, twins ≤ further → first.run left = (value, mid) →
      states further mid otherMid → related further value image →
      Parallel states further mid otherMid (next value) (otherNext image) lastRelated) :
    Parallel states twins left right (first >>= next) (second >>= otherNext) lastRelated := by
  obtain ⟨further, grown, ended, holds⟩ := parallel
  obtain ⟨last, lastGrown, lastEnded, lastHolds⟩ := rest further _ _ _ _ grown rfl ended holds
  exact ⟨last, grown.trans lastGrown, lastEnded, lastHolds⟩

theorem Parallel.bind (rest : ∀ {further value mid image otherMid}, twins ≤ further →
      states further mid otherMid → related further value image →
      Parallel states further mid otherMid (next value) (otherNext image) lastRelated) :
    Parallel states twins left right (first >>= next) (second >>= otherNext) lastRelated :=
  parallel.bind_of_run fun _ _ _ _ _ grown _ => rest grown

end Sequence

theorem Parallel.map {fn : Value → Next} {otherFn : Counterpart → NextCounterpart}
    (parallel : Parallel states twins left right first second fun further value image =>
      lastRelated further (fn value) (otherFn image)) :
    Parallel states twins left right (fn <$> first) (otherFn <$> second) lastRelated :=
  parallel

theorem parallel_get_bind {next : First → StateM First Next}
    {otherNext : Second → StateM Second NextCounterpart}
    (rest : Parallel states twins left right (next left) (otherNext right) lastRelated) :
    Parallel states twins left right (get >>= next) (get >>= otherNext) lastRelated :=
  rest

/-- Items that stand for each other are treated in parallel, one after the
other. -/
theorem parallel_mapM {Item OtherItem : Type} {first : Item → StateM First Value}
    {second : OtherItem → StateM Second Counterpart} {items : List Item}
    {otherItems : List OtherItem} (paired : Twins → Item → OtherItem → Prop)
    (related : Twins → Value → Counterpart → Prop)
    (pairedMono : ∀ {fewer more : Twins}, fewer ≤ more → ∀ item other,
      paired fewer item other → paired more item other)
    (relatedMono : ∀ {fewer more : Twins}, fewer ≤ more → ∀ value image,
      related fewer value image → related more value image)
    (each : ∀ {further item other start otherStart}, twins ≤ further →
      states further start otherStart → paired further item other →
      Parallel states further start otherStart (first item) (second other) related)
    (start : states twins left right) (listed : List.Forall₂ (paired twins) items otherItems) :
    Parallel states twins left right (items.mapM first) (otherItems.mapM second)
      fun further => List.Forall₂ (related further) := by
  induction items generalizing twins left right otherItems with
  | nil =>
    cases listed
    rw [List.mapM_nil, List.mapM_nil]
    exact parallel_pure start .nil
  | cons item rest ih =>
    cases listed with
    | cons pair restPaired =>
      rw [List.mapM_cons, List.mapM_cons]
      refine (each (le_refl twins) start pair).bind fun grown ended holds => ?_
      refine (ih (fun more => each (grown.trans more)) ended
        (restPaired.imp fun item other => pairedMono grown item other)).bind
        fun lastGrown lastEnded lastHolds => ?_
      exact parallel_pure lastEnded (.cons (relatedMono lastGrown _ _ holds) lastHolds)

end

section Failing

/-- Two outcomes are the same failure, or both are values and these are
related. -/
def Outcomes (related : Twins → Value → Counterpart → Prop) (twins : Twins) :
    Except Failure Value → Except Failure Counterpart → Prop
  | .ok value, .ok counterpart => related twins value counterpart
  | .error failure, .error other => failure = other
  | _, _ => False

/-- Two computations that may fail do so with one failure or not at all. -/
def Concur (states : Twins → First → Second → Prop) (twins : Twins) (left : First)
    (right : Second) (first : Fallible Failure First Value)
    (second : Fallible Failure Second Counterpart)
    (related : Twins → Value → Counterpart → Prop) : Prop :=
  Parallel states twins left right first.run second.run (Outcomes related)

variable {first : Fallible Failure First Value}
  {second : Fallible Failure Second Counterpart}

theorem outcomes_mono {further : Twins}
    (weaken : ∀ value image, related further value image → weaker further value image)
    {outcome : Except Failure Value} {other : Except Failure Counterpart}
    (outcomes : Outcomes related further outcome other) :
    Outcomes weaker further outcome other := by
  cases outcome with
  | error failure => cases other <;> exact outcomes
  | ok value =>
    cases other with
    | error failure => exact outcomes
    | ok image => exact weaken value image outcomes

section

variable (concur : Concur states twins left right first second related)

include concur

theorem Concur.mono (weaken : ∀ further, twins ≤ further → ∀ value image,
      related further value image → weaker further value image) :
    Concur states twins left right first second weaker :=
  Parallel.mono concur fun further grown _ _ => outcomes_mono (weaken further grown)

/-- If one succeeds, so does the other. -/
theorem Concur.exists_of_run_eq {value : Value} {last : First}
    (runEq : first.run.run left = (.ok value, last)) :
    ∃ further image otherLast, twins ≤ further ∧
      second.run.run right = (.ok image, otherLast) ∧ states further last otherLast ∧
        related further value image := by
  obtain ⟨further, grown, ended, holds⟩ := concur
  rcases otherEq : second.run.run right with ⟨outcome, otherLast⟩
  rw [runEq, otherEq] at ended holds
  cases outcome with
  | error failure => exact absurd holds id
  | ok image => exact ⟨further, image, otherLast, grown, rfl, ended, holds⟩

theorem Concur.exists_of_counterpart {image : Counterpart} {otherLast : Second}
    (runEq : second.run.run right = (.ok image, otherLast)) :
    ∃ further value last, twins ≤ further ∧ first.run.run left = (.ok value, last) ∧
      states further last otherLast ∧ related further value image := by
  obtain ⟨further, grown, ended, holds⟩ := concur
  rcases firstEq : first.run.run left with ⟨outcome, last⟩
  rw [runEq, firstEq] at ended holds
  cases outcome with
  | error failure => exact absurd holds id
  | ok value => exact ⟨further, value, last, grown, rfl, ended, holds⟩

end

theorem concur_pure {value : Value} {image : Counterpart} (start : states twins left right)
    (holds : related twins value image) :
    Concur states twins left right (pure value : Fallible Failure First Value)
      (pure image) related :=
  parallel_pure start holds

theorem concur_throw {failure : Failure} (start : states twins left right) :
    Concur states twins left right (throw failure : Fallible Failure First Value)
      (throw failure) related :=
  ⟨twins, le_refl twins, start, rfl⟩

theorem Concur.bind {next : Value → Fallible Failure First Next}
    {otherNext : Counterpart → Fallible Failure Second NextCounterpart}
    (concur : Concur states twins left right first second related)
    (rest : ∀ {further value mid image otherMid}, twins ≤ further →
      states further mid otherMid → related further value image →
      Concur states further mid otherMid (next value) (otherNext image) lastRelated) :
    Concur states twins left right (first >>= next) (second >>= otherNext) lastRelated := by
  obtain ⟨further, grown, ended, holds⟩ := concur
  unfold Concur Parallel
  rcases runEq : first.run.run left with ⟨outcome, mid⟩
  rcases otherEq : second.run.run right with ⟨otherOutcome, otherMid⟩
  rw [runEq, otherEq] at ended holds
  cases outcome with
  | error failure =>
    cases otherOutcome with
    | ok image => exact absurd holds id
    | error other =>
      rw [run_bind_of_error runEq, run_bind_of_error otherEq]
      exact ⟨further, grown, ended, holds⟩
  | ok value =>
    cases otherOutcome with
    | error other => exact absurd holds id
    | ok image =>
      rw [run_bind_of_ok runEq, run_bind_of_ok otherEq]
      obtain ⟨last, lastGrown, lastEnded, lastHolds⟩ := rest grown ended holds
      exact ⟨last, grown.trans lastGrown, lastEnded, lastHolds⟩

theorem concur_get_bind {next : First → Fallible Failure First Next}
    {otherNext : Second → Fallible Failure Second NextCounterpart}
    (rest : Concur states twins left right (next left) (otherNext right) lastRelated) :
    Concur states twins left right (get >>= next) (get >>= otherNext) lastRelated :=
  rest

theorem concur_lift {create : StateM First Value} {otherCreate : StateM Second Counterpart}
    (parallel : Parallel states twins left right create otherCreate related) :
    Concur states twins left right
      (monadLift create : Fallible Failure First Value) (monadLift otherCreate)
      related :=
  parallel

theorem concur_except {outcome : Except Failure Value} {other : Except Failure Counterpart}
    (start : states twins left right) (outcomes : Outcomes related twins outcome other) :
    Concur states twins left right
      (monadLift outcome : Fallible Failure First Value) (monadLift other) related :=
  ⟨twins, le_refl twins, start, outcomes⟩

/-- One outcome on both sides. -/
theorem concur_same (outcome : Except Failure Value) (start : states twins left right) :
    Concur states twins left right
      (monadLift outcome : Fallible Failure First Value)
      (monadLift outcome : Fallible Failure Second Value)
      fun _ value image => value = image := by
  refine concur_except start ?_
  cases outcome <;> rfl

theorem Concur.map {fn : Value → Next} {otherFn : Counterpart → NextCounterpart}
    (concur : Concur states twins left right first second fun further value image =>
      lastRelated further (fn value) (otherFn image)) :
    Concur states twins left right (fn <$> first) (otherFn <$> second)
      lastRelated := by
  rw [map_eq_pure_bind, map_eq_pure_bind]
  refine concur.bind fun _ ended holds => ?_
  exact concur_pure ended holds

end Failing

end PipeCheck
