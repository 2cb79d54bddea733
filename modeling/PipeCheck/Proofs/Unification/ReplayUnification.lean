import PipeCheck.Proofs.Unification.CommonInstances
import PipeCheck.Proofs.Application.Replay

/-!
# Unification in stores that look alike

The search for unifying bindings is bounded by the size of the store, which
differs between two stores.  Two searches among twins find twins or clash alike,
unless one of them is cut off; and none is.
-/

namespace PipeCheck

open List

/-- Two searches end alike as far as neither is cut off. -/
inductive Searches {Value Counterpart : Type} (related : Value → Counterpart → Prop) :
    Except UnifyFailure Value → Except UnifyFailure Counterpart → Prop
  | found {value : Value} {counterpart : Counterpart} :
      related value counterpart → Searches related (.ok value) (.ok counterpart)
  | clash : Searches related (.error .clash) (.error .clash)
  | cutOff {outcome : Except UnifyFailure Counterpart} :
      Searches related (.error .exhausted) outcome
  | otherCutOff {outcome : Except UnifyFailure Value} :
      Searches related outcome (.error .exhausted)

namespace Searches

variable {Value Counterpart Next NextCounterpart : Type}
  {related : Value → Counterpart → Prop} {nextRelated : Next → NextCounterpart → Prop}

theorem bind {outcome : Except UnifyFailure Value} {other : Except UnifyFailure Counterpart}
    {next : Value → Except UnifyFailure Next}
    {otherNext : Counterpart → Except UnifyFailure NextCounterpart}
    (searches : Searches related outcome other) (rest : ∀ value image, related value image →
      Searches nextRelated (next value) (otherNext image)) :
    Searches nextRelated (outcome >>= next) (other >>= otherNext) := by
  cases searches with
  | found holds => exact rest _ _ holds
  | clash => exact .clash
  | cutOff => exact .cutOff
  | otherCutOff => exact .otherCutOff

theorem foldlM {Item Other : Type} {relation : Item → Other → Prop}
    {step : Value → Item → Except UnifyFailure Value}
    {otherStep : Counterpart → Other → Except UnifyFailure Counterpart}
    {items : List Item} {others : List Other} (all : Forall₂ relation items others)
    (each : ∀ item other value image, relation item other → related value image →
      Searches related (step value item) (otherStep image other))
    {value : Value} {image : Counterpart} (start : related value image) :
    Searches related (items.foldlM step value) (others.foldlM otherStep image) := by
  induction all generalizing value image with
  | nil => exact .found start
  | cons head _ ih =>
    rw [foldlM_cons, foldlM_cons]
    exact (each _ _ _ _ head start).bind fun _ _ holds => ih holds

theorem anyM {Item Other : Type} {relation : Item → Other → Prop}
    {ask : Item → Except UnifyFailure Bool} {otherAsk : Other → Except UnifyFailure Bool}
    {items : List Item} {others : List Other} (all : List.Forall₂ relation items others)
    (each : ∀ item other, relation item other → Searches Eq (ask item) (otherAsk other)) :
    Searches Eq (items.anyM ask) (others.anyM otherAsk) := by
  induction all with
  | nil => exact .found rfl
  | cons head _ ih =>
    rw [List.anyM, List.anyM]
    refine (each _ _ head).bind ?_
    rintro answer _ rfl
    cases answer with
    | true => exact .found rfl
    | false => exact ih

end Searches

namespace Bindings

variable {twins : Twins} {bindings others : Bindings}

theorem Alike.resolveWithin (bound : bindings.Alike twins others)
    (unique : Relator.BiUnique twins) (steps : Nat) {first second : TypeId}
    (twin : twins first second) :
    twins (bindings.resolveWithin steps first) (others.resolveWithin steps second) := by
  induction steps generalizing first second with
  | zero => exact twin
  | succ steps ih =>
    have founds := bound.find? unique twin
    rw [Bindings.resolveWithin, Bindings.resolveWithin]
    generalize bindings.find? first = found, others.find? second = otherFound at founds
    cases founds with
    | none => exact twin
    | some next => exact ih next

theorem Alike.resolve (bound : bindings.Alike twins others) (unique : Relator.BiUnique twins)
    {first second : TypeId} (twin : twins first second) :
    twins (bindings.resolve first) (others.resolve second) := by
  unfold Bindings.resolve
  rw [← Forall₂.length_eq bound]
  exact bound.resolveWithin unique _ twin

end Bindings

theorem Shape.Alike.components {twins : Twins} {shape other : Shape}
    (alike : shape.Alike twins other) :
    Forall₂ twins shape.components other.components := by
  cases alike with
  | primitive which => exact .nil
  | function domains codomains => exact .cons domains (.cons codomains .nil)
  | list elements => exact .cons elements .nil
  | tuple parts => exact parts
  | var number otherNumber => exact .nil
  | quantified binders bodies => exact .cons bodies .nil

namespace Store
namespace Alike

variable {twins : Twins} {left right : Store} (alike : left.Alike twins right)
  {bindings others : Bindings} (bound : bindings.Alike twins others)
  {first second other image : TypeId}

include alike bound

theorem searches_occursWithin {var otherVar : TypeId} (vars : twins var otherVar)
    (depth otherDepth : Nat) (twin : twins first second) :
    Searches Eq (left.occursWithin bindings var depth first)
      (right.occursWithin others otherVar otherDepth second) := by
  induction depth generalizing first second otherDepth with
  | zero => exact .cutOff
  | succ depth ih =>
    cases otherDepth with
    | zero => exact .otherCutOff
    | succ otherDepth =>
      have resolved := bound.resolve alike.unique twin
      rw [occursWithin_succ, occursWithin_succ]
      simp only [eq_iff_of_twins alike.unique resolved vars]
      split
      · exact .found rfl
      · exact Searches.anyM (alike.shapes resolved).components
          fun _ _ partTwins => ih otherDepth partTwins

theorem searches_bindVar (twin : twins first second) (types : twins other image) :
    Searches (Bindings.Alike twins) (left.bindVar bindings first other)
      (right.bindVar others second image) := by
  unfold bindVar occurs
  refine (alike.searches_occursWithin bound twin _ _ types).bind ?_
  rintro answer _ rfl
  split
  · exact .clash
  · exact .found (bound.bind twin types)

theorem searches_unifyWithin {bindable otherBindable : List TypeId}
    (listed : Forall₂ twins bindable otherBindable) (depth otherDepth : Nat)
    (twin : twins first second) (otherTwin : twins other image) :
    Searches (Bindings.Alike twins) (left.unifyWithin bindable depth first other bindings)
      (right.unifyWithin otherBindable otherDepth second image others) := by
  induction depth generalizing first second other image otherDepth bindings others with
  | zero => exact .cutOff
  | succ depth ih =>
    cases otherDepth with
    | zero => exact .otherCutOff
    | succ otherDepth =>
      have resolved := bound.resolve alike.unique twin
      have otherResolved := bound.resolve alike.unique otherTwin
      have pairs := (alike.shapes resolved).pairs (alike.shapes otherResolved)
      rw [alike.leftWellFormed.unifyWithin_succ, alike.rightWellFormed.unifyWithin_succ,
        alike.same_eq resolved otherResolved]
      simp only [eq_iff_of_twins alike.unique resolved otherResolved,
        rel_mem alike.unique resolved listed, rel_mem alike.unique otherResolved listed]
      split
      · exact .found bound
      split
      · exact alike.searches_bindVar bound resolved otherResolved
      split
      · exact alike.searches_bindVar bound otherResolved resolved
      generalize (left.shape (bindings.resolve first)).pairs
          (left.shape (bindings.resolve other)) = paired,
        (right.shape (others.resolve second)).pairs
          (right.shape (others.resolve image)) = otherPaired at pairs
      cases pairs with
      | none =>
        simp only
        split
        · exact .found bound
        · exact .clash
      | some pairTwins =>
        refine Searches.foldlM pairTwins ?_ bound
        intro pair otherPair bindings others twinPairs bound
        exact ih bound otherDepth twinPairs.1 twinPairs.2

end Alike

/-- Searches among twins find twins or clash alike, since neither is cut off. -/
theorem Alike.unifier {twins : Twins} {left right : Store} (alike : left.Alike twins right)
    {bindable otherBindable : List TypeId} (listed : Forall₂ twins bindable otherBindable)
    (vars : left.Vars bindable) {first second other image : TypeId} (twin : twins first second)
    (otherTwin : twins other image) :
    (∃ bindings others, left.unifier bindable first other = .ok bindings ∧
      right.unifier otherBindable second image = .ok others ∧ bindings.Alike twins others) ∨
    left.unifier bindable first other = .error .clash ∧
      right.unifier otherBindable second image = .error .clash := by
  have otherVars : right.Vars otherBindable := by
    intro id mem
    obtain ⟨source, isBindable, sourceTwin⟩ := exists_mem_of_forall₂ listed mem
    exact alike.exists_var sourceTwin (vars source isBindable)
  have outcome := outcome_unifier alike.leftWellFormed vars (alike.inside twin).1
    (alike.inside otherTwin).1
  have otherOutcome := outcome_unifier alike.rightWellFormed otherVars (alike.inside twin).2
    (alike.inside otherTwin).2
  have searches : Searches _ (left.unifier bindable first other)
      (right.unifier otherBindable second image) :=
    alike.searches_unifyWithin .nil listed _ _ twin otherTwin
  generalize left.unifier bindable first other = result,
    right.unifier otherBindable second image = otherResult at searches outcome otherOutcome
  cases searches with
  | found bound => exact .inl ⟨_, _, rfl, rfl, bound⟩
  | clash => exact .inr ⟨rfl, rfl⟩
  | cutOff => cases outcome.1
  | otherCutOff => cases otherOutcome.1

end Store

namespace Alloc

open Store

variable {twins : Twins} {left right : Store}

theorem parallel_substituteUntilStable (alike : left.Alike twins right)
    {bindings others : Bindings} (bound : bindings.Alike twins others) (rounds : Nat)
    {first second : TypeId} (twin : twins first second) :
    Parallel Store.Alike twins left right (substituteUntilStable bindings rounds first)
      (substituteUntilStable others rounds second) fun further => further := by
  induction rounds generalizing twins left right first second with
  | zero => exact parallel_pure alike twin
  | succ rounds ih =>
    rw [substituteUntilStable, substituteUntilStable]
    refine (parallel_substitute alike bound twin).bind fun grown midAlike nextTwins => ?_
    simp only [eq_iff_of_twins midAlike.unique nextTwins (grown _ _ twin)]
    split
    · exact parallel_pure midAlike (grown _ _ twin)
    · exact ih midAlike (bound.mono grown) nextTwins

theorem parallel_stripQuantifier (alike : left.Alike twins right) {first second : TypeId}
    (twin : twins first second) :
    Parallel Store.Alike twins left right (stripQuantifier first) (stripQuantifier second)
      fun further stripped otherStripped =>
        Forall₂ further stripped.1 otherStripped.1 ∧
          further stripped.2 otherStripped.2 := by
  unfold stripQuantifier
  refine parallel_get_bind ?_
  have shapes := alike.shapes twin
  generalize left.shape first = shape, right.shape second = other at shapes
  cases shapes with
  | quantified binders bodies => exact parallel_freshen alike binders bodies
  | _ => exact parallel_pure alike ⟨.nil, twin⟩

/-- The most general common instances of twins are twins. -/
theorem parallel_unify (alike : left.Alike twins right) {first second other image : TypeId}
    (twin : twins first second) (otherTwin : twins other image) :
    Parallel Store.Alike twins left right (unify first other) (unify second image)
      fun further => Option.Rel further := by
  unfold unify
  simp only [eq_iff_of_twins alike.unique twin otherTwin]
  split
  · exact parallel_pure alike (.some twin)
  refine (parallel_stripQuantifier alike twin).bind_of_run ?_
  rintro further ⟨vars, body⟩ mid ⟨otherVars, otherBody⟩ otherMid grown firstEq
    midAlike ⟨varsTwins, bodies⟩
  refine (parallel_stripQuantifier midAlike (grown _ _ otherTwin)).bind_of_run ?_
  rintro last ⟨moreVars, moreBody⟩ later ⟨otherMoreVars, otherMoreBody⟩ otherLater more secondEq
    laterAlike ⟨moreTwins, moreBodies⟩
  refine parallel_get_bind ?_
  have stripped := (yields_stripQuantifier alike.leftWellFormed
    (alike.inside twin).1).of_run_eq firstEq
  have moreStripped := (yields_stripQuantifier midAlike.leftWellFormed
    (midAlike.inside (grown _ _ otherTwin)).1).of_run_eq secondEq
  have areVars : later.Vars (vars ++ moreVars) := by
    intro id mem
    rcases mem_append.1 mem with isEarlier | isLater
    · obtain ⟨number, isVar⟩ := stripped.fresh_var id isEarlier
      exact ⟨number, (moreStripped.grown.shape_eq (stripped.inside_of_mem isEarlier)).trans isVar⟩
    · exact moreStripped.fresh_var id isLater
  have bindableTwins := rel_append (forall₂_mono more varsTwins) moreTwins
  rcases laterAlike.unifier bindableTwins areVars (more _ _ bodies) moreBodies with
    ⟨bindings, others, foundEq, otherFoundEq, bound⟩ | ⟨clashEq, otherClashEq⟩
  · simp only [foundEq, otherFoundEq, Forall₂.length_eq bound]
    refine (parallel_substituteUntilStable laterAlike bound _ (more _ _ bodies)).bind
      fun most finalAlike unifiedTwins => ?_
    refine parallel_get_bind (Parallel.map ?_)
    have freeTwins := finalAlike.freeVars unifiedTwins
    refine (parallel_quantifiedOver finalAlike ?_ (rel_filter ?_ freeTwins)
      unifiedTwins).mono fun _ _ _ _ twin => .some twin
    · intro id mem
      have occurs := finalAlike.leftWellFormed.mem_freeVars.1 (mem_filter.1 mem).1
      exact (finalAlike.leftWellFormed.var_of_mem_occurrences occurs).2
    · intro id otherId idTwins
      simp only [contains_eq finalAlike.unique idTwins (forall₂_mono most bindableTwins)]
  · simp only [clashEq, otherClashEq]
    exact parallel_pure laterAlike .none

end Alloc
end PipeCheck
