import PipeCheck.Analysis.Typing
import PipeCheck.Proofs.Store.Yields

/-!
# The elements of a list literal, one after the other

An element is passed over, or it is the first one that counts, or it is joined with the
common type so far.  If it does not join, the walk ends with an issue.  A property that
each of these steps hands on holds at the end of the walk.
-/

namespace PipeCheck
namespace Typing

/-- What one element does to a property of the walk: of the index, the common type so
far, whether an invalid element was met, the elements that are left, and the progress. -/
structure ElementLoop
    (holds : Nat → Option TypeId → Bool → List (TypeId × Span) → Progress → Prop)
    (post : Option TypeId → Progress → Prop) : Prop where
  /-- The elements are used up. -/
  done : ∀ {index common sawInvalid state}, holds index common sawInvalid [] state →
    post (if sawInvalid then none else common) state
  /-- An invalid element is passed over. -/
  passes : ∀ {index common sawInvalid type span rest state},
    holds index common sawInvalid ((type, span) :: rest) state →
    state.store.isInvalid type = true → holds (index + 1) common true rest state
  /-- The first element that counts. -/
  starts : ∀ {index sawInvalid type span rest state},
    holds index none sawInvalid ((type, span) :: rest) state →
    state.store.isInvalid type = false → holds (index + 1) (some type) sawInvalid rest state
  /-- A further element joins the common type, or it is reported. -/
  joins : ∀ {index previous sawInvalid type span rest} {state : Progress},
    holds index (some previous) sawInvalid ((type, span) :: rest) state →
    state.store.isInvalid type = false →
    Yields (Alloc.unify previous type) state.store fun found last =>
      found.elim
        (post none { state with
          store := last
          issues := state.issues.push
            (.elementMismatch (last.render previous) (last.render type) index span) })
        fun unified => holds (index + 1) (some unified) sawInvalid rest { state with store := last }

/-- The walk succeeds, and the property holds at its end. -/
theorem ElementLoop.succeeds
    {holds : Nat → Option TypeId → Bool → List (TypeId × Span) → Progress → Prop}
    {post : Option TypeId → Progress → Prop} (loop : ElementLoop holds post) {index : Nat}
    {common : Option TypeId} {sawInvalid : Bool} {elements : List (TypeId × Span)}
    {state : Progress} (start : holds index common sawInvalid elements state) :
    Succeeds (commonType index common sawInvalid elements) state post := by
  induction elements generalizing index common sawInvalid state with
  | nil => exact succeeds_pure (loop.done start)
  | cons element rest ih =>
    obtain ⟨type, span⟩ := element
    unfold commonType
    refine succeeds_get_bind ?_
    cases invalid : state.store.isInvalid type with
    | true => exact ih (loop.passes start invalid)
    | false =>
      cases common with
      | none => exact ih (loop.starts start invalid)
      | some previous =>
        rcases runEq : (Alloc.unify previous type).run state.store with ⟨found, last⟩
        have joined := (loop.joins start invalid).of_run_eq runEq
        have unifies : Succeeds (alloc (Alloc.unify previous type)) state fun value mid =>
            (value, mid.store) = (found, last) ∧ mid = { state with store := mid.store } :=
          ⟨_, rfl, runEq, rfl⟩
        refine unifies.bind ?_
        rintro _ mid ⟨⟨rfl, rfl⟩, midEq⟩
        rw [midEq]
        cases found with
        | some unified => exact ih joined
        | none => exact ⟨none, rfl, joined⟩

end Typing
end PipeCheck
