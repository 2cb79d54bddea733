import PipeCheck.Proofs.Text.EditDistance

/-!
# Suggestions

A hint should name the earliest of the candidates at the least distance, if that is
tolerated.  It does so among the candidates that are not passed over for their size in
bytes.  Since distances count characters, the nearest candidate itself may be passed over.
-/

namespace PipeCheck

open List Option

namespace Text

/-- The earliest of the candidates at the least distance from a name, if that distance is
tolerated. -/
def nearest? (name : String) (candidates : List String) : Option String :=
  candidates.find? fun candidate =>
    editDistance name candidate ≤ tolerance name ∧
      ∀ other ∈ candidates, editDistance name candidate ≤ editDistance name other

/-- The hint that names a candidate. -/
def hint (candidate : String) : String :=
  "did you mean `" ++ candidate ++ "`?"

/-- The sizes of two texts in bytes differ by no more than the first one tolerates edits. -/
def AlikeInSize (name candidate : String) : Prop :=
  difference name.utf8ByteSize candidate.utf8ByteSize ≤ tolerance name

instance (name candidate : String) : Decidable (AlikeInSize name candidate) :=
  inferInstanceAs (Decidable (_ ≤ _))

theorem hint_inj {left right : String} (same : hint left = hint right) : left = right := by
  have lists := congrArg String.toList same
  simp only [hint, String.toList_append] at lists
  exact String.toList_inj.1 (append_cancel_left (append_cancel_right lists))

variable (name : String) (candidates : List String)

/-- A candidate with its distance from a name. -/
def measured (candidate : String) : Nat × String :=
  (editDistance name candidate, candidate)

/-- The candidate that is kept is less far than those before it and no farther than those
after it. -/
theorem exists_foldl_nearer (first : String) (rest : List String) :
    ∃ before kept after, first :: rest = before ++ kept :: after ∧
      (∀ other ∈ before, editDistance name kept < editDistance name other) ∧
      (∀ other ∈ after, editDistance name kept ≤ editDistance name other) ∧
      (rest.map (measured name)).foldl nearer (some (measured name first)) =
        some (measured name kept) := by
  induction rest generalizing first with
  | nil => exact ⟨[], first, [], rfl, by simp, by simp, rfl⟩
  | cons next rest ih =>
    have step : nearer (some (measured name first)) (measured name next) =
        if editDistance name next < editDistance name first then some (measured name next)
        else some (measured name first) := rfl
    rw [map_cons, foldl_cons, step]
    by_cases closer : editDistance name next < editDistance name first
    · obtain ⟨before, kept, after, split, less, notMore, folded⟩ := ih next
      refine ⟨first :: before, kept, after, by rw [split]; rfl, ?_, notMore, ?_⟩
      · have atMost : editDistance name kept ≤ editDistance name next := by
          have mem : next ∈ before ++ kept :: after := split ▸ mem_cons_self
          rcases mem_append.1 mem with earlier | later
          · exact Nat.le_of_lt (less next earlier)
          · rcases mem_cons.1 later with rfl | later
            · exact Nat.le_refl _
            · exact notMore next later
        rw [forall_mem_cons]
        exact ⟨Nat.lt_of_le_of_lt atMost closer, less⟩
      · rw [if_pos closer, folded]
    · obtain ⟨before, kept, after, split, less, notMore, folded⟩ := ih first
      rw [if_neg closer]
      cases before with
      | nil =>
        obtain ⟨rfl, rfl⟩ := List.cons.inj split
        refine ⟨[], first, next :: rest, rfl, by simp, ?_, folded⟩
        rw [forall_mem_cons]
        exact ⟨Nat.le_of_not_lt closer, notMore⟩
      | cons head before =>
        obtain ⟨rfl, rfl⟩ := List.cons.inj split
        rw [forall_mem_cons] at less
        refine ⟨first :: next :: before, kept, after, rfl, ?_, notMore, folded⟩
        rw [forall_mem_cons, forall_mem_cons]
        exact ⟨less.1, Nat.lt_of_lt_of_le less.1 (Nat.le_of_not_lt closer), less.2⟩

/-- What is kept is the earliest entry at the least distance. -/
theorem foldl_nearer_eq :
    (candidates.map (measured name)).foldl nearer none =
      (candidates.find? fun candidate => ∀ other ∈ candidates,
        editDistance name candidate ≤ editDistance name other).map (measured name) := by
  cases candidates with
  | nil => rfl
  | cons first rest =>
    obtain ⟨before, kept, after, split, less, notMore, folded⟩ :=
      exists_foldl_nearer name first rest
    have found : (first :: rest).find? (fun candidate => ∀ other ∈ first :: rest,
        editDistance name candidate ≤ editDistance name other) = some kept := by
      rw [split, find?_eq_some_iff_append]
      refine ⟨?_, before, after, rfl, ?_⟩
      · rw [decide_eq_true_iff, forall_mem_append, forall_mem_cons]
        exact ⟨fun other mem => Nat.le_of_lt (less other mem), Nat.le_refl _, notMore⟩
      · intro other mem
        rw [Bool.not_eq_true', decide_eq_false_iff_not]
        intro least
        exact Nat.not_lt_of_le (least kept (by simp)) (less other mem)
    rw [found, map_some, ← folded]
    rfl

/-- Candidates that are too far do not matter. -/
theorem find?_filter_tolerated :
    ((candidates.filter fun candidate => editDistance name candidate ≤ tolerance name).find?
      fun candidate => ∀ other ∈ candidates.filter fun candidate =>
        editDistance name candidate ≤ tolerance name,
          editDistance name candidate ≤ editDistance name other) =
      nearest? name candidates := by
  rw [find?_filter, nearest?]
  congr 1
  funext candidate
  rw [decide_eq_decide, decide_eq_true_iff, decide_eq_true_iff]
  refine and_congr_right fun tolerated => ?_
  simp only [mem_filter, decide_eq_true_iff, and_imp]
  refine forall₂_congr fun other mem => ⟨fun least => ?_, fun least _ => least⟩
  rcases Nat.le_total (editDistance name other) (tolerance name) with near | far
  · exact least near
  · exact Nat.le_trans tolerated far

/-- The hint names the nearest of the candidates that are alike in size. -/
theorem didYouMean_eq :
    didYouMean name candidates =
      (nearest? name (candidates.filter fun candidate => AlikeInSize name candidate)).map hint := by
  rw [didYouMean, nearCandidates, ← find?_filter_tolerated]
  rw [show (fun candidate => (editDistance name candidate, candidate)) = measured name from rfl,
    List.filter_map, foldl_nearer_eq, Option.map_map]
  rfl

theorem nearest?_eq_none_iff :
    nearest? name candidates = none ↔
      ∀ candidate ∈ candidates, tolerance name < editDistance name candidate := by
  have folded := foldl_nearer_eq name
    (candidates.filter fun candidate => editDistance name candidate ≤ tolerance name)
  rw [find?_filter_tolerated] at folded
  constructor
  · intro none candidate mem
    rw [none, map_none] at folded
    refine Nat.lt_of_not_le fun tolerated => ?_
    cases near : candidates.filter fun candidate =>
        editDistance name candidate ≤ tolerance name with
    | nil => simpa [tolerated] using filter_eq_nil_iff.1 near candidate mem
    | cons first rest =>
      obtain ⟨_, kept, _, _, _, _, keeps⟩ := exists_foldl_nearer name first rest
      rw [near] at folded
      exact some_ne_none _ (keeps.symm.trans folded)
  · intro allFar
    rw [nearest?, List.find?_eq_none]
    intro candidate mem nearest
    rw [decide_eq_true_iff] at nearest
    exact Nat.not_lt_of_le nearest.1 (allFar candidate mem)

theorem mem_of_nearest? {nearest : String} (found : nearest ∈ nearest? name candidates) :
    nearest ∈ candidates ∧ editDistance name nearest ≤ tolerance name ∧
      ∀ other ∈ candidates, editDistance name nearest ≤ editDistance name other := by
  refine ⟨mem_of_find?_eq_some found, ?_⟩
  have := find?_some found
  rwa [decide_eq_true_iff] at this

/-- Candidates can be left out as long as the nearest one stays. -/
theorem nearest?_filter (keeps : String → Bool)
    (kept : ∀ nearest ∈ nearest? name candidates, keeps nearest) :
    nearest? name (candidates.filter keeps) = nearest? name candidates := by
  cases found : nearest? name candidates with
  | none =>
    rw [nearest?_eq_none_iff] at found ⊢
    exact fun candidate mem => found candidate (mem_filter.1 mem).1
  | some nearest =>
    obtain ⟨mem, tolerated, least⟩ := mem_of_nearest? name candidates found
    obtain ⟨_, before, after, split, notBefore⟩ := find?_eq_some_iff_append.1 found
    rw [nearest?, find?_filter, find?_eq_some_iff_append]
    refine ⟨?_, before, after, split, ?_⟩
    · rw [decide_eq_true_iff, decide_eq_true_iff]
      exact ⟨kept nearest found, tolerated, fun other mem => least other (mem_filter.1 mem).1⟩
    · intro other isBefore
      have notLeast := notBefore other isBefore
      rw [Bool.not_eq_true', decide_eq_false_iff_not] at notLeast
      rw [Bool.not_eq_true', decide_eq_false_iff_not, decide_eq_true_iff]
      -- an equally near candidate before the nearest one would be the nearest itself
      rintro ⟨_, otherTolerated, leastKept⟩
      have noFarther := leastKept nearest (mem_filter.2 ⟨mem, kept nearest found⟩)
      exact notLeast ⟨otherTolerated, fun third isThird =>
        Nat.le_trans noFarther (least third isThird)⟩

/-- The hint names the nearest of the candidates that are alike in size.  It names the
nearest of all candidates exactly if that one is alike in size, which is always so where
each character takes one byte. -/
theorem didYouMean_eq_iff_alikeInSize :
    didYouMean name candidates =
        (nearest? name (candidates.filter fun candidate => AlikeInSize name candidate)).map hint ∧
      (nearest? name candidates = none ↔
        ∀ candidate ∈ candidates, tolerance name < editDistance name candidate) ∧
      (didYouMean name candidates = (nearest? name candidates).map hint ↔
        ∀ nearest ∈ nearest? name candidates, AlikeInSize name nearest) ∧
      ((∀ text ∈ name :: candidates, text.utf8ByteSize = text.length) →
        didYouMean name candidates = (nearest? name candidates).map hint) := by
  have named : didYouMean name candidates = (nearest? name candidates).map hint ↔
      ∀ nearest ∈ nearest? name candidates, AlikeInSize name nearest := by
    rw [didYouMean_eq]
    constructor
    · intro same nearest found
      rw [Option.mem_def.1 found, Option.map_some, Option.map_eq_some_iff] at same
      obtain ⟨other, otherFound, hintEq⟩ := same
      obtain rfl := hint_inj hintEq
      have kept := (mem_of_nearest? name _ otherFound).1
      exact of_decide_eq_true (List.mem_filter.1 kept).2
    · intro alike
      rw [nearest?_filter name candidates _ fun nearest found =>
        decide_eq_true (alike nearest found)]
  refine ⟨didYouMean_eq name candidates, nearest?_eq_none_iff name candidates, named, ?_⟩
  intro single
  rw [List.forall_mem_cons] at single
  refine named.2 fun nearest found => ?_
  obtain ⟨mem, tolerated, _⟩ := mem_of_nearest? name candidates found
  rw [AlikeInSize, single.1, single.2 nearest mem]
  exact Nat.le_trans (difference_length_le name nearest) tolerated

/-- A name with a closing quotation mark of three bytes is one edit away from a candidate
that is not suggested. -/
theorem didYouMean_passes_over_nearest :
    nearest? "size”" ["size"] = some "size" ∧ editDistance "size”" "size" = 1 ∧
      tolerance "size”" = 2 ∧ didYouMean "size”" ["size"] = none := by
  decide +kernel

end Text
end PipeCheck
