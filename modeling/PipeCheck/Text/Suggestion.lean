import PipeCheck.Text.EditDistance

/-!
# Suggestions for misspelled names

A hint names the candidate nearest to a misspelled name, if one is near enough.
-/

namespace PipeCheck
namespace Text

/-- The number of edits that still count as a misspelling; short names
tolerate fewer. -/
def tolerance (name : String) : Nat :=
  if name.length ≤ 2 then 1 else if name.length ≤ 5 then 2 else 3

/-- The difference of two numbers, whichever is larger. -/
def difference (left right : Nat) : Nat :=
  (left - right) + (right - left)

/-- The nearer of two candidates; the earlier one if both are equally near. -/
def nearer (best : Option (Nat × String)) (next : Nat × String) :
    Option (Nat × String) :=
  match best with
  | none => some next
  | some kept => if next.1 < kept.1 then some next else some kept

/-- The candidates near enough to a name, each with its distance.  Candidates
whose sizes in bytes differ by more than the tolerance are passed over. -/
def nearCandidates (name : String) (candidates : List String) : List (Nat × String) :=
  ((candidates.filter fun candidate =>
      difference name.utf8ByteSize candidate.utf8ByteSize ≤ tolerance name).map
    fun candidate => (editDistance name candidate, candidate)).filter
    fun candidate => candidate.1 ≤ tolerance name

/-- A hint that names the nearest candidate. -/
def didYouMean (name : String) (candidates : List String) : Option String :=
  ((nearCandidates name candidates).foldl nearer none).map fun nearest =>
    "did you mean `" ++ nearest.2 ++ "`?"

end Text
end PipeCheck
