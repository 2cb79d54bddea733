import Mathlib.Order.Bounds.Defs
import PipeCheck.Text.Suggestion

/-!
# Edit distance

The rows are computed over beginnings of the texts and hold only one row of the table of
all distances.  The last cell is the distance of the recursion over both texts, which is
the least number of edits that turn one text into the other.
-/

namespace PipeCheck

open List

namespace Text

/-- The edit distance by recursion over both texts. -/
def distance : List Char → List Char → Nat
  | [], target => target.length
  | character :: source, [] => source.length + 1
  | character :: source, other :: target =>
    min (distance source target + if character = other then 0 else 1)
      (min (distance (character :: source) target + 1) (distance source (other :: target) + 1))
termination_by source target => source.length + target.length

/-- One edit of a text. -/
inductive Edit : List Char → List Char → Prop
  | insert (before : List Char) (character : Char) (after : List Char) :
    Edit (before ++ after) (before ++ character :: after)
  | delete (before : List Char) (character : Char) (after : List Char) :
    Edit (before ++ character :: after) (before ++ after)
  | replace (before : List Char) (character other : Char) (after : List Char) :
    Edit (before ++ character :: after) (before ++ other :: after)

/-- A number of edits, one after another. -/
inductive Edits : Nat → List Char → List Char → Prop
  | none (text : List Char) : Edits 0 text text
  | more {count : Nat} {first second third : List Char} :
    Edit first second → Edits count second third → Edits (count + 1) first third

variable {first second third : List Char} {count : Nat}

namespace Edit

section

variable (edit : Edit first second)

include edit

theorem symm : Edit second first := by
  cases edit with
  | insert before char after => exact .delete before char after
  | delete before char after => exact .insert before char after
  | replace before char other after => exact .replace before other char after

theorem cons (char : Char) :
    Edit (char :: first) (char :: second) := by
  cases edit with
  | insert before inserted after => exact .insert (char :: before) inserted after
  | delete before deleted after => exact .delete (char :: before) deleted after
  | replace before old new after => exact .replace (char :: before) old new after

theorem reverse : Edit first.reverse second.reverse := by
  cases edit with
  | insert before char after => simpa using .insert after.reverse char before.reverse
  | delete before char after => simpa using .delete after.reverse char before.reverse
  | replace before char other after =>
    simpa using .replace after.reverse char other before.reverse

theorem length_le : first.length ≤ second.length + 1 := by
  cases edit <;> simp only [length_append, length_cons] <;> omega

end

end Edit

namespace Edits

section

variable (edits : Edits count first second)

include edits

theorem trans {further : Nat} (others : Edits further second third) :
    Edits (count + further) first third := by
  induction edits with
  | none text => rwa [Nat.zero_add]
  | more edit _ ih =>
    rw [Nat.add_right_comm]
    exact .more edit (ih others)

theorem symm : Edits count second first := by
  induction edits with
  | none text => exact .none text
  | more edit _ ih => exact ih.trans (.more edit.symm (.none _))

theorem cons (char : Char) :
    Edits count (char :: first) (char :: second) := by
  induction edits with
  | none text => exact .none _
  | more edit _ ih => exact .more (edit.cons char) ih

theorem reverse :
    Edits count first.reverse second.reverse := by
  induction edits with
  | none text => exact .none _
  | more edit _ ih => exact .more edit.reverse ih

theorem length_le : first.length ≤ second.length + count := by
  induction edits with
  | none text => exact Nat.le_refl _
  | more edit _ ih =>
    have step := edit.length_le
    omega

end

/-- A text is written one character at a time. -/
theorem ofNil (text : List Char) : Edits text.length [] text := by
  induction text with
  | nil => exact .none []
  | cons char text ih => exact .more (.insert [] char []) (ih.cons char)

end Edits

section Distance

theorem distance_nil_right (text : List Char) : distance text [] = text.length := by
  cases text <;> rw [distance]
  rw [length_cons]

theorem distance_self (text : List Char) : distance text text = 0 := by
  induction text with
  | nil => rw [distance, length_nil]
  | cons char text ih => simp [distance, ih]

section

variable (source target : List Char)

include source target

/-- The distance is reached by edits. -/
theorem edits_distance :
    Edits (distance source target) source target := by
  induction source, target using distance.induct with
  | case1 target =>
    rw [distance]
    exact .ofNil target
  | case2 char source =>
    rw [distance]
    exact (Edits.ofNil (char :: source)).symm
  | case3 char source other target replacedEdits insertedEdits deletedEdits =>
    rw [distance]
    rcases Nat.le_total _ _ with replaced | notReplaced
    · rw [Nat.min_eq_left replaced]
      by_cases same : char = other
      · subst same
        rw [if_pos rfl]
        exact replacedEdits.cons char
      · rw [if_neg same]
        exact .more (.replace [] char other source) (replacedEdits.cons other)
    rw [Nat.min_eq_right notReplaced]
    rcases Nat.le_total _ _ with inserted | deleted
    · rw [Nat.min_eq_left inserted]
      exact insertedEdits.trans (.more (.insert [] other target) (.none _))
    · rw [Nat.min_eq_right deleted]
      exact .more (.delete [] char source) deletedEdits

theorem distance_cons_right_le (other : Char) :
    distance source (other :: target) ≤ distance source target + 1 := by
  cases source with
  | nil => simp [distance]
  | cons char source =>
    rw [distance]
    omega

theorem distance_cons_le (char : Char) :
    distance (char :: source) target ≤ distance source target + 1 := by
  cases target with
  | nil => simp [distance_nil_right]
  | cons other target =>
    rw [distance]
    omega

theorem distance_le_cons (char : Char) :
    distance source target ≤ distance (char :: source) target + 1 := by
  induction target with
  | nil =>
    rw [distance_nil_right, distance_nil_right, length_cons]
    omega
  | cons other target ih =>
    have longer := distance_cons_right_le source target other
    rw [distance.eq_3]
    omega

/-- Replacing the first character changes the distance by at most one. -/
theorem distance_replace_le (char replaced : Char) :
    distance (char :: source) target ≤ distance (replaced :: source) target + 1 := by
  induction target with
  | nil => simp [distance_nil_right]
  | cons other target ih =>
    rw [distance, distance]
    split <;> omega

end

/-- A common first character does not let distances grow apart. -/
theorem distance_common_le (close : ∀ target, distance first target ≤ distance second target + 1)
    (char : Char) (target : List Char) :
    distance (char :: first) target ≤ distance (char :: second) target + 1 := by
  induction target with
  | nil => simpa [distance_nil_right] using close []
  | cons other target ih =>
    have shorter := close target
    have same := close (other :: target)
    rw [distance, distance]
    omega

/-- One edit changes the distance to any text by at most one. -/
theorem distance_le_of_edit (edit : Edit first second) (target : List Char) :
    distance first target ≤ distance second target + 1 := by
  have behind : ∀ (before : List Char) {old new : List Char},
      (∀ target, distance old target ≤ distance new target + 1) →
        ∀ target, distance (before ++ old) target ≤ distance (before ++ new) target + 1 := by
    intro before old new close
    induction before with
    | nil => exact close
    | cons char before ih => exact distance_common_le ih char
  cases edit with
  | insert before char after =>
    exact behind before (distance_le_cons after · char) target
  | delete before char after =>
    exact behind before (distance_cons_le after · char) target
  | replace before char other after =>
    exact behind before (distance_replace_le after · char other) target

theorem distance_le_of_edits (edits : Edits count first second) :
    distance first second ≤ count := by
  induction edits with
  | none text => exact Nat.le_of_eq (distance_self text)
  | @more _ _ _ third edit _ ih =>
    have step := distance_le_of_edit edit third
    omega

theorem distance_comm (first second : List Char) : distance first second = distance second first :=
  Nat.le_antisymm (distance_le_of_edits (edits_distance second first).symm)
    (distance_le_of_edits (edits_distance first second).symm)

theorem distance_reverse (first second : List Char) :
    distance first.reverse second.reverse = distance first second := by
  apply Nat.le_antisymm (distance_le_of_edits (edits_distance first second).reverse)
  simpa using distance_le_of_edits (edits_distance first.reverse second.reverse).reverse

/-- The recursion also holds at the ends of the texts. -/
theorem distance_snoc (source target : List Char) (char other : Char) :
    distance (source ++ [char]) (target ++ [other]) =
      min (distance source target + if char = other then 0 else 1)
        (min (distance (source ++ [char]) target + 1)
          (distance source (target ++ [other]) + 1)) := by
  rw [← distance_reverse source target, ← distance_reverse (source ++ [char]) target,
    ← distance_reverse source (target ++ [other]),
    ← distance_reverse (source ++ [char]) (target ++ [other])]
  simp only [reverse_append, reverse_singleton, singleton_append]
  rw [distance]

end Distance

section Rows

/-- The distances of a text to the beginnings of another one, from a beginning on. -/
def distances (done before : List Char) : List Char → List Nat
  | [] => [distance done before]
  | other :: target => distance done before :: distances done (before ++ [other]) target

theorem distances_eq_cons (done before target : List Char) :
    distances done before target = distance done before :: (distances done before target).tail := by
  cases target <;> rfl

theorem distances_nil (before target : List Char) :
    distances [] before target = List.range' before.length (target.length + 1) := by
  induction target generalizing before with
  | nil => simp [distances, distance]
  | cons other target ih =>
    rw [distances, ih, distance, length_append, length_cons, range'_succ]
    rfl

theorem getLast?_distances (done before target : List Char) :
    (distances done before target).getLast? = some (distance done (before ++ target)) := by
  induction target generalizing before with
  | nil => rw [distances, append_nil, getLast?_singleton]
  | cons other target ih =>
    rw [distances, getLast?_cons, ih, append_assoc]
    rfl

/-- The cells of a row are filled from left to right.  The cell above the last one filled
is the diagonal of the next one. -/
theorem rowCells_distances (done before target : List Char) (char : Char) :
    rowCells char (distance (done ++ [char]) before) (distance done before) target
        (distances done before target).tail =
      (distances (done ++ [char]) before target).tail := by
  induction target generalizing before with
  | nil => rfl
  | cons other target ih =>
    rw [distances, distances, tail_cons, tail_cons, distances_eq_cons done,
      distances_eq_cons (done ++ [char]), rowCells, ← distance_snoc, ih]

theorem nextRow_distances (done target : List Char) (char : Char) :
    nextRow target (distances done [] target) char =
      distances (done ++ [char]) [] target := by
  have first : distance done [] + 1 = distance (done ++ [char]) [] := by
    simp [distance_nil_right]
  rw [distances_eq_cons done, distances_eq_cons (done ++ [char]), nextRow, first,
    rowCells_distances]

/-- After each character of the first text the row holds the distances of the part read. -/
theorem foldl_nextRow (target done source : List Char) :
    source.foldl (nextRow target) (distances done [] target) =
      distances (done ++ source) [] target := by
  induction source generalizing done with
  | nil => rw [foldl_nil, append_nil]
  | cons char source ih =>
    rw [foldl_cons, nextRow_distances, ih, append_assoc]
    rfl

theorem editDistance_eq (source target : String) :
    editDistance source target = distance source.toList target.toList := by
  have start : List.range (target.toList.length + 1) = distances [] [] target.toList := by
    rw [distances_nil, range_eq_range']
    rfl
  rw [editDistance, start, foldl_nextRow, getLast?_distances]
  rfl

end Rows

theorem difference_le_iff (left right bound : Nat) :
    difference left right ≤ bound ↔ left ≤ right + bound ∧ right ≤ left + bound := by
  rw [difference]
  omega

theorem difference_length_le (source target : String) :
    difference source.length target.length ≤ editDistance source target := by
  have edits := edits_distance source.toList target.toList
  rw [difference_le_iff, editDistance_eq]
  exact ⟨edits.length_le, edits.symm.length_le⟩

/-- The distance computed row by row is that of the recursion, which is the least number
of edits.  So it is a metric, and it is at least the difference of the lengths. -/
theorem editDistance_isLeast (source target : String) :
    editDistance source target = distance source.toList target.toList ∧
      IsLeast {count | Edits count source.toList target.toList} (editDistance source target) ∧
      editDistance source target = editDistance target source ∧
      (editDistance source target = 0 ↔ source = target) ∧
      (∀ middle, editDistance source target ≤
        editDistance source middle + editDistance middle target) ∧
      difference source.length target.length ≤ editDistance source target := by
  have edits := edits_distance source.toList target.toList
  refine ⟨editDistance_eq source target, ?_, ?_, ?_, ?_, difference_length_le source target⟩
  · rw [editDistance_eq]
    exact ⟨edits, fun count => distance_le_of_edits⟩
  · rw [editDistance_eq, editDistance_eq, distance_comm]
  · rw [editDistance_eq]
    constructor
    · intro zero
      rw [zero] at edits
      generalize starts : source.toList = start, stops : target.toList = stop at edits
      cases edits
      exact String.toList_inj.1 (starts.trans stops.symm)
    · rintro rfl
      exact distance_self _
  · intro middle
    rw [editDistance_eq, editDistance_eq, editDistance_eq]
    exact distance_le_of_edits ((edits_distance _ middle.toList).trans (edits_distance _ _))

end Text
end PipeCheck
