import Mathlib.Data.List.Forall2
import PipeCheck.Proofs.Reading.Recognition

/-!
# The variables that written names denote

The occurrences of names in a written type are listed with the quantifiers above them,
as the places of variables in a tree are.  The two lists run in parallel: a name that is
bound denotes the variable of the innermost quantifier that lists it, and the other
occurrences of a name denote one variable that no quantifier of the text lists.  The main
statement is `Alloc.read_scopes`.
-/

namespace PipeCheck

open List

namespace Written

variable {lookup : String → TypeId} {written : Written} {tree : Tree}

/-- A name and the lists of the quantifiers above it, the innermost first. -/
structure Place where
  /-- The names listed by the quantifiers above. -/
  scopes : List (List String)
  /-- The name itself. -/
  name : String

/-- No quantifier above lists the name. -/
def Place.Unbound (place : Place) : Prop :=
  place.name ∉ place.scopes.flatten

instance (place : Place) : Decidable place.Unbound :=
  inferInstanceAs (Decidable (place.name ∉ place.scopes.flatten))

mutual

/-- The occurrences of names in a written type that itself stands under quantifiers. -/
def placesUnder (scopes : List (List String)) : Written → List Place
  | .primitive _ => []
  | .var name => [⟨scopes, name⟩]
  | .list element => element.placesUnder scopes
  | .tuple components => placesUnderAll scopes components
  | .function domain codomain => domain.placesUnder scopes ++ codomain.placesUnder scopes
  | .quantified names body => body.placesUnder (names :: scopes)

/-- The occurrences of names in several written types. -/
def placesUnderAll (scopes : List (List String)) : List Written → List Place
  | [] => []
  | written :: rest => written.placesUnder scopes ++ placesUnderAll scopes rest

end

/-- The occurrences of names in a written type, from left to right. -/
def places (written : Written) : List Place :=
  written.placesUnder []

/-- The unbound names of a written type in order of first appearance. -/
def unboundNames (written : Written) : List String :=
  ((written.places.filter (·.Unbound)).map Place.name).foldl addNew []

/-- The variable of the innermost quantifier that lists a name.  Where its list repeats
the name, it is the last variable of that name. -/
inductive BoundBy (name : String) (id : TypeId) : List (List String) → List (List TypeId) → Prop
  | here {names : List String} {ids : List TypeId} {earlier later : List (String × TypeId)}
      {scopes : List (List String)} {lists : List (List TypeId)} :
      names.zip ids = earlier ++ (name, id) :: later → name ∉ later.map Prod.fst →
      BoundBy name id (names :: scopes) (ids :: lists)
  | outer {names : List String} {ids : List TypeId} {scopes : List (List String)}
      {lists : List (List TypeId)} :
      name ∉ names → BoundBy name id scopes lists →
      BoundBy name id (names :: scopes) (ids :: lists)

/-- What an occurrence of a name denotes, given the variables of unbound names. -/
structure Place.Denotes (unboundVar : String → TypeId) (place : Place) (target : Tree.Place) :
    Prop where
  /-- Each quantifier lists a variable for each name. -/
  scopes : List.Forall₂ (fun names ids => names.length = ids.length) place.scopes target.scopes
  /-- A bound name denotes its quantifier's variable. -/
  bound : ¬place.Unbound → BoundBy place.name target.id place.scopes target.scopes
  /-- An unbound name denotes its variable. -/
  unbound : place.Unbound → target.id = unboundVar place.name

/-- What names stand for under several quantifiers, the innermost first. -/
def under : List (List String) → List (List TypeId) → (String → TypeId) → String → TypeId
  | names :: scopes, ids :: lists, lookup => bind names ids (under scopes lists lookup)
  | _, _, lookup => lookup

section Scopes

variable {lookup : String → TypeId} {name : String} {scopes : List (List String)}
  {lists : List (List TypeId)}
  (lengths : List.Forall₂ (fun names ids => names.length = ids.length) scopes lists)

include lengths

theorem under_of_notMem (notListed : name ∉ scopes.flatten) :
    under scopes lists lookup name = lookup name := by
  induction lengths with
  | nil => rfl
  | cons lengthEq _ ih =>
    rw [flatten_cons, mem_append, not_or] at notListed
    rw [under, bind_of_notMem lengthEq.symm notListed.1, ih notListed.2]

theorem boundBy_under (listed : name ∈ scopes.flatten) :
    BoundBy name (under scopes lists lookup name) scopes lists := by
  induction lengths with
  | nil => cases listed
  | @cons names ids scopes lists lengthEq _ ih =>
    rw [under]
    by_cases here : name ∈ names
    · obtain ⟨earlier, later, zipEq, last⟩ :=
        exists_zip_of_mem (under scopes lists lookup) lengthEq.symm here
      exact .here zipEq last
    · rw [flatten_cons, mem_append] at listed
      rw [bind_of_notMem lengthEq.symm here]
      exact .outer here (ih (listed.resolve_left here))

theorem denotes_under (name : String) :
    Place.Denotes lookup ⟨scopes, name⟩ ⟨lists, under scopes lists lookup name⟩ where
  scopes := lengths
  bound isBound := boundBy_under lengths (not_not.1 isBound)
  unbound isUnbound := under_of_notMem lengths isUnbound

end Scopes

/-- Names and variables stand at the same places. -/
theorem Means.forall₂_placesUnder (means : written.Means lookup tree)
    {scopes : List (List String)} {lists : List (List TypeId)} {unboundVar : String → TypeId}
    (lengths : List.Forall₂ (fun names ids => names.length = ids.length) scopes lists)
    (lookupEq : lookup = under scopes lists unboundVar) :
    List.Forall₂ (Place.Denotes unboundVar) (written.placesUnder scopes)
      (tree.placesUnder lists) := by
  induction means generalizing scopes lists with
  | primitive => exact .nil
  | @var lookup name =>
    rw [lookupEq]
    exact .cons (denotes_under lengths name) .nil
  | list _ ih => exact ih lengths lookupEq
  | noComponent => exact .nil
  | component _ _ firstIH restIH =>
    exact rel_append (firstIH lengths lookupEq) (restIH lengths lookupEq)
  | function _ _ domainIH codomainIH =>
    exact rel_append (domainIH lengths lookupEq) (codomainIH lengths lookupEq)
  | quantified lengthEq _ _ _ ih =>
    refine ih (.cons lengthEq.symm lengths) ?_
    rw [lookupEq]
    rfl

/-- The names at unbound places are the unbound names that the quantifiers above do not
list. -/
theorem Means.map_filter_placesUnder (means : written.Means lookup tree)
    (scopes : List (List String)) :
    ((written.placesUnder scopes).filter (·.Unbound)).map Place.name =
      written.unbound.filter (· ∉ scopes.flatten) := by
  induction means generalizing scopes with
  | primitive => rfl
  | @var lookup name =>
    by_cases listed : name ∈ scopes.flatten
    · simp [placesUnder, unbound, Place.Unbound, listed, -mem_flatten]
    · simp [placesUnder, unbound, Place.Unbound, listed, -mem_flatten]
  | list _ ih => exact ih scopes
  | noComponent => rfl
  | component _ _ firstIH restIH =>
    have rest := restIH scopes
    rw [placesUnder, unbound] at rest ⊢
    rw [placesUnderAll, unboundAll, filter_append, map_append, filter_append, firstIH, rest]
  | function _ _ domainIH codomainIH =>
    rw [placesUnder, unbound, filter_append, map_append, filter_append, domainIH, codomainIH]
  | quantified _ _ _ _ ih =>
    rw [placesUnder, unbound, ih, filter_filter]
    congr 1
    funext name
    simp [Bool.and_comm]

theorem Means.unboundNames_eq (means : written.Means lookup tree) :
    written.unboundNames = written.unbound.foldl addNew [] := by
  rw [unboundNames, places, means.map_filter_placesUnder]
  simp

end Written

/-- Variables that are generalised are quantified in addition. -/
theorem Tree.perm_flatten_lists_generalised (free : List TypeId) (tree : Tree) :
    (tree.generalised free).lists.flatten.Perm (tree.lists.flatten ++ free) := by
  unfold generalised
  split
  · next isEmpty => rw [List.isEmpty_iff.1 isEmpty, append_nil]
  · exact tree.perm_flatten_lists free

namespace Alloc

/-- In a type that has been read each variable is quantified, and none twice.  Every
occurrence of a name denotes the variable of the innermost quantifier that lists it or
else the unbound variable of that name.  The unbound variables are quantified in order of
first appearance, at the outermost level after those that are quantified there anyway. -/
theorem read_scopes {store last : Store} {text : String} {id : TypeId}
    (wellFormed : store.WellFormed) (runEq : (read text).run.run store = (.ok id, last)) :
    last.ClosedType id ∧ (∃ written : Written, written.IsText text) ∧
      ∀ written : Written, written.IsText text →
        ∃ (unboundVar : String → TypeId) (inner : Tree), written.Means unboundVar inner ∧
          List.Forall₂ (Written.Place.Denotes unboundVar) written.places inner.places ∧
          (inner.lists.flatten ++ written.unboundNames.map unboundVar).Nodup ∧
          last.tree id = inner.generalised (written.unboundNames.map unboundVar) := by
  obtain ⟨_, closed, _, nodup⟩ := (keeps_read wellFormed text).ensures id last runEq
  refine ⟨closed, exists_isText_of_read runEq, ?_⟩
  intro written isText
  obtain ⟨unboundVar, inner, means, _, treeEq⟩ :=
    (succeeds_read wellFormed isText).ensures id last runEq
  rw [← means.unboundNames_eq] at treeEq
  rw [treeEq, (Tree.perm_flatten_lists_generalised _ inner).nodup_iff] at nodup
  exact ⟨unboundVar, inner, means, means.forall₂_placesUnder .nil rfl, nodup, treeEq⟩

/-- The name `a` is listed twice, and `b` is bound at one of its three places only. -/
def shadowing : String :=
  "forall 'a, 'a. ('a, 'b, forall 'b. 'b -> 'a) -> 'c -> 'b"

/-- So `'a` denotes the second variable of the list, and the other two `'b` denote one
variable, which is quantified with it and before that of `'c`. -/
theorem read_scopes_shadowing :
    ∃ last, (read shadowing).run.run Store.empty = (.ok 11, last) ∧
      last.shapes = #[.var 0, .var 1, .var 2, .var 3, .function 3 1, .quantified [3] 4,
        .tuple [1, 2, 5], .var 4, .function 7 2, .function 6 8, .quantified [0, 1] 9,
        .quantified [0, 1, 2, 7] 9] ∧
      last.ClosedType 11 ∧
      ∃ (written : Written) (unboundVar : String → TypeId) (inner : Tree),
        List.Forall₂ (Written.Place.Denotes unboundVar) written.places inner.places ∧
        last.tree 11 = inner.generalised (written.unboundNames.map unboundVar) := by
  have outcome : ((read shadowing).run.run Store.empty).1 = .ok 11 := by decide +kernel
  have shapes : ((read shadowing).run.run Store.empty).2.shapes =
      #[.var 0, .var 1, .var 2, .var 3, .function 3 1, .quantified [3] 4, .tuple [1, 2, 5],
        .var 4, .function 7 2, .function 6 8, .quantified [0, 1] 9,
        .quantified [0, 1, 2, 7] 9] := by decide +kernel
  rcases runEq : (read shadowing).run.run Store.empty with ⟨result, last⟩
  rw [runEq] at outcome shapes
  obtain rfl : result = .ok 11 := outcome
  obtain ⟨closed, ⟨written, isText⟩, scopes⟩ := read_scopes Store.wellFormed_empty runEq
  obtain ⟨unboundVar, inner, _, denotes, _, treeEq⟩ := scopes written isText
  exact ⟨last, rfl, shapes, closed, written, unboundVar, inner, denotes, treeEq⟩

end Alloc
end PipeCheck
