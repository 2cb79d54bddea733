import PipeCheck.Proofs.Store.Tree

/-!
# Places of variables

The places at which variables stand in a tree, each with the quantifiers above
it.  A variable that is put under a quantifier which lists it is captured.
Where nothing is captured, two replacements are one.
-/

namespace PipeCheck

open List

namespace Tree

variable {tree : Tree} {scopes : List (List TypeId)} {place : Place}

/-- A variable and the lists of the quantifiers above it, the innermost
first. -/
structure Place where
  /-- The variables listed by the quantifiers above. -/
  scopes : List (List TypeId)
  /-- The variable itself. -/
  id : TypeId

/-- No quantifier above lists the variable. -/
def Place.Free (place : Place) : Prop :=
  place.id ∉ place.scopes.flatten

instance (place : Place) : Decidable place.Free :=
  inferInstanceAs (Decidable (place.id ∉ place.scopes.flatten))

mutual

/-- The places of the variables in a tree that itself stands under
quantifiers. -/
def placesUnder (scopes : List (List TypeId)) : Tree → List Place
  | .primitive _ => []
  | .function domain codomain => domain.placesUnder scopes ++ codomain.placesUnder scopes
  | .list element => element.placesUnder scopes
  | .tuple components => placesUnderAll scopes components
  | .var id => [⟨scopes, id⟩]
  | .quantified binders body => body.placesUnder (binders :: scopes)

/-- The places of the variables in several trees. -/
def placesUnderAll (scopes : List (List TypeId)) : List Tree → List Place
  | [] => []
  | tree :: rest => tree.placesUnder scopes ++ placesUnderAll scopes rest

end

@[simp] theorem placesUnderAll_eq_flatMap (scopes : List (List TypeId)) (trees : List Tree) :
    placesUnderAll scopes trees = trees.flatMap (placesUnder scopes) := by
  induction trees with
  | nil => rfl
  | cons tree rest ih =>
    simp [placesUnderAll, ih]

/-- The places of the variables in a tree. -/
def places (tree : Tree) : List Place :=
  tree.placesUnder []

/-- The quantifiers above the children of a tree. -/
def scopesBelow (scopes : List (List TypeId)) : Tree → List (List TypeId)
  | .quantified binders _ => binders :: scopes
  | _ => scopes

theorem flatten_scopesBelow (tree : Tree) (scopes : List (List TypeId)) :
    (tree.scopesBelow scopes).flatten = tree.binders ++ scopes.flatten := by
  cases tree <;> rfl

theorem scopesBelow_of_kind (notQuantified : tree.kind ≠ .quantified)
    (scopes : List (List TypeId)) :
    tree.scopesBelow scopes = scopes := by
  cases tree with
  | quantified binders body => exact absurd rfl notQuantified
  | _ => rfl

/-- A place is that of the tree itself or belongs to a child. -/
theorem mem_placesUnder_cases (mem : place ∈ tree.placesUnder scopes) :
    tree.kind = .var ∧ place.scopes = scopes ∨
      ∃ child ∈ tree.children, place ∈ child.placesUnder (tree.scopesBelow scopes) := by
  cases tree with
  | primitive which => simp [placesUnder] at mem
  | function domain codomain =>
    simpa [placesUnder, children, scopesBelow, kind] using mem
  | list element => exact .inr ⟨element, by simp [children], mem⟩
  | tuple parts =>
    rw [placesUnder, placesUnderAll_eq_flatMap, mem_flatMap] at mem
    exact .inr mem
  | var id =>
    rw [placesUnder, mem_singleton] at mem
    exact .inl ⟨rfl, by rw [mem]⟩
  | quantified binders body => exact .inr ⟨body, by simp [children], mem⟩

/-- The free occurrences are the variables at free places, in the same order. -/
theorem map_filter_placesUnder (tree : Tree) (scopes : List (List TypeId)) :
    ((tree.placesUnder scopes).filter (·.Free)).map Place.id =
      tree.occurrences.filter (· ∉ scopes.flatten) := by
  induction tree generalizing scopes with
  | primitive which => rfl
  | function domain codomain domainIH codomainIH =>
    rw [placesUnder, occurrences, filter_append, map_append, filter_append, domainIH, codomainIH]
  | list element elementIH => exact elementIH scopes
  | tuple parts partIH =>
    simp only [placesUnder, placesUnderAll_eq_flatMap, occurrences, occurrencesAll_eq_flatMap,
      filter_flatMap, map_flatMap]
    exact flatMap_congr fun part mem => partIH part mem scopes
  | var leaf =>
    by_cases listed : leaf ∈ scopes.flatten
    · simp [placesUnder, occurrences, Place.Free, listed, -mem_flatten]
    · simp [placesUnder, occurrences, Place.Free, listed, -mem_flatten]
  | quantified binders body bodyIH =>
    rw [placesUnder, occurrences, bodyIH, filter_filter]
    congr 1
    funext leaf
    simp [Bool.and_comm]

theorem exists_free_placesUnder_iff {id : TypeId} :
    (∃ place ∈ tree.placesUnder scopes, place.Free ∧ place.id = id) ↔
      id ∈ tree.occurrences ∧ id ∉ scopes.flatten := by
  have mem_iff := congrArg (id ∈ ·) (map_filter_placesUnder tree scopes)
  simpa [-mem_flatten, and_assoc] using mem_iff

theorem mem_occurrences_of_mem_places (mem : place ∈ tree.places) (isFree : place.Free) :
    place.id ∈ tree.occurrences :=
  (exists_free_placesUnder_iff.1 ⟨place, mem, isFree, rfl⟩).1

theorem exists_mem_places {id : TypeId} (occurs : id ∈ tree.occurrences) :
    ∃ place ∈ tree.places, place.Free ∧ place.id = id :=
  exists_free_placesUnder_iff.2 ⟨occurs, by simp⟩

/-- A variable of a tree that is put for a free variable gets bound by a
quantifier above it. -/
def Captures (tree : Tree) (assignment : TypeId → Tree) (leaf : TypeId) : Prop :=
  ∃ place ∈ tree.places, place.Free ∧ leaf ∈ (assignment place.id).occurrences ∧
    leaf ∈ place.scopes.flatten

instance (tree : Tree) (assignment : TypeId → Tree) (leaf : TypeId) :
    Decidable (tree.Captures assignment leaf) :=
  inferInstanceAs (Decidable (∃ place ∈ tree.places, place.Free ∧
    leaf ∈ (assignment place.id).occurrences ∧ leaf ∈ place.scopes.flatten))

theorem shadow_shadow (inner outer : List TypeId) (assign : TypeId → Tree) :
    shadow inner (shadow outer assign) = shadow (inner ++ outer) assign := by
  funext id
  by_cases inInner : id ∈ inner
  · simp [shadow, inInner]
  · simp [shadow, inInner]

@[simp] theorem shadow_nil (assign : TypeId → Tree) : shadow [] assign = assign := by
  funext id
  simp [shadow]

theorem replace_shadow_replace_shadow {first : TypeId → Tree}
    (clear : ∀ place ∈ tree.placesUnder scopes, place.Free →
      ∀ leaf ∈ (first place.id).occurrences, leaf ∉ place.scopes.flatten) (second : TypeId → Tree) :
    (tree.replace (shadow scopes.flatten first)).replace (shadow scopes.flatten second) =
      tree.replace (shadow scopes.flatten fun id => (first id).replace second) := by
  induction tree generalizing scopes with
  | primitive which => rfl
  | function domain codomain domainIH codomainIH =>
    simp only [placesUnder, mem_append] at clear
    simp only [replace]
    rw [domainIH fun place mem => clear place (.inl mem),
      codomainIH fun place mem => clear place (.inr mem)]
  | list element elementIH =>
    simp only [replace]
    rw [elementIH clear]
  | tuple parts partIH =>
    simp only [placesUnder, placesUnderAll_eq_flatMap, mem_flatMap] at clear
    simp only [replace, replaceAll_eq_map, map_map, tuple.injEq]
    apply map_congr_left
    intro part mem
    exact partIH part mem fun place inPart =>
      clear place ⟨part, mem, inPart⟩
  | var id =>
    simp only [replace]
    by_cases listed : id ∈ scopes.flatten
    · rw [shadow_of_mem listed, shadow_of_mem listed, replace, shadow_of_mem listed]
    · rw [shadow_of_notMem listed, shadow_of_notMem listed]
      apply replace_congr
      intro leaf occurs
      exact shadow_of_notMem (clear ⟨scopes, id⟩ (by simp [placesUnder]) listed leaf occurs) _
  | quantified binders body bodyIH =>
    simp only [replace, shadow_shadow, quantified.injEq, true_and]
    exact bodyIH clear

/-- Where nothing is captured, two replacements are one. -/
theorem replace_replace {first : TypeId → Tree} (clear : ∀ leaf, ¬tree.Captures first leaf)
    (second : TypeId → Tree) :
    (tree.replace first).replace second = tree.replace fun id => (first id).replace second := by
  have replaced := replace_shadow_replace_shadow
    (fun place (mem : place ∈ tree.places) isFree leaf occurs listed =>
      clear leaf ⟨place, mem, isFree, occurs, listed⟩) second
  simpa using replaced

theorem scopes_of_quantifierFree (free : tree.quantifierFree)
    (mem : place ∈ tree.placesUnder scopes) :
    place.scopes = scopes := by
  induction tree, free using inductionOnFree with
  | primitive which => simp [placesUnder] at mem
  | function domain codomain domainIH codomainIH =>
    rcases mem_append.1 mem with inDomain | inCodomain
    · exact domainIH inDomain
    · exact codomainIH inCodomain
  | list element elementIH => exact elementIH mem
  | tuple parts partIH =>
    rw [placesUnder, placesUnderAll_eq_flatMap, mem_flatMap] at mem
    obtain ⟨part, inside, inPart⟩ := mem
    exact partIH part inside inPart
  | var id => rw [mem_singleton.1 mem]

/-- Without quantifiers two replacements are one. -/
theorem replace_replace_of_quantifierFree (free : tree.quantifierFree)
    (first second : TypeId → Tree) :
    (tree.replace first).replace second = tree.replace fun id => (first id).replace second := by
  refine replace_replace ?_ second
  rintro leaf ⟨place, mem, _, _, listed⟩
  simp [scopes_of_quantifierFree free mem] at listed

end Tree
end PipeCheck
