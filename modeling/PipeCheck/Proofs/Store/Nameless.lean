import PipeCheck.Proofs.Store.Places

/-!
# Trees without names of bound variables

In a nameless tree a bound variable is given by the number of quantifiers
between it and its own, and by its position in the list of that quantifier.
Trees with the same nameless form differ in the names of bound variables only.

Nameless trees can be put for variables without capture.  Replacement by name
gives the same up to the names of bound variables exactly when it captures
nothing.
-/

namespace PipeCheck

open List

/-- A tree in which bound variables have no names. -/
inductive Nameless where
  | primitive (which : Primitive)
  | function (domain codomain : Nameless)
  | list (element : Nameless)
  | tuple (components : List Nameless)
  | free (id : TypeId)
  /-- A variable of an enclosing quantifier, the innermost having depth
  zero. -/
  | bound (depth position : Nat)
  | quantified (count : Nat) (body : Nameless)

namespace Nameless

mutual

/-- Forgets which variables are meant by those that are free or bound further
out than a number of quantifiers. -/
def blank (inner : Nat) : Nameless → Nameless
  | .primitive which => .primitive which
  | .function domain codomain => .function (domain.blank inner) (codomain.blank inner)
  | .list element => .list (element.blank inner)
  | .tuple components => .tuple (blankAll inner components)
  | .free _ => .free 0
  | .bound depth position => if depth < inner then .bound depth position else .free 0
  | .quantified count body => .quantified count (body.blank (inner + 1))

/-- Forgets variables in several trees. -/
def blankAll (inner : Nat) : List Nameless → List Nameless
  | [] => []
  | tree :: rest => tree.blank inner :: blankAll inner rest

end

@[simp] theorem blankAll_eq_map (inner : Nat) (trees : List Nameless) :
    blankAll inner trees = trees.map (blank inner) := by
  induction trees with
  | nil => rfl
  | cons tree rest ih =>
    simp [blankAll, ih]

mutual

/-- The number of quantifiers in a tree. -/
def quantifiers : Nameless → Nat
  | .primitive _ => 0
  | .function domain codomain => domain.quantifiers + codomain.quantifiers
  | .list element => element.quantifiers
  | .tuple components => quantifiersAll components
  | .free _ => 0
  | .bound _ _ => 0
  | .quantified _ body => body.quantifiers + 1

/-- The number of quantifiers in several trees. -/
def quantifiersAll : List Nameless → Nat
  | [] => 0
  | tree :: rest => tree.quantifiers + quantifiersAll rest

end

theorem quantifiersAll_map_congr {trees : List Tree} {first second : Tree → Nameless}
    (same : ∀ tree ∈ trees, (first tree).quantifiers = (second tree).quantifiers) :
    quantifiersAll (trees.map first) = quantifiersAll (trees.map second) := by
  induction trees with
  | nil => rfl
  | cons tree rest ih =>
    rw [map_cons, map_cons, quantifiersAll, quantifiersAll, same tree (by simp),
      ih (forall_mem_of_forall_mem_cons same)]

end Nameless

namespace Tree

/-- How far out a variable is bound, and at which position. -/
def binderAt? : List (List TypeId) → TypeId → Option (Nat × Nat)
  | [], _ => none
  | scope :: outer, id =>
    if id ∈ scope then some (0, scope.idxOf id)
    else (binderAt? outer id).map fun (depth, position) => (depth + 1, position)

section Binders

variable {scopes inner outer : List (List TypeId)} {id : TypeId}

theorem binderAt?_eq_none_iff : binderAt? scopes id = none ↔ id ∉ scopes.flatten := by
  induction scopes with
  | nil => simp [binderAt?]
  | cons scope outer ih =>
    by_cases listed : id ∈ scope
    · simp [binderAt?, listed]
    · simp [binderAt?, listed, ih]

theorem binderAt?_append_of_mem (listed : id ∈ inner.flatten) :
    binderAt? (inner ++ outer) id = binderAt? inner id := by
  induction inner with
  | nil => simp at listed
  | cons scope rest ih =>
    by_cases inScope : id ∈ scope
    · simp [binderAt?, inScope]
    · have inRest : id ∈ rest.flatten := by simpa [inScope] using listed
      simp [binderAt?, inScope, ih inRest]

theorem binderAt?_append_of_notMem (unlisted : id ∉ inner.flatten) :
    binderAt? (inner ++ outer) id =
      (binderAt? outer id).map fun (depth, position) => (inner.length + depth, position) := by
  induction inner with
  | nil => simp
  | cons scope rest ih =>
    simp only [flatten_cons, mem_append, not_or] at unlisted
    rw [cons_append, binderAt?, if_neg unlisted.1, ih unlisted.2, Option.map_map]
    congr 1
    funext ⟨depth, position⟩
    simp only [Function.comp_apply, length_cons, Prod.mk.injEq, and_true]
    omega

theorem depth_lt_of_binderAt? {depth position : Nat}
    (found : binderAt? scopes id = some (depth, position)) :
    depth < scopes.length := by
  induction scopes generalizing depth with
  | nil => cases found
  | cons scope outer ih =>
    rw [binderAt?] at found
    split at found
    · cases found
      exact Nat.succ_pos _
    · obtain ⟨⟨outerDepth, outerPos⟩, outerFound, same⟩ := Option.map_eq_some_iff.1 found
      cases same
      exact Nat.succ_lt_succ (ih outerFound)

end Binders

namespace Place

/-- A variable without its name if it is bound, and otherwise a given tree. -/
def read (place : Place) (free : TypeId → Nameless) : Nameless :=
  match binderAt? place.scopes place.id with
  | some (depth, position) => .bound depth position
  | none => free place.id

/-- The same place in a tree that stands under further quantifiers. -/
def under (outer : List (List TypeId)) (place : Place) : Place :=
  ⟨place.scopes ++ outer, place.id⟩

variable {place : Place}

theorem read_of_free (isFree : place.Free) (free : TypeId → Nameless) :
    place.read free = free place.id := by
  rw [read, binderAt?_eq_none_iff.2 isFree]

/-- What stands for free variables is not read at a bound one. -/
theorem read_of_bound (bound : ¬place.Free) (free other : TypeId → Nameless) :
    place.read free = place.read other := by
  unfold read
  cases found : binderAt? place.scopes place.id with
  | none => exact absurd (binderAt?_eq_none_iff.1 found) bound
  | some binder => rfl

/-- A bound variable stays bound by its quantifier. -/
theorem read_under_of_bound (bound : ¬place.Free) (outer : List (List TypeId))
    (free : TypeId → Nameless) :
    (place.under outer).read free = place.read free := by
  simp only [read, under, binderAt?_append_of_mem (not_not.1 bound)]

/-- A free variable may be bound by a quantifier further out. -/
theorem exists_read_under_eq_bound (isFree : place.Free) {outer : List (List TypeId)}
    (listed : place.id ∈ outer.flatten) :
    ∃ depth position, place.scopes.length ≤ depth ∧ depth < place.scopes.length + outer.length ∧
      ∀ free, (place.under outer).read free = .bound depth position := by
  cases found : binderAt? outer place.id with
  | none => exact absurd listed (binderAt?_eq_none_iff.1 found)
  | some binder =>
    have below := depth_lt_of_binderAt? found
    refine ⟨place.scopes.length + binder.1, binder.2, by omega, by omega, ?_⟩
    intro free
    simp only [read, under, binderAt?_append_of_notMem isFree, found, Option.map_some]

theorem free_under_iff {outer : List (List TypeId)} :
    (place.under outer).Free ↔ place.Free ∧ place.id ∉ outer.flatten := by
  simp [Free, under]

end Place

mutual

/-- A nameless tree with something read at each place of a variable. -/
def resolve (read : Place → Nameless) (scopes : List (List TypeId)) : Tree → Nameless
  | .primitive which => .primitive which
  | .function domain codomain =>
    .function (domain.resolve read scopes) (codomain.resolve read scopes)
  | .list element => .list (element.resolve read scopes)
  | .tuple components => .tuple (resolveAll read scopes components)
  | .var id => read ⟨scopes, id⟩
  | .quantified binders body => .quantified binders.length (body.resolve read (binders :: scopes))

/-- Several nameless trees with something read at each place of a variable. -/
def resolveAll (read : Place → Nameless) (scopes : List (List TypeId)) :
    List Tree → List Nameless
  | [] => []
  | tree :: rest => tree.resolve read scopes :: resolveAll read scopes rest

end

@[simp] theorem resolveAll_eq_map (read : Place → Nameless) (scopes : List (List TypeId))
    (trees : List Tree) :
    resolveAll read scopes trees = trees.map (resolve read scopes) := by
  induction trees with
  | nil => rfl
  | cons tree rest ih =>
    simp [resolveAll, ih]

section Resolving

variable {tree : Tree} {first second : Place → Nameless} {scopes : List (List TypeId)}

/-- What is read at the places determines the nameless tree and is determined by
it. -/
theorem resolve_eq_iff :
    tree.resolve first scopes = tree.resolve second scopes ↔
      ∀ place ∈ tree.placesUnder scopes, first place = second place := by
  induction tree generalizing scopes with
  | primitive which => simp [resolve, placesUnder]
  | function domain codomain domainIH codomainIH =>
    simp only [resolve, placesUnder, Nameless.function.injEq, forall_mem_append,
      domainIH, codomainIH]
  | list element elementIH =>
    simp only [resolve, placesUnder, Nameless.list.injEq, elementIH]
  | tuple parts partIH =>
    simp only [resolve, resolveAll_eq_map, placesUnder, placesUnderAll_eq_flatMap,
      Nameless.tuple.injEq, map_inj_left, forall_mem_flatMap]
    exact forall₂_congr fun part mem => partIH part mem
  | var id => simp [resolve, placesUnder]
  | quantified binders body bodyIH =>
    simp only [resolve, placesUnder, Nameless.quantified.injEq, true_and, bodyIH]

theorem resolve_append (tree : Tree) (read : Place → Nameless) (inner outer : List (List TypeId)) :
    tree.resolve read (inner ++ outer) =
      tree.resolve (fun place => read (place.under outer)) inner := by
  induction tree generalizing inner with
  | primitive which => rfl
  | function domain codomain domainIH codomainIH =>
    simp only [resolve, domainIH, codomainIH]
  | list element elementIH => simp only [resolve, elementIH]
  | tuple parts partIH =>
    simp only [resolve, resolveAll_eq_map, Nameless.tuple.injEq]
    apply map_congr_left
    intro part mem
    exact partIH part mem inner
  | var id => rfl
  | quantified binders body bodyIH =>
    simp only [resolve, Nameless.quantified.injEq, true_and]
    exact bodyIH (binders :: inner)

/-- Places in a replaced tree are places in the trees put for free variables, or
of bound variables. -/
theorem resolve_replace (tree : Tree) (read : Place → Nameless)
    (scopes : List (List TypeId)) (assign : TypeId → Tree) :
    (tree.replace (shadow scopes.flatten assign)).resolve read scopes =
      tree.resolve (fun place =>
        if place.Free then (assign place.id).resolve read place.scopes else read place)
        scopes := by
  induction tree generalizing scopes with
  | primitive which => rfl
  | function domain codomain domainIH codomainIH =>
    simp only [replace, resolve, domainIH, codomainIH]
  | list element elementIH => simp only [replace, resolve, elementIH]
  | tuple parts partIH =>
    simp only [replace, replaceAll_eq_map, resolve, resolveAll_eq_map, map_map,
      Nameless.tuple.injEq]
    apply map_congr_left
    intro part mem
    exact partIH part mem scopes
  | var id =>
    rw [replace, resolve]
    by_cases isFree : Place.Free ⟨scopes, id⟩
    · rw [shadow_of_notMem isFree, if_pos isFree]
    · rw [shadow_of_mem (not_not.1 isFree), if_neg isFree, resolve]
  | quantified binders body bodyIH =>
    simp only [replace, resolve, shadow_shadow, Nameless.quantified.injEq, true_and]
    exact bodyIH (binders :: scopes)

theorem blank_resolve (tree : Tree) (read : Place → Nameless) (scopes : List (List TypeId))
    (outer : Nat) :
    (tree.resolve read scopes).blank (outer + scopes.length) =
      tree.resolve (fun place => (read place).blank (outer + place.scopes.length)) scopes := by
  induction tree generalizing scopes with
  | primitive which => rfl
  | function domain codomain domainIH codomainIH =>
    simp only [resolve, Nameless.blank, domainIH, codomainIH]
  | list element elementIH =>
    simp only [resolve, Nameless.blank, elementIH]
  | tuple parts partIH =>
    simp only [resolve, resolveAll_eq_map, Nameless.blank, Nameless.blankAll_eq_map,
      map_map, Nameless.tuple.injEq]
    apply map_congr_left
    intro part mem
    exact partIH part mem scopes
  | var id => rfl
  | quantified binders body bodyIH =>
    simp only [resolve, Nameless.blank, Nameless.quantified.injEq, true_and]
    exact bodyIH (binders :: scopes)

theorem blank_resolve_nil (tree : Tree) (read : Place → Nameless) (outer : Nat) :
    (tree.resolve read []).blank outer =
      tree.resolve (fun place => (read place).blank (outer + place.scopes.length)) [] :=
  tree.blank_resolve read [] outer

theorem quantifiers_resolve
    (same : ∀ place, (first place).quantifiers = (second place).quantifiers) :
    (tree.resolve first scopes).quantifiers = (tree.resolve second scopes).quantifiers := by
  induction tree generalizing scopes with
  | primitive which => rfl
  | function domain codomain domainIH codomainIH =>
    simp only [resolve, Nameless.quantifiers, domainIH, codomainIH]
  | list element elementIH =>
    simp only [resolve, Nameless.quantifiers, elementIH]
  | tuple parts partIH =>
    simp only [resolve, resolveAll_eq_map, Nameless.quantifiers]
    apply Nameless.quantifiersAll_map_congr
    intro part mem
    exact partIH part mem
  | var id => exact same ⟨scopes, id⟩
  | quantified binders body bodyIH =>
    simp only [resolve, Nameless.quantifiers, bodyIH]

end Resolving

/-- The nameless form of a tree that stands under quantifiers. -/
def namelessUnder (scopes : List (List TypeId)) (tree : Tree) : Nameless :=
  tree.resolve (fun place => place.read .free) scopes

/-- The nameless form of a tree. -/
def nameless (tree : Tree) : Nameless :=
  tree.namelessUnder []

/-- Trees that differ in the names of bound variables only. -/
def AlphaEq (first second : Tree) : Prop :=
  first.nameless = second.nameless

/-- A tree with trees put for its free variables, without capture. -/
def instantiate (assignment : TypeId → Tree) (tree : Tree) : Nameless :=
  tree.resolve (fun place => place.read fun id => (assignment id).nameless) []

/-- Up to the names of bound variables a tree is an instance of another. -/
def IsInstance (assignment : TypeId → Tree) (tree image : Tree) : Prop :=
  image.nameless = tree.instantiate assignment

section Capture

variable {tree : Tree} {assign : TypeId → Tree}

/-- Quantifiers further out are seen at the places of free variables. -/
theorem namelessUnder_eq_resolve (tree : Tree) (scopes : List (List TypeId)) :
    tree.namelessUnder scopes =
      tree.resolve (fun place => (place.under scopes).read .free) [] :=
  tree.resolve_append _ [] scopes

theorem namelessUnder_eq_nameless {scopes : List (List TypeId)}
    (apart : ∀ leaf ∈ tree.occurrences, leaf ∉ scopes.flatten) :
    tree.namelessUnder scopes = tree.nameless := by
  rw [namelessUnder_eq_resolve, nameless, namelessUnder, resolve_eq_iff]
  intro place mem
  by_cases isFree : place.Free
  · have unlisted := apart place.id (mem_occurrences_of_mem_places mem isFree)
    rw [Place.read_of_free isFree, Place.read_of_free (Place.free_under_iff.2 ⟨isFree, unlisted⟩)]
    rfl
  · rw [Place.read_under_of_bound isFree]

/-- If quantifiers further out make no difference to what is bound inside, they
bind nothing. -/
theorem notMem_flatten_of_blank_eq {scopes : List (List TypeId)}
    (equal : (tree.namelessUnder scopes).blank scopes.length = tree.nameless.blank scopes.length) :
    ∀ leaf ∈ tree.occurrences, leaf ∉ scopes.flatten := by
  intro leaf occurs listed
  obtain ⟨place, mem, isFree, rfl⟩ := exists_mem_places occurs
  rw [namelessUnder_eq_resolve, nameless, namelessUnder, blank_resolve_nil, blank_resolve_nil,
    resolve_eq_iff] at equal
  have atPlace := equal place mem
  obtain ⟨depth, position, _, below, readEq⟩ := Place.exists_read_under_eq_bound isFree listed
  rw [readEq, Place.read_of_free isFree, Nameless.blank, Nameless.blank,
    if_pos (by omega)] at atPlace
  cases atPlace

/-- A quantifier around a tree makes no difference inside. -/
theorem blank_namelessUnder (tree : Tree) (scopes : List (List TypeId)) :
    (tree.namelessUnder scopes).blank 0 = tree.nameless.blank 0 := by
  rw [namelessUnder_eq_resolve, nameless, namelessUnder, blank_resolve_nil, blank_resolve_nil,
    resolve_eq_iff]
  intro place mem
  by_cases isFree : place.Free
  · rw [Place.read_of_free isFree]
    by_cases listed : place.id ∈ scopes.flatten
    · obtain ⟨depth, position, above, _, readEq⟩ := Place.exists_read_under_eq_bound isFree listed
      rw [readEq, Nameless.blank, Nameless.blank, if_neg (by omega)]
    · rw [Place.read_of_free (Place.free_under_iff.2 ⟨isFree, listed⟩)]
      rfl
  · rw [Place.read_under_of_bound isFree]

theorem nameless_replace (tree : Tree) (assign : TypeId → Tree) :
    (tree.replace assign).nameless =
      tree.resolve (fun place =>
        if place.Free then (assign place.id).namelessUnder place.scopes
        else place.read .free) [] := by
  have replaced := tree.resolve_replace (fun place => place.read .free) [] assign
  rwa [flatten_nil, shadow_nil] at replaced

theorem not_captures_of_blank_eq
    (equal : (tree.replace assign).nameless.blank 0 = (tree.instantiate assign).blank 0)
    (leaf : TypeId) :
    ¬tree.Captures assign leaf := by
  rintro ⟨place, mem, isFree, occurs, listed⟩
  rw [nameless_replace, instantiate, blank_resolve_nil, blank_resolve_nil, resolve_eq_iff] at equal
  have atPlace := equal place mem
  rw [if_pos isFree, Place.read_of_free isFree, Nat.zero_add] at atPlace
  exact notMem_flatten_of_blank_eq atPlace leaf occurs listed

/-- Replacement by name is right exactly when it captures nothing. -/
theorem isInstance_replace_iff :
    IsInstance assign tree (tree.replace assign) ↔
      ∀ leaf, ¬tree.Captures assign leaf := by
  constructor
  · intro isInstance
    exact not_captures_of_blank_eq (congrArg (Nameless.blank 0) isInstance)
  · intro clear
    rw [IsInstance, nameless_replace, instantiate, resolve_eq_iff]
    intro place mem
    by_cases isFree : place.Free
    · rw [if_pos isFree, Place.read_of_free isFree]
      apply namelessUnder_eq_nameless
      intro leaf occurs listed
      exact clear leaf ⟨place, mem, isFree, occurs, listed⟩
    · rw [if_neg isFree, Place.read_of_bound isFree]

/-- Only the nameless forms of the trees put for free variables matter. -/
theorem instantiate_congr {first second : TypeId → Tree}
    (agree : ∀ id ∈ tree.occurrences, (first id).nameless = (second id).nameless) :
    tree.instantiate first = tree.instantiate second := by
  rw [instantiate, instantiate, resolve_eq_iff]
  intro place mem
  by_cases isFree : place.Free
  · rw [Place.read_of_free isFree, Place.read_of_free isFree]
    exact agree place.id (mem_occurrences_of_mem_places mem isFree)
  · exact Place.read_of_bound isFree _ _

/-- Renaming that captures nothing only passes an assignment on. -/
theorem instantiate_replace_var {name : TypeId → TypeId}
    (clear : ∀ leaf, ¬tree.Captures (fun id => .var (name id)) leaf) :
    (tree.replace fun id => .var (name id)).instantiate assign =
      tree.instantiate fun id => assign (name id) := by
  have replaced := tree.resolve_replace
    (fun place => place.read fun id => (assign id).nameless) [] fun id => .var (name id)
  rw [flatten_nil, shadow_nil] at replaced
  rw [instantiate, instantiate, replaced, resolve_eq_iff]
  intro place mem
  by_cases isFree : place.Free
  · have newFree : Place.Free ⟨place.scopes, name place.id⟩ := fun listed =>
      clear (name place.id) ⟨place, mem, isFree, by simp [occurrences], listed⟩
    rw [if_pos isFree, resolve, Place.read_of_free newFree, Place.read_of_free isFree]
  · rw [if_neg isFree, Place.read_of_bound isFree]

/-- The names of variables and what quantifiers bind do not change how many
quantifiers there are. -/
theorem quantifiers_namelessUnder (tree : Tree) (scopes : List (List TypeId)) :
    (tree.namelessUnder scopes).quantifiers = tree.nameless.quantifiers := by
  have leaf : ∀ place : Place, (place.read .free).quantifiers = 0 := by
    intro place
    unfold Place.read
    split <;> rfl
  rw [namelessUnder_eq_resolve]
  exact quantifiers_resolve fun place => (leaf (place.under scopes)).trans (leaf place).symm

theorem quantifiers_nameless_replace (tree : Tree) (assign : TypeId → Tree) :
    (tree.replace assign).nameless.quantifiers =
      (tree.instantiate assign).quantifiers := by
  rw [nameless_replace]
  apply quantifiers_resolve
  intro place
  by_cases isFree : place.Free
  · rw [if_pos isFree, Place.read_of_free isFree, quantifiers_namelessUnder]
  · rw [if_neg isFree, Place.read_of_bound isFree]

/-- A tree replaced by name is an instance up to the names of bound variables
only if nothing was captured, whatever is quantified outside. -/
theorem not_captures_of_alphaEq {image : Tree} (isInstance : IsInstance assign tree image)
    {kept others : List TypeId} (same : AlphaEq ((tree.replace assign).quantifiedOver kept)
      (image.quantifiedOver others)) (leaf : TypeId) :
    ¬tree.Captures assign leaf := by
  refine not_captures_of_blank_eq ?_ leaf
  have sameCount := quantifiers_nameless_replace tree assign
  rw [← isInstance] at sameCount ⊢
  have quantified : ∀ (binders : List TypeId) (body : Tree),
      (Tree.quantified binders body).nameless =
        .quantified binders.length (body.namelessUnder [binders]) := fun _ _ => rfl
  unfold AlphaEq quantifiedOver at same
  split at same
  · split at same
    · rw [same]
    -- A tree does not have one quantifier more than itself.
    · rw [same, quantified, Nameless.quantifiers, quantifiers_namelessUnder] at sameCount
      exact absurd sameCount (Nat.succ_ne_self _)
  · split at same
    · rw [← same, quantified, Nameless.quantifiers, quantifiers_namelessUnder] at sameCount
      exact absurd sameCount.symm (Nat.succ_ne_self _)
    · rw [quantified, quantified, Nameless.quantified.injEq] at same
      rw [← blank_namelessUnder _ [kept], same.2, blank_namelessUnder]

end Capture

end Tree
end PipeCheck
