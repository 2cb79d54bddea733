import Mathlib.Data.List.Basic
import PipeCheck.Types.View

/-!
# Trees of types

The free occurrences of variables in a tree, the replacement of variables by
trees, and the trees without quantifiers.  Replacement leaves alone the
variables that an enclosing quantifier lists, and it renames nothing: a
variable of a replacement may be caught by a quantifier around it.  Equality of
trees is decided by going down both.
-/

namespace PipeCheck

open List

namespace Tree

variable {tree child : Tree} {id : TypeId} {assign : TypeId → Tree}

/-- Induction over a tree, a tuple giving one hypothesis a component. -/
@[elab_as_elim, induction_eliminator]
theorem inductionOn {motive : Tree → Prop} (primitive : ∀ which, motive (.primitive which))
    (function : ∀ domain codomain,
      motive domain → motive codomain → motive (.function domain codomain))
    (list : ∀ element, motive element → motive (.list element))
    (tuple : ∀ parts, (∀ part ∈ parts, motive part) → motive (.tuple parts))
    (var : ∀ id, motive (.var id))
    (quantified : ∀ binders body, motive body → motive (.quantified binders body)) (tree : Tree) :
    motive tree :=
  @Tree.rec motive (fun parts => ∀ part ∈ parts, motive part) primitive function list tuple var
    quantified (by simp) (fun _ _ first rest => forall_mem_cons.2 ⟨first, rest⟩) tree

/-- The kind of a tree's root. -/
def kind : Tree → Kind
  | .primitive which => .primitive which
  | .function _ _ => .function
  | .list _ => .list
  | .tuple _ => .tuple
  | .var _ => .var
  | .quantified _ _ => .quantified

theorem exists_eq_function (isFunction : tree.kind = .function) :
    ∃ domain codomain, tree = .function domain codomain := by
  cases tree <;> cases isFunction
  exact ⟨_, _, rfl⟩

/-- The variables of an outermost quantifier. -/
def binders : Tree → List TypeId
  | .quantified binders _ => binders
  | _ => []

/-- The body of a quantified tree, and any other tree itself. -/
def body : Tree → Tree
  | .quantified _ body => body
  | tree => tree

/-- The trees directly below the root. -/
def children : Tree → List Tree
  | .primitive _ => []
  | .function domain codomain => [domain, codomain]
  | .list element => [element]
  | .tuple components => components
  | .var _ => []
  | .quantified _ body => [body]

mutual

/-- The free occurrences of variables, from left to right: those outside every
quantifier that lists the variable. -/
def occurrences : Tree → List TypeId
  | .primitive _ => []
  | .function domain codomain => domain.occurrences ++ codomain.occurrences
  | .list element => element.occurrences
  | .tuple components => occurrencesAll components
  | .var id => [id]
  | .quantified binders body => body.occurrences.filter fun id => !binders.contains id

/-- The free occurrences of variables in several trees. -/
def occurrencesAll : List Tree → List TypeId
  | [] => []
  | tree :: rest => tree.occurrences ++ occurrencesAll rest

end

@[simp] theorem occurrencesAll_eq_flatMap (trees : List Tree) :
    occurrencesAll trees = trees.flatMap occurrences := by
  induction trees with
  | nil => rfl
  | cons tree rest ih =>
    simp [occurrencesAll, ih]

/-- Outside quantifiers what occurs in a child occurs in the tree. -/
theorem mem_occurrences_of_mem_children (mem : child ∈ tree.children)
    (notQuantified : tree.kind ≠ .quantified) (occurs : id ∈ child.occurrences) :
    id ∈ tree.occurrences := by
  cases tree with
  | primitive which => simp [children] at mem
  | function domain codomain =>
    simp only [children, mem_cons, not_mem_nil, or_false] at mem
    rw [occurrences, mem_append]
    rcases mem with rfl | rfl
    · exact .inl occurs
    · exact .inr occurs
  | list element =>
    simp only [children, mem_singleton] at mem
    exact mem ▸ occurs
  | tuple parts =>
    rw [occurrences, occurrencesAll_eq_flatMap]
    exact mem_flatMap.2 ⟨child, mem, occurs⟩
  | var id => simp [children] at mem
  | quantified binders body => exact absurd rfl notQuantified

/-- A tree under a quantifier, or the tree itself when no variable is listed. -/
def quantifiedOver (binders : List TypeId) (tree : Tree) : Tree :=
  if binders.isEmpty then tree else .quantified binders tree

/-- A tree is closed when no variable occurs free in it. -/
def Closed (tree : Tree) : Prop :=
  tree.occurrences = []

/-- What occurs in the body is listed by the quantifier or occurs in the
tree. -/
theorem mem_binders_or_occurrences (occurs : id ∈ tree.body.occurrences) :
    id ∈ tree.binders ∨ id ∈ tree.occurrences := by
  cases tree with
  | quantified binders body =>
    by_cases listed : id ∈ binders
    · exact .inl listed
    · exact .inr (by simpa [Tree.body, occurrences, listed] using occurs)
  | _ => exact .inr occurs

theorem Closed.mem_binders (closed : tree.Closed) (occurs : id ∈ tree.body.occurrences) :
    id ∈ tree.binders := by
  refine (mem_binders_or_occurrences occurs).resolve_right ?_
  rw [closed]
  exact not_mem_nil

theorem closed_quantifiedOver_iff {binders : List TypeId} :
    (tree.quantifiedOver binders).Closed ↔ ∀ id ∈ tree.occurrences, id ∈ binders := by
  unfold quantifiedOver Closed
  split
  · next isEmpty =>
      rw [List.isEmpty_iff.1 isEmpty, eq_nil_iff_forall_not_mem]
      simp
  · rw [occurrences, filter_eq_nil_iff]
    simp

theorem closed_iff_forall_notMem :
    tree.Closed ↔ ∀ id, id ∉ tree.occurrences :=
  eq_nil_iff_forall_not_mem

/-- An assignment under a quantifier: the listed variables stand for
themselves. -/
def shadow (binders : List TypeId) (assignment : TypeId → Tree) : TypeId → Tree :=
  fun id => if id ∈ binders then .var id else assignment id

/-- An assignment of the listed variables only; all others stand for
themselves. -/
def restrict (binders : List TypeId) (assignment : TypeId → Tree) : TypeId → Tree :=
  fun id => if id ∈ binders then assignment id else .var id

theorem shadow_of_mem {binders : List TypeId} (mem : id ∈ binders) (assign : TypeId → Tree) :
    shadow binders assign id = .var id :=
  if_pos mem

theorem shadow_of_notMem {binders : List TypeId} (absent : id ∉ binders) (assign : TypeId → Tree) :
    shadow binders assign id = assign id :=
  if_neg absent

theorem restrict_of_mem {binders : List TypeId} (mem : id ∈ binders) (assign : TypeId → Tree) :
    restrict binders assign id = assign id :=
  if_pos mem

theorem restrict_of_notMem {binders : List TypeId} (absent : id ∉ binders)
    (assign : TypeId → Tree) :
    restrict binders assign id = .var id :=
  if_neg absent

@[simp] theorem shadow_var (binders : List TypeId) : shadow binders .var = .var := by
  funext id
  simp [shadow]

mutual

/-- Replaces every free occurrence of a variable by the tree assigned to it. -/
def replace (assignment : TypeId → Tree) : Tree → Tree
  | .primitive which => .primitive which
  | .function domain codomain =>
    .function (domain.replace assignment) (codomain.replace assignment)
  | .list element => .list (element.replace assignment)
  | .tuple components => .tuple (replaceAll assignment components)
  | .var id => assignment id
  | .quantified binders body =>
    .quantified binders (body.replace (shadow binders assignment))

/-- Replaces variables in several trees. -/
def replaceAll (assignment : TypeId → Tree) : List Tree → List Tree
  | [] => []
  | tree :: rest => tree.replace assignment :: replaceAll assignment rest

end

@[simp] theorem replaceAll_eq_map (assign : TypeId → Tree) (trees : List Tree) :
    replaceAll assign trees = trees.map (replace assign) := by
  induction trees with
  | nil => rfl
  | cons tree rest ih =>
    simp [replaceAll, ih]

theorem kind_replace (notVar : tree.kind ≠ .var) (assign : TypeId → Tree) :
    (tree.replace assign).kind = tree.kind := by
  cases tree with
  | var id => exact absurd rfl notVar
  | _ => rfl

mutual

/-- Whether a tree has no quantifier anywhere. -/
def quantifierFree : Tree → Bool
  | .primitive _ => true
  | .function domain codomain => domain.quantifierFree && codomain.quantifierFree
  | .list element => element.quantifierFree
  | .tuple components => quantifierFreeAll components
  | .var _ => true
  | .quantified _ _ => false

/-- Whether several trees have no quantifier anywhere. -/
def quantifierFreeAll : List Tree → Bool
  | [] => true
  | tree :: rest => tree.quantifierFree && quantifierFreeAll rest

end

@[simp] theorem quantifierFreeAll_eq_all (trees : List Tree) :
    quantifierFreeAll trees = trees.all quantifierFree := by
  induction trees with
  | nil => rfl
  | cons tree rest ih =>
    simp [quantifierFreeAll, ih]

/-- Induction over the trees without quantifiers. -/
@[elab_as_elim]
theorem inductionOnFree {motive : (tree : Tree) → tree.quantifierFree → Prop}
    (primitive : ∀ which, motive (.primitive which) rfl)
    (function : ∀ domain codomain {domainFree codomainFree}, motive domain domainFree →
      motive codomain codomainFree → ∀ {free}, motive (.function domain codomain) free)
    (list : ∀ element {free}, motive element free → motive (.list element) free)
    (tuple : ∀ parts {partFree : ∀ part ∈ parts, part.quantifierFree},
      (∀ part mem, motive part (partFree part mem)) → ∀ {free}, motive (.tuple parts) free)
    (var : ∀ id, motive (.var id) rfl) (tree : Tree) (free : tree.quantifierFree) :
    motive tree free := by
  induction tree with
  | primitive which => exact primitive which
  | function domain codomain domainIH codomainIH =>
    obtain ⟨domainFree, codomainFree⟩ := Bool.and_eq_true_iff.1 free
    exact function domain codomain (domainIH domainFree) (codomainIH codomainFree)
  | list element elementIH => exact list element (elementIH free)
  | tuple parts partIH =>
    have partFree : ∀ part ∈ parts, part.quantifierFree := by
      rwa [quantifierFree, quantifierFreeAll_eq_all, all_eq_true] at free
    exact tuple parts fun part mem =>
      partIH part mem (partFree part mem)
  | var id => exact var id
  | quantified binders body bodyIH => cases free

/-- Replacement reads an assignment only at the free variables. -/
theorem replace_congr {first second : TypeId → Tree}
    (agree : ∀ id ∈ tree.occurrences, first id = second id) :
    tree.replace first = tree.replace second := by
  induction tree generalizing first second with
  | primitive which => rfl
  | function domain codomain domainIH codomainIH =>
    simp only [occurrences, mem_append] at agree
    simp only [replace]
    rw [domainIH fun id mem => agree id (.inl mem), codomainIH fun id mem => agree id (.inr mem)]
  | list element elementIH =>
    simp only [replace]
    rw [elementIH agree]
  | tuple parts partIH =>
    simp only [occurrences, occurrencesAll_eq_flatMap, mem_flatMap] at agree
    simp only [replace, replaceAll_eq_map, tuple.injEq]
    apply map_congr_left
    intro part mem
    exact partIH part mem fun id occurs =>
      agree id ⟨part, mem, occurs⟩
  | var id => exact agree id (by simp [occurrences])
  | quantified binders body bodyIH =>
    simp only [replace, quantified.injEq, true_and]
    apply bodyIH
    intro id occurs
    by_cases listed : id ∈ binders
    · simp [shadow_of_mem listed]
    · rw [shadow_of_notMem listed, shadow_of_notMem listed]
      exact agree id (by simp [occurrences, occurs, listed])

@[simp] theorem replace_var (tree : Tree) : tree.replace .var = tree := by
  induction tree with
  | primitive which => rfl
  | function domain codomain domainIH codomainIH =>
    simp [replace, domainIH, codomainIH]
  | list element elementIH => simp [replace, elementIH]
  | tuple parts partIH =>
    simp only [replace, replaceAll_eq_map, tuple.injEq]
    exact (map_congr_left partIH).trans (map_id parts)
  | var id => rfl
  | quantified binders body bodyIH => simp [replace, bodyIH]

/-- Nothing changes when every free variable stands for itself. -/
theorem replace_eq_self (fixed : ∀ id ∈ tree.occurrences, assign id = .var id) :
    tree.replace assign = tree :=
  (replace_congr fixed).trans (replace_var tree)

/-- An assignment that leaves all other variables alone. -/
def AssignsOnly (bindable : List TypeId) (assignment : TypeId → Tree) : Prop :=
  ∀ ⦃id⦄, id ∉ bindable → assignment id = .var id

/-- A tree without the assigned variables stays as it is. -/
theorem AssignsOnly.replace_eq_self {bindable : List TypeId}
    (assignsOnly : AssignsOnly bindable assign) (apart : ∀ id ∈ tree.occurrences, id ∉ bindable) :
    tree.replace assign = tree :=
  Tree.replace_eq_self fun id occurs => assignsOnly (apart id occurs)

theorem AssignsOnly.replace_restrict {bindable listed : List TypeId}
    (assignsOnly : AssignsOnly bindable assign)
    (covers : ∀ id ∈ tree.occurrences, id ∈ bindable → id ∈ listed) :
    tree.replace (restrict listed assign) = tree.replace assign := by
  apply replace_congr
  intro id occurs
  by_cases present : id ∈ listed
  · exact restrict_of_mem present _
  · rw [restrict_of_notMem present, assignsOnly (mt (covers id occurs) present)]

/-- Every free variable of a replaced tree comes from a replacement. -/
theorem exists_mem_occurrences_of_replace (occurs : id ∈ (tree.replace assign).occurrences) :
    ∃ source ∈ tree.occurrences, id ∈ (assign source).occurrences := by
  induction tree generalizing assign with
  | primitive which => simp [replace, occurrences] at occurs
  | function domain codomain domainIH codomainIH =>
    simp only [replace, occurrences, mem_append] at occurs ⊢
    rcases occurs with inDomain | inCodomain
    · obtain ⟨source, mem, present⟩ := domainIH inDomain
      exact ⟨source, .inl mem, present⟩
    · obtain ⟨source, mem, present⟩ := codomainIH inCodomain
      exact ⟨source, .inr mem, present⟩
  | list element elementIH => exact elementIH occurs
  | tuple parts partIH =>
    simp only [replace, replaceAll_eq_map, occurrences, occurrencesAll_eq_flatMap,
      mem_flatMap, mem_map] at occurs ⊢
    obtain ⟨_, ⟨part, mem, rfl⟩, inPart⟩ := occurs
    obtain ⟨source, occursIn, present⟩ := partIH part mem inPart
    exact ⟨source, ⟨part, mem, occursIn⟩, present⟩
  | var leaf => exact ⟨leaf, by simp [occurrences], occurs⟩
  | quantified binders body bodyIH =>
    simp only [replace, occurrences, mem_filter, Bool.not_eq_true',
      contains_eq_mem, decide_eq_false_iff_not] at occurs ⊢
    obtain ⟨inBody, unlisted⟩ := occurs
    obtain ⟨source, mem, present⟩ := bodyIH inBody
    by_cases listed : source ∈ binders
    · rw [shadow_of_mem listed] at present
      simp only [occurrences, mem_singleton] at present
      exact absurd (present ▸ listed) unlisted
    · rw [shadow_of_notMem listed] at present
      exact ⟨source, ⟨mem, listed⟩, present⟩

/-- Outside quantifiers an instance of a child is smaller than that of the
tree. -/
theorem sizeOf_replace_lt_of_mem_children (mem : child ∈ tree.children)
    (notQuantified : tree.kind ≠ .quantified) (assign : TypeId → Tree) :
    sizeOf (child.replace assign) < sizeOf (tree.replace assign) := by
  cases tree with
  | primitive which => simp [children] at mem
  | function domain codomain =>
    simp only [children, mem_cons, not_mem_nil, or_false] at mem
    simp only [replace, function.sizeOf_spec]
    rcases mem with rfl | rfl <;> omega
  | list element =>
    simp only [children, mem_singleton] at mem
    simp only [replace, list.sizeOf_spec, mem]
    omega
  | tuple parts =>
    have smaller := sizeOf_lt_of_mem (mem_map_of_mem (f := replace assign) mem)
    simp only [replace, replaceAll_eq_map, tuple.sizeOf_spec]
    simp only [children] at smaller
    omega
  | var id => simp [children] at mem
  | quantified binders body => exact absurd rfl notQuantified

section QuantifierFree

variable {tree : Tree}

theorem quantifierFree_of_mem_children (free : tree.quantifierFree) (mem : child ∈ tree.children) :
    child.quantifierFree := by
  cases tree with
  | primitive which => simp [children] at mem
  | function domain codomain =>
    simp only [quantifierFree, Bool.and_eq_true] at free
    simp only [children, mem_cons, not_mem_nil, or_false] at mem
    rcases mem with rfl | rfl
    · exact free.1
    · exact free.2
  | list element =>
    simp only [children, mem_singleton] at mem
    exact mem ▸ free
  | tuple parts =>
    simp only [quantifierFree, quantifierFreeAll_eq_all, all_eq_true] at free
    exact free child mem
  | var id => simp [children] at mem
  | quantified binders body => simp [quantifierFree] at free

theorem body_of_kind_ne (notQuantified : tree.kind ≠ .quantified) : tree.body = tree := by
  cases tree with
  | quantified binders body => exact absurd rfl notQuantified
  | _ => rfl

section

variable (free : tree.quantifierFree)

include free

theorem body_of_quantifierFree : tree.body = tree := by
  cases tree with
  | quantified binders body => simp [quantifierFree] at free
  | _ => rfl

theorem binders_of_quantifierFree : tree.binders = [] := by
  cases tree with
  | quantified binders body => simp [quantifierFree] at free
  | _ => rfl

theorem body_quantifiedOver (binders : List TypeId) :
    (tree.quantifiedOver binders).body = tree := by
  unfold quantifiedOver
  split
  · exact body_of_quantifierFree free
  · rfl

theorem binders_quantifiedOver (binders : List TypeId) :
    (tree.quantifiedOver binders).binders = binders := by
  unfold quantifiedOver
  split
  · next isEmpty => rw [binders_of_quantifierFree free, List.isEmpty_iff.1 isEmpty]
  · rfl

theorem kind_ne_quantified : tree.kind ≠ .quantified := by
  cases tree with
  | quantified binders body => simp [quantifierFree] at free
  | _ => simp [kind]

/-- Without quantifiers nothing is caught: the free variables of a replaced
tree are those of the replacements. -/
theorem mem_occurrences_replace :
    id ∈ (tree.replace assign).occurrences ↔
      ∃ source ∈ tree.occurrences, id ∈ (assign source).occurrences := by
  refine ⟨exists_mem_occurrences_of_replace, ?_⟩
  rintro ⟨source, mem, present⟩
  induction tree, free using inductionOnFree with
  | primitive which => simp [occurrences] at mem
  | function domain codomain domainIH codomainIH =>
    simp only [replace, occurrences, mem_append] at mem ⊢
    rcases mem with inDomain | inCodomain
    · exact .inl (domainIH inDomain)
    · exact .inr (codomainIH inCodomain)
  | list element elementIH => exact elementIH mem
  | tuple parts partIH =>
    simp only [replace, replaceAll_eq_map, occurrences, occurrencesAll_eq_flatMap,
      mem_flatMap, mem_map] at mem ⊢
    obtain ⟨part, inside, inPart⟩ := mem
    exact ⟨part.replace assign, ⟨part, inside, rfl⟩, partIH part inside inPart⟩
  | var leaf =>
    simp only [occurrences, mem_singleton] at mem
    exact mem ▸ present

/-- Without quantifiers a replaced tree determines what its variables stand
for. -/
theorem eq_of_replace_eq {first second : TypeId → Tree}
    (equal : tree.replace first = tree.replace second) (occurs : id ∈ tree.occurrences) :
    first id = second id := by
  induction tree, free using inductionOnFree with
  | primitive which => simp [occurrences] at occurs
  | function domain codomain domainIH codomainIH =>
    simp only [replace, function.injEq] at equal
    rcases mem_append.1 occurs with inDomain | inCodomain
    · exact domainIH equal.1 inDomain
    · exact codomainIH equal.2 inCodomain
  | list element elementIH =>
    simp only [replace, list.injEq] at equal
    exact elementIH equal occurs
  | tuple parts partIH =>
    simp only [replace, replaceAll_eq_map, tuple.injEq] at equal
    simp only [occurrences, occurrencesAll_eq_flatMap, mem_flatMap] at occurs
    obtain ⟨part, mem, inPart⟩ := occurs
    exact partIH part mem (map_inj_left.1 equal part mem) inPart
  | var leaf =>
    rw [occurrences, mem_singleton] at occurs
    exact occurs ▸ equal

/-- Replacements without quantifiers bring none in. -/
theorem quantifierFree_replace (freeAssign : ∀ id ∈ tree.occurrences, (assign id).quantifierFree) :
    (tree.replace assign).quantifierFree := by
  induction tree, free using inductionOnFree with
  | primitive which => rfl
  | function domain codomain domainIH codomainIH =>
    simp only [occurrences, mem_append] at freeAssign
    simp only [replace, quantifierFree, Bool.and_eq_true]
    exact ⟨domainIH fun id mem => freeAssign id (.inl mem),
      codomainIH fun id mem => freeAssign id (.inr mem)⟩
  | list element elementIH => exact elementIH freeAssign
  | tuple parts partIH =>
    simp only [occurrences, occurrencesAll_eq_flatMap, mem_flatMap] at freeAssign
    simp only [replace, replaceAll_eq_map, quantifierFree, quantifierFreeAll_eq_all,
      all_map, all_eq_true, Function.comp_apply]
    intro part mem
    exact partIH part mem fun id occurs => freeAssign id ⟨part, mem, occurs⟩
  | var id => exact freeAssign id (by simp [occurrences])

end

end QuantifierFree

section Equality

mutual

/-- Whether two trees are equal. -/
def same : Tree → Tree → Bool
  | .primitive left, .primitive right => left = right
  | .function leftDomain leftCodomain, .function rightDomain rightCodomain =>
    leftDomain.same rightDomain && leftCodomain.same rightCodomain
  | .list left, .list right => left.same right
  | .tuple left, .tuple right => sameAll left right
  | .var left, .var right => left = right
  | .quantified leftBinders left, .quantified rightBinders right =>
    leftBinders = rightBinders && left.same right
  | _, _ => false

/-- Whether two lists of trees are equal. -/
def sameAll : List Tree → List Tree → Bool
  | [], [] => true
  | left :: leftRest, right :: rightRest => left.same right && sameAll leftRest rightRest
  | _, _ => false

end

theorem sameAll_iff {left right : List Tree}
    (each : ∀ tree ∈ left, ∀ other, tree.same other ↔ tree = other) :
    sameAll left right ↔ left = right := by
  induction left generalizing right with
  | nil => cases right <;> simp [sameAll]
  | cons tree rest ih =>
    cases right with
    | nil => simp [sameAll]
    | cons other others =>
      simp [sameAll, each tree mem_cons_self, ih (forall_mem_of_forall_mem_cons each)]

theorem same_iff (tree other : Tree) : tree.same other ↔ tree = other := by
  induction tree generalizing other with
  | primitive which => cases other <;> simp [same]
  | function domain codomain domainIH codomainIH =>
    cases other <;> simp [same, domainIH, codomainIH]
  | list element elementIH => cases other <;> simp [same, elementIH]
  | tuple parts partIH =>
    cases other <;> simp [same, sameAll_iff partIH]
  | var id => cases other <;> simp [same]
  | quantified binders body bodyIH => cases other <;> simp [same, bodyIH]

instance : DecidableEq Tree := fun tree other => decidable_of_iff _ (same_iff tree other)

end Equality

end Tree
end PipeCheck
