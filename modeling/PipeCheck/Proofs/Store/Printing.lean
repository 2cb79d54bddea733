import Mathlib.Data.List.Nodup
import Mathlib.Data.Set.Function
import PipeCheck.Proofs.Store.FreeVars
import PipeCheck.Proofs.Store.Nameless
import PipeCheck.Proofs.Store.Rendering

/-!
# Rendering with names given beforehand

Rendering gives out names as it meets variables.  A name once given stays, so
the text is that of the tree printed with the names given out at the end.  These
depend on the order of first appearance only, so trees that differ in the names
of bound variables have one text.
-/

namespace PipeCheck

open List Nameless

variable {final : List TypeId}

namespace Rendering

/-- The name of a variable, given all variables in the order they are met. -/
def nameIn (met : List TypeId) (id : TypeId) : String :=
  nameAt (met.idxOf id)

end Rendering

open Rendering

section Order

variable {met items : List TypeId} {id : TypeId}

theorem prefix_addNew : met <+: addNew met id := by
  unfold addNew
  split
  · exact prefix_rfl
  · exact prefix_append _ _

theorem prefix_foldl_addNew : met <+: items.foldl addNew met := by
  induction items generalizing met with
  | nil => exact prefix_rfl
  | cons first rest ih => exact prefix_addNew.trans ih

theorem mem_addNew : id ∈ addNew met id := by
  unfold addNew
  split
  · next present => exact contains_iff_mem.1 present
  · simp

/-- A name once given stays. -/
theorem nameIn_of_prefix (grown : met <+: final) (known : id ∈ met) :
    nameIn final id = nameIn met id := by
  obtain ⟨later, rfl⟩ := grown
  rw [nameIn, nameIn, idxOf_append_of_mem known]

/-- Meeting a variable gives it the next name, if it has none. -/
theorem yields_name (grown : addNew met id <+: final) :
    Yields (Rendering.name id) met fun text last =>
      text = nameIn final id ∧ last = addNew met id := by
  rw [Rendering.name, yields_modifyGet, nameIn_of_prefix grown mem_addNew]
  unfold nameIn addNew
  by_cases known : id ∈ met
  · simp [known]
  · simp [known, idxOf_append_of_notMem known]

theorem yields_names (grown : items.foldl addNew met <+: final) :
    Yields (items.mapM Rendering.name) met fun texts last =>
      texts = items.map (nameIn final) ∧ last = items.foldl addNew met := by
  induction items generalizing met with
  | nil =>
    rw [mapM_nil, yields_pure]
    exact ⟨rfl, rfl⟩
  | cons first rest ih =>
    rw [mapM_cons, yields_bind]
    refine (yields_name (prefix_foldl_addNew.trans grown)).mono ?_
    rintro _ _ ⟨rfl, rfl⟩
    rw [yields_bind]
    refine (ih grown).mono ?_
    rintro _ _ ⟨rfl, rfl⟩
    exact ⟨rfl, rfl⟩

section Injective

variable {label : TypeId → TypeId} {listed : List TypeId}
  (injective : Set.InjOn label {id | id ∈ listed})

include injective

theorem mem_map_iff_of_injOn (subset : met ⊆ listed) (mem : id ∈ listed) :
    label id ∈ met.map label ↔ id ∈ met := by
  refine ⟨?_, mem_map_of_mem⟩
  intro mapped
  obtain ⟨other, present, same⟩ := mem_map.1 mapped
  exact injective (subset present) mem same ▸ present

/-- Other labels do not change the order of first appearance. -/
theorem foldl_addNew_map (subset : items ⊆ listed) (metSubset : met ⊆ listed) :
    (items.map label).foldl addNew (met.map label) = (items.foldl addNew met).map label := by
  induction items generalizing met with
  | nil => rfl
  | cons first rest ih =>
    have firstListed := subset mem_cons_self
    have added : addNew (met.map label) (label first) = (addNew met first).map label := by
      unfold addNew
      by_cases known : first ∈ met
      · simp [known, mem_map_of_mem]
      · simp [known, mem_map_iff_of_injOn injective metSubset firstListed]
    rw [map_cons, foldl_cons, foldl_cons, added]
    refine ih (fun id mem => subset (mem_cons_of_mem _ mem)) ?_
    intro id known
    have collected : id ∈ [first].foldl addNew met := known
    rcases mem_foldl_addNew.1 collected with old | new
    · exact metSubset old
    · exact mem_singleton.1 new ▸ firstListed

theorem idxOf_map_of_injOn (subset : met ⊆ listed) (mem : id ∈ listed) :
    (met.map label).idxOf (label id) = met.idxOf id := by
  induction met with
  | nil => rfl
  | cons first rest ih =>
    have restSubset : rest ⊆ listed := fun id mem => subset (mem_cons_of_mem _ mem)
    rw [map_cons, idxOf_cons, idxOf_cons, ih restSubset]
    by_cases same : first = id
    · simp [same]
    · have different : label first ≠ label id :=
        fun equal => same (injective (subset mem_cons_self) mem equal)
      rw [beq_eq_false_iff_ne.2 different, beq_eq_false_iff_ne.2 same]

end Injective
end Order

namespace Tree

variable {tree : Tree}

mutual

/-- The text of a tree whose variables have names. -/
def print (name : TypeId → String) : Tree → String
  | .primitive which => Rendering.primitive which
  | .function domain codomain =>
    if needsParentheses domain.kind then
      "(" ++ domain.print name ++ ") -> " ++ codomain.print name
    else
      domain.print name ++ " -> " ++ codomain.print name
  | .list element => "[" ++ element.print name ++ "]"
  | .tuple components => "(" ++ ", ".intercalate (printAll name components) ++ ")"
  | .var id => name id
  | .quantified binders body =>
    "forall " ++ ", ".intercalate (binders.map name) ++ ". " ++ body.print name

/-- The texts of several trees. -/
def printAll (name : TypeId → String) : List Tree → List String
  | [] => []
  | tree :: rest => tree.print name :: printAll name rest

end

@[simp] theorem printAll_eq_map (name : TypeId → String) (trees : List Tree) :
    printAll name trees = trees.map (print name) := by
  induction trees with
  | nil => rfl
  | cons tree rest ih => simp [printAll, ih]

variable {met final : List TypeId}

theorem yields_renderAllFrom {trees : List Tree}
    (each : ∀ tree ∈ trees, ∀ {met}, tree.occurrences.foldl addNew met <+: final →
      Yields (tree.renderFrom false) met fun text last =>
        text = tree.print (nameIn final) ∧ last = tree.occurrences.foldl addNew met)
    (grown : (trees.flatMap occurrences).foldl addNew met <+: final) :
    Yields (renderAllFrom trees) met fun texts last =>
      texts = trees.map (print (nameIn final)) ∧
        last = (trees.flatMap occurrences).foldl addNew met := by
  induction trees generalizing met with
  | nil => exact ⟨rfl, rfl⟩
  | cons tree rest ih =>
    rw [flatMap_cons, foldl_append] at grown ⊢
    rw [renderAllFrom, yields_bind]
    refine (each tree mem_cons_self (prefix_foldl_addNew.trans grown)).mono ?_
    rintro _ _ ⟨rfl, rfl⟩
    rw [yields_bind]
    refine (ih (forall_mem_of_forall_mem_cons each) grown).mono ?_
    rintro _ _ ⟨rfl, rfl⟩
    exact ⟨rfl, rfl⟩

/-- Without quantifiers a tree is rendered with the names given out at the
end. -/
theorem yields_renderFrom (free : tree.quantifierFree) (outermost : Bool)
    (grown : tree.occurrences.foldl addNew met <+: final) :
    Yields (tree.renderFrom outermost) met fun text last =>
      text = tree.print (nameIn final) ∧ last = tree.occurrences.foldl addNew met := by
  induction tree, free using inductionOnFree generalizing met outermost with
  | primitive which => exact ⟨rfl, rfl⟩
  | function domain codomain domainIH codomainIH =>
    rw [occurrences, foldl_append] at grown ⊢
    rw [renderFrom, yields_bind]
    refine (domainIH false (prefix_foldl_addNew.trans grown)).mono ?_
    rintro _ _ ⟨rfl, rfl⟩
    rw [yields_bind]
    refine (codomainIH false grown).mono ?_
    rintro _ _ ⟨rfl, rfl⟩
    rw [print]
    split
    · exact ⟨rfl, rfl⟩
    · exact ⟨rfl, rfl⟩
  | list element elementIH =>
    rw [renderFrom, yields_bind]
    refine (elementIH false grown).mono ?_
    rintro _ _ ⟨rfl, rfl⟩
    exact ⟨rfl, rfl⟩
  | tuple parts partIH =>
    rw [occurrences, occurrencesAll_eq_flatMap] at grown ⊢
    rw [renderFrom, yields_bind, print, printAll_eq_map]
    refine (yields_renderAllFrom (fun part mem _ =>
      partIH part mem false) grown).mono ?_
    rintro _ _ ⟨rfl, rfl⟩
    exact ⟨rfl, rfl⟩
  | var id => exact yields_name grown

mutual

/-- Whether every tuple has at least two components. -/
def wide : Tree → Bool
  | .primitive _ => true
  | .function domain codomain => domain.wide && codomain.wide
  | .list element => element.wide
  | .tuple components => 2 ≤ components.length && wideAll components
  | .var _ => true
  | .quantified _ body => body.wide

/-- Whether every tuple in several trees has at least two components. -/
def wideAll : List Tree → Bool
  | [] => true
  | tree :: rest => tree.wide && wideAll rest

end

@[simp] theorem wideAll_eq_all (trees : List Tree) : wideAll trees = trees.all wide := by
  induction trees with
  | nil => rfl
  | cons tree rest ih => simp [wideAll, ih]

/-- A closed tree with at most one quantifier, which stands outermost and lists
different variables, as many as there are names at most. -/
structure Prenex (tree : Tree) : Prop where
  /-- All variables are quantified. -/
  closed : tree.Closed
  /-- There is no inner quantifier. -/
  quantifierFree : tree.body.quantifierFree
  /-- The outer one lists a variable. -/
  nonempty : tree.kind = .quantified → tree.binders ≠ []
  /-- It lists none twice. -/
  nodup : tree.binders.Nodup
  /-- There are enough letters. -/
  length_le : tree.binders.length ≤ 26
  /-- Tuples have two components at least. -/
  wide : tree.body.wide

instance (tree : Tree) : Decidable tree.Prenex :=
  decidable_of_iff (tree.occurrences = [] ∧ tree.body.quantifierFree ∧
      (tree.kind = .quantified → tree.binders ≠ []) ∧ tree.binders.Nodup ∧
      tree.binders.length ≤ 26 ∧ tree.body.wide) <| by
    constructor
    · rintro ⟨closed, free, nonempty, nodup, length_le, wide⟩
      exact ⟨closed, free, nonempty, nodup, length_le, wide⟩
    · rintro ⟨closed, free, nonempty, nodup, length_le, wide⟩
      exact ⟨closed, free, nonempty, nodup, length_le, wide⟩

theorem Prenex.eq_quantifiedOver (prenex : tree.Prenex) :
    tree = tree.body.quantifiedOver tree.binders := by
  cases tree with
  | quantified binders body =>
    have nonempty := prenex.nonempty rfl
    simp only [Tree.binders] at nonempty
    simp [quantifiedOver, Tree.binders, Tree.body, nonempty]
  | _ => rfl

/-- The variables of a tree in the order they are met: those of its body, then
the others that it lists. -/
def meetingOrder (tree : Tree) : List TypeId :=
  (tree.body.occurrences ++ tree.binders).foldl addNew []

/-- A tree with one quantifier is rendered with the names of its variables in the
order they are met. -/
theorem Prenex.render_eq_print (prenex : tree.Prenex) :
    tree.render = tree.print (nameIn tree.meetingOrder) := by
  have order : tree.binders.foldl addNew (tree.body.occurrences.foldl addNew []) <+:
      tree.meetingOrder := by
    simp only [meetingOrder, foldl_append, prefix_rfl]
  have bodyOrder := prefix_foldl_addNew.trans order
  change Yields (tree.renderFrom true) [] fun text _ =>
    text = tree.print (nameIn tree.meetingOrder)
  by_cases isQuantified : tree.kind = .quantified
  · cases tree <;> cases isQuantified
    next binders body =>
      rw [renderFrom, yields_bind]
      refine (yields_renderFrom prenex.quantifierFree false bodyOrder).mono ?_
      rintro _ _ ⟨rfl, rfl⟩
      simp only [↓reduceIte]
      rw [yields_bind]
      refine (yields_names order).mono ?_
      rintro _ _ ⟨rfl, rfl⟩
      rw [yields_pure, print]
      rfl
  · have bodyEq := body_of_kind_ne isQuantified
    have free := bodyEq ▸ prenex.quantifierFree
    rw [bodyEq] at bodyOrder
    exact (yields_renderFrom free true bodyOrder).mono fun _ _ printed => printed.1

section Relabelling

mutual

/-- Puts other variables for all variables, those of quantifiers included. -/
def relabel (label : TypeId → TypeId) : Tree → Tree
  | .primitive which => .primitive which
  | .function domain codomain => .function (domain.relabel label) (codomain.relabel label)
  | .list element => .list (element.relabel label)
  | .tuple components => .tuple (relabelAll label components)
  | .var id => .var (label id)
  | .quantified binders body => .quantified (binders.map label) (body.relabel label)

/-- Puts other variables for all variables in several trees. -/
def relabelAll (label : TypeId → TypeId) : List Tree → List Tree
  | [] => []
  | tree :: rest => tree.relabel label :: relabelAll label rest

end

@[simp] theorem relabelAll_eq_map (label : TypeId → TypeId) (trees : List Tree) :
    relabelAll label trees = trees.map (relabel label) := by
  induction trees with
  | nil => rfl
  | cons tree rest ih => simp [relabelAll, ih]

variable {label : TypeId → TypeId}

@[simp] theorem kind_relabel (tree : Tree) : (tree.relabel label).kind = tree.kind := by
  cases tree <;> rfl

@[simp] theorem binders_relabel (tree : Tree) :
    (tree.relabel label).binders = tree.binders.map label := by
  cases tree <;> rfl

@[simp] theorem body_relabel (tree : Tree) :
    (tree.relabel label).body = tree.body.relabel label := by
  cases tree <;> rfl

theorem relabel_quantifiedOver (tree : Tree) (binders : List TypeId) :
    (tree.quantifiedOver binders).relabel label =
      (tree.relabel label).quantifiedOver (binders.map label) := by
  unfold quantifiedOver
  rw [isEmpty_map]
  split
  · rfl
  · rfl

theorem all_eq_of_forall_mem {trees : List Tree} {first second : Tree → Bool}
    (same : ∀ tree ∈ trees, first tree = second tree) :
    trees.all first = trees.all second := by
  rw [Bool.eq_iff_iff, all_eq_true, all_eq_true]
  exact forall₂_congr fun tree mem => by rw [same tree mem]

theorem quantifierFree_relabel (tree : Tree) :
    (tree.relabel label).quantifierFree = tree.quantifierFree := by
  induction tree with
  | primitive which => rfl
  | function domain codomain domainIH codomainIH =>
    simp only [relabel, quantifierFree, domainIH, codomainIH]
  | list element elementIH => exact elementIH
  | tuple parts partIH =>
    simp only [relabel, relabelAll_eq_map, quantifierFree, quantifierFreeAll_eq_all, all_map]
    exact all_eq_of_forall_mem partIH
  | var id => rfl
  | quantified binders body bodyIH => rfl

theorem wide_relabel (tree : Tree) : (tree.relabel label).wide = tree.wide := by
  induction tree with
  | primitive which => rfl
  | function domain codomain domainIH codomainIH =>
    simp only [relabel, wide, domainIH, codomainIH]
  | list element elementIH => exact elementIH
  | tuple parts partIH =>
    simp only [relabel, relabelAll_eq_map, wide, wideAll_eq_all, length_map, all_map]
    exact congrArg _ (all_eq_of_forall_mem partIH)
  | var id => rfl
  | quantified binders body bodyIH => exact bodyIH

theorem print_relabel (tree : Tree) (name : TypeId → String) :
    (tree.relabel label).print name = tree.print fun id => name (label id) := by
  induction tree with
  | primitive which => rfl
  | function domain codomain domainIH codomainIH =>
    simp only [relabel, print, kind_relabel, domainIH, codomainIH]
  | list element elementIH => simp only [relabel, print, elementIH]
  | tuple parts partIH =>
    simp only [relabel, relabelAll_eq_map, print, printAll_eq_map, map_map]
    congr 3
    apply map_congr_left
    exact partIH
  | var id => rfl
  | quantified binders body bodyIH =>
    simp only [relabel, print, bodyIH, map_map]
    rfl

theorem occurrences_relabel (free : tree.quantifierFree) :
    (tree.relabel label).occurrences = tree.occurrences.map label := by
  induction tree, free using inductionOnFree with
  | primitive which => rfl
  | function domain codomain domainIH codomainIH =>
    simp only [relabel, occurrences, map_append, domainIH, codomainIH]
  | list element elementIH => exact elementIH
  | tuple parts partIH =>
    simp only [relabel, relabelAll_eq_map, occurrences, occurrencesAll_eq_flatMap,
      flatMap_map, map_flatMap]
    apply flatMap_congr
    intro part mem
    exact partIH part mem
  | var id => rfl

/-- Printing reads the names of the free variables and of those that the tree
lists only. -/
theorem print_congr_of_quantifierFree (free : tree.quantifierFree)
    {first second : TypeId → String} (agree : ∀ id ∈ tree.occurrences, first id = second id) :
    tree.print first = tree.print second := by
  induction tree, free using inductionOnFree with
  | primitive which => rfl
  | function domain codomain domainIH codomainIH =>
    simp only [occurrences, mem_append] at agree
    simp only [print, domainIH fun id mem => agree id (.inl mem),
      codomainIH fun id mem => agree id (.inr mem)]
  | list element elementIH => simp only [print, elementIH agree]
  | tuple parts partIH =>
    simp only [occurrences, occurrencesAll_eq_flatMap, mem_flatMap] at agree
    simp only [print, printAll_eq_map]
    congr 3
    apply map_congr_left
    intro part mem
    exact partIH part mem fun id occurs => agree id ⟨part, mem, occurs⟩
  | var id => exact agree id (by simp [occurrences])

theorem Prenex.print_congr (prenex : tree.Prenex) {first second : TypeId → String}
    (agree : ∀ id ∈ tree.binders, first id = second id) :
    tree.print first = tree.print second := by
  have bodyEq : tree.body.print first = tree.body.print second :=
    print_congr_of_quantifierFree prenex.quantifierFree fun id occurs =>
      agree id (prenex.closed.mem_binders occurs)
  cases tree with
  | quantified binders body =>
    simp only [Tree.body, Tree.binders] at bodyEq agree
    rw [print, print, bodyEq, map_congr_left agree]
  | _ => exact bodyEq

section Invariance

variable {tree : Tree} (prenex : tree.Prenex)

include prenex

theorem Prenex.occurrences_subset : tree.body.occurrences ++ tree.binders ⊆ tree.binders := by
  intro id mem
  rcases mem_append.1 mem with occurs | listed
  · exact prenex.closed.mem_binders occurs
  · exact listed

theorem Prenex.relabel (injective : Set.InjOn label {id | id ∈ tree.binders}) :
    (tree.relabel label).Prenex where
  closed := by
    rw [prenex.eq_quantifiedOver, relabel_quantifiedOver, closed_quantifiedOver_iff,
      occurrences_relabel prenex.quantifierFree]
    intro id mapped
    obtain ⟨source, occurs, rfl⟩ := mem_map.1 mapped
    exact mem_map_of_mem (prenex.closed.mem_binders occurs)
  quantifierFree := by
    rw [body_relabel, quantifierFree_relabel]
    exact prenex.quantifierFree
  nonempty := by
    rw [kind_relabel, binders_relabel]
    exact fun isQuantified => by simpa using prenex.nonempty isQuantified
  nodup := by
    rw [binders_relabel]
    exact prenex.nodup.map_on fun first firstListed second secondListed same =>
      injective firstListed secondListed same
  length_le := by
    rw [binders_relabel, length_map]
    exact prenex.length_le
  wide := by
    rw [body_relabel, wide_relabel]
    exact prenex.wide

/-- Rendering does not depend on the labels of variables. -/
theorem Prenex.render_relabel (injective : Set.InjOn label {id | id ∈ tree.binders}) :
    (tree.relabel label).render = tree.render := by
  have order : (tree.relabel label).meetingOrder = tree.meetingOrder.map label := by
    rw [meetingOrder, body_relabel, binders_relabel, occurrences_relabel prenex.quantifierFree,
      ← map_append]
    exact foldl_addNew_map injective prenex.occurrences_subset (nil_subset _)
  rw [(prenex.relabel injective).render_eq_print, prenex.render_eq_print, print_relabel, order]
  apply prenex.print_congr
  intro id listed
  rw [nameIn, nameIn, idxOf_map_of_injOn injective ?_ listed]
  intro other mem
  rcases mem_foldl_addNew.1 mem with none | met
  · cases none
  · exact prenex.occurrences_subset met

end Invariance

end Relabelling

section Bound

variable {label : TypeId → TypeId} {listed : List TypeId}

theorem binderAt?_of_mem {id : TypeId} (mem : id ∈ listed) :
    binderAt? [listed] id = some (0, listed.idxOf id) :=
  if_pos mem

/-- The nameless form of a tree depends on its labels only as far as they are read
under different quantifiers. -/
theorem namelessUnder_relabel_of_read_eq (free : tree.quantifierFree)
    {scopes others : List (List TypeId)} (agree : ∀ id ∈ tree.occurrences,
      Place.read ⟨others, label id⟩ .free = Place.read ⟨scopes, id⟩ .free) :
    (tree.relabel label).namelessUnder others = tree.namelessUnder scopes := by
  unfold namelessUnder
  induction tree, free using inductionOnFree with
  | primitive which => rfl
  | function domain codomain domainIH codomainIH =>
    rw [occurrences, forall_mem_append] at agree
    simp only [relabel, resolve, domainIH agree.1, codomainIH agree.2]
  | list element elementIH =>
    simp only [relabel, resolve, elementIH agree]
  | tuple parts partIH =>
    simp only [relabel, relabelAll_eq_map, resolve, resolveAll_eq_map, map_map,
      Nameless.tuple.injEq]
    apply map_congr_left
    intro part mem
    exact partIH part mem fun id occurs =>
      agree id (mem_occurrences_of_mem_children mem (by simp [kind]) occurs)
  | var id =>
    simp only [relabel, resolve]
    exact agree id (by simp [occurrences])

/-- The nameless form of a tree under one quantifier does not depend on
labels. -/
theorem namelessUnder_relabel (free : tree.quantifierFree)
    (injective : Set.InjOn label {id | id ∈ listed}) (subset : tree.occurrences ⊆ listed) :
    (tree.relabel label).namelessUnder [listed.map label] = tree.namelessUnder [listed] := by
  apply namelessUnder_relabel_of_read_eq free
  intro id occurs
  have mem := subset occurs
  simp only [Place.read, binderAt?_of_mem mem, binderAt?_of_mem (mem_map_of_mem mem)]
  rw [idxOf_map_of_injOn injective (List.Subset.refl _) mem]

theorem nameless_quantifiedOver (tree : Tree) (listed : List TypeId) :
    (tree.quantifiedOver listed).nameless =
      if listed.isEmpty then tree.namelessUnder [listed]
      else .quantified listed.length (tree.namelessUnder [listed]) := by
  unfold quantifiedOver
  split
  · next isEmpty =>
      have nothing := List.isEmpty_iff.1 isEmpty
      refine (namelessUnder_eq_nameless ?_).symm
      intro leaf occurs
      simp [nothing]
  · rfl

/-- Trees that differ in labels only have one nameless form. -/
theorem Prenex.alphaEq_relabel (prenex : tree.Prenex)
    (injective : Set.InjOn label {id | id ∈ tree.binders}) :
    (tree.relabel label).AlphaEq tree := by
  have subset : tree.body.occurrences ⊆ tree.binders := fun id => prenex.closed.mem_binders
  unfold AlphaEq
  rw [prenex.eq_quantifiedOver, relabel_quantifiedOver, nameless_quantifiedOver,
    nameless_quantifiedOver, namelessUnder_relabel prenex.quantifierFree injective subset,
    isEmpty_map, length_map]

end Bound

end Tree

namespace Nameless

mutual

/-- The tree in which a bound variable is labelled by its position. -/
def labelled : Nameless → Tree
  | .primitive which => .primitive which
  | .function domain codomain => .function domain.labelled codomain.labelled
  | .list element => .list element.labelled
  | .tuple components => .tuple (labelledAll components)
  | .free id => .var id
  | .bound _ position => .var position
  | .quantified count body => .quantified (List.range count) body.labelled

/-- Several trees in which bound variables are labelled. -/
def labelledAll : List Nameless → List Tree
  | [] => []
  | tree :: rest => tree.labelled :: labelledAll rest

end

@[simp] theorem labelledAll_eq_map (trees : List Nameless) :
    labelledAll trees = trees.map labelled := by
  induction trees with
  | nil => rfl
  | cons tree rest ih => simp [labelledAll, ih]

end Nameless

namespace Tree

variable {tree : Tree}

theorem labelled_namelessUnder {listed : List TypeId} (free : tree.quantifierFree)
    (subset : tree.occurrences ⊆ listed) :
    (tree.namelessUnder [listed]).labelled = tree.relabel listed.idxOf := by
  unfold namelessUnder
  induction tree, free using inductionOnFree with
  | primitive which => rfl
  | function domain codomain domainIH codomainIH =>
    rw [occurrences, append_subset] at subset
    simp only [relabel, resolve, labelled, domainIH subset.1, codomainIH subset.2]
  | list element elementIH =>
    simp only [relabel, resolve, labelled, elementIH subset]
  | tuple parts partIH =>
    simp only [relabel, relabelAll_eq_map, resolve, resolveAll_eq_map, labelled,
      labelledAll_eq_map, map_map, tuple.injEq]
    apply map_congr_left
    intro part mem
    exact partIH part mem fun id occurs =>
      subset (mem_occurrences_of_mem_children mem (by simp [kind]) occurs)
  | var id =>
    have mem : id ∈ listed := subset (by simp [occurrences])
    simp only [relabel, resolve, Place.read, binderAt?_of_mem mem, labelled]

/-- The nameless form determines the tree up to labels. -/
theorem Prenex.labelled_nameless (prenex : tree.Prenex) :
    tree.nameless.labelled = tree.relabel tree.binders.idxOf := by
  have subset : tree.body.occurrences ⊆ tree.binders := fun id => prenex.closed.mem_binders
  have poss : tree.binders.map tree.binders.idxOf = List.range tree.binders.length := by
    refine ext_getElem (by simp) ?_
    intro place inside _
    simp [prenex.nodup.idxOf_getElem]
  have labelled := labelled_namelessUnder prenex.quantifierFree subset
  have nameless := nameless_quantifiedOver tree.body tree.binders
  have relabelled : (tree.body.quantifiedOver tree.binders).relabel tree.binders.idxOf =
      (tree.body.relabel tree.binders.idxOf).quantifiedOver
        (tree.binders.map tree.binders.idxOf) :=
    relabel_quantifiedOver _ _
  rw [← prenex.eq_quantifiedOver] at nameless relabelled
  rw [relabelled, nameless, quantifiedOver, isEmpty_map]
  split
  · exact labelled
  · rw [Nameless.labelled, labelled, poss]

/-- Prenex trees with one nameless form have one text. -/
theorem Prenex.render_eq_of_alphaEq {other : Tree} (prenex : tree.Prenex)
    (otherPrenex : other.Prenex) (same : tree.AlphaEq other) :
    tree.render = other.render := by
  have injective : ∀ listed : List TypeId, Set.InjOn listed.idxOf {id | id ∈ listed} :=
    fun listed first mem second _ equal => (idxOf_inj mem).1 equal
  rw [← prenex.render_relabel (injective _), ← otherPrenex.render_relabel (injective _),
    ← prenex.labelled_nameless, ← otherPrenex.labelled_nameless, same]

end Tree
end PipeCheck
