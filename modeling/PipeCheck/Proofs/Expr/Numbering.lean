import PipeCheck.Proofs.Typing.Sites

/-!
# Numbering

The nodes of an expression are numbered in the order in which they are visited, so each
subexpression has consecutive numbers that begin with its own.  Nothing else changes, and
numbers from before are forgotten.  The main statement is `Expr.numbered_inPreorder`.
-/

namespace PipeCheck

open List

namespace Expr

/-- Nodes that are numbered in order, and the number that comes next. -/
structure CountsUp (start count : Nat) (nodes : List Expr) (after : NodeId) : Prop where
  /-- The ids count up from the start. -/
  ids_eq : nodes.map Expr.id = (List.range' start count).map UInt32.ofNat
  /-- The next number follows the last. -/
  after_eq : after = UInt32.ofNat (start + count)

section CountsUp

variable {start count more : Nat} {nodes others : List Expr} {between after : NodeId}

theorem CountsUp.append (first : CountsUp start count nodes between)
    (second : CountsUp (start + count) more others after) :
    CountsUp start (count + more) (nodes ++ others) after where
  ids_eq := by
    rw [map_append, first.ids_eq, second.ids_eq, ← map_append, range'_append_1]
  after_eq := by rw [second.after_eq, Nat.add_assoc]

theorem CountsUp.cons {node : Expr} (idEq : node.id = UInt32.ofNat start)
    (below : CountsUp (start + 1) count nodes after) :
    CountsUp start (count + 1) (node :: nodes) after where
  ids_eq := by rw [map_cons, below.ids_eq, range'_succ, map_cons, idEq]
  after_eq := by rw [below.after_eq, Nat.add_right_comm, Nat.add_assoc]

theorem countsUp_nil (start : Nat) : CountsUp start 0 [] (UInt32.ofNat start) :=
  ⟨rfl, rfl⟩

/-- Numbering counts up over the nodes of an expression. -/
def NumbersInOrder (expr : Expr) : Prop :=
  ∀ start : Nat, CountsUp start expr.preorder.length
    (numberFrom (UInt32.ofNat start) expr).1.preorder (numberFrom (UInt32.ofNat start) expr).2

theorem countsUp_numberAllFrom {exprs : List Expr} (each : ∀ expr ∈ exprs, NumbersInOrder expr)
    (start : Nat) :
    CountsUp start (preorderAll exprs).length
      (preorderAll (numberAllFrom (UInt32.ofNat start) exprs).1)
      (numberAllFrom (UInt32.ofNat start) exprs).2 := by
  induction exprs generalizing start with
  | nil => exact countsUp_nil start
  | cons expr rest ih =>
    have first := each expr mem_cons_self start
    have second := ih (forall_mem_of_forall_mem_cons each) (start + expr.preorder.length)
    rw [preorderAll, length_append, numberAllFrom]
    rw [← first.after_eq] at second
    exact first.append second

/-- Two subexpressions are numbered one after the other. -/
theorem countsUp_both {left right : Expr} (leftNumbers : NumbersInOrder left)
    (rightNumbers : NumbersInOrder right) (start : Nat) :
    CountsUp start (left.preorder ++ right.preorder).length
      ((numberFrom (UInt32.ofNat start) left).1.preorder ++
        (numberFrom (numberFrom (UInt32.ofNat start) left).2 right).1.preorder)
      (numberFrom (numberFrom (UInt32.ofNat start) left).2 right).2 := by
  have first := leftNumbers start
  have second := rightNumbers (start + left.preorder.length)
  rw [← first.after_eq] at second
  rw [length_append]
  exact first.append second

theorem numbersInOrder (expr : Expr) : NumbersInOrder expr := by
  have next : ∀ start, UInt32.ofNat start + 1 = UInt32.ofNat (start + 1) := fun start =>
    (UInt32.ofNat_add start 1).symm
  induction expr with
  | list site items each =>
    intro start
    rw [numberFrom, preorder, preorder, next]
    exact (countsUp_numberAllFrom each (start + 1)).cons rfl
  | tuple site items each =>
    intro start
    rw [numberFrom, preorder, preorder, next]
    exact (countsUp_numberAllFrom each (start + 1)).cons rfl
  | apply site function args fnNumbers each =>
    intro start
    have first := countsUp_numberAllFrom each (start + 1)
    have second := fnNumbers (start + 1 + (preorderAll args).length)
    rw [← first.after_eq] at second
    rw [numberFrom, preorder, preorder, next, length_cons, length_append]
    exact (first.append second).cons rfl
  | pipe site argument function argNumbers fnNumbers =>
    intro start
    rw [numberFrom, preorder, preorder, next]
    exact (countsUp_both argNumbers fnNumbers (start + 1)).cons rfl
  | binary site op left right leftNumbers rightNumbers =>
    intro start
    rw [numberFrom, preorder, preorder, next]
    exact (countsUp_both leftNumbers rightNumbers (start + 1)).cons rfl
  | definition site symbol init initNumbers =>
    intro start
    rw [numberFrom, preorder, preorder, next]
    exact (initNumbers (start + 1)).cons rfl
  | _ =>
    intro start
    rw [numberFrom, preorder, preorder, next]
    exact (countsUp_nil (start + 1)).cons rfl

end CountsUp

section Numbered

variable {expr node : Expr}

theorem toNat_ids_numbered (few : expr.preorder.length ≤ UInt32.size) :
    expr.numbered.preorder.map (·.id.toNat) = List.range expr.preorder.length := by
  have ids := congrArg (List.map UInt32.toNat) (numbersInOrder expr 0).ids_eq
  rw [map_map, map_map, ← List.range_eq_range'] at ids
  refine ids.trans ((map_congr_left ?_).trans (List.map_id _))
  intro number mem
  exact UInt32.toNat_ofNat_of_lt (Nat.lt_of_lt_of_le (mem_range.1 mem) few)

/-- Numbering gives distinct ids while there are numbers. -/
theorem distinctIds_numbered (few : expr.preorder.length ≤ UInt32.size) :
    expr.numbered.DistinctIds := by
  refine Nodup.of_map UInt32.toNat ?_
  rw [map_map]
  exact toNat_ids_numbered few ▸ nodup_range

theorem toNat_nodeCount (few : expr.preorder.length < UInt32.size) :
    expr.nodeCount.toNat = expr.preorder.length := by
  have after := (numbersInOrder expr 0).after_eq
  rw [Nat.zero_add] at after
  exact (congrArg UInt32.toNat after).trans (UInt32.toNat_ofNat_of_lt few)

/-- The nodes of a subexpression stand together. -/
theorem preorder_infix_of_mem (mem : node ∈ expr.preorder) : node.preorder <:+: expr.preorder := by
  induction expr using inductionOnChildren with
  | step expr ih =>
    rw [preorder_eq, mem_cons, mem_flatMap] at mem
    rcases mem with rfl | ⟨child, isChild, inside⟩
    · exact infix_rfl
    · rw [preorder_eq expr]
      exact (ih child isChild inside).trans
        ((infix_of_mem_flatten (mem_map_of_mem isChild)).trans (suffix_cons _ _).isInfix)

/-- A part of consecutive numbers is consecutive, and a subexpression comes first in its
own part. -/
theorem ids_eq_range' {count : Nat} (ids : expr.preorder.map (·.id.toNat) = List.range count)
    (mem : node ∈ expr.preorder) :
    node.preorder.map (·.id.toNat) = List.range' node.id.toNat node.preorder.length := by
  obtain ⟨before, after, split⟩ := (preorder_infix_of_mem mem).map (·.id.toNat)
  rw [ids, List.range_eq_range'] at split
  -- what follows the part is cut off first, then what stands before it
  obtain ⟨_, _, front, _⟩ := range'_eq_append_iff.1 split.symm
  obtain ⟨start, _, _, part⟩ := range'_eq_append_iff.1 front.symm
  have lengths := congrArg List.length part
  rw [length_map, length_range'] at lengths
  rw [← lengths] at part
  rw [part]
  rw [preorder_eq, map_cons, length_cons, range'_succ] at part
  rw [(cons.inj part).1]

/-- Numbering changes ids only, and does not look at those that it replaces. -/
abbrev RenumbersAlike (expr : Expr) : Prop :=
  ∀ next, (numberFrom next expr).1.bare = expr.bare ∧
    (numberFrom next expr).1.preorder.map span = expr.preorder.map span ∧
    ∀ other, numberFrom other (numberFrom next expr).1 = numberFrom other expr

theorem renumbersAlike_all {exprs : List Expr} (each : ∀ expr ∈ exprs, RenumbersAlike expr)
    (next : NodeId) :
    bareAll (numberAllFrom next exprs).1 = bareAll exprs ∧
      (preorderAll (numberAllFrom next exprs).1).map span = (preorderAll exprs).map span ∧
      ∀ other, numberAllFrom other (numberAllFrom next exprs).1 = numberAllFrom other exprs := by
  induction exprs generalizing next with
  | nil => exact ⟨rfl, rfl, fun _ => rfl⟩
  | cons expr rest ih =>
    have first := each expr mem_cons_self
    have further := ih (forall_mem_of_forall_mem_cons each)
    simp only [numberAllFrom, bareAll, preorderAll, map_append, first, further, implies_true,
      and_self]

theorem renumbersAlike (expr : Expr) : RenumbersAlike expr := by
  -- any start is allowed, since a subexpression begins where the one before it ended
  induction expr with
  | list site items each | tuple site items each =>
    have alike := renumbersAlike_all each
    intro next
    simp [numberFrom, bare, preorder, span, Expr.site, alike, -bareAll_eq_map]
  | apply site fn args fnAlike each =>
    have alike := renumbersAlike_all each
    intro next
    simp [numberFrom, bare, preorder, span, Expr.site, alike, fnAlike, -bareAll_eq_map]
  | pipe site left right leftAlike rightAlike | binary site op left right leftAlike rightAlike =>
    intro next
    simp [numberFrom, bare, preorder, span, Expr.site, leftAlike, rightAlike]
  | definition site symbol init alike =>
    intro next
    simp [numberFrom, bare, preorder, span, Expr.site, alike]
  | _ => exact fun _ => ⟨rfl, rfl, fun _ => rfl⟩

/-- Numbering counts the nodes and gives them the numbers from zero on as they are
visited, leaving none out, and those of a subexpression are consecutive from its own on.
Kinds, names, symbols and spans stay, and numbering again changes nothing. -/
theorem numbered_inPreorder (few : expr.preorder.length < UInt32.size) :
    expr.nodeCount.toNat = expr.preorder.length ∧
      expr.numbered.preorder.map (·.id.toNat) = List.range expr.preorder.length ∧
      Downward expr.numbered.preorder ∧
      (∀ node ∈ expr.numbered.preorder,
        node.preorder.map (·.id.toNat) = List.range' node.id.toNat node.preorder.length) ∧
      expr.numbered.bare = expr.bare ∧
      expr.numbered.preorder.map span = expr.preorder.map span ∧
      expr.numbered.numbered = expr.numbered := by
  have ids := toNat_ids_numbered (Nat.le_of_lt few)
  obtain ⟨bareEq, spansEq, again⟩ := renumbersAlike expr 0
  refine ⟨toNat_nodeCount few, ids, downward_preorder _, ?_, bareEq, spansEq, ?_⟩
  · exact fun node mem => ids_eq_range' ids mem
  · exact congrArg Prod.fst (again 0)

/-- A function with two arguments, one of them a list, that is piped on, with two numbers
from before. -/
def pipedCall : Expr :=
  .pipe {} (.apply { id := 1, span := ⟨0, 9⟩ } (.reference { id := 1 } "pair" (some 4))
    [.literal {} .unit, .list {} [.placeholder {}]]) (.reference {} "first" none)

theorem numbered_inPreorder_pipedCall :
    pipedCall.preorder.length < UInt32.size ∧
      pipedCall.numbered.preorder.map (·.id.toNat) = [0, 1, 2, 3, 4, 5, 6] ∧
      pipedCall.numbered.preorder.map span = pipedCall.preorder.map span ∧
      pipedCall.numbered.numbered = pipedCall.numbered := by
  have few : pipedCall.preorder.length < UInt32.size := by decide
  obtain ⟨_, ids, _, _, _, unchanged⟩ := numbered_inPreorder few
  exact ⟨few, ids, unchanged⟩

end Numbered
end Expr
end PipeCheck
