import Mathlib.Data.List.Nodup
import Mathlib.Data.List.Perm.Basic
import PipeCheck.Expr.Traversal

/-!
# The nodes of an expression

The nodes of an expression are its root and the nodes of its subexpressions.
Typing visits the same nodes in another order, each after its subexpressions and
the function of an application before its arguments.
-/

namespace PipeCheck

open List

namespace Expr

/-- Induction over an expression, a list of subexpressions giving one hypothesis
each. -/
@[elab_as_elim, induction_eliminator]
theorem inductionOn {motive : Expr → Prop}
    (reference : ∀ site name symbol, motive (.reference site name symbol))
    (literal : ∀ site value, motive (.literal site value))
    (list : ∀ site items, (∀ item ∈ items, motive item) → motive (.list site items))
    (tuple : ∀ site items, (∀ item ∈ items, motive item) → motive (.tuple site items))
    (apply : ∀ site fn args, motive fn → (∀ arg ∈ args, motive arg) → motive (.apply site fn args))
    (pipe : ∀ site arg fn, motive arg → motive fn → motive (.pipe site arg fn))
    (binary : ∀ site op left right,
      motive left → motive right → motive (.binary site op left right))
    (definition : ∀ site symbol init, motive init → motive (.definition site symbol init))
    (placeholder : ∀ site, motive (.placeholder site)) (expr : Expr) :
    motive expr :=
  @Expr.rec motive (fun exprs => ∀ expr ∈ exprs, motive expr) reference literal list tuple apply
    pipe binary definition placeholder (by simp)
    (fun _ _ first rest => forall_mem_cons.2 ⟨first, rest⟩) expr

/-- Induction over an expression that treats all kinds of expressions alike. -/
@[elab_as_elim]
theorem inductionOnChildren {motive : Expr → Prop}
    (step : ∀ expr, (∀ child ∈ expr.children, motive child) → motive expr) (expr : Expr) :
    motive expr := by
  induction expr with
  | reference site name symbol => exact step _ (by simp [children])
  | literal site value => exact step _ (by simp [children])
  | list site items each => exact step _ each
  | tuple site items each => exact step _ each
  | apply site fn args fnIH each =>
    refine step _ ?_
    intro child mem
    rcases mem_append.1 mem with isArg | isFunction
    · exact each child isArg
    · exact mem_singleton.1 isFunction ▸ fnIH
  | pipe site arg fn argIH fnIH =>
    exact step _ (by simp [children, argIH, fnIH])
  | binary site op left right leftIH rightIH =>
    exact step _ (by simp [children, leftIH, rightIH])
  | definition site symbol init initIH => exact step _ (by simp [children, initIH])
  | placeholder site => exact step _ (by simp [children])

theorem preorderAll_eq_flatMap (exprs : List Expr) :
    preorderAll exprs = exprs.flatMap preorder := by
  induction exprs with
  | nil => rfl
  | cons expr rest ih =>
    rw [preorderAll, ih, flatMap_cons]

/-- An expression comes before the nodes of its subexpressions. -/
theorem preorder_eq (expr : Expr) :
    expr.preorder = expr :: expr.children.flatMap preorder := by
  cases expr <;> simp [preorder, children, preorderAll_eq_flatMap]

theorem self_mem_preorder (expr : Expr) : expr ∈ expr.preorder := by
  rw [preorder_eq]
  exact mem_cons_self

theorem preorder_subset {expr child : Expr} (mem : child ∈ expr.children) :
    child.preorder ⊆ expr.preorder := by
  intro node inside
  rw [preorder_eq expr]
  exact mem_cons_of_mem _ (mem_flatMap.2 ⟨child, mem, inside⟩)

/-- No two nodes have the same id. -/
def DistinctIds (expr : Expr) : Prop :=
  (expr.preorder.map Expr.id).Nodup

instance (expr : Expr) : Decidable expr.DistinctIds :=
  inferInstanceAs (Decidable (List.Nodup _))

theorem DistinctIds.eq_of_id_eq {expr node other : Expr} (distinct : expr.DistinctIds)
    (mem : node ∈ expr.preorder) (otherMem : other ∈ expr.preorder) (sameId : node.id = other.id) :
    node = other :=
  inj_on_of_nodup_map distinct mem otherMem sameId

/-- The direct subexpressions in the order in which they are typed. -/
def operands : Expr → List Expr
  | .apply _ function arguments => function :: arguments
  | expr => expr.children

theorem operands_perm_children (expr : Expr) : expr.operands.Perm expr.children := by
  cases expr with
  | apply site fn args =>
    exact (perm_append_singleton fn args).symm
  | _ => exact .refl _

mutual

/-- The nodes of a tree in the order in which they are typed. -/
def typingOrder (expr : Expr) : List Expr :=
  (match expr with
    | .reference _ _ _ => []
    | .literal _ _ => []
    | .list _ items => typingOrderAll items
    | .tuple _ items => typingOrderAll items
    | .apply _ function arguments => typingOrder function ++ typingOrderAll arguments
    | .pipe _ argument function => typingOrder argument ++ typingOrder function
    | .binary _ _ left right => typingOrder left ++ typingOrder right
    | .definition _ _ init => typingOrder init
    | .placeholder _ => []) ++ [expr]

/-- The nodes of several trees, one tree after the other. -/
def typingOrderAll : List Expr → List Expr
  | [] => []
  | expr :: rest => typingOrder expr ++ typingOrderAll rest

end

theorem typingOrderAll_eq_flatMap (exprs : List Expr) :
    typingOrderAll exprs = exprs.flatMap typingOrder := by
  induction exprs with
  | nil => rfl
  | cons expr rest ih =>
    rw [typingOrderAll, ih, flatMap_cons]

theorem typingOrder_apply (site : Site) (fn : Expr) (args : List Expr) :
    (Expr.apply site fn args).typingOrder =
      fn.typingOrder ++ typingOrderAll args ++ [.apply site fn args] := by
  rw [typingOrder]

theorem typingOrder_eq (expr : Expr) :
    expr.typingOrder = expr.operands.flatMap typingOrder ++ [expr] := by
  cases expr <;> simp [typingOrder, operands, children, typingOrderAll_eq_flatMap]

/-- Typing visits every node as often as it occurs. -/
theorem typingOrder_perm_preorder (expr : Expr) : expr.typingOrder.Perm expr.preorder := by
  induction expr using inductionOnChildren with
  | step expr ih =>
    have below : (expr.operands.flatMap typingOrder).Perm (expr.children.flatMap preorder) :=
      (expr.operands_perm_children.flatMap_right typingOrder).trans (.flatMap_left expr.children ih)
    rw [typingOrder_eq, preorder_eq]
    exact (perm_append_singleton expr _).trans (below.cons expr)

theorem mem_typingOrder {expr node : Expr} : node ∈ expr.typingOrder ↔ node ∈ expr.preorder :=
  expr.typingOrder_perm_preorder.mem_iff

/-- Nodes together with all nodes below them. -/
def Downward (nodes : List Expr) : Prop :=
  ∀ node ∈ nodes, ∀ child ∈ node.children, child ∈ nodes

theorem downward_preorder (expr : Expr) : Downward expr.preorder := by
  induction expr using inductionOnChildren with
  | step expr ih =>
    intro node mem child isChild
    rw [preorder_eq, mem_cons, mem_flatMap] at mem
    rcases mem with rfl | ⟨below, isBelow, inBelow⟩
    · exact preorder_subset isChild (self_mem_preorder child)
    · exact preorder_subset isBelow (ih below isBelow node inBelow child isChild)

theorem downward_typingOrder (expr : Expr) : Downward expr.typingOrder := by
  intro node mem child isChild
  rw [mem_typingOrder] at mem ⊢
  exact downward_preorder expr node mem child isChild

theorem downward_typingOrderAll (exprs : List Expr) : Downward (typingOrderAll exprs) := by
  intro node mem child isChild
  rw [typingOrderAll_eq_flatMap, mem_flatMap] at mem ⊢
  obtain ⟨expr, listed, inside⟩ := mem
  exact ⟨expr, listed, downward_typingOrder expr node inside child isChild⟩

theorem self_mem_typingOrder (expr : Expr) : expr ∈ expr.typingOrder :=
  mem_typingOrder.2 expr.self_mem_preorder

end Expr
end PipeCheck
