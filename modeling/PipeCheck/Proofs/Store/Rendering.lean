import PipeCheck.Proofs.Store.WellFormed
import PipeCheck.Types.Rendering

/-!
# The text of a type is the text of its tree

Rendering reads a type level by level, so it is a function of the type's tree.
A type therefore keeps its text when the store grows.
-/

namespace PipeCheck
namespace Tree

mutual

/-- Renders a tree, given the variables met so far. -/
def renderFrom (outermost : Bool) : Tree → StateM (List TypeId) String
  | .primitive which => pure (Rendering.primitive which)
  | .function domain codomain => do
    let domainText ← domain.renderFrom false
    let codomainText ← codomain.renderFrom false
    if Rendering.needsParentheses domain.kind then
      return "(" ++ domainText ++ ") -> " ++ codomainText
    else
      return domainText ++ " -> " ++ codomainText
  | .list element => do
    let elementText ← element.renderFrom false
    return "[" ++ elementText ++ "]"
  | .tuple components => do
    let texts ← renderAllFrom components
    return "(" ++ ", ".intercalate texts ++ ")"
  | .var id => Rendering.name id
  | .quantified binders body => do
    let bodyText ← body.renderFrom false
    if outermost then
      let names ← binders.mapM Rendering.name
      return "forall " ++ ", ".intercalate names ++ ". " ++ bodyText
    else
      return bodyText

/-- Renders the components of a tuple. -/
def renderAllFrom : List Tree → StateM (List TypeId) (List String)
  | [] => return []
  | tree :: rest => do
    let text ← tree.renderFrom false
    return text :: (← renderAllFrom rest)

end

/-- The text of a tree. -/
def render (tree : Tree) : String :=
  ((tree.renderFrom true).run []).1

/-- Components that are rendered one by one. -/
theorem mapM_eq_renderAllFrom {ids : List TypeId} {tree : TypeId → Tree}
    {renderOne : TypeId → StateM (List TypeId) String}
    (each : ∀ id ∈ ids, renderOne id = (tree id).renderFrom false) :
    ids.mapM renderOne = renderAllFrom (ids.map tree) := by
  induction ids with
  | nil => rw [List.mapM_nil, List.map_nil, renderAllFrom]
  | cons id rest ih =>
    rw [List.mapM_cons, List.map_cons, renderAllFrom, each id List.mem_cons_self,
      ih (List.forall_mem_of_forall_mem_cons each)]

end Tree

namespace Store

variable {store : Store} {id : TypeId}

/-- The height only has to exceed the index. -/
theorem WellFormed.renderWithin_eq (wf : store.WellFormed) {height : Nat}
    (enough : id < height) (outermost : Bool) :
    store.renderWithin height outermost id = (store.tree id).renderFrom outermost := by
  induction height generalizing id outermost with
  | zero => exact absurd enough (Nat.not_lt_zero id)
  | succ height ih =>
    have lower : ∀ {part}, part < id → part < height :=
      fun below => Nat.lt_of_lt_of_le below (Nat.le_of_lt_succ enough)
    rw [renderWithin]
    cases shapeEq : store.shape id with
    | primitive which => rw [tree_of_primitive shapeEq, Tree.renderFrom]
    | function domain codomain =>
      rw [wf.tree_of_function shapeEq, Tree.renderFrom]
      simp only [ih (lower (wf.domain_lt shapeEq)),
        ih (lower (wf.codomain_lt shapeEq)), store.kind_tree]
    | list element =>
      rw [wf.tree_of_list shapeEq, Tree.renderFrom]
      simp only [ih (lower (wf.element_lt shapeEq))]
    | tuple parts =>
      rw [wf.tree_of_tuple shapeEq, Tree.renderFrom]
      simp only [Tree.mapM_eq_renderAllFrom fun part mem =>
        ih (lower (wf.part_lt shapeEq mem)) false]
    | var number => rw [tree_of_var shapeEq, Tree.renderFrom]
    | quantified binders body =>
      rw [wf.tree_of_quantified shapeEq, Tree.renderFrom]
      simp only [ih (lower (wf.body_lt shapeEq))]

theorem WellFormed.render_eq (wf : store.WellFormed) (id : TypeId) :
    store.render id = (store.tree id).render := by
  rw [render, wf.renderWithin_eq (Nat.lt_succ_self id), Tree.render]

end Store
end PipeCheck
