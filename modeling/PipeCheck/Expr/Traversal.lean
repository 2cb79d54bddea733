import PipeCheck.Expr.Basic

/-!
# Walking an expression

The nodes of a tree in pre-order, the numbering of nodes in that order, and
the binding of references that have no symbol yet.
-/

namespace PipeCheck
namespace Expr

mutual

/-- The nodes of a tree, each before its subexpressions. -/
def preorder (expr : Expr) : List Expr :=
  expr :: match expr with
    | .reference _ _ _ => []
    | .literal _ _ => []
    | .list _ items => preorderAll items
    | .tuple _ items => preorderAll items
    | .apply _ function arguments => preorderAll arguments ++ preorder function
    | .pipe _ argument function => preorder argument ++ preorder function
    | .binary _ _ left right => preorder left ++ preorder right
    | .definition _ _ init => preorder init
    | .placeholder _ => []

/-- The nodes of several trees, one tree after the other. -/
def preorderAll : List Expr → List Expr
  | [] => []
  | expr :: rest => preorder expr ++ preorderAll rest

end

mutual

/-- Numbers the nodes of a tree in pre-order from `next` on; the first number
not used is returned with the tree. -/
def numberFrom (next : NodeId) : Expr → Expr × NodeId
  | .reference site name symbol => (.reference { site with id := next } name symbol, next + 1)
  | .literal site value => (.literal { site with id := next } value, next + 1)
  | .list site items =>
    let (items, after) := numberAllFrom (next + 1) items
    (.list { site with id := next } items, after)
  | .tuple site items =>
    let (items, after) := numberAllFrom (next + 1) items
    (.tuple { site with id := next } items, after)
  | .apply site function arguments =>
    let (arguments, between) := numberAllFrom (next + 1) arguments
    let (function, after) := numberFrom between function
    (.apply { site with id := next } function arguments, after)
  | .pipe site argument function =>
    let (argument, between) := numberFrom (next + 1) argument
    let (function, after) := numberFrom between function
    (.pipe { site with id := next } argument function, after)
  | .binary site op left right =>
    let (left, between) := numberFrom (next + 1) left
    let (right, after) := numberFrom between right
    (.binary { site with id := next } op left right, after)
  | .definition site symbol init =>
    let (init, after) := numberFrom (next + 1) init
    (.definition { site with id := next } symbol init, after)
  | .placeholder site => (.placeholder { site with id := next }, next + 1)

/-- Numbers the nodes of several trees, one tree after the other. -/
def numberAllFrom (next : NodeId) : List Expr → List Expr × NodeId
  | [] => ([], next)
  | expr :: rest =>
    let (expr, between) := numberFrom next expr
    let (rest, after) := numberAllFrom between rest
    (expr :: rest, after)

end

/-- The tree with its nodes numbered from zero in pre-order. -/
def numbered (expr : Expr) : Expr :=
  (numberFrom 0 expr).1

/-- The number of nodes, as numbering counts them. -/
def nodeCount (expr : Expr) : NodeId :=
  (numberFrom 0 expr).2

mutual

/-- Gives every reference without symbol the one that its name denotes, if it
denotes one. -/
def bindNames (lookup : String → Option SymbolId) : Expr → Expr
  | .reference site name symbol => .reference site name (symbol <|> lookup name)
  | .literal site value => .literal site value
  | .list site items => .list site (bindAllNames lookup items)
  | .tuple site items => .tuple site (bindAllNames lookup items)
  | .apply site function arguments =>
    .apply site (bindNames lookup function) (bindAllNames lookup arguments)
  | .pipe site argument function =>
    .pipe site (bindNames lookup argument) (bindNames lookup function)
  | .binary site op left right =>
    .binary site op (bindNames lookup left) (bindNames lookup right)
  | .definition site symbol init => .definition site symbol (bindNames lookup init)
  | .placeholder site => .placeholder site

/-- Binds the references in several trees. -/
def bindAllNames (lookup : String → Option SymbolId) : List Expr → List Expr
  | [] => []
  | expr :: rest => bindNames lookup expr :: bindAllNames lookup rest

end

/-- The name of a reference that has no symbol. -/
def unboundName? : Expr → Option String
  | .reference _ name none => some name
  | _ => none

end Expr
end PipeCheck
