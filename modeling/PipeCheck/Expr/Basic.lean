import PipeCheck.Names.Scope
import PipeCheck.Source.Span

/-!
# Expressions

An expression tree as a parser leaves it.  Every node has an id, by which
results are attached to it, and the span of source text it was read from.
-/

namespace PipeCheck

/-- The id of a node. -/
abbrev NodeId := UInt32

/-- The id of a node that has not been numbered. -/
def NodeId.unnumbered : NodeId := 4294967295

/-- The id and the span of a node. -/
structure Site where
  /-- The number of the node. -/
  id : NodeId := NodeId.unnumbered
  /-- Its place in the source. -/
  span : Span := {}
deriving DecidableEq, Repr

/-- Operators with two operands, the pipe apart. -/
inductive BinaryOp where
  | write
  | and
  | or
  | eq
  | ne
  | lt
  | le
  | gt
  | ge
  | add
  | sub
  | concat
  | mul
  | div
  | mod
deriving DecidableEq, Repr

namespace BinaryOp

/-- The operator as written in a program. -/
def text : BinaryOp → String
  | .write => "|>"
  | .and => "&&"
  | .or => "||"
  | .eq => "=="
  | .ne => "!="
  | .lt => "<"
  | .le => "<="
  | .gt => ">"
  | .ge => ">="
  | .add => "+"
  | .sub => "-"
  | .concat => "++"
  | .mul => "*"
  | .div => "/"
  | .mod => "%"

end BinaryOp

/-- Values written out in a program. -/
inductive Literal where
  /-- A quoted string. -/
  | str (text : String)
  /-- A bare path. -/
  | file (path : String)
  /-- A path with a wildcard. -/
  | glob (pattern : String)
  | int (value : Int64)
  | bool (value : Bool)
  | unit
deriving DecidableEq, Repr

/-- An expression tree. -/
inductive Expr where
  /-- A reference by name, bound to a symbol or not. -/
  | reference (site : Site) (name : String) (symbol : Option SymbolId)
  | literal (site : Site) (value : Literal)
  | list (site : Site) (items : List Expr)
  | tuple (site : Site) (items : List Expr)
  /-- A function applied to arguments from left to right. -/
  | apply (site : Site) (function : Expr) (arguments : List Expr)
  /-- An argument piped into a function. -/
  | pipe (site : Site) (argument function : Expr)
  | binary (site : Site) (op : BinaryOp) (left right : Expr)
  /-- The definition of a symbol by an expression. -/
  | definition (site : Site) (symbol : Option SymbolId) (init : Expr)
  /-- What a parser leaves in place of text it could not read. -/
  | placeholder (site : Site)

namespace Expr

/-- The id and the span of the root. -/
def site : Expr → Site
  | .reference site _ _ => site
  | .literal site _ => site
  | .list site _ => site
  | .tuple site _ => site
  | .apply site _ _ => site
  | .pipe site _ _ => site
  | .binary site _ _ _ => site
  | .definition site _ _ => site
  | .placeholder site => site

/-- The id of the root. -/
def id (expr : Expr) : NodeId :=
  expr.site.id

/-- The span of the root. -/
def span (expr : Expr) : Span :=
  expr.site.span

/-- What kind of expression this is, in words. -/
def kindName : Expr → String
  | .reference _ _ _ => "symbol"
  | .literal _ (.str _) => "string literal"
  | .literal _ (.file _) => "file literal"
  | .literal _ (.glob _) => "glob literal"
  | .literal _ (.int _) => "integer literal"
  | .literal _ (.bool _) => "boolean literal"
  | .literal _ .unit => "unit literal"
  | .list _ _ => "list literal"
  | .tuple _ _ => "tuple literal"
  | .apply _ _ _ => "function application"
  | .pipe _ _ _ => "pipe application"
  | .binary _ _ _ _ => "binary operator"
  | .definition _ _ _ => "let binding"
  | .placeholder _ => "invalid expression"

/-- The operator of a binary expression. -/
def op? : Expr → Option BinaryOp
  | .binary _ op _ _ => some op
  | _ => none

/-- The direct subexpressions; the function of an application comes last. -/
def children : Expr → List Expr
  | .reference _ _ _ => []
  | .literal _ _ => []
  | .list _ items => items
  | .tuple _ items => items
  | .apply _ function arguments => arguments ++ [function]
  | .pipe _ argument function => [argument, function]
  | .binary _ _ left right => [left, right]
  | .definition _ _ init => [init]
  | .placeholder _ => []

end Expr
end PipeCheck
