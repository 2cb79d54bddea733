import PipeCheck.Expr.Basic
import PipeCheck.Json.Fields
import PipeCheck.Json.Reader

/-!
# Expressions as JSON values

Every expression has one JSON form; reading also takes the shorter forms in
which ids, spans and symbols are left out.  Reading is limited to a nesting
depth, so that a value's own depth never limits it.
-/

namespace PipeCheck

namespace Span

/-- The JSON form of a span. -/
def toJson (span : Span) : Json :=
  .record [("start", .nat span.start.toNat), ("end", .nat span.stop.toNat)]

/-- Reads a span. -/
def ofJson? : (depth : Nat) → Json → Option Span
  | 0, _ => none
  | _ + 1, json => do
    let fields ← json.fields? ["start", "end"] 2
    let start ← Json.required? fields "start" Json.uint64?
    let stop ← Json.required? fields "end" Json.uint64?
    return { start, stop }

end Span

namespace BinaryOp

/-- The operators by their names in JSON. -/
def named : List (String × BinaryOp) :=
  [("write", .write), ("and", .and), ("or", .or), ("eq", .eq), ("ne", .ne), ("lt", .lt),
    ("le", .le), ("gt", .gt), ("ge", .ge), ("add", .add), ("sub", .sub), ("concat", .concat),
    ("mul", .mul), ("div", .div), ("mod", .mod)]

/-- The name of an operator in JSON. -/
def jsonName : BinaryOp → String
  | .write => "write"
  | .and => "and"
  | .or => "or"
  | .eq => "eq"
  | .ne => "ne"
  | .lt => "lt"
  | .le => "le"
  | .gt => "gt"
  | .ge => "ge"
  | .add => "add"
  | .sub => "sub"
  | .concat => "concat"
  | .mul => "mul"
  | .div => "div"
  | .mod => "mod"

/-- Reads an operator. -/
def ofJson? (depth : Nat) (json : Json) : Option BinaryOp := do
  named.lookup (← json.variant? depth)

end BinaryOp

namespace Literal

/-- The JSON form of a literal. -/
def toJson : Literal → Json
  | .str text => .record [("str", .text text)]
  | .file path => .record [("file", .text path)]
  | .glob pattern => .record [("glob", .text pattern)]
  | .int value => .record [("int", .number (.integer value.toInt))]
  | .bool value => .record [("bool", .bool value)]
  | .unit => .text "unit"

end Literal

namespace Expr

/-- The JSON form of a symbol, null if there is none. -/
def symbolJson : Option SymbolId → Json
  | some symbol => .nat symbol.toNat
  | none => .null

/-- The JSON form of a node, given the form of its content. -/
def nodeJson (site : Site) (kind : Json) : Json :=
  .record [("id", .nat site.id.toNat), ("kind", kind), ("span", site.span.toJson)]

mutual

/-- The JSON form of an expression. -/
def toJson : Expr → Json
  | .reference site name symbol =>
    nodeJson site
      (.record [("symbol", .record [("name", .text name), ("symbol", symbolJson symbol)])])
  | .literal site value => nodeJson site value.toJson
  | .list site items => nodeJson site (.record [("list", .array (allToJson items))])
  | .tuple site items => nodeJson site (.record [("tuple", .array (allToJson items))])
  | .apply site function arguments =>
    nodeJson site
      (.record [("fn_app",
        .record [("func", toJson function), ("args", .array (allToJson arguments))])])
  | .pipe site argument function =>
    nodeJson site
      (.record [("pipe_app", .record [("arg", toJson argument), ("func", toJson function)])])
  | .binary site op left right =>
    nodeJson site
      (.record [("binary",
        .record [("op", .text op.jsonName), ("left", toJson left), ("right", toJson right)])])
  | .definition site symbol init =>
    nodeJson site
      (.record [("let", .record [("symbol", symbolJson symbol), ("init", toJson init)])])
  | .placeholder site => nodeJson site (.text "invalid")

/-- The JSON forms of several expressions. -/
def allToJson : List Expr → List Json
  | [] => []
  | expr :: rest => toJson expr :: allToJson rest

end

/-- A content that has only a name. -/
def ofName? (site : Site) : String → Option Expr
  | "unit" => some (.literal site .unit)
  | "invalid" => some (.placeholder site)
  | _ => none

/-- A content without subexpressions, given its name. -/
def leafOfJson? (depth : Nat) (site : Site) (name : String) (content : Json) : Option Expr :=
  match name with
  | "str" => content.text?.map fun text => .literal site (.str text)
  | "file" => content.text?.map fun path => .literal site (.file path)
  | "glob" => content.text?.map fun pattern => .literal site (.glob pattern)
  | "int" => content.int64?.map fun value => .literal site (.int value)
  | "bool" => content.bool?.map fun value => .literal site (.bool value)
  | "symbol" =>
    match depth with
    | 0 => none
    | _ + 1 => do
      let fields ← content.fields? ["name", "symbol"] 2
      let name ← Json.required? fields "name" Json.text?
      let symbol ← Json.defaulted? fields "symbol" none (Json.optional? Json.uint32?)
      return .reference site name symbol
  | _ =>
    match content with
    | .null => ofName? site name
    | _ => none

mutual

/-- Reads an expression of a limited depth. -/
def ofJsonWithin? : (depth : Nat) → Json → Option Expr
  | 0, _ => none
  | depth + 1, json => do
    let fields ← json.fields? ["id", "kind", "span"] 2
    let id ← Json.defaulted? fields "id" NodeId.unnumbered Json.uint32?
    let span ← Json.defaulted? fields "span" {} (Span.ofJson? depth)
    match ← fields.lookup "kind" with
    | .string (some name) => ofName? { id, span } name
    | .object [(some name, content)] =>
      match depth with
      | 0 => none
      | depth + 1 => contentOfJson? depth { id, span } name content
    | _ => none

/-- Reads the content of a node, given its name. -/
def contentOfJson? : (depth : Nat) → Site → String → Json → Option Expr
  | 0, site, name, content => leafOfJson? 0 site name content
  | depth + 1, site, name, content =>
    match name with
    | "list" => do
      return .list site (← (← content.items?).mapM (ofJsonWithin? depth))
    | "tuple" => do
      return .tuple site (← (← content.items?).mapM (ofJsonWithin? depth))
    | "fn_app" => do
      let fields ← content.fields? ["func", "args"] 2
      let function ← Json.required? fields "func" (ofJsonWithin? depth)
      let arguments ← Json.required? fields "args" Json.items?
      match depth with
      | 0 => none
      | depth + 1 => return .apply site function (← arguments.mapM (ofJsonWithin? depth))
    | "pipe_app" => do
      let fields ← content.fields? ["arg", "func"] 2
      let argument ← Json.required? fields "arg" (ofJsonWithin? depth)
      let function ← Json.required? fields "func" (ofJsonWithin? depth)
      return .pipe site argument function
    | "binary" => do
      let fields ← content.fields? ["op", "left", "right"] 3
      let op ← Json.required? fields "op" (BinaryOp.ofJson? depth)
      let left ← Json.required? fields "left" (ofJsonWithin? depth)
      let right ← Json.required? fields "right" (ofJsonWithin? depth)
      return .binary site op left right
    | "let" => do
      let fields ← content.fields? ["symbol", "init"] 2
      let symbol ← Json.defaulted? fields "symbol" none (Json.optional? Json.uint32?)
      let init ← Json.required? fields "init" (ofJsonWithin? depth)
      return .definition site symbol init
    | _ => leafOfJson? (depth + 1) site name content

end

/-- Reads an expression of any depth. -/
def ofJson? (json : Json) : Option Expr :=
  ofJsonWithin? json.depth json

/-- Reads an expression from its JSON text. -/
def read? (text : String) : Option Expr := do
  ofJsonWithin? Json.nestingLimit (← Json.parse? text)

end Expr
end PipeCheck
