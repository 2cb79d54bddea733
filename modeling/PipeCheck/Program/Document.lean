import PipeCheck.Analysis.Config
import PipeCheck.Expr.Encoding

/-!
# Program documents

A document holds an expression, the symbols it may refer to with their written
types, the settings of its analysis, and the source text that spans point into.
-/

namespace PipeCheck

/-- A symbol that a document declares. -/
structure Declaration where
  /-- The declared name. -/
  name : String
  /-- The written type; a declaration without one leaves its symbol untyped. -/
  type : Option String := none
  /-- Where it is declared. -/
  span : Span := {}
deriving DecidableEq, Repr

/-- A program document. -/
structure Document where
  /-- The source text. -/
  source : String := ""
  /-- The declared symbols, in order. -/
  declarations : List Declaration := []
  /-- The settings of the analysis. -/
  config : Config := {}
  /-- The expression to be typed. -/
  expr : Expr

namespace Declaration

/-- Reads a declaration. -/
def ofJson? : (depth : Nat) → Json → Option Declaration
  | 0, _ => none
  | depth + 1, json => do
    let fields ← json.fields? ["name", "type", "span"] 1
    let name ← Json.required? fields "name" Json.text?
    let type ← Json.defaulted? fields "type" none (Json.optional? Json.text?)
    let span ← Json.defaulted? fields "span" {} (Span.ofJson? depth)
    return { name, type, span }

/-- Reads a list of declarations. -/
def listOfJson? : (depth : Nat) → Json → Option (List Declaration)
  | 0, _ => none
  | depth + 1, json => do
    (← json.items?).mapM (ofJson? depth)

end Declaration

namespace Document

/-- Reads a document of a limited depth. -/
def ofJsonWithin? : (depth : Nat) → Json → Option Document
  | 0, _ => none
  | depth + 1, json => do
    let fields ← json.fields? ["source", "symbols", "config", "expr"] 4
    let source ← Json.defaulted? fields "source" "" Json.text?
    let declarations ← Json.defaulted? fields "symbols" [] (Declaration.listOfJson? depth)
    let config ← Json.defaulted? fields "config" {} (Config.ofJson? depth)
    let expr ← Json.required? fields "expr" (Expr.ofJsonWithin? depth)
    return { source, declarations, config, expr }

/-- Reads a document from its JSON text. -/
def read? (text : String) : Option Document := do
  ofJsonWithin? Json.nestingLimit (← Json.parse? text)

end Document
end PipeCheck
