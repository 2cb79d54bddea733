import PipeCheck.Analysis.Typing
import PipeCheck.Program.Declarations
import PipeCheck.Program.Document

/-!
# Loading a document

The builtin functions are declared in the global scope and the document's own
symbols in a scope inside it, so a document may hide a builtin.  A symbol that
is declared again is passed over with an error.  References without symbol are
bound by name, and the nodes are numbered.
-/

namespace PipeCheck

/-- A document with its names bound and its nodes numbered. -/
structure Program where
  /-- The source text. -/
  source : String
  /-- The settings of the analysis. -/
  config : Config
  /-- The expression with bound names. -/
  expr : Expr
  /-- The symbols and their types. -/
  declared : Declarations
  /-- The names that cannot be used. -/
  nameErrors : List NameError

namespace Program

/-- Declares the symbols of a document.  The errors of those that are declared
again are returned in order. -/
def declareAll : List Declaration → Declarations →
    Except BadType (Declarations × List NameError)
  | [], declared => .ok (declared, [])
  | declaration :: rest, declared =>
    match declared.names.checkRedeclaration declaration.name declaration.span with
    | .error error => do
      let (declared, errors) ← declareAll rest declared
      return (declared, error :: errors)
    | .ok () => do
      let declared ← declared.declare declaration.name declaration.span declaration.type
      declareAll rest declared

/-- The error of a reference that has no symbol and whose name denotes none. -/
def undefinedReference? (names : Names) (node : Expr) : Option NameError :=
  node.unboundName?.bind fun name =>
    match names.resolve name node.span with
    | .ok _ => none
    | .error error => some error

/-- Loads a document; fails at the first written type that cannot be read. -/
def load (document : Document) : Except BadType Program := do
  let builtins ← ({} : Declarations).declareBuiltins
  let inner := { builtins with names := builtins.names.push }
  let (declared, redeclared) ← declareAll document.declarations inner
  let undefined := document.expr.preorder.filterMap (undefinedReference? declared.names)
  return {
    source := document.source
    config := document.config
    expr := (document.expr.bindNames declared.names.scopes.lookup).numbered
    declared
    nameErrors := redeclared ++ undefined }

/-- The symbols and types that the program's analysis starts from. -/
def environment (program : Program) : Environment :=
  { table := program.declared.names.table, types := program.declared.types }

/-- Analyses a program under given settings. -/
def analyse (program : Program) (config : Config) : Except MalformedType Analysis × Store :=
  Analysis.run config program.environment program.declared.store program.expr

end Program
end PipeCheck
