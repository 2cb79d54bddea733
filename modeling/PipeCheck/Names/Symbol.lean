import PipeCheck.Names.Scope
import PipeCheck.Source.Span

/-!
# Symbols

A table lists the declared symbols in order.  Together with a scope tree it
answers what a name denotes and whether declaring it again is an error.
-/

namespace PipeCheck

/-- A declared symbol. -/
structure Symbol where
  /-- The number of the symbol. -/
  id : SymbolId
  /-- Its name; symbols that no program text names have none. -/
  name : Option String
  /-- The scope that it was declared in. -/
  scope : ScopeId
  /-- Where it was declared. -/
  span : Span
deriving DecidableEq, Repr

/-- What can be wrong with a name, and where. -/
inductive NameError where
  | duplicateDefinition (name : String) (previous span : Span)
  | undefinedSymbol (name : String) (span : Span)
deriving DecidableEq, Repr

namespace NameError

/-- What is wrong, in one phrase. -/
def message : NameError → String
  | .duplicateDefinition name _ _ => "symbol named `" ++ name ++ "` already declared"
  | .undefinedSymbol name _ => "undefined symbol `" ++ name ++ "`"

/-- Where the error is. -/
def span : NameError → Span
  | .duplicateDefinition _ _ span => span
  | .undefinedSymbol _ span => span

end NameError

/-- All declared symbols, in order of declaration. -/
structure SymbolTable where
  /-- The symbols; a symbol's number is its place. -/
  symbols : Array Symbol := #[]

namespace SymbolTable

/-- The number of symbols. -/
def size (table : SymbolTable) : Nat :=
  table.symbols.size

/-- The number of the next symbol. -/
def nextId (table : SymbolTable) : SymbolId :=
  table.size.toUInt32

/-- The symbol with a given number. -/
def get? (table : SymbolTable) (id : SymbolId) : Option Symbol :=
  table.symbols[id.toNat]?

/-- Adds a symbol under the next number. -/
def insert (table : SymbolTable) (name : Option String) (scope : ScopeId) (span : Span) :
    SymbolTable :=
  { symbols := table.symbols.push { id := table.nextId, name, scope, span } }

/-- The name of a symbol for a message. -/
def displayName (table : SymbolTable) : Option SymbolId → String
  | none => "<no symbol attached>"
  | some id =>
    match table.get? id with
    | none => "<unknown symbol>"
    | some symbol => symbol.name.getD "<unnamed symbol>"

end SymbolTable

/-- The symbols of a program and the scopes that name them. -/
structure Names where
  /-- The declared symbols. -/
  table : SymbolTable := {}
  /-- The scopes that name them. -/
  scopes : ScopeTree := ScopeTree.new

namespace Names

/-- Opens a scope inside the current one. -/
def push (names : Names) : Names :=
  { names with scopes := names.scopes.push }

/-- Leaves the current scope. -/
def pop (names : Names) : Names :=
  { names with scopes := names.scopes.pop }

/-- Declares a name in the current scope, where it hides earlier ones.  The
new symbol has the next number of the table. -/
def declare (names : Names) (name : String) (span : Span) : Names :=
  { table := names.table.insert (some name) names.scopes.current span
    scopes := names.scopes.define name names.table.nextId }

/-- The symbol that a name already denotes in the current scope itself. -/
def previous? (names : Names) (name : String) : Option Symbol :=
  ((names.scopes.lookup name).bind names.table.get?).filter fun symbol =>
    names.scopes.isInside symbol.scope names.scopes.current

/-- Fails if a name is already declared in the current scope; names of
enclosing scopes may be hidden. -/
def checkRedeclaration (names : Names) (name : String) (span : Span) :
    Except NameError Unit :=
  match names.previous? name with
  | some previous => .error (.duplicateDefinition name previous.span span)
  | none => .ok ()

/-- The symbol that a name denotes in the current scope. -/
def resolve (names : Names) (name : String) (span : Span) : Except NameError SymbolId :=
  match names.scopes.lookup name with
  | some id => .ok id
  | none => .error (.undefinedSymbol name span)

end Names
end PipeCheck
