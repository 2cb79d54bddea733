/-!
# Scopes

Scopes form a tree that only grows.  One scope is current; leaving it makes its
parent current and keeps it in the tree.  Names are looked up from the current
scope outwards, the newest binding first.
-/

namespace PipeCheck

/-- The number of a symbol in its table. -/
abbrev SymbolId := UInt32

/-- The number of a scope in its tree. -/
abbrev ScopeId := Nat

/-- Names bound in one place, inside another scope unless it is the global
one. -/
structure Scope where
  /-- The number of the scope. -/
  id : ScopeId
  /-- The scope around it. -/
  parent : Option ScopeId
  /-- Bindings in order of definition; later ones hide earlier ones. -/
  bindings : List (String × SymbolId)

namespace Scope

/-- The newest binding of a name in a scope. -/
def find? (scope : Scope) (name : String) : Option SymbolId :=
  scope.bindings.reverse.lookup name

end Scope

/-- All scopes opened so far and the current one. -/
structure ScopeTree where
  /-- All scopes; a scope's number is its place. -/
  scopes : Array Scope
  /-- The innermost open scope. -/
  current : ScopeId

namespace ScopeTree

/-- The number of the global scope. -/
def global : ScopeId := 0

/-- The tree that holds only the global scope. -/
def new : ScopeTree :=
  { scopes := #[{ id := global, parent := none, bindings := [] }], current := global }

/-- The scope with a given number. -/
def get? (tree : ScopeTree) (id : ScopeId) : Option Scope :=
  tree.scopes[id]?

/-- Opens a scope inside the current one and makes it current. -/
def push (tree : ScopeTree) : ScopeTree :=
  let id := tree.scopes.size
  { scopes := tree.scopes.push { id, parent := some tree.current, bindings := [] }
    current := id }

/-- Makes the parent of the current scope current; the global scope stays. -/
def pop (tree : ScopeTree) : ScopeTree :=
  match (tree.get? tree.current).bind Scope.parent with
  | some parent => { tree with current := parent }
  | none => tree

/-- Binds a name in the current scope. -/
def define (tree : ScopeTree) (name : String) (symbol : SymbolId) : ScopeTree :=
  { tree with
    scopes := tree.scopes.modify tree.current fun scope =>
      { scope with bindings := scope.bindings ++ [(name, symbol)] } }

/-- A scope and the scopes around it, the innermost first, up to a number of
steps. -/
def chainWithin (tree : ScopeTree) : Nat → ScopeId → List Scope
  | 0, _ => []
  | steps + 1, id =>
    match tree.get? id with
    | none => []
    | some scope =>
      scope :: match scope.parent with
        | none => []
        | some parent => tree.chainWithin steps parent

/-- A scope and the scopes around it, the innermost first.  A parent is opened
before its children, so no chain is longer than the tree is large. -/
def chain (tree : ScopeTree) (id : ScopeId) : List Scope :=
  tree.chainWithin tree.scopes.size id

/-- The symbol that a name denotes in the current scope. -/
def lookup (tree : ScopeTree) (name : String) : Option SymbolId :=
  (tree.chain tree.current).findSome? fun scope => scope.find? name

/-- Whether one scope is another or lies anywhere inside it. -/
def isInside (tree : ScopeTree) (inner outer : ScopeId) : Bool :=
  (tree.chain inner).any fun scope => scope.id = outer

end ScopeTree
end PipeCheck
