import PipeCheck.Names.Symbol
import PipeCheck.Types.Grammar

/-!
# Declared symbols and their types

Declarations bring names into scope and build the types that are written with
them.  Every program can use the builtin functions declared here.
-/

namespace PipeCheck

/-- Names in scope, the types of their symbols, and the store of those types. -/
structure Declarations where
  /-- The names in scope. -/
  names : Names := {}
  /-- The types of symbols that have one. -/
  types : List (SymbolId × TypeId) := []
  /-- The store of these types. -/
  store : Store := {}

/-- A written type that cannot be read, and the symbol it was declared for. -/
structure BadType where
  /-- The symbol's name. -/
  symbol : String
  /-- Why its type cannot be read. -/
  error : ReadError
deriving DecidableEq, Repr

namespace Declarations

/-- Declares a name in the current scope, with a written type or without. -/
def declare (declared : Declarations) (name : String) (span : Span)
    (written : Option String) : Except BadType Declarations :=
  let named := { declared with names := declared.names.declare name span }
  match written with
  | none => .ok named
  | some text =>
    match (Alloc.read text).run.run declared.store with
    | (.ok type, store) =>
      .ok { named with types := (declared.names.table.nextId, type) :: declared.types, store }
    | (.error error, _) => .error { symbol := name, error }

/-- The builtin functions and their written types. -/
def builtins : List (String × String) :=
  [("size", "File -> Int"),
    ("read", "File -> Str"),
    ("lines", "Str -> [Str]"),
    ("exists", "File -> Bool"),
    ("cat", "[File] -> Str"),
    ("count", "forall 'a. ['a] -> Int"),
    ("head", "forall 'a. ['a] -> 'a"),
    ("id", "forall 'a. 'a -> 'a"),
    ("pair", "forall 'a, 'b. 'a -> 'b -> ('a, 'b)")]

/-- Declares the builtin functions, which have no place in any source text. -/
def declareBuiltins (declared : Declarations) : Except BadType Declarations :=
  builtins.foldlM (fun declared builtin => declared.declare builtin.1 {} (some builtin.2)) declared

end Declarations
end PipeCheck
