import PipeCheck.Types.Store

/-!
# Views of a stored type

Most questions about a type look through one outermost quantifier.  The tree of
a type unfolds all of it, with variables named by their index.
-/

namespace PipeCheck

/-- A type with its components in place of their indices.  A variable is named
by its index in the store. -/
inductive Tree where
  | primitive (which : Primitive)
  | function (domain codomain : Tree)
  | list (element : Tree)
  | tuple (components : List Tree)
  | var (id : TypeId)
  | quantified (binders : List TypeId) (body : Tree)

namespace Store

/-- The body of a quantified type, and any other type itself. -/
def body (store : Store) (id : TypeId) : TypeId :=
  match store.shape id with
  | .quantified _ body => body
  | _ => id

/-- The variables of an outermost quantifier. -/
def binders (store : Store) (id : TypeId) : List TypeId :=
  match store.shape id with
  | .quantified binders _ => binders
  | _ => []

/-- Whether a type has a kind, looking through one quantifier. -/
def isKind (store : Store) (kind : Kind) (id : TypeId) : Bool :=
  store.kind (store.body id) = kind

/-- Whether a type is invalid, looking through one quantifier. -/
def isInvalid (store : Store) (id : TypeId) : Bool :=
  store.isKind (.primitive .invalid) id

/-- Whether a type is a function, looking through one quantifier. -/
def isFunction (store : Store) (id : TypeId) : Bool :=
  store.isKind .function id

/-- Whether a type is a list, looking through one quantifier. -/
def isList (store : Store) (id : TypeId) : Bool :=
  store.isKind .list id

/-- Whether a type is a tuple, looking through one quantifier. -/
def isTuple (store : Store) (id : TypeId) : Bool :=
  store.isKind .tuple id

/-- The element of a list type, looking through one quantifier. -/
def element? (store : Store) (id : TypeId) : Option TypeId :=
  match store.shape (store.body id) with
  | .list element => some element
  | _ => none

/-- The components of a tuple type, looking through one quantifier. -/
def components? (store : Store) (id : TypeId) : Option (List TypeId) :=
  match store.shape (store.body id) with
  | .tuple components => some components
  | _ => none

/-- The tree of a type, unfolded to a given height. -/
def treeWithin (store : Store) : Nat → TypeId → Tree
  | 0, _ => .primitive .invalid
  | height + 1, id =>
    match store.shape id with
    | .primitive which => .primitive which
    | .function domain codomain =>
      .function (store.treeWithin height domain) (store.treeWithin height codomain)
    | .list element => .list (store.treeWithin height element)
    | .tuple components => .tuple (components.map (store.treeWithin height))
    | .var _ => .var id
    | .quantified binders body => .quantified binders (store.treeWithin height body)

/-- The tree of a type.  Components are stored before the types that mention
them, so an index bounds the height of its tree. -/
def tree (store : Store) (id : TypeId) : Tree :=
  store.treeWithin (id + 1) id

end Store
end PipeCheck
