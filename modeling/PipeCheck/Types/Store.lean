import PipeCheck.Types.Shape

/-!
# The store of types

A store lists shapes in order of creation.  It only grows at its end, a
primitive type is created on its first request and then shared, and every
other request creates a new entry.  Variables are numbered by a counter of
their own.
-/

namespace PipeCheck

/-- Shapes in order of creation, the places of the primitive types that exist,
and the number of variables created so far. -/
structure Store where
  /-- The stored shapes; a type's index is its place here. -/
  shapes : Array Shape := #[]
  /-- Where each primitive type is stored, once it has been requested. -/
  slots : Primitive → Option TypeId := fun _ => none
  /-- The serial number of the next variable. -/
  nextVar : Nat := 0

instance : Inhabited Store := ⟨{}⟩

namespace Store

/-- The store without types. -/
def empty : Store := {}

/-- The number of stored types. -/
def size (store : Store) : Nat :=
  store.shapes.size

/-- The shape at an index; an index outside the store reads as invalid. -/
def shape (store : Store) (id : TypeId) : Shape :=
  (store.shapes[id]?).getD (.primitive .invalid)

/-- The kind of the type at an index. -/
def kind (store : Store) (id : TypeId) : Kind :=
  (store.shape id).kind

/-- The store with one more shape at its end. -/
def extend (store : Store) (shape : Shape) : Store :=
  { store with shapes := store.shapes.push shape }

@[simp] theorem size_extend (store : Store) (shape : Shape) :
    (store.extend shape).size = store.size + 1 := by
  simp [extend, size]

/-- The new entry of an extended store. -/
@[simp] theorem shape_extend_size (store : Store) (shape : Shape) :
    (store.extend shape).shape store.size = shape := by
  simp [extend, size, Store.shape]

/-- The old entries of an extended store. -/
theorem shape_extend_of_lt (store : Store) (shape : Shape) {id : TypeId}
    (inside : id < store.size) :
    (store.extend shape).shape id = store.shape id := by
  unfold size at inside
  simp [extend, Store.shape, Array.getElem?_push, Nat.ne_of_lt inside]

end Store

/-- Computations that create types. -/
abbrev Alloc := StateM Store

/-- A request to share a type that is built from components. -/
structure StructuralKind where
  /-- The requested kind. -/
  kind : Kind
deriving DecidableEq, Repr

namespace Alloc

/-- Creates a new entry. -/
def push (shape : Shape) : Alloc TypeId :=
  modifyGet fun store => (store.size, store.extend shape)

/-- The shared primitive type, created on its first request. -/
def primitive (which : Primitive) : Alloc TypeId :=
  modifyGet fun store =>
    match store.slots which with
    | some id => (id, store)
    | none =>
      (store.size,
        { store.extend (.primitive which) with
          slots := fun other =>
            if other = which then some store.size else store.slots other })

/-- A new function type. -/
def function (domain codomain : TypeId) : Alloc TypeId :=
  push (.function domain codomain)

/-- A new list type. -/
def list (element : TypeId) : Alloc TypeId :=
  push (.list element)

/-- A new tuple type. -/
def tuple (components : List TypeId) : Alloc TypeId :=
  push (.tuple components)

/-- A variable different from all earlier ones. -/
def var : Alloc TypeId :=
  modifyGet fun store =>
    (store.size,
      { store.extend (.var store.nextVar) with nextVar := store.nextVar + 1 })

/-- A new quantified type. -/
def quantified (binders : List TypeId) (body : TypeId) : Alloc TypeId :=
  push (.quantified binders body)

/-- The body under a quantifier, or the body itself when no variable is left. -/
def quantifiedOver (binders : List TypeId) (body : TypeId) : Alloc TypeId :=
  if binders.isEmpty then pure body else quantified binders body

/-- The shared type of a primitive kind. -/
def ofKind : Kind → ExceptT StructuralKind Alloc TypeId
  | .primitive which => primitive which
  | kind => throw ⟨kind⟩

/-- The curried function type over primitive kinds, built from its result
backwards; the empty chain is the unit type. -/
def functionChain : List Kind → ExceptT StructuralKind Alloc TypeId
  | [] => primitive .unit
  | [kind] => ofKind kind
  | kind :: rest => do
    let codomain ← functionChain rest
    let domain ← ofKind kind
    function domain codomain

end Alloc
end PipeCheck
