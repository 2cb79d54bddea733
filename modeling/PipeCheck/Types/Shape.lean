/-!
# One level of a type

Types live in a store and refer to each other by index.  This module holds the
index, the primitive types, the shape of one stored type and the kind of a
shape.  It says nothing about how shapes are stored.
-/

namespace PipeCheck

/-- The index of a type in its store, counted from zero in order of creation. -/
abbrev TypeId := Nat

/-- The types without components. -/
inductive Primitive where
  | unit
  | int
  | num
  | bool
  | str
  | file
  /-- The type of an expression that has no type. -/
  | invalid
deriving DecidableEq, Repr

/-- One level of a type, its components given by index. -/
inductive Shape where
  | primitive (which : Primitive)
  | function (domain codomain : TypeId)
  | list (element : TypeId)
  | tuple (components : List TypeId)
  /-- A type variable and its serial number. -/
  | var (number : Nat)
  /-- A body in which the listed variables stand for any type. -/
  | quantified (binders : List TypeId) (body : TypeId)
deriving DecidableEq, Repr

/-- A shape without its components. -/
inductive Kind where
  | primitive (which : Primitive)
  | function
  | list
  | tuple
  | var
  | quantified
deriving DecidableEq, Repr

namespace Kind

/-- Kinds of which a store holds a single type. -/
def isPrimitive : Kind → Bool
  | .primitive _ => true
  | _ => false

end Kind

namespace Shape

/-- The kind of a shape. -/
def kind : Shape → Kind
  | .primitive which => .primitive which
  | .function _ _ => .function
  | .list _ => .list
  | .tuple _ => .tuple
  | .var _ => .var
  | .quantified _ _ => .quantified

/-- Every index that a shape mentions, from left to right. -/
def references : Shape → List TypeId
  | .primitive _ => []
  | .function domain codomain => [domain, codomain]
  | .list element => [element]
  | .tuple components => components
  | .var _ => []
  | .quantified binders body => binders ++ [body]

end Shape
end PipeCheck
