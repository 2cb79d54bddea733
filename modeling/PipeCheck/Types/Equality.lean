import PipeCheck.Types.Rendering

/-!
# Two ways to compare types

`equal` compares types that should be closed and refuses to guess about
variables and quantifiers.  `same` compares any two types, a variable being the
same as itself only.
-/

namespace PipeCheck

/-- A type that does not have the form its use requires. -/
inductive MalformedType where
  /-- Two different variables were compared. -/
  | variableEquality (left right : String)
  /-- Two different quantified types were compared. -/
  | quantifierEquality (left right : String)
  /-- A type was used as a function and is none. -/
  | notAFunction (type : String)
deriving DecidableEq, Repr

namespace MalformedType

/-- What went wrong, in one sentence. -/
def message : MalformedType → String
  | .variableEquality left right =>
    "type variables `" ++ left ++ "` and `" ++ right ++
      "` compared for equality; variables need unification"
  | .quantifierEquality left right =>
    "quantified types `" ++ left ++ "` and `" ++ right ++
      "` compared for equality; quantifiers need unification"
  | .notAFunction type => "`" ++ type ++ "` is not a function type"

end MalformedType

namespace Store

/-- Compares two types up to a height, from left to right, and stops at the
first difference. -/
def equalWithin (store : Store) :
    Nat → TypeId → TypeId → Except MalformedType Bool
  | 0, _, _ => .ok false
  | height + 1, left, right =>
    if left = right then
      .ok true
    else
      match store.shape left, store.shape right with
      | .function leftDomain leftCodomain, .function rightDomain rightCodomain => do
        if ← store.equalWithin height leftDomain rightDomain then
          store.equalWithin height leftCodomain rightCodomain
        else
          return false
      | .list leftElement, .list rightElement =>
        store.equalWithin height leftElement rightElement
      | .tuple leftComponents, .tuple rightComponents =>
        if leftComponents.length = rightComponents.length then
          (leftComponents.zip rightComponents).allM fun pair =>
            store.equalWithin height pair.1 pair.2
        else
          .ok false
      | .var _, .var _ =>
        .error (.variableEquality (store.render left) (store.render right))
      | .quantified _ _, .quantified _ _ =>
        .error (.quantifierEquality (store.render left) (store.render right))
      | _, _ => .ok false

/-- Whether two types are equal, or why they cannot be compared. -/
def equal (store : Store) (left right : TypeId) : Except MalformedType Bool :=
  store.equalWithin (left + 1) left right

/-- Whether two types are the same up to a height. -/
def sameWithin (store : Store) : Nat → TypeId → TypeId → Bool
  | 0, _, _ => false
  | height + 1, left, right =>
    left = right ||
      match store.shape left, store.shape right with
      | .function leftDomain leftCodomain, .function rightDomain rightCodomain =>
        store.sameWithin height leftDomain rightDomain &&
          store.sameWithin height leftCodomain rightCodomain
      | .list leftElement, .list rightElement =>
        store.sameWithin height leftElement rightElement
      | .tuple leftComponents, .tuple rightComponents =>
        leftComponents.length = rightComponents.length &&
          (leftComponents.zip rightComponents).all fun pair =>
            store.sameWithin height pair.1 pair.2
      | .quantified leftBinders leftBody, .quantified rightBinders rightBody =>
        leftBinders = rightBinders && store.sameWithin height leftBody rightBody
      | .primitive leftPrimitive, .primitive rightPrimitive =>
        leftPrimitive = rightPrimitive
      | _, _ => false

/-- Whether two types have the same structure over the same variables. -/
def same (store : Store) (left right : TypeId) : Bool :=
  store.sameWithin (left + 1) left right

end Store
end PipeCheck
