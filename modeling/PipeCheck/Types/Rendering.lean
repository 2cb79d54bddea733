import PipeCheck.Types.View

/-!
# Types as text

A rendered type names its variables `'a`, `'b`, … in order of first appearance
in the text of its body.  Only the outermost quantifier is written out.
-/

namespace PipeCheck
namespace Rendering

/-- The number of variables that get a name of their own. -/
def nameLimit : Nat := 26

/-- The name that all further variables share. -/
def exhaustedName : String := "'?"

/-- The name of the variable that was met as number `place`. -/
def nameAt (place : Nat) : String :=
  if place < nameLimit then
    "'" ++ String.singleton (Char.ofNat ('a'.toNat + place))
  else
    exhaustedName

/-- The name of a variable, given the variables met so far; a new one is added
to them. -/
def name (id : TypeId) : StateM (List TypeId) String :=
  modifyGet fun met =>
    if met.contains id then (nameAt (met.idxOf id), met)
    else (nameAt met.length, met ++ [id])

/-- The text of a primitive type. -/
def primitive : Primitive → String
  | .unit => "()"
  | .int => "Int"
  | .num => "Num"
  | .bool => "Bool"
  | .str => "Str"
  | .file => "File"
  | .invalid => "<invalid>"

/-- Whether a parameter of this kind needs parentheses. -/
def needsParentheses : Kind → Bool
  | .function => true
  | .quantified => true
  | _ => false

end Rendering

namespace Store

/-- Renders a type up to a height, given the variables met so far. -/
def renderWithin (store : Store) :
    (height : Nat) → (outermost : Bool) → TypeId → StateM (List TypeId) String
  | 0, _, _ => pure ""
  | height + 1, outermost, id =>
    match store.shape id with
    | .primitive which => pure (Rendering.primitive which)
    | .function domain codomain => do
      let domainText ← store.renderWithin height false domain
      let codomainText ← store.renderWithin height false codomain
      if Rendering.needsParentheses (store.kind domain) then
        return "(" ++ domainText ++ ") -> " ++ codomainText
      else
        return domainText ++ " -> " ++ codomainText
    | .list element => do
      let elementText ← store.renderWithin height false element
      return "[" ++ elementText ++ "]"
    | .tuple components => do
      let texts ← components.mapM (store.renderWithin height false)
      return "(" ++ ", ".intercalate texts ++ ")"
    | .var _ => Rendering.name id
    | .quantified binders body => do
      let bodyText ← store.renderWithin height false body
      if outermost then
        let names ← binders.mapM Rendering.name
        return "forall " ++ ", ".intercalate names ++ ". " ++ bodyText
      else
        return bodyText

/-- The text of a type. -/
def render (store : Store) (id : TypeId) : String :=
  ((store.renderWithin (id + 1) true id).run []).1

end Store
end PipeCheck
