import PipeCheck.Json.Value

/-!
# Objects with fixed fields

A record with fixed fields is written as an object, whose other members are
ignored, or as an array of the fields in order.  An enumeration is written as a
name, or as an object that maps the name to null.
-/

namespace PipeCheck
namespace Json

/-- The members of an object whose keys are among the names; nothing if a key
is not a text. -/
def knownMembers? (names : List String) :
    List (Option String × Json) → Option (List (String × Json))
  | [] => some []
  | (none, _) :: _ => none
  | (some key, value) :: rest =>
    (knownMembers? names rest).map fun known =>
      if names.contains key then (key, value) :: known else known

/-- Whether no key occurs twice. -/
def keysDistinct : List (String × Json) → Bool
  | [] => true
  | (key, _) :: rest => (rest.lookup key).isNone && keysDistinct rest

/-- The fields of a record, by name.  An array may leave out fields at the end
but must have at least `least` items; an object may leave out any field but
must not repeat one. -/
def fields? (names : List String) (least : Nat) : Json → Option (List (String × Json))
  | .array items =>
    if least ≤ items.length ∧ items.length ≤ names.length then
      some (names.zip items)
    else
      none
  | .object members =>
    (knownMembers? names members).bind fun known =>
      if keysDistinct known then some known else none
  | _ => none

/-- A field that must be there. -/
def required? {α : Type} (fields : List (String × Json)) (name : String)
    (decode : Json → Option α) : Option α :=
  (fields.lookup name).bind decode

/-- A field with a value for its absence. -/
def defaulted? {α : Type} (fields : List (String × Json)) (name : String) (absent : α)
    (decode : Json → Option α) : Option α :=
  match fields.lookup name with
  | some json => decode json
  | none => some absent

/-- The name of an enumerated value; the object form takes one level. -/
def variant? : (depth : Nat) → Json → Option String
  | _, .string content => content
  | _ + 1, .object [(some name, .null)] => some name
  | _, _ => none

end Json
end PipeCheck
