/-!
# JSON values

A value keeps what a JSON text can say: the order of members, repeated keys,
and string literals that name no text because an escape stands for half of a
surrogate pair.
-/

namespace PipeCheck

/-- The value of a number, as far as it matters here. -/
inductive Numeral where
  | integer (value : Int)
  /-- A number with a fraction or an exponent, or a negative zero. -/
  | decimal
deriving DecidableEq, Repr

/-- A JSON value.  The content of a string or a key is absent if the literal
has an unpaired surrogate. -/
inductive Json where
  | null
  | bool (value : Bool)
  | number (numeral : Numeral)
  | string (content : Option String)
  | array (items : List Json)
  | object (members : List (Option String × Json))

namespace Json

/-- A string with a text. -/
def text (content : String) : Json :=
  .string (some content)

/-- A natural number. -/
def nat (value : Nat) : Json :=
  .number (.integer value)

/-- An object whose keys are texts. -/
def record (fields : List (String × Json)) : Json :=
  .object (fields.map fun field => (some field.1, field.2))

mutual

/-- The number of arrays and objects around the innermost value. -/
def depth : Json → Nat
  | .null => 0
  | .bool _ => 0
  | .number _ => 0
  | .string _ => 0
  | .array items => itemsDepth items + 1
  | .object members => membersDepth members + 1

/-- The depth of the deepest item. -/
def itemsDepth : List Json → Nat
  | [] => 0
  | item :: rest => max (depth item) (itemsDepth rest)

/-- The depth of the deepest member. -/
def membersDepth : List (Option String × Json) → Nat
  | [] => 0
  | (_, value) :: rest => max (depth value) (membersDepth rest)

end

/-- The text of a string. -/
def text? : Json → Option String
  | .string content => content
  | _ => none

/-- The value of a boolean. -/
def bool? : Json → Option Bool
  | .bool value => some value
  | _ => none

/-- The items of an array. -/
def items? : Json → Option (List Json)
  | .array items => some items
  | _ => none

/-- A whole number of at least `least` and below `bound`. -/
def int? (least bound : Int) : Json → Option Int
  | .number (.integer value) => if least ≤ value ∧ value < bound then some value else none
  | _ => none

/-- An unsigned number of 32 bits. -/
def uint32? (json : Json) : Option UInt32 :=
  (json.int? 0 UInt32.size).map fun value => value.toNat.toUInt32

/-- An unsigned number of 64 bits. -/
def uint64? (json : Json) : Option UInt64 :=
  (json.int? 0 UInt64.size).map fun value => value.toNat.toUInt64

/-- A signed number of 64 bits. -/
def int64? (json : Json) : Option Int64 :=
  (json.int? Int64.minValue.toInt (Int64.maxValue.toInt + 1)).map Int.toInt64

/-- A value that may also be null. -/
def optional? {α : Type} (decode : Json → Option α) : Json → Option (Option α)
  | .null => some none
  | json => (decode json).map some

end Json
end PipeCheck
