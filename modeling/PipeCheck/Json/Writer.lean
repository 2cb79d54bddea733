import PipeCheck.Json.Value

/-!
# JSON text

Values as text, either without any white space or laid out over several lines
with two spaces for each level.
-/

namespace PipeCheck
namespace Json

/-- The four hexadecimal digits of an escape. -/
def hexDigits (code : Nat) : String :=
  String.ofList
    [Nat.digitChar (code / 4096 % 16), Nat.digitChar (code / 256 % 16),
      Nat.digitChar (code / 16 % 16), Nat.digitChar (code % 16)]

/-- A character inside a string literal. -/
def escapeChar (character : Char) : String :=
  match character with
  | '"' => "\\\""
  | '\\' => "\\\\"
  | '\n' => "\\n"
  | '\r' => "\\r"
  | '\t' => "\\t"
  | _ =>
    if character.toNat = 8 then "\\b"
    else if character.toNat = 12 then "\\f"
    else if character.toNat < 32 then "\\u" ++ hexDigits character.toNat
    else character.toString

/-- A string literal. -/
def quote : Option String → String
  | some content => "\"" ++ String.join (content.toList.map escapeChar) ++ "\""
  | none => "\"\\ud800\""

/-- The text of a number; a number that is not whole is written as zero with a
fraction. -/
def numeralText : Numeral → String
  | .integer value => value.repr
  | .decimal => "0.0"

mutual

/-- A value without white space. -/
def compact : Json → String
  | .null => "null"
  | .bool value => if value then "true" else "false"
  | .number numeral => numeralText numeral
  | .string content => quote content
  | .array items => "[" ++ ",".intercalate (compactItems items) ++ "]"
  | .object members => "\x7b" ++ ",".intercalate (compactMembers members) ++ "\x7d"

/-- The items of an array, each without white space. -/
def compactItems : List Json → List String
  | [] => []
  | item :: rest => compact item :: compactItems rest

/-- The members of an object, each without white space. -/
def compactMembers : List (Option String × Json) → List String
  | [] => []
  | (key, value) :: rest => (quote key ++ ":" ++ compact value) :: compactMembers rest

end

/-- A line break and the indentation of a level. -/
def newLine (level : Nat) : String :=
  "\n" ++ "".pushn ' ' (2 * level)

/-- Brackets around parts that stand on lines of their own; without parts
nothing stands between the brackets. -/
def layOut (level : Nat) (opening closing : String) (parts : List String) : String :=
  if parts.isEmpty then
    opening ++ closing
  else
    opening ++ newLine (level + 1) ++ ("," ++ newLine (level + 1)).intercalate parts ++
      newLine level ++ closing

mutual

/-- A value over several lines, at a level of indentation. -/
def prettyAt (level : Nat) : Json → String
  | .null => "null"
  | .bool value => if value then "true" else "false"
  | .number numeral => numeralText numeral
  | .string content => quote content
  | .array items => layOut level "[" "]" (prettyItems (level + 1) items)
  | .object members => layOut level "\x7b" "\x7d" (prettyMembers (level + 1) members)

/-- The items of an array, each over several lines. -/
def prettyItems (level : Nat) : List Json → List String
  | [] => []
  | item :: rest => prettyAt level item :: prettyItems level rest

/-- The members of an object, each over several lines. -/
def prettyMembers (level : Nat) : List (Option String × Json) → List String
  | [] => []
  | (key, value) :: rest =>
    (quote key ++ ": " ++ prettyAt level value) :: prettyMembers level rest

end

/-- A value over several lines. -/
def pretty (json : Json) : String :=
  json.prettyAt 0

end Json
end PipeCheck
