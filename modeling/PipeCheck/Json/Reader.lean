import PipeCheck.Json.Value

/-!
# Reading JSON text

The reader takes exactly the JSON grammar: no comments, no trailing commas, no
leading zeros, and nothing but spaces, tabs and line ends between tokens.
Nesting is not limited here.
-/

namespace PipeCheck
namespace Json

/-- Computations that read a JSON text from its beginning. -/
abbrev Scan := StateT (List Char) Option

namespace Scan

/-- Whether a character may stand between tokens. -/
def isSpace (character : Char) : Bool :=
  character = ' ' || character = '\t' || character = '\n' || character = '\r'

/-- Moves over white space. -/
def skipSpace : Scan Unit :=
  modify fun rest => rest.dropWhile isSpace

/-- Moves over a given text, if it is there. -/
def accept (text : String) : Scan Bool :=
  modifyGet fun rest =>
    if text.toList.isPrefixOf rest then (true, rest.drop text.length) else (false, rest)

/-- Moves over a given text that must follow. -/
def expect (text : String) : Scan Unit := do
  if ← accept text then return else failure

/-- The value of a hexadecimal digit. -/
def hexValue? (character : Char) : Option Nat :=
  if '0' ≤ character ∧ character ≤ '9' then some (character.toNat - '0'.toNat)
  else if 'a' ≤ character ∧ character ≤ 'f' then some (character.toNat - 'a'.toNat + 10)
  else if 'A' ≤ character ∧ character ≤ 'F' then some (character.toNat - 'A'.toNat + 10)
  else none

/-- The code that four hexadecimal digits name. -/
def hexCode? (first second third fourth : Char) : Option Nat := do
  return ((← hexValue? first) * 16 + (← hexValue? second)) * 256 +
    (← hexValue? third) * 16 + (← hexValue? fourth)

/-- The code of a character after a backslash. -/
def escapeCode? (character : Char) : Option Nat :=
  match character with
  | '"' => some 34
  | '\\' => some 92
  | '/' => some 47
  | 'b' => some 8
  | 'f' => some 12
  | 'n' => some 10
  | 'r' => some 13
  | 't' => some 9
  | _ => none

/-- Reads the codes of a string literal after its opening quote.  `read` holds
the codes so far, the latest first. -/
def stringCodes (read : List Nat) : List Char → Option (List Nat × List Char)
  | [] => none
  | '"' :: rest => some (read.reverse, rest)
  | '\\' :: 'u' :: first :: second :: third :: fourth :: rest =>
    match hexCode? first second third fourth with
    | some code => stringCodes (code :: read) rest
    | none => none
  | '\\' :: escaped :: rest =>
    match escapeCode? escaped with
    | some code => stringCodes (code :: read) rest
    | none => none
  | character :: rest =>
    if character.toNat < 32 ∨ character = '\\' then none
    else stringCodes (character.toNat :: read) rest

/-- Whether a code is the first half of a surrogate pair. -/
def isHighSurrogate (code : Nat) : Bool :=
  0xD800 ≤ code && code ≤ 0xDBFF

/-- Whether a code is the second half of a surrogate pair. -/
def isLowSurrogate (code : Nat) : Bool :=
  0xDC00 ≤ code && code ≤ 0xDFFF

/-- The characters that codes name, surrogate pairs joined; nothing if a
surrogate is left alone. -/
def characters? : List Nat → Option (List Char)
  | [] => some []
  | [code] =>
    if isHighSurrogate code || isLowSurrogate code then none else some [Char.ofNat code]
  | code :: next :: rest =>
    if isHighSurrogate code then
      if isLowSurrogate next then
        (characters? rest).map
          (Char.ofNat (0x10000 + (code - 0xD800) * 0x400 + (next - 0xDC00)) :: ·)
      else
        none
    else if isLowSurrogate code then
      none
    else
      (characters? (next :: rest)).map (Char.ofNat code :: ·)

/-- Reads a string literal. -/
def string : Scan (Option String) := do
  expect "\""
  let codes ← fun rest => stringCodes [] rest
  return (characters? codes).map String.ofList

/-- Moves over the longest run of digits, which must not be empty. -/
def digits : Scan (List Char) := do
  let taken ← modifyGet fun rest =>
    (rest.takeWhile Char.isDigit, rest.dropWhile Char.isDigit)
  if taken.isEmpty then failure else return taken

/-- The number that decimal digits denote. -/
def digitsValue (digits : List Char) : Nat :=
  digits.foldl (fun value digit => value * 10 + (digit.toNat - '0'.toNat)) 0

/-- Reads the digits before a point; a zero stands alone. -/
def wholePart : Scan Nat := do
  if ← accept "0" then return 0 else return digitsValue (← digits)

/-- Moves over a fraction, if there is one. -/
def fraction : Scan Bool := do
  if ← accept "." then
    let _ ← digits
    return true
  else
    return false

/-- Moves over one of two texts, the first if both are there. -/
def acceptEither (first second : String) : Scan Bool := do
  if ← accept first then return true else accept second

/-- Moves over an exponent, if there is one. -/
def exponent : Scan Bool := do
  if ← acceptEither "e" "E" then
    let _ ← acceptEither "+" "-"
    let _ ← digits
    return true
  else
    return false

/-- Reads a number. -/
def number : Scan Numeral := do
  let negative ← accept "-"
  let whole ← wholePart
  let hasFraction ← fraction
  let hasExponent ← exponent
  if hasFraction || hasExponent || (negative && whole = 0) then
    return .decimal
  else if negative then
    return .integer (-whole)
  else
    return .integer whole

mutual

/-- Reads a value. -/
def value : Nat → Scan Json
  | 0 => failure
  | fuel + 1 => do
    skipSpace
    if ← accept "\x7b" then
      skipSpace
      if ← accept "\x7d" then
        return .object []
      else
        return .object (← members fuel)
    else if ← accept "[" then
      skipSpace
      if ← accept "]" then
        return .array []
      else
        return .array (← items fuel)
    else if ← accept "null" then
      return .null
    else if ← accept "true" then
      return .bool true
    else if ← accept "false" then
      return .bool false
    else if (← get).head? = some '"' then
      return .string (← string)
    else
      return .number (← number)

/-- Reads the items of an array up to its closing bracket. -/
def items : Nat → Scan (List Json)
  | 0 => failure
  | fuel + 1 => do
    let first ← value fuel
    skipSpace
    if ← accept "," then
      return first :: (← items fuel)
    else
      expect "]"
      return [first]

/-- Reads the members of an object up to its closing bracket. -/
def members : Nat → Scan (List (Option String × Json))
  | 0 => failure
  | fuel + 1 => do
    skipSpace
    let key ← string
    skipSpace
    expect ":"
    let first ← value fuel
    skipSpace
    if ← accept "," then
      return (key, first) :: (← members fuel)
    else
      expect "\x7d"
      return [(key, first)]

end

/-- Reads a value that fills the whole text. -/
def document (fuel : Nat) : Scan Json := do
  let json ← value fuel
  skipSpace
  if (← get).isEmpty then return json else failure

end Scan

/-- The nesting depth that a document may have. -/
def nestingLimit : Nat := 127

/-- The value that a text denotes.  Of two nested readings at least one moves
over a character, which bounds their depth. -/
def parse? (text : String) : Option Json :=
  (Scan.document (2 * text.length + 2)).run' text.toList

end Json
end PipeCheck
