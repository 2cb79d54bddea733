/-!
# Styled text

A styled text is shown in a colour or in bold on terminals that are told to do
so by escape sequences.  Without colours it is the text itself.
-/

namespace PipeCheck
namespace Text

/-- The colours in use. -/
inductive Colour where
  | red
  | green
  | yellow
  | blue
  | cyan
deriving DecidableEq, Repr

/-- How a text is shown. -/
structure Style where
  /-- Whether it is bold. -/
  bold : Bool := false
  /-- Whether it is dimmed. -/
  dimmed : Bool := false
  /-- The colour, unless the default. -/
  colour : Option Colour := none
deriving DecidableEq, Repr

/-- The character that starts an escape sequence. -/
def escape : Char := '\x1b'

namespace Colour

/-- The code of a colour. -/
def code : Colour → String
  | .red => "31"
  | .green => "32"
  | .yellow => "33"
  | .blue => "34"
  | .cyan => "36"

end Colour

namespace Style

/-- The codes of a style, brightness first. -/
def codes (style : Style) : List String :=
  (if style.bold then ["1"] else []) ++ (if style.dimmed then ["2"] else []) ++
    (style.colour.map Colour.code).toList

/-- The sequence that switches a style on. -/
def opening (style : Style) : String :=
  escape.toString ++ "[" ++ ";".intercalate style.codes ++ "m"

/-- The sequence that switches all styles off. -/
def reset : String :=
  escape.toString ++ "[0m"

/-- Switches a style on again after every sequence that switches it off. -/
def reopen (opening : List Char) : List Char → List Char
  | '\x1b' :: '[' :: '0' :: 'm' :: rest =>
    '\x1b' :: '[' :: '0' :: 'm' :: (opening ++ reopen opening rest)
  | character :: rest => character :: reopen opening rest
  | [] => []

/-- A text in a style; without colours it stays as it is. -/
def paint (style : Style) (coloured : Bool) (text : String) : String :=
  if coloured then
    style.opening ++ String.ofList (reopen style.opening.toList text.toList) ++ reset
  else
    text

end Style

/-- A text with blanks before it, up to a width. -/
def padLeft (width : Nat) (text : String) : String :=
  "".pushn ' ' (width - text.length) ++ text

/-- A text with blanks after it, up to a width. -/
def padRight (width : Nat) (text : String) : String :=
  text.pushn ' ' (width - text.length)

end Text
end PipeCheck
