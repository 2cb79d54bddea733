/-!
# Byte counts of text

Offsets into a text count the bytes of its UTF-8 form.
-/

namespace PipeCheck
namespace Text

/-- The number of bytes that encode a list of characters. -/
def byteCount (characters : List Char) : Nat :=
  characters.foldr (fun character count => character.utf8Size + count) 0

@[simp] theorem byteCount_nil : byteCount [] = 0 := rfl

@[simp] theorem byteCount_cons (character : Char) (rest : List Char) :
    byteCount (character :: rest) = character.utf8Size + byteCount rest := rfl

@[simp] theorem byteCount_append (left right : List Char) :
    byteCount (left ++ right) = byteCount left + byteCount right := by
  induction left with
  | nil => simp
  | cons character rest ih => simp [ih, Nat.add_assoc]

/-- The characters from a byte offset on; a character that the offset cuts is
dropped. -/
def dropBytes : Nat → List Char → List Char
  | 0, characters => characters
  | _ + 1, [] => []
  | count + 1, character :: rest => dropBytes (count + 1 - character.utf8Size) rest

end Text
end PipeCheck
