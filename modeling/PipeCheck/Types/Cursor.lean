import PipeCheck.Text.Blank
import PipeCheck.Text.Bytes
import PipeCheck.Types.View

/-!
# Reading a written type

A cursor stands between the part of a written type that has been read and the
rest.  It also carries the names in scope and the store in which the type is
being built, so a failed reading leaves its types in the store.
-/

namespace PipeCheck

/-- Why a written type cannot be read.  Offsets count bytes. -/
inductive ReadError where
  | unexpectedEnd
  | unexpectedChar (character : Char) (offset : Nat)
  | unknownType (name : String) (offset : Nat)
  | expected (what : String) (offset : Nat)
  | trailingInput (offset : Nat)
deriving DecidableEq, Repr

namespace ReadError

/-- What went wrong, in one phrase. -/
def message : ReadError → String
  | .unexpectedEnd => "unexpected end of type"
  | .unexpectedChar character offset =>
    "unexpected character `" ++ character.toString ++ "` at offset " ++ offset.repr
  | .unknownType name offset => "unknown type `" ++ name ++ "` at offset " ++ offset.repr
  | .expected what offset => "expected " ++ what ++ " at offset " ++ offset.repr
  | .trailingInput offset => "unexpected input after type at offset " ++ offset.repr

end ReadError

/-- A place in a written type, with the variables named so far. -/
structure Cursor where
  /-- The text still to be read. -/
  rest : List Char
  /-- The number of bytes read. -/
  offset : Nat := 0
  /-- The variables of the enclosing quantifiers, the innermost first. -/
  scope : List (String × TypeId) := []
  /-- The variables that no quantifier binds, in order of first appearance. -/
  free : List (String × TypeId) := []
  /-- The store in which the type is built. -/
  store : Store

/-- Whether a character may occur in a name. -/
def isNameChar (character : Char) : Bool :=
  character.isAlphanum || character = '_'

namespace Cursor

/-- Moves over the longest run of characters of a class, which is returned. -/
def takeWhile (cursor : Cursor) (accept : Char → Bool) : List Char × Cursor :=
  let taken := cursor.rest.takeWhile accept
  (taken,
    { cursor with
      rest := cursor.rest.dropWhile accept
      offset := cursor.offset + Text.byteCount taken })

/-- Moves over white space. -/
def skipBlanks (cursor : Cursor) : Cursor :=
  (cursor.takeWhile Text.isBlank).2

/-- Moves over a token that stands right here. -/
def token? (cursor : Cursor) (token : String) : Option Cursor :=
  if token.toList.isPrefixOf cursor.rest then
    some
      { cursor with
        rest := cursor.rest.drop token.length
        offset := cursor.offset + token.utf8ByteSize }
  else
    none

end Cursor

/-- Computations that read a written type. -/
abbrev Reader := ExceptT ReadError (StateM Cursor)

namespace Reader

/-- Creates types in the cursor's store. -/
def alloc {α : Type} (create : Alloc α) : Reader α :=
  modifyGetThe Cursor fun cursor =>
    let (value, store) := create.run cursor.store
    (value, { cursor with store })

/-- Moves over white space. -/
def skipBlanks : Reader Unit :=
  modify Cursor.skipBlanks

/-- Moves over a token that stands right here, if it does. -/
def token (text : String) : Reader Bool :=
  modifyGet fun cursor =>
    match cursor.token? text with
    | some next => (true, next)
    | none => (false, cursor)

/-- Moves over white space and then over a token, if it is there. -/
def accept (text : String) : Reader Bool := do
  skipBlanks
  token text

/-- Moves over white space and a token that must follow. -/
def expect (text : String) : Reader Unit := do
  if ← accept text then
    return
  let cursor ← get
  if cursor.rest.isEmpty then
    throw .unexpectedEnd
  else
    throw (.expected text cursor.offset)

/-- Moves over the longest name right here, which may be empty. -/
def name : Reader String :=
  modifyGet fun cursor =>
    let (taken, next) := cursor.takeWhile isNameChar
    (String.ofList taken, next)

/-- Moves over an apostrophe and the name that must follow it. -/
def varName : Reader String := do
  if ← token "'" then
    let name ← name
    if name.isEmpty then
      throw (.expected "type variable name" (← get).offset)
    else
      return name
  else
    let cursor ← get
    if cursor.rest.isEmpty then
      throw .unexpectedEnd
    else
      throw (.expected "type variable" cursor.offset)

/-- The variable that a name denotes: of the innermost quantifier that binds
it, or else the one unbound variable of that name, created at its first use. -/
def resolveVar (name : String) : Reader TypeId := do
  let cursor ← get
  match cursor.scope.lookup name with
  | some id => return id
  | none =>
    match cursor.free.lookup name with
    | some id => return id
    | none =>
      let id ← alloc Alloc.var
      modify fun cursor => { cursor with free := cursor.free ++ [(name, id)] }
      return id

/-- Creates a variable and brings it into scope under a name. -/
def bindVar (name : String) : Reader TypeId := do
  let id ← alloc Alloc.var
  modify fun cursor => { cursor with scope := (name, id) :: cursor.scope }
  return id

/-- Runs a reading and then leaves the scopes it has entered. -/
def restoringScope {α : Type} (read : Reader α) : Reader α := do
  let scope := (← get).scope
  let value ← read
  modify fun cursor => { cursor with scope }
  return value

end Reader
end PipeCheck
