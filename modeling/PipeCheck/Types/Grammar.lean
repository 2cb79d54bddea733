import PipeCheck.Types.Cursor

/-!
# The grammar of written types

A type is `forall 'a, 'b. T`, `T -> U` with arrows to the right, or an atom: a
variable, a list `[T]`, the unit type `()`, a type in parentheses, a tuple
`(T, U)`, `<invalid>` or one of the five type names.  Variables that no
quantifier binds are quantified at the outermost level.
-/

namespace PipeCheck
namespace Reader

/-- The type names and the types they denote. -/
def typeNames : List (String × Primitive) :=
  [("Int", .int), ("Num", .num), ("Bool", .bool), ("Str", .str), ("File", .file)]

/-- Moves over the word `forall`, if it stands here as a whole word. -/
def forallWord : Reader Bool :=
  modifyGet fun cursor =>
    match cursor.token? "forall" with
    | some next =>
      if (next.rest.head?.map isNameChar).getD false then (false, cursor) else (true, next)
    | none => (false, cursor)

/-- Reads the variables of a quantifier and brings them into scope. -/
def binders : Nat → Reader (List TypeId)
  | 0 => throw .unexpectedEnd
  | fuel + 1 => do
    skipBlanks
    let first ← bindVar (← varName)
    if ← accept "," then
      return first :: (← binders fuel)
    else
      return [first]

/-- Reads a type name. -/
def typeName (offset : Nat) : Reader TypeId := do
  let text ← name
  match typeNames.lookup text with
  | some which => alloc (Alloc.primitive which)
  | none => throw (.unknownType text offset)

mutual

/-- Reads a type. -/
def type : Nat → Reader TypeId
  | 0 => throw .unexpectedEnd
  | fuel + 1 => do
    skipBlanks
    if ← forallWord then
      restoringScope do
        let vars ← binders fuel
        expect "."
        let body ← type fuel
        alloc (Alloc.quantified vars body)
    else
      let domain ← atom fuel
      if ← accept "->" then
        let codomain ← type fuel
        alloc (Alloc.function domain codomain)
      else
        return domain

/-- Reads a type that no arrow divides. -/
def atom : Nat → Reader TypeId
  | 0 => throw .unexpectedEnd
  | fuel + 1 => do
    skipBlanks
    let start := (← get).offset
    match (← get).rest.head? with
    | none => throw .unexpectedEnd
    | some character =>
      if character = '\'' then
        resolveVar (← varName)
      else if ← token "[" then
        let element ← type fuel
        expect "]"
        alloc (Alloc.list element)
      else if ← token "(" then
        if ← accept ")" then
          alloc (Alloc.primitive .unit)
        else
          let first ← type fuel
          if ← accept ")" then
            return first
          else
            let others ← components fuel
            expect ")"
            alloc (Alloc.tuple (first :: others))
      else if ← token "<invalid>" then
        alloc (Alloc.primitive .invalid)
      else if character.isAlpha then
        typeName start
      else
        throw (.unexpectedChar character start)

/-- Reads the components of a tuple after the first one. -/
def components : Nat → Reader (List TypeId)
  | 0 => throw .unexpectedEnd
  | fuel + 1 => do
    if ← accept "," then
      let first ← type fuel
      return first :: (← components fuel)
    else
      return []

end

/-- Quantifies a type over the variables that no quantifier binds, after those
of its own outermost quantifier. -/
def generalise (id : TypeId) : Reader TypeId := do
  let cursor ← get
  let free := cursor.free.map Prod.snd
  if free.isEmpty then
    return id
  else
    alloc (Alloc.quantified (cursor.store.binders id ++ free) (cursor.store.body id))

/-- Reads a type that fills the whole text. -/
def wholeType (fuel : Nat) : Reader TypeId := do
  let id ← type fuel
  skipBlanks
  let cursor ← get
  if cursor.rest.isEmpty then
    generalise id
  else
    throw (.trailingInput cursor.offset)

end Reader

namespace Alloc

/-- A recursion depth that no text of a given length exceeds: of two nested
readings at least one moves over a character. -/
def readingDepth (length : Nat) : Nat :=
  2 * length + 2

/-- Builds the type that a text denotes.  The types created before a failure
stay in the store. -/
def read (text : String) : ExceptT ReadError Alloc TypeId :=
  ExceptT.mk <| modifyGet fun store =>
    let (outcome, cursor) :=
      (Reader.wholeType (readingDepth text.length)).run { rest := text.toList, store }
    (outcome, cursor.store)

end Alloc
end PipeCheck
