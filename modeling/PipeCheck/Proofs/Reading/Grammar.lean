import Mathlib.Data.List.TakeWhile
import PipeCheck.Types.Grammar

/-!
# The rules of written types

The rules say which sequences of tokens are a written type and what it says.
They know neither a place in a text nor how far a reader has to look ahead.
A text spells its tokens one after the other, with white space before each of
them and at the end.
-/

namespace PipeCheck

open List

/-- What a written type says, before its names are resolved. -/
inductive Written where
  | primitive (which : Primitive)
  | var (name : String)
  | list (element : Written)
  | tuple (components : List Written)
  | function (domain codomain : Written)
  | quantified (names : List String) (body : Written)

/-- A text of name characters only. -/
def IsWord (text : String) : Prop :=
  ∀ character ∈ text.toList, isNameChar character

instance (text : String) : Decidable (IsWord text) :=
  decidable_of_iff (text.toList.all isNameChar = true) List.all_eq_true

namespace Written

/-- A name has at least one character. -/
def IsName (name : String) : Prop :=
  name ≠ "" ∧ IsWord name

instance (name : String) : Decidable (IsName name) :=
  inferInstanceAs (Decidable (name ≠ "" ∧ IsWord name))

/-- The token of a variable. -/
def primed (name : String) : String :=
  "'" ++ name

@[simp] theorem toList_primed (name : String) : (primed name).toList = '\'' :: name.toList := by
  simp [primed]

/-- The tokens of the variables of a quantifier. -/
def listed (names : List String) : List String :=
  (names.map primed).intersperse ","

@[simp] theorem listed_singleton (name : String) : listed [name] = [primed name] := rfl

@[simp] theorem listed_cons_cons (first second : String) (rest : List String) :
    listed (first :: second :: rest) = primed first :: "," :: listed (second :: rest) := rfl

end Written

/-- The kinds of phrase that make up a written type. -/
inductive Phrase where
  | type
  /-- A type that no arrow divides. -/
  | atom
  /-- The components of a tuple after the first one. -/
  | further
deriving DecidableEq, Repr

/-- The tokens of a phrase and what they say.  Parentheses around a type say
nothing. -/
inductive Phrase.Derives : Phrase → Written → List String → Prop
  | quantified {names : List String} {body : Written} {tokens : List String} :
      names ≠ [] → (∀ name ∈ names, Written.IsName name) → Derives .type body tokens →
      Derives .type (.quantified names body) ("forall" :: Written.listed names ++ "." :: tokens)
  | atom {written : Written} {tokens : List String} :
      Derives .atom written tokens → Derives .type written tokens
  | function {domain codomain : Written} {tokens others : List String} :
      Derives .atom domain tokens → Derives .type codomain others →
      Derives .type (.function domain codomain) (tokens ++ "->" :: others)
  | var {name : String} :
      Written.IsName name → Derives .atom (.var name) [Written.primed name]
  | list {element : Written} {tokens : List String} :
      Derives .type element tokens → Derives .atom (.list element) ("[" :: tokens ++ ["]"])
  | unit : Derives .atom (.primitive .unit) ["(", ")"]
  | group {written : Written} {tokens : List String} :
      Derives .type written tokens → Derives .atom written ("(" :: tokens ++ [")"])
  | tuple {first second : Written} {rest : List Written} {tokens others : List String} :
      Derives .type first tokens → Derives .further (.tuple (second :: rest)) others →
      Derives .atom (.tuple (first :: second :: rest)) ("(" :: tokens ++ others ++ [")"])
  | invalid : Derives .atom (.primitive .invalid) ["<invalid>"]
  | name {text : String} {which : Primitive} :
      (text, which) ∈ [("Int", .int), ("Num", .num), ("Bool", .bool), ("Str", .str),
        ("File", .file)] →
      Derives .atom (.primitive which) [text]
  | done : Derives .further (.tuple []) []
  | next {first : Written} {rest : List Written} {tokens others : List String} :
      Derives .type first tokens → Derives .further (.tuple rest) others →
      Derives .further (.tuple (first :: rest)) ("," :: tokens ++ others)

/-- One type in parentheses says itself, several say a tuple. -/
theorem Phrase.Derives.parentheses {first : Written} {rest : List Written}
    {tokens others : List String} (derivesFirst : Phrase.type.Derives first tokens)
    (derivesRest : Phrase.further.Derives (.tuple rest) others) :
    ∃ written, Phrase.atom.Derives written ("(" :: (tokens ++ (others ++ [")"]))) := by
  cases rest with
  | nil =>
    cases derivesRest
    exact ⟨_, derivesFirst.group⟩
  | cons second rest =>
    exact ⟨_, by simpa using derivesFirst.tuple derivesRest⟩

namespace Text

/-- A text consists of tokens, with white space before each of them and at the
end.  A token of name characters only is a whole word: no name character
follows it. -/
inductive Spells : List String → List Char → Prop
  | done {blanks : List Char} : (∀ blank ∈ blanks, isBlank blank) → Spells [] blanks
  | token {token : String} {tokens : List String} {blanks rest : List Char} :
      (∀ blank ∈ blanks, isBlank blank) →
      (IsWord token → ∀ next ∈ rest.head?, ¬isNameChar next) →
      Spells tokens rest → Spells (token :: tokens) (blanks ++ token.toList ++ rest)

end Text

/-- A text is a written type that says this. -/
def Written.IsText (written : Written) (text : String) : Prop :=
  ∃ tokens, Phrase.type.Derives written tokens ∧ Text.Spells tokens text.toList

namespace Text

theorem isNameChar_eq_false_of_isBlank {char : Char} (blank : isBlank char) :
    isNameChar char = false := by
  have code : char.toNat ≤ 32 ∨ 123 ≤ char.toNat := by
    simp only [isBlank, blankRanges, any_cons, any_nil, Bool.or_false, Bool.or_eq_true,
      Bool.and_eq_true, decide_eq_true_eq] at blank
    omega
  have classes : isNameChar char =
      (decide ('A'.val ≤ char.val ∧ char.val ≤ 'Z'.val) ||
        ('a'.val ≤ char.val && char.val ≤ 'z'.val) ||
        ('0'.val ≤ char.val && char.val ≤ '9'.val) || decide (char = '_')) := rfl
  by_contra isName
  simp only [Bool.not_eq_false, classes, Bool.or_eq_true, Bool.and_eq_true, decide_eq_true_eq,
    UInt32.le_iff_toNat_le, Char.toNat_val] at isName
  rcases isName with ((upper | lower) | digit) | rfl
  · simp at upper
    omega
  · simp at lower
    omega
  · simp at digit
    omega
  · simp at code

section Spelling

variable {token : String} {tokens : List String} {text : List Char}

/-- White space in front makes no difference. -/
theorem Spells.blanks_append (spells : Spells tokens text) {blanks : List Char}
    (areBlank : ∀ blank ∈ blanks, isBlank blank) :
    Spells tokens (blanks ++ text) := by
  cases spells with
  | done allBlank =>
    refine .done ?_
    intro blank mem
    rcases mem_append.1 mem with inFront | inText
    · exact areBlank blank inFront
    · exact allBlank blank inText
  | @token token tokens more rest moreBlank wholeWord spells =>
    have bothBlank : ∀ blank ∈ blanks ++ more, isBlank blank := by
      intro blank mem
      rcases mem_append.1 mem with inFront | inMore
      · exact areBlank blank inFront
      · exact moreBlank blank inMore
    have spelled := Spells.token bothBlank wholeWord spells
    simpa only [append_assoc] using spelled

/-- Whether a token starts with something other than white space. -/
def isVisible (token : String) : Bool :=
  token.toList.head?.any fun character => !isBlank character

/-- The first character of the first token. -/
def lead (tokens : List String) : Option Char :=
  tokens.head?.bind fun token => token.toList.head?

theorem exists_toList_of_isVisible (visible : isVisible token) :
    ∃ first rest, token.toList = first :: rest ∧ isBlank first = false := by
  unfold isVisible at visible
  cases chars : token.toList with
  | nil => simp [chars] at visible
  | cons first rest => exact ⟨first, rest, rfl, by simpa [chars] using visible⟩

/-- After the white space comes the first token. -/
theorem Spells.exists_rest (visible : isVisible token) (spells : Spells (token :: tokens) text) :
    ∃ rest, text.dropWhile isBlank = token.toList ++ rest ∧
      (IsWord token → ∀ next ∈ rest.head?, ¬isNameChar next) ∧ Spells tokens rest := by
  obtain ⟨first, others, toList, notBlank⟩ := exists_toList_of_isVisible visible
  cases spells with
  | @token _ _ blanks rest areBlank wholeWord spells =>
    refine ⟨rest, ?_, wholeWord, spells⟩
    rw [append_assoc, dropWhile_append_of_pos areBlank, toList, cons_append,
      dropWhile_cons_of_neg (by simp [notBlank])]

theorem Spells.dropWhile_nil (spells : Spells [] text) : text.dropWhile isBlank = [] := by
  cases spells with
  | done areBlank => exact dropWhile_eq_nil_iff.2 areBlank

section

variable (visible : ∀ token ∈ tokens, isVisible token) (spells : Spells tokens text)

include visible spells

theorem Spells.head?_dropWhile :
    (text.dropWhile isBlank).head? = lead tokens := by
  cases tokens with
  | nil => simp [spells.dropWhile_nil, lead]
  | cons token tokens =>
    have tokenVisible := visible token mem_cons_self
    obtain ⟨rest, restEq, _, _⟩ := spells.exists_rest tokenVisible
    obtain ⟨first, others, toList, _⟩ := exists_toList_of_isVisible tokenVisible
    simp [restEq, toList, lead]

theorem Spells.dropWhile :
    Spells tokens (text.dropWhile isBlank) := by
  cases tokens with
  | nil =>
    rw [spells.dropWhile_nil]
    exact .done (forall_mem_nil _)
  | cons token tokens =>
    obtain ⟨rest, restEq, wholeWord, restSpells⟩ := spells.exists_rest (visible token mem_cons_self)
    rw [restEq]
    exact .token (forall_mem_nil _) wholeWord restSpells

/-- Every token takes room. -/
theorem Spells.length_le :
    tokens.length ≤ text.length := by
  induction spells with
  | done areBlank => exact Nat.zero_le _
  | @token token tokens blanks rest areBlank wholeWord spells ih =>
    obtain ⟨first, others, toList, _⟩ :=
      exists_toList_of_isVisible (visible token mem_cons_self)
    have restLength := ih fun token mem => visible token (mem_cons_of_mem _ mem)
    simp only [toList, length_append, length_cons]
    omega

end

end Spelling
end Text

namespace Written

variable {names : List String}

theorem not_isWord_primed (name : String) : ¬IsWord (primed name) := by
  intro isWord
  have isNameChar := isWord '\'' (by simp)
  revert isNameChar
  decide

theorem isVisible_primed (name : String) : Text.isVisible (primed name) := by
  simp only [Text.isVisible, toList_primed, head?_cons, Option.any_some]
  decide

theorem isVisible_of_mem_listed {token : String} (mem : token ∈ listed names) :
    Text.isVisible token := by
  induction names with
  | nil => simp [listed] at mem
  | cons first rest ih =>
    cases rest with
    | nil =>
      rw [listed_singleton, mem_singleton] at mem
      exact mem ▸ isVisible_primed first
    | cons second rest =>
      rw [listed_cons_cons, mem_cons, mem_cons] at mem
      rcases mem with rfl | rfl | mem
      · exact isVisible_primed first
      · decide
      · exact ih mem

theorem length_le_length_listed : names.length ≤ (listed names).length := by
  induction names with
  | nil => exact Nat.zero_le _
  | cons first rest ih =>
    cases rest with
    | nil => simp
    | cons second rest =>
      simp only [listed_cons_cons, length_cons] at ih ⊢
      omega

end Written

namespace Phrase

open Text

/-- The characters that the first token of a phrase may start with; the last
components of a tuple may have no token. -/
def leads : Phrase → List Char
  | .type => ['f', '\'', '[', '(', '<', 'I', 'N', 'B', 'S', 'F']
  | .atom => ['\'', '[', '(', '<', 'I', 'N', 'B', 'S', 'F']
  | .further => [',']

namespace Derives

variable {phrase : Phrase} {written : Written} {tokens : List String}

theorem isVisible_of_mem (derives : phrase.Derives written tokens) :
    ∀ token ∈ tokens, isVisible token := by
  induction derives with
  | quantified _ _ _ ih =>
    rw [cons_append, forall_mem_cons, forall_mem_append, forall_mem_cons]
    exact ⟨by decide, fun _ => Written.isVisible_of_mem_listed, by decide, ih⟩
  | atom _ ih => exact ih
  | function _ _ domainIH codomainIH =>
    rw [forall_mem_append, forall_mem_cons]
    exact ⟨domainIH, by decide, codomainIH⟩
  | @var name _ => exact forall_mem_singleton.2 (Written.isVisible_primed name)
  | list _ ih =>
    rw [cons_append, forall_mem_cons, forall_mem_append, forall_mem_singleton]
    exact ⟨by decide, ih, by decide⟩
  | unit => decide
  | group _ ih =>
    rw [cons_append, forall_mem_cons, forall_mem_append, forall_mem_singleton]
    exact ⟨by decide, ih, by decide⟩
  | tuple _ _ firstIH restIH =>
    rw [cons_append, cons_append, forall_mem_cons, forall_mem_append,
      forall_mem_append, forall_mem_singleton]
    exact ⟨by decide, ⟨firstIH, restIH⟩, by decide⟩
  | invalid => decide
  | @name text which mem =>
    rw [forall_mem_singleton]
    simp only [mem_cons, Prod.mk.injEq, not_mem_nil, or_false] at mem
    rcases mem with ⟨rfl, _⟩ | ⟨rfl, _⟩ | ⟨rfl, _⟩ | ⟨rfl, _⟩ | ⟨rfl, _⟩ <;> decide
  | done => simp
  | next _ _ firstIH restIH =>
    rw [cons_append, forall_mem_cons, forall_mem_append]
    exact ⟨by decide, firstIH, restIH⟩

/-- A phrase that is not empty starts with one of its leads. -/
theorem lead_mem (derives : phrase.Derives written tokens) :
    (tokens = [] ∧ phrase = .further) ∨
      ∀ following, ∃ first ∈ phrase.leads, lead (tokens ++ following) = some first := by
  induction derives with
  | quantified => exact .inr fun following => ⟨'f', by decide, rfl⟩
  | atom derives ih =>
    right
    intro following
    obtain ⟨first, mem, leadEq⟩ := ih.resolve_left (by simp) following
    exact ⟨first, mem_cons_of_mem 'f' mem, leadEq⟩
  | @function domain codomain tokens others derivesDomain _ domainIH _ =>
    right
    intro following
    obtain ⟨first, mem, leadEq⟩ :=
      domainIH.resolve_left (by simp) ("->" :: others ++ following)
    refine ⟨first, mem_cons_of_mem 'f' mem, ?_⟩
    rw [← leadEq, append_assoc]
  | var => exact .inr fun following => ⟨'\'', by decide, by simp [lead]⟩
  | list => exact .inr fun following => ⟨'[', by decide, rfl⟩
  | unit | group | tuple => exact .inr fun following => ⟨'(', by decide, rfl⟩
  | invalid => exact .inr fun following => ⟨'<', by decide, rfl⟩
  | @name text which mem =>
    right
    intro following
    simp only [mem_cons, Prod.mk.injEq, not_mem_nil, or_false] at mem
    rcases mem with ⟨rfl, _⟩ | ⟨rfl, _⟩ | ⟨rfl, _⟩ | ⟨rfl, _⟩ | ⟨rfl, _⟩ <;>
      exact ⟨_, by decide, rfl⟩
  | done => exact .inl ⟨rfl, rfl⟩
  | next => exact .inr fun following => ⟨',', by decide, rfl⟩

end Derives
end Phrase

namespace Reader

/-- What is read after an opening parenthesis: the unit type, a type in parentheses or
a tuple. -/
def parenthesised (fuel : Nat) : Reader TypeId := do
  if ← accept ")" then
    alloc (Alloc.primitive .unit)
  else
    let first ← type fuel
    if ← accept ")" then
      return first
    else
      let others ← components fuel
      expect ")"
      alloc (Alloc.tuple (first :: others))

end Reader
end PipeCheck
