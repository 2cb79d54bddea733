import Mathlib.Data.List.DropRight
import PipeCheck.Proofs.Reading.Acceptance
import PipeCheck.Proofs.Reading.Meaning

/-!
# Every token is read

Where a token is the next one in the text, the reading that looks for it finds
it, and one that looks for another token does not.  Names and the variables of
a quantifier are read to their end.
-/

namespace PipeCheck

open List Option Text Cursor Written

namespace Cursor

variable {before after : Cursor} {token : String} {tokens : List String} {char : Char}

/-- The rest of the text spells these tokens. -/
structure Awaits (cursor : Cursor) (tokens : List String) : Prop where
  /-- The tokens are spelled. -/
  spells : Spells tokens cursor.rest
  /-- None starts with white space. -/
  visible : ∀ token ∈ tokens, isVisible token

/-- The rest of the text spells these tokens, and the first one stands right
here. -/
structure Faces (cursor : Cursor) (tokens : List String) : Prop extends cursor.Awaits tokens where
  /-- No blank comes first. -/
  settled : cursor.rest.dropWhile isBlank = cursor.rest

theorem Faces.exists_rest (faces : before.Faces (token :: tokens)) :
    ∃ rest, before.rest = token.toList ++ rest ∧
      (IsWord token → ∀ next ∈ rest.head?, ¬isNameChar next) ∧
      ∀ {after : Cursor}, after.rest = rest → after.Awaits tokens := by
  obtain ⟨rest, restEq, wholeWord, spells⟩ :=
    faces.spells.exists_rest (faces.visible token mem_cons_self)
  refine ⟨rest, faces.settled.symm.trans restEq, wholeWord, ?_⟩
  rintro after rfl
  exact ⟨spells, forall_mem_of_forall_mem_cons faces.visible⟩

theorem Faces.head? (faces : before.Faces tokens) : before.rest.head? = lead tokens := by
  rw [← faces.spells.head?_dropWhile faces.visible, faces.settled]

/-- The tokens after which a variable can end. -/
def closers : List String := ["->", ".", ",", ")", "]"]

/-- What follows cannot belong to a name. -/
def Closes (tokens : List String) : Prop :=
  ∀ token ∈ tokens.head?, token ∈ closers

theorem closes_cons (mem : token ∈ closers) : Closes (token :: tokens) := by
  rintro _ ⟨⟩
  exact mem

theorem closer_head? (mem : token ∈ closers) :
    token.toList.head?.map isNameChar = some false := by
  revert token
  decide

/-- No name goes on before a closing token or at the end. -/
theorem Awaits.stops (awaits : before.Awaits tokens) (closes : Closes tokens) :
    ∀ next ∈ before.rest.head?, ¬isNameChar next := by
  intro next isNext
  obtain ⟨spells, _⟩ := awaits
  generalize before.rest = text at spells isNext
  have notName : isBlank next → ¬isNameChar next := by
    intro blank
    simp [isNameChar_eq_false_of_isBlank blank]
  cases spells with
  | done areBlank => exact notName (areBlank next (mem_of_mem_head? isNext))
  | @token token tokens blanks rest areBlank wholeWord spells =>
    cases blanks with
    | cons blank blanks =>
      cases isNext
      exact notName (areBlank next mem_cons_self)
    | nil =>
      have closed := closer_head? (closes token rfl)
      rw [map_eq_some_iff] at closed
      obtain ⟨first, headEq, isOther⟩ := closed
      rw [nil_append, head?_append, headEq] at isNext
      cases isNext
      simp [isOther]

theorem Awaits.of_rest_eq (awaits : before.Awaits tokens) (restEq : after.rest = before.rest) :
    after.Awaits tokens :=
  ⟨restEq ▸ awaits.spells, awaits.visible⟩

theorem token?_of_rest {rest : List Char} (restEq : before.rest = token.toList ++ rest) :
    ∃ next, before.token? token = some next ∧ next.rest = rest := by
  have isPrefix : token.toList.isPrefixOf before.rest :=
    List.isPrefixOf_iff_prefix.2 ⟨rest, restEq.symm⟩
  refine ⟨_, if_pos isPrefix, ?_⟩
  rw [restEq, ← String.length_toList, drop_left]

theorem token?_eq_none (starts : token.toList.head? = some char)
    (different : before.rest.head? ≠ some char) :
    before.token? token = none := by
  refine if_neg ?_
  intro isPrefix
  obtain ⟨rest, restEq⟩ := List.isPrefixOf_iff_prefix.1 isPrefix
  apply different
  rw [← restEq, head?_append, starts, some_or]

end Cursor

namespace Reader

variable {α : Type} {before : Cursor} {text : String} {tokens : List String}
  {post : α → Cursor → Prop}

/-- A reading that only moves on in the text keeps the names. -/
theorem Moves.succeeds {read : Reader α} (moves : Moves read)
    (succeeds : Succeeds read before post) :
    Succeeds read before fun value after => post value after ∧ after.SameNames before := by
  obtain ⟨value, ok, holds⟩ := succeeds
  exact ⟨value, ok, holds, moves before⟩

theorem Reads.succeeds {read : Reader α} {post other : α → Cursor → Prop}
    (reads : Reads read before other) (succeeds : Succeeds read before post) :
    Succeeds read before fun value after => post value after ∧ other value after := by
  obtain ⟨value, ok, holds⟩ := succeeds
  exact ⟨value, ok, holds, reads.2 value ok⟩

theorem succeeds_skipBlanks (awaits : before.Awaits tokens) :
    Succeeds skipBlanks before fun _ after =>
      after.Faces tokens ∧ after.SameNames before := by
  refine moves_skipBlanks.succeeds ⟨(), rfl, ⟨?_, awaits.visible⟩, dropWhile_idempotent _ _⟩
  exact awaits.spells.dropWhile awaits.visible

theorem succeeds_token (faces : before.Faces (text :: tokens)) :
    Succeeds (token text) before fun found after =>
      (found = true ∧ after.Awaits tokens) ∧ after.SameNames before := by
  refine (moves_token text).succeeds (succeeds_modifyGet ?_)
  obtain ⟨rest, restEq, _, awaits⟩ := faces.exists_rest
  obtain ⟨next, isHere, nextRest⟩ := token?_of_rest restEq
  rw [isHere]
  exact ⟨rfl, awaits nextRest⟩

/-- A token is not found where another character stands. -/
theorem succeeds_token_of_lead_ne (char : Char) (faces : before.Faces tokens)
    (starts : text.toList.head? = some char) (different : lead tokens ≠ some char) :
    Succeeds (token text) before fun found after => found = false ∧ after = before := by
  refine succeeds_modifyGet ?_
  rw [token?_eq_none starts (faces.head? ▸ different)]
  exact ⟨rfl, rfl⟩

theorem succeeds_accept (awaits : before.Awaits (text :: tokens)) :
    Succeeds (accept text) before fun found after =>
      (found = true ∧ after.Awaits tokens) ∧ after.SameNames before := by
  refine (moves_accept text).succeeds ((succeeds_skipBlanks awaits).bind ?_)
  rintro _ start ⟨faces, _⟩
  exact (succeeds_token faces).mono fun found after holds => holds.1

theorem succeeds_accept_of_lead_ne (char : Char) (awaits : before.Awaits tokens)
    (starts : text.toList.head? = some char) (different : lead tokens ≠ some char) :
    Succeeds (accept text) before fun found after =>
      (found = false ∧ after.Awaits tokens) ∧ after.SameNames before := by
  refine (moves_accept text).succeeds ((succeeds_skipBlanks awaits).bind ?_)
  rintro _ start ⟨faces, _⟩
  refine (succeeds_token_of_lead_ne char faces starts different).mono ?_
  rintro found _ ⟨notFound, rfl⟩
  exact ⟨notFound, faces.toAwaits⟩

theorem succeeds_expect (awaits : before.Awaits (text :: tokens)) :
    Succeeds (expect text) before fun _ after =>
      after.Awaits tokens ∧ after.SameNames before := by
  refine (moves_expect text).succeeds ((succeeds_accept awaits).bind ?_)
  rintro _ after ⟨⟨rfl, awaitsRest⟩, _⟩
  exact succeeds_pure awaitsRest

theorem succeeds_forallWord (faces : before.Faces ("forall" :: tokens)) :
    Succeeds forallWord before fun found after =>
      (found = true ∧ after.Awaits tokens) ∧ after.SameNames before := by
  refine moves_forallWord.succeeds (succeeds_modifyGet ?_)
  obtain ⟨rest, restEq, wholeWord, awaits⟩ := faces.exists_rest
  obtain ⟨next, isHere, nextRest⟩ := token?_of_rest restEq
  have noMore : (next.rest.head?.map isNameChar).getD false = false := by
    rw [nextRest]
    cases head : rest.head? with
    | none => rfl
    | some char => simpa using wholeWord (by decide) char head
  simp only [isHere, noMore]
  exact ⟨rfl, awaits nextRest⟩

theorem succeeds_forallWord_of_lead_ne (faces : before.Faces tokens)
    (different : lead tokens ≠ some 'f') :
    Succeeds forallWord before fun found after => found = false ∧ after = before := by
  refine succeeds_modifyGet ?_
  rw [token?_eq_none rfl (faces.head? ▸ different)]
  exact ⟨rfl, rfl⟩

/-- A word is read to its end. -/
theorem succeeds_name {rest : List Char} (isWord : IsWord text)
    (restEq : before.rest = text.toList ++ rest) (stops : ∀ next ∈ rest.head?, ¬isNameChar next) :
    Succeeds name before fun found after => found = text ∧ after.rest = rest := by
  have none : rest.takeWhile isNameChar = [] ∧ rest.dropWhile isNameChar = rest := by
    cases rest with
    | nil => exact ⟨rfl, rfl⟩
    | cons next rest =>
      have stop := stops next rfl
      exact ⟨takeWhile_cons_of_neg stop, dropWhile_cons_of_neg stop⟩
  refine succeeds_modifyGet ⟨?_, ?_⟩
  · change String.ofList (before.rest.takeWhile isNameChar) = text
    rw [restEq, takeWhile_append_of_pos isWord, none.1, append_nil, String.ofList_toList]
  · change before.rest.dropWhile isNameChar = rest
    rw [restEq, dropWhile_append_of_pos isWord, none.2]

theorem succeeds_varName {name : String} (isName : IsName name)
    (faces : before.Faces (primed name :: tokens)) (closes : Closes tokens) :
    Succeeds varName before fun found after =>
      (found = name ∧ after.Awaits tokens) ∧ after.SameNames before := by
  refine moves_varName.succeeds ?_
  obtain ⟨rest, restEq, _, awaits⟩ := faces.exists_rest
  have quoteEq : before.rest = "'".toList ++ (name.toList ++ rest) := by
    rw [restEq, toList_primed]
    rfl
  have found : Succeeds (token "'") before fun found after =>
      found = true ∧ after.rest = name.toList ++ rest := by
    obtain ⟨next, isHere, nextRest⟩ := token?_of_rest quoteEq
    refine succeeds_modifyGet ?_
    rw [isHere]
    exact ⟨rfl, nextRest⟩
  have restAwaits : Awaits { before with rest } tokens := awaits rfl
  refine found.bind ?_
  rintro _ afterQuote ⟨rfl, quoteRest⟩
  refine (succeeds_name isName.2 quoteRest (restAwaits.stops closes)).bind ?_
  rintro _ after ⟨rfl, afterRest⟩
  split
  · next isEmpty => exact absurd (by simpa using isEmpty) isName.1
  · exact succeeds_pure ⟨rfl, awaits afterRest⟩

theorem succeeds_alloc {create : Alloc α}
    (yields : Yields create before.store fun value store => post value { before with store }) :
    Succeeds (alloc create) before post :=
  succeeds_modifyGet yields

/-- A change of names is followed by its value. -/
theorem succeeds_modify_pure {change : Cursor → Cursor} {value : α}
    (holds : post value (change before)) :
    Succeeds (do modify change; pure value : Reader α) before post :=
  ⟨value, rfl, holds⟩

theorem succeeds_primitive {last : Cursor} (valid : before.Valid) (awaits : last.Awaits tokens)
    (same : last.SameNames before) (which : Primitive) :
    Succeeds (alloc (Alloc.primitive which)) last fun id after =>
      after.Awaits tokens ∧ after.Understands before (.primitive which) (after.store.tree id) := by
  apply succeeds_alloc
  refine (Alloc.yields_primitive (same.advances valid).valid.wellFormed which).mono ?_
  intro id store built
  refine ⟨awaits.of_rest_eq rfl, ?_⟩
  rw [built.tree_eq]
  apply understands_primitive
  · exact same.2.1
  · exact same.2.2

/-- A known type name is read as its type. -/
theorem succeeds_typeName {which : Primitive} (mem : (text, which) ∈ typeNames)
    (faces : before.Faces (text :: tokens)) (offset : Nat) (valid : before.Valid) :
    Succeeds (typeName offset) before fun id after =>
      after.Awaits tokens ∧ after.Understands before (.primitive which) (after.store.tree id) := by
  have words : ∀ entry ∈ typeNames,
      IsWord entry.1 ∧ typeNames.lookup entry.1 = some entry.2 := by
    decide
  obtain ⟨isWord, lookupEq⟩ := words _ mem
  obtain ⟨rest, restEq, wholeWord, awaits⟩ := faces.exists_rest
  refine (moves_name.succeeds (succeeds_name isWord restEq (wholeWord isWord))).bind ?_
  rintro _ afterName ⟨⟨rfl, nameRest⟩, same⟩
  rw [lookupEq]
  exact succeeds_primitive valid (awaits nameRest) same which

/-- A name becomes the variable that it denotes from now on. -/
theorem succeeds_resolveVar (valid : before.Valid) (name : String) :
    Succeeds (resolveVar name) before fun id after =>
      after.rest = before.rest ∧ after.Understands before (.var name) (after.store.tree id) := by
  have treeEq : ∀ {id}, before.resolve? name = some id → before.store.tree id = .var id := by
    intro id found
    have named : id ∈ before.scopeIds ∨ id ∈ before.freeIds := by
      rcases or_eq_some_iff.1 found with inScope | ⟨_, isFree⟩
      · exact .inl (mem_map_snd_of_lookup inScope)
      · exact .inr (mem_map_snd_of_lookup isFree)
    obtain ⟨number, isVar⟩ := valid.vars id named
    exact Store.tree_of_var isVar
  refine succeeds_get_bind ?_
  cases inScope : before.scope.lookup name with
  | some id =>
    have found : before.resolve? name = some id := by
      rw [resolve?, inScope, some_or]
    refine succeeds_pure ⟨rfl, ?_⟩
    rw [treeEq found]
    refine understands_var ⟨rfl, prefix_rfl, ?_⟩ found
    simp [inScope]
  | none =>
    cases isFree : before.free.lookup name with
    | some id =>
      have found : before.resolve? name = some id := by
        rw [resolve?, inScope, none_or, isFree]
      refine succeeds_pure ⟨rfl, ?_⟩
      rw [treeEq found]
      refine understands_var ⟨rfl, prefix_rfl, ?_⟩ found
      have known : name ∈ before.free.map Prod.fst := isSome_lookup_iff.1 (isFree ▸ rfl)
      simp [inScope, addNew, known]
    | none =>
      have created : Succeeds (alloc Alloc.var) before fun _ _ => True := succeeds_alloc trivial
      refine ((reads_newVar valid.wellFormed).succeeds created).bind ?_
      rintro id _ ⟨_, store, number, rfl, _, isVar, _⟩
      have unknown : name ∉ before.free.map Prod.fst := by
        rw [← isSome_lookup_iff, isFree]
        simp
      refine succeeds_modify_pure ⟨rfl, ?_⟩
      rw [Store.tree_of_var isVar]
      refine understands_var ⟨rfl, prefix_append _ _, ?_⟩ ?_
      · simp [inScope, addNew, unknown]
      · simp [resolve?, inScope, lookup_append, isFree]

theorem succeeds_bindVar (name : String) :
    Succeeds (bindVar name) before fun id after =>
      after.rest = before.rest ∧ after.scope = (name, id) :: before.scope ∧
        after.free = before.free :=
  ⟨before.store.size, rfl, rfl, rfl, rfl⟩

/-- The variables of a quantifier are read one by one. -/
theorem succeeds_binders {names : List String} {fuel : Nat} (nonempty : names ≠ [])
    (areNames : ∀ name ∈ names, IsName name) (enough : names.length ≤ fuel)
    (awaits : before.Awaits (listed names ++ "." :: tokens)) :
    Succeeds (binders fuel) before fun ids after =>
      after.Awaits ("." :: tokens) ∧ ids.length = names.length ∧
        after.scope = (names.zip ids).reverse ++ before.scope ∧ after.free = before.free := by
  induction names generalizing fuel before with
  | nil => exact absurd rfl nonempty
  | cons first rest ih =>
    cases fuel with
    | zero => simp at enough
    | succ fuel =>
      have firstName := areNames first mem_cons_self
      obtain ⟨following, tokensEq, closes⟩ : ∃ following,
          listed (first :: rest) ++ "." :: tokens =
            primed first :: following ∧ Closes following := by
        cases rest with
        | nil => exact ⟨_, rfl, closes_cons (by decide)⟩
        | cons second rest => exact ⟨_, rfl, closes_cons (by decide)⟩
      rw [binders]
      refine (succeeds_skipBlanks (tokensEq ▸ awaits)).bind ?_
      rintro _ start ⟨faces, _, startScope, startFree⟩
      refine (succeeds_varName firstName faces closes).bind ?_
      rintro name afterName ⟨⟨nameEq, nameAwaits⟩, _, nameScope, nameFree⟩
      refine (succeeds_bindVar name).bind ?_
      rintro id afterVar ⟨varRest, varScope, varFree⟩
      have varAwaits := nameAwaits.of_rest_eq varRest
      rw [nameEq, nameScope, startScope] at varScope
      rw [nameFree, startFree] at varFree
      cases rest with
      | nil =>
        cases tokensEq
        refine (succeeds_accept_of_lead_ne ',' varAwaits rfl (by simp [lead])).bind ?_
        rintro _ last ⟨⟨rfl, lastAwaits⟩, _, lastScope, lastFree⟩
        exact succeeds_pure ⟨lastAwaits, rfl, lastScope.trans varScope, lastFree.trans varFree⟩
      | cons second rest =>
        cases tokensEq
        refine (succeeds_accept varAwaits).bind ?_
        rintro _ afterComma ⟨⟨rfl, commaAwaits⟩, _, commaScope, commaFree⟩
        have restNames : ∀ name ∈ second :: rest, IsName name :=
          forall_mem_of_forall_mem_cons areNames
        refine (ih (by simp) restNames (by simpa using enough) commaAwaits).bind ?_
        rintro ids last ⟨lastAwaits, lengthEq, lastScope, lastFree⟩
        refine succeeds_pure ⟨lastAwaits, by simp [lengthEq], ?_,
          lastFree.trans (commaFree.trans varFree)⟩
        rw [lastScope, commaScope, varScope]
        simp

end Reader
end PipeCheck
