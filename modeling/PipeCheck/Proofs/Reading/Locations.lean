import PipeCheck.Proofs.Reading.Rejection

/-!
# Where a reading fails

The offset of a cursor is the number of bytes of the text before it.  So the offsets that
a failed reading reports lie between two characters of the text, and what is reported of
the place is found there.  A name that is no type is reported whole: no name character
stands before it, since a type starts only after white space or after a token that ends
with another character, and none after it.
-/

namespace PipeCheck

open List Option Text

theorem Text.utf8ByteSize_ofList (characters : List Char) :
    (String.ofList characters).utf8ByteSize = byteCount characters := by
  induction characters with
  | nil => rfl
  | cons character rest ih =>
    rw [String.ofList_cons, String.utf8ByteSize_append, ih,
      String.utf8ByteSize_singleton, byteCount_cons]

/-- What an error met within a type reports of a place is true of the text.  Input after
a type is no such error. -/
def ReadError.Points (text : List Char) : ReadError → Prop
  | .unexpectedEnd => True
  | .unexpectedChar character offset =>
    ∃ before after, text = before ++ character :: after ∧ byteCount before = offset
  | .unknownType name offset =>
    ∃ before after, text = before ++ (name.toList ++ after) ∧ byteCount before = offset ∧
      Written.IsName name ∧ name ∉ Reader.typeNames.map Prod.fst ∧
      (∀ previous ∈ before.getLast?, ¬isNameChar previous) ∧ ∀ next ∈ after.head?, ¬isNameChar next
  | .expected _ offset => ∃ before after, text = before ++ after ∧ byteCount before = offset
  | .trailingInput _ => False

namespace Cursor

variable {before after next : Cursor} {text passed : List Char}

/-- The cursor stands in a text after this part of it. -/
structure After (cursor : Cursor) (text passed : List Char) : Prop where
  /-- The text is what was passed and what is left. -/
  text_eq : text = passed ++ cursor.rest
  /-- The offset counts the bytes passed. -/
  offset_eq : byteCount passed = cursor.offset

/-- The cursor stands somewhere in a text. -/
def StandsIn (cursor : Cursor) (text : List Char) : Prop :=
  ∃ passed, cursor.After text passed

/-- The cursor stands in a text, and not within a name or at its end. -/
def StartsIn (cursor : Cursor) (text : List Char) : Prop :=
  ∃ passed, cursor.After text passed ∧ ∀ previous ∈ passed.getLast?, ¬isNameChar previous

theorem StartsIn.standsIn (starts : before.StartsIn text) : before.StandsIn text :=
  ⟨starts.choose, starts.choose_spec.1⟩

theorem After.of_sameText (stands : before.After text passed) (same : before.SameText after) :
    after.After text passed :=
  ⟨same.rest_eq ▸ stands.text_eq, same.offset_eq ▸ stands.offset_eq⟩

theorem StandsIn.of_sameText (stands : before.StandsIn text) (same : before.SameText after) :
    after.StandsIn text :=
  ⟨stands.choose, stands.choose_spec.of_sameText same⟩

theorem After.takeWhile (stands : before.After text passed) (accept : Char → Bool) :
    (before.takeWhile accept).2.After text (passed ++ before.rest.takeWhile accept) where
  text_eq := by
    change text = passed ++ before.rest.takeWhile accept ++ before.rest.dropWhile accept
    rw [append_assoc, takeWhile_append_dropWhile, stands.text_eq]
  offset_eq := by
    rw [byteCount_append, stands.offset_eq]
    rfl

theorem After.of_token? {token : String} (stands : before.After text passed)
    (found : before.token? token = some next) :
    next.After text (passed ++ token.toList) := by
  refine ⟨?_, ?_⟩
  · rw [append_assoc, ← rest_of_token? found, stands.text_eq]
  · unfold token? at found
    split at found
    · cases found
      rw [byteCount_append, stands.offset_eq, ← utf8ByteSize_ofList, String.ofList_toList]
    · cases found

theorem StandsIn.skipBlanks (stands : before.StandsIn text) : before.skipBlanks.StandsIn text :=
  ⟨_, stands.choose_spec.takeWhile isBlank⟩

theorem StartsIn.skipBlanks (starts : before.StartsIn text) : before.skipBlanks.StartsIn text := by
  obtain ⟨passed, stands, edge⟩ := starts
  refine ⟨_, stands.takeWhile isBlank, ?_⟩
  intro previous isLast
  rw [getLast?_append] at isLast
  cases blank : (before.rest.takeWhile isBlank).getLast? with
  | none =>
    rw [blank, none_or] at isLast
    exact edge previous isLast
  | some last =>
    rw [blank, some_or] at isLast
    cases isLast
    have isBlank := mem_takeWhile_imp (mem_of_getLast? blank)
    simp [isNameChar_eq_false_of_isBlank isBlank]

/-- A token ends with a character that no name has. -/
def Delimits (token : String) : Prop :=
  ∃ last, token.toList.getLast? = some last ∧ isNameChar last = false

theorem StandsIn.of_token? {token : String} (stands : before.StandsIn text)
    (delimits : Delimits token) (found : before.token? token = some next) :
    next.StartsIn text := by
  obtain ⟨passed, stands⟩ := stands
  obtain ⟨last, isLast, notName⟩ := delimits
  refine ⟨_, stands.of_token? found, ?_⟩
  intro previous isPrevious
  rw [getLast?_append, isLast, some_or] at isPrevious
  cases isPrevious
  simp [notName]

theorem StandsIn.points_expected (stands : before.StandsIn text) (what : String) :
    (ReadError.expected what before.offset).Points text := by
  obtain ⟨passed, textEq, offsetEq⟩ := stands
  exact ⟨passed, before.rest, textEq, offsetEq⟩

end Cursor

namespace Reader

open Cursor

variable {α β : Type} {text : List Char} {before : Cursor} {fuel : Nat}
  {read : Reader α} {post : α → Cursor → Prop}

/-- A postcondition holds if a reading succeeds, and its error is true of the text if it
fails. -/
structure Locates (text : List Char) (read : Reader α) (before : Cursor)
    (post : α → Cursor → Prop) : Prop where
  /-- A success meets the postcondition. -/
  ensures : Ensures read before post
  /-- An error is true of the text. -/
  points : ∀ error last, read.run.run before = (.error error, last) → error.Points text

theorem Locates.bind {next : α → Reader β} {midPost : α → Cursor → Prop}
    {post : β → Cursor → Prop} (first : Locates text read before midPost)
    (rest : ∀ value middle, midPost value middle → Locates text (next value) middle post) :
    Locates text (read >>= next) before post := by
  refine ⟨first.ensures.bind fun value middle holds => (rest value middle holds).ensures, ?_⟩
  rcases runEq : read.run.run before with ⟨outcome, middle⟩
  cases outcome with
  | error failure =>
    rw [run_bind_of_error runEq]
    rintro _ _ ⟨⟩
    exact first.points failure middle runEq
  | ok value =>
    rw [run_bind_of_ok runEq]
    exact (rest value middle (first.ensures value middle runEq)).points

theorem locates_of_succeeds (succeeds : Succeeds read before post) :
    Locates text read before post := by
  refine ⟨succeeds.ensures, ?_⟩
  intro error last failed
  obtain ⟨value, _, runEq, _⟩ := succeeds.exists_run_eq
  cases failed.symm.trans runEq

theorem locates_pure {value : α} (holds : post value before) :
    Locates text (pure value) before post :=
  locates_of_succeeds (succeeds_pure holds)

theorem locates_throw {error : ReadError} (points : error.Points text) :
    Locates text (throw error) before post := by
  refine ⟨ensures_throw, ?_⟩
  rintro _ _ ⟨⟩
  exact points

theorem locates_get_bind {next : Cursor → Reader β} {post : β → Cursor → Prop}
    (rest : Locates text (next before) before post) :
    Locates text (get >>= next) before post :=
  ⟨ensures_get_bind rest.ensures, rest.points⟩

theorem locates_modifyGet {change : Cursor → α × Cursor}
    (holds : post (change before).1 (change before).2) :
    Locates text (modifyGet change) before post :=
  locates_of_succeeds (succeeds_modifyGet holds)

/-- What moves over nothing stays in the text. -/
theorem Stays.locates (stays : Stays read) (stands : before.StandsIn text) :
    Locates text read before fun _ after => after.StandsIn text :=
  locates_of_succeeds ((stays before).mono fun _ _ same => stands.of_sameText same)

theorem locates_token {token : String} (delimits : Delimits token) (stands : before.StandsIn text) :
    Locates text (Reader.token token) before fun found after =>
      if found then after.StartsIn text else after = before := by
  refine locates_modifyGet ?_
  cases found : before.token? token with
  | none => rfl
  | some next => exact stands.of_token? delimits found

theorem locates_forallWord (stands : before.StandsIn text) :
    Locates text forallWord before fun found after =>
      if found then after.StandsIn text else after = before := by
  refine locates_modifyGet ?_
  cases found : before.token? "forall" with
  | none => rfl
  | some next =>
    simp only
    split
    · rfl
    · exact ⟨_, stands.choose_spec.of_token? found⟩

theorem locates_accept {token : String} (delimits : Delimits token)
    (stands : before.StandsIn text) :
    Locates text (accept token) before fun found after =>
      if found then after.StartsIn text else after = before.skipBlanks := by
  have blanks : Locates text skipBlanks before fun _ after => after = before.skipBlanks :=
    locates_modifyGet rfl
  refine blanks.bind ?_
  rintro _ _ rfl
  exact locates_token delimits stands.skipBlanks

/-- A token that does not follow is missed at this place, unless the text is over. -/
theorem locates_missing (stands : before.StandsIn text) (what : String) :
    Locates text (do
      let cursor ← get
      if cursor.rest.isEmpty then
        throw .unexpectedEnd
      else
        throw (.expected what cursor.offset)) before post := by
  refine locates_get_bind ?_
  split
  · exact locates_throw trivial
  · exact locates_throw (stands.points_expected what)

theorem locates_expect {token : String} (delimits : Delimits token)
    (stands : before.StandsIn text) :
    Locates text (expect token) before fun _ after => after.StartsIn text := by
  refine (locates_accept delimits stands).bind ?_
  intro found after holds
  cases found with
  | true => exact locates_pure holds
  | false =>
    obtain rfl : after = before.skipBlanks := holds
    exact locates_missing stands.skipBlanks token

theorem locates_varName (stands : before.StandsIn text) :
    Locates text varName before fun _ after => after.StandsIn text := by
  refine (locates_token ⟨'\'', by decide, rfl⟩ stands).bind ?_
  intro found after holds
  cases found with
  | false =>
    obtain rfl : after = before := holds
    exact locates_missing stands "type variable"
  | true =>
    have named : Locates text name after fun _ last => last.StandsIn text :=
      locates_modifyGet ⟨_, (StartsIn.standsIn holds).choose_spec.takeWhile isNameChar⟩
    refine named.bind ?_
    intro found last lastStands
    split
    · exact locates_get_bind (locates_throw (lastStands.points_expected _))
    · exact locates_pure lastStands

theorem locates_restoringScope
    (locates : Locates text read before fun _ after => after.StandsIn text) :
    Locates text (restoringScope read) before fun _ after => after.StandsIn text := by
  refine locates_get_bind (locates.bind ?_)
  intro value after stands
  exact (((stays_modifyGet fun _ => ⟨rfl, rfl⟩).bind fun _ => stays_pure value).locates stands)

theorem locates_binders (stands : before.StandsIn text) :
    Locates text (binders fuel) before fun _ after => after.StandsIn text := by
  induction fuel generalizing before with
  | zero => exact locates_throw trivial
  | succ fuel ih =>
    have blanks : Locates text skipBlanks before fun _ after => after.StandsIn text :=
      locates_modifyGet stands.skipBlanks
    rw [binders]
    refine blanks.bind fun _ afterBlanks blanksStand => ?_
    refine (locates_varName blanksStand).bind fun name afterName nameStands => ?_
    refine ((stays_bindVar name).locates nameStands).bind fun first afterVar varStands => ?_
    refine (locates_accept ⟨',', by decide, rfl⟩ varStands).bind ?_
    intro more afterComma holds
    cases more with
    | false =>
      obtain rfl : afterComma = afterVar.skipBlanks := holds
      exact locates_pure varStands.skipBlanks
    | true =>
      refine (ih (StartsIn.standsIn holds)).bind ?_
      exact fun others last lastStands => locates_pure lastStands

/-- A name that is no type is reported whole. -/
theorem locates_typeName (starts : before.StartsIn text) {character : Char}
    (head : before.rest.head? = some character) (isAlpha : character.isAlpha) :
    Locates text (typeName before.offset) before fun _ after => after.StandsIn text := by
  obtain ⟨passed, stands, edge⟩ := starts
  have named : Locates text name before fun name after =>
      after.After text (passed ++ name.toList) ∧ Written.IsName name ∧
        ∀ next ∈ after.rest.head?, ¬isNameChar next := by
    obtain ⟨isWord, _, stops⟩ := @ensures_name before _ _ rfl
    refine locates_modifyGet ⟨?_, ⟨?_, isWord⟩, stops⟩
    · change (before.takeWhile isNameChar).2.After text _
      rw [String.toList_ofList]
      exact stands.takeWhile isNameChar
    · intro isEmpty
      change String.ofList (before.rest.takeWhile isNameChar) = "" at isEmpty
      obtain ⟨rest, headEq⟩ := head?_eq_some_iff.1 head
      have isName : isNameChar character := by simp [isNameChar, Char.isAlphanum, isAlpha]
      rw [headEq, takeWhile_cons_of_pos isName] at isEmpty
      simpa using congrArg String.toList isEmpty
  refine named.bind ?_
  rintro name after ⟨afterName, isName, stops⟩
  split
  · exact (stays_alloc _).locates ⟨_, afterName⟩
  · next unknown =>
      refine locates_throw ⟨passed, after.rest, ?_, stands.offset_eq, isName, ?_, edge, stops⟩
      · rw [afterName.text_eq, append_assoc]
      · rw [List.mem_map]
        rintro ⟨entry, member, rfl⟩
        simpa using lookup_eq_none_iff.1 unknown entry member

section Recursion

/-- What one level of the grammar needs to know about the next. -/
structure LocatesBelow (text : List Char) (fuel : Nat) : Prop where
  /-- Types are read with true errors. -/
  type : ∀ {before : Cursor}, before.StartsIn text →
    Locates text (Reader.type fuel) before fun _ after => after.StandsIn text
  /-- Atoms likewise. -/
  atom : ∀ {before : Cursor}, before.StartsIn text →
    Locates text (Reader.atom fuel) before fun _ after => after.StandsIn text
  /-- Further components likewise. -/
  components : ∀ {before : Cursor}, before.StandsIn text →
    Locates text (Reader.components fuel) before fun _ after => after.StandsIn text

variable (below : LocatesBelow text fuel)

include below

theorem locates_type_succ (starts : before.StartsIn text) :
    Locates text (type (fuel + 1)) before fun _ after => after.StandsIn text := by
  have blanks : Locates text skipBlanks before fun _ after => after.StartsIn text :=
    locates_modifyGet starts.skipBlanks
  rw [type]
  refine blanks.bind fun _ start starts => ?_
  refine (locates_forallWord starts.standsIn).bind ?_
  intro isForall afterWord holds
  cases isForall with
  | true =>
    refine locates_restoringScope ?_
    refine (locates_binders holds).bind fun vars afterVars varsStand => ?_
    refine (locates_expect ⟨'.', by decide, rfl⟩ varsStand).bind fun _ afterDot dotStarts => ?_
    refine (below.type dotStarts).bind fun body afterBody bodyStands => ?_
    exact (stays_alloc _).locates bodyStands
  | false =>
    obtain rfl : afterWord = start := holds
    refine (below.atom starts).bind fun domain afterDomain domainStands => ?_
    refine (locates_accept ⟨'>', by decide, rfl⟩ domainStands).bind ?_
    intro isFunction afterArrow holds
    cases isFunction with
    | false =>
      obtain rfl : afterArrow = afterDomain.skipBlanks := holds
      exact locates_pure domainStands.skipBlanks
    | true =>
      refine (below.type holds).bind fun codomain afterCodomain codomainStands => ?_
      exact (stays_alloc _).locates codomainStands

theorem locates_components_succ (stands : before.StandsIn text) :
    Locates text (components (fuel + 1)) before fun _ after => after.StandsIn text := by
  rw [components]
  refine (locates_accept ⟨',', by decide, rfl⟩ stands).bind ?_
  intro more afterComma holds
  cases more with
  | false =>
    obtain rfl : afterComma = before.skipBlanks := holds
    exact locates_pure stands.skipBlanks
  | true =>
    refine (below.type holds).bind fun first afterFirst firstStands => ?_
    refine (below.components firstStands).bind fun others last lastStands => ?_
    exact locates_pure lastStands

theorem locates_parenthesised (starts : before.StartsIn text) :
    Locates text (parenthesised fuel) before fun _ after => after.StandsIn text := by
  have delimits : Delimits ")" := ⟨')', by decide, rfl⟩
  refine (locates_accept delimits starts.standsIn).bind ?_
  intro isUnit afterOpen holds
  cases isUnit with
  | true => exact (stays_alloc (Alloc.primitive .unit)).locates (StartsIn.standsIn holds)
  | false =>
    obtain rfl : afterOpen = before.skipBlanks := holds
    refine (below.type starts.skipBlanks).bind fun first afterFirst firstStands => ?_
    refine (locates_accept delimits firstStands).bind ?_
    intro isClosed afterClose holds
    cases isClosed with
    | true => exact locates_pure (StartsIn.standsIn holds)
    | false =>
      obtain rfl : afterClose = afterFirst.skipBlanks := holds
      refine (below.components firstStands.skipBlanks).bind fun others afterOthers stands => ?_
      refine (locates_expect delimits stands).bind fun _ last closed => ?_
      exact (stays_alloc _).locates closed.standsIn

theorem locates_atom_succ (starts : before.StartsIn text) :
    Locates text (atom (fuel + 1)) before fun _ after => after.StandsIn text := by
  have blanks : Locates text skipBlanks before fun _ after => after.StartsIn text :=
    locates_modifyGet starts.skipBlanks
  rw [atom]
  refine blanks.bind fun _ start starts => ?_
  refine locates_get_bind (locates_get_bind ?_)
  split
  · exact locates_throw trivial
  next character head =>
    split
    · refine (locates_varName starts.standsIn).bind fun name afterName nameStands => ?_
      exact (stays_resolveVar name).locates nameStands
    refine (locates_token ⟨'[', by decide, rfl⟩ starts.standsIn).bind ?_
    intro isList afterBracket holds
    cases isList with
    | true =>
      refine (below.type holds).bind fun element afterElement elementStands => ?_
      refine (locates_expect ⟨']', by decide, rfl⟩ elementStands).bind fun _ last closed => ?_
      exact (stays_alloc _).locates closed.standsIn
    | false =>
      obtain rfl : afterBracket = start := holds
      refine (locates_token ⟨'(', by decide, rfl⟩ starts.standsIn).bind ?_
      intro isParenthesis afterParenthesis holds
      cases isParenthesis with
      | true => exact locates_parenthesised below holds
      | false =>
        obtain rfl : afterParenthesis = afterBracket := holds
        refine (locates_token ⟨'>', by decide, rfl⟩ starts.standsIn).bind ?_
        intro isInvalid afterInvalid holds
        cases isInvalid with
        | true =>
          exact (stays_alloc (Alloc.primitive .invalid)).locates (StartsIn.standsIn holds)
        | false =>
          obtain rfl : afterInvalid = afterParenthesis := holds
          simp only [Bool.false_eq_true, ↓reduceIte]
          split
          · next isAlpha => exact locates_typeName starts head isAlpha
          · obtain ⟨passed, ⟨textEq, offsetEq⟩, _⟩ := starts
            obtain ⟨rest, restEq⟩ := head?_eq_some_iff.1 head
            exact locates_throw ⟨passed, rest, restEq ▸ textEq, offsetEq⟩

end Recursion

theorem locatesBelow (text : List Char) (fuel : Nat) : LocatesBelow text fuel := by
  induction fuel with
  | zero =>
    exact ⟨fun _ => locates_throw trivial, fun _ => locates_throw trivial,
      fun _ => locates_throw trivial⟩
  | succ fuel ih =>
    exact ⟨locates_type_succ ih, locates_atom_succ ih, locates_components_succ ih⟩

end Reader
end PipeCheck
