import PipeCheck.Proofs.Reading.Grammar
import PipeCheck.Proofs.Store.Yields

/-!
# What is read is a written type

A reading that succeeds has moved over the tokens of a phrase.  This holds of
the single readings and so, level by level, of whole types.
-/

namespace PipeCheck

open List Option Text Cursor

namespace Cursor

variable {first middle last before after next : Cursor}

/-- These tokens stand between two cursors, whatever more the text may have that does not
go on with a name. -/
structure Passes (before after : Cursor) (tokens : List String) : Prop where
  /-- The tokens are spelled before what follows. -/
  spells : ∀ more : List Char, (∀ next ∈ more.head?, ¬isNameChar next) →
    ∀ following, Spells following (after.rest ++ more) →
      Spells (tokens ++ following) (before.rest ++ more)
  /-- Each token takes a character at least. -/
  length_le : tokens.length + after.rest.length ≤ before.rest.length

theorem passes_of_rest_eq (restEq : after.rest = before.rest) : before.Passes after [] := by
  refine ⟨?_, by simp [restEq]⟩
  intro more _ following spells
  rwa [restEq] at spells

theorem Passes.trans {tokens others : List String} (earlier : first.Passes middle tokens)
    (later : middle.Passes last others) :
    first.Passes last (tokens ++ others) := by
  refine ⟨?_, ?_⟩
  · intro more stops following spells
    rw [append_assoc]
    exact earlier.spells more stops _ (later.spells more stops following spells)
  · have earlierLe := earlier.length_le
    have laterLe := later.length_le
    rw [length_append]
    omega

theorem passes_skipBlanks (cursor : Cursor) : cursor.Passes cursor.skipBlanks [] := by
  refine ⟨?_, ?_⟩
  · intro more _ following spells
    have areBlank : ∀ blank ∈ cursor.rest.takeWhile isBlank, isBlank blank :=
      fun blank member => mem_takeWhile_imp member
    have restEq : cursor.rest = cursor.rest.takeWhile isBlank ++ cursor.skipBlanks.rest :=
      takeWhile_append_dropWhile.symm
    rw [restEq, append_assoc]
    exact spells.blanks_append areBlank
  · rw [length_nil, Nat.zero_add]
    exact (dropWhile_sublist isBlank).length_le

theorem rest_of_token? {token : String} (found : before.token? token = some next) :
    before.rest = token.toList ++ next.rest := by
  unfold token? at found
  split at found
  · next isPrefix =>
      cases found
      obtain ⟨rest, restEq⟩ := List.isPrefixOf_iff_prefix.1 isPrefix
      rw [← restEq, ← String.length_toList, drop_left]
  · cases found

/-- A token stands right here. -/
theorem passes_of_rest {token : String} (restEq : before.rest = token.toList ++ after.rest)
    (nonempty : token ≠ "")
    (wholeWord : IsWord token → ∀ next ∈ after.rest.head?, ¬isNameChar next) :
    before.Passes after [token] := by
  refine ⟨?_, ?_⟩
  · intro more stops following spells
    have stillWhole : IsWord token → ∀ next ∈ (after.rest ++ more).head?, ¬isNameChar next := by
      intro isWord
      cases restCase : after.rest with
      | nil => exact stops
      | cons character rest =>
        rw [restCase] at wholeWord
        exact wholeWord isWord
    have spelled := Spells.token (forall_mem_nil _) stillWhole spells
    rwa [nil_append, ← append_assoc, ← restEq] at spelled
  · have visible : 0 < token.toList.length := by
      rw [length_pos_iff, ne_eq, String.toList_eq_nil_iff]
      exact nonempty
    rw [restEq, length_append, length_singleton]
    omega

end Cursor

namespace Reader

variable {α β : Type} {fuel : Nat} {post : α → List String → Prop} {text : String}

/-- A reading that succeeds has moved over tokens that go with its value. -/
def Consumes (read : Reader α) (post : α → List String → Prop) : Prop :=
  ∀ before, Ensures read before fun value after =>
    ∃ passed, post value passed ∧ before.Passes after passed

theorem Consumes.mono {read : Reader α} {post weaker : α → List String → Prop}
    (consumes : Consumes read post)
    (weaken : ∀ value passed, post value passed → weaker value passed) :
    Consumes read weaker := by
  intro before
  refine (consumes before).mono ?_
  rintro value after ⟨passed, holds, passes⟩
  exact ⟨passed, weaken value passed holds, passes⟩

theorem Consumes.bind {read : Reader α} {next : α → Reader β} {middle : α → List String → Prop}
    {post : β → List String → Prop} (first : Consumes read middle)
    (rest : ∀ value passed, middle value passed →
      Consumes (next value) fun result others => post result (passed ++ others)) :
    Consumes (read >>= next) post := by
  intro before
  refine (first before).bind ?_
  rintro value afterFirst ⟨passed, holds, passes⟩
  refine (rest value passed holds afterFirst).mono ?_
  rintro result after ⟨others, holds, othersPass⟩
  exact ⟨passed ++ others, holds, passes.trans othersPass⟩

theorem consumes_pure {value : α} (holds : post value []) :
    Consumes (pure value) post :=
  fun _ => ensures_pure ⟨[], holds, passes_of_rest_eq rfl⟩

theorem consumes_throw {failure : ReadError} :
    Consumes (throw failure : Reader α) post :=
  fun _ => ensures_throw

theorem consumes_get_bind {next : Cursor → Reader β} {post : β → List String → Prop}
    (rest : ∀ cursor, Consumes (next cursor) post) :
    Consumes (get >>= next) post :=
  fun before => rest before before

/-- Nothing is read while types are created and names change. -/
theorem consumes_modifyGet {change : Cursor → α × Cursor}
    (restEq : ∀ cursor, (change cursor).2.rest = cursor.rest) :
    Consumes (modifyGet change : Reader α) fun _ passed => passed = [] := by
  intro before value last runEq
  cases runEq
  exact ⟨[], rfl, passes_of_rest_eq (restEq before)⟩

theorem consumes_alloc (create : Alloc α) : Consumes (alloc create) fun _ passed => passed = [] :=
  consumes_modifyGet fun _ => rfl

theorem consumes_skipBlanks : Consumes skipBlanks fun _ passed => passed = [] := by
  intro before value last runEq
  cases runEq
  exact ⟨[], rfl, before.passes_skipBlanks⟩

/-- The tokens passed by a reading that may find a token. -/
def ifFound (found : Bool) (text : String) : List String :=
  if found then [text] else []

theorem ensures_token {before : Cursor} (text : String) :
    Ensures (token text) before fun found after =>
      before.rest = (if found then text.toList else []) ++ after.rest := by
  intro found last runEq
  have changeEq := Prod.mk.inj runEq
  cases isHere : before.token? text with
  | none =>
    simp only [isHere] at changeEq
    cases changeEq.1
    cases changeEq.2
    rfl
  | some next =>
    simp only [isHere] at changeEq
    cases changeEq.1
    cases changeEq.2
    exact rest_of_token? isHere

theorem ne_empty_of_not_isWord (notWord : ¬IsWord text) : text ≠ "" := by
  rintro rfl
  exact notWord (by decide)

theorem consumes_token (notWord : ¬IsWord text) :
    Consumes (token text) fun found passed => passed = ifFound found text := by
  intro before
  refine (ensures_token text).mono ?_
  intro found after restEq
  refine ⟨_, rfl, ?_⟩
  cases found with
  | false => exact passes_of_rest_eq restEq.symm
  | true =>
    exact passes_of_rest restEq (ne_empty_of_not_isWord notWord) fun isWord =>
      absurd isWord notWord

theorem consumes_forallWord :
    Consumes forallWord fun found passed => passed = ifFound found "forall" := by
  intro before found last runEq
  refine ⟨_, rfl, ?_⟩
  have changeEq := Prod.mk.inj runEq
  cases isHere : before.token? "forall" with
  | none =>
    simp only [isHere] at changeEq
    cases changeEq.1
    cases changeEq.2
    exact passes_of_rest_eq rfl
  | some next =>
    simp only [isHere] at changeEq
    split at changeEq
    · cases changeEq.1
      cases changeEq.2
      exact passes_of_rest_eq rfl
    · next wholeWord =>
        cases changeEq.1
        cases changeEq.2
        refine passes_of_rest (rest_of_token? isHere) (by decide) ?_
        intro _ character isNext
        rw [mem_def] at isNext
        simpa [isNext] using wholeWord

theorem consumes_accept (notWord : ¬IsWord text) :
    Consumes (accept text) fun found passed => passed = ifFound found text := by
  refine consumes_skipBlanks.bind ?_
  rintro _ _ rfl
  exact consumes_token notWord

theorem consumes_expect (notWord : ¬IsWord text) :
    Consumes (expect text) fun _ passed => passed = [text] := by
  refine (consumes_accept notWord).bind ?_
  rintro found _ rfl
  cases found with
  | true => exact consumes_pure rfl
  | false =>
    refine consumes_get_bind ?_
    intro cursor
    split
    · exact consumes_throw
    · exact consumes_throw

/-- The longest name is a word, and no name character follows it. -/
theorem ensures_name {before : Cursor} :
    Ensures name before fun text after =>
      IsWord text ∧ before.rest = text.toList ++ after.rest ∧
        ∀ next ∈ after.rest.head?, ¬isNameChar next := by
  intro text last runEq
  cases runEq
  refine ⟨?_, ?_, ?_⟩
  · intro character member
    rw [String.toList_ofList] at member
    exact mem_takeWhile_imp member
  · rw [String.toList_ofList]
    exact takeWhile_append_dropWhile.symm
  · intro next isNext
    have stops := head?_dropWhile_not isNameChar before.rest
    rw [mem_def.1 isNext] at stops
    simpa using stops

theorem consumes_varName :
    Consumes varName fun name passed => Written.IsName name ∧ passed = [Written.primed name] := by
  intro before
  refine (ensures_token "'").bind ?_
  intro found afterQuote quoteEq
  cases found with
  | false =>
    refine ensures_get_bind ?_
    split
    · exact ensures_throw
    · exact ensures_throw
  | true =>
    refine ensures_name.bind ?_
    rintro name after ⟨isWord, restEq, stops⟩
    split
    · exact ensures_get_bind ensures_throw
    · next nonempty =>
        refine ensures_pure ⟨_, ⟨⟨by simpa using nonempty, isWord⟩, rfl⟩, ?_⟩
        refine passes_of_rest ?_ (ne_empty_of_not_isWord (Written.not_isWord_primed name))
          fun _ => stops
        rw [quoteEq, restEq]
        simp

theorem consumes_resolveVar (name : String) :
    Consumes (resolveVar name) fun _ passed => passed = [] := by
  refine consumes_get_bind ?_
  intro cursor
  split
  · exact consumes_pure rfl
  split
  · exact consumes_pure rfl
  · refine (consumes_alloc Alloc.var).bind ?_
    rintro id _ rfl
    refine (consumes_modifyGet fun _ => rfl).bind ?_
    rintro _ _ rfl
    exact consumes_pure rfl

theorem consumes_bindVar (name : String) :
    Consumes (bindVar name) fun _ passed => passed = [] := by
  refine (consumes_alloc Alloc.var).bind ?_
  rintro id _ rfl
  refine (consumes_modifyGet fun _ => rfl).bind ?_
  rintro _ _ rfl
  exact consumes_pure rfl

theorem consumes_restoringScope {read : Reader α} (consumes : Consumes read post) :
    Consumes (restoringScope read) post := by
  refine consumes_get_bind ?_
  intro cursor
  refine consumes.bind ?_
  intro value passed holds
  refine (consumes_modifyGet fun _ => rfl).bind ?_
  rintro _ _ rfl
  refine consumes_pure ?_
  simpa using holds

theorem not_isWord_of_mem (character : Char) (member : character ∈ text.toList)
    (isOther : isNameChar character = false) :
    ¬IsWord text := by
  intro isWord
  simpa [isOther] using isWord character member

theorem consumes_binders :
    Consumes (binders fuel) fun _ passed =>
      ∃ names, names ≠ [] ∧ (∀ name ∈ names, Written.IsName name) ∧
        passed = Written.listed names := by
  induction fuel with
  | zero => exact consumes_throw
  | succ fuel ih =>
    rw [binders]
    refine consumes_skipBlanks.bind ?_
    rintro _ _ rfl
    refine consumes_varName.bind ?_
    rintro name _ ⟨isName, rfl⟩
    refine (consumes_bindVar name).bind ?_
    rintro id _ rfl
    refine (consumes_accept (not_isWord_of_mem ',' (by decide) rfl)).bind ?_
    rintro more _ rfl
    cases more with
    | false =>
      refine consumes_pure ⟨[name], by simp, by simpa using isName, rfl⟩
    | true =>
      refine ih.bind ?_
      rintro ids _ ⟨names, nonempty, areNames, rfl⟩
      refine consumes_pure ⟨name :: names, by simp, forall_mem_cons.2 ⟨isName, areNames⟩, ?_⟩
      obtain ⟨second, rest, rfl⟩ := exists_cons_of_ne_nil nonempty
      simp [ifFound]

theorem consumes_typeName (offset : Nat) :
    Consumes (typeName offset) fun _ passed =>
      ∃ text which, (text, which) ∈ typeNames ∧ passed = [text] := by
  intro before
  refine ensures_name.bind ?_
  rintro text afterName ⟨_, restEq, stops⟩
  split
  · next which found =>
      obtain ⟨earlier, later, listEq, _⟩ := lookup_eq_some_iff.1 found
      have member : (text, which) ∈ typeNames := by simp [listEq]
      have nonempty : ∀ entry ∈ typeNames, entry.1 ≠ "" := by decide
      have named := passes_of_rest restEq (nonempty _ member) fun _ => stops
      refine (consumes_alloc _ afterName).mono ?_
      rintro id after ⟨_, rfl, passes⟩
      exact ⟨[text], ⟨text, which, member, rfl⟩, named.trans passes⟩
  · exact ensures_throw

section Recursion

/-- What one level of the grammar needs to know about the next. -/
structure DerivesBelow (fuel : Nat) : Prop where
  /-- Types are read as types are written. -/
  type : Consumes (Reader.type fuel) fun _ passed => ∃ written, Phrase.type.Derives written passed
  /-- Atoms likewise. -/
  atom : Consumes (Reader.atom fuel) fun _ passed => ∃ written, Phrase.atom.Derives written passed
  /-- Further components likewise. -/
  components : Consumes (Reader.components fuel) fun _ passed =>
    ∃ rest, Phrase.further.Derives (.tuple rest) passed

variable (below : DerivesBelow fuel)

include below

theorem consumes_type_succ :
    Consumes (type (fuel + 1)) fun _ passed => ∃ written, Phrase.type.Derives written passed := by
  rw [type]
  refine consumes_skipBlanks.bind ?_
  rintro _ _ rfl
  refine consumes_forallWord.bind ?_
  rintro isForall _ rfl
  cases isForall with
  | true =>
    refine consumes_restoringScope ?_
    refine consumes_binders.bind ?_
    rintro vars _ ⟨names, nonempty, areNames, rfl⟩
    refine (consumes_expect (not_isWord_of_mem '.' (by decide) rfl)).bind ?_
    rintro _ _ rfl
    refine below.type.bind ?_
    rintro body tokens ⟨written, derives⟩
    refine (consumes_alloc _).mono ?_
    rintro id _ rfl
    exact ⟨_, by simpa [ifFound] using Phrase.Derives.quantified nonempty areNames derives⟩
  | false =>
    refine below.atom.bind ?_
    rintro domain tokens ⟨domainWritten, derivesDomain⟩
    refine (consumes_accept (not_isWord_of_mem '-' (by decide) rfl)).bind ?_
    rintro isFunction _ rfl
    cases isFunction with
    | false => exact consumes_pure ⟨_, by simpa [ifFound] using derivesDomain.atom⟩
    | true =>
      refine below.type.bind ?_
      rintro codomain others ⟨codomainWritten, derivesCodomain⟩
      refine (consumes_alloc _).mono ?_
      rintro id _ rfl
      exact ⟨_, by simpa [ifFound] using derivesDomain.function derivesCodomain⟩

theorem consumes_components_succ :
    Consumes (components (fuel + 1)) fun _ passed =>
      ∃ rest, Phrase.further.Derives (.tuple rest) passed := by
  rw [components]
  refine (consumes_accept (not_isWord_of_mem ',' (by decide) rfl)).bind ?_
  rintro more _ rfl
  cases more with
  | false => exact consumes_pure ⟨[], .done⟩
  | true =>
    refine below.type.bind ?_
    rintro first tokens ⟨firstWritten, derivesFirst⟩
    refine below.components.bind ?_
    rintro others otherTokens ⟨rest, derivesRest⟩
    exact consumes_pure ⟨_, by simpa [ifFound] using derivesFirst.next derivesRest⟩

theorem consumes_parenthesised :
    Consumes (parenthesised fuel) fun _ passed =>
      ∃ written, Phrase.atom.Derives written ("(" :: passed) := by
  have notWord : ¬IsWord ")" := not_isWord_of_mem ')' (by decide) rfl
  refine (consumes_accept notWord).bind ?_
  rintro isUnit _ rfl
  cases isUnit with
  | true =>
    refine (consumes_alloc (Alloc.primitive .unit)).mono ?_
    rintro id _ rfl
    exact ⟨_, .unit⟩
  | false =>
    refine below.type.bind ?_
    rintro first tokens ⟨firstWritten, derivesFirst⟩
    refine (consumes_accept notWord).bind ?_
    rintro isClosed _ rfl
    cases isClosed with
    | true => exact consumes_pure ⟨_, by simpa [ifFound] using derivesFirst.group⟩
    | false =>
      refine below.components.bind ?_
      rintro others otherTokens ⟨rest, derivesRest⟩
      refine (consumes_expect notWord).bind ?_
      rintro _ _ rfl
      refine (consumes_alloc _).mono ?_
      rintro id _ rfl
      simpa [ifFound] using derivesFirst.parentheses derivesRest

theorem consumes_atom_succ :
    Consumes (atom (fuel + 1)) fun _ passed => ∃ written, Phrase.atom.Derives written passed := by
  rw [atom]
  refine consumes_skipBlanks.bind ?_
  rintro _ _ rfl
  refine consumes_get_bind fun offsetCursor => consumes_get_bind fun headCursor => ?_
  split
  · exact consumes_throw
  split
  · refine consumes_varName.bind ?_
    rintro name _ ⟨isName, rfl⟩
    refine (consumes_resolveVar name).mono ?_
    rintro id _ rfl
    exact ⟨_, .var isName⟩
  refine (consumes_token (not_isWord_of_mem '[' (by decide) rfl)).bind ?_
  rintro isList _ rfl
  cases isList with
  | true =>
    refine below.type.bind ?_
    rintro element tokens ⟨written, derives⟩
    refine (consumes_expect (not_isWord_of_mem ']' (by decide) rfl)).bind ?_
    rintro _ _ rfl
    refine (consumes_alloc _).mono ?_
    rintro id _ rfl
    exact ⟨_, by simpa [ifFound] using derives.list⟩
  | false =>
    refine (consumes_token (not_isWord_of_mem '(' (by decide) rfl)).bind ?_
    rintro isParenthesis _ rfl
    cases isParenthesis with
    | true => exact consumes_parenthesised below
    | false =>
      refine (consumes_token (not_isWord_of_mem '<' (by decide) rfl)).bind ?_
      rintro isInvalid _ rfl
      cases isInvalid with
      | true =>
        refine (consumes_alloc (Alloc.primitive .invalid)).mono ?_
        rintro id _ rfl
        exact ⟨_, .invalid⟩
      | false =>
        simp only [Bool.false_eq_true, ↓reduceIte]
        split
        · refine (consumes_typeName _).mono ?_
          rintro id _ ⟨text, which, member, rfl⟩
          exact ⟨_, .name member⟩
        · exact consumes_throw

end Recursion

theorem derivesBelow (fuel : Nat) : DerivesBelow fuel := by
  induction fuel with
  | zero => exact ⟨consumes_throw, consumes_throw, consumes_throw⟩
  | succ fuel ih =>
    exact ⟨consumes_type_succ ih, consumes_atom_succ ih, consumes_components_succ ih⟩

/-- A text that is read to its end is a written type. -/
theorem ensures_wholeType (before : Cursor) :
    Ensures (wholeType fuel) before fun _ _ =>
      ∃ written tokens, Phrase.type.Derives written tokens ∧ Spells tokens before.rest := by
  refine ((derivesBelow fuel).type before).bind ?_
  rintro id afterType ⟨tokens, ⟨written, derives⟩, passes⟩
  refine (consumes_skipBlanks afterType).bind ?_
  rintro _ last ⟨_, rfl, blanks⟩
  refine ensures_get_bind ?_
  split
  · next atEnd =>
      have ended : Spells [] last.rest := by
        rw [List.isEmpty_iff.1 atEnd]
        exact .done (by simp)
      have spells := (passes.trans blanks).spells [] (by simp) [] (by simpa using ended)
      simp only [append_nil] at spells
      exact fun _ _ _ => ⟨written, tokens, derives, spells⟩
  · exact ensures_throw

end Reader

namespace Alloc

theorem exists_isText_of_read {text : String} {store last : Store} {id : TypeId}
    (runEq : (read text).run.run store = (.ok id, last)) :
    ∃ written : Written, written.IsText text := by
  let start : Cursor := { rest := text.toList, store }
  have readEq : ((Reader.wholeType (readingDepth text.length)).run.run start).1 = .ok id :=
    congrArg Prod.fst runEq
  exact Reader.ensures_wholeType start id _ (Prod.ext readEq rfl)

end Alloc
end PipeCheck
