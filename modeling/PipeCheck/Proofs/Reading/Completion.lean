import PipeCheck.Proofs.Reading.Rejection

/-!
# Texts that end too early

A reading that meets the end of the text has read the beginning of a written type.  What
is missing can be added: the unit type where a type is missing, a variable where one is
to be listed, and the tokens that close what has been opened.  The recursion of the reader
is deep enough for the text, so no reading stops before the end for want of depth.
-/

namespace PipeCheck

open List Option Text

namespace Cursor

variable {first middle before : Cursor} {tokens others following : List String}

theorem spells_flatMap_append (notWords : ∀ token ∈ tokens, ¬IsWord token) {rest : List Char}
    (spells : Spells following rest) :
    Spells (tokens ++ following) (tokens.flatMap String.toList ++ rest) := by
  induction tokens with
  | nil => exact spells
  | cons token tokens ih =>
    rw [forall_mem_cons] at notWords
    have spelled := Spells.token (forall_mem_nil _)
      (fun isWord => absurd isWord notWords.1) (ih notWords.2)
    rwa [nil_append, ← append_assoc] at spelled

/-- The text can go on so that these tokens stand from here on, and anything after
them.  A name that stands at the end does not go on. -/
def Completes (before : Cursor) (tokens : List String) : Prop :=
  ∃ more : List Char, (∃ first, more.head? = some first ∧ isNameChar first = false) ∧
    ∀ following rest, Spells following rest →
      Spells (tokens ++ following) (before.rest ++ (more ++ rest))

theorem Passes.completes (passes : first.Passes middle tokens)
    (completes : middle.Completes others) :
    first.Completes (tokens ++ others) := by
  obtain ⟨more, ⟨character, head, notName⟩, spells⟩ := completes
  refine ⟨more, ⟨character, head, notName⟩, ?_⟩
  intro following rest restSpells
  rw [append_assoc]
  refine passes.spells (more ++ rest) ?_ _ (spells following rest restSpells)
  intro next isNext
  rw [head?_append, head, some_or] at isNext
  cases isNext
  simp [notName]

/-- Further tokens can be added. -/
theorem Completes.append (completes : before.Completes tokens) (others : List String)
    (notWords : ∀ token ∈ others, ¬IsWord token) :
    before.Completes (tokens ++ others) := by
  obtain ⟨more, ⟨character, head, notName⟩, spells⟩ := completes
  refine ⟨more ++ others.flatMap String.toList, ⟨character, ?_, notName⟩, ?_⟩
  · rw [head?_append, head, some_or]
  · intro following rest restSpells
    rw [append_assoc, append_assoc]
    exact spells _ _ (spells_flatMap_append notWords restSpells)

/-- At the end of the text all tokens can be added. -/
theorem completes_of_rest_eq_nil (atEnd : before.rest = [])
    (notWords : ∀ token ∈ tokens, ¬IsWord token)
    (starts : (tokens.flatMap String.toList).head?.map isNameChar = some false) :
    before.Completes tokens := by
  refine ⟨tokens.flatMap String.toList, map_eq_some_iff.1 starts, ?_⟩
  intro following rest restSpells
  rw [atEnd, nil_append]
  exact spells_flatMap_append notWords restSpells

end Cursor

namespace Reader

open Cursor

variable {α β : Type} {before : Cursor} {phrase weaker : List String → Prop} {fuel : Nat}
  {read : Reader α}

/-- Where a reading meets the end of the text, the text can go on with the rest of a
phrase. -/
def Completable (read : Reader α) (before : Cursor) (phrase : List String → Prop) : Prop :=
  ∀ last, read.run.run before = (.error .unexpectedEnd, last) →
    ∃ tokens, phrase tokens ∧ before.Completes tokens

theorem Completable.mono (completable : Completable read before phrase)
    (weaken : ∀ tokens, phrase tokens → before.Completes tokens →
      ∃ tokens, weaker tokens ∧ before.Completes tokens) :
    Completable read before weaker := by
  intro last failed
  obtain ⟨tokens, holds, completes⟩ := completable last failed
  exact weaken tokens holds completes

theorem Completable.bind_of_run {next : α → Reader β} (first : Completable read before phrase)
    (rest : ∀ value middle last, read.run.run before = (.ok value, middle) →
      (next value).run.run middle = (.error .unexpectedEnd, last) →
        ∃ tokens, phrase tokens ∧ before.Completes tokens) :
    Completable (read >>= next) before phrase := by
  intro last failed
  rcases runEq : read.run.run before with ⟨outcome, middle⟩
  cases outcome with
  | error error =>
    rw [run_bind_of_error runEq] at failed
    cases failed
    exact first last runEq
  | ok value =>
    rw [run_bind_of_ok runEq] at failed
    exact rest value middle last runEq failed

/-- The part of a phrase that has been read goes before what is missing. -/
theorem Completable.bind {next : α → Reader β} {post : α → List String → Prop}
    (first : Completable read before phrase) (consumes : Consumes read post)
    (rest : ∀ value middle passed, post value passed → before.Passes middle passed →
      Completable (next value) middle fun tokens => phrase (passed ++ tokens)) :
    Completable (read >>= next) before phrase := by
  refine first.bind_of_run fun value middle last runEq failed => ?_
  obtain ⟨passed, holds, passes⟩ := consumes before value middle runEq
  obtain ⟨tokens, isPhrase, completes⟩ := rest value middle passed holds passes last failed
  exact ⟨passed ++ tokens, isPhrase, passes.completes completes⟩

/-- What follows cannot meet the end. -/
theorem Completable.bind_of_never {next : α → Reader β} (first : Completable read before phrase)
    (rest : ∀ value middle, Completable (next value) middle fun _ => False) :
    Completable (read >>= next) before phrase := by
  refine first.bind_of_run fun value middle last _ failed => ?_
  obtain ⟨_, impossible, _⟩ := rest value middle last failed
  exact impossible.elim

theorem completable_of_completes {tokens : List String}
    (isPhrase : phrase tokens) (completes : before.Completes tokens) :
    Completable read before phrase :=
  fun _ _ => ⟨tokens, isPhrase, completes⟩

theorem completable_of_succeeds {post : α → Cursor → Prop} (succeeds : Succeeds read before post) :
    Completable read before phrase := by
  intro last failed
  obtain ⟨value, _, runEq, _⟩ := succeeds.exists_run_eq
  cases failed.symm.trans runEq

theorem Stays.completable (stays : Stays read) :
    Completable read before phrase :=
  completable_of_succeeds (stays before)

theorem completable_modifyGet (change : Cursor → α × Cursor) :
    Completable (modifyGet change) before phrase := by
  rintro _ ⟨⟩

theorem completable_throw {error : ReadError} (different : error ≠ .unexpectedEnd) :
    Completable (throw error : Reader α) before phrase := by
  rintro _ ⟨⟩
  exact absurd rfl different

theorem completable_get_bind {next : Cursor → Reader β}
    (rest : Completable (next before) before phrase) :
    Completable (get >>= next) before phrase :=
  rest

theorem completable_skipBlanks : Completable skipBlanks before phrase :=
  completable_modifyGet _

theorem completable_token (text : String) : Completable (token text) before phrase :=
  completable_modifyGet _

theorem completable_accept (text : String) : Completable (accept text) before phrase :=
  completable_skipBlanks.bind_of_never fun _ _ => completable_token text

/-- A missing token can be added, with what is to follow it. -/
theorem completable_expect (text : String) (following : List String)
    (notWords : ∀ token ∈ text :: following, ¬IsWord token)
    (starts : ((text :: following).flatMap String.toList).head?.map isNameChar = some false)
    (isPhrase : phrase (text :: following)) :
    Completable (expect text) before phrase := by
  refine (completable_accept text).bind (consumes_accept (notWords text mem_cons_self)) ?_
  rintro found middle _ rfl _
  cases found with
  | true => exact (stays_pure ()).completable
  | false =>
    refine completable_get_bind ?_
    split
    · next atEnd =>
        exact completable_of_completes isPhrase
          (completes_of_rest_eq_nil (List.isEmpty_iff.1 atEnd) notWords starts)
    · exact completable_throw (by simp)

theorem completable_varName :
    Completable varName before fun tokens =>
      ∃ name, Written.IsName name ∧ tokens = [Written.primed name] := by
  refine (completable_token "'").bind (consumes_token (by decide)) ?_
  rintro found middle _ rfl _
  cases found with
  | false =>
    refine completable_get_bind ?_
    split
    · next atEnd =>
        exact completable_of_completes ⟨"a", by decide, rfl⟩
          (completes_of_rest_eq_nil (List.isEmpty_iff.1 atEnd) (by decide) (by decide))
    · exact completable_throw (by simp)
  | true =>
    -- An apostrophe with no name after it is never an early end.
    refine (completable_modifyGet _).bind_of_never ?_
    intro name last
    split
    · exact completable_get_bind (completable_throw (by simp))
    · exact (stays_pure name).completable

theorem completable_typeName (offset : Nat) : Completable (typeName offset) before phrase := by
  refine (completable_modifyGet _).bind_of_never ?_
  intro text middle
  split
  · exact (stays_alloc _).completable
  · exact completable_throw (by simp)

theorem Completable.restoringScope (completable : Completable read before phrase) :
    Completable (restoringScope read) before phrase := by
  refine completable_get_bind (completable.bind_of_never ?_)
  intro value middle
  exact (completable_modifyGet _).bind_of_never fun _ _ => (stays_pure value).completable

theorem completable_binders (enough : before.rest.length + 1 ≤ fuel) :
    Completable (binders fuel) before fun tokens =>
      ∃ names, names ≠ [] ∧ (∀ name ∈ names, Written.IsName name) ∧
        tokens = Written.listed names := by
  induction fuel generalizing before with
  | zero => omega
  | succ fuel ih =>
    rw [binders]
    refine completable_skipBlanks.bind consumes_skipBlanks ?_
    rintro _ start _ rfl blanks
    have oneName : Completable varName start _ := completable_varName
    refine (oneName.mono ?_).bind consumes_varName ?_
    · rintro _ ⟨name, isName, rfl⟩ completes
      exact ⟨_, ⟨[name], by simp, by simpa using isName, rfl⟩, completes⟩
    rintro name afterName _ ⟨isName, rfl⟩ named
    refine (stays_bindVar name).completable.bind (consumes_bindVar name) ?_
    rintro first bound _ rfl isBound
    refine (completable_accept ",").bind (consumes_accept (by decide)) ?_
    rintro more middle _ rfl separated
    cases more with
    | false => exact (stays_pure [first]).completable
    | true =>
      have shorter := (blanks.trans (named.trans (isBound.trans separated))).length_le
      simp only [ifFound, if_true, length_append, length_nil, length_singleton] at shorter
      refine Completable.bind_of_never ?_ fun others _ =>
        (stays_pure (first :: others)).completable
      refine (ih (by omega)).mono ?_
      rintro _ ⟨names, nonempty, areNames, rfl⟩ completes
      refine ⟨_, ⟨name :: names, by simp, forall_mem_cons.2 ⟨isName, areNames⟩, ?_⟩, completes⟩
      obtain ⟨second, rest, rfl⟩ := exists_cons_of_ne_nil nonempty
      simp [ifFound]

section Recursion

/-- The recursion below is deep enough for the text, so an early end is the text's. -/
structure CompletableBelow (fuel : Nat) : Prop where
  /-- A type that breaks off can be completed. -/
  type : ∀ before, 2 * before.rest.length + 2 ≤ fuel →
    Completable (Reader.type fuel) before fun tokens =>
      ∃ written, Phrase.type.Derives written tokens
  /-- An atom likewise. -/
  atom : ∀ before, 2 * before.rest.length + 1 ≤ fuel →
    Completable (Reader.atom fuel) before fun tokens =>
      ∃ written, Phrase.atom.Derives written tokens
  /-- Further components likewise. -/
  components : ∀ before, 2 * before.rest.length + 1 ≤ fuel →
    Completable (Reader.components fuel) before fun tokens =>
      ∃ rest, Phrase.further.Derives (.tuple rest) tokens

variable (below : CompletableBelow fuel)

include below

theorem completable_type_succ (enough : 2 * before.rest.length + 2 ≤ fuel + 1) :
    Completable (type (fuel + 1)) before fun tokens =>
      ∃ written, Phrase.type.Derives written tokens := by
  rw [type]
  refine completable_skipBlanks.bind consumes_skipBlanks ?_
  rintro _ start _ rfl blanks
  refine (completable_modifyGet _).bind consumes_forallWord ?_
  rintro isForall afterWord _ rfl word
  have started := blanks.trans word
  cases isForall with
  | true =>
    have shorter := started.length_le
    simp only [ifFound, if_true, length_append, length_nil, length_singleton] at shorter
    have unitType : Phrase.type.Derives _ ["(", ")"] := .atom .unit
    refine Completable.restoringScope ?_
    refine ((completable_binders (by omega)).mono ?_).bind consumes_binders ?_
    · rintro _ ⟨names, nonempty, areNames, rfl⟩ completes
      exact ⟨_, ⟨_, by simpa [ifFound] using unitType.quantified nonempty areNames⟩,
        completes.append [".", "(", ")"] (by decide)⟩
    rintro vars afterNames _ ⟨names, nonempty, areNames, rfl⟩ listed
    refine (completable_expect "." ["(", ")"] (by decide) (by decide) ?_).bind
      (consumes_expect (by decide)) ?_
    · exact ⟨_, by simpa [ifFound] using unitType.quantified nonempty areNames⟩
    rintro _ afterDot _ rfl dot
    have bodyShorter := (started.trans (listed.trans dot)).length_le
    simp only [ifFound, if_true, length_append, length_nil, length_singleton] at bodyShorter
    refine Completable.bind_of_never ?_ fun _ _ => (stays_alloc _).completable
    refine (below.type afterDot (by omega)).mono ?_
    rintro tokens ⟨written, derives⟩ completes
    exact ⟨tokens,
      ⟨_, by simpa [ifFound] using Phrase.Derives.quantified nonempty areNames derives⟩, completes⟩
  | false =>
    have shorter := started.length_le
    refine ((below.atom afterWord (by omega)).mono ?_).bind (derivesBelow fuel).atom ?_
    · rintro tokens ⟨written, derives⟩ completes
      exact ⟨tokens, ⟨_, derives.atom⟩, completes⟩
    rintro domain afterDomain tokens ⟨domainWritten, derivesDomain⟩ passesDomain
    refine (completable_accept "->").bind (consumes_accept (by decide)) ?_
    rintro isFunction afterArrow _ rfl arrow
    cases isFunction with
    | false => exact (stays_pure domain).completable
    | true =>
      have codomainShorter := (started.trans (passesDomain.trans arrow)).length_le
      simp only [ifFound, if_true, length_append, length_singleton] at codomainShorter
      refine Completable.bind_of_never ?_ fun _ _ => (stays_alloc _).completable
      refine (below.type afterArrow (by omega)).mono ?_
      rintro others ⟨codomainWritten, derivesCodomain⟩ completes
      exact ⟨others,
        ⟨_, by simpa [ifFound] using derivesDomain.function derivesCodomain⟩, completes⟩

theorem completable_components_succ (enough : 2 * before.rest.length + 1 ≤ fuel + 1) :
    Completable (components (fuel + 1)) before fun tokens =>
      ∃ rest, Phrase.further.Derives (.tuple rest) tokens := by
  rw [components]
  refine (completable_accept ",").bind (consumes_accept (by decide)) ?_
  rintro more afterComma _ rfl comma
  cases more with
  | false => exact (stays_pure []).completable
  | true =>
    have shorter := comma.length_le
    simp only [ifFound, if_true, length_singleton] at shorter
    refine ((below.type afterComma (by omega)).mono ?_).bind (derivesBelow fuel).type ?_
    · rintro tokens ⟨written, derives⟩ completes
      exact ⟨tokens, ⟨_, by simpa [ifFound] using derives.next .done⟩, completes⟩
    rintro first afterFirst tokens ⟨firstWritten, derivesFirst⟩ passesFirst
    have restShorter := passesFirst.length_le
    refine Completable.bind_of_never ?_ fun others _ =>
      (stays_pure (first :: others)).completable
    refine (below.components afterFirst (by omega)).mono ?_
    rintro otherTokens ⟨rest, derivesRest⟩ completes
    exact ⟨otherTokens, ⟨_, by simpa [ifFound] using derivesFirst.next derivesRest⟩, completes⟩

theorem completable_parenthesised (enough : 2 * before.rest.length + 2 ≤ fuel) :
    Completable (parenthesised fuel) before fun tokens =>
      ∃ written, Phrase.atom.Derives written ("(" :: tokens) := by
  refine (completable_accept ")").bind (consumes_accept (by decide)) ?_
  rintro isUnit inside _ rfl opened
  have shorter := opened.length_le
  cases isUnit with
  | true => exact (stays_alloc (Alloc.primitive .unit)).completable
  | false =>
    refine ((below.type inside (by omega)).mono ?_).bind (derivesBelow fuel).type ?_
    · rintro tokens ⟨written, derives⟩ completes
      exact ⟨_, ⟨_, derives.group⟩, completes.append [")"] (by decide)⟩
    rintro first afterFirst tokens ⟨firstWritten, derivesFirst⟩ passesFirst
    refine (completable_accept ")").bind (consumes_accept (by decide)) ?_
    rintro isClosed afterClose _ rfl closes
    have restShorter := (passesFirst.trans closes).length_le
    cases isClosed with
    | true => exact (stays_pure first).completable
    | false =>
      refine ((below.components afterClose (by omega)).mono ?_).bind
        (derivesBelow fuel).components ?_
      · rintro others ⟨rest, derivesRest⟩ completes
        exact ⟨others ++ [")"], derivesFirst.parentheses derivesRest,
          completes.append [")"] (by decide)⟩
      rintro others afterRest otherTokens ⟨rest, derivesRest⟩ _
      refine Completable.bind_of_never ?_ fun _ _ => (stays_alloc _).completable
      exact completable_expect ")" [] (by decide) (by decide) (derivesFirst.parentheses derivesRest)

theorem completable_atom_succ (enough : 2 * before.rest.length + 1 ≤ fuel + 1) :
    Completable (atom (fuel + 1)) before fun tokens =>
      ∃ written, Phrase.atom.Derives written tokens := by
  rw [atom]
  refine completable_skipBlanks.bind consumes_skipBlanks ?_
  rintro _ start _ rfl blanks
  have shorter := blanks.length_le
  refine completable_get_bind (completable_get_bind ?_)
  split
  · next atEnd =>
      exact completable_of_completes ⟨_, .unit⟩
        (completes_of_rest_eq_nil (head?_eq_none_iff.1 atEnd) (by decide) (by decide))
  split
  · refine Completable.bind_of_never ?_ fun name _ => (stays_resolveVar name).completable
    refine completable_varName.mono ?_
    rintro _ ⟨name, isName, rfl⟩ completes
    exact ⟨_, ⟨_, .var isName⟩, completes⟩
  refine (completable_token "[").bind (consumes_token (by decide)) ?_
  rintro isList inList _ rfl bracket
  have inListShorter := bracket.length_le
  cases isList with
  | true =>
    simp only [ifFound, if_true, length_nil, length_singleton] at shorter inListShorter
    refine ((below.type inList (by omega)).mono ?_).bind (derivesBelow fuel).type ?_
    · rintro tokens ⟨written, derives⟩ completes
      exact ⟨_, ⟨_, derives.list⟩, completes.append ["]"] (by decide)⟩
    rintro element afterElement tokens ⟨written, derives⟩ _
    refine Completable.bind_of_never ?_ fun _ _ => (stays_alloc _).completable
    exact completable_expect "]" [] (by decide) (by decide) ⟨_, derives.list⟩
  | false =>
    refine (completable_token "(").bind (consumes_token (by decide)) ?_
    rintro isParenthesis inside _ rfl parenthesis
    have insideShorter := parenthesis.length_le
    cases isParenthesis with
    | true =>
      simp only [ifFound, if_true, length_nil, length_singleton]
        at shorter inListShorter insideShorter
      exact completable_parenthesised below (by omega)
    | false =>
      refine (completable_token "<invalid>").bind_of_never ?_
      intro isInvalid _
      cases isInvalid with
      | true => exact (stays_alloc (Alloc.primitive .invalid)).completable
      | false =>
        simp only [Bool.false_eq_true, ↓reduceIte]
        split
        · exact completable_typeName _
        · exact completable_throw (by simp)

end Recursion

theorem completableBelow (fuel : Nat) : CompletableBelow fuel := by
  induction fuel with
  | zero =>
    refine ⟨?_, ?_, ?_⟩
    all_goals
      intro before enough
      omega
  | succ fuel ih =>
    exact ⟨fun _ => completable_type_succ ih, fun _ => completable_atom_succ ih,
      fun _ => completable_components_succ ih⟩

/-- What stands after a type is never an early end. -/
theorem completable_wholeType (enough : 2 * before.rest.length + 2 ≤ fuel) :
    Completable (wholeType fuel) before fun tokens =>
      ∃ written, Phrase.type.Derives written tokens := by
  refine ((completableBelow fuel).type before enough).bind_of_never ?_
  intro id afterType
  refine completable_skipBlanks.bind_of_never ?_
  intro _ last
  refine completable_get_bind ?_
  split
  · exact (stays_generalise id).completable
  · exact completable_throw (by simp)

end Reader

namespace Alloc

/-- A text that ends too early can go on to be a written type. -/
theorem exists_isText_append {text : String} (early : rejection? text = some .unexpectedEnd) :
    ∃ more : String, more ≠ "" ∧ ∃ written : Written, written.IsText (text ++ more) := by
  let start : Cursor := { rest := text.toList, store := Store.empty }
  have failed : ((Reader.wholeType (readingDepth text.length)).run.run start).1 =
      .error .unexpectedEnd :=
    (read_eq_error_iff text Store.empty .unexpectedEnd).2 early
  have enough : 2 * start.rest.length + 2 ≤ readingDepth text.length := by
    rw [readingDepth, String.length_toList]
  obtain ⟨tokens, ⟨written, derives⟩, more, ⟨first, head, _⟩, spells⟩ :=
    Reader.completable_wholeType enough _ (Prod.ext failed rfl)
  refine ⟨String.ofList more, ?_, written, tokens, derives, ?_⟩
  · rintro empty
    rw [String.ofList_eq_empty_iff.1 empty] at head
    cases head
  · have spelled := spells [] [] (.done (forall_mem_nil _))
    simpa [start] using spelled

end Alloc
end PipeCheck
