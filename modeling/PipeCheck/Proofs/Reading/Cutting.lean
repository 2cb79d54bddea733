import PipeCheck.Proofs.Reading.Rejection

/-!
# Texts with more than a type

A reading looks at most one character beyond what it moves over, and only to see that a
word ends there.  So the text can be cut after what has been read, and the reading goes
the same way: it creates the same types in the same order.  The cut text has less depth,
which is enough for it.
-/

namespace PipeCheck

open List Text

theorem Text.dropWhile_append_of_length_le {accept : Char → Bool} {text more : List Char}
    (kept : more.length ≤ ((text ++ more).dropWhile accept).length) :
    (text ++ more).dropWhile accept = text.dropWhile accept ++ more := by
  rw [dropWhile_append] at kept ⊢
  split at kept
  · next isEmpty =>
      have whole : more.dropWhile accept = more := (dropWhile_sublist accept).eq_of_length_le kept
      rw [if_pos isEmpty, whole, List.isEmpty_iff.1 isEmpty, nil_append]
  · next notEmpty => rw [if_neg notEmpty]

theorem Text.takeWhile_append_of_length_le {accept : Char → Bool} {text more : List Char}
    (kept : more.length ≤ ((text ++ more).dropWhile accept).length) :
    (text ++ more).takeWhile accept = text.takeWhile accept := by
  have split : (text ++ more).takeWhile accept ++ (text ++ more).dropWhile accept =
      text.takeWhile accept ++ (text.dropWhile accept ++ more) := by
    rw [takeWhile_append_dropWhile, ← append_assoc, takeWhile_append_dropWhile]
  rw [dropWhile_append_of_length_le kept] at split
  exact append_cancel_right split

namespace Cursor

variable {short next : Cursor} {more : List Char}

/-- The same place in a text that goes on. -/
def extend (cursor : Cursor) (more : List Char) : Cursor :=
  { cursor with rest := cursor.rest ++ more }

theorem length_rest_extend (cursor : Cursor) (more : List Char) :
    (cursor.extend more).rest.length = cursor.rest.length + more.length :=
  length_append

theorem takeWhile_extend {accept : Char → Bool}
    (kept : more.length ≤ ((short.extend more).takeWhile accept).2.rest.length) :
    (short.extend more).takeWhile accept =
      ((short.takeWhile accept).1, (short.takeWhile accept).2.extend more) := by
  have taken := takeWhile_append_of_length_le kept
  have dropped := dropWhile_append_of_length_le kept
  simp only [Cursor.takeWhile, extend, taken, dropped]

theorem token?_of_extend_eq_some {token : String}
    (found : (short.extend more).token? token = some next) (kept : more.length ≤ next.rest.length) :
    ∃ last, short.token? token = some last ∧ next = last.extend more := by
  have restEq : short.rest ++ more = token.toList ++ next.rest := rest_of_token? found
  have isPrefix : token.toList <+: short.rest := by
    refine prefix_of_prefix_length_le ⟨next.rest, restEq.symm⟩ ⟨more, rfl⟩ ?_
    have lengths := congrArg List.length restEq
    rw [length_append, length_append] at lengths
    omega
  unfold token? at found ⊢
  rw [if_pos (List.isPrefixOf_iff_prefix.2 isPrefix)]
  split at found
  · cases found
    refine ⟨_, rfl, ?_⟩
    have fits : token.length ≤ short.rest.length := by
      rw [← String.length_toList]
      exact isPrefix.length_le
    simp only [extend, drop_append_of_le_length fits]
  · cases found

theorem token?_of_extend_eq_none {token : String}
    (missing : (short.extend more).token? token = none) : short.token? token = none := by
  unfold token? at missing ⊢
  split at missing
  · cases missing
  · next notPrefix =>
      rw [if_neg]
      intro isPrefix
      refine notPrefix (List.isPrefixOf_iff_prefix.2 ?_)
      exact (List.isPrefixOf_iff_prefix.1 isPrefix).trans (prefix_append _ _)

theorem skipBlanks_skipBlanks (cursor : Cursor) :
    cursor.skipBlanks.skipBlanks = cursor.skipBlanks := by
  have noBlanks : (cursor.rest.dropWhile isBlank).takeWhile isBlank = [] := by
    rw [takeWhile_eq_nil_iff]
    intro nonempty
    simpa using dropWhile_get_zero_not isBlank cursor.rest nonempty
  simp only [Cursor.skipBlanks, Cursor.takeWhile, noBlanks, dropWhile_idempotent,
    byteCount_nil, Nat.add_zero]

end Cursor

namespace Reader

open Cursor

variable {α β : Type} {more : List Char} {before : Cursor} {fuel depth : Nat}
  {read other : Reader α}

/-- A reading that leaves the end of the text untouched goes the same way without that
end, though perhaps by another reader. -/
def CutsAt (more : List Char) (before : Cursor) (read other : Reader α) : Prop :=
  Ensures read before fun value after =>
    after.rest.length ≤ before.rest.length ∧
      ∀ short, before = short.extend more → more.length ≤ after.rest.length →
        ∃ last, after = last.extend more ∧ other.run.run short = (.ok value, last)

theorem CutsAt.bind {next otherNext : α → Reader β} {post : α → Cursor → Prop}
    (first : CutsAt more before read other) (ensures : Ensures read before post)
    (rest : ∀ value middle, post value middle → CutsAt more middle (next value) (otherNext value)) :
    CutsAt more before (read >>= next) (other >>= otherNext) := by
  refine (first.and ensures).bind ?_
  rintro value middle ⟨⟨shrinks, cuts⟩, holds⟩
  refine (rest value middle holds).mono ?_
  rintro result after ⟨restShrinks, restCuts⟩
  refine ⟨restShrinks.trans shrinks, ?_⟩
  intro short isExtended kept
  obtain ⟨shortMid, rfl, otherEq⟩ := cuts short isExtended (kept.trans restShrinks)
  obtain ⟨last, lastEq, nextEq⟩ := restCuts shortMid rfl kept
  exact ⟨last, lastEq, (run_bind_of_ok otherEq _).trans nextEq⟩

theorem CutsAt.andThen {next otherNext : α → Reader β} (first : CutsAt more before read other)
    (rest : ∀ value middle, CutsAt more middle (next value) (otherNext value)) :
    CutsAt more before (read >>= next) (other >>= otherNext) :=
  first.bind (fun _ _ _ => trivial) fun value middle _ => rest value middle

theorem cutsAt_pure (value : α) : CutsAt more before (pure value) (pure value) :=
  ensures_pure ⟨le_refl _, fun short isExtended _ => ⟨short, isExtended, rfl⟩⟩

theorem cutsAt_throw {error : ReadError} {other : Reader α} :
    CutsAt more before (throw error) other :=
  ensures_throw

theorem cutsAt_get_bind {next otherNext : Cursor → Reader β} (rest : ∀ characters,
      CutsAt more before (next before) (otherNext { before with rest := characters })) :
    CutsAt more before (get >>= next) (get >>= otherNext) := by
  intro value after runEq
  refine ⟨(rest before.rest value after runEq).1, ?_⟩
  rintro short rfl kept
  exact (rest short.rest value after runEq).2 short rfl kept

/-- Where a reading moves, the next character is there in the cut text as well. -/
theorem cutsAt_get_bind_of_moves {next otherNext : Cursor → Reader β}
    (moves : Ensures (next before) before fun _ after => after.rest.length < before.rest.length)
    (rest : ∀ characters, characters.head? = before.rest.head? →
      CutsAt more before (next before) (otherNext { before with rest := characters })) :
    CutsAt more before (get >>= next) (get >>= otherNext) := by
  intro value after runEq
  have moved := moves value after runEq
  refine ⟨moved.le, ?_⟩
  rintro short rfl kept
  rw [length_rest_extend] at moved
  have sameHead : short.rest.head? = (short.extend more).rest.head? := by
    obtain ⟨first, others, restEq⟩ := exists_cons_of_length_pos
      (show 0 < short.rest.length by omega)
    simp [extend, restEq]
  exact (rest short.rest sameHead value after runEq).2 short rfl kept

theorem cutsAt_modifyGet {change : Cursor → α × Cursor}
    (shrinks : (change before).2.rest.length ≤ before.rest.length)
    (cuts : ∀ short, before = short.extend more → more.length ≤ (change before).2.rest.length →
      ∃ last, (change before).2 = last.extend more ∧ change short = ((change before).1, last)) :
    CutsAt more before (modifyGet change) (modifyGet change) := by
  rintro _ _ ⟨⟩
  refine ⟨shrinks, ?_⟩
  intro short isExtended kept
  obtain ⟨last, lastEq, changeEq⟩ := cuts short isExtended kept
  refine ⟨last, lastEq, ?_⟩
  exact congrArg (fun changed => (Except.ok changed.1, changed.2)) changeEq

/-- Within the end that is cut off, there is nothing to compare. -/
theorem cutsAt_of_lt {post : α → List String → Prop} (consumes : Consumes read post)
    (beyond : before.rest.length < more.length) :
    CutsAt more before read other := by
  refine (consumes before).mono ?_
  rintro value after ⟨passed, _, passes⟩
  have shrinks := passes.length_le
  refine ⟨by omega, ?_⟩
  rintro short rfl _
  rw [length_rest_extend] at beyond
  omega

/-- A change that does not look at the text is the same before the cut. -/
theorem cutsAt_modifyGet_of_extend {change : Cursor → α × Cursor}
    (restEq : ∀ cursor, (change cursor).2.rest = cursor.rest)
    (extendEq : ∀ short, change (short.extend more) =
      ((change short).1, (change short).2.extend more)) :
    CutsAt more before (modifyGet change) (modifyGet change) := by
  refine cutsAt_modifyGet (by rw [restEq]) ?_
  rintro short rfl _
  rw [extendEq]
  exact ⟨(change short).2, rfl, rfl⟩

theorem cutsAt_alloc (create : Alloc α) : CutsAt more before (alloc create) (alloc create) :=
  cutsAt_modifyGet_of_extend (fun _ => rfl) fun _ => rfl

theorem cutsAt_skipBlanks : CutsAt more before skipBlanks skipBlanks := by
  refine cutsAt_modifyGet (dropWhile_sublist isBlank).length_le ?_
  rintro short rfl kept
  exact ⟨short.skipBlanks, congrArg Prod.snd (takeWhile_extend kept), rfl⟩

theorem cutsAt_name : CutsAt more before name name := by
  refine cutsAt_modifyGet (dropWhile_sublist isNameChar).length_le ?_
  rintro short rfl kept
  have sameName := takeWhile_extend kept
  refine ⟨(short.takeWhile isNameChar).2, congrArg Prod.snd sameName, ?_⟩
  simp only [sameName]

theorem length_rest_le_of_token? {text : String} {next : Cursor}
    (found : before.token? text = some next) : next.rest.length ≤ before.rest.length := by
  rw [rest_of_token? found, length_append]
  omega

theorem cutsAt_token (text : String) : CutsAt more before (token text) (token text) := by
  cases isHere : before.token? text with
  | none =>
    refine cutsAt_modifyGet (by rw [isHere]) ?_
    rintro short rfl _
    rw [isHere, token?_of_extend_eq_none isHere]
    exact ⟨short, rfl, rfl⟩
  | some next =>
    refine cutsAt_modifyGet (by rw [isHere]; exact length_rest_le_of_token? isHere) ?_
    rintro short rfl kept
    rw [isHere] at kept ⊢
    obtain ⟨last, foundLast, rfl⟩ := token?_of_extend_eq_some isHere kept
    rw [foundLast]
    exact ⟨last, rfl, rfl⟩

/-- The word `forall` is found before the cut as well, if no longer word stands here. -/
theorem cutsAt_forallWord (wholeWord : ∀ next, before.token? "forall" = some next →
      (next.rest.head?.map isNameChar).getD false = false) :
    CutsAt more before forallWord forallWord := by
  cases isHere : before.token? "forall" with
  | none =>
    refine cutsAt_modifyGet (by rw [isHere]) ?_
    rintro short rfl _
    rw [isHere, token?_of_extend_eq_none isHere]
    exact ⟨short, rfl, rfl⟩
  | some next =>
    have ends := wholeWord next isHere
    refine cutsAt_modifyGet ?_ ?_
    · simp only [isHere, ends]
      exact length_rest_le_of_token? isHere
    · rintro short rfl kept
      simp only [isHere, ends] at kept ⊢
      obtain ⟨last, foundLast, rfl⟩ := token?_of_extend_eq_some isHere kept
      have endsEarly : (last.rest.head?.map isNameChar).getD false = false := by
        cases restCase : last.rest with
        | nil => rfl
        | cons character rest => simpa [extend, restCase] using ends
      refine ⟨last, rfl, ?_⟩
      simp only [foundLast, endsEarly]
      rfl

theorem cutsAt_accept (text : String) : CutsAt more before (accept text) (accept text) :=
  cutsAt_skipBlanks.andThen fun _ _ => cutsAt_token text

theorem cutsAt_expect (text : String) : CutsAt more before (expect text) (expect text) := by
  refine (cutsAt_accept text).andThen ?_
  intro found middle
  cases found with
  | true => exact cutsAt_pure ()
  | false =>
    refine ensures_get_bind ?_
    split
    · exact ensures_throw
    · exact ensures_throw

theorem cutsAt_varName : CutsAt more before varName varName := by
  refine (cutsAt_token "'").andThen ?_
  intro found middle
  cases found with
  | false =>
    refine ensures_get_bind ?_
    split
    · exact ensures_throw
    · exact ensures_throw
  | true =>
    refine cutsAt_name.andThen ?_
    intro name last
    split
    · exact ensures_get_bind ensures_throw
    · exact cutsAt_pure name

theorem cutsAt_bindVar (name : String) : CutsAt more before (bindVar name) (bindVar name) := by
  refine (cutsAt_alloc Alloc.var).andThen fun id middle => ?_
  refine CutsAt.andThen ?_ fun _ _ => cutsAt_pure id
  exact cutsAt_modifyGet_of_extend (fun _ => rfl) fun _ => rfl

theorem cutsAt_resolveVar (name : String) :
    CutsAt more before (resolveVar name) (resolveVar name) := by
  refine cutsAt_get_bind ?_
  intro characters
  dsimp only
  cases before.scope.lookup name with
  | some id => exact cutsAt_pure id
  | none =>
    cases before.free.lookup name with
    | some id => exact cutsAt_pure id
    | none =>
      refine (cutsAt_alloc Alloc.var).andThen fun id middle => ?_
      refine CutsAt.andThen ?_ fun _ _ => cutsAt_pure id
      exact cutsAt_modifyGet_of_extend (fun _ => rfl) fun _ => rfl

theorem CutsAt.restoringScope (cuts : CutsAt more before read other) :
    CutsAt more before (restoringScope read) (restoringScope other) := by
  refine cutsAt_get_bind fun characters => ?_
  refine cuts.andThen fun value middle => ?_
  refine CutsAt.andThen ?_ fun _ _ => cutsAt_pure value
  exact cutsAt_modifyGet_of_extend (fun _ => rfl) fun _ => rfl

theorem cutsAt_typeName (offset : Nat) :
    CutsAt more before (typeName offset) (typeName offset) := by
  refine cutsAt_name.andThen ?_
  intro text middle
  split
  · exact cutsAt_alloc _
  · exact ensures_throw

theorem cutsAt_binders (enough : before.rest.length + 1 ≤ depth + more.length) :
    CutsAt more before (binders fuel) (binders depth) := by
  induction fuel generalizing before depth with
  | zero => exact cutsAt_throw
  | succ fuel ih =>
    cases depth with
    | zero => exact cutsAt_of_lt consumes_binders (by omega)
    | succ depth =>
      rw [binders, binders]
      refine cutsAt_skipBlanks.bind (consumes_skipBlanks before) ?_
      rintro _ start ⟨_, rfl, blanks⟩
      refine cutsAt_varName.bind (consumes_varName start) ?_
      rintro name afterName ⟨_, ⟨_, rfl⟩, named⟩
      refine (cutsAt_bindVar name).bind (consumes_bindVar name afterName) ?_
      rintro first bound ⟨_, rfl, isBound⟩
      refine (cutsAt_accept ",").bind (consumes_accept (by decide) bound) ?_
      rintro found middle ⟨_, rfl, separated⟩
      cases found with
      | false => exact cutsAt_pure [first]
      | true =>
        have shorter := (blanks.trans (named.trans (isBound.trans separated))).length_le
        simp only [ifFound, if_true, length_append, length_nil, length_singleton] at shorter
        exact (ih (by omega)).andThen fun others _ =>
          cutsAt_pure (first :: others)

/-- An atom has at least one token. -/
theorem ensures_atom_moves :
    Ensures (atom fuel) before fun _ after => after.rest.length < before.rest.length := by
  refine ((derivesBelow fuel).atom before).mono ?_
  rintro id after ⟨passed, ⟨written, derives⟩, passes⟩
  have shorter := passes.length_le
  have nonempty : 0 < passed.length := by
    rw [length_pos_iff]
    rintro rfl
    obtain ⟨first, _, leadEq⟩ := derives.lead_mem.resolve_left (by simp) []
    cases leadEq
  omega

/-- No atom starts like the word `forall`. -/
theorem not_ensures_atom (head : before.rest.head? = some 'f') :
    Ensures (atom fuel) before fun _ _ => False := by
  refine ((derivesBelow fuel).atom before).mono ?_
  rintro id after ⟨passed, ⟨written, derives⟩, passes⟩
  have remainder : Spells [String.ofList after.rest] (after.rest ++ []) := by
    have spelled := @Spells.token (String.ofList after.rest) [] [] [] (forall_mem_nil _)
      (by simp) (.done (forall_mem_nil _))
    simpa using spelled
  have spelled := passes.spells [] (by simp) _ remainder
  obtain ⟨first, isLead, leadEq⟩ := derives.lead_mem.resolve_left (by simp) []
  obtain ⟨others, restEq⟩ := head?_eq_some_iff.1 head
  cases passed with
  | nil => cases leadEq
  | cons token tokens =>
    obtain ⟨rest, startEq, _⟩ := spelled.exists_rest (derives.isVisible_of_mem token mem_cons_self)
    obtain ⟨characters, tokenEq⟩ : ∃ characters, token.toList = first :: characters :=
      head?_eq_some_iff.1 leadEq
    rw [restEq, tokenEq, append_nil, dropWhile_cons_of_neg (by decide)] at startEq
    cases startEq
    exact absurd isLead (by decide)

section Recursion

/-- What one level of the grammar needs to know about the next.  The depth on the right is
enough for the text before the cut. -/
structure CutsBelow (more : List Char) (fuel : Nat) : Prop where
  /-- Types are read alike before the cut. -/
  type : ∀ before depth, 2 * before.rest.length + 2 ≤ depth + 2 * more.length →
    CutsAt more before (Reader.type fuel) (Reader.type depth)
  /-- Atoms likewise. -/
  atom : ∀ before depth, 2 * before.rest.length + 1 ≤ depth + 2 * more.length →
    CutsAt more before (Reader.atom fuel) (Reader.atom depth)
  /-- Further components likewise. -/
  components : ∀ before depth, 2 * before.rest.length + 1 ≤ depth + 2 * more.length →
    CutsAt more before (Reader.components fuel) (Reader.components depth)

variable (below : CutsBelow more fuel)

include below

theorem cutsAt_type_succ (enough : 2 * before.rest.length + 2 ≤ depth + 1 + 2 * more.length) :
    CutsAt more before (type (fuel + 1)) (type (depth + 1)) := by
  rw [type, type]
  refine cutsAt_skipBlanks.bind (consumes_skipBlanks before) ?_
  rintro _ start ⟨_, rfl, blanks⟩
  by_cases wholeWord : ∀ next, start.token? "forall" = some next →
      (next.rest.head?.map isNameChar).getD false = false
  · refine (cutsAt_forallWord wholeWord).bind (consumes_forallWord start) ?_
    rintro isForall afterWord ⟨_, rfl, word⟩
    have started := blanks.trans word
    cases isForall with
    | true =>
      have shorter := started.length_le
      simp only [ifFound, if_true, length_append, length_nil, length_singleton] at shorter
      refine CutsAt.restoringScope ?_
      refine (cutsAt_binders (by omega)).bind (consumes_binders afterWord) ?_
      rintro vars afterNames ⟨_, _, listed⟩
      refine (cutsAt_expect ".").bind (consumes_expect (by decide) afterNames) ?_
      rintro _ afterDot ⟨_, rfl, dot⟩
      have bodyShorter := (listed.trans dot).length_le
      refine (below.type afterDot depth (by omega)).andThen fun body _ => ?_
      exact cutsAt_alloc _
    | false =>
      have shorter := started.length_le
      refine (below.atom afterWord depth (by omega)).bind ((derivesBelow fuel).atom afterWord) ?_
      rintro domain afterDomain ⟨tokens, _, passesDomain⟩
      refine (cutsAt_accept "->").bind (consumes_accept (by decide) afterDomain) ?_
      rintro isFunction afterArrow ⟨_, rfl, arrow⟩
      cases isFunction with
      | false => exact cutsAt_pure domain
      | true =>
        have codomainShorter := (started.trans (passesDomain.trans arrow)).length_le
        simp only [ifFound, if_true, length_append, length_singleton] at codomainShorter
        refine (below.type afterArrow depth (by omega)).andThen fun codomain _ => ?_
        exact cutsAt_alloc _
  · -- A longer word that starts like `forall`: no type starts here.
    push Not at wholeWord
    obtain ⟨next, isHere, goesOn⟩ := wholeWord
    have head : start.rest.head? = some 'f' := by
      rw [rest_of_token? isHere]
      rfl
    have notForall : Ensures forallWord start fun found after =>
        found = false ∧ after = start := by
      rintro found after ⟨⟩
      simp [isHere, goesOn]
    refine notForall.bind ?_
    rintro _ _ ⟨rfl, rfl⟩
    refine Ensures.bind (not_ensures_atom head) ?_
    exact fun _ _ impossible => impossible.elim

theorem cutsAt_components_succ (enough : 2 * before.rest.length + 1 ≤ depth + 1 + 2 * more.length) :
    CutsAt more before (components (fuel + 1)) (components (depth + 1)) := by
  rw [components, components]
  refine (cutsAt_accept ",").bind (consumes_accept (by decide) before) ?_
  rintro found afterComma ⟨_, rfl, comma⟩
  cases found with
  | false => exact cutsAt_pure []
  | true =>
    have shorter := comma.length_le
    simp only [ifFound, if_true, length_singleton] at shorter
    refine (below.type afterComma depth (by omega)).bind ((derivesBelow fuel).type afterComma) ?_
    rintro first afterFirst ⟨tokens, _, passesFirst⟩
    have restShorter := passesFirst.length_le
    refine (below.components afterFirst depth (by omega)).andThen fun others _ => ?_
    exact cutsAt_pure (first :: others)

/-- After an opening parenthesis: the unit type, a type in parentheses or a tuple. -/
theorem cutsAt_parenthesised (enough : 2 * before.rest.length + 2 ≤ depth + 2 * more.length) :
    CutsAt more before (parenthesised fuel) (parenthesised depth) := by
  refine (cutsAt_accept ")").bind (consumes_accept (by decide) before) ?_
  rintro isUnit inside ⟨_, rfl, opened⟩
  have shorter := opened.length_le
  cases isUnit with
  | true => exact cutsAt_alloc (Alloc.primitive .unit)
  | false =>
    refine (below.type inside depth (by omega)).bind ((derivesBelow fuel).type inside) ?_
    rintro first afterFirst ⟨tokens, _, passesFirst⟩
    refine (cutsAt_accept ")").bind (consumes_accept (by decide) afterFirst) ?_
    rintro isClosed afterClose ⟨_, rfl, closes⟩
    have restShorter := (passesFirst.trans closes).length_le
    cases isClosed with
    | true => exact cutsAt_pure first
    | false =>
      refine (below.components afterClose depth (by omega)).andThen fun others _ => ?_
      refine (cutsAt_expect ")").andThen fun _ _ => ?_
      exact cutsAt_alloc _

theorem cutsAt_atom_succ (enough : 2 * before.rest.length + 1 ≤ depth + 1 + 2 * more.length) :
    CutsAt more before (atom (fuel + 1)) (atom (depth + 1)) := by
  have settled : Ensures skipBlanks before fun _ after =>
      after.skipBlanks = after ∧ after.rest.length ≤ before.rest.length := by
    rintro _ _ ⟨⟩
    exact ⟨skipBlanks_skipBlanks before, (dropWhile_sublist isBlank).length_le⟩
  have opensAt : ∀ start : Cursor, start.skipBlanks = start →
      skipBlanks.run.run start = (.ok (), start) := by
    intro start isSettled
    exact congrArg (fun cursor => (Except.ok (), cursor)) isSettled
  rw [atom, atom]
  refine cutsAt_skipBlanks.bind settled ?_
  rintro _ start ⟨isSettled, shorter⟩
  refine cutsAt_get_bind fun _ => ?_
  refine cutsAt_get_bind_of_moves ?_ ?_
  · intro value after runEq
    refine @ensures_atom_moves start (fuel + 1) value after ?_
    rw [atom, run_bind_of_ok (opensAt start isSettled)]
    exact runEq
  intro characters sameHead
  dsimp only
  rw [sameHead]
  cases start.rest.head? with
  | none => exact cutsAt_throw
  | some character =>
    dsimp only
    split
    · exact cutsAt_varName.andThen fun name _ => cutsAt_resolveVar name
    refine (cutsAt_token "[").bind (consumes_token (by decide) start) ?_
    rintro isList inList ⟨_, rfl, bracket⟩
    have inListShorter := bracket.length_le
    cases isList with
    | true =>
      simp only [ifFound, if_true, length_singleton] at inListShorter
      refine (below.type inList depth (by omega)).andThen fun element _ => ?_
      refine (cutsAt_expect "]").andThen fun _ _ => ?_
      exact cutsAt_alloc _
    | false =>
      refine (cutsAt_token "(").bind (consumes_token (by decide) inList) ?_
      rintro isParenthesis inside ⟨_, rfl, parenthesis⟩
      have insideShorter := parenthesis.length_le
      cases isParenthesis with
      | true =>
        simp only [ifFound, if_true, length_singleton] at insideShorter
        exact cutsAt_parenthesised below (by omega)
      | false =>
        refine (cutsAt_token "<invalid>").andThen ?_
        intro isInvalid _
        cases isInvalid with
        | true => exact cutsAt_alloc (Alloc.primitive .invalid)
        | false =>
          simp only [Bool.false_eq_true, ↓reduceIte]
          split
          · exact cutsAt_typeName _
          · exact cutsAt_throw

end Recursion

theorem cutsBelow (more : List Char) (fuel : Nat) : CutsBelow more fuel := by
  induction fuel with
  | zero =>
    exact ⟨fun _ _ _ => cutsAt_throw, fun _ _ _ => cutsAt_throw, fun _ _ _ => cutsAt_throw⟩
  | succ fuel ih =>
    refine ⟨?_, ?_, ?_⟩
    · intro before depth enough
      cases depth with
      | zero => exact cutsAt_of_lt (derivesBelow (fuel + 1)).type (by omega)
      | succ depth => exact cutsAt_type_succ ih enough
    · intro before depth enough
      cases depth with
      | zero => exact cutsAt_of_lt (derivesBelow (fuel + 1)).atom (by omega)
      | succ depth => exact cutsAt_atom_succ ih enough
    · intro before depth enough
      cases depth with
      | zero => exact cutsAt_of_lt (derivesBelow (fuel + 1)).components (by omega)
      | succ depth => exact cutsAt_components_succ ih enough

end Reader
end PipeCheck
