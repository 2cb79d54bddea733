import PipeCheck.Proofs.Unification.Copies
import PipeCheck.Proofs.Store.Parallel

/-!
# Why a text is not read

Whether a text is a written type, and where it fails to be one, does not depend on
the types that are there already.  Two readings of one text move over the same
characters, whatever their stores and the variables they have named, and so they
fail in the same way or not at all.
-/

namespace PipeCheck

open Reader

namespace Cursor

/-- Two cursors at the same place of the same text. -/
structure SameText (left right : Cursor) : Prop where
  /-- The same text is left. -/
  rest_eq : left.rest = right.rest
  /-- As many bytes were read. -/
  offset_eq : left.offset = right.offset

variable {left middle right : Cursor}

theorem SameText.symm (same : left.SameText right) : right.SameText left :=
  ⟨same.rest_eq.symm, same.offset_eq.symm⟩

theorem SameText.trans (same : left.SameText middle) (further : middle.SameText right) :
    left.SameText right :=
  ⟨same.rest_eq.trans further.rest_eq, same.offset_eq.trans further.offset_eq⟩

theorem SameText.skipBlanks (same : left.SameText right) :
    left.skipBlanks.SameText right.skipBlanks := by
  rw [Cursor.skipBlanks, Cursor.skipBlanks, Cursor.takeWhile, Cursor.takeWhile, same.rest_eq,
    same.offset_eq]
  exact ⟨rfl, rfl⟩

/-- A token stands at both cursors or at neither. -/
theorem SameText.token? (same : left.SameText right) (text : String) :
    Option.Rel SameText (left.token? text) (right.token? text) := by
  rw [Cursor.token?, Cursor.token?, same.rest_eq, same.offset_eq]
  split
  · exact .some ⟨rfl, rfl⟩
  · exact .none

end Cursor

namespace Reader

variable {α β : Type} {fuel : Nat}

section Staying

/-- A reading succeeds anywhere and moves over nothing. -/
def Stays (read : Reader α) : Prop :=
  ∀ cursor, Succeeds read cursor fun _ after => cursor.SameText after

theorem stays_pure (value : α) : Stays (pure value) :=
  fun _ => succeeds_pure ⟨rfl, rfl⟩

theorem Stays.bind {read : Reader α} {next : α → Reader β} (first : Stays read)
    (rest : ∀ value, Stays (next value)) :
    Stays (read >>= next) := by
  intro cursor
  refine (first cursor).bind ?_
  intro value middle same
  exact (rest value middle).mono fun _ _ further => same.trans further

theorem stays_get_bind {next : Cursor → Reader β} (rest : ∀ cursor, Stays (next cursor)) :
    Stays (get >>= next) :=
  fun cursor => succeeds_get_bind (rest cursor cursor)

theorem stays_modifyGet {change : Cursor → α × Cursor}
    (same : ∀ cursor : Cursor, cursor.SameText (change cursor).2) :
    Stays (modifyGet change) :=
  fun cursor => succeeds_modifyGet (same cursor)

theorem stays_alloc (create : Alloc α) : Stays (alloc create) :=
  stays_modifyGet fun _ => ⟨rfl, rfl⟩

theorem stays_bindVar (name : String) : Stays (bindVar name) :=
  (stays_alloc Alloc.var).bind fun _ =>
    (stays_modifyGet fun _ => ⟨rfl, rfl⟩).bind fun _ => stays_pure _

theorem stays_resolveVar (name : String) : Stays (resolveVar name) := by
  refine stays_get_bind ?_
  intro cursor
  split
  · exact stays_pure _
  split
  · exact stays_pure _
  · exact (stays_alloc Alloc.var).bind fun _ =>
      (stays_modifyGet fun _ => ⟨rfl, rfl⟩).bind fun _ => stays_pure _

theorem stays_generalise (id : TypeId) : Stays (generalise id) := by
  refine stays_get_bind ?_
  intro cursor
  dsimp only
  split
  · exact stays_pure _
  · exact stays_alloc _

end Staying

section Coinciding

variable {related : α → α → Prop} {first second : Reader α}

/-- At the same place of the same text two readings fail in the same way, or both
succeed, with related values and at the same place. -/
def Coincide (first second : Reader α) (related : α → α → Prop) : Prop :=
  ∀ twins left right, left.SameText right →
    Concur (fun _ => Cursor.SameText) twins left right first second fun _ => related

theorem Coincide.bind {next otherNext : α → Reader β} {lastRelated : β → β → Prop}
    (coincide : Coincide first second related) (rest : ∀ value other, related value other →
      Coincide (next value) (otherNext other) lastRelated) :
    Coincide (first >>= next) (second >>= otherNext) lastRelated := by
  intro twins left right same
  exact (coincide twins left right same).bind fun _ ended holds => rest _ _ holds _ _ _ ended

theorem coincide_pure {value other : α} (holds : related value other) :
    Coincide (pure value) (pure other) related :=
  fun _ _ _ same => concur_pure same holds

theorem coincide_throw (failure : ReadError) :
    Coincide (throw failure) (throw failure) related :=
  fun _ _ _ same => concur_throw same

theorem coincide_get_bind {next otherNext : Cursor → Reader β} {lastRelated : β → β → Prop}
    (rest : ∀ left right, left.SameText right →
      Coincide (next left) (otherNext right) lastRelated) :
    Coincide (get >>= next) (get >>= otherNext) lastRelated :=
  fun twins left right same => concur_get_bind (rest left right same twins left right same)

theorem coincide_modifyGet {change otherChange : Cursor → α × Cursor}
    (changes : ∀ left right, left.SameText right →
      (change left).2.SameText (otherChange right).2 ∧
        related (change left).1 (otherChange right).1) :
    Coincide (modifyGet change) (modifyGet otherChange) related :=
  fun twins left right same =>
    ⟨twins, le_refl twins, (changes left right same).1, (changes left right same).2⟩

/-- Readings that move over nothing may differ in all else. -/
theorem Stays.coincide (stays : Stays first) (otherStays : Stays second) :
    Coincide first second fun _ _ => True := by
  intro twins left right same
  obtain ⟨value, last, runEq, stayed⟩ := (stays left).exists_run_eq
  obtain ⟨other, otherLast, otherEq, otherStayed⟩ := (otherStays right).exists_run_eq
  refine ⟨twins, le_refl twins, ?_, ?_⟩
  · rw [runEq, otherEq]
    exact (stayed.symm.trans same).trans otherStayed
  · rw [runEq, otherEq]
    trivial

theorem coincide_alloc (create otherCreate : Alloc α) :
    Coincide (alloc create) (alloc otherCreate) fun _ _ => True :=
  (stays_alloc create).coincide (stays_alloc otherCreate)

theorem coincide_skipBlanks : Coincide skipBlanks skipBlanks fun _ _ => True :=
  coincide_modifyGet fun _ _ same => ⟨same.skipBlanks, trivial⟩

theorem coincide_token (text : String) : Coincide (token text) (token text) Eq := by
  refine coincide_modifyGet ?_
  intro left right same
  have found := same.token? text
  generalize left.token? text = next, right.token? text = otherNext at found ⊢
  cases found with
  | none => exact ⟨same, rfl⟩
  | some sameNext => exact ⟨sameNext, rfl⟩

theorem coincide_forallWord : Coincide forallWord forallWord Eq := by
  refine coincide_modifyGet ?_
  intro left right same
  have found := same.token? "forall"
  generalize left.token? "forall" = next, right.token? "forall" = otherNext at found ⊢
  cases found with
  | none => exact ⟨same, rfl⟩
  | some sameNext =>
    simp only [sameNext.rest_eq]
    split
    · exact ⟨same, rfl⟩
    · exact ⟨sameNext, rfl⟩

theorem coincide_accept (text : String) : Coincide (accept text) (accept text) Eq :=
  coincide_skipBlanks.bind fun _ _ _ => coincide_token text

theorem coincide_expect (text : String) :
    Coincide (expect text) (expect text) fun _ _ => True := by
  refine (coincide_accept text).bind ?_
  rintro found _ rfl
  cases found with
  | true => exact coincide_pure trivial
  | false =>
    refine coincide_get_bind ?_
    intro left right same
    rw [same.rest_eq, same.offset_eq]
    split
    · exact coincide_throw _
    · exact coincide_throw _

theorem coincide_name : Coincide name name Eq := by
  refine coincide_modifyGet ?_
  intro left right same
  dsimp only [Cursor.takeWhile]
  rw [same.rest_eq, same.offset_eq]
  exact ⟨⟨rfl, rfl⟩, rfl⟩

theorem coincide_varName : Coincide varName varName Eq := by
  refine (coincide_token "'").bind ?_
  rintro found _ rfl
  cases found with
  | false =>
    refine coincide_get_bind ?_
    intro left right same
    rw [same.rest_eq, same.offset_eq]
    split
    · exact coincide_throw _
    · exact coincide_throw _
  | true =>
    refine coincide_name.bind ?_
    rintro name _ rfl
    split
    · refine coincide_get_bind ?_
      intro left right same
      rw [same.offset_eq]
      exact coincide_throw _
    · exact coincide_pure rfl

theorem Coincide.restoringScope (coincide : Coincide first second related) :
    Coincide (restoringScope first) (restoringScope second) related := by
  refine coincide_get_bind ?_
  intro left right _
  refine coincide.bind ?_
  intro value other holds
  refine ((stays_modifyGet fun _ => ⟨rfl, rfl⟩).coincide
    (stays_modifyGet fun _ => ⟨rfl, rfl⟩)).bind ?_
  intro _ _ _
  exact coincide_pure holds

theorem coincide_binders : Coincide (binders fuel) (binders fuel) fun _ _ => True := by
  induction fuel with
  | zero => exact coincide_throw _
  | succ fuel ih =>
    rw [binders]
    refine coincide_skipBlanks.bind fun _ _ _ => ?_
    refine coincide_varName.bind ?_
    rintro name _ rfl
    refine ((stays_bindVar name).coincide (stays_bindVar name)).bind fun first other _ => ?_
    refine (coincide_accept ",").bind ?_
    rintro more _ rfl
    cases more with
    | false => exact coincide_pure trivial
    | true => exact ih.bind fun _ _ _ => coincide_pure trivial

theorem coincide_typeName (offset : Nat) :
    Coincide (typeName offset) (typeName offset) fun _ _ => True := by
  refine coincide_name.bind ?_
  rintro text _ rfl
  split
  · exact coincide_alloc _ _
  · exact coincide_throw _

end Coinciding

section Recursion

/-- What one level of the grammar needs to know about the next. -/
structure CoincideBelow (fuel : Nat) : Prop where
  /-- Types are read alike. -/
  type : Coincide (type fuel) (type fuel) fun _ _ => True
  /-- Atoms likewise. -/
  atom : Coincide (atom fuel) (atom fuel) fun _ _ => True
  /-- Further components likewise. -/
  components : Coincide (components fuel) (components fuel) fun _ _ => True

variable (below : CoincideBelow fuel)

include below

theorem coincide_type_succ :
    Coincide (type (fuel + 1)) (type (fuel + 1)) fun _ _ => True := by
  rw [type]
  refine coincide_skipBlanks.bind fun _ _ _ => ?_
  refine coincide_forallWord.bind ?_
  rintro isForall _ rfl
  cases isForall with
  | true =>
    refine Coincide.restoringScope ?_
    refine coincide_binders.bind fun _ _ _ => ?_
    refine (coincide_expect ".").bind fun _ _ _ => ?_
    exact below.type.bind fun _ _ _ => coincide_alloc _ _
  | false =>
    refine below.atom.bind fun _ _ _ => ?_
    refine (coincide_accept "->").bind ?_
    rintro isFunction _ rfl
    cases isFunction with
    | false => exact coincide_pure trivial
    | true => exact below.type.bind fun _ _ _ => coincide_alloc _ _

theorem coincide_components_succ :
    Coincide (components (fuel + 1)) (components (fuel + 1)) fun _ _ => True := by
  rw [components]
  refine (coincide_accept ",").bind ?_
  rintro more _ rfl
  cases more with
  | false => exact coincide_pure trivial
  | true =>
    refine below.type.bind fun _ _ _ => ?_
    exact below.components.bind fun _ _ _ => coincide_pure trivial

theorem coincide_atom_succ :
    Coincide (atom (fuel + 1)) (atom (fuel + 1)) fun _ _ => True := by
  rw [atom]
  refine coincide_skipBlanks.bind fun _ _ _ => ?_
  refine coincide_get_bind fun left right same => ?_
  refine coincide_get_bind fun leftHead rightHead sameHead => ?_
  rw [same.offset_eq, sameHead.rest_eq]
  split
  · exact coincide_throw _
  split
  · refine coincide_varName.bind ?_
    rintro name _ rfl
    exact (stays_resolveVar name).coincide (stays_resolveVar name)
  refine (coincide_token "[").bind ?_
  rintro isList _ rfl
  cases isList with
  | true =>
    refine below.type.bind fun _ _ _ => ?_
    exact (coincide_expect "]").bind fun _ _ _ => coincide_alloc _ _
  | false =>
    refine (coincide_token "(").bind ?_
    rintro isParenthesis _ rfl
    cases isParenthesis with
    | true =>
      refine (coincide_accept ")").bind ?_
      rintro isUnit _ rfl
      cases isUnit with
      | true => exact coincide_alloc (Alloc.primitive .unit) (Alloc.primitive .unit)
      | false =>
        refine below.type.bind fun _ _ _ => ?_
        refine (coincide_accept ")").bind ?_
        rintro isClosed _ rfl
        cases isClosed with
        | true => exact coincide_pure trivial
        | false =>
          refine below.components.bind fun _ _ _ => ?_
          exact (coincide_expect ")").bind fun _ _ _ => coincide_alloc _ _
    | false =>
      refine (coincide_token "<invalid>").bind ?_
      rintro isInvalid _ rfl
      cases isInvalid with
      | true => exact coincide_alloc (Alloc.primitive .invalid) (Alloc.primitive .invalid)
      | false =>
        simp only [Bool.false_eq_true, ↓reduceIte]
        split
        · exact coincide_typeName _
        · exact coincide_throw _

end Recursion

theorem coincideBelow (fuel : Nat) : CoincideBelow fuel := by
  induction fuel with
  | zero => exact ⟨coincide_throw _, coincide_throw _, coincide_throw _⟩
  | succ fuel ih =>
    exact ⟨coincide_type_succ ih, coincide_atom_succ ih, coincide_components_succ ih⟩

theorem coincide_wholeType :
    Coincide (wholeType fuel) (wholeType fuel) fun _ _ => True := by
  refine (coincideBelow fuel).type.bind fun id other _ => ?_
  refine coincide_skipBlanks.bind fun _ _ _ => ?_
  refine coincide_get_bind fun left right same => ?_
  rw [same.rest_eq, same.offset_eq]
  split
  · exact (stays_generalise id).coincide (stays_generalise other)
  · exact coincide_throw _

end Reader

namespace Alloc

/-- Why a text is not a written type. -/
def rejection? (text : String) : Option ReadError :=
  match ((read text).run.run Store.empty).1 with
  | .ok _ => none
  | .error error => some error

/-- A reading has the same kind of outcome in every store. -/
theorem outcomes_read (text : String) (left right : Store) :
    ∃ twins, Outcomes (fun _ _ _ => True) twins ((read text).run.run left).1
      ((read text).run.run right).1 := by
  let start (store : Store) : Cursor := { rest := text.toList, store }
  have coincide : Coincide (wholeType (readingDepth text.length)) _ _ := coincide_wholeType
  obtain ⟨twins, _, _, outcomes⟩ := coincide ⊥ (start left) (start right) ⟨rfl, rfl⟩
  exact ⟨twins, outcomes⟩

/-- A text is rejected for the same reason in every store. -/
theorem read_eq_error_iff (text : String) (store : Store) (error : ReadError) :
    ((read text).run.run store).1 = .error error ↔ rejection? text = some error := by
  obtain ⟨twins, outcomes⟩ := outcomes_read text store Store.empty
  rw [rejection?]
  generalize ((read text).run.run store).1 = outcome,
    ((read text).run.run Store.empty).1 = other at outcomes ⊢
  cases outcome with
  | ok type =>
    cases other with
    | ok otherType => simp
    | error otherError => exact absurd outcomes id
  | error failure =>
    cases other with
    | ok otherType => exact absurd outcomes id
    | error otherError =>
      obtain rfl : failure = otherError := outcomes
      simp

/-- Exactly the written types are not rejected. -/
theorem rejection?_eq_none_iff {text : String} :
    rejection? text = none ↔ ∃ written : Written, written.IsText text := by
  constructor
  · intro accepted
    rw [rejection?] at accepted
    split at accepted
    · next id runEq => exact exists_isText_of_read (Prod.ext runEq rfl)
    · cases accepted
  · rintro ⟨written, isText⟩
    obtain ⟨id, last, runEq, _⟩ := (succeeds_readFrom Store.wellFormed_empty isText).exists_run_eq
    rw [rejection?, runEq]

end Alloc
end PipeCheck
