import PipeCheck.Proofs.Reading.Completion
import PipeCheck.Proofs.Reading.Cutting
import PipeCheck.Proofs.Reading.Locations

/-!
# Errors of written types point at the truth

A text that is rejected is rejected for a reason that can be checked against it.  Offsets
lie between two characters, and what is reported of a place stands there.  Input after a
type starts where the text could have ended with that type, and a text that ends too early
is the beginning of a written type.
-/

namespace PipeCheck

open Text Reader

/-- The place that an error reports. -/
def ReadError.offset? : ReadError → Option Nat
  | .unexpectedEnd => none
  | .unexpectedChar _ offset => some offset
  | .unknownType _ offset => some offset
  | .expected _ offset => some offset
  | .trailingInput offset => some offset

namespace Reader

open Cursor

variable {text : List Char} {before last : Cursor} {fuel : Nat} {error : ReadError}

/-- A rejected text fails within a type or after it. -/
theorem points_or_trailingInput (starts : before.StartsIn text)
    (failed : (wholeType fuel).run.run before = (.error error, last)) :
    error.Points text ∨
      ∃ inner after, (type fuel).run.run before = (.ok inner, after) ∧
        after.skipBlanks.StandsIn text ∧ last = after.skipBlanks ∧ last.rest ≠ [] ∧
        error = .trailingInput last.offset := by
  have located := (locatesBelow text fuel).type starts
  rcases typeEq : (type fuel).run.run before with ⟨outcome, after⟩
  cases outcome with
  | error failure =>
    rw [wholeType, run_bind_of_error typeEq] at failed
    cases failed
    exact .inl (located.points error last typeEq)
  | ok inner =>
    refine .inr ⟨inner, after, rfl, (located.ensures inner after typeEq).skipBlanks, ?_⟩
    have blanks : skipBlanks.run.run after = (.ok (), after.skipBlanks) := rfl
    rw [wholeType, run_bind_of_ok typeEq, run_bind_of_ok blanks, run_get_bind] at failed
    split at failed
    · obtain ⟨id, _, runEq, _⟩ := (stays_generalise inner after.skipBlanks).exists_run_eq
      cases failed.symm.trans runEq
    · next notEmpty =>
        cases failed
        exact ⟨rfl, by simpa using notEmpty, rfl⟩

/-- Which variables are to be quantified does not depend on the text. -/
theorem run_generalise_congr (inner : TypeId) {left right : Cursor}
    (sameFree : left.free = right.free) (sameStore : left.store = right.store) :
    ∃ id leftLast rightLast, (generalise inner).run.run left = (.ok id, leftLast) ∧
      (generalise inner).run.run right = (.ok id, rightLast) ∧
      leftLast.store = rightLast.store := by
  obtain ⟨rest, offset, scope, free, store⟩ := left
  obtain ⟨otherRest, otherOffset, otherScope, _, _⟩ := right
  obtain rfl : free = _ := sameFree
  obtain rfl : store = _ := sameStore
  rw [generalise, run_get_bind, run_get_bind]
  dsimp only
  split
  · exact ⟨inner, _, _, rfl, rfl, rfl⟩
  · exact ⟨_, _, _, rfl, rfl, rfl⟩

/-- Where only white space follows a type, cutting off the rest makes the text end. -/
theorem run_wholeType_cut {depth : Nat} {inner : TypeId} {short after : Cursor}
    {more : List Char} (typeEq : (type fuel).run.run (short.extend more) = (.ok inner, after))
    (restEq : after.skipBlanks.rest = more) (enough : 2 * short.rest.length + 2 ≤ depth) :
    ∃ ended, (wholeType depth).run.run short = (generalise inner).run.run ended ∧
      ended.free = after.free ∧ ended.store = after.store := by
  have kept : more.length ≤ after.skipBlanks.rest.length := by rw [restEq]
  have room : 2 * (short.extend more).rest.length + 2 ≤ depth + 2 * more.length := by
    rw [length_rest_extend]
    omega
  obtain ⟨_, cuts⟩ := (cutsBelow more fuel).type (short.extend more) depth room inner after typeEq
  obtain ⟨last, rfl, shortEq⟩ :=
    cuts short rfl (kept.trans (List.dropWhile_sublist isBlank).length_le)
  have blanksEq : (last.extend more).skipBlanks = last.skipBlanks.extend more :=
    congrArg Prod.snd (takeWhile_extend kept)
  have atEnd : last.skipBlanks.rest = [] := by
    rw [blanksEq] at restEq
    exact List.append_left_eq_self.1 restEq
  have blanks : skipBlanks.run.run last = (.ok (), last.skipBlanks) := rfl
  refine ⟨last.skipBlanks, ?_, rfl, rfl⟩
  rw [wholeType, run_bind_of_ok shortEq, run_bind_of_ok blanks, run_get_bind, atEnd]
  rfl

end Reader

namespace Alloc

variable {outcome : Except ReadError TypeId}

/-- Builds the type at the start of a text, whatever comes after it. -/
def readStart (text : String) : ExceptT ReadError Alloc TypeId :=
  ExceptT.mk <| modifyGet fun store =>
    let (outcome, cursor) :=
      (type (readingDepth text.length) >>= generalise).run { rest := text.toList, store }
    (outcome, cursor.store)

variable {text : String} {store last : Store} {error : ReadError}

theorem startsIn_start (text : String) (store : Store) :
    ({ rest := text.toList, store } : Cursor).StartsIn text.toList :=
  ⟨[], ⟨rfl, rfl⟩, by simp⟩

theorem eq_append_of_toList_eq {before after : List Char} (textEq : text.toList = before ++ after) :
    text = String.ofList before ++ String.ofList after := by
  rw [← String.ofList_append, ← textEq, String.ofList_toList]

theorem exists_run_wholeType_eq (runEq : (read text).run.run store = (outcome, last)) :
    ∃ cursor, (wholeType (readingDepth text.length)).run.run
      { rest := text.toList, store } = (outcome, cursor) := by
  have outcomeEq : ((wholeType (readingDepth text.length)).run.run
      { rest := text.toList, store }).1 = outcome :=
    congrArg Prod.fst runEq
  exact ⟨_, Prod.ext outcomeEq rfl⟩

theorem run_read_of_run_eq {cursor : Cursor} (runEq : (wholeType (readingDepth text.length)).run.run
      { rest := text.toList, store } = (outcome, cursor)) :
    (read text).run.run store = (outcome, cursor.store) :=
  congrArg (fun result : _ × Cursor => (result.1, result.2.store)) runEq

theorem run_readStart_of_run_eq {cursor : Cursor}
    (runEq : (type (readingDepth text.length) >>= generalise).run.run
      { rest := text.toList, store } = (outcome, cursor)) :
    (readStart text).run.run store = (outcome, cursor.store) :=
  congrArg (fun result : _ × Cursor => (result.1, result.2.store)) runEq

/-- Input after a type starts where the text could have ended with the type. -/
theorem read_of_trailingInput {offset : Nat}
    (failed : (read text).run.run store = (.error (.trailingInput offset), last)) :
    ∃ before after : String, text = before ++ after ∧ before.utf8ByteSize = offset ∧
      after ≠ "" ∧ ∃ id final, (read before).run.run store = (.ok id, final) ∧
        (readStart text).run.run store = (.ok id, final) := by
  obtain ⟨cursor, wholeEq⟩ := exists_run_wholeType_eq failed
  obtain impossible |
      ⟨inner, after, typeEq, ⟨passed, textEq, offsetEq⟩, rfl, nonempty, errorEq⟩ :=
    points_or_trailingInput (startsIn_start text store) wholeEq
  · exact impossible.elim
  cases errorEq
  have extended : ({ rest := text.toList, store } : Cursor) =
      ({ rest := passed, store } : Cursor).extend after.skipBlanks.rest := by
    rw [textEq]
    rfl
  have enough : 2 * passed.length + 2 ≤ readingDepth (String.ofList passed).length := by
    rw [readingDepth, ← String.length_toList, String.toList_ofList]
  obtain ⟨ended, cutEq, sameFree, sameStore⟩ := run_wholeType_cut (extended ▸ typeEq) rfl enough
  obtain ⟨id, cutLast, startLast, cutRun, startRun, storeEq⟩ :=
    run_generalise_congr inner sameFree sameStore
  refine ⟨String.ofList passed, String.ofList after.skipBlanks.rest,
    eq_append_of_toList_eq textEq, (utf8ByteSize_ofList passed).trans offsetEq, ?_, id,
    cutLast.store, ?_, ?_⟩
  · rwa [ne_eq, String.ofList_eq_empty_iff]
  · refine run_read_of_run_eq ?_
    rw [String.toList_ofList]
    exact cutEq.trans cutRun
  · rw [storeEq]
    exact run_readStart_of_run_eq ((run_bind_of_ok typeEq _).trans startRun)

/-- An error within a type is true of the text. -/
theorem points_of_read (failed : (read text).run.run store = (.error error, last))
    (within : ∀ offset, error ≠ .trailingInput offset) : error.Points text.toList := by
  obtain ⟨cursor, wholeEq⟩ := exists_run_wholeType_eq failed
  obtain points | ⟨_, _, _, _, _, _, errorEq⟩ :=
    points_or_trailingInput (startsIn_start text store) wholeEq
  · exact points
  · exact absurd errorEq (within _)

/-- A text that ends too early is accepted with more text after it, in every store. -/
theorem read_append_of_unexpectedEnd
    (failed : (read text).run.run store = (.error .unexpectedEnd, last)) :
    ∃ more : String, more ≠ "" ∧
      ∃ id final, (read (text ++ more)).run.run store = (.ok id, final) := by
  have early := (read_eq_error_iff text store .unexpectedEnd).1 (congrArg Prod.fst failed)
  obtain ⟨more, nonempty, isText⟩ := exists_isText_append early
  refine ⟨more, nonempty, ?_⟩
  have accepted := rejection?_eq_none_iff.2 isText
  rcases runEq : (read (text ++ more)).run.run store with ⟨outcome, final⟩
  cases outcome with
  | ok id => exact ⟨id, final, rfl⟩
  | error failure =>
    have rejected := (read_eq_error_iff (text ++ more) store failure).1 (congrArg Prod.fst runEq)
    cases accepted.symm.trans rejected

/-- The place that an error reports lies between two characters of the text. -/
theorem offset_of_read (failed : (read text).run.run store = (.error error, last)) {offset : Nat}
    (reported : offset ∈ error.offset?) :
    ∃ before after : String, text = before ++ after ∧ before.utf8ByteSize = offset := by
  cases error with
  | unexpectedEnd => cases reported
  | trailingInput found =>
    cases reported
    obtain ⟨before, after, textEq, sizeEq, _⟩ := read_of_trailingInput failed
    exact ⟨before, after, textEq, sizeEq⟩
  | unexpectedChar char found =>
    cases reported
    obtain ⟨before, after, textEq, sizeEq⟩ := points_of_read failed (by simp)
    exact ⟨_, _, eq_append_of_toList_eq textEq, (utf8ByteSize_ofList before).trans sizeEq⟩
  | unknownType name found =>
    cases reported
    obtain ⟨before, after, textEq, sizeEq, _⟩ := points_of_read failed (by simp)
    exact ⟨_, _, eq_append_of_toList_eq textEq, (utf8ByteSize_ofList before).trans sizeEq⟩
  | expected what found =>
    cases reported
    obtain ⟨before, after, textEq, sizeEq⟩ := points_of_read failed (by simp)
    exact ⟨_, _, eq_append_of_toList_eq textEq, (utf8ByteSize_ofList before).trans sizeEq⟩

/-- What the error of a rejected text says is true.  Its offset lies between two characters
of the text.  A character that was not expected stands there.  A name that is no type name
stands there as a whole.  Where there is more input, the text before it is accepted and
yields the type that stands at the start of the whole text.  A text that ends too early is
accepted with some text after it. -/
theorem read_error_is_true (failed : (read text).run.run store = (.error error, last)) :
    (∀ offset ∈ error.offset?, offset ≤ text.utf8ByteSize ∧
      ∃ before after : String, text = before ++ after ∧ before.utf8ByteSize = offset) ∧
    (∀ character offset, error = .unexpectedChar character offset →
      ∃ before after : String, text = before ++ (String.singleton character ++ after) ∧
        before.utf8ByteSize = offset) ∧
    (∀ name offset, error = .unknownType name offset →
      name ∉ ["Int", "Num", "Bool", "Str", "File"] ∧ Written.IsName name ∧
        ∃ before after : String, text = before ++ (name ++ after) ∧ before.utf8ByteSize = offset ∧
          (∀ previous ∈ before.toList.getLast?, ¬isNameChar previous) ∧
          ∀ next ∈ after.toList.head?, ¬isNameChar next) ∧
    (∀ offset, error = .trailingInput offset →
      offset < text.utf8ByteSize ∧
        ∃ before after : String, text = before ++ after ∧ before.utf8ByteSize = offset ∧
          ∃ id final, (read before).run.run store = (.ok id, final) ∧
            (readStart text).run.run store = (.ok id, final)) ∧
    (error = .unexpectedEnd →
      ∃ more : String, more ≠ "" ∧
        ∃ id final, (read (text ++ more)).run.run store = (.ok id, final)) := by
  refine ⟨?_, ?_, ?_, ?_, ?_⟩
  · intro offset reported
    obtain ⟨before, after, textEq, sizeEq⟩ := offset_of_read failed reported
    refine ⟨?_, before, after, textEq, sizeEq⟩
    rw [textEq, String.utf8ByteSize_append]
    omega
  · rintro character offset rfl
    obtain ⟨before, after, textEq, sizeEq⟩ := points_of_read failed (by simp)
    refine ⟨String.ofList before, String.ofList after, ?_,
      (utf8ByteSize_ofList before).trans sizeEq⟩
    rw [eq_append_of_toList_eq textEq, String.ofList_cons]
  · rintro name offset rfl
    obtain ⟨before, after, textEq, sizeEq, isName, unknown, edge, stops⟩ :=
      points_of_read failed (by simp)
    refine ⟨unknown, isName, String.ofList before, String.ofList after, ?_,
      (utf8ByteSize_ofList before).trans sizeEq, ?_, ?_⟩
    · rw [eq_append_of_toList_eq textEq, String.ofList_append, String.ofList_toList]
    · rwa [String.toList_ofList]
    · rwa [String.toList_ofList]
  · rintro offset rfl
    obtain ⟨before, after, textEq, sizeEq, nonempty, same⟩ := read_of_trailingInput failed
    refine ⟨?_, before, after, textEq, sizeEq, same⟩
    have visible : 0 < after.utf8ByteSize := by
      rw [Nat.pos_iff_ne_zero, ne_eq, String.utf8ByteSize_eq_zero_iff]
      exact nonempty
    rw [textEq, String.utf8ByteSize_append]
    omega
  · rintro rfl
    exact read_append_of_unexpectedEnd failed

/-- A type, a blank of three bytes, and a character that belongs to no type. -/
def spaced : String :=
  "('a, Int)\u3000é"

/-- The type ends before the blank, and the offset comes after it. -/
theorem read_error_is_true_spaced :
    ∃ last, (read spaced).run.run Store.empty = (.error (.trailingInput 12), last) ∧
      12 < spaced.utf8ByteSize ∧
      ∃ before after : String, spaced = before ++ after ∧ before.utf8ByteSize = 12 ∧
        ∃ id final, (read before).run.run Store.empty = (.ok id, final) ∧
          (readStart spaced).run.run Store.empty = (.ok id, final) := by
  have outcome : ((read spaced).run.run Store.empty).1 = .error (.trailingInput 12) := by
    decide +kernel
  rcases runEq : (read spaced).run.run Store.empty with ⟨result, last⟩
  rw [runEq] at outcome
  obtain rfl : result = .error (.trailingInput 12) := outcome
  obtain ⟨_, _, _, cutting, _⟩ := read_error_is_true runEq
  exact ⟨last, rfl, cutting 12 rfl⟩

end Alloc
end PipeCheck
