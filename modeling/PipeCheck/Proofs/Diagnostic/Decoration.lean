import Mathlib.Data.List.Forall2
import Mathlib.Data.List.SplitBy
import PipeCheck.Diagnostic.Layout

/-!
# Colour only decorates

An escape sequence is the escape character, a bracket, numbers divided by
semicolons and the letter `m`.  Deleting every escape sequence from a diagnostic
that is laid out with colours leaves the diagnostic laid out without them.

A coloured text decorates a plain one when the deletion turns the first into the
second whatever text follows.  Decoration is kept by concatenation, so it is
shown piece by piece: for a painted text, for each row of a snippet, and for the
lines of a whole diagnostic.
-/

namespace PipeCheck

open List SnippetRow

namespace Text

variable {text after : List Char} {coloured plain : String}

/-! ## Deleting escape sequences -/

/-- Whether a character may stand among the codes of an escape sequence. -/
def isCode (character : Char) : Bool :=
  character.isDigit || character = ';'

/-- What follows the codes of an escape sequence and its last letter. -/
def afterCodes? : List Char → Option (List Char)
  | [] => none
  | character :: rest =>
    if character = 'm' then
      some rest
    else if isCode character then
      afterCodes? rest
    else
      none

/-- What follows the escape sequence that a text starts with. -/
def afterSequence? : List Char → Option (List Char)
  | first :: second :: rest =>
    if first = escape ∧ second = '[' then afterCodes? rest else none
  | _ => none

theorem length_lt_of_afterCodes? (found : afterCodes? text = some after) :
    after.length < text.length := by
  induction text with
  | nil => simp [afterCodes?] at found
  | cons char rest ih =>
    rw [afterCodes?] at found
    split at found
    · cases found
      simp
    · split at found
      · exact (ih found).trans (by simp)
      · cases found

/-- A sequence is not empty. -/
theorem length_lt_of_afterSequence? (found : afterSequence? text = some after) :
    after.length < text.length := by
  unfold afterSequence? at found
  split at found
  · split at found
    · have shorter := length_lt_of_afterCodes? found
      simp only [length_cons]
      omega
    · cases found
  · cases found

/-- A text without its escape sequences.  An escape character that starts none
stays. -/
def withoutSequences (text : List Char) : List Char :=
  match found : afterSequence? text with
  | some after =>
    have : after.length < text.length := length_lt_of_afterSequence? found
    withoutSequences after
  | none =>
    match text with
    | [] => []
    | character :: rest => character :: withoutSequences rest
termination_by text.length

/-- A leading sequence is deleted. -/
theorem withoutSequences_of_some (found : afterSequence? text = some after) :
    withoutSequences text = withoutSequences after := by
  rw [withoutSequences]
  split
  · next other foundOther =>
    rw [found] at foundOther
    cases foundOther
    rfl
  · next missing =>
    rw [found] at missing
    cases missing

/-- A character that cannot start a sequence stays. -/
theorem withoutSequences_cons_of_ne {char : Char} (plain : char ≠ escape) (rest : List Char) :
    withoutSequences (char :: rest) = char :: withoutSequences rest := by
  have missing : afterSequence? (char :: rest) = none := by
    unfold afterSequence?
    split <;> simp_all
  rw [withoutSequences]
  split
  · next after found =>
    rw [missing] at found
    cases found
  · rfl

/-- A text that holds no escape character. -/
def EscapeFree (text : String) : Prop :=
  escape ∉ text.toList

instance (text : String) : Decidable (EscapeFree text) :=
  inferInstanceAs (Decidable (escape ∉ text.toList))

/-- Deleting the escape sequences of the coloured text leaves the plain one,
whatever follows. -/
def Decorates (coloured plain : String) : Prop :=
  ∀ rest, withoutSequences (coloured.toList ++ rest) = plain.toList ++ withoutSequences rest

/-- Deletion leaves the plain text. -/
theorem Decorates.withoutSequences_eq (decorates : Decorates coloured plain) :
    String.ofList (withoutSequences coloured.toList) = plain := by
  have ends : withoutSequences [] = [] := by
    rw [withoutSequences]
    rfl
  have deleted := decorates []
  rw [ends, append_nil, append_nil] at deleted
  rw [deleted, String.ofList_toList]

/-- Decoration is kept by concatenation. -/
theorem Decorates.append {otherColoured otherPlain : String} (left : Decorates coloured plain)
    (right : Decorates otherColoured otherPlain) :
    Decorates (coloured ++ otherColoured) (plain ++ otherPlain) := by
  intro rest
  rw [String.toList_append, String.toList_append, append_assoc, left, right, append_assoc]

theorem withoutSequences_append (free : escape ∉ text) (rest : List Char) :
    withoutSequences (text ++ rest) = text ++ withoutSequences rest := by
  induction text with
  | nil => rfl
  | cons char following ih =>
    rw [mem_cons, not_or] at free
    rw [cons_append, withoutSequences_cons_of_ne (Ne.symm free.1), ih free.2, cons_append]

/-- A text without escape characters decorates itself. -/
theorem EscapeFree.decorates {text : String} (free : EscapeFree text) : Decorates text text :=
  withoutSequences_append free

theorem Decorates.append_text {text : String} (left : Decorates coloured plain)
    (free : EscapeFree text) :
    Decorates (coloured ++ text) (plain ++ text) :=
  left.append free.decorates

theorem Decorates.join {coloured plain : List String} (each : Forall₂ Decorates coloured plain) :
    Decorates (String.join coloured) (String.join plain) := by
  induction each with
  | nil => exact EscapeFree.decorates (by decide)
  | cons first _ ih =>
    rw [String.join_cons, String.join_cons]
    exact first.append ih

/-- Lines decorate lines. -/
theorem Decorates.join_lines {coloured plain : List String}
    (each : Forall₂ Decorates coloured plain) :
    Decorates (String.join (coloured.map fun line => line ++ "\n"))
      (String.join (plain.map fun line => line ++ "\n")) := by
  apply join
  rw [forall₂_map_left_iff, forall₂_map_right_iff]
  exact each.imp fun _ _ decorates => decorates.append_text (by decide)

theorem forall₂_decorates_map {Item : Type} {coloured plain : Item → String} {items : List Item}
    (each : ∀ item ∈ items, Decorates (coloured item) (plain item)) :
    Forall₂ Decorates (items.map coloured) (items.map plain) := by
  rw [forall₂_map_left_iff, forall₂_map_right_iff, forall₂_same]
  exact each

/-- Codes end at the first letter `m`. -/
theorem afterCodes?_append {codes : List Char} (areCodes : codes.all isCode)
    (rest : List Char) : afterCodes? (codes ++ 'm' :: rest) = some rest := by
  induction codes with
  | nil => rfl
  | cons code following ih =>
    rw [all_cons, Bool.and_eq_true] at areCodes
    have isNotLast : code ≠ 'm' := by
      rintro rfl
      exact absurd areCodes.1 (by decide)
    rw [cons_append, afterCodes?, if_neg isNotLast, if_pos areCodes.1, ih areCodes.2]

/-- An escape sequence decorates the empty text. -/
theorem decorates_sequence {codes : String} (areCodes : codes.toList.all isCode) :
    Decorates (escape.toString ++ "[" ++ codes ++ "m") "" := by
  intro rest
  -- The codes end at the first `m`, so whatever follows the sequence stays.
  have found : afterSequence? ((escape.toString ++ "[" ++ codes ++ "m").toList ++ rest) =
      some rest := by
    simp [afterSequence?, afterCodes?_append areCodes]
  rw [withoutSequences_of_some found]
  rfl

namespace Style

theorem decorates_opening (style : Style) : Decorates style.opening "" := by
  apply decorates_sequence
  rcases style with ⟨_ | _, _ | _, _ | _ | _⟩ <;> decide

theorem decorates_reset : Decorates reset "" := by
  have areCodes : "0".toList.all isCode := by decide
  exact decorates_sequence areCodes

/-- Where no style ends none is reopened. -/
theorem reopen_of_escapeFree {text : List Char} (opening : List Char)
    (free : escape ∉ text) : reopen opening text = text := by
  fun_induction reopen opening text with
  | case1 rest ih => simp [escape] at free
  | case2 char rest notReset ih =>
    rw [ih fun mem => free (mem_cons_of_mem _ mem)]
  | case3 => rfl

/-- A painted text decorates the text. -/
theorem decorates_paint (style : Style) {text : String} (free : EscapeFree text) :
    Decorates (style.paint true text) (style.paint false text) := by
  have reopened : String.ofList (reopen style.opening.toList text.toList) = text := by
    rw [reopen_of_escapeFree _ free, String.ofList_toList]
  have painted : Decorates (style.opening ++ text ++ reset) ("" ++ text ++ "") :=
    (style.decorates_opening.append free.decorates).append decorates_reset
  rw [String.empty_append, String.append_empty] at painted
  simpa [paint, reopened] using painted

end Style

/-! ## Texts without escape characters -/

theorem EscapeFree.append {left right : String} (leftFree : EscapeFree left)
    (rightFree : EscapeFree right) : EscapeFree (left ++ right) := by
  simp_all [EscapeFree]

theorem escapeFree_ofList (free : escape ∉ text) :
    EscapeFree (String.ofList text) := by
  rwa [EscapeFree, String.toList_ofList]

theorem notMem_repr {char : Char} (notDigit : ¬char.isDigit) (number : Nat) :
    char ∉ number.repr.toList := by
  rw [Nat.repr_eq_ofList_toDigits, String.toList_ofList]
  exact fun mem => notDigit (Nat.isDigit_of_mem_toDigits (by decide) (by decide) mem)

theorem notMem_pushn_blank {char : Char} (notBlank : char ≠ ' ') (count : Nat) :
    char ∉ ("".pushn ' ' count).toList := by
  rw [String.pushn_eq_repeat_push]
  induction count with
  | zero => exact not_mem_nil
  | succ count ih =>
    rw [Nat.repeat, String.toList_push, mem_append, mem_singleton, not_or]
    exact ⟨ih, notBlank⟩

theorem escapeFree_repr (number : Nat) : EscapeFree number.repr :=
  notMem_repr (by decide) number

theorem escapeFree_pushn_blank (count : Nat) : EscapeFree ("".pushn ' ' count) :=
  notMem_pushn_blank (by decide) count

theorem escapeFree_padLeft (width : Nat) {text : String} (free : EscapeFree text) :
    EscapeFree (padLeft width text) :=
  (escapeFree_pushn_blank _).append free

theorem dropBytes_subset (count : Nat) (text : List Char) : dropBytes count text ⊆ text := by
  fun_induction dropBytes count text with
  | case1 text => exact Subset.refl _
  | case2 => exact Subset.refl _
  | case3 count char rest ih =>
    exact Subset.trans ih (subset_cons_self _ _)

end Text

open Text

/-- A line holds no character that the text does not. -/
theorem LineMap.escapeFree_lineText {source : String} (free : EscapeFree source)
    (line : UInt32) : EscapeFree (((LineMap.ofText source).lineText line).getD "") := by
  have emptyFree : EscapeFree "" := by decide
  rw [lineText]
  split
  · exact emptyFree
  · cases (LineMap.ofText source).starts[line.toNat - 1]? with
    | none => exact emptyFree
    | some start =>
      apply escapeFree_ofList
      intro mem
      exact free (dropBytes_subset _ _ ((takeWhile_sublist _).subset mem))

namespace Snippet

/-- An underline is drawn without escape characters. -/
theorem escape_notMem_underline (marks : List Mark) : escape ∉ underline marks := by
  have blank : escape ∉ replicate (width marks) ' ' := by
    intro mem
    exact absurd (eq_of_mem_replicate mem) (by decide)
  refine foldlRecOn (motive := fun cells => escape ∉ cells) marks _ blank ?_
  intro cells free mark _ mem
  obtain ⟨index, inside, drawn⟩ := mem_mapIdx.1 mem
  split at drawn
  · rw [Mark.symbol] at drawn
    split at drawn <;> exact absurd drawn (by decide)
  · exact free (drawn ▸ getElem_mem inside)

theorem trimEnd_subset (cells : List Char) : trimEnd cells ⊆ cells := by
  intro cell mem
  exact mem_reverse.1 ((dropWhile_suffix _).subset (mem_reverse.1 mem))

end Snippet

/-- The texts that a diagnostic is made of. -/
def Diagnostic.texts (diagnostic : Diagnostic) : List String :=
  diagnostic.message :: diagnostic.code.toList ++ diagnostic.labels.filterMap Label.message ++
    diagnostic.notes ++ diagnostic.help.toList

/-- The texts that a row of a snippet is made of. -/
def SnippetRow.texts : SnippetRow → List String
  | .source _ text => [text]
  | .gap => []
  | .underline cells note => String.ofList cells :: (note.map Prod.snd).toList
  | .message _ _ text => [text]

namespace Snippet

/-- The rows below a line show the messages of its marks, and no escape character
besides. -/
theorem escapeFree_of_mem_rowsBelow {marks : List Mark} {row : SnippetRow}
    (free : ∀ mark ∈ marks, ∀ text, mark.message = some text → EscapeFree text)
    (mem : row ∈ rowsBelow marks) : ∀ text ∈ row.texts, EscapeFree text := by
  have cellsFree (drawn : List Mark) : EscapeFree (String.ofList (trimEnd (underline drawn))) :=
    escapeFree_ofList fun mem => escape_notMem_underline _ (trimEnd_subset _ mem)
  have notesFree : ∀ note ∈ (marks.mergeSort Mark.drawnBefore).filterMap Mark.note?,
      EscapeFree note.2.2 := by
    intro note noteMem
    obtain ⟨mark, markMem, hasNote⟩ := mem_filterMap.1 noteMem
    obtain ⟨text, hasMessage, rfl⟩ := Option.map_eq_some_iff.1 hasNote
    exact free mark (mem_mergeSort.1 markMem) text hasMessage
  rw [rowsBelow] at mem
  split at mem
  · rw [mem_singleton] at mem
    subst mem
    simpa [texts] using cellsFree _
  · next column role text notesEq =>
    rw [mem_singleton] at mem
    subst mem
    rw [notesEq] at notesFree
    simpa [texts] using ⟨cellsFree _, notesFree _ (mem_singleton_self _)⟩
  · rw [mem_cons, mem_map] at mem
    obtain rfl | ⟨note, noteMem, rfl⟩ := mem
    · simpa [texts] using cellsFree _
    · simpa [texts] using notesFree note (mem_reverse.1 noteMem)

/-- The rows show lines and messages, and no escape character besides. -/
theorem escapeFree_of_mem_rows {source : String} {marks : List Mark} {row : SnippetRow}
    (sourceFree : EscapeFree source)
    (free : ∀ mark ∈ marks, ∀ text, mark.message = some text → EscapeFree text)
    (mem : row ∈ rows (LineMap.ofText source) marks) :
    ∀ text ∈ row.texts, EscapeFree text := by
  rw [rows] at mem
  -- The gap before a line depends on the line before it, so that one is left open.
  generalize (none : Option Nat) = previous at mem
  generalize lines marks = shown at mem
  induction shown generalizing previous with
  | nil => cases mem
  | cons line rest ih =>
    simp only [rowsFrom, mem_append] at mem
    rcases mem with (inGap | ofLine) | ofRest
    · have isGap : row = .gap := by
        revert inGap
        cases previous <;> simp
      subst isGap
      simp [texts]
    · rw [rowsOf, mem_cons] at ofLine
      rcases ofLine with rfl | below
      · simpa [texts] using LineMap.escapeFree_lineText sourceFree _
      · apply escapeFree_of_mem_rowsBelow _ below
        intro mark markMem
        exact free mark (mem_filter.1 markMem).1
    · exact ih _ ofRest

end Snippet

/-! ## The layout of a diagnostic -/

namespace Layout

variable {diagnostic : Diagnostic} {source : String} {file : Option String}

theorem decorates_paint (style : Style) {text : String} (free : EscapeFree text) :
    Decorates ((ofSource source file true).paint style text)
      ((ofSource source file false).paint style text) :=
  style.decorates_paint free

/-- The first line. -/
theorem decorates_header (free : ∀ text ∈ diagnostic.texts, EscapeFree text) :
    Decorates ((ofSource source file true).header diagnostic)
      ((ofSource source file false).header diagnostic) := by
  have severity : EscapeFree diagnostic.severity.name := by
    cases diagnostic.severity <;> decide
  have message : EscapeFree diagnostic.message := free _ (by simp [Diagnostic.texts])
  unfold header
  cases hasCode : diagnostic.code with
  | none =>
    exact decorates_paint _ severity
      |>.append_text (by decide)
      |>.append (decorates_paint _ message)
  | some code =>
    have codeFree : EscapeFree code := free _ (by simp [Diagnostic.texts, hasCode])
    exact decorates_paint _ severity
      |>.append_text (by decide)
      |>.append (decorates_paint _ codeFree)
      |>.append_text (by decide)
      |>.append (decorates_paint _ message)

theorem decorates_bar (gutter : Nat) :
    Decorates ((ofSource source file true).bar gutter) ((ofSource source file false).bar gutter) :=
  (escapeFree_pushn_blank _).decorates
    |>.append_text (by decide)
    |>.append (decorates_paint _ (by decide))

/-- The line with the place in the file. -/
theorem decorates_arrow (fileFree : ∀ name ∈ file, EscapeFree name) (gutter : Nat) (span : Span) :
    Decorates ((ofSource source file true).arrow gutter span)
      ((ofSource source file false).arrow gutter span) := by
  have nameFree : EscapeFree (file.getD "<source>") := by
    cases file with
    | none => decide
    | some name => exact fileFree name rfl
  exact (escapeFree_pushn_blank _).decorates
    |>.append (decorates_paint _ (by decide))
    |>.append_text (by decide)
    |>.append_text nameFree
    |>.append_text (by decide)
    |>.append_text (escapeFree_repr _)
    |>.append_text (by decide)
    |>.append_text (escapeFree_repr _)

theorem decorates_run {cells : List Char} (free : escape ∉ cells) :
    Decorates ((ofSource source file true).run cells) ((ofSource source file false).run cells) := by
  have cellsFree : EscapeFree (String.ofList cells) := escapeFree_ofList free
  unfold run
  split
  · exact decorates_paint _ cellsFree
  · exact decorates_paint _ cellsFree
  · exact cellsFree.decorates

/-- An underline is painted run by run. -/
theorem decorates_underline {cells : List Char} (free : escape ∉ cells) :
    Decorates ((ofSource source file true).underline cells)
      ((ofSource source file false).underline cells) := by
  refine Decorates.join (forall₂_decorates_map ?_)
  intro run mem
  apply decorates_run
  intro escapeMem
  apply free
  rw [← flatten_splitBy (fun left right => left = right) cells]
  exact mem_flatten_of_mem mem escapeMem

/-- A row of the snippet. -/
theorem decorates_row {row : SnippetRow} (free : ∀ text ∈ row.texts, EscapeFree text)
    (gutter : Nat) :
    Decorates ((ofSource source file true).row gutter row)
      ((ofSource source file false).row gutter row) := by
  cases row with
  | source line text =>
    exact decorates_paint _ (escapeFree_padLeft _ (escapeFree_repr _))
      |>.append_text (by decide)
      |>.append (decorates_paint _ (by decide))
      |>.append_text (by decide)
      |>.append_text (free text (by simp [texts]))
  | gap =>
    exact (escapeFree_pushn_blank _).decorates
      |>.append_text (by decide)
      |>.append (decorates_paint _ (by decide))
  | underline cells note =>
    have cellsFree : escape ∉ cells := by
      simpa [EscapeFree] using free (String.ofList cells) (by simp [texts])
    cases note with
    | none =>
      exact decorates_bar gutter
        |>.append_text (by decide)
        |>.append (decorates_underline cellsFree)
    | some note =>
      exact decorates_bar gutter
        |>.append_text (by decide)
        |>.append (decorates_underline cellsFree)
        |>.append_text (by decide)
        |>.append (decorates_paint _ (free note.2 (by simp [texts])))
  | message column role text =>
    exact decorates_bar gutter
      |>.append_text (by decide)
      |>.append_text (escapeFree_pushn_blank _)
      |>.append (decorates_paint _ (by decide))
      |>.append_text (by decide)
      |>.append (decorates_paint _ (free text (by simp [texts])))

theorem decorates_footerRow (gutter : Nat) {word text : String} (wordFree : EscapeFree word)
    (textFree : EscapeFree text) :
    Decorates ((ofSource source file true).footerRow gutter word text)
      ((ofSource source file false).footerRow gutter word text) :=
  (escapeFree_pushn_blank _).decorates
    |>.append_text (by decide)
    |>.append (decorates_paint _ (by decide))
    |>.append_text (by decide)
    |>.append (decorates_paint _ wordFree)
    |>.append_text (by decide)
    |>.append_text textFree

/-- The notes and the help. -/
theorem forall₂_decorates_footer (free : ∀ text ∈ diagnostic.texts, EscapeFree text)
    (gutter : Nat) :
    Forall₂ Decorates ((ofSource source file true).footer gutter diagnostic)
      ((ofSource source file false).footer gutter diagnostic) := by
  have notes : Forall₂ Decorates
      (diagnostic.notes.map ((ofSource source file true).footerRow gutter "note"))
      (diagnostic.notes.map ((ofSource source file false).footerRow gutter "note")) := by
    apply forall₂_decorates_map
    intro note mem
    exact decorates_footerRow gutter (by decide) (free note (by simp [Diagnostic.texts, mem]))
  refine rel_append notes ?_
  cases hasHelp : diagnostic.help with
  | none => exact .nil
  | some help =>
    exact .cons (decorates_footerRow gutter (by decide)
      (free help (by simp [Diagnostic.texts, hasHelp]))) .nil

/-- The rows of the snippet. -/
theorem forall₂_decorates_snippet {marks : List Mark} (sourceFree : EscapeFree source)
    (fileFree : ∀ name ∈ file, EscapeFree name)
    (marksFree : ∀ mark ∈ marks, ∀ text, mark.message = some text → EscapeFree text)
    (gutter : Nat) :
    Forall₂ Decorates ((ofSource source file true).snippet gutter diagnostic marks)
      ((ofSource source file false).snippet gutter diagnostic marks) := by
  unfold snippet
  cases diagnostic.primarySpan? with
  | none => exact .nil
  | some span =>
    refine .cons (decorates_arrow fileFree gutter span) (.cons (decorates_bar gutter) ?_)
    apply forall₂_decorates_map
    intro row mem
    exact decorates_row (Snippet.escapeFree_of_mem_rows sourceFree marksFree mem) gutter

/-- All lines of a diagnostic. -/
theorem forall₂_decorates_lines {marks : List Mark} (sourceFree : EscapeFree source)
    (fileFree : ∀ name ∈ file, EscapeFree name) (free : ∀ text ∈ diagnostic.texts, EscapeFree text)
    (marksFree : ∀ mark ∈ marks, ∀ text, mark.message = some text → EscapeFree text) :
    Forall₂ Decorates ((ofSource source file true).lines diagnostic marks)
      ((ofSource source file false).lines diagnostic marks) :=
  .cons (decorates_header free) (rel_append
    (forall₂_decorates_snippet sourceFree fileFree marksFree _) (forall₂_decorates_footer free _))

/-- If no text of a diagnostic holds an escape character, and neither the source
text nor the name of its file does, then deleting the escape sequences from the
diagnostic in colour leaves exactly the diagnostic without colours.  Where a label
cannot be drawn, both forms fail at it. -/
theorem format_withoutSequences {source : String} {file : Option String} {diagnostic : Diagnostic}
    (free : ∀ text ∈ source :: file.toList ++ diagnostic.texts, EscapeFree text) :
    ((ofSource source file true).format diagnostic).map
        (fun text => String.ofList (withoutSequences text.toList)) =
      (ofSource source file false).format diagnostic := by
  have sourceFree : EscapeFree source := free source (by simp)
  have fileFree : ∀ name ∈ file, EscapeFree name := by
    intro name isName
    exact free name (by simp [Option.mem_def.1 isName])
  have textsFree : ∀ text ∈ diagnostic.texts, EscapeFree text := by
    intro text member
    exact free text (by simp [member])
  have marksFree : ∀ mark ∈ diagnostic.labels.map (Mark.ofLabel (LineMap.ofText source)),
      ∀ text, mark.message = some text → EscapeFree text := by
    intro mark member text hasMessage
    obtain ⟨label, labelMember, rfl⟩ := mem_map.1 member
    have shown : text ∈ diagnostic.labels.filterMap Label.message :=
      mem_filterMap.2 ⟨label, labelMember, hasMessage⟩
    exact textsFree text (by simp [Diagnostic.texts, shown])
  have lines := forall₂_decorates_lines sourceFree fileFree textsFree marksFree
  have sameLabel : (ofSource source file true).wrappedLabel? diagnostic =
      (ofSource source file false).wrappedLabel? diagnostic := rfl
  unfold format
  rw [sameLabel]
  cases (ofSource source file false).wrappedLabel? diagnostic with
  | some label => rfl
  | none => exact congrArg Except.ok (Decorates.join_lines lines).withoutSequences_eq

/-- An error with two labels on one line, one on a later line, a note and help. -/
def mismatch : Diagnostic where
  code := some "E1"
  message := "type mismatch"
  labels := [Label.primary ⟨0, 1⟩ "here", Label.secondary ⟨4, 5⟩ "there",
    { span := ⟨10, 12⟩, role := .secondary }]
  notes := ["seen"]
  help := some "fix"

theorem format_mismatch_withoutSequences :
    (∀ text ∈ "a + b\n\n\nc d" :: (some "f").toList ++ mismatch.texts, EscapeFree text) ∧
      ∃ coloured plain,
        (ofSource "a + b\n\n\nc d" (some "f") true).format mismatch = .ok coloured ∧
          (ofSource "a + b\n\n\nc d" (some "f") false).format mismatch = .ok plain ∧
          escape ∈ coloured.toList ∧
          String.ofList (withoutSequences coloured.toList) = plain := by
  have free : ∀ text ∈ "a + b\n\n\nc d" :: (some "f").toList ++ mismatch.texts,
      EscapeFree text := by
    decide
  have drawable (coloured : Bool) :
      (ofSource "a + b\n\n\nc d" (some "f") coloured).wrappedLabel? mismatch = none := by
    cases coloured <;> decide
  have written : escape ∈
      ((ofSource "a + b\n\n\nc d" (some "f") true).header mismatch).toList := by
    decide
  have deleted := format_withoutSequences free
  unfold format at deleted ⊢
  rw [drawable, drawable] at deleted ⊢
  refine ⟨free, _, _, rfl, rfl, ?_, Except.ok.inj deleted⟩
  simp [lines, String.join_cons, written]

end Layout
end PipeCheck
