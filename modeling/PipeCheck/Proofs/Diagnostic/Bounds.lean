import Mathlib.Data.Nat.PSub
import PipeCheck.Proofs.Diagnostic.Lines
import PipeCheck.Proofs.Diagnostic.Snippets

/-!
# Nothing but a wrapped column stops the layout

Positions are looked up by index, labels are drawn into slices of the cells, and columns
are turned into indices by subtraction.  Each of these steps could leave its bounds.  The
layout in which every such step is optional gives the same texts, and it gives none only
for labels whose start column wraps to zero.

One step depends on how the program is built: the column of an offset is a sum in 64 bits,
which wraps where overflow is not checked and stops the program where it is.  `Overflow`
says which of the two is meant.  A build that checks also stops at a label whose end is the
last offset of all on the first line.  The other sums are of columns in 32 bits, line numbers
and lengths of texts, and stay below the size of a word in every build.
-/

namespace PipeCheck

open List Option LineMap Mark Snippet

theorem mapM_eq_some_map {α β : Type} {items : List α} {step : α → Option β} {result : α → β}
    (steps : ∀ item ∈ items, step item = some (result item)) :
    items.mapM step = some (items.map result) := by
  induction items with
  | nil => rfl
  | cons item items ih =>
    rw [forall_mem_cons] at steps
    rw [mapM_cons, steps.1, ih steps.2]
    rfl

theorem mapM_eq_none {α β : Type} {items : List α} {step : α → Option β} {item : α}
    (mem : item ∈ items) (fails : step item = none) :
    items.mapM step = none := by
  induction items with
  | nil => cases mem
  | cons first items ih =>
    rw [mapM_cons]
    rcases mem_cons.1 mem with rfl | later
    · rw [fails]
      rfl
    · rw [ih later]
      cases step first <;> rfl

/-- What happens to a sum that does not fit into 64 bits. -/
inductive Overflow where
  /-- It is reduced to 64 bits, as in a build without overflow checks. -/
  | wraps
  /-- It stops the program, as in a build with them. -/
  | stops
deriving DecidableEq

/-- The next number in 64 bits. -/
def Overflow.succ? (overflow : Overflow) (number : Nat) : Option UInt64 :=
  if overflow = .stops ∧ UInt64.size ≤ number + 1 then none else some (number + 1).toUInt64

namespace LineMap

/-- The column of an offset, counted from one within its line and not yet reduced. -/
def columnIn (source : String) (offset : Nat) : Nat :=
  offset - Text.lineStart source (Text.breaksBefore source offset) + 1

/-- The position of an offset, whose line must be there and start no later. -/
def position? (overflow : Overflow) (map : LineMap) (offset : Nat) : Option Position := do
  let index ← (map.lineAt offset).psub 1
  let start ← map.starts[index]?
  let distance ← offset.psub start
  let column ← overflow.succ? distance
  return { line := (map.lineAt offset).toUInt32, column := column.toUInt32 }

/-- Reducing a sum to 64 bits before 32 makes no difference. -/
theorem position?_eq (overflow : Overflow) (source : String) (offset : Nat) :
    (ofText source).position? overflow offset =
      if overflow = .stops ∧ UInt64.size ≤ columnIn source offset then none
      else some ((ofText source).position offset) := by
  have line : ((ofText source).lineAt offset).psub 1 = some (Text.breaksBefore source offset) :=
    Nat.psub_eq_some.2 (lineAt_eq source offset).symm
  have distance : offset.psub (Text.lineStart source (Text.breaksBefore source offset)) = some _ :=
    Nat.psub_eq_sub (lineStart_le source offset)
  rw [columnIn]
  simp only [position?, line, starts_breaksBefore, distance, Overflow.succ?, bind_eq_bind,
    bind_some]
  split
  · rfl
  · rw [position, startOf_lineAt]
    exact congrArg (fun column => some (Position.mk _ column)) (UInt64.toUInt32_ofNat' _)

end LineMap

/-- The start or the end of a label lies in a column that does not fit into 64 bits. -/
def Label.Overflows (source : String) (label : Label) : Prop :=
  UInt64.size ≤ columnIn source label.span.start.toNat ∨
    UInt64.size ≤ columnIn source label.span.stop.toNat

instance (source : String) (label : Label) : Decidable (label.Overflows source) :=
  inferInstanceAs (Decidable (_ ∨ _))

namespace Mark

/-- The place of a label whose positions must be found. -/
def ofLabel? (overflow : Overflow) (map : LineMap) (label : Label) : Option Mark := do
  let start ← map.position? overflow label.span.start.toNat
  let stop ← map.position? overflow label.span.stop.toNat
  let stopColumn :=
    if stop.line = start.line then stop.column.toNat
    else ((map.lineText start.line).getD "").utf8ByteSize + 1
  return {
    line := start.line.toNat
    first := start.column.toNat
    stop := max stopColumn (start.column.toNat + 1)
    role := label.role
    message := label.message }

/-- Draws a mark into the slice of the cells from its first column up to its end. -/
def draw? (mark : Mark) (cells : List Char) : Option (List Char) := do
  let first ← mark.first.psub 1
  let stop ← mark.stop.psub 1
  if first ≤ stop ∧ stop ≤ cells.length then
    return cells.mapIdx fun index cell =>
      if cell = ' ' ∧ first ≤ index ∧ index < stop then mark.symbol else cell
  else
    none

theorem ofLabel?_eq (overflow : Overflow) (source : String) (label : Label) :
    ofLabel? overflow (ofText source) label =
      if overflow = .stops ∧ label.Overflows source then none
      else some (ofLabel (ofText source) label) := by
  rw [ofLabel?, position?_eq, position?_eq]
  by_cases stopped : overflow = .stops ∧ label.Overflows source
  · rw [if_pos stopped]
    obtain ⟨rfl, start | stop⟩ := stopped
    · rw [if_pos ⟨rfl, start⟩]
      rfl
    · rw [if_pos (c := _ ∧ _ ≤ columnIn source label.span.stop.toNat) ⟨rfl, stop⟩]
      split <;> rfl
  · rw [if_neg stopped, if_neg fun start => stopped ⟨start.1, .inl start.2⟩,
      if_neg fun stop => stopped ⟨stop.1, .inr stop.2⟩]
    rfl

theorem first_lt_stop (map : LineMap) (label : Label) :
    (ofLabel map label).first < (ofLabel map label).stop :=
  Nat.le_max_right _ _

/-- The first column is that of the start, counted from one, in 32 bits. -/
theorem first_ofLabel (source : String) (label : Label) :
    (ofLabel (ofText source) label).first =
      columnIn source label.span.start.toNat % UInt32.size := by
  rw [columnIn, ← startOf_lineAt]
  rfl

/-- A start column that does not fit into 64 bits is zero in 32 bits. -/
theorem first_eq_zero_of_size_le {source : String} {label : Label}
    (overflows : UInt64.size ≤ columnIn source label.span.start.toNat) :
    (ofLabel (ofText source) label).first = 0 := by
  have inWord := label.span.start.toNat_lt_size
  have columnEq : columnIn source label.span.start.toNat = UInt64.size := by
    unfold columnIn at overflows ⊢
    omega
  rw [first_ofLabel, columnEq]
  rfl

theorem draw?_eq {mark : Mark} {cells : List Char} (drawable : mark.first ≠ 0)
    (covers : mark.first < mark.stop) (fits : mark.stop ≤ cells.length) :
    mark.draw? cells = some (mark.draw cells) := by
  simp only [draw?, Nat.psub_eq_sub (show 1 ≤ mark.first by omega),
    Nat.psub_eq_sub (show 1 ≤ mark.stop by omega), bind_eq_bind, bind_some]
  rw [if_pos (by omega), draw]
  refine congrArg (fun change => some (cells.mapIdx change)) ?_
  funext index cell
  refine if_congr ?_ rfl rfl
  rw [Mark.covers, Bool.and_eq_true, Bool.and_eq_true, decide_eq_true_iff, decide_eq_true_iff,
    decide_eq_true_iff]
  exact and_congr_right fun _ => by omega

theorem draw?_eq_none {mark : Mark} (wrapped : mark.first = 0) (cells : List Char) :
    mark.draw? cells = none := by
  rw [draw?, wrapped]
  rfl

end Mark

namespace Snippet

variable {marks : List Mark} {mark : Mark}

/-- The underline of marks, each of them drawn into a slice. -/
def underline? (marks : List Mark) : Option (List Char) :=
  marks.foldlM (fun cells mark => mark.draw? cells) (replicate (width marks) ' ')

/-- The rows below a line with an underline. -/
def annotations (cells : List Char) (notes : List (Nat × Role × String)) : List SnippetRow :=
  match notes with
  | [] => [.underline cells none]
  | [(_, role, text)] => [.underline cells (some (role, text))]
  | many =>
    .underline cells none ::
      many.reverse.map fun (column, role, text) => .message column role text

/-- The rows below a line, if its labels can be drawn. -/
def rowsBelow? (marks : List Mark) : Option (List SnippetRow) :=
  let drawn := marks.mergeSort drawnBefore
  (underline? drawn).map fun cells => annotations (trimEnd cells) (drawn.filterMap note?)

/-- The rows of several lines, if all their labels can be drawn. -/
def rowsFrom? (map : LineMap) (marks : List Mark) : (previous : Option Nat) → List Nat →
    Option (List SnippetRow)
  | _, [] => some []
  | previous, line :: rest => do
    let below ← rowsBelow? (marks.filter fun mark => mark.line = line)
    let others ← rowsFrom? map marks (some line) rest
    return gapBefore previous line ++
      .source line ((map.lineText line.toUInt32).getD "") :: (below ++ others)

/-- Each mark can be drawn somewhere. -/
def Drawable (marks : List Mark) : Prop :=
  ∀ mark ∈ marks, mark.first ≠ 0 ∧ mark.first < mark.stop

theorem underline?_eq (drawable : Drawable marks) : underline? marks = some (underline marks) := by
  have drawn : ∀ (others : List Mark) (cells : List Char), others ⊆ marks →
      cells.length = width marks → others.foldlM (fun cells mark => mark.draw? cells) cells =
        some (others.foldl (fun cells mark => mark.draw cells) cells) := by
    intro others
    induction others with
    | nil => exact fun cells _ _ => rfl
    | cons mark others ih =>
      intro cells among sameLength
      rw [cons_subset] at among
      obtain ⟨notZero, covers⟩ := drawable mark among.1
      rw [foldlM_cons, draw?_eq notZero covers (sameLength ▸ stop_le_width among.1)]
      exact ih _ among.2 (length_mapIdx.trans sameLength)
  exact drawn marks _ (Subset.refl _) length_replicate

theorem underline?_eq_none (mem : mark ∈ marks) (wrapped : mark.first = 0) :
    underline? marks = none := by
  rw [underline?]
  generalize replicate (width marks) ' ' = cells
  induction marks generalizing cells with
  | nil => cases mem
  | cons other marks ih =>
    rw [foldlM_cons]
    rcases mem_cons.1 mem with rfl | later
    · rw [draw?_eq_none wrapped]
      rfl
    · cases other.draw? cells with
      | none => rfl
      | some drawn => exact ih later drawn

theorem rowsBelow?_eq (drawable : Drawable marks) : rowsBelow? marks = some (rowsBelow marks) := by
  rw [rowsBelow?, underline?_eq fun mark mem => drawable mark (mem_mergeSort.1 mem)]
  rfl

theorem rowsFrom?_eq (map : LineMap) (drawable : Drawable marks) (previous : Option Nat)
    (lines : List Nat) :
    rowsFrom? map marks previous lines = some (rowsFrom map marks previous lines) := by
  induction lines generalizing previous with
  | nil => rfl
  | cons line rest ih =>
    rw [rowsFrom?, ih, rowsFrom_cons,
      rowsBelow?_eq fun mark mem => drawable mark (mem_filter.1 mem).1]
    rfl

theorem rowsFrom?_eq_none (map : LineMap) (mem : mark ∈ marks) (wrapped : mark.first = 0)
    {lines : List Nat} (shown : mark.line ∈ lines) (previous : Option Nat) :
    rowsFrom? map marks previous lines = none := by
  induction lines generalizing previous with
  | nil => cases shown
  | cons line rest ih =>
    rw [rowsFrom?]
    rcases mem_cons.1 shown with rfl | later
    · have here : mark ∈ (marks.filter fun other => other.line = mark.line).mergeSort
          drawnBefore := by
        simpa using mem
      rw [rowsBelow?, underline?_eq_none here wrapped]
      rfl
    · rw [ih later]
      cases rowsBelow? (marks.filter fun mark => mark.line = line) <;> rfl

theorem exists_first_of_message_mem_rowsBelow {column : Nat} {role : Role} {text : String}
    (shown : .message column role text ∈ rowsBelow marks) :
    ∃ mark ∈ marks, mark.first = column := by
  have noteOf : ∀ note ∈ (marks.mergeSort drawnBefore).filterMap note?,
      ∃ mark ∈ marks, mark.first = note.1 := by
    intro note mem
    obtain ⟨mark, drawn, noteEq⟩ := mem_filterMap.1 mem
    obtain ⟨_, _, rfl⟩ := map_eq_some_iff.1 noteEq
    exact ⟨mark, mem_mergeSort.1 drawn, rfl⟩
  unfold rowsBelow at shown
  dsimp only at shown
  generalize (marks.mergeSort drawnBefore).filterMap note? = notes at shown noteOf
  rcases notes with _ | ⟨⟨_, _, _⟩, _ | ⟨second, rest⟩⟩
  · cases mem_singleton.1 shown
  · cases mem_singleton.1 shown
  · rcases mem_cons.1 shown with isUnderline | isMessage
    · cases isUnderline
    · obtain ⟨note, mem, noteEq⟩ := mem_map.1 isMessage
      cases noteEq
      exact noteOf note (mem_reverse.1 mem)

/-- The message of a label stands below the column where the label starts. -/
theorem exists_first_of_message_mem {map : LineMap} {previous : Option Nat} {lines : List Nat}
    {column : Nat} {role : Role} {text : String}
    (shown : .message column role text ∈ rowsFrom map marks previous lines) :
    ∃ mark ∈ marks, mark.first = column := by
  induction lines generalizing previous with
  | nil => cases shown
  | cons line rest ih =>
    rw [rowsFrom_cons, mem_append, mem_cons, mem_append] at shown
    rcases shown with inGap | isSource | below | later
    · cases previous with
      | none => cases inGap
      | some earlier =>
        rw [gapBefore] at inGap
        split at inGap
        · cases mem_singleton.1 inGap
        · cases inGap
    · cases isSource
    · obtain ⟨mark, mem, firstEq⟩ := exists_first_of_message_mem_rowsBelow below
      exact ⟨mark, (mem_filter.1 mem).1, firstEq⟩
    · exact ih later

end Snippet

namespace Layout

/-- One row of a snippet, whose column must be one. -/
def row? (layout : Layout) (gutter : Nat) : SnippetRow → Option String
  | .message column role text => do
    let indent ← column.psub 1
    return layout.bar gutter ++ " " ++ blanks indent ++ layout.paint (roleStyle role) "|" ++ " " ++
      layout.paint (roleStyle role) text
  | row => some (layout.row gutter row)

/-- The place of the problem and the snippet, if every step stays in its bounds. -/
def snippet? (overflow : Overflow) (layout : Layout) (gutter : Nat) (diagnostic : Diagnostic)
    (marks : List Mark) : Option (List String) :=
  match diagnostic.primarySpan? with
  | none => some []
  | some span => do
    let _ ← layout.map.position? overflow span.start.toNat
    let rows ← Snippet.rowsFrom? layout.map marks none (Snippet.lines marks)
    let texts ← rows.mapM (layout.row? gutter)
    return layout.arrow gutter span :: layout.bar gutter :: texts

/-- The text of a diagnostic, if every step stays in its bounds. -/
def format? (overflow : Overflow) (layout : Layout) (diagnostic : Diagnostic) :
    Option String := do
  let marks ← diagnostic.labels.mapM (ofLabel? overflow layout.map)
  let gutter := gutterWidth marks
  let snippet ← layout.snippet? overflow gutter diagnostic marks
  return String.join ((layout.header diagnostic :: snippet ++
    layout.footer gutter diagnostic).map (· ++ "\n"))

theorem row?_eq (layout : Layout) (gutter : Nat) {row : SnippetRow}
    (below : ∀ column role text, row = .message column role text → column ≠ 0) :
    layout.row? gutter row = some (layout.row gutter row) := by
  cases row with
  | message column role text =>
    rw [row?, Nat.psub_eq_sub (Nat.pos_of_ne_zero (below column role text rfl))]
    rfl
  | _ => rfl

section Bounds

variable (overflow : Overflow) (source : String) (file : Option String) (coloured : Bool)
  (diagnostic : Diagnostic)

/-- Where every label can be drawn, all steps stay in their bounds. -/
theorem snippet?_eq {marks : List Mark} (drawable : Drawable marks) (gutter : Nat)
    (fits : ∀ span, diagnostic.primarySpan? = some span →
      ¬(overflow = .stops ∧ UInt64.size ≤ columnIn source span.start.toNat)) :
    let layout := ofSource source file coloured
    layout.snippet? overflow gutter diagnostic marks =
      some (layout.snippet gutter diagnostic marks) := by
  intro layout
  have texts : (rows layout.map marks).mapM (layout.row? gutter) =
      some ((rows layout.map marks).map (layout.row gutter)) := by
    refine mapM_eq_some_map fun row shown => layout.row?_eq gutter ?_
    rintro column role text rfl
    obtain ⟨mark, mem, rfl⟩ := exists_first_of_message_mem shown
    exact (drawable mark mem).1
  rw [rows] at texts
  rw [snippet?, snippet]
  cases spanEq : diagnostic.primarySpan? with
  | none => rfl
  | some span =>
    have posEq : layout.map.position? overflow span.start.toNat = some _ :=
      (position?_eq overflow source _).trans (if_neg (fits span spanEq))
    simp only [posEq, rowsFrom?_eq layout.map drawable, texts, bind_eq_bind, bind_some]
    rfl

theorem snippet?_eq_none (layout : Layout) {label : Label} (mem : label ∈ diagnostic.labels)
    (wrapped : (ofLabel layout.map label).first = 0) (gutter : Nat) :
    layout.snippet? overflow gutter diagnostic
      (diagnostic.labels.map (ofLabel layout.map)) = none := by
  obtain ⟨span, spanEq⟩ := diagnostic.exists_primarySpan?_eq (ne_nil_of_mem mem)
  have outside := rowsFrom?_eq_none layout.map
    (mem_map_of_mem (f := ofLabel layout.map) mem) wrapped
    ((mem_lines layout.map diagnostic.labels _).2 ⟨label, mem, rfl⟩) none
  simp only [snippet?, spanEq, outside]
  cases layout.map.position? overflow span.start.toNat <;> rfl

/-- A label whose column overflows stops a build that checks.  In all other cases the
layout has a text unless a start column wraps to zero. -/
theorem format?_eq :
    let layout := ofSource source file coloured
    layout.format? overflow diagnostic =
      if overflow = .stops ∧ ∃ label ∈ diagnostic.labels, label.Overflows source then none
      else (layout.format diagnostic).toOption := by
  intro layout
  split
  · next stopped =>
      obtain ⟨stops, label, mem, overflows⟩ := stopped
      have fails := (ofLabel?_eq overflow source label).trans (if_pos ⟨stops, overflows⟩)
      have noMarks : diagnostic.labels.mapM (ofLabel? overflow layout.map) = none :=
        mapM_eq_none mem fails
      rw [format?, noMarks]
      rfl
  next runs =>
    have fits : ∀ label ∈ diagnostic.labels, ¬(overflow = .stops ∧ label.Overflows source) :=
      fun label mem stopped => runs ⟨stopped.1, label, mem, stopped.2⟩
    have marksEq : diagnostic.labels.mapM (ofLabel? overflow layout.map) =
        some (diagnostic.labels.map (ofLabel layout.map)) :=
      mapM_eq_some_map fun label mem =>
        (ofLabel?_eq overflow source label).trans (if_neg (fits label mem))
    rw [format?, marksEq, format]
    cases found : layout.wrappedLabel? diagnostic with
    | none =>
      have drawable : Drawable (diagnostic.labels.map (ofLabel layout.map)) := by
        refine forall_mem_map.2 fun label mem => ⟨?_, first_lt_stop _ _⟩
        simpa using find?_eq_none.1 found label mem
      simp only [bind_eq_bind, bind_some]
      rw [snippet?_eq overflow source file coloured diagnostic drawable]
      · rfl
      · intro span spanEq
        obtain ⟨label, mem, rfl⟩ := diagnostic.exists_label_of_primarySpan? spanEq
        exact fun stopped => fits label mem ⟨stopped.1, .inl stopped.2⟩
    | some label =>
      have mem := mem_of_find?_eq_some found
      have wrapped : (ofLabel layout.map label).first = 0 := by
        simpa using find?_some found
      simp only [bind_eq_bind, bind_some]
      rw [snippet?_eq_none overflow diagnostic layout mem wrapped]
      rfl

theorem format_toOption_eq_none_iff :
    let layout := ofSource source file coloured
    (layout.format diagnostic).toOption = none ↔
      ∃ label ∈ diagnostic.labels, (ofLabel layout.map label).first = 0 := by
  intro layout
  rw [format]
  cases found : layout.wrappedLabel? diagnostic with
  | none =>
    refine iff_of_false (Option.some_ne_none _) ?_
    rintro ⟨label, mem, wrapped⟩
    exact find?_eq_none.1 found label mem (decide_eq_true wrapped)
  | some label =>
    exact iff_of_true rfl ⟨label, mem_of_find?_eq_some found, by
      simpa using find?_some found⟩

end Bounds

/-- A label from the first offset to the last one of all. -/
def longest : Diagnostic where
  severity := .error
  message := ""
  labels := [{ span := { start := 0, stop := 18446744073709551615 }, role := .primary }]

end Layout
end PipeCheck
