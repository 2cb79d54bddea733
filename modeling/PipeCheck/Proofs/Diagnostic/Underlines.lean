import Mathlib.Data.List.Basic
import PipeCheck.Diagnostic.Layout

/-!
# Underlines

The labels of a line are drawn into one row of cells, primary labels first, and a cell
that is drawn stays.  So each column shows the strongest label that covers it, in
whatever order the labels are given.
-/

namespace PipeCheck

open List Mark Snippet

namespace Label

/-- The line that a label starts on. -/
def startLine (map : LineMap) (label : Label) : Nat :=
  (map.position label.span.start.toNat).line.toNat

/-- The column that a label starts at. -/
def startColumn (map : LineMap) (label : Label) : Nat :=
  (map.position label.span.start.toNat).column.toNat

/-- A label covers its first column and the later ones before its end.  If it ends on
another line, it covers the later columns up to the last byte of its first line. -/
def Covers (map : LineMap) (label : Label) (column : Nat) : Prop :=
  let start := map.position label.span.start.toNat
  let stop := map.position label.span.stop.toNat
  column = start.column.toNat ∨
    start.column.toNat < column ∧
      if stop.line = start.line then column < stop.column.toNat
      else column ≤ ((map.lineText start.line).getD "").utf8ByteSize

instance (map : LineMap) (label : Label) (column : Nat) : Decidable (label.Covers map column) :=
  inferInstanceAs (Decidable (_ ∨ _ ∧ ite _ _ _))

/-- The character of the strongest of several labels at a column. -/
def strongestAt (map : LineMap) (labels : List Label) (column : Nat) : Char :=
  if ∃ label ∈ labels, label.role = .primary ∧ label.Covers map column then '^'
  else if ∃ label ∈ labels, label.role = .secondary ∧ label.Covers map column then '-'
  else ' '

end Label

namespace Mark

theorem covers_ofLabel (map : LineMap) (label : Label) (column : Nat) :
    (ofLabel map label).covers column ↔ label.Covers map column := by
  rw [covers, Bool.and_eq_true, decide_eq_true_iff, decide_eq_true_iff, Label.Covers]
  simp only [ofLabel]
  split <;> omega

theorem symbol_ne_blank (mark : Mark) : mark.symbol ≠ ' ' := by
  rw [symbol]
  cases mark.role <;> decide

theorem drawnBefore_iff (left right : Mark) :
    left.drawnBefore right ↔
      left.role = .primary ∧ right.role = .secondary ∨
        left.role = right.role ∧ left.first ≤ right.first := by
  obtain ⟨_, leftFirst, _, leftRole, _⟩ := left
  obtain ⟨_, rightFirst, _, rightRole, _⟩ := right
  cases leftRole <;> cases rightRole <;> simp [drawnBefore]

theorem drawnBefore_trans (first second third : Mark) (before : first.drawnBefore second)
    (after : second.drawnBefore third) :
    first.drawnBefore third := by
  rw [drawnBefore_iff] at *
  rcases before with ⟨isPrimary, isSecondary⟩ | ⟨sameRole, notLater⟩
  · rcases after with ⟨again, _⟩ | ⟨sameRole, _⟩
    · rw [isSecondary] at again
      cases again
    · exact .inl ⟨isPrimary, sameRole ▸ isSecondary⟩
  · rcases after with ⟨isPrimary, isSecondary⟩ | ⟨sameAgain, stillNotLater⟩
    · exact .inl ⟨sameRole ▸ isPrimary, isSecondary⟩
    · exact .inr ⟨sameRole.trans sameAgain, Nat.le_trans notLater stillNotLater⟩

theorem drawnBefore_total (left right : Mark) :
    left.drawnBefore right || right.drawnBefore left := by
  rw [Bool.or_eq_true, drawnBefore_iff, drawnBefore_iff]
  have inOrder := Nat.le_total left.first right.first
  cases leftRole : left.role <;> cases rightRole : right.role <;> simp [inOrder]

theorem getElem?_draw (mark : Mark) (cells : List Char) (index : Nat) :
    (mark.draw cells)[index]? = (cells[index]?).map fun cell =>
      if cell = ' ' && mark.covers (index + 1) then mark.symbol else cell := by
  rw [draw, getElem?_mapIdx]

end Mark

namespace Snippet

/-- A blank cell gets the character of the first mark that covers it. -/
theorem getElem?_foldl_draw (marks : List Mark) (cells : List Char) (index : Nat) :
    (marks.foldl (fun cells mark => mark.draw cells) cells)[index]? =
      (cells[index]?).map fun cell =>
        if cell = ' ' then
          ((marks.find? fun mark => mark.covers (index + 1)).map symbol).getD ' '
        else cell := by
  induction marks generalizing cells with
  | nil =>
    rw [foldl_nil]
    cases cells[index]? with
    | none => rfl
    | some cell => by_cases blank : cell = ' ' <;> simp [blank]
  | cons mark marks ih =>
    rw [foldl_cons, ih, mark.getElem?_draw, Option.map_map]
    congr 1
    funext cell
    have drawn := mark.symbol_ne_blank
    by_cases blank : cell = ' ' <;> by_cases covered : mark.covers (index + 1) <;>
      simp [blank, covered, drawn]

/-- The character of the strongest of several marks at a column. -/
def strongest (marks : List Mark) (column : Nat) : Char :=
  if ∃ mark ∈ marks, mark.role = .primary ∧ mark.covers column then '^'
  else if ∃ mark ∈ marks, mark.role = .secondary ∧ mark.covers column then '-'
  else ' '

/-- Where primary marks come first, the first mark that covers a column is the
strongest one. -/
theorem symbol_find?_eq_strongest {marks : List Mark}
    (sorted : marks.Pairwise fun left right => left.drawnBefore right) (column : Nat) :
    ((marks.find? fun mark => mark.covers column).map symbol).getD ' ' =
      strongest marks column := by
  cases found : marks.find? fun mark => mark.covers column with
  | none =>
    rw [List.find?_eq_none] at found
    have noneCovers : ∀ role, ¬∃ mark ∈ marks, mark.role = role ∧ mark.covers column := by
      rintro role ⟨mark, mem, _, covered⟩
      exact found mark mem covered
    rw [strongest, if_neg (noneCovers .primary), if_neg (noneCovers .secondary)]
    rfl
  | some mark =>
    obtain ⟨covered, before, after, rfl, notBefore⟩ := find?_eq_some_iff_append.1 found
    have mem : mark ∈ before ++ mark :: after := by simp
    rw [Option.map_some, Option.getD_some, symbol]
    cases role : mark.role with
    | primary => rw [strongest, if_pos ⟨mark, mem, role, covered⟩]
    | secondary =>
      have noPrimary : ¬∃ other ∈ before ++ mark :: after,
          other.role = .primary ∧ other.covers column := by
        rintro ⟨other, isOther, otherRole, otherCovers⟩
        rcases mem_append.1 isOther with isBefore | isAfter
        · simpa [otherCovers] using notBefore other isBefore
        rcases mem_cons.1 isAfter with rfl | isAfter
        · rw [role] at otherRole
          cases otherRole
        · have fromMark := pairwise_cons.1 (pairwise_append.1 sorted).2.1
          have inOrder := fromMark.1 other isAfter
          rw [drawnBefore_iff, role, otherRole] at inOrder
          simp at inOrder
      rw [strongest, if_neg noPrimary, if_pos ⟨mark, mem, role, covered⟩]

theorem width_eq_of_perm {marks others : List Mark} (perm : marks.Perm others) :
    width marks = width others := by
  refine (perm.map stop).foldl_eq' ?_ 0
  intro left _ right _ start
  rw [Nat.max_assoc, Nat.max_comm left right, ← Nat.max_assoc]

theorem strongest_eq_of_perm {marks others : List Mark} (perm : marks.Perm others) (column : Nat) :
    strongest marks column = strongest others column := by
  simp only [strongest, perm.mem_iff]

/-- Each column of the underline shows the strongest mark. -/
theorem underline_mergeSort (marks : List Mark) :
    underline (marks.mergeSort drawnBefore) =
      (List.range (width marks)).map fun index => strongest marks (index + 1) := by
  have perm := marks.mergeSort_perm drawnBefore
  have sorted := marks.pairwise_mergeSort drawnBefore_trans drawnBefore_total
  apply ext_getElem?
  intro index
  rw [underline, getElem?_foldl_draw, width_eq_of_perm perm, getElem?_map]
  by_cases inside : index < width marks
  · rw [getElem?_replicate_of_lt inside, getElem?_range inside, Option.map_some,
      Option.map_some, if_pos rfl, symbol_find?_eq_strongest sorted, strongest_eq_of_perm perm]
  · rw [getElem?_eq_none (by simpa using inside), getElem?_eq_none (by simpa using inside)]
    rfl

theorem stop_le_width {marks : List Mark} {mark : Mark} (mem : mark ∈ marks) :
    mark.stop ≤ width marks := by
  rw [width, foldl_max]
  exact Nat.le_trans (le_max?_getD_of_mem (mem_map_of_mem mem)) (Nat.le_max_right _ _)

/-- Past the end of the underline there is no mark. -/
theorem strongest_of_width_lt {marks : List Mark} {column : Nat} (outside : width marks ≤ column) :
    strongest marks column = ' ' := by
  have noneCovers : ∀ role, ¬∃ mark ∈ marks, mark.role = role ∧ mark.covers column := by
    rintro role ⟨mark, mem, _, covered⟩
    rw [covers, Bool.and_eq_true, decide_eq_true_iff, decide_eq_true_iff] at covered
    have reaches := stop_le_width mem
    omega
  rw [strongest, if_neg (noneCovers .primary), if_neg (noneCovers .secondary)]

theorem getD_underline (marks : List Mark) {column : Nat} (counted : 1 ≤ column) :
    (underline (marks.mergeSort drawnBefore)).getD (column - 1) ' ' =
      strongest marks column := by
  obtain ⟨index, rfl⟩ := Nat.exists_eq_add_of_le' counted
  rw [underline_mergeSort, Nat.add_sub_cancel, getD_eq_getElem?_getD, getElem?_map]
  by_cases inside : index < width marks
  · rw [getElem?_range inside]
    rfl
  · rw [getElem?_eq_none (by simpa using inside), strongest_of_width_lt (by omega)]
    rfl

/-- The underline below a line, before the blanks at its end are removed: that of the
labels that start on the line. -/
def lineUnderline (map : LineMap) (labels : List Label) (line : Nat) : List Char :=
  underline (((labels.filter fun label => label.startLine map = line).map
    (ofLabel map)).mergeSort drawnBefore)

theorem strongest_map_ofLabel (map : LineMap) (labels : List Label) (column : Nat) :
    strongest (labels.map (ofLabel map)) column = Label.strongestAt map labels column := by
  simp only [strongest, Label.strongestAt, mem_map, exists_exists_and_eq_and, covers_ofLabel]
  rfl

theorem lineUnderline_eq_of_perm (map : LineMap) {labels others : List Label}
    (perm : labels.Perm others) (line : Nat) :
    lineUnderline map labels line = lineUnderline map others line := by
  have marksPerm := (perm.filter fun label => label.startLine map = line).map (ofLabel map)
  rw [lineUnderline, lineUnderline, underline_mergeSort, underline_mergeSort,
    width_eq_of_perm marksPerm]
  simp only [strongest_eq_of_perm marksPerm]

/-- Below a line of source text there is its underline. -/
theorem rowsBelow_eq (marks : List Mark) :
    ∃ note messages, rowsBelow marks =
      .underline (trimEnd (underline (marks.mergeSort drawnBefore))) note :: messages := by
  unfold rowsBelow
  dsimp only
  split
  · exact ⟨_, _, rfl⟩
  · exact ⟨_, _, rfl⟩
  · exact ⟨_, _, rfl⟩

theorem rowsOf_eq (map : LineMap) (labels : List Label) (line : Nat) :
    ∃ note messages, rowsOf map (labels.map (ofLabel map)) line =
      .source line ((map.lineText line.toUInt32).getD "") ::
        .underline (trimEnd (lineUnderline map labels line)) note :: messages := by
  rw [rowsOf, filter_map]
  obtain ⟨note, messages, rowsEq⟩ := rowsBelow_eq
    ((labels.filter fun label => label.startLine map = line).map (ofLabel map))
  exact ⟨note, messages, congrArg _ rowsEq⟩

theorem exists_rowsFrom_eq (map : LineMap) (marks : List Mark) {lines : List Nat} {line : Nat}
    (mem : line ∈ lines) (previous : Option Nat) :
    ∃ above below, rowsFrom map marks previous lines = above ++ rowsOf map marks line ++ below := by
  induction lines generalizing previous with
  | nil => cases mem
  | cons first rest ih =>
    simp only [rowsFrom]
    rcases mem_cons.1 mem with rfl | later
    · exact ⟨_, _, rfl⟩
    · obtain ⟨above, below, rowsEq⟩ := ih later (some first)
      rw [rowsEq, append_assoc above, ← append_assoc _ above]
      exact ⟨_, below, (append_assoc _ _ _).symm⟩

/-- Every line that a label starts on is shown with its underline. -/
theorem exists_rows_eq (map : LineMap) {labels : List Label} {line : Nat}
    (started : ∃ label ∈ labels, label.startLine map = line) :
    ∃ above note below, rows map (labels.map (ofLabel map)) =
      above ++ .source line ((map.lineText line.toUInt32).getD "") ::
        .underline (trimEnd (lineUnderline map labels line)) note :: below := by
  have shown : line ∈ lines (labels.map (ofLabel map)) := by
    obtain ⟨label, mem, rfl⟩ := started
    rw [lines, mem_mergeSort, mem_eraseDups, map_map]
    exact mem_map.2 ⟨label, mem, rfl⟩
  obtain ⟨above, below, rowsEq⟩ := exists_rowsFrom_eq map (labels.map (ofLabel map)) shown none
  obtain ⟨note, messages, lineRowsEq⟩ := rowsOf_eq map labels line
  refine ⟨above, note, messages ++ below, ?_⟩
  rw [rows, rowsEq, lineRowsEq, append_assoc]
  rfl

end Snippet

/-- Some label of a diagnostic shows where the problem is. -/
theorem Diagnostic.exists_primarySpan?_eq (diagnostic : Diagnostic)
    (labelled : diagnostic.labels ≠ []) :
    ∃ span, diagnostic.primarySpan? = some span := by
  rw [primarySpan?]
  cases diagnostic.labels.find? fun label => label.role = .primary with
  | some label => exact ⟨label.span, rfl⟩
  | none =>
    rw [head?_eq_some_head labelled]
    exact ⟨(diagnostic.labels.head labelled).span, rfl⟩

theorem Diagnostic.exists_label_of_primarySpan? {diagnostic : Diagnostic} {span : Span}
    (spanEq : diagnostic.primarySpan? = some span) :
    ∃ label ∈ diagnostic.labels, label.span = span := by
  obtain ⟨label, found, spanIs⟩ := Option.map_eq_some_iff.1 spanEq
  refine ⟨label, ?_, spanIs⟩
  rw [Option.orElse_eq_orElse, Option.orElse_eq_or] at found
  rcases Option.or_eq_some_iff.1 found with first | ⟨_, first⟩
  · exact mem_of_find?_eq_some first
  · exact mem_of_head? first

namespace Layout

/-- If nothing is wrapped, a diagnostic with labels is laid out with all rows of its
snippet. -/
theorem format_eq_ok (layout : Layout) {diagnostic : Diagnostic} (labelled : diagnostic.labels ≠ [])
    (drawable : ∀ label ∈ diagnostic.labels, label.startColumn layout.map ≠ 0) :
    ∃ above below, layout.format diagnostic = .ok (String.join ((above ++
      (rows layout.map (diagnostic.labels.map (ofLabel layout.map))).map
        (layout.row (gutterWidth (diagnostic.labels.map (ofLabel layout.map)))) ++
      below).map (· ++ "\n"))) := by
  have noneWrapped : layout.wrappedLabel? diagnostic = none := by
    rw [wrappedLabel?, List.find?_eq_none]
    intro label mem wrapped
    exact drawable label mem (of_decide_eq_true wrapped)
  obtain ⟨span, spanEq⟩ := diagnostic.exists_primarySpan?_eq labelled
  rw [format, noneWrapped]
  dsimp only
  rw [lines, snippet, spanEq]
  refine ⟨[_, _, _], _, rfl⟩

/-- Below a line on which labels start, each column shows the strongest of these
labels: a primary one before a secondary one, and a blank where none covers it.  The
order of the labels does not matter. -/
theorem format_underline (layout : Layout) (diagnostic : Diagnostic) {line : Nat}
    (started : ∃ label ∈ diagnostic.labels, label.startLine layout.map = line)
    (drawable : ∀ label ∈ diagnostic.labels, label.startColumn layout.map ≠ 0) :
    let gutter := gutterWidth (diagnostic.labels.map (ofLabel layout.map))
    let cells := lineUnderline layout.map diagnostic.labels line
    (∃ above note below, layout.format diagnostic = .ok (String.join ((above ++
      layout.row gutter (.source line ((layout.map.lineText line.toUInt32).getD "")) ::
        layout.row gutter (.underline (trimEnd cells) note) :: below).map (· ++ "\n")))) ∧
      (∀ column, 1 ≤ column → cells.getD (column - 1) ' ' =
        Label.strongestAt layout.map
          (diagnostic.labels.filter fun label => label.startLine layout.map = line) column) ∧
      ∀ labels, labels.Perm diagnostic.labels →
        lineUnderline layout.map labels line = cells := by
  intro gutter cells
  refine ⟨?_, ?_, ?_⟩
  · obtain ⟨above, note, below, rowsEq⟩ := exists_rows_eq layout.map started
    obtain ⟨label, member, _⟩ := started
    obtain ⟨before, after, formatEq⟩ := layout.format_eq_ok (List.ne_nil_of_mem member) drawable
    refine ⟨before ++ above.map (layout.row gutter), note,
      below.map (layout.row gutter) ++ after, ?_⟩
    rw [formatEq, rowsEq]
    simp only [List.map_append, List.map_cons, List.append_assoc, List.cons_append, gutter, cells]
  · intro column counted
    rw [← strongest_map_ofLabel]
    exact getD_underline _ counted
  · intro labels perm
    exact lineUnderline_eq_of_perm layout.map perm line

/-- A label that goes on to the next line, one that overlaps it and an empty one. -/
def overlapping : Diagnostic where
  message := "overlap"
  labels :=
    [{ span := { start := 1, stop := 5 }, role := .secondary },
      { span := { start := 3, stop := 8 }, role := .primary, message := some "here" },
      { span := { start := 0, stop := 0 }, role := .secondary }]

/-- The label that goes on to the next line hides what it overlaps. -/
theorem format_underline_overlapping :
    let layout := ofSource "ab cde\nfg" none false
    let cells := lineUnderline layout.map overlapping.labels 1
    (layout.format overlapping).isOk ∧ cells.getD 0 ' ' = '-' ∧ cells.getD 2 ' ' = '-' ∧
      cells.getD 3 ' ' = '^' ∧ cells.getD 5 ' ' = '^' ∧ cells.getD 6 ' ' = ' ' ∧
      lineUnderline layout.map overlapping.labels.reverse 1 = cells := by
  intro layout cells
  have started : ∃ label ∈ overlapping.labels, label.startLine layout.map = 1 := by decide +kernel
  have drawable : ∀ label ∈ overlapping.labels, label.startColumn layout.map ≠ 0 := by
    decide +kernel
  obtain ⟨⟨above, note, below, formatEq⟩, shows, permuted⟩ :=
    format_underline layout overlapping started drawable
  refine ⟨by rw [formatEq]; rfl, (shows 1 (by decide)).trans ?_, (shows 3 (by decide)).trans ?_,
    (shows 4 (by decide)).trans ?_, (shows 6 (by decide)).trans ?_, (shows 7 (by decide)).trans ?_,
    permuted _ (List.reverse_perm _)⟩
  all_goals decide +kernel

end Layout
end PipeCheck
