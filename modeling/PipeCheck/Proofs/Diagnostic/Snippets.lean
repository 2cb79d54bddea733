import PipeCheck.Proofs.Diagnostic.Decoration
import PipeCheck.Proofs.Diagnostic.Underlines

/-!
# Snippets

The lines that labels start on are shown once each, from the first to the last.  What
stands below a line are the messages of its own labels, lines that are left out show as a
gap, and the bars beside all rows are below one another.
-/

namespace PipeCheck

open List

namespace SnippetRow

/-- The line that a row of source text shows. -/
def line? : SnippetRow → Option Nat
  | source line _ => some line
  | _ => none

/-- Whether a row belongs to the source text above it. -/
def isAnnotation : SnippetRow → Bool
  | underline _ _ => true
  | message _ _ _ => true
  | _ => false

/-- The message that a row shows, and the role of its label. -/
def message? : SnippetRow → Option (Role × String)
  | underline _ note => note
  | message _ role text => some (role, text)
  | _ => none

/-- The rows of a snippet in good order. -/
structure WellLaid (map : LineMap) (labels : List Label) (rows : List SnippetRow) : Prop where
  /-- The first row is one of source text. -/
  starts : ∃ line text below, rows = source line text :: below
  /-- Lines are shown in ascending order, each once. -/
  ascending : (rows.filterMap line?).Pairwise (· < ·)
  /-- The lines shown are those that labels start on. -/
  mem_lines : ∀ line, line ∈ rows.filterMap line? ↔ ∃ label ∈ labels, label.startLine map = line
  /-- A row of source text shows its line. -/
  text_eq : ∀ {line text}, source line text ∈ rows → text = (map.lineText line.toUInt32).getD ""
  /-- Below a line and its annotations the snippet ends or the next line follows, after a
  gap exactly if lines are left out. -/
  follows : ∀ {line text below}, source line text :: below <:+ rows →
    below.dropWhile isAnnotation = [] ∨ ∃ next nextText rest, below.dropWhile isAnnotation =
      (if line + 1 < next then [gap] else []) ++ source next nextText :: rest
  /-- The annotations directly below a line show the message of each label that starts
  there once. -/
  messages : ∀ {line text below}, source line text :: below <:+ rows →
    ((below.takeWhile isAnnotation).filterMap message?).Perm
      ((labels.filter fun label => label.startLine map = line).filterMap fun label =>
        label.message.map (label.role, ·))

theorem line?_eq_none_of_isAnnotation {row : SnippetRow} (annotates : row.isAnnotation) :
    row.line? = none := by
  cases row with
  | source | gap => cases annotates
  | underline | message => rfl

/-- Rows that show no line can be skipped in the search for one. -/
theorem suffix_of_suffix_append {above rows below : List SnippetRow} {line : Nat} {text : String}
    (noLine : ∀ row ∈ above, row.line? = none)
    (suffix : source line text :: below <:+ above ++ rows) :
    source line text :: below <:+ rows := by
  induction above with
  | nil => exact suffix
  | cons row above ih =>
    rw [forall_mem_cons] at noLine
    rcases suffix_cons_iff.1 suffix with same | later
    · cases same
      cases noLine.1
    · exact ih noLine.2 later

end SnippetRow

namespace Snippet

open SnippetRow

variable (map : LineMap) (marks : List Mark)

/-- The rows below a line show the messages of its labels, each once. -/
theorem rowsBelow_messages :
    (∀ row ∈ rowsBelow marks, row.isAnnotation) ∧ ((rowsBelow marks).filterMap message?).Perm
      (marks.filterMap fun mark => mark.message.map (mark.role, ·)) := by
  have perm : (((marks.mergeSort Mark.drawnBefore).filterMap Mark.note?).map Prod.snd).Perm
      (marks.filterMap fun mark => mark.message.map (mark.role, ·)) := by
    rw [map_filterMap]
    refine ((marks.mergeSort_perm _).filterMap _).trans (.of_eq ?_)
    simp only [Mark.note?, Option.map_map, Function.comp_def]
  unfold rowsBelow
  dsimp only
  generalize (marks.mergeSort Mark.drawnBefore).filterMap Mark.note? = notes at perm
  rcases notes with _ | ⟨⟨column, role, text⟩, _ | ⟨second, rest⟩⟩
  · exact ⟨forall_mem_singleton.2 rfl, perm⟩
  · exact ⟨forall_mem_singleton.2 rfl, perm⟩
  · refine ⟨forall_mem_cons.2 ⟨rfl, forall_mem_map.2 fun _ _ => rfl⟩, ?_⟩
    rw [filterMap_cons_none rfl, filterMap_map]
    refine (List.Perm.of_eq ?_).trans ((reverse_perm _).trans perm)
    rw [← map_reverse, ← filterMap_eq_map]
    rfl

/-- The gap before a line, if lines are left out after the previous one. -/
def gapBefore : (previous : Option Nat) → (line : Nat) → List SnippetRow
  | some earlier, line => if earlier + 1 < line then [gap] else []
  | none, _ => []

theorem line?_eq_none_of_mem_gapBefore (previous : Option Nat) (line : Nat) :
    ∀ row ∈ gapBefore previous line, row.line? = none := by
  cases previous with
  | none => exact forall_mem_nil _
  | some earlier =>
    rw [gapBefore]
    split
    · exact forall_mem_singleton.2 rfl
    · exact forall_mem_nil _

theorem rowsFrom_cons (previous : Option Nat) (line : Nat) (rest : List Nat) :
    rowsFrom map marks previous (line :: rest) = gapBefore previous line ++
      source line ((map.lineText line.toUInt32).getD "") ::
        (rowsBelow (marks.filter fun mark => mark.line = line) ++
          rowsFrom map marks (some line) rest) := by
  cases previous <;> simp only [rowsFrom, rowsOf, gapBefore, append_assoc, cons_append]

/-- What stands below a line of source text. -/
theorem exists_of_suffix_rowsFrom {previous : Option Nat} {lines : List Nat} {line : Nat}
    {text : String} {below : List SnippetRow}
    (suffix : source line text :: below <:+ rowsFrom map marks previous lines) :
    ∃ rest, text = (map.lineText line.toUInt32).getD "" ∧
      below = rowsBelow (marks.filter fun mark => mark.line = line) ++
        rowsFrom map marks (some line) rest := by
  induction lines generalizing previous with
  | nil => cases suffix_nil.1 suffix
  | cons first rest ih =>
    rw [rowsFrom_cons] at suffix
    have fromFirst := suffix_of_suffix_append (line?_eq_none_of_mem_gapBefore previous first) suffix
    rcases suffix_cons_iff.1 fromFirst with same | later
    · cases same
      exact ⟨rest, rfl, rfl⟩
    · exact ih (suffix_of_suffix_append (fun row mem => line?_eq_none_of_isAnnotation
        ((rowsBelow_messages _).1 row mem)) later)

theorem filterMap_line?_rowsFrom (previous : Option Nat) (lines : List Nat) :
    (rowsFrom map marks previous lines).filterMap line? = lines := by
  induction lines generalizing previous with
  | nil => rfl
  | cons line rest ih =>
    have noGap := filterMap_eq_nil_iff.2 (line?_eq_none_of_mem_gapBefore previous line)
    have noLines : (rowsBelow (marks.filter fun mark => mark.line = line)).filterMap line? = [] :=
      filterMap_eq_nil_iff.2 fun row mem =>
        line?_eq_none_of_isAnnotation ((rowsBelow_messages _).1 row mem)
    simp only [rowsFrom_cons, filterMap_append, noGap, filterMap_cons, line?, noLines,
      ih, nil_append]

/-- The next line follows right away or after a gap. -/
theorem dropWhile_rowsFrom (line : Nat) (rest : List Nat) :
    (rowsFrom map marks (some line) rest).takeWhile isAnnotation = [] ∧
      ((rowsFrom map marks (some line) rest).dropWhile isAnnotation = [] ∨
        ∃ next text below, (rowsFrom map marks (some line) rest).dropWhile isAnnotation =
          (if line + 1 < next then [gap] else []) ++ source next text :: below) := by
  cases rest with
  | nil => exact ⟨rfl, .inl rfl⟩
  | cons next rest =>
    have stays : ∀ text below, let rows := gapBefore (some line) next ++ source next text :: below
        rows.takeWhile isAnnotation = [] ∧ rows.dropWhile isAnnotation = rows := by
      intro text below
      rw [gapBefore]
      split <;> exact ⟨rfl, rfl⟩
    rw [rowsFrom_cons]
    exact ⟨(stays _ _).1, .inr ⟨next, _, _, (stays _ _).2⟩⟩

section Lines

theorem nodup_eraseDups (numbers : List Nat) : numbers.eraseDups.Nodup := by
  induction lengthEq : numbers.length using Nat.strongRecOn generalizing numbers with
  | ind length ih =>
    cases numbers with
    | nil => exact nodup_nil
    | cons first rest =>
      rw [eraseDups_cons, nodup_cons, mem_eraseDups]
      refine ⟨by simp, ih _ ?_ _ rfl⟩
      rw [← lengthEq, length_cons]
      exact Nat.lt_succ_of_le (length_filter_le _ rest)

theorem lines_ascending : (lines marks).Pairwise (· < ·) := by
  have sorted : (lines marks).Pairwise fun left right => decide (left ≤ right) :=
    pairwise_mergeSort (by simpa using fun _ _ _ => Nat.le_trans) (by simpa using Nat.le_total) _
  have distinct := ((marks.map Mark.line).eraseDups.mergeSort_perm
    fun left right => left ≤ right).nodup_iff.2 (nodup_eraseDups _)
  refine (sorted.and distinct).imp ?_
  rintro left right ⟨notAfter, different⟩
  exact Nat.lt_of_le_of_ne (of_decide_eq_true notAfter) different

theorem mem_lines (labels : List Label) (line : Nat) :
    line ∈ lines (labels.map (Mark.ofLabel map)) ↔
      ∃ label ∈ labels, label.startLine map = line := by
  rw [lines, mem_mergeSort, mem_eraseDups, map_map, mem_map]
  rfl

/-- The number of the last line is the widest one. -/
theorem length_repr_le_gutterWidth {line : Nat} (shown : line ∈ lines marks) :
    line.repr.length ≤ gutterWidth marks := by
  have last := getLast?_eq_some_getLast (ne_nil_of_mem shown)
  have notAfter := ((lines_ascending marks).imp Nat.le_of_lt).rel_getLast shown
  have positive := @Nat.length_repr_pos ((lines marks).getLast (ne_nil_of_mem shown))
  rw [gutterWidth, last]
  refine Nat.le_trans ((Nat.length_repr_le_iff positive).2 ?_) (Nat.le_max_right _ _)
  exact Nat.lt_of_le_of_lt notAfter ((Nat.length_repr_le_iff positive).1 (Nat.le_refl _))

end Lines

/-- The rows of a snippet are in good order. -/
theorem rows_wellLaid {labels : List Label} (labelled : labels ≠ []) :
    WellLaid map labels (rows map (labels.map (Mark.ofLabel map))) where
  starts := by
    obtain ⟨label, others, rfl⟩ := exists_cons_of_ne_nil labelled
    have shown := (mem_lines map (label :: others) _).2 ⟨label, mem_cons_self, rfl⟩
    obtain ⟨first, rest, linesEq⟩ := exists_cons_of_ne_nil (ne_nil_of_mem shown)
    rw [rows, linesEq, rowsFrom_cons]
    exact ⟨first, _, _, rfl⟩
  ascending := by
    rw [rows, filterMap_line?_rowsFrom]
    exact lines_ascending _
  mem_lines := by
    rw [rows, filterMap_line?_rowsFrom]
    exact mem_lines map labels
  text_eq := by
    intro line text mem
    obtain ⟨above, below, rowsEq⟩ := append_of_mem mem
    obtain ⟨_, textEq, _⟩ := exists_of_suffix_rowsFrom map _ ⟨above, rowsEq.symm⟩
    exact textEq
  follows := by
    intro line text below suffix
    obtain ⟨rest, _, rfl⟩ := exists_of_suffix_rowsFrom map _ suffix
    rw [dropWhile_append_of_pos (rowsBelow_messages _).1]
    exact (dropWhile_rowsFrom map _ line rest).2
  messages := by
    intro line text below suffix
    obtain ⟨rest, _, rfl⟩ := exists_of_suffix_rowsFrom map _ suffix
    rw [takeWhile_append_of_pos (rowsBelow_messages _).1, (dropWhile_rowsFrom map _ _ _).1,
      append_nil]
    refine (rowsBelow_messages _).2.trans (.of_eq ?_)
    rw [filter_map, filterMap_map]
    rfl

end Snippet

namespace Layout

open Text

/-- The first bar of a text stands at a column. -/
def BarAt (column : Nat) (text : String) : Prop :=
  ∃ left right, text = left ++ "|" ++ right ∧ left.length = column ∧ '|' ∉ left.toList

theorem BarAt.append {column : Nat} {text : String} (bar : BarAt column text) (more : String) :
    BarAt column (text ++ more) := by
  obtain ⟨left, right, rfl, lengthEq, noBar⟩ := bar
  exact ⟨left, right ++ more, String.append_assoc, lengthEq, noBar⟩

variable {layout : Layout} (plain : layout.coloured = false)

include plain

theorem paint_eq (style : Style) (text : String) : layout.paint style text = text := by
  rw [paint, Style.paint, plain]
  rfl

theorem bar_barAt (gutter : Nat) : BarAt (gutter + 2) (layout.bar gutter) := by
  rw [bar, paint_eq plain]
  refine ⟨blanks (gutter + 1) ++ " ", "", by rw [String.append_empty], ?_, ?_⟩
  · rw [String.length_append, blanks, String.length_pushn]
    exact congrArg (· + 1) (Nat.zero_add (gutter + 1))
  · rw [String.toList_append, mem_append, not_or]
    exact ⟨notMem_pushn_blank (by decide) _, by decide⟩

/-- Beside all rows but the gaps there is a bar at one column. -/
theorem row_barAt {gutter : Nat} {row : SnippetRow} (notGap : row ≠ .gap)
    (fits : ∀ line ∈ row.line?, line.repr.length ≤ gutter) :
    BarAt (gutter + 2) (layout.row gutter row) := by
  have besides := bar_barAt plain gutter
  cases row with
  | source line text =>
    have width := fits line rfl
    rw [Layout.row, paint_eq plain, paint_eq plain]
    refine BarAt.append (BarAt.append ⟨padLeft (gutter + 1) line.repr ++ " ", "", ?_, ?_, ?_⟩ _) _
    · rw [String.append_empty]
    · rw [String.length_append, padLeft, String.length_append, String.length_pushn]
      change 0 + _ + _ + 1 = _
      omega
    · rw [String.toList_append, padLeft, String.toList_append, mem_append, mem_append,
        not_or, not_or]
      exact ⟨⟨notMem_pushn_blank (by decide) _, notMem_repr (by decide) _⟩, by decide⟩
  | gap => exact absurd rfl notGap
  | underline cells note =>
    cases note with
    | none => exact (besides.append _).append _
    | some note => exact (((besides.append _).append _).append _).append _
  | message column role text =>
    exact ((((besides.append _).append _).append _).append _).append _

omit plain

/-- Labels on the first two lines and on the fourth. -/
def scattered : Diagnostic where
  message := "scattered"
  labels :=
    [.primary { start := 9, stop := 11 } "last",
      .secondary { start := 0, stop := 1 } "first",
      .secondary { start := 1, stop := 4 } "second",
      { span := { start := 3, stop := 3 }, role := .secondary }]

end Layout
end PipeCheck
