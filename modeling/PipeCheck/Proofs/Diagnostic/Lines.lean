import PipeCheck.Source.LineMap

/-!
# Lines of a text

A line map counts line breaks in characters and offsets in bytes.  Both agree with
the bytes of the text: the line of an offset is given by the line break bytes before
it, its column by the bytes since the line started, and the text of a line is a piece
of the text between line breaks.
-/

namespace PipeCheck

open List Option UInt8

namespace Text

/-- The bytes of a text. -/
def bytes (text : String) : List UInt8 :=
  text.toByteArray.data.toList

/-- The byte of a line break. -/
def lineBreak : UInt8 := 10

/-- The number of line breaks before an offset, which may lie past the text. -/
def breaksBefore (text : String) (offset : Nat) : Nat :=
  ((bytes text).take offset).count lineBreak

/-- The pieces of a text between its line breaks. -/
def pieces (text : String) : List String :=
  (text.toList.splitOn '\n').map String.ofList

/-- The byte offset at which the piece at an index starts: the pieces before it come
first, each with a line break. -/
def lineStart (text : String) (index : Nat) : Nat :=
  (((pieces text).take index).map fun piece => (bytes piece).length + 1).foldr (· + ·) 0

/-- The bytes of characters. -/
def encode (characters : List Char) : List UInt8 :=
  characters.flatMap String.utf8EncodeChar

section Bytes

theorem bytes_ofList (chars : List Char) :
    bytes (String.ofList chars) = encode chars := by
  rw [bytes, String.toByteArray_ofList, List.utf8Encode, data_toByteArray]
  rfl

theorem bytes_eq_encode (text : String) : bytes text = encode text.toList := by
  rw [← bytes_ofList, String.ofList_toList]

theorem encode_cons (char : Char) (rest : List Char) :
    encode (char :: rest) = String.utf8EncodeChar char ++ encode rest :=
  flatMap_cons

theorem encode_append (left right : List Char) :
    encode (left ++ right) = encode left ++ encode right :=
  flatMap_append

theorem length_encode (chars : List Char) :
    (encode chars).length = byteCount chars := by
  induction chars with
  | nil => rfl
  | cons char rest ih =>
    rw [encode_cons, length_append, String.length_utf8EncodeChar, ih, byteCount_cons]

theorem utf8EncodeChar_eq (char : Char) :
    String.utf8EncodeChar char =
      let code := char.val.toNat
      if code ≤ 127 then [ofNat code]
      else if code ≤ 2047 then [ofNat (code / 64 % 32 + 192), ofNat (code % 64 + 128)]
      else if code ≤ 65535 then
        [ofNat (code / 4096 % 16 + 224), ofNat (code / 64 % 64 + 128), ofNat (code % 64 + 128)]
      else
        [ofNat (code / 262144 % 8 + 240), ofNat (code / 4096 % 64 + 128),
          ofNat (code / 64 % 64 + 128), ofNat (code % 64 + 128)] :=
  rfl

theorem lineBreak_ne_ofNat {code : Nat} (small : code < 256) (different : code ≠ 10) :
    lineBreak ≠ ofNat code := by
  intro same
  have codeEq := congrArg toNat same
  rw [toNat_ofNat_of_lt' small] at codeEq
  exact different codeEq.symm

/-- The byte of a line break encodes nothing else, not even in part. -/
theorem lineBreak_notMem_utf8EncodeChar {char : Char} (different : char ≠ '\n') :
    lineBreak ∉ String.utf8EncodeChar char := by
  have codeDifferent : char.val.toNat ≠ 10 := by
    intro same
    exact different (Char.ext (UInt32.toNat_inj.1 same))
  rw [utf8EncodeChar_eq]
  generalize char.val.toNat = code at codeDifferent
  dsimp only
  split
  · simpa using lineBreak_ne_ofNat (by omega) codeDifferent
  -- the bytes of longer encodings are all above those of ASCII
  split
  · simp only [mem_cons, not_mem_nil, or_false, not_or]
    exact ⟨lineBreak_ne_ofNat (by omega) (by omega), lineBreak_ne_ofNat (by omega) (by omega)⟩
  split
  · simp only [mem_cons, not_mem_nil, or_false, not_or]
    refine ⟨?_, ?_, ?_⟩ <;> exact lineBreak_ne_ofNat (by omega) (by omega)
  · simp only [mem_cons, not_mem_nil, or_false, not_or]
    refine ⟨?_, ?_, ?_, ?_⟩ <;> exact lineBreak_ne_ofNat (by omega) (by omega)

theorem encode_cons_newline (rest : List Char) :
    encode ('\n' :: rest) = lineBreak :: encode rest :=
  encode_cons '\n' rest

theorem count_encode (chars : List Char) :
    (encode chars).count lineBreak = chars.count '\n' := by
  induction chars with
  | nil => rfl
  | cons char rest ih =>
    by_cases isBreak : char = '\n'
    · subst isBreak
      rw [encode_cons_newline, count_cons_self, count_cons_self, ih]
    · rw [encode_cons, count_append, ih,
        count_eq_zero_of_not_mem (lineBreak_notMem_utf8EncodeChar isBreak),
        count_cons_of_ne isBreak, Nat.zero_add]

end Bytes

section Lines

variable {chars line rest : List Char}

/-- Induction over the lines of a text, the first line split off with its break. -/
theorem inductionOnLines {motive : List Char → Prop} (last : ∀ line, '\n' ∉ line → motive line)
    (more : ∀ line rest, '\n' ∉ line → motive rest → motive (line ++ '\n' :: rest))
    (chars : List Char) :
    motive chars := by
  induction lengthEq : chars.length using Nat.strongRecOn generalizing chars with
  | ind length ih =>
    by_cases hasBreak : '\n' ∈ chars
    · obtain ⟨line, rest, rfl, noBreak⟩ := eq_append_cons_of_mem hasBreak
      refine more line rest noBreak (ih rest.length ?_ rest rfl)
      rw [← lengthEq, length_append, length_cons]
      omega
    · exact last chars hasBreak

/-- The lines before the line at an index, with their breaks. -/
def linesBefore (characters : List Char) (index : Nat) : List Char :=
  ((characters.splitOn '\n').take index).flatMap (· ++ ['\n'])

theorem linesBefore_zero (chars : List Char) : linesBefore chars 0 = [] :=
  rfl

theorem linesBefore_append (noBreak : '\n' ∉ line) (index : Nat) :
    linesBefore (line ++ '\n' :: rest) (index + 1) = line ++ '\n' :: linesBefore rest index := by
  rw [linesBefore, splitOn_append_cons_self_of_not_mem noBreak, take_succ_cons,
    flatMap_cons, append_assoc]
  rfl

theorem linesBefore_succ {index : Nat} (found : (chars.splitOn '\n')[index]? = some line) :
    linesBefore chars (index + 1) = linesBefore chars index ++ (line ++ ['\n']) := by
  rw [linesBefore, take_add_one, found, flatMap_append, toList_some, flatMap_singleton, linesBefore]

theorem byteCount_flatMap_lines (lines : List (List Char)) :
    byteCount (lines.flatMap (· ++ ['\n'])) =
      (lines.map fun line => byteCount line + 1).foldr (· + ·) 0 := by
  induction lines with
  | nil => rfl
  | cons line lines ih =>
    rw [flatMap_cons, byteCount_append, byteCount_append, ih]
    rfl

theorem lineStart_eq (text : String) (index : Nat) :
    lineStart text index = byteCount (linesBefore text.toList index) := by
  rw [lineStart, linesBefore, byteCount_flatMap_lines, pieces, ← map_take, List.map_map]
  simp only [Function.comp_def, bytes_ofList, length_encode]

theorem length_splitOn (chars : List Char) :
    (chars.splitOn '\n').length = chars.count '\n' + 1 := by
  induction chars using inductionOnLines with
  | last line noBreak =>
    rw [splitOn_eq_singleton noBreak, count_eq_zero_of_not_mem noBreak]
    rfl
  | more line rest noBreak ih =>
    rw [splitOn_append_cons_self_of_not_mem noBreak, length_cons, ih,
      count_append, count_eq_zero_of_not_mem noBreak, count_cons_self, Nat.zero_add]

theorem dropBytes_of_eq_append {before : List Char} (charsEq : chars = before ++ rest) :
    dropBytes (byteCount before) chars = rest := by
  subst charsEq
  induction before with
  | nil => rw [byteCount_nil, nil_append, dropBytes]
  | cons char before ih =>
    have positive := char.utf8Size_pos
    obtain ⟨count, countEq⟩ := Nat.exists_eq_add_one_of_ne_zero
      (Nat.ne_of_gt (Nat.add_pos_left positive (byteCount before)))
    rw [byteCount_cons, countEq, cons_append, dropBytes, ← countEq, Nat.add_sub_cancel_left, ih]

/-- A line follows on the lines before it and ends with the text or with a break. -/
theorem exists_tail {index : Nat} (found : (chars.splitOn '\n')[index]? = some line) :
    '\n' ∉ line ∧ ∃ tail, chars = linesBefore chars index ++ (line ++ tail) ∧
      (tail = [] ∨ index + 1 < (chars.splitOn '\n').length ∧ ∃ rest, tail = '\n' :: rest) := by
  induction chars using inductionOnLines generalizing index with
  | last only noBreak =>
    rw [splitOn_eq_singleton noBreak, getElem?_singleton] at found
    obtain ⟨rfl, rfl⟩ : index = 0 ∧ only = line := by simpa using found
    exact ⟨noBreak, [], by simp [linesBefore_zero], .inl rfl⟩
  | more first rest noBreak ih =>
    rw [splitOn_append_cons_self_of_not_mem noBreak] at found ⊢
    cases index with
    | zero =>
      obtain rfl : first = line := by simpa using found
      refine ⟨noBreak, '\n' :: rest, by simp [linesBefore_zero], .inr ⟨?_, rest, rfl⟩⟩
      have notEmpty := length_splitOn rest
      rw [length_cons]
      omega
    | succ index =>
      obtain ⟨lineNoBreak, tail, restEq, ends⟩ := ih found
      refine ⟨lineNoBreak, tail, ?_, ends.imp_right fun later => ⟨?_, later.2⟩⟩
      · rw [linesBefore_append noBreak, append_assoc, cons_append, ← restEq]
      · rw [length_cons]
        exact Nat.succ_lt_succ later.1

theorem count_take_encode_of_notMem (noBreak : '\n' ∉ line) (offset : Nat) :
    ((encode line).take offset).count lineBreak = 0 := by
  have noneAtAll : (encode line).count lineBreak = 0 := by
    rw [count_encode, count_eq_zero_of_not_mem noBreak]
  exact Nat.le_zero.1 (noneAtAll ▸ (take_sublist offset (encode line)).count_le lineBreak)

/-- The line of an offset is the one after as many lines as there are breaks before the
offset.  It starts no later than the offset, and the next line starts later. -/
theorem line_of_offset (chars : List Char) {offset index : Nat}
    (indexEq : ((encode chars).take offset).count lineBreak = index) :
    index < (chars.splitOn '\n').length ∧
      byteCount (linesBefore chars index) ≤ offset ∧
      (index + 1 < (chars.splitOn '\n').length →
        offset < byteCount (linesBefore chars (index + 1))) := by
  induction chars using inductionOnLines generalizing offset index with
  | last line noBreak =>
    obtain rfl : index = 0 := indexEq.symm.trans (count_take_encode_of_notMem noBreak offset)
    rw [splitOn_eq_singleton noBreak, linesBefore_zero]
    exact ⟨Nat.zero_lt_one, Nat.zero_le offset, fun later => absurd later (Nat.lt_irrefl 1)⟩
  | more line rest noBreak ih =>
    rw [encode_append, encode_cons_newline] at indexEq
    rw [splitOn_append_cons_self_of_not_mem noBreak, length_cons]
    by_cases onFirst : offset ≤ byteCount line
    · rw [take_append_of_le_length (by rwa [length_encode]),
        count_take_encode_of_notMem noBreak] at indexEq
      subst indexEq
      rw [linesBefore_zero, linesBefore_append noBreak, linesBefore_zero, byteCount_append]
      exact ⟨Nat.succ_pos _, Nat.zero_le offset, fun _ => Nat.lt_succ_of_le onFirst⟩
    · obtain ⟨later, rfl⟩ := Nat.exists_eq_add_of_lt (Nat.lt_of_not_le onFirst)
      rw [Nat.add_assoc, ← length_encode line, take_length_add_append, take_succ_cons,
        count_append, count_cons_self, count_encode,
        count_eq_zero_of_not_mem noBreak, Nat.zero_add] at indexEq
      subst indexEq
      obtain ⟨inside, startsBefore, endsAfter⟩ := @ih later _ rfl
      have breakSize : '\n'.utf8Size = 1 := rfl
      simp only [linesBefore_append noBreak, byteCount_append, byteCount_cons, breakSize]
      exact ⟨by omega, by omega, fun more => by have := endsAfter (by omega); omega⟩

end Lines

end Text

namespace LineMap

open Text

variable {line rest : List Char}

theorem startsAfter_of_notMem (noBreak : '\n' ∉ line) (base : Nat) :
    startsAfter base line = [] := by
  induction line generalizing base with
  | nil => rfl
  | cons char line ih =>
    rw [mem_cons, not_or] at noBreak
    rw [startsAfter, if_neg (Ne.symm noBreak.1)]
    exact ih noBreak.2 _

theorem startsAfter_append (noBreak : '\n' ∉ line) (base : Nat) :
    startsAfter base (line ++ '\n' :: rest) =
      (base + byteCount line + 1) :: startsAfter (base + byteCount line + 1) rest := by
  induction line generalizing base with
  | nil => rfl
  | cons char line ih =>
    rw [mem_cons, not_or] at noBreak
    rw [cons_append, startsAfter, if_neg (Ne.symm noBreak.1), ih noBreak.2,
      byteCount_cons, Nat.add_assoc base]

theorem length_startsAfter (base : Nat) (chars : List Char) :
    (startsAfter base chars).length = chars.count '\n' := by
  induction chars using inductionOnLines generalizing base with
  | last line noBreak =>
    rw [startsAfter_of_notMem noBreak, count_eq_zero_of_not_mem noBreak, length_nil]
  | more line rest noBreak ih =>
    rw [startsAfter_append noBreak, length_cons, ih, count_append,
      count_eq_zero_of_not_mem noBreak, count_cons_self, Nat.zero_add]

/-- The recorded starts are those of the lines. -/
theorem getElem?_starts (chars : List Char) (base index : Nat) :
    (base :: startsAfter base chars)[index]? =
      ((chars.splitOn '\n')[index]?).map fun _ =>
        base + byteCount (linesBefore chars index) := by
  induction chars using inductionOnLines generalizing base index with
  | last line noBreak =>
    rw [startsAfter_of_notMem noBreak, splitOn_eq_singleton noBreak]
    cases index <;> simp [linesBefore_zero]
  | more line rest noBreak ih =>
    rw [startsAfter_append noBreak, splitOn_append_cons_self_of_not_mem noBreak]
    cases index with
    | zero => simp [linesBefore_zero]
    | succ index =>
      rw [getElem?_cons_succ, getElem?_cons_succ, ih,
        linesBefore_append noBreak, byteCount_append, byteCount_cons]
      have breakSize : '\n'.utf8Size = 1 := rfl
      simp only [breakSize, Nat.add_assoc]

theorem byteCount_linesBefore_mono (chars : List Char) {index later : Nat}
    (before : index ≤ later) :
    byteCount (linesBefore chars index) ≤ byteCount (linesBefore chars later) := by
  obtain ⟨between, betweenEq⟩ := take_prefix_take_left before (l := chars.splitOn '\n')
  rw [linesBefore, linesBefore, ← betweenEq, flatMap_append, byteCount_append]
  exact Nat.le_add_right _ _

/-- Entries that are told apart at one place are counted up to it. -/
theorem countP_eq_of_partition {entries : List Nat} {selects : Nat → Bool} {place : Nat}
    (inside : place ≤ entries.length)
    (partition : ∀ {index entry}, entries[index]? = some entry → (selects entry ↔ index < place)) :
    entries.countP selects = place := by
  induction entries generalizing place with
  | nil => exact (Nat.le_zero.1 inside).symm
  | cons first rest ih =>
    have firstSelected : selects first ↔ 0 < place := @partition 0 first rfl
    cases place with
    | zero =>
      rw [countP_eq_zero]
      intro entry mem
      obtain ⟨index, found⟩ := mem_iff_getElem?.1 mem
      exact fun selected => Nat.not_lt_zero index ((partition found).1 selected)
    | succ place =>
      rw [countP_cons_of_pos (firstSelected.2 (Nat.succ_pos place))]
      congr 1
      refine ih (Nat.le_of_succ_le_succ inside) ?_
      intro index entry found
      rw [@partition (index + 1) entry found, Nat.succ_lt_succ_iff]

section Source

variable (source : String)

theorem getElem?_starts_ofText (index : Nat) :
    (ofText source).starts[index]? =
      ((pieces source)[index]?).map fun _ => lineStart source index := by
  rw [ofText, getElem?_starts, pieces, getElem?_map, Option.map_map, lineStart_eq]
  simp only [Nat.zero_add, Function.comp_def]

theorem length_pieces : (pieces source).length = (bytes source).count lineBreak + 1 := by
  rw [pieces, length_map, length_splitOn, bytes_eq_encode, count_encode]

theorem length_starts : (ofText source).starts.length = (pieces source).length := by
  rw [ofText, length_cons, length_startsAfter, pieces, length_map, length_splitOn]

theorem count_take_encode (offset : Nat) :
    ((encode source.toList).take offset).count lineBreak = breaksBefore source offset := by
  rw [breaksBefore, bytes_eq_encode]

/-- The starts up to one place are no later than an offset, and those after it are
later. -/
theorem start_le_iff {offset index start : Nat}
    (found : (ofText source).starts[index]? = some start) :
    start ≤ offset ↔ index < breaksBefore source offset + 1 := by
  obtain ⟨inside, startsBefore, endsAfter⟩ :=
    line_of_offset source.toList (count_take_encode source offset)
  have bound := (List.getElem?_eq_some_iff.1 found).1
  rw [getElem?_starts_ofText] at found
  obtain ⟨piece, _, rfl⟩ := map_eq_some_iff.1 found
  rw [length_starts, pieces, length_map] at bound
  rw [lineStart_eq, Nat.lt_succ_iff]
  constructor
  · intro notLater
    refine Nat.le_of_not_lt fun isLater => ?_
    have nextStarts := endsAfter (Nat.lt_of_le_of_lt isLater bound)
    have startsNoEarlier := byteCount_linesBefore_mono source.toList isLater
    exact absurd notLater (Nat.not_le_of_lt (Nat.lt_of_lt_of_le nextStarts startsNoEarlier))
  · intro before
    exact Nat.le_trans (byteCount_linesBefore_mono source.toList before) startsBefore

theorem breaksBefore_lt (offset : Nat) : breaksBefore source offset < (pieces source).length := by
  rw [length_pieces, breaksBefore]
  exact Nat.lt_succ_of_le ((take_sublist _ _).count_le lineBreak)

theorem lineAt_eq (offset : Nat) :
    (ofText source).lineAt offset = breaksBefore source offset + 1 := by
  refine countP_eq_of_partition ?_ ?_
  · rw [length_starts]
    exact breaksBefore_lt source offset
  · intro index start found
    rw [decide_eq_true_iff]
    exact start_le_iff source found

theorem starts_breaksBefore (offset : Nat) :
    (ofText source).starts[breaksBefore source offset]? =
      some (lineStart source (breaksBefore source offset)) := by
  rw [getElem?_starts_ofText, getElem?_eq_getElem (breaksBefore_lt source offset)]
  rfl

theorem startOf_lineAt (offset : Nat) :
    (ofText source).startOf ((ofText source).lineAt offset) =
      lineStart source (breaksBefore source offset) := by
  rw [lineAt_eq, startOf, Nat.add_sub_cancel, starts_breaksBefore]
  rfl

theorem lineStart_le (offset : Nat) : lineStart source (breaksBefore source offset) ≤ offset :=
  (start_le_iff source (starts_breaksBefore source offset)).2 (Nat.lt_succ_self _)

/-- The text of a line is what stands between two breaks. -/
theorem lineText_eq (line : UInt32) :
    (ofText source).lineText line =
      if line = 0 then none else (pieces source)[line.toNat - 1]? := by
  rw [lineText]
  split
  · rfl
  · rw [getElem?_starts_ofText, Option.map_map, pieces, getElem?_map]
    generalize line.toNat - 1 = index
    cases found : (source.toList.splitOn '\n')[index]? with
    | none => rfl
    | some piece =>
      obtain ⟨noBreak, tail, sourceEq, ends⟩ := exists_tail found
      have remaining : dropBytes (lineStart source index) source.toList = piece ++ tail := by
        rw [lineStart_eq]
        exact dropBytes_of_eq_append sourceEq
      have upToBreak : (piece ++ tail).takeWhile (fun char => char ≠ '\n') = piece := by
        rw [takeWhile_append_of_pos]
        · rcases ends with rfl | ⟨_, rest, rfl⟩ <;> simp
        · intro char mem
          exact decide_eq_true fun isBreak => noBreak (isBreak ▸ mem)
      rw [map_some, map_some, Function.comp_apply, ofText, remaining, upToBreak]

theorem lineText_of_toNat_eq {line : UInt32} {index : Nat} (lineEq : line.toNat = index + 1) :
    (ofText source).lineText line = (pieces source)[index]? := by
  have notZero : line ≠ 0 := by
    rintro rfl
    cases lineEq
  rw [lineText_eq, if_neg notZero, lineEq, Nat.add_sub_cancel]

/-- A byte other than a break stands in the line of its offset. -/
theorem getElem?_bytes {offset : Nat} {byte : UInt8}
    (found : (bytes source)[offset]? = some byte) (noBreak : byte ≠ lineBreak) :
    ∃ piece, (pieces source)[breaksBefore source offset]? = some piece ∧
      (bytes piece)[offset - lineStart source (breaksBefore source offset)]? = some byte := by
  rw [lineStart_eq, pieces, getElem?_map]
  rw [bytes_eq_encode] at found
  have indexEq := count_take_encode source offset
  generalize breaksBefore source offset = index at indexEq ⊢
  obtain ⟨inside, startsBefore, endsAfter⟩ := line_of_offset source.toList indexEq
  have lineFound := getElem?_eq_getElem inside
  generalize (source.toList.splitOn '\n')[index] = line at lineFound
  obtain ⟨_, tail, sourceEq, ends⟩ := exists_tail lineFound
  refine ⟨String.ofList line, by rw [lineFound, map_some], ?_⟩
  rw [bytes_ofList]
  obtain ⟨column, rfl⟩ := Nat.exists_eq_add_of_le startsBefore
  rw [Nat.add_sub_cancel_left]
  have foundHere : (encode line ++ encode tail)[column]? = some byte := by
    have encodeEq := congrArg encode sourceEq
    rw [encode_append, encode_append] at encodeEq
    rwa [encodeEq, ← length_encode, getElem?_append_right (Nat.le_add_right _ _),
      Nat.add_sub_cancel_left] at found
  by_cases onLine : column < (encode line).length
  · rwa [getElem?_append_left onLine] at foundHere
  rw [getElem?_append_right (Nat.le_of_not_lt onLine)] at foundHere
  -- past the line there is its break, unless the text ends
  rcases ends with rfl | ⟨more, rest, rfl⟩
  · cases foundHere
  · have nextStarts := endsAfter more
    rw [linesBefore_succ lineFound, byteCount_append, byteCount_append, ← length_encode line]
      at nextStarts
    have atBreak : column - (encode line).length = 0 := by
      have breakSize : byteCount ['\n'] = 1 := rfl
      omega
    rw [encode_cons_newline, atBreak, getElem?_cons_zero] at foundHere
    exact absurd (Option.some.inj foundHere).symm noBreak

/-- What a line map says of a text, as long as lines and columns fit into 32 bits. -/
structure Exact (map : LineMap) (source : String) : Prop where
  /-- The line of an offset counts the breaks before it. -/
  line_eq : ∀ {offset}, breaksBefore source offset + 1 < UInt32.size →
    (map.position offset).line.toNat = breaksBefore source offset + 1
  /-- The column counts from the start of the line. -/
  column_eq : ∀ {offset},
    offset - lineStart source (breaksBefore source offset) + 1 < UInt32.size →
      lineStart source (breaksBefore source offset) + (map.position offset).column.toNat =
        offset + 1
  /-- The starts up to one place are no later than an offset, and those after it are
  later, so the place can be found by bisection. -/
  partition : ∀ {offset index start}, map.starts[index]? = some start →
    (start ≤ offset ↔ index < map.lineAt offset)
  /-- There is one line more than breaks. -/
  lineCount_eq : (bytes source).count lineBreak + 1 < UInt32.size →
    map.lineCount.toNat = (bytes source).count lineBreak + 1
  /-- The text of a line is the piece between breaks. -/
  lineText_eq : ∀ line, map.lineText line =
    if line = 0 then none else (pieces source)[line.toNat - 1]?
  /-- Exactly the lines of the text have one. -/
  lineText_isSome : (bytes source).count lineBreak + 1 < UInt32.size →
    ∀ line, (map.lineText line).isSome ↔ 1 ≤ line ∧ line ≤ map.lineCount
  /-- A byte stands at its position in its line. -/
  byte_eq : ∀ {offset byte}, breaksBefore source offset + 1 < UInt32.size →
    offset - lineStart source (breaksBefore source offset) + 1 < UInt32.size →
      (bytes source)[offset]? = some byte → byte ≠ lineBreak →
        ∃ text, map.lineText (map.position offset).line = some text ∧
          (bytes text)[(map.position offset).column.toNat - 1]? = some byte

theorem line_toNat_eq {offset : Nat} (fits : breaksBefore source offset + 1 < UInt32.size) :
    ((ofText source).position offset).line.toNat = breaksBefore source offset + 1 := by
  rw [position, lineAt_eq]
  exact UInt32.toNat_ofNat_of_lt' fits

theorem column_toNat_eq {offset : Nat}
    (fits : offset - lineStart source (breaksBefore source offset) + 1 < UInt32.size) :
    ((ofText source).position offset).column.toNat =
      offset - lineStart source (breaksBefore source offset) + 1 := by
  rw [position, startOf_lineAt]
  exact UInt32.toNat_ofNat_of_lt' fits

theorem lineCount_toNat_eq (fits : (bytes source).count lineBreak + 1 < UInt32.size) :
    (ofText source).lineCount.toNat = (bytes source).count lineBreak + 1 := by
  rw [lineCount, length_starts, length_pieces]
  exact UInt32.toNat_ofNat_of_lt' fits

/-- The line map of a text is exact. -/
theorem ofText_exact : (ofText source).Exact source where
  line_eq := line_toNat_eq source
  column_eq := by
    intro offset fits
    rw [column_toNat_eq source fits]
    have startsBefore := lineStart_le source offset
    omega
  partition := by
    intro offset index start found
    rw [lineAt_eq]
    exact start_le_iff source found
  lineCount_eq := lineCount_toNat_eq source
  lineText_eq := lineText_eq source
  lineText_isSome := by
    intro fits line
    rw [UInt32.le_iff_toNat_le, UInt32.le_iff_toNat_le, lineCount_toNat_eq source fits,
      ← length_pieces]
    cases lineEq : line.toNat with
    | zero =>
      obtain rfl : line = 0 := UInt32.toNat_inj.1 lineEq
      rw [lineText_eq]
      simp
    | succ index =>
      rw [lineText_of_toNat_eq source lineEq, Option.isSome_iff_ne_none, ne_eq,
        List.getElem?_eq_none_iff, Nat.not_le]
      exact ⟨fun inside => ⟨Nat.le_add_left 1 index, inside⟩, And.right⟩
  byte_eq := by
    intro offset byte lineFits columnFits found noBreak
    obtain ⟨piece, pieceFound, byteFound⟩ := getElem?_bytes source found noBreak
    refine ⟨piece, ?_, ?_⟩
    · rw [lineText_of_toNat_eq source (line_toNat_eq source lineFits), pieceFound]
    · rwa [column_toNat_eq source columnFits, Nat.add_sub_cancel]

end Source

/-- A text with a character of two bytes and an empty line. -/
def accented : String := "é\n\nab"

/-- The last character of the text stands in the third line. -/
theorem ofText_exact_accented :
    ((ofText accented).position 5).line.toNat = 3 ∧
      4 + ((ofText accented).position 5).column.toNat = 6 ∧
      ∃ text, (ofText accented).lineText ((ofText accented).position 5).line = some text ∧
        (bytes text)[((ofText accented).position 5).column.toNat - 1]? = some 98 := by
  have breaks : breaksBefore accented 5 = 2 := by decide +kernel
  have start : lineStart accented 2 = 4 := by decide +kernel
  have isExact := ofText_exact accented
  have lineEq := @isExact.line_eq 5
  have columnEq := @isExact.column_eq 5
  have byteEq := @isExact.byte_eq 5 98
  rw [breaks] at lineEq columnEq byteEq
  rw [start] at columnEq byteEq
  exact ⟨lineEq (by decide), columnEq (by decide),
    byteEq (by decide) (by decide) (by decide +kernel) (by decide)⟩

end LineMap
end PipeCheck
