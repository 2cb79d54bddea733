import Mathlib.Data.List.Nodup
import Mathlib.Data.Option.Defs
import PipeCheck.Json.Fields

/-!
# The fields of a record

A record is an object or an array, and its fields are looked up by name.  A field
is nested less deeply than its record.  Writing a field that was absent, or
another value for one that is there, changes what is found under its name and
nothing else; a record that had no fields to read still has none.
-/

namespace PipeCheck

open List Option

namespace Json

variable {value json : Json} {names : List String} {key : String}
  {fields left right : List (String × Json)}

/-! ## Depth -/

theorem depth_le_itemsDepth {item : Json} {items : List Json} (member : item ∈ items) :
    item.depth ≤ itemsDepth items := by
  induction items with
  | nil => cases member
  | cons first rest ih =>
    rw [itemsDepth]
    rcases mem_cons.1 member with rfl | later
    · exact Nat.le_max_left _ _
    · exact Nat.le_trans (ih later) (Nat.le_max_right _ _)

theorem depth_le_membersDepth {key : Option String} {members : List (Option String × Json)}
    (member : (key, value) ∈ members) :
    value.depth ≤ membersDepth members := by
  induction members with
  | nil => cases member
  | cons first rest ih =>
    obtain ⟨firstKey, firstValue⟩ := first
    rw [membersDepth]
    rcases mem_cons.1 member with isFirst | later
    · cases isFirst
      exact Nat.le_max_left _ _
    · exact Nat.le_trans (ih later) (Nat.le_max_right _ _)

theorem mem_of_mem_knownMembers? {members : List (Option String × Json)}
    {known : List (String × Json)} (reads : knownMembers? names members = some known)
    (member : (key, value) ∈ known) :
    (some key, value) ∈ members := by
  fun_induction knownMembers? names members generalizing known with
  | case1 =>
    cases reads
    cases member
  | case2 => cases reads
  | case3 firstKey firstValue rest ih =>
    obtain ⟨later, readsLater, rfl⟩ := map_eq_some_iff.1 reads
    split at member
    · rcases mem_cons.1 member with isFirst | isLater
      · cases isFirst
        exact mem_cons_self
      · exact mem_cons_of_mem _ (ih readsLater isLater)
    · exact mem_cons_of_mem _ (ih readsLater member)

theorem mem_of_lookup_eq_some (found : fields.lookup key = some value) : (key, value) ∈ fields := by
  obtain ⟨before, after, rfl, -⟩ := lookup_eq_some_iff.1 found
  exact mem_append_right _ mem_cons_self

/-- A field is nested less deeply than its record. -/
theorem depth_lt_of_lookup {least : Nat} (reads : json.fields? names least = some fields)
    (found : fields.lookup key = some value) :
    value.depth < json.depth := by
  have member := mem_of_lookup_eq_some found
  unfold fields? at reads
  split at reads
  · next items =>
    split at reads
    · cases reads
      exact Nat.lt_succ_of_le (depth_le_itemsDepth (of_mem_zip member).2)
    · cases reads
  · next members =>
    obtain ⟨known, readsKnown, distinct⟩ := bind_eq_some_iff.1 reads
    split at distinct
    · cases distinct
      exact Nat.lt_succ_of_le (depth_le_membersDepth (mem_of_mem_knownMembers? readsKnown member))
    · cases distinct
  · cases reads

/-- A value that nests nothing is not a record. -/
theorem fields?_eq_none_of_depth (flat : json.depth = 0) (names : List String) (least : Nat) :
    json.fields? names least = none := by
  cases json with
  | array items => cases flat
  | object members => cases flat
  | _ => rfl

theorem items?_eq_none_of_depth (flat : json.depth = 0) : json.items? = none := by
  cases json with
  | array items => cases flat
  | _ => rfl

theorem depth_lt_of_mem_items? {item : Json} {items : List Json}
    (isArray : json.items? = some items) (member : item ∈ items) : item.depth < json.depth := by
  cases json with
  | array others =>
    cases isArray
    exact Nat.lt_succ_of_le (depth_le_itemsDepth member)
  | _ => cases isArray

/-! ## Changing one field -/

/-- Two lists of fields that differ at most in what is found under one name. -/
structure FieldChange (key : String) (old new : Option Json)
    (fields changed : List (String × Json)) : Prop where
  /-- What was found under the name. -/
  lookup_old : fields.lookup key = old
  /-- What is found there now. -/
  lookup_new : changed.lookup key = new
  /-- Other names are left alone. -/
  lookup_of_ne : ∀ name, name ≠ key → changed.lookup name = fields.lookup name

namespace FieldChange

variable {key : String} {old new : Option Json} {fields changed : List (String × Json)} {α : Type}

theorem required?_of_ne (change : FieldChange key old new fields changed) {name : String}
    (differs : name ≠ key) (decode : Json → Option α) :
    required? fields name decode = required? changed name decode := by
  rw [required?, required?, change.lookup_of_ne name differs]

theorem defaulted?_of_ne (change : FieldChange key old new fields changed) {name : String}
    (differs : name ≠ key) (absent : α) (decode : Json → Option α) :
    defaulted? fields name absent decode = defaulted? changed name absent decode := by
  rw [defaulted?, defaulted?, change.lookup_of_ne name differs]

/-- Writing a default out reads the same as leaving the field out. -/
theorem defaulted?_eq {value : Json} (change : FieldChange key none (some value) fields changed)
    {absent : α} {decode : Json → Option α} (isDefault : decode value = some absent) :
    defaulted? fields key absent decode = defaulted? changed key absent decode := by
  rw [defaulted?, defaulted?, change.lookup_old, change.lookup_new]
  exact isDefault.symm

/-- A value that reads like another can stand in its place. -/
theorem required?_eq {short long : Json}
    (change : FieldChange key (some short) (some long) fields changed)
    {decode : Json → Option α} (same : decode short = decode long) :
    required? fields key decode = required? changed key decode := by
  rw [required?, required?, change.lookup_old, change.lookup_new]
  exact same

end FieldChange

theorem bind_eq_of_rel {α β : Type} {Related : α → α → Prop} {left right : Option α}
    (related : Option.Rel Related left right) {next other : α → Option β}
    (same : ∀ first second, Related first second → next first = other second) :
    left.bind next = right.bind other := by
  cases related with
  | none => rfl
  | some isRelated => exact same _ _ isRelated

theorem lookup_eq_none_iff_notMem :
    fields.lookup key = none ↔ key ∉ fields.map Prod.fst := by
  rw [lookup_eq_none_iff]
  constructor
  · intro differs member
    obtain ⟨field, fieldMem, rfl⟩ := List.mem_map.1 member
    simpa using differs field fieldMem
  · intro missing field member
    rw [bne_iff_ne]
    rintro rfl
    exact missing (List.mem_map_of_mem member)

theorem keysDistinct_iff :
    keysDistinct fields ↔ (fields.map Prod.fst).Nodup := by
  induction fields with
  | nil => simp [keysDistinct]
  | cons field rest ih =>
    rw [keysDistinct, Bool.and_eq_true, isNone_iff_eq_none, lookup_eq_none_iff_notMem,
      ih, map_cons, nodup_cons]

theorem lookup_middle_of_ne {name : String} (differs : name ≠ key) (value : Json) :
    (left ++ (key, value) :: right).lookup name = (left ++ right).lookup name := by
  rw [lookup_append, lookup_append, lookup_cons, beq_false_of_ne differs]

theorem lookup_middle (missing : key ∉ left.map Prod.fst) (value : Json) :
    (left ++ (key, value) :: right).lookup key = some value := by
  rw [lookup_append, lookup_eq_none_iff_notMem.2 missing, none_or, lookup_cons_self]

theorem fieldChange_insert (missing : key ∉ (left ++ right).map Prod.fst) (value : Json) :
    FieldChange key none (some value) (left ++ right) (left ++ (key, value) :: right) where
  lookup_old := lookup_eq_none_iff_notMem.2 missing
  lookup_new := lookup_middle (fun member => missing (by simp_all)) value
  lookup_of_ne _ differs := lookup_middle_of_ne differs value

theorem fieldChange_replace (missing : key ∉ left.map Prod.fst) (old new : Json) :
    FieldChange key (some old) (some new) (left ++ (key, old) :: right)
      (left ++ (key, new) :: right) where
  lookup_old := lookup_middle missing old
  lookup_new := lookup_middle missing new
  lookup_of_ne _ differs := (lookup_middle_of_ne differs new).trans
    (lookup_middle_of_ne differs old).symm

theorem knownMembers?_append (names : List String) (left right : List (Option String × Json)) :
    knownMembers? names (left ++ right) =
      (knownMembers? names left).bind fun known =>
        (knownMembers? names right).map fun later => known ++ later := by
  induction left with
  | nil => simp [knownMembers?]
  | cons member rest ih =>
    obtain ⟨_ | key, value⟩ := member
    · rfl
    · rw [cons_append, knownMembers?, ih, knownMembers?]
      cases knownMembers? names rest with
      | none => rfl
      | some known =>
        cases knownMembers? names right with
        | none => rfl
        | some later =>
          simp only [bind_some, map_some]
          split <;> rfl

/-- Where a value is put into an object, it is among the known members if its key
is known. -/
theorem knownMembers?_middle (known : key ∈ names) (left right : List (Option String × Json))
    (value : Json) :
    knownMembers? names (left ++ (some key, value) :: right) =
      (knownMembers? names left).bind fun earlier =>
        (knownMembers? names right).map fun later => earlier ++ (key, value) :: later := by
  have isKnown : names.contains key := contains_iff_mem.2 known
  rw [knownMembers?_append, knownMembers?]
  cases knownMembers? names right with
  | none => rfl
  | some later => simp only [map_some, if_pos isKnown]

/-- An object with a field that it did not have. -/
theorem fields?_insert (known : key ∈ names) (least : Nat)
    {left right : List (Option String × Json)}
    (absent : ∀ member ∈ left ++ right, member.1 ≠ some key) (value : Json) :
    Option.Rel (FieldChange key none (some value))
      ((Json.object (left ++ right)).fields? names least)
      ((Json.object (left ++ (some key, value) :: right)).fields? names least) := by
  unfold fields?
  dsimp only
  rw [knownMembers?_append, knownMembers?_middle known]
  cases readsLeft : knownMembers? names left with
  | none => exact .none
  | some earlier =>
    cases readsRight : knownMembers? names right with
    | none => exact .none
    | some later =>
      have missing : key ∉ (earlier ++ later).map Prod.fst := by
        intro member
        obtain ⟨⟨fieldKey, fieldValue⟩, fieldMem, rfl⟩ := List.mem_map.1 member
        rcases mem_append.1 fieldMem with isEarlier | isLater
        · exact absent _ (mem_append_left _ (mem_of_mem_knownMembers? readsLeft isEarlier)) rfl
        · exact absent _ (mem_append_right _ (mem_of_mem_knownMembers? readsRight isLater)) rfl
      have sameVerdict : keysDistinct (earlier ++ (key, value) :: later) ↔
          keysDistinct (earlier ++ later) := by
        rw [keysDistinct_iff, keysDistinct_iff, map_append, map_cons,
          nodup_middle, nodup_cons, ← map_append]
        exact and_iff_right missing
      simp only [bind_some, map_some, sameVerdict]
      split
      · exact .some (fieldChange_insert missing value)
      · exact .none

/-- A record with the named fields that is open at one of them. -/
inductive Slot (names : List String) (key : String) : (Json → Json) → Prop where
  | member (left right : List (Option String × Json)) :
      Slot names key fun value => .object (left ++ (some key, value) :: right)
  | item (left right : List Json) (place : names[left.length]? = some key) :
      Slot names key fun value => .array (left ++ value :: right)

/-- A record with another value for one of its fields. -/
theorem Slot.fields? {context : Json → Json} (slot : Slot names key context) (known : key ∈ names)
    (distinct : names.Nodup) (least : Nat) (old new : Json) :
    Option.Rel (FieldChange key (some old) (some new)) ((context old).fields? names least)
      ((context new).fields? names least) := by
  cases slot with
  | member left right =>
    unfold Json.fields?
    dsimp only
    rw [knownMembers?_middle known, knownMembers?_middle known]
    cases knownMembers? names left with
    | none => exact .none
    | some earlier =>
      cases knownMembers? names right with
      | none => exact .none
      | some later =>
        have sameVerdict : keysDistinct (earlier ++ (key, new) :: later) ↔
            keysDistinct (earlier ++ (key, old) :: later) := by
          simp [keysDistinct_iff]
        simp only [bind_some, map_some, sameVerdict]
        split
        · next isDistinct =>
          rw [keysDistinct_iff, map_append, map_cons, nodup_middle, nodup_cons] at isDistinct
          exact .some (fieldChange_replace
            (fun member => isDistinct.1 (mem_append_left _ member)) old new)
        · exact .none
  | item left right place =>
    obtain ⟨inside, isKey⟩ := List.getElem?_eq_some_iff.1 place
    have namesEq : names = names.take left.length ++ key :: names.drop (left.length + 1) := by
      rw [← isKey, getElem_cons_drop, take_append_drop]
    have missing : key ∉ names.take left.length := by
      rw [namesEq, nodup_middle, nodup_cons, mem_append, not_or] at distinct
      exact distinct.1.1
    have zipped (value : Json) : names.zip (left ++ value :: right) =
        (names.take left.length).zip left ++
          (key, value) :: (names.drop (left.length + 1)).zip right := by
      conv_lhs => rw [namesEq]
      rw [zip_append (by simp; omega), zip_cons_cons]
    unfold Json.fields?
    dsimp only
    rw [zipped, zipped, length_append, length_append, length_cons, length_cons]
    split
    · refine .some (fieldChange_replace (fun member => missing ?_) old new)
      obtain ⟨field, fieldMem, rfl⟩ := List.mem_map.1 member
      exact (of_mem_zip fieldMem).1
    · exact .none

end Json
end PipeCheck
