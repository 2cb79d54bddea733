import Mathlib.Data.List.Perm.Subperm
import PipeCheck.Proofs.Store.Printing
import PipeCheck.Proofs.Reading.Recognition

/-!
# Reading what has been rendered

The text of a prenex type is a written type, and reading it gives the type back
up to the names of bound variables.  So two prenex types have the same text
exactly when they differ in the names of bound variables only.
-/

namespace PipeCheck

open List Text Written Rendering

namespace Rendering

variable {place : Nat}

/-- The letter of the variable that was met as number `place`. -/
def letter (place : Nat) : String :=
  String.singleton (Char.ofNat ('a'.toNat + place))

theorem nameAt_eq_primed (below : place < 26) :
    nameAt place = primed (letter place) :=
  if_pos below

theorem isName_letter (below : place < 26) : IsName (letter place) := by
  revert place
  decide

theorem letter_injective {other : Nat} (below : place < 26) (otherBelow : other < 26)
    (same : letter place = letter other) :
    place = other := by
  have toNat_eq : ∀ place < 26, ((letter place).toList.head?.map Char.toNat) = some (97 + place) :=
    by decide
  have codes := toNat_eq place below
  rw [same, toNat_eq other otherBelow, Option.some.injEq] at codes
  omega

end Rendering

namespace Text

variable {tokens : List String} {text : List Char}

/-- The text does not start with a name character. -/
def Stops (text : List Char) : Prop :=
  ∀ next ∈ text.head?, ¬isNameChar next

theorem stops_nil : Stops [] := by
  rintro _ ⟨⟩

theorem stops_cons {char : Char} (isMark : isNameChar char = false) :
    Stops (char :: text) := by
  rintro _ ⟨⟩
  simp [isMark]

theorem Spells.blank_cons (spells : Spells tokens text) : Spells tokens (' ' :: text) := by
  have areBlank : ∀ blank ∈ [' '], isBlank blank := forall_mem_singleton.2 (by decide)
  exact spells.blanks_append areBlank

/-- A token that is no word may be followed by anything. -/
theorem Spells.cons {token : String} (notWord : ¬IsWord token) (spells : Spells tokens text) :
    Spells (token :: tokens) (token.toList ++ text) :=
  .token (forall_mem_nil _) (fun isWord => absurd isWord notWord) spells

theorem Spells.mark (spells : Spells tokens text) (token : String) (char : Char)
    (isOne : token.toList = [char]) (isMark : isNameChar char = false) :
    Spells (token :: tokens) (char :: text) := by
  have mem : char ∈ token.toList := by simp [isOne]
  have spelled := spells.cons (Reader.not_isWord_of_mem char mem isMark)
  rwa [isOne] at spelled

end Text

section Printed

variable {text : List Char}

/-- A text spells a phrase, provided that no name character follows. -/
def Printed (phrase : Phrase) (written : Written) (text : List Char) : Prop :=
  ∃ tokens, phrase.Derives written tokens ∧ ∀ {following rest}, Spells following rest →
    Stops rest → Spells (tokens ++ following) (text ++ rest)

theorem printed_var {name : String} (isName : IsName name) :
    Printed .atom (.var name) (primed name).toList :=
  ⟨_, .var isName, fun spells _ => spells.cons (not_isWord_primed name)⟩

theorem printed_primitive (which : Primitive) :
    Printed .atom (.primitive which) (Rendering.primitive which).toList := by
  have word : ∀ {token : String}, Phrase.atom.Derives (.primitive which) [token] →
      Printed .atom (.primitive which) token.toList := by
    intro token derives
    exact ⟨_, derives, fun spells stops => .token (forall_mem_nil _) (fun _ => stops) spells⟩
  cases which with
  | unit =>
    refine ⟨_, .unit, ?_⟩
    intro following rest spells _
    exact (spells.mark ")" ')' rfl rfl).mark "(" '(' rfl rfl
  | int | num | bool | str | file => exact word (.name (by decide))
  | invalid => exact word .invalid

variable {written : Written}

theorem Printed.type (printed : Printed .atom written text) : Printed .type written text := by
  obtain ⟨tokens, derives, spells⟩ := printed
  exact ⟨tokens, .atom derives, spells⟩

theorem Printed.list (printed : Printed .type written text) :
    Printed .atom (.list written) ('[' :: (text ++ [']'])) := by
  obtain ⟨tokens, derives, spells⟩ := printed
  refine ⟨_, .list derives, ?_⟩
  intro following rest restSpells _
  have spelled := (spells (restSpells.mark "]" ']' rfl rfl)
    (stops_cons (by decide))).mark "[" '[' rfl rfl
  simpa using spelled

theorem Printed.group (printed : Printed .type written text) :
    Printed .atom written ('(' :: (text ++ [')'])) := by
  obtain ⟨tokens, derives, spells⟩ := printed
  refine ⟨_, .group derives, ?_⟩
  intro following rest restSpells _
  have spelled := (spells (restSpells.mark ")" ')' rfl rfl)
    (stops_cons (by decide))).mark "(" '(' rfl rfl
  simpa using spelled

theorem Printed.function {codomain : Written} {codomainText : List Char}
    (printed : Printed .atom written text) (codomainPrinted : Printed .type codomain codomainText) :
    Printed .type (.function written codomain) (text ++ (" -> ".toList ++ codomainText)) := by
  obtain ⟨tokens, derives, spells⟩ := printed
  obtain ⟨others, codomainDerives, codomainSpells⟩ := codomainPrinted
  refine ⟨_, .function derives codomainDerives, ?_⟩
  intro following rest restSpells stops
  have arrow : ¬IsWord "->" := Reader.not_isWord_of_mem '-' (by decide) rfl
  have spelled := spells ((codomainSpells restSpells stops).blank_cons.cons arrow).blank_cons
    (stops_cons (by decide))
  simpa using spelled

theorem printed_done : Printed .further (.tuple []) [] :=
  ⟨_, .done, fun spells _ => spells⟩

theorem Printed.next {rest : List Written} {restText : List Char}
    (printed : Printed .type written text) (restPrinted : Printed .further (.tuple rest) restText)
    (stops : ∀ {following}, Stops following → Stops (restText ++ following)) :
    Printed .further (.tuple (written :: rest)) (',' :: ' ' :: (text ++ restText)) := by
  obtain ⟨tokens, derives, spells⟩ := printed
  obtain ⟨others, restDerives, restSpells⟩ := restPrinted
  refine ⟨_, .next derives restDerives, ?_⟩
  intro following after afterSpells afterStops
  have spelled := (spells (restSpells afterSpells afterStops)
    (stops afterStops)).blank_cons.mark "," ',' rfl rfl
  simpa using spelled

theorem Printed.tuple {second : Written} {rest : List Written} {restText : List Char}
    (printed : Printed .type written text)
    (restPrinted : Printed .further (.tuple (second :: rest)) restText)
    (stops : ∀ {following}, Stops following → Stops (restText ++ following)) :
    Printed .atom (.tuple (written :: second :: rest)) ('(' :: (text ++ (restText ++ [')']))) := by
  obtain ⟨tokens, derives, spells⟩ := printed
  obtain ⟨others, restDerives, restSpells⟩ := restPrinted
  refine ⟨_, .tuple derives restDerives, ?_⟩
  intro following after afterSpells _
  have closes : Stops (')' :: after) := stops_cons (by decide)
  have spelled := (spells (restSpells (afterSpells.mark ")" ')' rfl rfl) closes)
    (stops closes)).mark "(" '(' rfl rfl
  simpa using spelled

/-- The variables of a quantifier with their commas. -/
theorem spells_listed {names following : List String} (nonempty : names ≠ [])
    (spells : Spells following text) :
    Spells (listed names ++ following)
      ((", ".intercalate (names.map primed)).toList ++ text) := by
  induction names with
  | nil => exact absurd rfl nonempty
  | cons first rest ih =>
    cases rest with
    | nil => simpa using spells.cons (not_isWord_primed first)
    | cons second rest =>
      have spelled := (((ih (by simp)).blank_cons).mark "," ',' rfl rfl).cons
        (not_isWord_primed first)
      simpa [String.intercalate_cons_cons] using spelled

theorem Printed.quantified {names : List String} (nonempty : names ≠ [])
    (areNames : ∀ name ∈ names, IsName name) (printed : Printed .type written text) :
    Printed .type (.quantified names written)
      ("forall ".toList ++ ((", ".intercalate (names.map primed)).toList ++
        (". ".toList ++ text))) := by
  obtain ⟨tokens, derives, spells⟩ := printed
  refine ⟨_, .quantified nonempty areNames derives, ?_⟩
  intro following rest restSpells stops
  have body := (spells restSpells stops).blank_cons.mark "." '.' rfl rfl
  have spelled : Spells ("forall" :: _) ([] ++ "forall".toList ++ _) :=
    .token (forall_mem_nil _) (fun _ => stops_cons (by decide))
      (spells_listed nonempty body).blank_cons
  simpa using spelled

end Printed

namespace Tree

variable {tree : Tree} {lookup : String → TypeId}

mutual

/-- The written type with names for variables. -/
def written (name : TypeId → String) : Tree → Written
  | .primitive which => .primitive which
  | .function domain codomain => .function (domain.written name) (codomain.written name)
  | .list element => .list (element.written name)
  | .tuple components => .tuple (writtenAll name components)
  | .var id => .var (name id)
  | .quantified binders body => .quantified (binders.map name) (body.written name)

/-- Several written types with names for variables. -/
def writtenAll (name : TypeId → String) : List Tree → List Written
  | [] => []
  | tree :: rest => tree.written name :: writtenAll name rest

end

@[simp] theorem writtenAll_eq_map (name : TypeId → String) (trees : List Tree) :
    writtenAll name trees = trees.map (written name) := by
  induction trees with
  | nil => rfl
  | cons tree rest ih => simp [writtenAll, ih]

variable {name : TypeId → String}

/-- The components of a tuple after the first one, each after a comma. -/
def furtherText (name : TypeId → String) (trees : List Tree) : List Char :=
  trees.flatMap fun tree => ',' :: ' ' :: (tree.print fun id => primed (name id)).toList

theorem toList_components (first : Tree) (rest : List Tree) :
    (", ".intercalate ((first :: rest).map (print fun id => primed (name id)))).toList =
      (first.print fun id => primed (name id)).toList ++ furtherText name rest := by
  induction rest generalizing first with
  | nil => simp [furtherText]
  | cons second rest ih =>
    have restEq := ih second
    rw [map_cons] at restEq
    rw [map_cons, map_cons, String.intercalate_cons_cons, String.toList_append,
      String.toList_append, restEq, append_assoc]
    rfl

theorem stops_furtherText {trees : List Tree} {following : List Char} (stops : Stops following) :
    Stops (furtherText name trees ++ following) := by
  cases trees with
  | nil => exact stops
  | cons tree rest => exact stops_cons (by decide)

theorem printed_further {trees : List Tree}
    (each : ∀ tree ∈ trees, Printed .type (tree.written name)
      (tree.print fun id => primed (name id)).toList) :
    Printed .further (.tuple (trees.map (written name))) (furtherText name trees) := by
  induction trees with
  | nil => exact printed_done
  | cons tree rest ih =>
    have restPrinted := ih (forall_mem_of_forall_mem_cons each)
    exact (each tree mem_cons_self).next restPrinted stops_furtherText

/-- The phrase as which a tree without quantifiers is printed. -/
def phrase (tree : Tree) : Phrase :=
  if tree.kind = .function then .type else .atom

@[simp] theorem phrase_function (domain codomain : Tree) :
    (function domain codomain).phrase = .type := rfl

@[simp] theorem phrase_list (element : Tree) : (list element).phrase = .atom := rfl

@[simp] theorem phrase_tuple (parts : List Tree) : (tuple parts).phrase = .atom := rfl

theorem type_of_phrase {written : Written} {text : List Char}
    (printed : Printed tree.phrase written text) :
    Printed .type written text := by
  unfold phrase at printed
  split at printed
  · exact printed
  · exact printed.type

/-- A parameter is printed as an atom, in parentheses if need be. -/
theorem printed_parameter {written : Written} {text : String} (free : tree.quantifierFree)
    (printed : Printed tree.phrase written text.toList) :
    Printed .atom written
      (if needsParentheses tree.kind then '(' :: (text.toList ++ [')'])
        else text.toList) := by
  by_cases isFunction : tree.kind = .function
  · rw [isFunction]
    exact (type_of_phrase printed).group
  · have noParentheses : needsParentheses tree.kind = false := by
      have notQuantified := kind_ne_quantified free
      revert isFunction notQuantified
      cases tree.kind <;> simp [needsParentheses]
    rw [phrase, if_neg isFunction] at printed
    rwa [noParentheses]

/-- Without quantifiers the text of a tree spells the tree. -/
theorem printed_of_quantifierFree (free : tree.quantifierFree) (wide : tree.wide)
    (areNames : ∀ id ∈ tree.occurrences, IsName (name id)) :
    Printed tree.phrase (tree.written name)
      (tree.print fun id => primed (name id)).toList := by
  induction tree, free using inductionOnFree with
  | primitive which => exact printed_primitive which
  | @function domain codomain domainFree _ domainIH codomainIH =>
    simp only [Tree.wide, Bool.and_eq_true] at wide
    simp only [occurrences, mem_append] at areNames
    have domainPrinted := printed_parameter domainFree (domainIH wide.1
      fun id mem => areNames id (.inl mem))
    have codomainPrinted := type_of_phrase (codomainIH wide.2 fun id mem => areNames id (.inr mem))
    have printed := domainPrinted.function codomainPrinted
    rw [written, print]
    split at printed
    · next parenthesised => simpa [parenthesised] using printed
    · next bare => simpa [bare] using printed
  | list element elementIH =>
    rw [written, print]
    simpa using (type_of_phrase (elementIH wide areNames)).list
  | tuple parts partIH =>
    simp only [Tree.wide, wideAll_eq_all, Bool.and_eq_true, decide_eq_true_eq, all_eq_true] at wide
    simp only [occurrences, occurrencesAll_eq_flatMap, mem_flatMap] at areNames
    have each : ∀ component ∈ parts, Printed .type (component.written name)
        (component.print fun id => primed (name id)).toList :=
      fun component mem => type_of_phrase (partIH component mem (wide.2 component mem)
        fun id occurs => areNames id ⟨component, mem, occurs⟩)
    obtain ⟨first, second, rest, rfl⟩ : ∃ first second rest,
        parts = first :: second :: rest := by
      have atLeastTwo := wide.1
      rcases parts with _ | ⟨first, _ | ⟨second, rest⟩⟩
      · simp at atLeastTwo
      · simp at atLeastTwo
      · exact ⟨first, second, rest, rfl⟩
    have printed := (each first (by simp)).tuple
      (printed_further (forall_mem_of_forall_mem_cons each)) stops_furtherText
    rw [written, writtenAll_eq_map, print, printAll_eq_map]
    rw [String.toList_append, String.toList_append, toList_components]
    simpa using printed
  | var id => exact printed_var (areNames id (by simp [occurrences]))

theorem unbound_written (free : tree.quantifierFree) :
    (tree.written name).unbound = tree.occurrences.map name := by
  induction tree, free using inductionOnFree with
  | primitive which => rfl
  | function domain codomain domainIH codomainIH =>
    simp only [written, unbound, occurrences, map_append, domainIH, codomainIH]
  | list element elementIH => exact elementIH
  | tuple parts partIH =>
    simp only [written, unbound, occurrences, writtenAll_eq_map,
      unboundAll_eq_flatMap, occurrencesAll_eq_flatMap, flatMap_map, map_flatMap]
    apply flatMap_congr
    intro component mem
    exact partIH component mem
  | var id => rfl

theorem means_tuple {parts : List Tree} {image : Tree} (each : ∀ component ∈ parts, ∀ {image},
      (component.written name).Means lookup image →
        image = component.relabel fun id => lookup (name id))
    (means : (Written.tuple (parts.map (written name))).Means lookup image) :
    image = .tuple (parts.map (relabel fun id => lookup (name id))) := by
  induction parts generalizing image with
  | nil =>
    cases means
    rfl
  | cons first rest ih =>
    cases means with
    | component firstMeans restMeans =>
      have restEq := ih (forall_mem_of_forall_mem_cons each) restMeans
      rw [tuple.injEq] at restEq
      rw [map_cons, each first mem_cons_self firstMeans, restEq]

/-- Without quantifiers a written tree means itself, with other variables. -/
theorem eq_relabel_of_means {image : Tree} (free : tree.quantifierFree)
    (means : (tree.written name).Means lookup image) :
    image = tree.relabel fun id => lookup (name id) := by
  induction tree, free using inductionOnFree generalizing image with
  | primitive which =>
    cases means
    rfl
  | function domain codomain domainIH codomainIH =>
    cases means with
    | function domainMeans codomainMeans =>
      rw [domainIH domainMeans, codomainIH codomainMeans, relabel]
  | list element elementIH =>
    cases means with
    | list elementMeans => rw [elementIH elementMeans, relabel]
  | tuple parts partIH =>
    rw [written, writtenAll_eq_map] at means
    rw [relabel, relabelAll_eq_map]
    exact means_tuple (fun component mem _ =>
      partIH component mem) means
  | var id =>
    cases means
    rfl

/-- The variables of a quantifier are what their names stand for under it. -/
theorem map_bind_eq {binders ids : List TypeId} (lengthEq : ids.length = binders.length)
    (nodup : (binders.map name).Nodup) :
    (binders.map fun id => Written.bind (binders.map name) ids lookup (name id)) = ids := by
  refine ext_getElem (by simp [lengthEq]) ?_
  intro place inside otherInside
  have keysNodup : (((binders.map name).zip ids).reverse.map Prod.fst).Nodup := by
    rw [map_reverse, map_fst_zip (by simp [lengthEq])]
    exact nodup_reverse.2 nodup
  have bindersInside : place < binders.length := lengthEq ▸ otherInside
  have mem : (name binders[place], ids[place]) ∈ ((binders.map name).zip ids).reverse := by
    rw [mem_reverse, mem_iff_getElem]
    exact ⟨place, by simp [lengthEq, bindersInside], by simp⟩
  rw [getElem_map, Written.bind, Cursor.lookup_of_mem keysNodup mem, Option.getD_some]

section Prenex

variable {tree image : Tree} {lookup : String → TypeId} (prenex : tree.Prenex)

include prenex

theorem Prenex.unbound_written : (tree.written name).unbound = [] := by
  have bodyUnbound : (tree.body.written name).unbound = tree.body.occurrences.map name :=
    Tree.unbound_written prenex.quantifierFree
  have listed : ∀ id ∈ tree.body.occurrences, id ∈ tree.binders := fun id =>
    prenex.closed.mem_binders
  by_cases isQuantified : tree.kind = .quantified
  · cases tree <;> cases isQuantified
    next binders body =>
      simp only [Tree.body, Tree.binders] at bodyUnbound listed
      simp only [written, unbound, bodyUnbound, filter_eq_nil_iff, mem_map]
      rintro _ ⟨id, occurs, rfl⟩
      simpa using ⟨id, listed id occurs, rfl⟩
  · rw [body_of_kind_ne isQuantified] at bodyUnbound
    rw [bodyUnbound, prenex.closed, map_nil]

/-- A written prenex tree means the tree with other labels. -/
theorem Prenex.exists_label (injective : Set.InjOn name {id | id ∈ tree.binders})
    (means : (tree.written name).Means lookup image) :
    ∃ label, Set.InjOn label {id | id ∈ tree.binders} ∧ image = tree.relabel label := by
  by_cases isQuantified : tree.kind = .quantified
  · cases tree <;> cases isQuantified
    next binders body =>
      cases means with
      | @quantified _ _ ids _ inner lengthEq nodup _ bodyMeans =>
        rw [length_map] at lengthEq
        have namesNodup : (binders.map name).Nodup := prenex.nodup.map_on
          fun first firstListed second secondListed same =>
            injective firstListed secondListed same
        have idsEq : (binders.map fun id =>
            bind (binders.map name) ids lookup (name id)) = ids :=
          map_bind_eq lengthEq namesNodup
        refine ⟨fun id => bind (binders.map name) ids lookup (name id), ?_, ?_⟩
        · intro first firstListed second secondListed same
          rw [← idsEq] at nodup
          exact inj_on_of_nodup_map nodup firstListed secondListed same
        · rw [Tree.relabel, idsEq, eq_relabel_of_means prenex.quantifierFree bodyMeans]
          rfl
  · have free := prenex.quantifierFree
    rw [body_of_kind_ne isQuantified] at free
    refine ⟨_, ?_, eq_relabel_of_means free means⟩
    intro first firstListed
    simp [binders_of_quantifierFree free] at firstListed

/-- Up to labels a prenex tree is what its written form denotes. -/
theorem Prenex.alphaEq_of_denotes (injective : Set.InjOn name {id | id ∈ tree.binders})
    (denotes : (tree.written name).Denotes image) :
    image.AlphaEq tree := by
  obtain ⟨lookup, inner, means, _, imageEq⟩ := denotes
  obtain ⟨label, labelInjective, rfl⟩ := prenex.exists_label injective means
  rw [prenex.unbound_written] at imageEq
  rw [imageEq]
  exact prenex.alphaEq_relabel labelInjective

theorem Prenex.mem_meetingOrder {id : TypeId} : id ∈ tree.meetingOrder ↔ id ∈ tree.binders := by
  rw [meetingOrder, mem_foldl_addNew, mem_append]
  constructor
  · rintro (none | occurs | listed)
    · cases none
    · exact prenex.closed.mem_binders occurs
    · exact listed
  · exact fun listed => .inr (.inr listed)

/-- There are enough letters. -/
theorem Prenex.idxOf_lt {id : TypeId} (listed : id ∈ tree.binders) :
    tree.meetingOrder.idxOf id < 26 := by
  have nodup : tree.meetingOrder.Nodup := nodup_foldl_addNew nodup_nil
  have shorter := (nodup.subperm fun _ => prenex.mem_meetingOrder.1).length_le
  have inside := idxOf_lt_length_of_mem (prenex.mem_meetingOrder.2 listed)
  have few := prenex.length_le
  omega

end Prenex

/-- The name of a variable without its apostrophe. -/
def letterOf (tree : Tree) (id : TypeId) : String :=
  letter (tree.meetingOrder.idxOf id)

section Rendered

variable {tree : Tree} (prenex : tree.Prenex)

include prenex

theorem Prenex.letterOf_injOn : Set.InjOn tree.letterOf {id | id ∈ tree.binders} := by
  intro first firstListed second secondListed same
  have places := letter_injective (prenex.idxOf_lt firstListed) (prenex.idxOf_lt secondListed) same
  exact (idxOf_inj (prenex.mem_meetingOrder.2 firstListed)).1 places

/-- The text of a prenex tree is a written type. -/
theorem Prenex.isText_render : (tree.written tree.letterOf).IsText tree.render := by
  have areNames : ∀ id ∈ tree.binders, IsName (tree.letterOf id) := fun id listed =>
    isName_letter (prenex.idxOf_lt listed)
  have bodyPrinted := type_of_phrase (printed_of_quantifierFree prenex.quantifierFree prenex.wide
    fun id occurs => areNames id (prenex.closed.mem_binders occurs))
  have textEq : tree.render = tree.print fun id => primed (tree.letterOf id) := by
    rw [prenex.render_eq_print]
    exact prenex.print_congr fun id listed =>
      nameAt_eq_primed (prenex.idxOf_lt listed)
  have printed : Printed .type (tree.written tree.letterOf)
      (tree.print fun id => primed (tree.letterOf id)).toList := by
    by_cases isQuantified : tree.kind = .quantified
    · cases tree <;> cases isQuantified
      next binders body =>
        have nonempty : binders.map (quantified binders body).letterOf ≠ [] := by
          simpa [Tree.binders] using prenex.nonempty rfl
        have quantifiedPrinted := bodyPrinted.quantified nonempty (forall_mem_map.2 areNames)
        rw [written, print, String.toList_append, String.toList_append, String.toList_append,
          append_assoc, append_assoc]
        rwa [map_map] at quantifiedPrinted
    · rwa [body_of_kind_ne isQuantified] at bodyPrinted
  obtain ⟨tokens, derives, spells⟩ := printed
  refine ⟨tokens, derives, ?_⟩
  have spelled := spells (.done (forall_mem_nil _)) stops_nil
  rwa [append_nil, append_nil, ← textEq] at spelled

end Rendered

end Tree
namespace Store

variable {store other target : Store} {id otherId : TypeId}

/-- The text of a prenex type is read as the type, up to the names of bound
variables. -/
theorem succeeds_read_render (wf : store.WellFormed) (targetWf : target.WellFormed)
    (prenex : (store.tree id).Prenex) :
    Succeeds (Alloc.read (store.render id)) target fun result last =>
      (last.tree result).AlphaEq (store.tree id) := by
  rw [wf.render_eq]
  refine (Alloc.succeeds_read targetWf prenex.isText_render).mono ?_
  intro result last denotes
  exact prenex.alphaEq_of_denotes prenex.letterOf_injOn denotes

/-- Reading in any store undoes rendering on prenex types, and their texts are
the same exactly if they differ in the names of bound variables only. -/
theorem read_render_alphaEq (wellFormed : store.WellFormed) (otherWellFormed : other.WellFormed)
    (targetWellFormed : target.WellFormed) (prenex : (store.tree id).Prenex)
    (otherPrenex : (other.tree otherId).Prenex) :
    (Succeeds (Alloc.read (store.render id)) target fun result last =>
      (last.tree result).AlphaEq (store.tree id)) ∧
      (store.render id = other.render otherId ↔
        (store.tree id).AlphaEq (other.tree otherId)) := by
  refine ⟨succeeds_read_render wellFormed targetWellFormed prenex, ?_, ?_⟩
  · intro sameText
    obtain ⟨result, ok, same⟩ := succeeds_read_render wellFormed wellFormed_empty prenex
    have read := succeeds_read_render otherWellFormed wellFormed_empty otherPrenex
    rw [← sameText] at read
    obtain ⟨otherResult, otherOk, otherSame⟩ := read
    cases ok.symm.trans otherOk
    exact same.symm.trans otherSame
  · intro same
    rw [wellFormed.render_eq, otherWellFormed.render_eq]
    exact prenex.render_eq_of_alphaEq otherPrenex same

/-- A quantifier that lists an unused variable, and the others in another order
than they appear. -/
def swapped : Store :=
  ((Alloc.read "forall 'b, 'a, 'c. ('a, ['b]) -> ('b -> 'a) -> Int").run.run empty).2

/-- The same type after it, under other names. -/
def renamed : Store :=
  ((Alloc.read "forall 'x, 'y, 'z. ('y, ['x]) -> ('x -> 'y) -> Int").run.run swapped).2

theorem read_render_renamed :
    swapped.WellFormed ∧ renamed.WellFormed ∧ (swapped.tree 9).Prenex ∧ (renamed.tree 18).Prenex ∧
      swapped.tree 9 ≠ renamed.tree 18 ∧ swapped.render 9 = renamed.render 18 ∧
      (Succeeds (Alloc.read (swapped.render 9)) renamed fun result last =>
        (last.tree result).AlphaEq (swapped.tree 9)) ∧
      (swapped.render 9 = renamed.render 18 ↔ (swapped.tree 9).AlphaEq (renamed.tree 18)) := by
  have wellFormed : swapped.WellFormed := by decide +kernel
  have renamedWellFormed : renamed.WellFormed := by decide +kernel
  have prenex : (swapped.tree 9).Prenex := by decide +kernel
  have renamedPrenex : (renamed.tree 18).Prenex := by decide +kernel
  exact ⟨wellFormed, renamedWellFormed, prenex, renamedPrenex, by decide +kernel, by decide +kernel,
    read_render_alphaEq wellFormed renamedWellFormed renamedWellFormed prenex renamedPrenex⟩

end Store
end PipeCheck
