import Mathlib.Logic.Relator
import PipeCheck.Proofs.Store.Allocation
import PipeCheck.Proofs.Store.Comparison
import PipeCheck.Proofs.Store.Parallel
import PipeCheck.Types.Free

/-!
# Stores that look alike

Types of two stores are twins when their shapes agree and their components are
twins.  No type has two twins.  What is read off a type is then the same for its
twin: its kind, its free variables, its text, and how it compares with others.
-/

namespace PipeCheck

open List

namespace Twins

variable {twins further : Twins}

/-- Twins below two heights. -/
def below (twins : Twins) (height otherHeight : Nat) : Twins :=
  fun first second => twins first second ∧ first < height ∧ second < otherHeight

/-- Pairs of twins at both places. -/
def Pairs (twins others : Twins) (first second : TypeId × TypeId) : Prop :=
  twins first.1 second.1 ∧ others first.2 second.2

/-- One more pair of types that stand for each other. -/
def add (twins : Twins) (new other : TypeId) : Twins :=
  fun first second => twins first second ∨ first = new ∧ second = other

theorem le_add (twins : Twins) (new other : TypeId) : twins ≤ twins.add new other :=
  fun _ _ => .inl

theorem add_new (twins : Twins) (new other : TypeId) : twins.add new other new other :=
  .inr ⟨rfl, rfl⟩

/-- A pair of types without twins leaves twins unique. -/
theorem add_unique (unique : Relator.BiUnique twins) {new other : TypeId}
    (single : ∀ {second}, ¬twins new second) (otherSingle : ∀ {first}, ¬twins first other) :
    Relator.BiUnique (twins.add new other) := by
  constructor
  · rintro first second third (twin | ⟨rfl, rfl⟩) (otherTwin | ⟨rfl, isOther⟩)
    · exact unique.1 twin otherTwin
    · exact absurd (isOther ▸ twin) otherSingle
    · exact absurd otherTwin otherSingle
    · rfl
  · rintro first second third (twin | ⟨rfl, rfl⟩) (otherTwin | ⟨isNew, rfl⟩)
    · exact unique.2 twin otherTwin
    · exact absurd (isNew ▸ twin) single
    · exact absurd otherTwin single
    · rfl

theorem below_le (twins : Twins) (height otherHeight : Nat) :
    twins.below height otherHeight ≤ twins :=
  fun _ _ twin => twin.1

theorem below_self {first second : TypeId} (twin : twins first second) :
    twins.below (first + 1) (second + 1) first second :=
  ⟨twin, Nat.lt_succ_self first, Nat.lt_succ_self second⟩

theorem below.exists_succ {height otherHeight : Nat} {first second : TypeId}
    (twin : twins.below height otherHeight first second) :
    ∃ lower, otherHeight = lower + 1 :=
  Nat.exists_eq_add_one.2 (Nat.zero_lt_of_lt twin.2.2)

/-- Each of the first types is its own twin. -/
def shared (size : Nat) : Twins :=
  fun first second => first = second ∧ first < size

theorem shared_unique (size : Nat) : Relator.BiUnique (shared size) :=
  ⟨fun _ _ _ twin other => twin.1.trans other.1.symm,
    fun _ _ _ twin other => twin.1.symm.trans other.1⟩

end Twins

section Lists

variable {Item Other : Type} {relation : Item → Other → Prop}

theorem forall₂_mono {weaker : Item → Other → Prop} (weaken : relation ≤ weaker)
    {items : List Item} {others : List Other} (all : Forall₂ relation items others) :
    Forall₂ weaker items others :=
  all.imp weaken

variable {twins : Twins}

section

variable (unique : Relator.BiUnique twins)

include unique

theorem eq_iff_of_twins {first second other image : TypeId} (twin : twins first second)
    (otherTwin : twins other image) :
    first = other ↔ second = image := by
  constructor
  · rintro rfl
    exact unique.2 twin otherTwin
  · rintro rfl
    exact unique.1 twin otherTwin

theorem lists_eq_iff {first second others images : List TypeId}
    (listed : Forall₂ twins first second) (othersListed : Forall₂ twins others images) :
    first = others ↔ second = images := by
  constructor
  · rintro rfl
    exact unique.forall₂.2 listed othersListed
  · rintro rfl
    exact unique.forall₂.1 listed othersListed

theorem contains_eq {first second : TypeId} (twin : twins first second)
    {items others : List TypeId} (listed : Forall₂ twins items others) :
    items.contains first = others.contains second := by
  rw [Bool.eq_iff_iff, contains_iff_mem, contains_iff_mem]
  exact rel_mem unique twin listed

theorem idxOf_eq {first second : TypeId} (twin : twins first second) {items others : List TypeId}
    (listed : Forall₂ twins items others) :
    items.idxOf first = others.idxOf second := by
  induction listed with
  | nil => rfl
  | cons head _ ih =>
    have same := eq_iff_of_twins unique head twin
    rw [idxOf_cons, idxOf_cons, ih, Bool.beq_eq_decide_eq,
      Bool.beq_eq_decide_eq, decide_eq_decide.2 same]

end

theorem forall₂_pairs {otherTwins : Twins} {first second others images : List TypeId}
    (listed : Forall₂ twins first second) (othersListed : Forall₂ otherTwins others images) :
    Forall₂ (twins.Pairs otherTwins) (first.zip others) (second.zip images) := by
  induction listed generalizing others images with
  | nil => exact .nil
  | cons head _ ih =>
    cases othersListed with
    | nil => exact .nil
    | cons otherHead rest => exact .cons ⟨head, otherHead⟩ (ih rest)

theorem all_eq_all {items : List Item} {others : List Other} {holds : Item → Bool}
    {holdsOther : Other → Bool} (all : Forall₂ relation items others)
    (same : ∀ item other, relation item other → holds item = holdsOther other) :
    items.all holds = others.all holdsOther := by
  induction all with
  | nil => rfl
  | cons head _ ih =>
    rw [all_cons, all_cons, same _ _ head, ih]

theorem allM_eq_allM {Failure : Type} {items : List Item} {others : List Other}
    {check : Item → Except Failure Bool} {checkOther : Other → Except Failure Bool}
    (all : Forall₂ relation items others)
    (same : ∀ item other, relation item other → check item = checkOther other) :
    items.allM check = others.allM checkOther := by
  induction all with
  | nil => rfl
  | cons head _ ih =>
    rw [allM, allM, same _ _ head, ih]

end Lists

namespace Shape

/-- Shapes of one kind whose components are twins.  Variables may have different
numbers. -/
inductive Alike (twins : Twins) : Shape → Shape → Prop
  | primitive (which : Primitive) : Alike twins (.primitive which) (.primitive which)
  | function {domain codomain otherDomain otherCodomain : TypeId} :
      twins domain otherDomain → twins codomain otherCodomain →
      Alike twins (.function domain codomain) (.function otherDomain otherCodomain)
  | list {element otherElement : TypeId} :
      twins element otherElement → Alike twins (.list element) (.list otherElement)
  | tuple {components otherComponents : List TypeId} :
      Forall₂ twins components otherComponents →
      Alike twins (.tuple components) (.tuple otherComponents)
  | var (number otherNumber : Nat) : Alike twins (.var number) (.var otherNumber)
  | quantified {binders otherBinders : List TypeId} {body otherBody : TypeId} :
      Forall₂ twins binders otherBinders → twins body otherBody →
      Alike twins (.quantified binders body) (.quantified otherBinders otherBody)

variable {twins further : Twins} {shape other : Shape}

theorem Alike.mono (alike : shape.Alike twins other) (grown : twins ≤ further) :
    shape.Alike further other := by
  cases alike with
  | primitive which => exact .primitive which
  | function domains codomains => exact .function (grown _ _ domains) (grown _ _ codomains)
  | list elements => exact .list (grown _ _ elements)
  | tuple parts => exact .tuple (forall₂_mono grown parts)
  | var number otherNumber => exact .var number otherNumber
  | quantified binders bodies =>
    exact .quantified (forall₂_mono grown binders) (grown _ _ bodies)

theorem alike_self (shared : ∀ reference ∈ shape.references, twins reference reference) :
    shape.Alike twins shape := by
  cases shape with
  | primitive which => exact .primitive which
  | function domain codomain =>
    exact .function (shared _ (by simp [references])) (shared _ (by simp [references]))
  | list element => exact .list (shared _ (by simp [references]))
  | tuple parts => exact .tuple (forall₂_same.2 shared)
  | var number => exact .var number number
  | quantified binders body =>
    exact .quantified (forall₂_same.2 fun binder mem => shared _ (by simp [references, mem]))
      (shared _ (by simp [references]))

section

variable (alike : shape.Alike twins other)

include alike

theorem Alike.kind_eq : shape.kind = other.kind := by
  cases alike <;> rfl

theorem Alike.references :
    Forall₂ twins shape.references other.references := by
  cases alike with
  | primitive which => exact .nil
  | function domains codomains => exact .cons domains (.cons codomains .nil)
  | list elements => exact .cons elements .nil
  | tuple parts => exact parts
  | var number otherNumber => exact .nil
  | quantified binders bodies => exact rel_append binders (.cons bodies .nil)

/-- Twins that are moreover below two heights if all references are. -/
theorem Alike.below {height otherHeight : Nat}
    (small : ∀ reference ∈ shape.references, reference < height)
    (otherSmall : ∀ reference ∈ other.references, reference < otherHeight) :
    shape.Alike (twins.below height otherHeight) other := by
  have bounded : ∀ {items others : List TypeId}, Forall₂ twins items others →
      (∀ item ∈ items, item < height) → (∀ item ∈ others, item < otherHeight) →
      Forall₂ (twins.below height otherHeight) items others := by
    intro items others listed itemsSmall othersSmall
    refine forall₂_iff_zip.2 ⟨listed.length_eq, ?_⟩
    intro item other mem
    have members := of_mem_zip mem
    exact ⟨forall₂_zip listed mem, itemsSmall _ members.1, othersSmall _ members.2⟩
  cases alike with
  | primitive which => exact .primitive which
  | function domains codomains =>
    exact .function
      ⟨domains, small _ (by simp [Shape.references]), otherSmall _ (by simp [Shape.references])⟩
      ⟨codomains, small _ (by simp [Shape.references]), otherSmall _ (by simp [Shape.references])⟩
  | list elements =>
    exact .list
      ⟨elements, small _ (by simp [Shape.references]), otherSmall _ (by simp [Shape.references])⟩
  | tuple parts => exact .tuple (bounded parts small otherSmall)
  | var number otherNumber => exact .var number otherNumber
  | quantified binders bodies =>
    simp only [Shape.references, mem_append, mem_singleton] at small otherSmall
    exact .quantified (bounded binders (fun item mem => small item (.inl mem))
      fun item mem => otherSmall item (.inl mem))
      ⟨bodies, small _ (.inr rfl), otherSmall _ (.inr rfl)⟩

theorem Alike.flip : other.Alike (flip twins) shape := by
  cases alike with
  | primitive which => exact .primitive which
  | function domains codomains => exact .function domains codomains
  | list elements => exact .list elements
  | tuple parts => exact .tuple parts.flip
  | var number otherNumber => exact .var otherNumber number
  | quantified binders bodies => exact .quantified binders.flip bodies

/-- Alike shapes have alike components to be compared. -/
theorem Alike.pairs {otherTwins : Twins} {second otherSecond : Shape}
    (secondAlike : second.Alike otherTwins otherSecond) :
    Option.Rel (Forall₂ (twins.Pairs otherTwins)) (shape.pairs second)
      (other.pairs otherSecond) := by
  cases alike with
  | function domains codomains =>
    cases secondAlike with
    | function otherDomains otherCodomains =>
      exact .some (.cons ⟨domains, otherDomains⟩ (.cons ⟨codomains, otherCodomains⟩ .nil))
    | _ => exact .none
  | list elements =>
    cases secondAlike with
    | list otherElements => exact .some (.cons ⟨elements, otherElements⟩ .nil)
    | _ => exact .none
  | tuple parts =>
    cases secondAlike with
    | tuple otherParts =>
      simp only [Shape.pairs, parts.length_eq, otherParts.length_eq]
      split
      · exact .some (forall₂_pairs parts otherParts)
      · exact .none
    | _ => exact .none
  | _ => exact .none

end

end Shape

namespace Store

variable {twins further : Twins} {left right : Store}

/-- Twins of two well-formed stores have alike shapes, no type has two twins, and
where both stores have a primitive type the two are twins. -/
structure Alike (twins : Twins) (left right : Store) : Prop where
  /-- The left store is in order. -/
  leftWellFormed : left.WellFormed
  /-- So is the right one. -/
  rightWellFormed : right.WellFormed
  /-- No type has two twins. -/
  unique : Relator.BiUnique twins
  /-- Twins are stored. -/
  inside : ∀ ⦃first second⦄, twins first second → first < left.size ∧ second < right.size
  /-- They have alike shapes. -/
  shapes : ∀ ⦃first second⦄, twins first second →
    (left.shape first).Alike twins (right.shape second)
  /-- Primitive types are twins. -/
  slots : ∀ ⦃which first second⦄, left.slots which = some first →
    right.slots which = some second → twins first second

/-- A later store looks like the earlier one as far as that goes. -/
theorem Extends.alike (grown : right.Extends left) (leftWf : left.WellFormed)
    (rightWf : right.WellFormed) :
    left.Alike (Twins.shared left.size) right where
  leftWellFormed := leftWf
  rightWellFormed := rightWf
  unique := Twins.shared_unique left.size
  inside := by
    rintro first _ ⟨rfl, inside⟩
    exact ⟨inside, grown.inside inside⟩
  shapes := by
    rintro first _ ⟨rfl, inside⟩
    rw [grown.shape_eq inside]
    refine Shape.alike_self fun reference mem => ⟨rfl, ?_⟩
    exact Nat.lt_trans (leftWf.references_lt first reference mem) inside
  slots := by
    intro which first second slot otherSlot
    obtain ⟨inside, shapeEq⟩ := (leftWf.slots_iff which first).1 slot
    have same := (rightWf.slots_iff which first).2
      ⟨grown.inside inside, (grown.shape_eq inside).trans shapeEq⟩
    exact ⟨Option.some.inj (same.symm.trans otherSlot), inside⟩

namespace Alike

variable (alike : left.Alike twins right) {first second : TypeId}

include alike

theorem flip : right.Alike (flip twins) left where
  leftWellFormed := alike.rightWellFormed
  rightWellFormed := alike.leftWellFormed
  unique := ⟨fun _ _ _ twin other => alike.unique.2 twin other,
    fun _ _ _ twin other => alike.unique.1 twin other⟩
  inside _ _ twin := (alike.inside twin).symm
  shapes _ _ twin := (alike.shapes twin).flip
  slots _ _ _ slot otherSlot := alike.slots otherSlot slot

theorem shapesBelow {height otherHeight : Nat}
    (twin : twins.below (height + 1) (otherHeight + 1) first second) :
    (left.shape first).Alike (twins.below height otherHeight) (right.shape second) := by
  refine (alike.shapes twin.1).below ?_ ?_
  · intro reference mem
    exact Nat.lt_of_lt_of_le (alike.leftWellFormed.references_lt first reference mem)
      (Nat.le_of_lt_succ twin.2.1)
  · intro reference mem
    exact Nat.lt_of_lt_of_le (alike.rightWellFormed.references_lt second reference mem)
      (Nat.le_of_lt_succ twin.2.2)

theorem collectFree {height otherHeight : Nat}
    (twin : twins.below height otherHeight first second)
    {hidden otherHidden found otherFound : List TypeId}
    (hiddenTwins : Forall₂ twins hidden otherHidden) (foundTwins : Forall₂ twins found otherFound) :
    Forall₂ twins (left.collectFree height hidden found first)
      (right.collectFree otherHeight otherHidden otherFound second) := by
  induction height generalizing first second otherHeight hidden otherHidden found otherFound with
  | zero => exact absurd twin.2.1 (Nat.not_lt_zero first)
  | succ height ih =>
    obtain ⟨otherHeight, rfl⟩ := twin.exists_succ
    have shapes := alike.shapesBelow twin
    rw [Store.collectFree, Store.collectFree]
    generalize left.shape first = shape, right.shape second = other at shapes
    cases shapes with
    | primitive which => exact foundTwins
    | function domains codomains =>
      exact ih codomains hiddenTwins (ih domains hiddenTwins foundTwins)
    | list elements => exact ih elements hiddenTwins foundTwins
    | tuple parts =>
      refine rel_foldl ?_ foundTwins parts
      intro found otherFound foundTwins part otherPart below
      exact ih below hiddenTwins foundTwins
    | var number otherNumber =>
      simp only [contains_eq alike.unique twin.1 hiddenTwins,
        contains_eq alike.unique twin.1 foundTwins]
      split
      · exact foundTwins
      · exact rel_append foundTwins (.cons twin.1 .nil)
    | quantified binders bodies =>
      exact ih bodies
        (rel_append (forall₂_mono (twins.below_le _ _) binders) hiddenTwins) foundTwins

section

variable (twin : twins first second)

include twin

theorem kind_eq : left.kind first = right.kind second :=
  (alike.shapes twin).kind_eq

theorem body : twins (left.body first) (right.body second) := by
  have shapes := alike.shapes twin
  unfold Store.body
  generalize left.shape first = shape, right.shape second = other at shapes
  cases shapes with
  | quantified binders bodies => exact bodies
  | _ => exact twin

theorem binders :
    Forall₂ twins (left.binders first) (right.binders second) := by
  have shapes := alike.shapes twin
  unfold Store.binders
  generalize left.shape first = shape, right.shape second = other at shapes
  cases shapes with
  | quantified binders bodies => exact binders
  | _ => exact .nil

theorem isKind_eq (kind : Kind) :
    left.isKind kind first = right.isKind kind second := by
  unfold Store.isKind
  rw [alike.kind_eq (alike.body twin)]

theorem isInvalid_eq :
    left.isInvalid first = right.isInvalid second :=
  alike.isKind_eq twin _

theorem element? :
    Option.Rel twins (left.element? first) (right.element? second) := by
  have shapes := alike.shapes (alike.body twin)
  unfold Store.element?
  generalize left.shape (left.body first) = shape, right.shape (right.body second) = other at shapes
  cases shapes with
  | list elements => exact .some elements
  | _ => exact .none

/-- Twins have the same free variables in the same order. -/
theorem freeVars :
    Forall₂ twins (left.freeVars first) (right.freeVars second) :=
  alike.collectFree (twins.below_self twin) .nil .nil

end

end Alike

section Rendering

/-- The variables met so far are twins. -/
def MetAlike (twins : Twins) (met otherMet : List TypeId) : Prop :=
  Relator.BiUnique twins ∧ Forall₂ twins met otherMet

theorem parallel_name {first second : TypeId} {met otherMet : List TypeId}
    (metAlike : MetAlike twins met otherMet) (twin : twins first second) :
    Parallel MetAlike twins met otherMet (Rendering.name first) (Rendering.name second)
      fun _ text other => text = other := by
  obtain ⟨unique, metTwins⟩ := metAlike
  refine ⟨twins, le_refl twins, ?_⟩
  change MetAlike twins (if met.contains first then _ else _ : String × List TypeId).2
      (if otherMet.contains second then _ else _ : String × List TypeId).2 ∧
    (if met.contains first then _ else _ : String × List TypeId).1 =
      (if otherMet.contains second then _ else _ : String × List TypeId).1
  rw [contains_eq unique twin metTwins, idxOf_eq unique twin metTwins, metTwins.length_eq]
  split
  · exact ⟨⟨unique, metTwins⟩, rfl⟩
  · exact ⟨⟨unique, rel_append metTwins (.cons twin .nil)⟩, rfl⟩

/-- Twins are rendered alike. -/
theorem Alike.parallel_renderWithin (alike : left.Alike twins right) {first second : TypeId}
    {height otherHeight : Nat} (twin : twins.below height otherHeight first second)
    (outermost : Bool) {further : Twins} (grown : twins ≤ further) {met otherMet : List TypeId}
    (metAlike : MetAlike further met otherMet) :
    Parallel MetAlike further met otherMet (left.renderWithin height outermost first)
      (right.renderWithin otherHeight outermost second) fun _ text other => text = other := by
  induction height generalizing first second otherHeight outermost further met otherMet with
  | zero => exact absurd twin.2.1 (Nat.not_lt_zero first)
  | succ height ih =>
    obtain ⟨otherHeight, rfl⟩ := twin.exists_succ
    have shapes := alike.shapesBelow twin
    rw [renderWithin, renderWithin]
    generalize left.shape first = shape, right.shape second = other at shapes
    cases shapes with
    | primitive which => exact parallel_pure metAlike rfl
    | function domains codomains =>
      refine (ih domains false grown metAlike).bind ?_
      rintro _ _ _ _ _ more metAlike rfl
      refine (ih codomains false (grown.trans more) metAlike).bind ?_
      rintro _ _ _ _ _ _ metAlike rfl
      rw [alike.kind_eq domains.1]
      split
      · exact parallel_pure metAlike rfl
      · exact parallel_pure metAlike rfl
    | list elements =>
      refine (ih elements false grown metAlike).bind ?_
      rintro _ _ _ _ _ _ metAlike rfl
      exact parallel_pure metAlike rfl
    | tuple parts =>
      refine (parallel_mapM (fun _ => twins.below height otherHeight)
        (fun _ text other => text = other) (fun _ _ _ below => below)
        (fun _ _ _ same => same) (fun more metAlike below => ih below false (grown.trans more)
          metAlike) metAlike parts).bind fun _ metAlike same => ?_
      rw [forall₂_eq_eq_eq] at same
      exact parallel_pure metAlike (by rw [same])
    | var number otherNumber => exact parallel_name metAlike (grown _ _ twin.1)
    | quantified binders bodies =>
      refine (ih bodies false grown metAlike).bind ?_
      rintro _ _ _ _ _ more metAlike rfl
      split
      · refine (parallel_mapM (fun further => further) (fun _ text other => text = other)
          (fun more _ _ twin => more _ _ twin) (fun _ _ _ same => same)
          (fun _ metAlike twin => parallel_name metAlike twin) metAlike
          (binders.imp fun _ _ below => more _ _ (grown _ _ below.1))).bind
            fun _ metAlike same => ?_
        rw [forall₂_eq_eq_eq] at same
        exact parallel_pure metAlike (by rw [same])
      · exact parallel_pure metAlike rfl

theorem Alike.render_eq (alike : left.Alike twins right) {first second : TypeId}
    (twin : twins first second) :
    left.render first = right.render second := by
  obtain ⟨_, _, _, same⟩ := alike.parallel_renderWithin (twins.below_self twin) true (le_refl twins)
    ⟨alike.unique, .nil⟩
  exact same

end Rendering

namespace Alike

variable (alike : left.Alike twins right) {first second other image : TypeId}

include alike

theorem refusal?_eq (twin : twins first second) (otherTwin : twins other image) :
    left.refusal? first other = right.refusal? second image := by
  have shapes := alike.shapes twin
  have otherShapes := alike.shapes otherTwin
  unfold refusal?
  rw [alike.render_eq twin, alike.render_eq otherTwin]
  generalize left.shape first = firstShape, right.shape second = secondShape at shapes
  generalize left.shape other = otherShape, right.shape image = imageShape at otherShapes
  cases shapes <;> cases otherShapes <;> rfl

section

variable {height otherHeight : Nat} (twin : twins.below height otherHeight first second)
  (otherTwin : twins other image)

include twin otherTwin

theorem equalWithin_eq :
    left.equalWithin height first other = right.equalWithin otherHeight second image := by
  induction height generalizing first second other image otherHeight with
  | zero => exact absurd twin.2.1 (Nat.not_lt_zero first)
  | succ height ih =>
    obtain ⟨otherHeight, rfl⟩ := twin.exists_succ
    have pairs := (alike.shapesBelow twin).pairs (alike.shapes otherTwin)
    rw [equalWithin_succ, equalWithin_succ, alike.refusal?_eq twin.1 otherTwin]
    simp only [eq_iff_of_twins alike.unique twin.1 otherTwin]
    split
    · rfl
    generalize (left.shape first).pairs (left.shape other) = paired,
      (right.shape second).pairs (right.shape image) = otherPaired at pairs
    cases pairs with
    | none => rfl
    | some pairTwins =>
      refine allM_eq_allM pairTwins ?_
      intro pair otherPair twinPairs
      exact ih twinPairs.1 twinPairs.2

theorem sameWithin_eq :
    left.sameWithin height first other = right.sameWithin otherHeight second image := by
  induction height generalizing first second other image otherHeight with
  | zero => exact absurd twin.2.1 (Nat.not_lt_zero first)
  | succ height ih =>
    obtain ⟨otherHeight, rfl⟩ := twin.exists_succ
    have shapes := alike.shapesBelow twin
    have otherShapes := alike.shapes otherTwin
    rw [sameWithin, sameWithin]
    congr 1
    · exact decide_eq_decide.2 (eq_iff_of_twins alike.unique twin.1 otherTwin)
    generalize left.shape first = firstShape, right.shape second = secondShape at shapes
    generalize left.shape other = otherShape, right.shape image = imageShape at otherShapes
    cases shapes <;> cases otherShapes <;> try rfl
    · next domains codomains _ _ _ _ otherDomains otherCodomains =>
        simp only [ih domains otherDomains, ih codomains otherCodomains]
    · next elements _ _ otherElements =>
        exact ih elements otherElements
    · next parts _ _ otherParts =>
        simp only [parts.length_eq, otherParts.length_eq]
        congr 1
        refine all_eq_all (forall₂_pairs parts otherParts) ?_
        intro pair otherPair twinPairs
        exact ih twinPairs.1 twinPairs.2
    · next binders bodies _ _ _ _ otherBinders otherBodies =>
        have bindersTwins := forall₂_mono (twins.below_le height otherHeight) binders
        simp only [lists_eq_iff alike.unique bindersTwins otherBinders, ih bodies otherBodies]

end

section

variable (twin : twins first second) (otherTwin : twins other image)

include twin otherTwin

/-- Twins are compared with the same answer or the same refusal. -/
theorem equal_eq :
    left.equal first other = right.equal second image :=
  alike.equalWithin_eq (twins.below_self twin) otherTwin

theorem same_eq :
    left.same first other = right.same second image :=
  alike.sameWithin_eq (twins.below_self twin) otherTwin

end

end Alike
end Store
end PipeCheck
