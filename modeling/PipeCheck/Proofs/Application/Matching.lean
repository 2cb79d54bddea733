import PipeCheck.Proofs.Store.Sameness
import PipeCheck.Proofs.Substitution.Trees
import PipeCheck.Types.Matching

/-!
# What matching finds

Matching binds variables of a pattern to parts of a type that mentions none of
them.  The bindings it returns are those of every assignment that turns the
pattern into the type, and they bind just the listed variables of the pattern.
Where the pattern has no quantifiers, matching fails only when there is no such
assignment.
-/

namespace PipeCheck

open List

namespace Bindings

/-- An assignment gives every bound variable the tree of its type. -/
def ReadBy (bindings : Bindings) (store : Store) (assignment : TypeId → Tree) : Prop :=
  ∀ ⦃id type⦄, bindings.find? id = some type → assignment id = store.tree type

theorem binds_iff {bindings : Bindings} {id : TypeId} :
    bindings.binds id ↔ ∃ type, bindings.find? id = some type :=
  Option.isSome_iff_exists

theorem binds_bind_iff {bindings : Bindings} {id type other : TypeId} :
    (bindings.bind id type).binds other ↔ bindings.binds other ∨ other = id := by
  rw [binds_iff, binds_iff, find?_bind]
  by_cases same : other = id
  · simp [same]
  · simp [same]

theorem readBy_bind_iff {bindings : Bindings} {store : Store} {assign : TypeId → Tree}
    {id type : TypeId} (unbound : bindings.find? id = none) :
    (bindings.bind id type).ReadBy store assign ↔
      bindings.ReadBy store assign ∧ assign id = store.tree type := by
  constructor
  · intro read
    refine ⟨fun other bound found => read (grows_bind unbound type found), read ?_⟩
    rw [find?_bind, if_pos rfl]
  · rintro ⟨read, new⟩ other bound found
    rw [find?_bind] at found
    split at found
    · next same =>
        cases found
        rw [same, new]
    · exact read found

/-- The trees that bindings assign are a reading of them. -/
theorem readBy_assignment (bindings : Bindings) (store : Store) :
    bindings.ReadBy store (bindings.assignment store) :=
  fun _ _ found => assignment_of_find? found store

end Bindings

namespace Store

variable {store : Store} {bindable : List TypeId}

/-- One level of matching. -/
theorem WellFormed.matchWithin_succ (wf : store.WellFormed) (bindable : List TypeId)
    (height : Nat) (pattern type : TypeId) (bindings : Bindings) :
    store.matchWithin bindable (height + 1) pattern type bindings =
      if pattern = type then some bindings
      else if pattern ∈ bindable then
        match bindings.find? pattern with
        | some bound => if store.same bound type then some bindings else none
        | none => some (bindings.bind pattern type)
      else
        match (store.shape pattern).pairs (store.shape type) with
        | some paired =>
          paired.foldlM (fun bindings pair =>
            store.matchWithin bindable height pair.1 pair.2 bindings) bindings
        | none => if store.same pattern type then some bindings else none := by
  rw [matchWithin]
  simp only [contains_eq_mem, decide_eq_true_eq]
  split
  · rfl
  split
  · rfl
  split
  · next patternEq typeEq =>
      rw [patternEq, typeEq]
      simp only [Shape.pairs, foldlM_cons, foldlM_nil, bind_pure]
  · next patternEq typeEq =>
      rw [patternEq, typeEq]
      simp only [Shape.pairs, foldlM_cons, foldlM_nil, bind_pure]
  · next patternEq typeEq =>
      rw [patternEq, typeEq]
      simp only [Shape.pairs]
      split
      · rfl
      · next differentLength =>
          simp only [wf.not_same_of_length_ne patternEq typeEq differentLength]
          rfl
  · next notFn notList notTuple =>
      rw [Shape.pairs_eq_none notFn notList notTuple]

/-- An assignment turns all patterns into their types. -/
def Fit (store : Store) (assignment : TypeId → Tree) (paired : List (TypeId × TypeId)) : Prop :=
  ∀ pair ∈ paired, (store.tree pair.1).replace assignment = store.tree pair.2

/-- Bindings were extended by those of every assignment that turns all patterns
into their types. -/
structure Matches (store : Store) (bindable : List TypeId) (earlier later : Bindings)
    (paired : List (TypeId × TypeId)) : Prop where
  /-- No binding is lost. -/
  grows : later.Grows earlier
  /-- Bound are the listed variables of the patterns. -/
  binds_iff : ∀ id, later.binds id ↔
    earlier.binds id ∨ id ∈ bindable ∧ ∃ pair ∈ paired, id ∈ (store.tree pair.1).occurrences
  /-- What holds of types and their parts holds of what is bound. -/
  preserves : ∀ {holds : TypeId → Prop}, store.Hereditary holds →
    (∀ pair ∈ paired, holds pair.2) → earlier.Values holds → later.Values holds
  /-- The bindings say of an assignment that it fits. -/
  readBy_iff : ∀ {assignment : TypeId → Tree}, Tree.AssignsOnly bindable assignment →
    earlier.ReadBy store assignment → (later.ReadBy store assignment ↔ store.Fit assignment paired)
  /-- The listed variables stand outside all quantifiers of the patterns. -/
  exposed : ∀ pair ∈ paired, ∀ place ∈ (store.tree pair.1).places, place.Free →
    place.id ∈ bindable → place.scopes = []

/-- Where the patterns have no quantifiers, no assignment that reads the
bindings turns all patterns into their types. -/
def Mismatches (store : Store) (bindable : List TypeId) (bindings : Bindings)
    (paired : List (TypeId × TypeId)) : Prop :=
  (∀ pair ∈ paired, (store.tree pair.1).quantifierFree) →
  ∀ ⦃assignment : TypeId → Tree⦄, Tree.AssignsOnly bindable assignment →
    bindings.ReadBy store assignment → ¬store.Fit assignment paired

/-- What an attempt to match pairs ends with. -/
def MatchOutcome (store : Store) (bindable : List TypeId) (bindings : Bindings)
    (paired : List (TypeId × TypeId)) : Option Bindings → Prop
  | some later => store.Matches bindable bindings later paired
  | none => store.Mismatches bindable bindings paired

section Composing

variable {bindings later : Bindings} {paired rest : List (TypeId × TypeId)} {pair : TypeId × TypeId}

theorem Matches.cons {last : Bindings} (first : store.Matches bindable bindings later [pair])
    (others : store.Matches bindable later last rest) :
    store.Matches bindable bindings last (pair :: rest) where
  grows := others.grows.trans first.grows
  binds_iff id := by
    rw [others.binds_iff, first.binds_iff]
    simp only [mem_singleton, exists_eq_left, exists_mem_cons_iff]
    tauto
  preserves hereditary right values := by
    apply others.preserves hereditary (forall_mem_of_forall_mem_cons right)
    exact first.preserves hereditary (fun other mem => right other (by simp_all)) values
  readBy_iff {assign} assignsOnly read := by
    have firstIff := first.readBy_iff assignsOnly read
    constructor
    · intro lastRead
      have laterRead : later.ReadBy store assign :=
        fun id type found => lastRead (others.grows found)
      have firstFits := firstIff.1 laterRead
      have restFits := (others.readBy_iff assignsOnly laterRead).1 lastRead
      intro other mem
      rcases mem_cons.1 mem with rfl | mem
      · exact firstFits other (by simp)
      · exact restFits other mem
    · intro fit
      have laterRead := firstIff.2 fun other mem => fit other (by simp_all)
      exact (others.readBy_iff assignsOnly laterRead).2 (forall_mem_of_forall_mem_cons fit)
  exposed other mem := by
    rcases mem_cons.1 mem with rfl | inRest
    · exact first.exposed other (by simp)
    · exact others.exposed other inRest

theorem Mismatches.head (first : store.Mismatches bindable bindings [pair]) :
    store.Mismatches bindable bindings (pair :: rest) := by
  intro free assign assignsOnly read fit
  refine first ?_ assignsOnly read ?_
  · intro other mem
    exact free other (by simp_all)
  · intro other mem
    exact fit other (by simp_all)

theorem Mismatches.tail (first : store.Matches bindable bindings later [pair])
    (others : store.Mismatches bindable later rest) :
    store.Mismatches bindable bindings (pair :: rest) := by
  intro free assign assignsOnly read fit
  have laterRead := (first.readBy_iff assignsOnly read).2 fun other mem =>
    fit other (by simp_all)
  refine others ?_ assignsOnly laterRead ?_
  · intro other mem
    exact free other (by simp [mem])
  · intro other mem
    exact fit other (by simp [mem])

/-- Nothing more is bound where an assignment fits whatever it is, for want of
bindable variables or because they are bound already. -/
theorem matches_self
    (bound : ∀ pair ∈ paired, ∀ id ∈ (store.tree pair.1).occurrences, id ∈ bindable →
      bindings.binds id) (fit : ∀ {assign}, Tree.AssignsOnly bindable assign →
      bindings.ReadBy store assign → store.Fit assign paired)
    (exposed : ∀ pair ∈ paired, ∀ place ∈ (store.tree pair.1).places, place.Free →
      place.id ∈ bindable → place.scopes = []) :
    store.Matches bindable bindings bindings paired where
  grows := Bindings.Grows.refl bindings
  binds_iff id := by
    refine ⟨.inl, ?_⟩
    rintro (already | ⟨listed, pair, mem, occurs⟩)
    · exact already
    · exact bound pair mem id occurs listed
  preserves _ _ values := values
  readBy_iff assignsOnly read := ⟨fun _ => fit assignsOnly read, fun _ => read⟩
  exposed := exposed

/-- Pairs are matched one after the other. -/
theorem matchOutcome_foldlM {step : Bindings → TypeId × TypeId → Option Bindings}
    (each : ∀ pair ∈ paired, ∀ current : Bindings,
      store.MatchOutcome bindable current [pair] (step current pair)) :
    store.MatchOutcome bindable bindings paired (paired.foldlM step bindings) := by
  induction paired generalizing bindings with
  | nil => exact matches_self (by simp) (fun _ _ pair mem => by simp at mem) (by simp)
  | cons pair rest ih =>
    rw [foldlM_cons]
    have first := each pair (by simp) bindings
    cases firstEq : step bindings pair with
    | none =>
      rw [firstEq] at first
      exact first.head
    | some mid =>
      rw [firstEq] at first
      have others : store.MatchOutcome bindable mid rest (rest.foldlM step mid) :=
        ih (forall_mem_of_forall_mem_cons each)
      change store.MatchOutcome bindable bindings (pair :: rest) (rest.foldlM step mid)
      cases restEq : rest.foldlM step mid with
      | none =>
        rw [restEq] at others
        exact Mismatches.tail first others
      | some last =>
        rw [restEq] at others
        exact Matches.cons first others

end Composing

section Searching

variable {bindings : Bindings} {pattern type : TypeId}

/-- A pattern that equals the type has no bindable variables. -/
theorem matches_of_tree_eq (apart : ∀ id ∈ (store.tree type).occurrences, id ∉ bindable)
    (equal : store.tree pattern = store.tree type) :
    store.Matches bindable bindings bindings [(pattern, type)] := by
  refine matches_self ?_ ?_ ?_
  · intro pair mem id occurs listed
    rw [mem_singleton.1 mem, equal] at occurs
    exact absurd listed (apart id occurs)
  · intro assign assignsOnly _ pair mem
    rw [mem_singleton.1 mem, equal]
    exact assignsOnly.replace_eq_self apart
  · intro pair mem place inPattern isFree listed
    rw [mem_singleton.1 mem, equal] at inPattern
    exact absurd listed (apart _ (Tree.mem_occurrences_of_mem_places inPattern isFree))

theorem MatchOutcome.of_pairs {paired : List (TypeId × TypeId)} {result : Option Bindings}
    (outcome : store.MatchOutcome bindable bindings paired result) (wf : store.WellFormed)
    (pairsEq : (store.shape pattern).pairs (store.shape type) = some paired) :
    store.MatchOutcome bindable bindings [(pattern, type)] result := by
  have fitIff : ∀ {assign},
      store.Fit assign paired ↔ store.Fit assign [(pattern, type)] := by
    intro assign
    have iff := wf.replace_eq_iff_pairs pairsEq assign .var
    simp only [Tree.replace_var] at iff
    simp only [Fit, mem_singleton, forall_eq]
    exact iff.symm
  have kinds := Shape.kind_ne_quantified_of_pairs pairsEq
  cases result with
  | some later =>
    refine ⟨outcome.grows, ?_, ?_, ?_, ?_⟩
    · intro id
      rw [outcome.binds_iff, ← wf.mem_occurrences_iff_pairs pairsEq]
      simp
    · intro holds hereditary right values
      refine outcome.preserves hereditary ?_ values
      intro pair mem
      exact hereditary (right (pattern, type) (by simp)) kinds.2
        (Shape.mem_components_of_mem_pairs pairsEq mem).2
    · intro assign assignsOnly read
      rw [outcome.readBy_iff assignsOnly read, fitIff]
    · intro pair mem place inPattern isFree listed
      rw [mem_singleton.1 mem] at inPattern
      obtain ⟨inner, isInner, inInner⟩ := wf.exists_places_of_pairs pairsEq inPattern
      exact outcome.exposed inner isInner place inInner isFree listed
  | none =>
    intro free assign assignsOnly read fit
    refine outcome ?_ assignsOnly read (fitIff.2 fit)
    intro pair mem
    exact wf.hereditary_quantifierFree (free (pattern, type) (by simp)) kinds.1
      (Shape.mem_components_of_mem_pairs pairsEq mem).1

/-- A bindable variable takes the type or has it already. -/
theorem matchOutcome_var (wf : store.WellFormed) {number : Nat}
    (isVar : store.shape pattern = .var number) (mem : pattern ∈ bindable) :
    store.MatchOutcome bindable bindings [(pattern, type)] (match bindings.find? pattern with
      | some bound => if store.same bound type then some bindings else none
      | none => some (bindings.bind pattern type)) := by
  have patternTree := tree_of_var isVar
  have exposed : ∀ pair ∈ [(pattern, type)], ∀ place ∈ (store.tree pair.1).places,
      place.Free → place.id ∈ bindable → place.scopes = [] := by
    intro pair inPaired place inPattern _ _
    rw [mem_singleton.1 inPaired, patternTree] at inPattern
    rw [mem_singleton.1 inPattern]
  cases found : bindings.find? pattern with
  | some bound =>
    by_cases same : store.same bound type
    · simp only [same, if_true]
      refine matches_self ?_ ?_ exposed
      · intro pair inPaired id occurs _
        rw [mem_singleton.1 inPaired, patternTree] at occurs
        rw [mem_singleton.1 occurs, Bindings.binds_iff]
        exact ⟨bound, found⟩
      · intro assign _ read pair inPaired
        rw [mem_singleton.1 inPaired, patternTree, Tree.replace, read found]
        exact wf.same_iff.1 same
    · simp only [same]
      intro _ assign _ read fit
      have assigned := fit (pattern, type) (by simp)
      rw [patternTree, Tree.replace, read found] at assigned
      exact same (wf.same_iff.2 assigned)
  | none =>
    refine ⟨Bindings.grows_bind found type, ?_, ?_, ?_, exposed⟩
    · intro id
      rw [Bindings.binds_bind_iff]
      constructor
      · rintro (already | rfl)
        · exact .inl already
        · exact .inr ⟨mem, (id, type), by simp, by simp [patternTree, Tree.occurrences]⟩
      · rintro (already | ⟨_, pair, inPaired, occurs⟩)
        · exact .inl already
        · rw [mem_singleton.1 inPaired, patternTree] at occurs
          exact .inr (mem_singleton.1 occurs)
    · intro holds _ right values
      exact Bindings.values_bind values (right (pattern, type) (by simp))
    · intro assign _ read
      rw [Bindings.readBy_bind_iff found]
      simp [Fit, read, patternTree, Tree.replace]

/-- A type whose shape cannot be paired with the pattern's is no instance of
it. -/
theorem mismatches_unpaired (wf : store.WellFormed) (fixed : pattern ∉ bindable)
    (unpaired : (store.shape pattern).pairs (store.shape type) = none)
    (different : store.tree pattern ≠ store.tree type) :
    store.Mismatches bindable bindings [(pattern, type)] := by
  intro free assign assignsOnly _ fit
  have notQuantified : store.kind pattern ≠ .quantified := by
    rw [← Store.kind_tree]
    exact Tree.kind_ne_quantified (free (pattern, type) (by simp))
  have equal : (store.tree pattern).replace assign = (store.tree type).replace .var := by
    rw [Tree.replace_var]
    exact fit (pattern, type) (by simp)
  refine different (wf.tree_eq_of_unpaired unpaired notQuantified ?_
    (fun _ => Tree.replace_var _) equal)
  intro isVar
  obtain ⟨number, shapeEq⟩ := exists_shape_eq_var isVar
  rw [tree_of_var shapeEq, Tree.replace, assignsOnly fixed]

section

variable (wf : store.WellFormed) (vars : store.Vars bindable)

include wf vars

/-- Matching a pattern below the height against a type before all bindable
variables. -/
theorem matchOutcome_matchWithin {height : Nat}
    (enough : pattern < height) (before : ∀ id ∈ bindable, type < id) :
    store.MatchOutcome bindable bindings [(pattern, type)]
      (store.matchWithin bindable height pattern type bindings) := by
  induction height generalizing pattern type bindings with
  | zero => exact absurd enough (Nat.not_lt_zero pattern)
  | succ height ih =>
    have apart : ∀ id ∈ (store.tree type).occurrences, id ∉ bindable := fun id occurs listed =>
      Nat.not_lt_of_le (wf.var_of_mem_occurrences occurs).1 (before id listed)
    rw [wf.matchWithin_succ]
    split
    · next identical => exact matches_of_tree_eq apart (by rw [identical])
    split
    · next listed =>
        obtain ⟨number, isVar⟩ := vars pattern listed
        exact matchOutcome_var wf isVar listed
    next fixed =>
      split
      · next paired pairsEq =>
          refine MatchOutcome.of_pairs (matchOutcome_foldlM ?_) wf pairsEq
          intro pair mem current
          have parts := Shape.mem_components_of_mem_pairs pairsEq mem
          have patternBelow := wf.component_lt parts.1
          have typeBelow := wf.component_lt parts.2
          exact ih (Nat.lt_of_lt_of_le patternBelow (Nat.le_of_lt_succ enough))
            fun id listed => Nat.lt_trans typeBelow (before id listed)
      · next unpaired =>
          split
          · next same => exact matches_of_tree_eq apart (wf.same_iff.1 same)
          · next notSame =>
              exact mismatches_unpaired wf fixed unpaired (mt wf.same_iff.2 notSame)

theorem matchOutcome_matchPattern (before : ∀ id ∈ bindable, type < id) :
    store.MatchOutcome bindable [] [(pattern, type)] (store.matchPattern bindable pattern type) :=
  matchOutcome_matchWithin wf vars (Nat.lt_succ_self pattern) before

end

end Searching
end Store
end PipeCheck
