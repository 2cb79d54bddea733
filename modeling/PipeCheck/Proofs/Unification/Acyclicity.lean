import Mathlib.Data.Finset.Card
import Mathlib.Logic.Relation
import PipeCheck.Proofs.Substitution.Trees
import PipeCheck.Types.Unification

/-!
# Acyclic bindings

Unification binds variables to types that mention other bound variables.  Such
bindings are acyclic when a rank decreases from every type to its components
and from every bound variable to its type.  Then chains of bindings end, the
occurrence check looks deep enough and says exactly whether a variable can be
reached, and a variable that cannot be reached may be bound.
-/

namespace PipeCheck

open Finset

/-- How many members of a set rank no higher than a given type. -/
def level (members : Finset TypeId) (rank : TypeId → Nat) (id : TypeId) : Nat :=
  (members.filter fun other => rank other ≤ rank id).card

theorem level_le_card (members : Finset TypeId) (rank : TypeId → Nat) (id : TypeId) :
    level members rank id ≤ members.card :=
  card_filter_le _ _

theorem level_lt {members : Finset TypeId} {rank : TypeId → Nat} {lower upper : TypeId}
    (lt : rank lower < rank upper) (mem : upper ∈ members) :
    level members rank lower < level members rank upper := by
  apply card_lt_card
  rw [ssubset_iff_of_subset]
  · refine ⟨upper, ?_, ?_⟩
    · rw [mem_filter]
      exact ⟨mem, Nat.le_refl _⟩
    · rw [mem_filter]
      exact fun present => Nat.not_lt_of_le present.2 lt
  · intro other present
    rw [mem_filter] at present ⊢
    exact ⟨present.1, present.2.trans (Nat.le_of_lt lt)⟩

namespace Bindings

variable {store : Store} {id type : TypeId} {bindings : Bindings} {rank : TypeId → Nat}

/-- From a type to one of its components, or from a bound variable to its
type. -/
def Step (bindings : Bindings) (store : Store) (id next : TypeId) : Prop :=
  next ∈ (store.shape id).components ∨ bindings.find? id = some next

/-- One type mentions another, directly or through bindings. -/
def Reaches (bindings : Bindings) (store : Store) : TypeId → TypeId → Prop :=
  Relation.ReflTransGen (bindings.Step store)

/-- A rank that every step decreases. -/
def Ranked (bindings : Bindings) (store : Store) (rank : TypeId → Nat) : Prop :=
  ∀ ⦃id next⦄, bindings.Step store id next → rank next < rank id

/-- Acyclic bindings of some variables to stored types. -/
structure Sound (bindings : Bindings) (store : Store) (bindable : List TypeId) : Prop where
  /-- Bound variables have a rank. -/
  acyclic : ∃ rank, bindings.Ranked store rank
  /-- Only listed variables are bound. -/
  key_mem : ∀ ⦃id type⦄, bindings.find? id = some type → id ∈ bindable
  /-- They are bound to stored types. -/
  inside : bindings.Inside store

/-- Without bindings the index itself is a rank. -/
theorem sound_nil (wf : store.WellFormed) (bindable : List TypeId) :
    Sound [] store bindable := by
  refine ⟨⟨fun id => id, ?_⟩, by simp, ?_⟩
  · rintro id next (part | found)
    · exact wf.component_lt part
    · cases found
  · intro id type found
    cases found

/-- A type reaches the variables that occur in it. -/
theorem reaches_of_mem_occurrences (wf : store.WellFormed) (bindings : Bindings) {leaf : TypeId}
    (occurs : leaf ∈ (store.tree id).occurrences) :
    bindings.Reaches store id leaf := by
  induction id using Nat.strongRecOn with
  | ind id ih =>
    rcases wf.mem_occurrences_cases occurs with
      ⟨rfl, _⟩ | ⟨part, mem, inPart⟩
    · exact Relation.ReflTransGen.refl
    · have reached := ih part (wf.component_lt mem) inPart
      exact reached.head (.inl mem)

theorem Ranked.le_of_reaches (ranked : bindings.Ranked store rank) {target : TypeId}
    (reaches : bindings.Reaches store id target) :
    rank target ≤ rank id := by
  induction reaches with
  | refl => exact Nat.le_refl _
  | tail _ step ih =>
    exact (Nat.le_of_lt (ranked step)).trans ih

theorem Ranked.lt_of_mem_occurrences (ranked : bindings.Ranked store rank) (wf : store.WellFormed)
    {leaf : TypeId} (found : bindings.find? id = some type)
    (occurs : leaf ∈ (store.tree type).occurrences) :
    rank leaf < rank id :=
  Nat.lt_of_le_of_lt (ranked.le_of_reaches (reaches_of_mem_occurrences wf bindings occurs))
    (ranked (.inr found))

/-- A variable is not bound to itself. -/
theorem Ranked.find?_eq_none_of_fixed (ranked : bindings.Ranked store rank)
    (fixed : (bindings.find? id).getD id = id) :
    bindings.find? id = none := by
  cases found : bindings.find? id with
  | none => rfl
  | some type =>
    have lower := ranked (.inr found)
    rw [found, Option.getD_some] at fixed
    rw [fixed] at lower
    exact absurd lower (Nat.lt_irrefl _)

section Resolving

variable {bindings : Bindings} {store : Store}

/-- Whatever bound variables hand on to their types also holds at the end of a
chain. -/
theorem resolve_induction {motive : TypeId → Prop}
    (step : ∀ ⦃id type⦄, bindings.find? id = some type → motive id → motive type)
    (start : motive id) :
    motive (bindings.resolve id) := by
  have within : ∀ steps id, motive id → motive (bindings.resolveWithin steps id) := by
    intro steps
    induction steps with
    | zero =>
      intro id start
      exact start
    | succ steps ih =>
      intro id start
      unfold resolveWithin
      split
      · next next found => exact ih next (step found start)
      · exact start
  exact within bindings.length id start

theorem Sound.resolve_inside {bindable : List TypeId} (sound : bindings.Sound store bindable)
    (inside : id < store.size) :
    bindings.resolve id < store.size :=
  resolve_induction (fun _ _ found _ => sound.inside found) inside

/-- Following bindings from one type to the next comes to an end at an unbound
type. -/
inductive LeadsTo (bindings : Bindings) : TypeId → TypeId → Prop
  | unbound {id : TypeId} (isUnbound : bindings.find? id = none) : LeadsTo bindings id id
  | bound {id next last : TypeId} (found : bindings.find? id = some next)
      (rest : LeadsTo bindings next last) : LeadsTo bindings id last

/-- The variables that are bound. -/
def keys (bindings : Bindings) : Finset TypeId :=
  (bindings.map Prod.fst).toFinset

theorem mem_keys_of_find? (found : bindings.find? id = some type) :
    id ∈ bindings.keys := by
  rw [keys, List.mem_toFinset, List.mem_map]
  exact ⟨(id, type), mem_of_find? found, rfl⟩

theorem card_keys_le (bindings : Bindings) : bindings.keys.card ≤ bindings.length := by
  have bound := List.toFinset_card_le (bindings.map Prod.fst)
  rwa [List.length_map] at bound

/-- A chain of acyclic bindings comes to an end. -/
theorem leadsTo_resolve (ranked : bindings.Ranked store rank) (id : TypeId) :
    bindings.LeadsTo id (bindings.resolve id) := by
  have within : ∀ steps id, level bindings.keys rank id ≤ steps →
      bindings.LeadsTo id (bindings.resolveWithin steps id) := by
    intro steps
    induction steps with
    | zero =>
      intro id few
      cases found : bindings.find? id with
      | none => exact .unbound found
      | some type =>
        have lower := level_lt (ranked (.inr found)) (mem_keys_of_find? found)
        exact absurd (Nat.lt_of_lt_of_le lower few) (Nat.not_lt_zero _)
    | succ steps ih =>
      intro id few
      unfold resolveWithin
      split
      · next next found =>
          refine .bound found (ih next ?_)
          have lower := level_lt (ranked (.inr found)) (mem_keys_of_find? found)
          exact Nat.le_of_lt_succ (Nat.lt_of_lt_of_le lower few)
      · next found => exact .unbound found
  exact within bindings.length id ((level_le_card _ _ _).trans bindings.card_keys_le)

theorem LeadsTo.find?_eq_none {last : TypeId} (leads : bindings.LeadsTo id last) :
    bindings.find? last = none := by
  induction leads with
  | unbound isUnbound => exact isUnbound
  | bound _ _ ih => exact ih

/-- A chain of acyclic bindings ends at an unbound type. -/
theorem find?_resolve (ranked : bindings.Ranked store rank) (id : TypeId) :
    bindings.find? (bindings.resolve id) = none :=
  (leadsTo_resolve ranked id).find?_eq_none

/-- A chain of bindings is a way to reach its end. -/
theorem reaches_resolve (bindings : Bindings) (store : Store) (id : TypeId) :
    bindings.Reaches store id (bindings.resolve id) := by
  apply resolve_induction (motive := fun other => bindings.Reaches store id other)
  · intro other type found reached
    exact reached.tail (.inr found)
  · exact Relation.ReflTransGen.refl

/-- A bound variable reaches an unbound one through its type only. -/
theorem reaches_resolve_iff
    (keyVar : ∀ ⦃id type⦄, bindings.find? id = some type → ∃ number, store.shape id = .var number)
    {target : TypeId} (unbound : bindings.find? target = none) (id : TypeId) :
    bindings.Reaches store (bindings.resolve id) target ↔ bindings.Reaches store id target := by
  apply resolve_induction
    (motive := fun other => bindings.Reaches store other target ↔ bindings.Reaches store id target)
  · intro other type found same
    rw [← same]
    constructor
    · exact fun reached => reached.head (.inr found)
    · intro reached
      rcases reached.cases_head with rfl | ⟨next, part | bound, reached⟩
      · rw [unbound] at found
        cases found
      · obtain ⟨number, isVar⟩ := keyVar found
        rw [isVar] at part
        simp [Shape.components] at part
      · rw [found] at bound
        cases bound
        exact reached
  · exact Iff.rfl

end Resolving

section Binding

variable {bindings : Bindings} {store : Store}

/-- A variable that a type does not reach may be bound to it: everything that
reaches the variable moves above the type. -/
theorem ranked_bind (ranked : bindings.Ranked store rank)
    (apart : ¬bindings.Reaches store type id) :
    ∃ newRank, (bindings.bind id type).Ranked store newRank := by
  classical
  refine ⟨fun other =>
    rank other + if bindings.Reaches store other id then rank type + 1 else 0, ?_⟩
  intro other next step
  have oldStep : ∀ {next}, bindings.Step store other next →
      rank next + (if bindings.Reaches store next id then rank type + 1 else 0) <
        rank other + (if bindings.Reaches store other id then rank type + 1 else 0) := by
    intro next step
    have lower := ranked step
    by_cases reached : bindings.Reaches store next id
    · have above : bindings.Reaches store other id := reached.head step
      simp only [reached, above, if_true]
      omega
    · simp only [reached, if_false]
      omega
  rcases step with part | found
  · exact oldStep (.inl part)
  · rw [find?_bind] at found
    split at found
    · next same =>
        cases found
        subst same
        have here : bindings.Reaches store other other := Relation.ReflTransGen.refl
        simp only [apart, here, if_true, if_false]
        omega
    · exact oldStep (.inr found)

theorem Sound.bind {bindable : List TypeId} (sound : bindings.Sound store bindable)
    (mem : id ∈ bindable) (inside : type < store.size) (apart : ¬bindings.Reaches store type id) :
    (bindings.bind id type).Sound store bindable := by
  obtain ⟨rank, ranked⟩ := sound.acyclic
  refine ⟨ranked_bind ranked apart, ?_, ?_⟩
  · intro other bound found
    rw [find?_bind] at found
    split at found
    · next same => exact same ▸ mem
    · exact sound.key_mem found
  · intro other bound found
    rw [find?_bind] at found
    split at found
    · cases found
      exact inside
    · exact sound.inside found

/-- A rank can be chosen no higher than the store is large. -/
theorem Sound.exists_rank_le_size {bindable : List TypeId} (sound : bindings.Sound store bindable)
    (vars : store.Vars bindable) :
    ∃ rank, bindings.Ranked store rank ∧ ∀ id, rank id ≤ store.size := by
  obtain ⟨rank, ranked⟩ := sound.acyclic
  refine ⟨level (range store.size) rank, ?_, ?_⟩
  · intro id next step
    apply level_lt (ranked step)
    rw [mem_range]
    rcases step with part | found
    · apply Store.lt_size_of_shape rfl
      intro isInvalid
      rw [isInvalid] at part
      simp [Shape.components] at part
    · obtain ⟨number, isVar⟩ := vars id (sound.key_mem found)
      exact Store.lt_size_of_shape isVar (by simp)
  · intro id
    have bound := level_le_card (range store.size) rank id
    rwa [card_range] at bound

end Binding
end Bindings

/-- Asking one entry after the other, when every question has an answer. -/
theorem anyM_eq_ok {Failure : Type} {ask : TypeId → Except Failure Bool}
    {holds : TypeId → Prop} {ids : List TypeId}
    (each : ∀ id ∈ ids, ∃ answer, ask id = .ok answer ∧ (answer = true ↔ holds id)) :
    ∃ answer, ids.anyM ask = .ok answer ∧ (answer = true ↔ ∃ id ∈ ids, holds id) := by
  induction ids with
  | nil => exact ⟨false, rfl, by simp⟩
  | cons first rest ih =>
    obtain ⟨firstAnswer, firstEq, firstIff⟩ := each first (by simp)
    obtain ⟨restAnswer, restEq, restIff⟩ := ih (List.forall_mem_of_forall_mem_cons each)
    rw [List.anyM, firstEq]
    cases firstAnswer with
    | true => exact ⟨true, rfl, by simp [firstIff.1 rfl]⟩
    | false =>
      refine ⟨restAnswer, restEq, ?_⟩
      have firstFails : ¬holds first := fun present => by simpa using firstIff.2 present
      simp [firstFails, restIff]

namespace Store

variable {store : Store} {bindings : Bindings} {bindable : List TypeId}

/-- One level of the occurrence check. -/
theorem occursWithin_succ (store : Store) (bindings : Bindings) (var : TypeId) (depth : Nat)
    (id : TypeId) :
    store.occursWithin bindings var (depth + 1) id =
      if bindings.resolve id = var then .ok true
      else (store.shape (bindings.resolve id)).components.anyM
        (store.occursWithin bindings var depth) := by
  rw [occursWithin]
  split
  · rfl
  cases store.shape (bindings.resolve id) with
  | primitive which => rfl
  | var number => rfl
  | function domain codomain =>
    simp only [Shape.components, List.anyM]
    cases store.occursWithin bindings var depth domain with
    | error failure => rfl
    | ok inDomain =>
      cases inDomain with
      | true => rfl
      | false =>
        cases store.occursWithin bindings var depth codomain with
        | error failure => rfl
        | ok inCodomain => cases inCodomain <;> rfl
  | list element =>
    simp only [Shape.components, List.anyM]
    cases store.occursWithin bindings var depth element with
    | error failure => rfl
    | ok inElement => cases inElement <;> rfl
  | tuple parts => rfl
  | quantified binders body =>
    simp only [Shape.components, List.anyM]
    cases store.occursWithin bindings var depth body with
    | error failure => rfl
    | ok inBody => cases inBody <;> rfl

/-- The occurrence check says whether an unbound variable can be reached, if it
may look deeper than the type ranks. -/
theorem occursWithin_spec {rank : TypeId → Nat} (ranked : bindings.Ranked store rank)
    (keyVar : ∀ ⦃id type⦄, bindings.find? id = some type → ∃ number, store.shape id = .var number)
    {var : TypeId} (unbound : bindings.find? var = none) {depth : Nat} {id : TypeId}
    (deep : rank id < depth) :
    ∃ answer, store.occursWithin bindings var depth id = .ok answer ∧
      (answer = true ↔ bindings.Reaches store id var) := by
  induction depth generalizing id with
  | zero => exact absurd deep (Nat.not_lt_zero _)
  | succ depth ih =>
    rw [occursWithin_succ]
    split
    · next here =>
        refine ⟨true, rfl, ?_⟩
        rw [← here]
        exact ⟨fun _ => Bindings.reaches_resolve bindings store id, fun _ => rfl⟩
    · next elsewhere =>
        have resolvedLe := ranked.le_of_reaches (Bindings.reaches_resolve bindings store id)
        have each : ∀ part ∈ (store.shape (bindings.resolve id)).components,
            ∃ answer, store.occursWithin bindings var depth part = .ok answer ∧
              (answer = true ↔ bindings.Reaches store part var) := by
          intro part mem
          apply ih
          have lower := ranked (.inl mem)
          exact Nat.lt_of_lt_of_le lower (resolvedLe.trans (Nat.le_of_lt_succ deep))
        obtain ⟨answer, answerEq, answerIff⟩ := anyM_eq_ok each
        refine ⟨answer, answerEq, ?_⟩
        rw [answerIff, ← Bindings.reaches_resolve_iff keyVar unbound]
        constructor
        · rintro ⟨part, mem, reached⟩
          exact reached.head (.inl mem)
        · intro reached
          rcases reached.cases_head with here | ⟨next, part | bound, reached⟩
          · exact absurd here elsewhere
          · exact ⟨next, part, reached⟩
          · rw [Bindings.find?_resolve ranked] at bound
            cases bound

theorem size_lt_searchDepth (store : Store) (count : Nat) :
    store.size < store.searchDepth count := by
  unfold searchDepth
  exact Nat.le_mul_of_pos_left _ (Nat.succ_pos count)

/-- A variable is bound unless the type reaches it. -/
theorem bindVar_eq (sound : bindings.Sound store bindable) (vars : store.Vars bindable)
    {var : TypeId} (unbound : bindings.find? var = none) (type : TypeId) :
    (bindings.Reaches store type var ∧ store.bindVar bindings var type = .error .clash) ∨
      (¬bindings.Reaches store type var ∧
        store.bindVar bindings var type = .ok (bindings.bind var type)) := by
  obtain ⟨rank, ranked, rankLe⟩ := sound.exists_rank_le_size vars
  have deep := Nat.lt_of_le_of_lt (rankLe type) (store.size_lt_searchDepth bindings.length)
  obtain ⟨answer, answerEq, answerIff⟩ :=
    occursWithin_spec ranked (fun id bound found => vars id (sound.key_mem found)) unbound deep
  unfold bindVar occurs
  rw [answerEq]
  cases answer with
  | true => exact .inl ⟨answerIff.1 rfl, rfl⟩
  | false => exact .inr ⟨fun reached => by simpa using answerIff.2 reached, rfl⟩

end Store
end PipeCheck
