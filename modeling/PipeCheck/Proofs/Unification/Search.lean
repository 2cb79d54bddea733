import PipeCheck.Proofs.Unification.Acyclicity
import PipeCheck.Proofs.Store.Sameness

/-!
# What the search for a unifier finds

An assignment solves bindings when it gives every bound variable the instance
of its type.  The search extends acyclic bindings to acyclic bindings that are
solved exactly by those solutions under which the two types agree.  It is never
cut off, and where no quantifier is met it clashes only when no solution lets
the types agree.
-/

namespace PipeCheck

open Bindings PipeCheck.Tree

namespace Store

variable {store : Store}

/-- One level of the search. -/
theorem WellFormed.unifyWithin_succ (wf : store.WellFormed) (bindable : List TypeId)
    (depth : Nat) (left right : TypeId) (bindings : Bindings) :
    store.unifyWithin bindable (depth + 1) left right bindings =
      if bindings.resolve left = bindings.resolve right then .ok bindings
      else if bindings.resolve left ∈ bindable then
        store.bindVar bindings (bindings.resolve left) (bindings.resolve right)
      else if bindings.resolve right ∈ bindable then
        store.bindVar bindings (bindings.resolve right) (bindings.resolve left)
      else
        match (store.shape (bindings.resolve left)).pairs
          (store.shape (bindings.resolve right)) with
        | some paired =>
          paired.foldlM (fun bindings pair =>
            store.unifyWithin bindable depth pair.1 pair.2 bindings) bindings
        | none =>
          if store.same (bindings.resolve left) (bindings.resolve right) then .ok bindings
          else .error .clash := by
  rw [unifyWithin]
  simp only [List.contains_eq_mem, decide_eq_true_eq]
  split
  · rfl
  split
  · rfl
  split
  · rfl
  split
  · next leftEq rightEq =>
      rw [leftEq, rightEq]
      simp only [Shape.pairs, List.foldlM_cons, List.foldlM_nil, bind_pure]
  · next leftEq rightEq =>
      rw [leftEq, rightEq]
      simp only [Shape.pairs, List.foldlM_cons, List.foldlM_nil, bind_pure]
  · next leftEq rightEq =>
      rw [leftEq, rightEq]
      simp only [Shape.pairs]
      split
      · rfl
      · next differentLength =>
          simp only [wf.not_same_of_length_ne leftEq rightEq differentLength]
          rfl
  · next notFn notList notTuple =>
      rw [Shape.pairs_eq_none notFn notList notTuple]

end Store

namespace Bindings

variable {id : TypeId}

/-- An assignment gives every bound variable the instance of its type. -/
def SolvedBy (bindings : Bindings) (store : Store) (assignment : TypeId → Tree) : Prop :=
  ∀ ⦃id type⦄, bindings.find? id = some type → assignment id = (store.tree type).replace assignment

/-- A depth that no ranking within the size of the store exhausts below a
type. -/
def Deep (bindings : Bindings) (store : Store) (id : TypeId) (depth : Nat) : Prop :=
  ∀ ⦃rank : TypeId → Nat⦄, bindings.Ranked store rank → (∀ other, rank other ≤ store.size) →
    rank id < depth

variable {bindings : Bindings} {store : Store} {bindable : List TypeId}

theorem solvedBy_bind_iff {assign : TypeId → Tree} {type : TypeId}
    (unbound : bindings.find? id = none) :
    (bindings.bind id type).SolvedBy store assign ↔
      bindings.SolvedBy store assign ∧
        assign id = (store.tree type).replace assign := by
  constructor
  · intro solved
    refine ⟨fun other bound found => solved (grows_bind unbound type found), solved ?_⟩
    rw [find?_bind, if_pos rfl]
  · rintro ⟨solved, new⟩ other bound found
    rw [find?_bind] at found
    split at found
    · next same =>
        cases found
        rw [same, new]
    · exact solved found

theorem Ranked.of_grows {later : Bindings} {rank : TypeId → Nat}
    (ranked : later.Ranked store rank) (grows : later.Grows bindings) :
    bindings.Ranked store rank := by
  rintro id next (part | found)
  · exact ranked (.inl part)
  · exact ranked (.inr (grows found))

theorem Deep.of_grows {later : Bindings} {depth : Nat} (deep : bindings.Deep store id depth)
    (grows : later.Grows bindings) :
    later.Deep store id depth :=
  fun _ ranked rankLe => deep (ranked.of_grows grows) rankLe

theorem Deep.component {part : TypeId} {depth : Nat} (deep : bindings.Deep store id (depth + 1))
    (mem : part ∈ (store.shape (bindings.resolve id)).components) :
    bindings.Deep store part depth := by
  intro rank ranked rankLe
  have resolvedLe := ranked.le_of_reaches (reaches_resolve bindings store id)
  have partLt := ranked (.inl mem)
  have idLt := deep ranked rankLe
  exact Nat.lt_of_lt_of_le partLt (resolvedLe.trans (Nat.le_of_lt_succ idLt))

/-- A solution gives a chain of bindings one instance. -/
theorem SolvedBy.replace_resolve {assign : TypeId → Tree}
    (solved : bindings.SolvedBy store assign) (sound : bindings.Sound store bindable)
    (vars : store.Vars bindable) (id : TypeId) :
    (store.tree (bindings.resolve id)).replace assign =
      (store.tree id).replace assign := by
  apply resolve_induction
    (motive := fun other => (store.tree other).replace assign = (store.tree id).replace assign)
  · intro other type found same
    obtain ⟨number, isVar⟩ := vars other (sound.key_mem found)
    rw [← same, Store.tree_of_var isVar, replace, solved found]
  · rfl

end Bindings

namespace Store

variable {result : Except UnifyFailure Bindings} {store : Store} {bindable : List TypeId}

/-- All pairs have equal instances. -/
def Agree (store : Store) (assignment : TypeId → Tree) (paired : List (TypeId × TypeId)) :
    Prop :=
  ∀ pair ∈ paired, (store.tree pair.1).replace assignment = (store.tree pair.2).replace assignment

/-- Bindings were extended so that they are solved exactly where all pairs
agree. -/
structure Unifies (store : Store) (bindable : List TypeId) (earlier later : Bindings)
    (paired : List (TypeId × TypeId)) : Prop where
  /-- No binding is lost. -/
  grows : later.Grows earlier
  /-- The bindings are acyclic. -/
  sound : later.Sound store bindable
  /-- What holds of types and their parts holds of what is bound. -/
  preserves : ∀ {holds : TypeId → Prop}, store.Hereditary holds →
    (∀ pair ∈ paired, holds pair.1 ∧ holds pair.2) → earlier.Values holds → later.Values holds
  /-- The solutions are those under which the pairs agree. -/
  solvedBy_iff : ∀ {assignment : TypeId → Tree}, earlier.SolvedBy store assignment →
    (later.SolvedBy store assignment ↔ store.Agree assignment paired)

/-- Where there are no quantifiers, no solution lets all pairs agree. -/
def Refutes (store : Store) (bindable : List TypeId) (bindings : Bindings)
    (paired : List (TypeId × TypeId)) : Prop :=
  (∀ pair ∈ paired, (store.tree pair.1).quantifierFree ∧ (store.tree pair.2).quantifierFree) →
  (bindings.Values fun type => (store.tree type).quantifierFree) →
  ∀ ⦃assignment : TypeId → Tree⦄, AssignsOnly bindable assignment →
    bindings.SolvedBy store assignment → ¬store.Agree assignment paired

/-- What an attempt to unify pairs ends with; it is never cut off. -/
def Outcome (store : Store) (bindable : List TypeId) (bindings : Bindings)
    (paired : List (TypeId × TypeId)) : Except UnifyFailure Bindings → Prop
  | .ok later => store.Unifies bindable bindings later paired
  | .error failure => failure = .clash ∧ store.Refutes bindable bindings paired

section Composing

variable {bindings later : Bindings} {paired rest : List (TypeId × TypeId)}
  {pair : TypeId × TypeId} {left right : TypeId}

/-- Pairs that agree under every solution need no further bindings. -/
theorem unifies_self (sound : bindings.Sound store bindable)
    (agree : ∀ {assign}, bindings.SolvedBy store assign → store.Agree assign paired) :
    store.Unifies bindable bindings bindings paired where
  grows := Grows.refl bindings
  sound := sound
  preserves _ _ values := values
  solvedBy_iff solved := ⟨fun _ => agree solved, fun _ => solved⟩

theorem Unifies.cons {last : Bindings} (first : store.Unifies bindable bindings later [pair])
    (others : store.Unifies bindable later last rest) :
    store.Unifies bindable bindings last (pair :: rest) where
  grows := others.grows.trans first.grows
  sound := others.sound
  preserves hereditary both values := by
    apply others.preserves hereditary (List.forall_mem_of_forall_mem_cons both)
    exact first.preserves hereditary (fun other mem => both other (by simp_all)) values
  solvedBy_iff {assign} solved := by
    have firstIff := first.solvedBy_iff solved
    constructor
    · intro lastSolved
      have laterSolved : later.SolvedBy store assign :=
        fun id type found => lastSolved (others.grows found)
      have firstAgrees := firstIff.1 laterSolved
      have restAgrees := (others.solvedBy_iff laterSolved).1 lastSolved
      intro other mem
      rcases List.mem_cons.1 mem with rfl | mem
      · exact firstAgrees other (by simp)
      · exact restAgrees other mem
    · intro agree
      have laterSolved := firstIff.2 fun other mem => agree other (by simp_all)
      exact (others.solvedBy_iff laterSolved).2 (List.forall_mem_of_forall_mem_cons agree)

theorem Refutes.head (first : store.Refutes bindable bindings [pair]) :
    store.Refutes bindable bindings (pair :: rest) := by
  intro free values assign assignsOnly solved agree
  refine first ?_ values assignsOnly solved ?_
  · intro other mem
    exact free other (by simp_all)
  · intro other mem
    exact agree other (by simp_all)

theorem Refutes.tail (wf : store.WellFormed) (first : store.Unifies bindable bindings later [pair])
    (others : store.Refutes bindable later rest) :
    store.Refutes bindable bindings (pair :: rest) := by
  intro free values assign assignsOnly solved agree
  have laterValues := first.preserves wf.hereditary_quantifierFree
    (fun other mem => free other (by simp_all)) values
  have laterSolved := (first.solvedBy_iff solved).2 fun other mem =>
    agree other (by simp_all)
  refine others ?_ laterValues assignsOnly laterSolved ?_
  · intro other mem
    exact free other (by simp [mem])
  · intro other mem
    exact agree other (by simp [mem])

/-- Pairs are unified one after the other. -/
theorem outcome_foldlM (wf : store.WellFormed) {start : Bindings}
    {step : Bindings → TypeId × TypeId → Except UnifyFailure Bindings}
    (each : ∀ pair ∈ paired, ∀ current : Bindings, current.Sound store bindable →
      current.Grows start → store.Outcome bindable current [pair] (step current pair))
    (sound : bindings.Sound store bindable) (grows : bindings.Grows start) :
    store.Outcome bindable bindings paired (paired.foldlM step bindings) := by
  induction paired generalizing bindings with
  | nil =>
    rw [List.foldlM_nil]
    exact unifies_self sound fun _ pair mem => by simp at mem
  | cons pair rest ih =>
    rw [List.foldlM_cons]
    have first := each pair (by simp) bindings sound grows
    cases firstEq : step bindings pair with
    | error failure =>
      rw [firstEq] at first
      exact ⟨first.1, first.2.head⟩
    | ok mid =>
      rw [firstEq] at first
      have others := ih (List.forall_mem_of_forall_mem_cons each) first.sound
        (first.grows.trans grows)
      change store.Outcome bindable bindings (pair :: rest) (rest.foldlM step mid)
      cases restEq : rest.foldlM step mid with
      | error failure =>
        rw [restEq] at others
        exact ⟨others.1, Refutes.tail wf first others.2⟩
      | ok last =>
        rw [restEq] at others
        exact Unifies.cons first others

/-- Whether the pairs of one list agree may be seen from another list. -/
theorem Outcome.of_agree_iff {other : List (TypeId × TypeId)}
    (outcome : store.Outcome bindable bindings paired result)
    (descends : ∀ {holds : TypeId → Prop}, store.Hereditary holds → bindings.Values holds →
      (∀ pair ∈ other, holds pair.1 ∧ holds pair.2) → ∀ pair ∈ paired, holds pair.1 ∧ holds pair.2)
    (agreeIff : ∀ {assign}, bindings.SolvedBy store assign →
      (store.Agree assign paired ↔ store.Agree assign other)) (wf : store.WellFormed) :
    store.Outcome bindable bindings other result := by
  cases result with
  | ok later =>
    refine ⟨outcome.grows, outcome.sound, ?_, ?_⟩
    · intro holds hereditary both values
      exact outcome.preserves hereditary (descends hereditary values both) values
    · intro assign solved
      rw [outcome.solvedBy_iff solved, agreeIff solved]
  | error failure =>
    refine ⟨outcome.1, ?_⟩
    intro free values assign assignsOnly solved agree
    exact outcome.2 (descends wf.hereditary_quantifierFree values free) values
      assignsOnly solved ((agreeIff solved).2 agree)

end Composing

section Searching

variable {bindings : Bindings} {left right : TypeId}

section

variable (wf : store.WellFormed) (sound : bindings.Sound store bindable)
  (vars : store.Vars bindable)

include wf sound vars

/-- Under a solution nothing that a type reaches has a larger instance. -/
theorem sizeOf_replace_le_of_reaches
    (values : bindings.Values fun type => (store.tree type).quantifierFree)
    {assign : TypeId → Tree} (solved : bindings.SolvedBy store assign) {id target : TypeId}
    (reaches : bindings.Reaches store id target) (free : (store.tree id).quantifierFree) :
    sizeOf ((store.tree target).replace assign) ≤
      sizeOf ((store.tree id).replace assign) := by
  induction reaches using Relation.ReflTransGen.head_induction_on with
  | refl => exact Nat.le_refl _
  | head step _ ih =>
    rcases step with part | found
    · have child := wf.tree_mem_children part
      have smaller := sizeOf_replace_lt_of_mem_children child (kind_ne_quantified free) assign
      have below := ih (quantifierFree_of_mem_children free child)
      omega
    · have below := ih (values found)
      obtain ⟨number, isVar⟩ := vars _ (sound.key_mem found)
      rwa [tree_of_var isVar, replace, solved found]

/-- A variable that a type reaches has a smaller instance than the type. -/
theorem outcome_bindVar {var type : TypeId} (mem : var ∈ bindable) (inside : type < store.size)
    (unbound : bindings.find? var = none) (typeUnbound : bindings.find? type = none)
    (different : var ≠ type) :
    store.Outcome bindable bindings [(var, type)] (store.bindVar bindings var type) := by
  obtain ⟨number, isVar⟩ := vars var mem
  rcases bindVar_eq sound vars unbound type with ⟨reaches, failed⟩ | ⟨apart, succeeded⟩
  · rw [failed]
    refine ⟨rfl, ?_⟩
    intro free values assign _ solved agree
    have typeFree := (free (var, type) (by simp)).2
    have equal : (store.tree var).replace assign = (store.tree type).replace assign :=
      agree (var, type) (by simp)
    rcases reaches.cases_head with here | ⟨next, part | found, reaches⟩
    · exact different here.symm
    · have child := wf.tree_mem_children part
      have smaller := sizeOf_replace_lt_of_mem_children child (kind_ne_quantified typeFree) assign
      have below := sizeOf_replace_le_of_reaches wf sound vars values solved reaches
        (quantifierFree_of_mem_children typeFree child)
      rw [equal] at below
      omega
    · rw [typeUnbound] at found
      cases found
  · rw [succeeded]
    refine ⟨grows_bind unbound type, sound.bind mem inside apart, ?_, ?_⟩
    · intro holds _ both values
      exact values_bind values (both (var, type) (by simp)).2
    · intro assign solved
      rw [solvedBy_bind_iff unbound]
      simp [Agree, solved, tree_of_var isVar, replace]

end

theorem Outcome.swap (outcome : store.Outcome bindable bindings [(left, right)] result)
    (wf : store.WellFormed) :
    store.Outcome bindable bindings [(right, left)] result := by
  refine outcome.of_agree_iff ?_ ?_ wf
  · intro holds _ _ both
    simpa [and_comm] using both
  · intro assign _
    simp [Agree, eq_comm]

theorem Outcome.of_resolve (outcome : store.Outcome bindable bindings
      [(bindings.resolve left, bindings.resolve right)] result) (wf : store.WellFormed)
    (sound : bindings.Sound store bindable) (vars : store.Vars bindable) :
    store.Outcome bindable bindings [(left, right)] result := by
  refine outcome.of_agree_iff ?_ ?_ wf
  · intro holds _ values both
    have resolved : ∀ {id}, holds id → holds (bindings.resolve id) := fun start =>
      resolve_induction (fun _ _ found _ => values found) start
    have ends := both (left, right) (by simp)
    simpa using And.intro (resolved ends.1) (resolved ends.2)
  · intro assign solved
    simp [Agree, solved.replace_resolve sound vars]

theorem Outcome.of_pairs {paired : List (TypeId × TypeId)}
    (outcome : store.Outcome bindable bindings paired result) (wf : store.WellFormed)
    (pairsEq : (store.shape left).pairs (store.shape right) = some paired) :
    store.Outcome bindable bindings [(left, right)] result := by
  refine outcome.of_agree_iff ?_ ?_ wf
  · intro holds hereditary _ both pair mem
    have ends := both (left, right) (by simp)
    have parts := Shape.mem_components_of_mem_pairs pairsEq mem
    have kinds := Shape.kind_ne_quantified_of_pairs pairsEq
    exact ⟨hereditary ends.1 kinds.1 parts.1, hereditary ends.2 kinds.2 parts.2⟩
  · intro assign _
    simp only [Agree, List.mem_singleton, forall_eq]
    exact (wf.replace_eq_iff_pairs pairsEq assign assign).symm

/-- Different types whose shapes cannot be paired have no common instance. -/
theorem refutes_unpaired (wf : store.WellFormed)
    (leftFixed : left ∉ bindable) (rightFixed : right ∉ bindable)
    (unpaired : (store.shape left).pairs (store.shape right) = none)
    (different : store.tree left ≠ store.tree right) :
    store.Refutes bindable bindings [(left, right)] := by
  intro free _ assign assignsOnly _ agree
  have notQuantified : store.kind left ≠ .quantified := by
    rw [← Store.kind_tree]
    exact kind_ne_quantified (free (left, right) (by simp)).1
  have varStays : ∀ {id}, id ∉ bindable → store.kind id = .var →
      (store.tree id).replace assign = store.tree id := by
    intro id fixed isVar
    obtain ⟨number, shapeEq⟩ := exists_shape_eq_var isVar
    rw [tree_of_var shapeEq, replace, assignsOnly fixed]
  exact different (wf.tree_eq_of_unpaired unpaired notQuantified (varStays leftFixed)
    (varStays rightFixed) (agree (left, right) (by simp)))

section

variable (wf : store.WellFormed) (vars : store.Vars bindable)

include wf vars

/-- The search extends acyclic bindings as far as the two types need, and is not
cut off at any depth that no ranking exhausts. -/
theorem outcome_unifyWithin {depth : Nat}
    (sound : bindings.Sound store bindable) (leftInside : left < store.size)
    (rightInside : right < store.size) (deep : bindings.Deep store left depth) :
    store.Outcome bindable bindings [(left, right)]
      (store.unifyWithin bindable depth left right bindings) := by
  induction depth generalizing left right bindings with
  | zero =>
    obtain ⟨rank, ranked, rankLe⟩ := sound.exists_rank_le_size vars
    exact absurd (deep ranked rankLe) (Nat.not_lt_zero _)
  | succ depth ih =>
    obtain ⟨rank, ranked⟩ := sound.acyclic
    have unbound := find?_resolve ranked
    refine Outcome.of_resolve ?_ wf sound vars
    rw [wf.unifyWithin_succ]
    split
    · next identical =>
        exact unifies_self sound fun _ => by simp [Agree, identical]
    next different =>
      split
      · next bindsLeft =>
          exact outcome_bindVar wf sound vars bindsLeft (sound.resolve_inside rightInside)
            (unbound left) (unbound right) different
      next leftFixed =>
        split
        · next bindsRight =>
            exact (outcome_bindVar wf sound vars bindsRight
              (sound.resolve_inside leftInside) (unbound right) (unbound left)
              (Ne.symm different)).swap wf
        next rightFixed =>
          split
          · next paired pairsEq =>
              refine Outcome.of_pairs ?_ wf pairsEq
              refine outcome_foldlM wf ?_ sound (Grows.refl bindings)
              intro pair mem current currentSound grows
              have parts := Shape.mem_components_of_mem_pairs pairsEq mem
              exact ih currentSound
                (wf.component_inside (sound.resolve_inside leftInside) _ parts.1)
                (wf.component_inside (sound.resolve_inside rightInside) _ parts.2)
                ((deep.component parts.1).of_grows grows)
          · next unpaired =>
              split
              · next same =>
                  exact unifies_self sound fun _ => by
                    simp [Agree, wf.same_iff.1 same]
              · next notSame =>
                  exact ⟨rfl, refutes_unpaired wf leftFixed rightFixed unpaired
                    (mt wf.same_iff.2 notSame)⟩

theorem outcome_unifier (leftInside : left < store.size) (rightInside : right < store.size) :
    store.Outcome bindable [] [(left, right)] (store.unifier bindable left right) := by
  refine outcome_unifyWithin wf vars (sound_nil wf bindable) leftInside rightInside ?_
  intro rank _ rankLe
  exact Nat.lt_of_le_of_lt (rankLe left) (store.size_lt_searchDepth bindable.length)

end

end Searching
end Store
end PipeCheck
