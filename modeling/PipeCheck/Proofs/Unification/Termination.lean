import PipeCheck.Proofs.Unification.CommonInstances
import PipeCheck.Proofs.Substitution.Replacement

/-!
# The loops of unification come to an end

Following bindings, looking for a variable, searching for a unifier and applying
what was found go on until they have an answer, and nothing but acyclic bindings
makes them stop.  Each of them is described here without a bound, as a finite
derivation of its answer.  From the empty bindings the search always has such a
derivation, and the bindings that it leaves behind are acyclic, whether it
succeeds or not.  Applying them stops after one round more than there are bound
variables at most, at a type in which none of these is left.
-/

namespace PipeCheck

open Bindings

namespace Bindings

/-- No type mentions itself, directly or through bindings. -/
def Acyclic (bindings : Bindings) (store : Store) : Prop :=
  ∀ id, ¬Relation.TransGen (bindings.Step store) id id

theorem Ranked.acyclic {bindings : Bindings} {store : Store} {rank : TypeId → Nat}
    (ranked : bindings.Ranked store rank) :
    bindings.Acyclic store := by
  intro id cycle
  obtain ⟨next, step, reaches⟩ := Relation.TransGen.head'_iff.1 cycle
  exact Nat.not_lt_of_le (ranked.le_of_reaches reaches) (ranked step)

end Bindings

namespace Store

mutual

/-- Looking for a variable in a type, through bindings, comes to an end with an
answer. -/
inductive Looks (store : Store) (bindings : Bindings) (var : TypeId) : TypeId → Bool → Prop
  | here {id : TypeId} (leads : bindings.LeadsTo id var) : Looks store bindings var id true
  | deeper {id last : TypeId} {answer : Bool} (leads : bindings.LeadsTo id last)
      (elsewhere : last ≠ var)
      (among : LooksAmong store bindings var (store.shape last).components answer) :
      Looks store bindings var id answer

/-- Looking for a variable in one type after the other, up to the first that
mentions it, comes to an end with an answer. -/
inductive LooksAmong (store : Store) (bindings : Bindings) (var : TypeId) :
    List TypeId → Bool → Prop
  | nil : LooksAmong store bindings var [] false
  | found {id : TypeId} {rest : List TypeId} (looks : Looks store bindings var id true) :
      LooksAmong store bindings var (id :: rest) true
  | next {id : TypeId} {rest : List TypeId} {answer : Bool}
      (looks : Looks store bindings var id false)
      (among : LooksAmong store bindings var rest answer) :
      LooksAmong store bindings var (id :: rest) answer

end

mutual

/-- The search for a unifier of two types comes to an end.  It tells whether it
succeeds, and leaves bindings behind in either case. -/
inductive Search (store : Store) (bindable : List TypeId) :
    (left right : TypeId) → Bindings → Bool → Bindings → Prop
  | equal {left right last : TypeId} {bindings : Bindings}
      (leftLeads : bindings.LeadsTo left last) (rightLeads : bindings.LeadsTo right last) :
      Search store bindable left right bindings true bindings
  | bindLeft {left right leftLast rightLast : TypeId} {bindings : Bindings} {occurs : Bool}
      (leftLeads : bindings.LeadsTo left leftLast) (rightLeads : bindings.LeadsTo right rightLast)
      (different : leftLast ≠ rightLast) (bindsLeft : leftLast ∈ bindable)
      (looks : Looks store bindings leftLast rightLast occurs) :
      Search store bindable left right bindings (!occurs)
        (if occurs then bindings else bindings.bind leftLast rightLast)
  | bindRight {left right leftLast rightLast : TypeId} {bindings : Bindings} {occurs : Bool}
      (leftLeads : bindings.LeadsTo left leftLast) (rightLeads : bindings.LeadsTo right rightLast)
      (different : leftLast ≠ rightLast) (leftFixed : leftLast ∉ bindable)
      (bindsRight : rightLast ∈ bindable) (looks : Looks store bindings rightLast leftLast occurs) :
      Search store bindable left right bindings (!occurs)
        (if occurs then bindings else bindings.bind rightLast leftLast)
  | descend {left right leftLast rightLast : TypeId} {bindings later : Bindings} {answer : Bool}
      {paired : List (TypeId × TypeId)}
      (leftLeads : bindings.LeadsTo left leftLast) (rightLeads : bindings.LeadsTo right rightLast)
      (different : leftLast ≠ rightLast) (leftFixed : leftLast ∉ bindable)
      (rightFixed : rightLast ∉ bindable)
      (pairsEq : (store.shape leftLast).pairs (store.shape rightLast) = some paired)
      (all : SearchAll store bindable paired bindings answer later) :
      Search store bindable left right bindings answer later
  | compare {left right leftLast rightLast : TypeId} {bindings : Bindings}
      (leftLeads : bindings.LeadsTo left leftLast) (rightLeads : bindings.LeadsTo right rightLast)
      (different : leftLast ≠ rightLast) (leftFixed : leftLast ∉ bindable)
      (rightFixed : rightLast ∉ bindable)
      (unpaired : (store.shape leftLast).pairs (store.shape rightLast) = none) :
      Search store bindable left right bindings (store.same leftLast rightLast) bindings

/-- The search for a unifier of one pair after the other, up to the first that
has none, comes to an end. -/
inductive SearchAll (store : Store) (bindable : List TypeId) :
    List (TypeId × TypeId) → Bindings → Bool → Bindings → Prop
  | nil {bindings : Bindings} : SearchAll store bindable [] bindings true bindings
  | fails {pair : TypeId × TypeId} {rest : List (TypeId × TypeId)} {bindings later : Bindings}
      (search : Search store bindable pair.1 pair.2 bindings false later) :
      SearchAll store bindable (pair :: rest) bindings false later
  | next {pair : TypeId × TypeId} {rest : List (TypeId × TypeId)}
      {bindings middle later : Bindings} {answer : Bool}
      (search : Search store bindable pair.1 pair.2 bindings true middle)
      (all : SearchAll store bindable rest middle answer later) :
      SearchAll store bindable (pair :: rest) bindings answer later

end

section Looking

variable {store : Store} {bindings : Bindings} {var : TypeId}

theorem exists_looksAmong {ask : TypeId → Except UnifyFailure Bool} {ids : List TypeId}
    (each : ∀ id ∈ ids, ∃ answer, store.Looks bindings var id answer ∧ ask id = .ok answer) :
    ∃ answer, store.LooksAmong bindings var ids answer ∧ ids.anyM ask = .ok answer := by
  induction ids with
  | nil => exact ⟨false, .nil, rfl⟩
  | cons first rest ih =>
    obtain ⟨firstAnswer, looks, askEq⟩ := each first (by simp)
    rw [List.anyM, askEq]
    cases firstAnswer with
    | true => exact ⟨true, .found looks, rfl⟩
    | false =>
      obtain ⟨answer, among, restEq⟩ := ih (List.forall_mem_of_forall_mem_cons each)
      exact ⟨answer, .next looks among, restEq⟩

/-- Under acyclic bindings every look comes to an end, and a bound on its depth
that exceeds the rank of the type does not cut it off. -/
theorem exists_looks {rank : TypeId → Nat} (ranked : bindings.Ranked store rank)
    (var : TypeId) {depth : Nat} {id : TypeId} (deep : rank id < depth) :
    ∃ answer, store.Looks bindings var id answer ∧
      store.occursWithin bindings var depth id = .ok answer := by
  induction depth generalizing id with
  | zero => exact absurd deep (Nat.not_lt_zero _)
  | succ depth ih =>
    have leads := leadsTo_resolve ranked id
    rw [occursWithin_succ]
    split
    · next here => exact ⟨true, .here (here ▸ leads), rfl⟩
    · next elsewhere =>
        have resolvedLe := ranked.le_of_reaches (reaches_resolve bindings store id)
        have each : ∀ part ∈ (store.shape (bindings.resolve id)).components,
            ∃ answer, store.Looks bindings var part answer ∧
              store.occursWithin bindings var depth part = .ok answer := by
          intro part mem
          apply ih
          exact Nat.lt_of_lt_of_le (ranked (.inl mem)) (resolvedLe.trans (Nat.le_of_lt_succ deep))
        obtain ⟨answer, among, anyEq⟩ := exists_looksAmong each
        exact ⟨answer, .deeper leads elsewhere among, anyEq⟩

end Looking

section Searching

variable {store : Store} {bindable : List TypeId} {bindings : Bindings} {left right : TypeId}

/-- A search, as it runs without a bound, comes to an end and leaves acyclic
bindings behind; the bounded search gives the same answer. -/
def Halts (store : Store) (bindable : List TypeId) (run : Bindings → Bool → Bindings → Prop)
    (bindings : Bindings) (result : Except UnifyFailure Bindings) : Prop :=
  ∃ answer later, run bindings answer later ∧ later.Grows bindings ∧
    later.Sound store bindable ∧ result = if answer then .ok later else .error .clash

theorem halts_foldlM {start : Bindings} {paired : List (TypeId × TypeId)}
    {step : Bindings → TypeId × TypeId → Except UnifyFailure Bindings}
    (each : ∀ pair ∈ paired, ∀ current : Bindings, current.Sound store bindable →
      current.Grows start →
        store.Halts bindable (store.Search bindable pair.1 pair.2) current (step current pair))
    (sound : bindings.Sound store bindable) (grows : bindings.Grows start) :
    store.Halts bindable (store.SearchAll bindable paired) bindings
      (paired.foldlM step bindings) := by
  induction paired generalizing bindings with
  | nil => exact ⟨true, bindings, .nil, .refl bindings, sound, rfl⟩
  | cons pair rest ih =>
    obtain ⟨answer, mid, search, midGrows, midSound, stepEq⟩ :=
      each pair (by simp) bindings sound grows
    rw [List.foldlM_cons, stepEq]
    cases answer with
    | false => exact ⟨false, mid, .fails search, midGrows, midSound, rfl⟩
    | true =>
      obtain ⟨restAnswer, later, all, laterGrows, laterSound, restEq⟩ :=
        ih (List.forall_mem_of_forall_mem_cons each) midSound (midGrows.trans grows)
      exact ⟨restAnswer, later, .next search all, laterGrows.trans midGrows, laterSound, restEq⟩

/-- Binding a variable looks for it in the type first, and the bindings stay
acyclic. -/
theorem exists_looks_bindVar (sound : bindings.Sound store bindable)
    (vars : store.Vars bindable) {var type : TypeId}
    (mem : var ∈ bindable) (inside : type < store.size) (unbound : bindings.find? var = none) :
    ∃ occurs, store.Looks bindings var type occurs ∧
      ∀ {run : Bindings → Bool → Bindings → Prop},
        run bindings (!occurs) (if occurs then bindings else bindings.bind var type) →
          store.Halts bindable run bindings (store.bindVar bindings var type) := by
  obtain ⟨rank, ranked, rankLe⟩ := sound.exists_rank_le_size vars
  obtain ⟨occurs, looks, occursEq⟩ := exists_looks ranked var
    (Nat.lt_of_le_of_lt (rankLe type) (store.size_lt_searchDepth bindings.length))
  refine ⟨occurs, looks, ?_⟩
  intro run ran
  rcases bindVar_eq sound vars unbound type with ⟨_, failed⟩ | ⟨apart, succeeded⟩
  · cases occurs with
    | true => exact ⟨false, bindings, ran, .refl bindings, sound, failed⟩
    | false =>
      unfold bindVar Store.occurs at failed
      rw [occursEq] at failed
      cases failed
  · cases occurs with
    | true =>
      unfold bindVar Store.occurs at succeeded
      rw [occursEq] at succeeded
      cases succeeded
    | false =>
      exact ⟨true, bindings.bind var type, ran, grows_bind unbound type,
        sound.bind mem inside apart, succeeded⟩

/-- From acyclic bindings the search comes to an end, and a bound on its depth
that no ranking exhausts does not cut it off. -/
theorem halts_unifyWithin (wf : store.WellFormed) (vars : store.Vars bindable) {depth : Nat}
    (sound : bindings.Sound store bindable) (leftInside : left < store.size)
    (rightInside : right < store.size) (deep : bindings.Deep store left depth) :
    store.Halts bindable (store.Search bindable left right) bindings
      (store.unifyWithin bindable depth left right bindings) := by
  induction depth generalizing left right bindings with
  | zero =>
    obtain ⟨rank, ranked, rankLe⟩ := sound.exists_rank_le_size vars
    exact absurd (deep ranked rankLe) (Nat.not_lt_zero _)
  | succ depth ih =>
    obtain ⟨rank, ranked⟩ := sound.acyclic
    have leads := leadsTo_resolve ranked
    have unbound := find?_resolve ranked
    rw [wf.unifyWithin_succ]
    split
    · next identical =>
        exact ⟨true, bindings, .equal (leads left) (identical ▸ leads right), .refl bindings,
          sound, rfl⟩
    next different =>
      split
      · next bindsLeft =>
          obtain ⟨occurs, looks, halts⟩ := exists_looks_bindVar sound vars bindsLeft
            (sound.resolve_inside rightInside) (unbound left)
          exact halts (.bindLeft (leads left) (leads right) different bindsLeft looks)
      next leftFixed =>
        split
        · next bindsRight =>
            obtain ⟨occurs, looks, halts⟩ := exists_looks_bindVar sound vars bindsRight
              (sound.resolve_inside leftInside) (unbound right)
            exact halts (.bindRight (leads left) (leads right) different leftFixed bindsRight looks)
        next rightFixed =>
          split
          · next paired pairsEq =>
              obtain ⟨answer, later, all, grows, laterSound, resultEq⟩ :=
                halts_foldlM (fun pair mem current currentSound grows => by
                  have parts := Shape.mem_components_of_mem_pairs pairsEq mem
                  exact ih currentSound
                    (wf.component_inside (sound.resolve_inside leftInside) _ parts.1)
                    (wf.component_inside (sound.resolve_inside rightInside) _ parts.2)
                    ((deep.component parts.1).of_grows grows))
                  sound (.refl bindings)
              exact ⟨answer, later, .descend (leads left) (leads right) different leftFixed
                rightFixed pairsEq all, grows, laterSound, resultEq⟩
          · next unpaired =>
              exact ⟨store.same _ _, bindings, .compare (leads left) (leads right) different
                leftFixed rightFixed unpaired, .refl bindings, sound, rfl⟩

end Searching
end Store

namespace Alloc

variable {bindings : Bindings} {id : TypeId} {store : Store}

/-- Applying bindings until the type stays the same stops after a number of
rounds. -/
inductive StopsAfter (bindings : Bindings) : Nat → TypeId × Store → TypeId × Store → Prop
  | stays {id : TypeId} {store last : Store}
      (round : (substitute bindings id).run store = (id, last)) :
      StopsAfter bindings 1 (id, store) (id, last)
  | changes {id next : TypeId} {store middle : Store} {rounds : Nat} {final : TypeId × Store}
      (round : (substitute bindings id).run store = (next, middle)) (changed : next ≠ id)
      (rest : StopsAfter bindings rounds (next, middle) final) :
      StopsAfter bindings (rounds + 1) (id, store) final

/-- One round of the bounded loop. -/
theorem run_substituteUntilStable_succ {next : TypeId} {mid : Store}
    (round : (substitute bindings id).run store = (next, mid)) (bound : Nat) :
    (substituteUntilStable bindings (bound + 1) id).run store =
      if next = id then (id, mid)
      else (substituteUntilStable bindings bound next).run mid := by
  rw [substituteUntilStable, StateT.run_bind, round]
  change StateT.run (if next = id then pure id else _) mid = _
  split
  · rfl
  · rfl

/-- A bound of at least that many rounds does not cut the loop off. -/
theorem StopsAfter.run_eq {rounds : Nat} {start final : TypeId × Store}
    (stops : StopsAfter bindings rounds start final) {bound : Nat} (enough : rounds ≤ bound) :
    (substituteUntilStable bindings bound start.1).run start.2 = final := by
  induction stops generalizing bound with
  | stays round =>
    obtain ⟨less, rfl⟩ := Nat.exists_eq_add_one.2 (Nat.zero_lt_of_lt enough)
    rw [run_substituteUntilStable_succ round, if_pos rfl]
  | changes round changed rest ih =>
    obtain ⟨less, rfl⟩ := Nat.exists_eq_add_one.2 (Nat.zero_lt_of_lt enough)
    rw [run_substituteUntilStable_succ round, if_neg changed]
    exact ih (Nat.le_of_succ_le_succ enough)

open Store

/-- Under acyclic bindings the loop stops after one round more than there are
levels of bound variables in the type, at most. -/
theorem exists_stopsAfter {base : Store} (baseWf : base.WellFormed) {rank : TypeId → Nat}
    (ranked : bindings.Ranked base rank) (bindingsInside : bindings.Inside base)
    (follows : store.Follows base) (inside : id < store.size) {bound : Nat}
    (few : bindings.LevelsWithin rank (store.tree id) bound) :
    ∃ rounds ≤ bound + 1, ∃ final, StopsAfter bindings rounds (id, store) final := by
  induction bound using Nat.strongRecOn generalizing store id with
  | ind bound ih =>
    obtain ⟨built, _, changes⟩ :=
      yields_substitute_round baseWf ranked bindingsInside follows inside few
    by_cases same : ((substitute bindings id).run store).1 = id
    · exact ⟨1, Nat.le_add_left 1 _, _, .stays (Prod.ext same rfl)⟩
    · obtain ⟨less, rfl, fewer⟩ := changes same
      obtain ⟨rounds, roundsLe, final, rest⟩ := ih less
        (Nat.lt_succ_self less) (built.toFollows.trans follows) built.inside fewer
      exact ⟨rounds + 1, Nat.succ_le_succ roundsLe, final, .changes rfl same rest⟩

/-- The loop stops after one round more than there are bound variables at most,
where the bounded loop stops too. -/
def LoopEnds (bindings : Bindings) (start final : TypeId × Store) : Prop :=
  (∃ rounds ≤ bindings.keys.card + 1, StopsAfter bindings rounds start final) ∧
    (substituteUntilStable bindings (bindings.length + 1) start.1).run start.2 = final

/-- Under sound bindings the loop ends at a type without bound variables. -/
theorem exists_loopEnds (wf : store.WellFormed) {bindable : List TypeId}
    (sound : bindings.Sound store bindable) (inside : id < store.size) :
    ∃ final, LoopEnds bindings (id, store) final ∧
      (∃ times, final.2.tree final.1 =
        (Tree.replace (bindings.assignment store))^[times] (store.tree id)) ∧
      ∀ leaf ∈ (final.2.tree final.1).occurrences, bindings.find? leaf = none := by
  obtain ⟨rank, ranked⟩ := sound.acyclic
  have few := bindings.levelsWithin_card rank (store.tree id)
  obtain ⟨rounds, roundsLe, final, stops⟩ := exists_stopsAfter wf ranked sound.inside
    wf.follows_self inside few
  have runEq := stops.run_eq (roundsLe.trans (Nat.succ_le_succ bindings.card_keys_le))
  have stable := yields_substituteUntilStable wf ranked sound.inside
    wf.follows_self inside few (Nat.lt_succ_of_le bindings.card_keys_le)
  rw [Yields, runEq] at stable
  obtain ⟨⟨times, built⟩, unbound⟩ := stable
  exact ⟨final, ⟨⟨rounds, roundsLe, stops⟩, runEq⟩, ⟨times, built.tree_eq⟩, unbound⟩

end Alloc

namespace Store

open Alloc

/-- The search for a unifier of two types comes to an end, as the bounded search
does.  Bindings are only ever added, so the earlier stages of the search are
parts of what it leaves behind; all of them are acyclic, and chains of bindings
and looks for a variable come to an end. -/
structure SearchEnds (store : Store) (bindable : List TypeId) (left right : TypeId)
    (answer : Bool) (bindings : Bindings) : Prop where
  /-- The unbounded search gives the answer. -/
  search : store.Search bindable left right [] answer bindings
  /-- The bounded search gives the same answer. -/
  unifier_eq : store.unifier bindable left right =
    if answer then .ok bindings else .error .clash
  /-- All stages of the bindings are acyclic. -/
  acyclic : ∀ ⦃earlier : Bindings⦄, bindings.Grows earlier → earlier.Acyclic store
  /-- Chains of bindings come to an end. -/
  resolve : ∀ id, bindings.LeadsTo id (bindings.resolve id)
  /-- Looks for a variable come to an end. -/
  occurs : ∀ var id, ∃ answer, store.Looks bindings var id answer ∧
    store.occurs bindings var id = .ok answer

theorem exists_searchEnds {store : Store} (wf : store.WellFormed)
    {bindable : List TypeId} (vars : store.Vars bindable)
    {left right : TypeId} (leftInside : left < store.size) (rightInside : right < store.size) :
    ∃ answer bindings, store.SearchEnds bindable left right answer bindings ∧
      bindings.Sound store bindable := by
  have deep : Deep [] store left (store.searchDepth bindable.length) :=
    fun rank _ rankLe =>
      Nat.lt_of_le_of_lt (rankLe left) (store.size_lt_searchDepth bindable.length)
  obtain ⟨answer, bindings, search, _, sound, unifierEq⟩ := halts_unifyWithin wf vars
    (sound_nil wf bindable) leftInside rightInside deep
  obtain ⟨rank, ranked, rankLe⟩ := sound.exists_rank_le_size vars
  refine ⟨answer, bindings, ⟨search, unifierEq, ?_, leadsTo_resolve ranked, ?_⟩, sound⟩
  · intro earlier grows
    exact (ranked.of_grows grows).acyclic
  · intro var id
    exact exists_looks ranked var
      (Nat.lt_of_le_of_lt (rankLe id) (store.size_lt_searchDepth bindings.length))

/-- All variables that a type mentions, those under their own quantifiers
included, are unbound. -/
def MentionsUnbound (bindings : Bindings) (tree : Tree) : Prop :=
  ∀ place ∈ tree.places, bindings.find? place.id = none

/-- Renaming brings in no quantifier. -/
theorem Freshens.quantifiedVars_subset {earlier later : Store} {binders fresh : List TypeId}
    {body renamed : TypeId} (freshens : Freshens earlier later binders body fresh renamed)
    {leaf : TypeId} (listed : leaf ∈ (later.tree renamed).quantifiedVars) :
    leaf ∈ (earlier.tree body).quantifiedVars := by
  rw [freshens.tree_eq] at listed
  refine (Tree.mem_quantifiedVars_of_replace listed).resolve_right ?_
  rintro ⟨source, _, present⟩
  simp [Tree.quantifiedVars] at present

section Stripped

variable {store first mid : Store} {left right : TypeId} {leftVars : List TypeId}
  {leftBody : TypeId} {rightVars : List TypeId} {rightBody : TypeId}
  (strips : Strips store first mid left right leftVars leftBody rightVars rightBody)
  (wf : store.WellFormed) (rightInside : right < store.size)

include strips wf rightInside

/-- The quantifiers inside the stripped types were there before. -/
theorem Strips.quantifiedVars_inside {leaf : TypeId} :
    (leaf ∈ (mid.tree leftBody).quantifiedVars → leaf < store.size) ∧
      (leaf ∈ (mid.tree rightBody).quantifiedVars → leaf < store.size) := by
  rw [strips.right.grown.tree_eq strips.left.wellFormed strips.left.inside]
  refine ⟨fun listed => ?_, fun listed => ?_⟩
  · exact wf.inside_of_mem_quantifiedVars (strips.left.quantifiedVars_subset listed)
  · have before := strips.right.quantifiedVars_subset listed
    rw [strips.left.grown.tree_eq wf (wf.body_inside rightInside)] at before
    exact wf.inside_of_mem_quantifiedVars before

omit wf rightInside in
/-- The variables that may be bound are new. -/
theorem Strips.size_le_of_mem {id : TypeId} (mem : id ∈ leftVars ++ rightVars) :
    store.size ≤ id := by
  rcases List.mem_append.1 mem with inLeft | inRight
  · exact strips.left.size_le_of_mem inLeft
  · exact strips.left.grown.size_le.trans (strips.right.size_le_of_mem inRight)

/-- Where no bound variable is free any more, none is mentioned at all: the
quantifiers that the loop passes list variables that were there before. -/
theorem Strips.mentionsUnbound {bindings : Bindings} {times : Nat} {tree : Tree}
    (unifies : mid.Unifies (leftVars ++ rightVars) [] bindings [(leftBody, rightBody)])
    (treeEq : tree = (Tree.replace (bindings.assignment mid))^[times] (mid.tree leftBody))
    (unbound : ∀ leaf ∈ tree.occurrences, bindings.find? leaf = none) :
    MentionsUnbound bindings tree := by
  have midWf := strips.right.wellFormed
  have values : bindings.Values fun type =>
      ∀ leaf ∈ (mid.tree type).quantifiedVars, leaf < store.size := by
    refine unifies.preserves ?_ ?_ ?_
    · intro id part inside _ mem leaf listed
      apply inside leaf
      rw [midWf.quantifiedVars_tree, List.mem_append, List.mem_flatMap]
      exact .inr ⟨part, mem, listed⟩
    · intro pair mem
      rw [List.mem_singleton.1 mem]
      exact ⟨fun leaf => (strips.quantifiedVars_inside wf rightInside).1,
        fun leaf => (strips.quantifiedVars_inside wf rightInside).2⟩
    · intro id type found
      cases found
  have old : ∀ leaf ∈ tree.quantifiedVars, leaf < store.size := by
    rw [treeEq]
    clear treeEq unbound
    induction times with
    | zero => exact fun leaf => (strips.quantifiedVars_inside wf rightInside).1
    | succ times ih =>
      intro leaf listed
      rw [Function.iterate_succ_apply'] at listed
      rcases Tree.mem_quantifiedVars_of_replace listed with inTree | ⟨source, _, present⟩
      · exact ih leaf inTree
      · cases found : bindings.find? source with
        | none => simp [assignment_of_unbound found, Tree.quantifiedVars] at present
        | some type =>
          rw [assignment_of_find? found] at present
          exact values found leaf present
  intro place mem
  by_cases isFree : place.Free
  · exact unbound place.id (Tree.mem_occurrences_of_mem_places mem isFree)
  · have listed := Tree.mem_quantifiedVars_of_mem_scopes mem (not_not.1 isFree)
    have isOld := old place.id (listed.resolve_right (by simp))
    cases found : bindings.find? place.id with
    | none => rfl
    | some type =>
      exact absurd isOld (Nat.not_lt_of_le (strips.size_le_of_mem (unifies.sound.key_mem found)))

end Stripped

/-- Unification of any two stored types terminates.  The search for a unifier
comes to an end with acyclic bindings, whichever variables may be bound; and
after the types have been stripped of their quantifiers, applying what was found
stops after one round more than there are bound variables at most, at a type that
mentions none of them. -/
theorem unify_terminates {store : Store} (wellFormed : store.WellFormed) {left right : TypeId}
    (leftInside : left < store.size) (rightInside : right < store.size) :
    (∀ bindable, (∀ id ∈ bindable, ∃ number, store.shape id = .var number) →
      ∃ answer bindings, store.SearchEnds bindable left right answer bindings ∧
        (answer = true → ∃ final, LoopEnds bindings (left, store) final ∧
          ∀ leaf ∈ (final.2.tree final.1).occurrences, bindings.find? leaf = none)) ∧
    ∀ {leftVars leftBody first rightVars rightBody middle},
      (stripQuantifier left).run store = ((leftVars, leftBody), first) →
      (stripQuantifier right).run first = ((rightVars, rightBody), middle) →
      ∃ answer bindings final,
        middle.SearchEnds (leftVars ++ rightVars) leftBody rightBody answer bindings ∧
        (answer = true → LoopEnds bindings (leftBody, middle) final ∧
          MentionsUnbound bindings (final.2.tree final.1)) ∧
        (left ≠ right → (unify left right).run store =
          if answer then
            (some <$> quantifiedOver ((final.2.freeVars final.1).filter fun id =>
              (leftVars ++ rightVars).contains id) final.1).run final.2
          else (none, middle)) := by
  refine ⟨?_, ?_⟩
  · intro bindable vars
    obtain ⟨answer, bindings, ends, sound⟩ :=
      exists_searchEnds wellFormed vars leftInside rightInside
    refine ⟨answer, bindings, ends, fun _ => ?_⟩
    obtain ⟨final, loopEnds, _, unbound⟩ := exists_loopEnds wellFormed sound leftInside
    exact ⟨final, loopEnds, unbound⟩
  intro leftVars leftBody first rightVars rightBody middle leftEq rightEq
  have leftDone := (yields_stripQuantifier wellFormed leftInside).of_run_eq leftEq
  have rightDone := (yields_stripQuantifier leftDone.wellFormed
    (leftDone.grown.inside rightInside)).of_run_eq rightEq
  have rightShape := leftDone.grown.shape_eq rightInside
  simp only [Store.binders, Store.body, rightShape] at rightDone
  have strips : Strips store first middle left right leftVars leftBody rightVars rightBody :=
    ⟨leftDone, rightDone⟩
  have leftBodyInside : leftBody < middle.size := rightDone.grown.inside leftDone.inside
  obtain ⟨answer, bindings, ends, sound⟩ :=
    exists_searchEnds rightDone.wellFormed strips.vars leftBodyInside rightDone.inside
  obtain ⟨final, loopEnds, ⟨times, treeEq⟩, unbound⟩ :=
    exists_loopEnds rightDone.wellFormed sound leftBodyInside
  refine ⟨answer, bindings, final, ends, fun succeeds => ⟨loopEnds, ?_⟩, fun different => ?_⟩
  · have outcome := outcome_unifier rightDone.wellFormed strips.vars leftBodyInside rightDone.inside
    rw [ends.unifier_eq, if_pos succeeds] at outcome
    exact strips.mentionsUnbound wellFormed rightInside outcome treeEq unbound
  · unfold unify
    rw [if_neg different, StateT.run_bind, leftEq]
    change StateT.run (stripQuantifier right >>= _) first = _
    rw [StateT.run_bind, rightEq]
    change StateT.run (get >>= _) middle = _
    rw [StateT.run_bind, StateT.run_get, pure_bind, ends.unifier_eq]
    cases answer with
    | false => rfl
    | true =>
      change StateT.run (substituteUntilStable bindings (bindings.length + 1) leftBody >>= _)
        middle = _
      rw [StateT.run_bind, loopEnds.2]
      rfl

/-- The types `forall 'a, 'b. ('a, 'b, 'b)` and
`forall 'c. (['c], 'c, forall 'x. 'x -> 'u)`, of which `'u` is no quantifier's. -/
def chained : Store where
  shapes := #[.var 0, .var 1, .tuple [0, 1, 1], .quantified [0, 1] 2, .var 2, .list 4,
    .var 3, .var 4, .function 6 7, .quantified [6] 8, .tuple [5, 4, 9], .quantified [4] 10]
  nextVar := 5

/-- The search binds `'a` to `['c]`, `'b` to `'c` and `'c` to the quantified type,
and three rounds replace all of them. -/
theorem unify_chained_terminates :
    chained.WellFormed ∧ ((unify 3 11).run chained).1 = some 20 ∧
      ∃ middle bindings final,
        middle.SearchEnds [12, 13, 15] 14 17 true bindings ∧
        LoopEnds bindings (14, middle) final ∧
        MentionsUnbound bindings (final.2.tree final.1) := by
  have leftEq : ((stripQuantifier 3).run chained).1 = ([12, 13], 14) := by decide
  have rightEq : ((stripQuantifier 11).run ((stripQuantifier 3).run chained).2).1 =
      ([15], 17) := by decide
  obtain ⟨answer, bindings, final, ends, loop, runEq⟩ :=
    (unify_terminates (by decide : chained.WellFormed) (by decide : 3 < chained.size)
      (by decide : 11 < chained.size)).2 (Prod.ext leftEq rfl) (Prod.ext rightEq rfl)
  have unified : ((unify 3 11).run chained).1 = some 20 := by decide
  have succeeds : answer = true := by
    cases answer with
    | true => rfl
    | false =>
      rw [runEq (by decide)] at unified
      cases unified
  subst succeeds
  exact ⟨by decide, unified, _, bindings, final, ends, loop rfl⟩

end Store
end PipeCheck
