import PipeCheck.Proofs.Properties.ClosedProgram
import PipeCheck.Proofs.Expr.Numbering
import PipeCheck.Proofs.Application.Replay
import PipeCheck.Proofs.Typing.Visits

/-!
# Every node is typed

Where the nodes of an expression have distinct ids, as numbering gives them, the
analysis records one type for each of them and for nothing else, and a node is said to
map a function over a list only if it is a pipe whose function could not be applied to
the list itself.  The main statement is `Analysis.numbered_covered`.
-/

namespace PipeCheck

open List PipeCheck.Expr

namespace Checked

variable {policy : QuantifierPolicy} {argument function result : TypeId} {before after last : Store}

/-- In any later store the argument is still a list that the function cannot be
applied to. -/
theorem Maps.of_follows (maps : Maps policy argument function result before after)
    (follows : last.Follows after) :
    last.kind result = .list ∧ last.isList argument ∧
      ((apply policy argument function).run.run last).1 = .ok none := by
  have grown := (follows.trans maps.follows).grown
  have alike := grown.alike maps.wellFormed follows.wellFormed
  refine ⟨?_, ?_, ?_⟩
  · rw [Store.kind, follows.grown.shape_eq maps.resultInside]
    exact maps.result_kind
  · exact (alike.isKind_eq ⟨rfl, maps.argumentInside⟩ .list).symm.trans maps.isList
  · have args : Twins.shared before.size argument argument := ⟨rfl, maps.argumentInside⟩
    have fns : Twins.shared before.size function function := ⟨rfl, maps.functionInside⟩
    obtain ⟨_, result, _, _, lastEq, _, results⟩ :=
      (concur_apply alike policy args fns).exists_of_run_eq (Prod.ext maps.refused rfl)
    cases results
    exact congrArg Prod.fst lastEq

end Checked

namespace Journaling

open Journal Progress Typing

variable {config : Config} {env : Environment} {journal : Journal}

/-- A pipe that is recorded to map its function does so. -/
theorem ensures_pipe_node {site : Site} {argument function : Expr}
    (upholds : journal.progress.Upholds (fun _ => True) env)
    (distinct : (pipe site argument function).DistinctIds) :
    Ensures (expression config env (.pipe site argument function)) journal
      fun type last => ∃ argType fnType,
        last.progress.types.lookup argument.id = some argType ∧
        last.progress.types.lookup function.id = some fnType ∧
        last.progress.types.lookup site.id = some type ∧
        (site.id ∈ last.progress.broadcasts → site.id ∉ journal.progress.broadcasts →
          ∃ before, Checked.Maps config.quantifiers argType fnType type before
            last.progress.store) := by
  have ids := distinct.typingOrder
  rw [typingOrder] at ids
  rw [expression]
  refine passes_both (passesThrough config env argument) (passesThrough config env function) upholds
    (ids.sublist ((sublist_append_left _ _).map _)) ?_
  intro argType fnType mid passes argHas fnHas argFound fnFound
  have away : ∀ node ∈ argument.typingOrder ++ function.typingOrder, node.id ≠ site.id := by
    intro node mem sameId
    rw [map_append, nodup_append'] at ids
    refine ids.2.2 (mem_map_of_mem mem) ?_
    rw [map_singleton, mem_singleton]
    exact sameId
  have wf := (upholds.of_sustains passes.within.sustains).wellFormed
  have records : Ensures (do record site.id (← pipe config.quantifiers site argType
      fnType)) mid.progress fun type last => ∃ found : Progress,
        (found.Undisturbed mid.progress ∨
          found = { mid.progress with
            store := found.store, broadcasts := site.id :: mid.progress.broadcasts } ∧
          Checked.Maps config.quantifiers argType fnType type mid.progress.store found.store) ∧
          last = { found with types := (site.id, type) :: found.types } := by
    refine (ensures_pipe_maps config.quantifiers site wf argHas.1 fnHas.1).bind ?_
    exact fun type found cases => ensures_pure ⟨found, cases, rfl⟩
  refine (ensures_attempt _ records).mono ?_
  rintro type last ⟨⟨found, cases, progressEq⟩, _⟩
  have typesEq : last.progress.types = (site.id, type) :: mid.progress.types := by
    rw [progressEq]
    rcases cases with undisturbed | ⟨foundEq, _⟩
    · rw [undisturbed.types_eq]
    · rw [foundEq]
  have lookup_eq : ∀ operand ∈ argument.typingOrder ++ function.typingOrder,
      last.progress.types.lookup operand.id = mid.progress.types.lookup operand.id := by
    intro operand mem
    rw [typesEq, lookup_cons, beq_eq_false_iff_ne.2 (away operand mem)]
  refine ⟨argType, fnType, (lookup_eq argument (by simp [self_mem_typingOrder])).trans argFound,
    (lookup_eq function (by simp [self_mem_typingOrder])).trans fnFound,
    by rw [typesEq, lookup_cons_self], ?_⟩
  intro isBroadcast notBefore
  rcases cases with undisturbed | ⟨_, maps⟩
  · -- no operand has the id of the pipe, so the record cannot come from there
    obtain ⟨new, broadcastsEq, newAmong⟩ := passes.within.broadcasts
    rw [progressEq] at isBroadcast
    change site.id ∈ found.broadcasts at isBroadcast
    rw [undisturbed.broadcasts_eq, broadcastsEq, mem_append, or_iff_left notBefore] at isBroadcast
    obtain ⟨node, mem, sameId, _⟩ := newAmong site.id isBroadcast
    exact absurd sameId (away node mem)
  · rw [progressEq]
    exact ⟨_, maps⟩

end Journaling

namespace Analysis

/-- An analysis with its store has one type for each node of an expression and for
nothing else, and only pipes that map a function over a list are said to do so. -/
structure Covers (policy : QuantifierPolicy) (analysis : Analysis) (store : Store)
    (expr : Expr) : Prop where
  /-- Exactly the nodes have types. -/
  typed : ∀ id, (∃ type, analysis.typeOf? id = some type) ↔ id ∈ expr.preorder.map Expr.id
  /-- The types are stored. -/
  stored : ∀ id type, analysis.typeOf? id = some type → type < store.size
  /-- The expression has the type of the analysis. -/
  root : analysis.typeOf? expr.id = some analysis.root
  /-- Only pipes that map over a list are marked. -/
  broadcasts : ∀ id ∈ analysis.broadcasts, ∃ site argument function,
    .pipe site argument function ∈ expr.preorder ∧ site.id = id ∧
      ∃ result argumentType functionType, analysis.typeOf? id = some result ∧
        analysis.typeOf? argument.id = some argumentType ∧
        analysis.typeOf? function.id = some functionType ∧
        store.kind result = .list ∧ store.isList argumentType ∧
        ((Checked.apply policy argumentType functionType).run.run store).1 = .ok none

variable {config : Config} {env : Environment} {store : Store} {expr : Expr} {last : Journal}

/-- The nodes of an expression are those that have a type after it was typed. -/
theorem exists_lookup_iff (passes : last.Passes config env (· ∈ expr.typingOrder) expr.typingOrder
      { progress := { store } }) {id : NodeId} :
    (∃ type, last.progress.types.lookup id = some type) ↔ id ∈ expr.preorder.map Expr.id := by
  constructor
  · rintro ⟨type, found⟩
    obtain ⟨new, typesEq, newAmong⟩ := passes.within.types
    obtain ⟨_, _, entriesEq, _⟩ := lookup_eq_some_iff.1 found
    rw [append_nil] at typesEq
    obtain ⟨node, mem, sameId⟩ := newAmong (id, type) (by simp [← typesEq, entriesEq])
    exact mem_map.2 ⟨node, Expr.mem_typingOrder.1 mem, sameId⟩
  · intro mem
    obtain ⟨node, inside, rfl⟩ := mem_map.1 mem
    exact (passes.visits node (Expr.mem_typingOrder.2 inside)).exists_lookup

/-- A record that a pipe maps was made when it was typed. -/
theorem exists_pipe_of_mem_broadcasts
    (upholds : ({ store } : Progress).Upholds (fun _ => True) env) (distinct : expr.DistinctIds)
    (passes : last.Passes config env (· ∈ expr.typingOrder) expr.typingOrder
      { progress := { store } }) {id : NodeId} (isBroadcast : id ∈ last.progress.broadcasts) :
    ∃ site argument function, .pipe site argument function ∈ expr.preorder ∧ site.id = id ∧
      ∃ result argType fnType before after,
        last.progress.types.lookup id = some result ∧
        last.progress.types.lookup argument.id = some argType ∧
        last.progress.types.lookup function.id = some fnType ∧
        Checked.Maps config.quantifiers argType fnType result before after ∧
        last.progress.store.Follows after := by
  obtain ⟨new, broadcastsEq, newAmong⟩ := passes.within.broadcasts
  rw [append_nil] at broadcastsEq
  obtain ⟨_, mem, rfl, site, argument, function, rfl⟩ := newAmong id (broadcastsEq ▸ isBroadcast)
  have inside := mem_typingOrder.1 mem
  obtain ⟨before, result, after, runEq, _, beforeWithin, afterWithin⟩ := passes.visits _ mem
  have self := (pipe site argument function).self_mem_preorder
  obtain ⟨argType, fnType, argFound, fnFound, resultFound, maps⟩ :=
    Journaling.ensures_pipe_node (upholds.of_sustains beforeWithin.sustains)
      (distinct.of_mem inside) result after runEq
  have notBefore : site.id ∉ before.progress.broadcasts :=
    mt (beforeWithin.mem_broadcasts_iff self).1 (by simp)
  obtain ⟨start, maps⟩ := maps ((afterWithin.mem_broadcasts_iff self).1 isBroadcast) notBefore
  have lookup_eq : ∀ node ∈ (pipe site argument function).preorder,
      last.progress.types.lookup node.id = after.progress.types.lookup node.id :=
    fun node mem => afterWithin.lookup_eq mem
  refine ⟨site, argument, function, inside, rfl, result, argType, fnType, start,
    after.progress.store, (lookup_eq _ self).trans resultFound,
    (lookup_eq argument ?_).trans argFound, (lookup_eq function ?_).trans fnFound, maps,
    afterWithin.sustains.follows⟩
  · exact preorder_subset (by simp [children]) argument.self_mem_preorder
  · exact preorder_subset (by simp [children]) function.self_mem_preorder

/-- The analysis of a numbered expression covers it. -/
theorem numbered_covered (config : Config) (environment : Environment) {store : Store}
    (wellFormed : store.WellFormed) (declared : ∀ entry ∈ environment.types, entry.2 < store.size)
    {tree : Expr} (few : tree.preorder.length ≤ UInt32.size) {analysis : Analysis}
    (completed : (run config environment store tree.numbered).1 = .ok analysis) :
    analysis.Covers config.quantifiers (run config environment store tree.numbered).2
      tree.numbered := by
  have distinct := distinctIds_numbered few
  generalize tree.numbered = expr at *
  have upholds : ({ store } : Progress).Upholds (fun _ => True) environment :=
    ⟨wellFormed, fun entry member => ⟨declared entry member, trivial⟩, by simp⟩
  obtain ⟨root, rootEq, rfl⟩ := exists_root_of_run completed
  rw [run_eq_journalled]
  obtain ⟨recorded, passes⟩ := Journaling.passesThrough config environment expr upholds
    distinct.typingOrder root _ rootEq
  generalize journal config environment store expr = last at recorded passes ⊢
  constructor
  case typed => exact fun id => exists_lookup_iff passes
  case stored =>
    intro id type found
    change last.progress.types.lookup id = some type at found
    obtain ⟨_, _, entriesEq, _⟩ := List.lookup_eq_some_iff.1 found
    exact (passes.within.sustains.recorded (id, type) (by simp [entriesEq])).1
  case root => exact recorded.lookup_eq
  case broadcasts =>
    intro id isBroadcast
    obtain ⟨site, argument, function, inside, sameId, result, argumentType, functionType, _, _,
      resultFound, argumentFound, functionFound, maps, follows⟩ :=
      exists_pipe_of_mem_broadcasts upholds distinct passes isBroadcast
    exact ⟨site, argument, function, inside, sameId, result, argumentType, functionType,
      resultFound, argumentFound, functionFound, maps.of_follows follows⟩

/-- The store after a function type was read. -/
def stepStore : Store :=
  ((Alloc.read "Int -> Int").run.run {}).2

/-- One symbol of that type. -/
def stepEnvironment : Environment where
  table := {}
  types := [(0, 1)]

/-- A list that is piped into a function on its elements, before a failing pipe. -/
def stepping : Expr :=
  .tuple {}
    [.pipe {} (.list {} [.literal {} (.int 1)]) (.reference {} "step" (some 0)),
      .pipe {} (.literal {} (.bool true)) (.reference {} "step" (some 0))]

/-- Of the two pipes one maps its function, and all nodes have types, under all
settings. -/
theorem stepping_covered : stepStore.WellFormed ∧
    (∀ entry ∈ stepEnvironment.types, entry.2 < stepStore.size) ∧
    stepping.preorder.length ≤ UInt32.size ∧
    ∀ config, ∃ analysis,
      (run config stepEnvironment stepStore stepping.numbered).1 = .ok analysis ∧
        analysis.broadcasts = [1] ∧
        analysis.Covers config.quantifiers
          (run config stepEnvironment stepStore stepping.numbered).2 stepping.numbered := by
  have wellFormed : stepStore.WellFormed :=
    (Alloc.yields_read Store.wellFormed_empty "Int -> Int").1.wellFormed
  have declared : ∀ entry ∈ stepEnvironment.types, entry.2 < stepStore.size := by
    decide +kernel
  have few : stepping.preorder.length ≤ UInt32.size := by decide +kernel
  refine ⟨wellFormed, declared, few, ?_⟩
  intro config
  have completes : ∀ config, ∃ analysis,
      (run config stepEnvironment stepStore stepping.numbered).1 = .ok analysis ∧
        analysis.broadcasts = [1] := by
    decide +kernel
  obtain ⟨analysis, completed, broadcasts⟩ := completes config
  exact ⟨analysis, completed, broadcasts,
    numbered_covered config stepEnvironment wellFormed declared few completed⟩

end Analysis
end PipeCheck
