import PipeCheck.Proofs.Properties.ClosedProgram

/-!
# Typing refines the checker on trees

Where the symbols of an expression have types without variables and quantifiers,
typing in the store finds exactly what the checker on trees says of every node.  A
run records the nodes in the order in which they are typed.  The main statement is
`Analysis.run_eq_check`.
-/

namespace PipeCheck

open List PipeCheck.Expr

namespace Progress

variable {base : Store} {judge : Expr → Judgement} {earlier mid later : Progress}
  {nodes moreNodes : List Expr} {issues moreIssues : List Issue}

/-- The recorded types as trees. -/
def table (progress : Progress) : List (NodeId × Tree) :=
  progress.types.map fun entry => (entry.1, progress.store.tree entry.2)

/-- Later progress has the judgements of some more nodes, the latest first, and
some more issues. -/
structure Adds (judge : Expr → Judgement) (later earlier : Progress) (nodes : List Expr)
    (issues : List Issue) : Prop where
  /-- No type has changed. -/
  follows : later.store.Follows earlier.store
  /-- Recorded types are stored. -/
  inside : ∀ entry ∈ later.types, entry.2 < later.store.size
  /-- The nodes have the types of their judgements. -/
  table_eq : later.table =
    (nodes.map fun node => (node.id, (judge node).type)).reverse ++ earlier.table
  /-- The pipes that map over lists are added. -/
  broadcasts_eq : later.broadcasts =
    ((nodes.filter fun node => (judge node).broadcast).map Expr.id).reverse ++ earlier.broadcasts
  /-- The issues are added at the end. -/
  issues_eq : later.issues.toList = earlier.issues.toList ++ issues

theorem Sound.adds_self (sound : earlier.Sound base) : earlier.Adds judge earlier [] [] :=
  ⟨sound.wellFormed.follows_self, sound.inside, rfl, rfl, (append_nil _).symm⟩

theorem Adds.trans (second : later.Adds judge mid moreNodes moreIssues)
    (first : mid.Adds judge earlier nodes issues) :
    later.Adds judge earlier (nodes ++ moreNodes) (issues ++ moreIssues) where
  follows := second.follows.trans first.follows
  inside := second.inside
  table_eq := by simp [second.table_eq, first.table_eq]
  broadcasts_eq := by simp [second.broadcasts_eq, first.broadcasts_eq]
  issues_eq := by simp [second.issues_eq, first.issues_eq]

/-- With distinct ids each node is found in the table of a whole run. -/
theorem Adds.lookup_eq {start : Store} {expr node : Expr}
    (adds : later.Adds judge { store := start } expr.typingOrder issues)
    (distinct : expr.DistinctIds) (mem : node ∈ expr.preorder) :
    (later.types.lookup node.id).map later.store.tree = some (judge node).type := by
  -- the lookup finds the first entry with the id, which need not be this node's own
  -- entry; but all entries with the id belong to one node
  have mem_table : ∀ entry, entry ∈ later.table ↔
      ∃ other ∈ expr.preorder, (other.id, (judge other).type) = entry := by
    intro entry
    rw [adds.table_eq]
    simp [table, mem_typingOrder]
  have isSome : (later.types.lookup node.id).isSome := by
    obtain ⟨entry, recorded, entryEq⟩ := mem_map.1 ((mem_table _).2 ⟨node, mem, rfl⟩)
    rw [lookup_isSome_iff]
    exact ⟨entry, recorded, by simpa using congrArg Prod.fst entryEq.symm⟩
  obtain ⟨type, found⟩ := Option.isSome_iff_exists.1 isSome
  obtain ⟨before, after, typesEq, _⟩ := lookup_eq_some_iff.1 found
  have inTable : (node.id, later.store.tree type) ∈ later.table :=
    mem_map.2 ⟨(node.id, type), by simp [typesEq], rfl⟩
  obtain ⟨other, otherMem, entryEq⟩ := (mem_table _).1 inTable
  obtain ⟨sameId, typeEq⟩ := Prod.mk.inj entryEq
  rw [found, Option.map_some, ← typeEq, distinct.eq_of_id_eq otherMem mem sameId]

theorem Adds.contains_eq {start : Store} {expr node : Expr}
    (adds : later.Adds judge { store := start } expr.typingOrder issues)
    (distinct : expr.DistinctIds) (mem : node ∈ expr.preorder) :
    later.broadcasts.contains node.id = (judge node).broadcast := by
  rw [Bool.eq_iff_iff, contains_iff_mem, adds.broadcasts_eq]
  simp only [append_nil, mem_reverse, mem_map, mem_filter, mem_typingOrder]
  constructor
  · rintro ⟨other, ⟨otherMem, isBroadcast⟩, sameId⟩
    exact distinct.eq_of_id_eq otherMem mem sameId ▸ isBroadcast
  · intro isBroadcast
    exact ⟨node, ⟨mem, isBroadcast⟩, rfl⟩

theorem Sound.of_adds (sound : earlier.Sound base) (adds : later.Adds judge earlier nodes issues) :
    later.Sound base :=
  ⟨adds.follows.wellFormed, adds.follows.grown.trans sound.grown, adds.inside⟩

/-- A step that records nothing leaves the table as it was. -/
theorem Sound.table_of_steps (sound : earlier.Sound base) {broadcasts : List NodeId}
    (steps : later.Steps earlier broadcasts issues) :
    later.table = earlier.table := by
  unfold table
  rw [steps.types_eq]
  apply map_congr_left
  intro entry mem
  rw [steps.follows.grown.tree_eq sound.wellFormed (sound.inside entry mem)]

theorem Sound.adds_of_steps (sound : earlier.Sound base) (steps : later.Steps earlier [] issues) :
    later.Adds judge earlier [] issues := by
  refine ⟨steps.follows, ?_, sound.table_of_steps steps, steps.broadcasts_eq, steps.issues_eq⟩
  intro entry mem
  rw [steps.types_eq] at mem
  exact steps.follows.grown.inside (sound.inside entry mem)

end Progress

namespace Typing

open Progress

section Runs

variable {config : Config} {env : Environment} {base : Store} {state mid : Progress}
  {judge : Expr → Judgement} {nodes : List Expr} {issues : List Issue} {site : Site}

/-- The step at a node, after all nodes below it, completes the node. -/
theorem succeeds_recorded (sound : state.Sound base) (below : mid.Adds judge state nodes issues)
    {expr : Expr} {action : Typing TypeId} {own : Judgement}
    (finds : Finds site.id action mid own) (siteEq : expr.site = site)
    (judgeEq : judge expr = own.after issues) (orderEq : expr.typingOrder = nodes ++ [expr]) :
    Succeeds (do record site.id (← action)) mid fun type last =>
      last.Adds judge state expr.typingOrder (judge expr).issues ∧
        last.store.Shows type (judge expr).type := by
  subst siteEq
  have midSound := sound.of_adds below
  refine Succeeds.bind finds ?_
  rintro type last ⟨steps, shown⟩
  refine ⟨type, rfl, ?_, judgeEq ▸ shown⟩
  have single : ({ last with types := (expr.id, type) :: last.types } : Progress).Adds judge mid
      [expr] own.issues := by
    refine ⟨steps.follows, ?_, ?_, ?_, steps.issues_eq⟩
    · intro entry mem
      rcases mem_cons.1 mem with rfl | recorded
      · exact shown.1
      · rw [steps.types_eq] at recorded
        exact steps.follows.grown.inside (midSound.inside entry recorded)
    · have tableEq := midSound.table_of_steps steps
      unfold table at tableEq ⊢
      simp [tableEq, judgeEq, Judgement.after, shown.2]
    · have flagEq : (judge expr).broadcast = own.broadcast := by rw [judgeEq, Judgement.after]
      rw [steps.broadcasts_eq]
      cases broadcast : own.broadcast <;> simp [flagEq, broadcast, Expr.id]
  rw [orderEq, judgeEq]
  exact single.trans below

/-- Typing an expression finds what is judged of each of its nodes. -/
def Simulates (config : Config) (env : Environment) (base : Store)
    (judge : Expr → Judgement) (expr : Expr) : Prop :=
  ∀ ⦃progress : Progress⦄, progress.Sound base →
    Succeeds (expression config env expr) progress fun type last =>
      last.Adds judge progress expr.typingOrder (judge expr).issues ∧
        last.store.Shows type (judge expr).type

theorem succeeds_expressions {exprs : List Expr}
    (each : ∀ expr ∈ exprs, Simulates config env base judge expr) (sound : state.Sound base) :
    Succeeds (expressions config env exprs) state fun types last =>
      last.Adds judge state (typingOrderAll exprs)
          ((exprs.map judge).flatMap Judgement.issues) ∧
        List.Forall₂ last.store.Shows types ((exprs.map judge).map Judgement.type) := by
  induction exprs generalizing state with
  | nil =>
    rw [expressions, typingOrderAll]
    exact succeeds_pure ⟨sound.adds_self, .nil⟩
  | cons expr rest ih =>
    rw [expressions, typingOrderAll]
    refine (each expr mem_cons_self sound).bind ?_
    rintro type mid ⟨adds, shown⟩
    have midSound := sound.of_adds adds
    refine (ih (forall_mem_of_forall_mem_cons each) midSound).bind ?_
    rintro types last ⟨restAdds, restShown⟩
    refine succeeds_pure ⟨restAdds.trans adds, .cons ?_ restShown⟩
    exact restAdds.follows.shows midSound.wellFormed shown

/-- Arguments are typed and applied one after the other. -/
theorem succeeds_applied {args : List Expr}
    (each : ∀ arg ∈ args, Simulates config env base judge arg)
    (monomorphic : ∀ arg ∈ args, (judge arg).type.Monomorphic)
    (sound : state.Sound base) (span : Span) (position : Nat) {fn : Option TypeId}
    {fnTree : Option Tree} (fnShown : Option.Rel state.store.Shows fn fnTree)
    (fnMono : ∀ tree ∈ fnTree, tree.Monomorphic) :
    Succeeds (applied config env span position fn args) state
      fun found last =>
        last.Adds judge state (typingOrderAll args)
            (TreeChecker.applied span position fnTree (args.map judge)).2 ∧
          Option.Rel last.store.Shows found
            (TreeChecker.applied span position fnTree (args.map judge)).1 := by
  induction args generalizing state position fn fnTree with
  | nil =>
    rw [applied, typingOrderAll]
    exact succeeds_pure ⟨sound.adds_self, fnShown⟩
  | cons arg rest ih =>
    rw [applied, typingOrderAll]
    refine (each arg mem_cons_self sound).bind ?_
    rintro type mid ⟨adds, shown⟩
    have midSound := sound.of_adds adds
    have fnLater : Option.Rel mid.store.Shows fn fnTree :=
      adds.follows.showsOption sound.wellFormed fnShown
    refine (succeeds_applyArgument midSound.wellFormed config.quantifiers span position
      fnLater shown fnMono (monomorphic arg mem_cons_self)).bind ?_
    rintro next afterNext ⟨steps, nextShown⟩
    have nextAdds := (midSound.adds_of_steps steps).trans adds
    refine (ih (forall_mem_of_forall_mem_cons each) (forall_mem_of_forall_mem_cons monomorphic)
      (sound.of_adds nextAdds) (position + 1) nextShown
      (TreeChecker.monomorphic_applyArgument fnMono)).mono ?_
    rintro found last ⟨restAdds, foundShown⟩
    refine ⟨?_, foundShown⟩
    have allAdds := restAdds.trans nextAdds
    rwa [append_nil] at allAdds

/-- The application of a function to its arguments in turn. -/
theorem simulates_apply {fn : Expr} {args : List Expr}
    (fnSimulated : Simulates config env base judge fn)
    (each : ∀ arg ∈ args, Simulates config env base judge arg)
    (fnMono : (judge fn).type.Monomorphic)
    (monomorphic : ∀ arg ∈ args, (judge arg).type.Monomorphic)
    (judgeEq : judge (.apply site fn args) =
      (TreeChecker.application site.span (judge fn).type (args.map judge)).after
        (judge fn).issues) :
    Simulates config env base judge (.apply site fn args) := by
  intro state sound
  rw [expression]
  refine (fnSimulated sound).bind ?_
  rintro fnType mid ⟨fnAdds, fnShown⟩
  have midSound := sound.of_adds fnAdds
  have orderEq := typingOrder_apply site fn args
  refine succeeds_store_bind ?_
  rw [fnShown.isInvalid_eq midSound.wellFormed fnMono]
  by_cases fnInvalid : (judge fn).type = .invalid
  · rw [if_pos (decide_eq_true fnInvalid)]
    refine (succeeds_applied each monomorphic midSound site.span 0 .none (by simp)).bind ?_
    rintro _ last ⟨adds, _⟩
    refine succeeds_recorded sound (adds.trans fnAdds)
      (finds_primitive adds.follows.wellFormed .invalid) rfl ?_ orderEq
    rw [judgeEq, TreeChecker.application, if_pos fnInvalid, TreeChecker.applied_none]
    simp [Judgement.after, Judgement.invalid, Tree.invalid]
  rw [if_neg (by simpa using fnInvalid)]
  cases args with
  | nil =>
    refine succeeds_recorded sound fnAdds
      (finds_applyUnit midSound.wellFormed fnShown fnMono fnInvalid site.span) rfl judgeEq ?_
    rw [orderEq, typingOrderAll, append_nil]
  | cons arg rest =>
    rw [if_neg (by simp)]
    refine (succeeds_applied each monomorphic midSound site.span 0 (.some fnShown)
      (by simpa using fnMono)).bind ?_
    rintro found last ⟨adds, foundShown⟩
    rw [TreeChecker.application, if_neg fnInvalid, if_neg (by simp)] at judgeEq
    generalize TreeChecker.applied site.span 0 (some (judge fn).type)
      ((arg :: rest).map judge) = outcome at adds foundShown judgeEq
    obtain ⟨result, issues⟩ := outcome
    have allAdds := adds.trans fnAdds
    have lastWf := adds.follows.wellFormed
    cases foundShown with
    | some shown =>
      refine succeeds_recorded sound allAdds (finds_shown lastWf shown) rfl ?_ orderEq
      rw [judgeEq]
      simp [Judgement.after]
    | none =>
      refine succeeds_recorded sound allAdds (finds_primitive lastWf .invalid) rfl ?_ orderEq
      rw [judgeEq]
      simp [Judgement.after, Tree.invalid]

/-- The elements of a list with their spans. -/
theorem showsElements_zip {store : Store} {types : List TypeId} {trees : List Tree}
    (shown : List.Forall₂ store.Shows types trees) (spans : List Span) :
    ShowsElements store (types.zip spans) (trees.zip spans) := by
  induction shown generalizing spans with
  | nil => exact .nil
  | cons first _ ih =>
    cases spans with
    | nil => exact .nil
    | cons span spans => exact .cons ⟨first, rfl⟩ (ih spans)

theorem simulates_list {items : List Expr}
    (each : ∀ item ∈ items, Simulates config env base judge item)
    (monomorphic : ∀ item ∈ items, (judge item).type.Monomorphic)
    (judgeEq : judge (.list site items) =
      (TreeChecker.listLiteral config.listLiterals site.span
        (((items.map judge).map Judgement.type).zip (items.map span))).after
          ((items.map judge).flatMap Judgement.issues)) :
    Simulates config env base judge (.list site items) := by
  intro state sound
  rw [expression]
  refine (succeeds_expressions each sound).bind ?_
  rintro types mid ⟨adds, shown⟩
  refine succeeds_recorded sound adds
    (finds_listLiteral adds.follows.wellFormed config.listLiterals site.span
      (showsElements_zip shown _) ?_) rfl judgeEq (by rw [typingOrder])
  intro element mem
  obtain ⟨judgement, inJudgements, typeEq⟩ := mem_map.1 (of_mem_zip mem).1
  obtain ⟨item, inItems, rfl⟩ := mem_map.1 inJudgements
  rw [← typeEq]
  exact monomorphic item inItems

theorem simulates_tuple {items : List Expr}
    (each : ∀ item ∈ items, Simulates config env base judge item)
    (monomorphic : ∀ item ∈ items, (judge item).type.Monomorphic)
    (judgeEq : judge (.tuple site items) =
      (TreeChecker.tupleLiteral ((items.map judge).map Judgement.type)).after
        ((items.map judge).flatMap Judgement.issues)) :
    Simulates config env base judge (.tuple site items) := by
  intro state sound
  rw [expression]
  refine (succeeds_expressions each sound).bind ?_
  rintro types mid ⟨adds, shown⟩
  exact succeeds_recorded sound adds
    (finds_tupleLiteral adds.follows.wellFormed shown (by simpa using monomorphic)) rfl judgeEq
    (by rw [typingOrder])

theorem simulates_pipe {arg fn : Expr} (argSimulated : Simulates config env base judge arg)
    (fnSimulated : Simulates config env base judge fn) (argMono : (judge arg).type.Monomorphic)
    (fnMono : (judge fn).type.Monomorphic) (judgeEq : judge (.pipe site arg fn) =
      (TreeChecker.pipe site.span (judge arg).type (judge fn).type).after
        ((judge arg).issues ++ (judge fn).issues)) :
    Simulates config env base judge (.pipe site arg fn) := by
  intro state sound
  rw [expression]
  refine (argSimulated sound).bind ?_
  rintro argType mid ⟨argAdds, argShown⟩
  have midSound := sound.of_adds argAdds
  refine (fnSimulated midSound).bind ?_
  rintro fnType last ⟨fnAdds, fnShown⟩
  have argLater := fnAdds.follows.shows midSound.wellFormed argShown
  exact succeeds_recorded sound (fnAdds.trans argAdds)
    (finds_pipe fnAdds.follows.wellFormed config.quantifiers site fnShown argLater
      fnMono argMono) rfl judgeEq (by rw [typingOrder])

/-- Typing finds what the checker says of every node, if the types in the base
store that the nodes refer to have neither variables nor quantifiers. -/
theorem simulates_check (baseWf : base.WellFormed) {expr : Expr}
    (monomorphic : env.Monomorphic base expr.preorder) :
    Simulates config env base
      (TreeChecker.check config.listLiterals (env.signature base)) expr := by
  induction expr using inductionOnChildren with
  | step expr ih =>
    -- the checker is opened at the root only, the children keep it as `judge`
    generalize judgeEq : TreeChecker.check config.listLiterals (env.signature base) = judge at ih ⊢
    have simulated : ∀ child ∈ expr.children, Simulates config env base judge child :=
      fun child mem => ih child mem (monomorphic.subset (preorder_subset mem))
    have typesMono : ∀ child ∈ expr.children, (judge child).type.Monomorphic := by
      intro child mem
      rw [← judgeEq]
      exact TreeChecker.monomorphic_check (monomorphic.subset (preorder_subset mem))
    cases expr with
    | reference site name symbol =>
      intro state sound
      rw [expression]
      have shown : ∀ type ∈ symbol.bind env.typeOf?,
          state.store.Shows type (base.tree type) := by
        intro type found
        have declared := monomorphic _ (self_mem_preorder _) type found
        exact ⟨sound.grown.inside declared.1, sound.grown.tree_eq baseWf declared.1⟩
      exact succeeds_recorded sound sound.adds_self
        (finds_reference sound.wellFormed config.listLiterals site name shown) rfl
        (judgeEq ▸ rfl) (by rw [typingOrder])
    | literal site value =>
      intro state sound
      rw [expression]
      refine succeeds_recorded sound sound.adds_self
        (finds_literal sound.wellFormed value) rfl ?_ (by rw [typingOrder])
      rw [← judgeEq, TreeChecker.check]
      rfl
    | list site items =>
      refine simulates_list simulated typesMono ?_
      rw [← judgeEq, TreeChecker.check, TreeChecker.checkAll_eq_map]
    | tuple site items =>
      refine simulates_tuple simulated typesMono ?_
      rw [← judgeEq, TreeChecker.check, TreeChecker.checkAll_eq_map]
    | apply site fn args =>
      simp only [children, forall_mem_append, forall_mem_singleton] at simulated typesMono
      refine simulates_apply simulated.2 simulated.1 typesMono.2 typesMono.1 ?_
      rw [← judgeEq, TreeChecker.check, TreeChecker.checkAll_eq_map]
    | pipe site arg fn =>
      simp only [children, forall_mem_cons] at simulated typesMono
      refine simulates_pipe simulated.1 simulated.2.1 typesMono.1 typesMono.2.1 ?_
      rw [← judgeEq, TreeChecker.check]
    | binary site op left right =>
      simp only [children, forall_mem_cons] at simulated
      intro state sound
      rw [expression]
      refine (simulated.1 sound).bind ?_
      rintro _ mid ⟨leftAdds, _⟩
      refine (simulated.2.1 (sound.of_adds leftAdds)).bind ?_
      rintro _ last ⟨rightAdds, _⟩
      refine succeeds_recorded sound (rightAdds.trans leftAdds)
        (finds_reject rightAdds.follows.wellFormed _) rfl ?_ (by rw [typingOrder])
      rw [← judgeEq, TreeChecker.check]
      rfl
    | definition site symbol init =>
      simp only [children, forall_mem_singleton] at simulated
      intro state sound
      rw [expression]
      refine (simulated sound).bind ?_
      rintro _ mid ⟨initAdds, _⟩
      refine succeeds_recorded sound initAdds
        (finds_reject initAdds.follows.wellFormed _) rfl ?_ (by rw [typingOrder])
      rw [← judgeEq, TreeChecker.check]
      rfl
    | placeholder site =>
      intro state sound
      rw [expression]
      refine succeeds_recorded sound sound.adds_self
        (finds_primitive sound.wellFormed .invalid) rfl ?_ (by rw [typingOrder])
      rw [← judgeEq, TreeChecker.check]
      rfl

end Runs

end Typing

namespace Analysis

/-- If the symbols of an expression have types without variables and
quantifiers, an analysis completes and finds what the checker on trees says: the
type of the root and all issues in order, and with distinct ids the type of every
node and which pipes map their functions over lists. -/
theorem run_eq_check (config : Config) (environment : Environment) {store : Store}
    (wellFormed : store.WellFormed) {expr : Expr}
    (monomorphic : environment.Monomorphic store expr.preorder) :
    let check := TreeChecker.check config.listLiterals (environment.signature store)
    ∃ analysis, (run config environment store expr).1 = .ok analysis ∧
      (run config environment store expr).2.tree analysis.root = (check expr).type ∧
      analysis.issues = (check expr).issues ∧
      (expr.DistinctIds → ∀ node ∈ expr.preorder,
        (analysis.typeOf? node.id).map (run config environment store expr).2.tree =
            some (check node).type ∧
          analysis.isBroadcast node.id = (check node).broadcast) := by
  intro check
  have simulates : Typing.Simulates config environment store check expr :=
    Typing.simulates_check wellFormed monomorphic
  have startSound : ({ store } : Progress).Sound store := ⟨wellFormed, .refl store, by simp⟩
  obtain ⟨root, outcomeEq, adds, shown⟩ := simulates startSound
  refine ⟨_, congrArg (Except.map _) outcomeEq, shown.2, ?_, ?_⟩
  · exact adds.issues_eq
  · intro distinct node member
    exact ⟨adds.lookup_eq distinct member, adds.contains_eq distinct member⟩

/-- A list of files is piped into a function of one file; an argument and a list
element do not fit, one symbol has no type, and an operator has no rule. -/
def inventory : Document where
  declarations :=
    [{ name := "total", type := some "[Int] -> Int" },
      { name := "add", type := some "Int -> Int -> Int" }, { name := "stock" }]
  expr :=
    .tuple {}
      [.pipe {} (.pipe {} (.literal {} (.glob "*.txt")) (.reference {} "size" none))
          (.reference {} "total" none),
        .apply {} (.reference {} "add" none) [.literal {} (.int 1), .literal {} (.bool true)],
        .list {} [.literal {} (.int 1), .literal {} (.str "two")],
        .binary {} .add (.reference {} "stock" none) (.placeholder {})]

/-- The document's analysis agrees with the checker under all settings. -/
theorem run_inventory : ∃ program, Program.load inventory = .ok program ∧
    program.environment.Monomorphic program.declared.store program.expr.preorder ∧
    ∀ config, ∃ analysis, (program.analyse config).1 = .ok analysis ∧
      analysis.issues.length = (if config.listLiterals = .unify then 4 else 3) ∧
      ∀ node ∈ program.expr.preorder,
        let judged := TreeChecker.check config.listLiterals
          (program.environment.signature program.declared.store) node
        (analysis.typeOf? node.id).map (program.analyse config).2.tree = some judged.type ∧
          analysis.isBroadcast node.id = judged.broadcast := by
  have computes : ∃ program, Program.load inventory = .ok program ∧
      program.environment.Monomorphic program.declared.store program.expr.preorder ∧
        program.expr.DistinctIds ∧ ∀ policy,
          (TreeChecker.check policy (program.environment.signature program.declared.store)
            program.expr).issues.length = if policy = .unify then 4 else 3 := by
    decide +kernel
  obtain ⟨program, loads, monomorphic, distinct, counts⟩ := computes
  refine ⟨program, loads, monomorphic, ?_⟩
  intro config
  obtain ⟨analysis, completed, _, issuesEq, nodes⟩ := run_eq_check config program.environment
    (Program.valid_of_load loads).wellFormed monomorphic
  refine ⟨analysis, completed, ?_, nodes distinct⟩
  rw [issuesEq]
  exact counts config.listLiterals

end Analysis
end PipeCheck
