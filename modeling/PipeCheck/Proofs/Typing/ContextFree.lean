import PipeCheck.Proofs.Properties.ClosedProgram
import PipeCheck.Proofs.Typing.ReplayTyping
import PipeCheck.Proofs.Typing.Visits

/-!
# Typing does not depend on the context

A subexpression is typed on its own as it is typed within a larger expression: its
nodes get types with the same texts, the same pipes map over lists, and the same issues
are found in the same order.  The main statement is
`Analysis.subexpression_agrees`.
-/

namespace PipeCheck

open List Option

namespace Journal

variable {env : Environment} {store : Store} {base alone whole : Journal} {twins : Twins}

/-- A journal that starts with a store, and a later one on top of which the same is
to be done. -/
theorem Within.alike {among : Expr → Prop} (wf : store.WellFormed)
    (within : base.Within among { progress := { store } }) :
    Alike base (Twins.shared store.size) { progress := { store } } base := by
  have follows := within.sustains.follows
  exact ⟨⟨follows.grown.alike wf follows.wellFormed, ⟨[], rfl, .nil⟩, rfl, by simp⟩, by simp⟩

theorem lookup_rel {entries others : List (NodeId × TypeId)}
    (listed : List.Forall₂ (fun entry other => entry.1 = other.1 ∧ twins entry.2 other.2)
      entries others) (id : NodeId) :
    Option.Rel twins (entries.lookup id) (others.lookup id) := by
  induction listed with
  | nil => exact .none
  | @cons entry other _ _ related _ ih =>
    obtain ⟨node, type⟩ := entry
    obtain ⟨otherNode, otherType⟩ := other
    obtain ⟨rfl, twin⟩ := related
    rw [lookup_cons, lookup_cons]
    cases id == node with
    | true => exact .some twin
    | false => exact ih

section Nodes

variable (alike : Alike base twins alone whole) {node : NodeId}

include alike

/-- A node without record in the earlier journal has twins for types. -/
theorem Alike.lookup (unrecorded : base.progress.types.lookup node = none) :
    Option.Rel twins (alone.progress.types.lookup node) (whole.progress.types.lookup node) := by
  obtain ⟨types, typesEq, listed⟩ := alike.progress.types
  rw [typesEq, lookup_append, unrecorded, or_none]
  exact lookup_rel listed node

theorem Alike.mem_broadcasts_iff (unrecorded : node ∉ base.progress.broadcasts) :
    node ∈ whole.progress.broadcasts ↔ node ∈ alone.progress.broadcasts := by
  rw [alike.progress.broadcasts, mem_append, or_iff_left unrecorded]

theorem Alike.reportsIn_eq {expr : Expr} (unreported : base.reportsIn expr = []) :
    whole.reportsIn expr = alone.reportsIn expr := by
  unfold reportsIn at unreported ⊢
  rw [alike.reports, filter_append, unreported, nil_append]

end Nodes

/-- All reports are found at the nodes of the expression that was typed. -/
theorem Within.reportsIn_eq_reports {expr : Expr}
    (within : alone.Within (· ∈ expr.typingOrder) { progress := { store } }) :
    alone.reportsIn expr = alone.reports := by
  obtain ⟨new, reportsEq, newInside, _⟩ := within.reports
  rw [nil_append] at reportsEq
  rw [reportsIn, filter_eq_self, reportsEq]
  intro report mem
  obtain ⟨node, inside, sameId⟩ := newInside report mem
  rw [decide_eq_true_iff, ← sameId]
  exact List.mem_map_of_mem (Expr.mem_typingOrder.1 inside)

/-- The issues are those that were reported. -/
theorem Within.issues_eq_reports {among : Expr → Prop}
    (within : alone.Within among { progress := { store } }) :
    alone.progress.issues.toList = alone.reports.map Prod.snd := by
  obtain ⟨new, reportsEq, _, issuesEq⟩ := within.reports
  rw [reportsEq, issuesEq]
  rfl

/-- Two journals say the same of the nodes of an expression. -/
structure SameOn (alone whole : Journal) (expr : Expr) : Prop where
  /-- Nodes have types with the same texts. -/
  types : ∀ node ∈ expr.preorder,
    (alone.progress.types.lookup node.id).map alone.progress.store.render =
      (whole.progress.types.lookup node.id).map whole.progress.store.render
  /-- The same pipes map over lists. -/
  broadcasts : ∀ node ∈ expr.preorder,
    node.id ∈ alone.progress.broadcasts ↔ node.id ∈ whole.progress.broadcasts
  /-- The same issues are found at them. -/
  reports : alone.reportsIn expr = whole.reportsIn expr

/-- Twins on top of what was found elsewhere, and more findings elsewhere. -/
theorem Alike.sameOn {after : Journal} {expr : Expr} (alike : Alike base twins alone after)
    (before : base.Within expr.Outside { progress := { store } })
    (later : whole.Within expr.Outside after) :
    alone.SameOn whole expr where
  types node mem := by
    have rel := alike.lookup (before.lookup_eq mem)
    rw [later.lookup_eq mem]
    generalize alone.progress.types.lookup node.id = found,
      after.progress.types.lookup node.id = other at rel
    cases rel with
    | none => rfl
    | @some type otherType twin =>
      have stores := alike.progress.stores
      have follows := later.sustains.follows
      have grown := follows.grown.alike stores.rightWellFormed follows.wellFormed
      rw [map_some, map_some, stores.render_eq twin, grown.render_eq ⟨rfl, (stores.inside twin).2⟩]
  broadcasts node mem := by
    have unrecorded : node.id ∉ base.progress.broadcasts :=
      mt (before.mem_broadcasts_iff mem).1 (by simp)
    rw [later.mem_broadcasts_iff mem, alike.mem_broadcasts_iff unrecorded]
  reports := by
    rw [later.reportsIn_eq, alike.reportsIn_eq before.reportsIn_eq]

end Journal

namespace Analysis

/-- Two analyses, each with its store, say the same of the nodes of an expression:
all have types with the same texts, and the same pipes map over lists. -/
structure AgreesOn (alone whole : Analysis) (store wholeStore : Store) (expr : Expr) : Prop where
  /-- Nodes have types with the same texts. -/
  types : ∀ node ∈ expr.preorder, ∃ text,
    (alone.typeOf? node.id).map store.render = some text ∧
      (whole.typeOf? node.id).map wholeStore.render = some text
  /-- The same pipes map over lists. -/
  broadcasts : ∀ node ∈ expr.preorder, alone.isBroadcast node.id = whole.isBroadcast node.id

/-- If an expression is analysed, so are its subexpressions on their own, with the
same findings at their nodes. -/
theorem subexpression_agrees {document : Document} {program : Program}
    (loads : Program.load document = .ok program) (config : Config) {root expr : Expr}
    (distinct : root.DistinctIds) (inside : expr ∈ root.preorder) {whole : Analysis}
    (completed : (run config program.environment program.declared.store root).1 = .ok whole) :
    ∃ alone, (run config program.environment program.declared.store expr).1 = .ok alone ∧
      alone.AgreesOn whole (run config program.environment program.declared.store expr).2
        (run config program.environment program.declared.store root).2 expr ∧
      alone.issues = ((journal config program.environment program.declared.store
        root).reportsIn expr).map Prod.snd ∧
      whole.issues = (journal config program.environment program.declared.store
        root).reports.map Prod.snd := by
  obtain ⟨wellFormed, _, closed⟩ := Program.valid_of_load loads
  generalize storeEq : program.declared.store = store at *
  generalize environmentEq : program.environment = environment at *
  have declared : ∀ entry ∈ environment.types, entry.2 < store.size := by
    subst environmentEq
    exact fun entry member => (closed entry member).1
  have upholds : ({ store } : Progress).Upholds (fun _ => True) environment :=
    ⟨wellFormed, fun entry member => ⟨declared entry member, trivial⟩, by simp⟩
  obtain ⟨rootType, rootEq, rfl⟩ := exists_root_of_run completed
  obtain ⟨_, passes⟩ := Journaling.passesThrough config environment root upholds
    distinct.typingOrder rootType _ rootEq
  obtain ⟨before, type, after, afterEq, _, beforeWithin, afterWithin⟩ :=
    passes.visits expr (Expr.mem_typingOrder.2 inside)
  -- the typing of the subexpression on its own, in parallel to that within the whole
  obtain ⟨twins, aloneType, alone, _, aloneEq, alike, _⟩ :=
    (Journaling.replays config environment expr (fun entry member => ⟨rfl, declared entry member⟩)
      (beforeWithin.alike wellFormed)).exists_of_counterpart afterEq
  have same := alike.sameOn beforeWithin afterWithin
  have aloneJournalled : journalled config environment store expr = (.ok aloneType, alone) :=
    aloneEq
  obtain ⟨_, alonePasses⟩ := Journaling.passesThrough config environment expr upholds
    (distinct.of_mem inside).typingOrder aloneType alone aloneEq
  have journalEq : journal config environment store expr = alone :=
    congrArg Prod.snd aloneJournalled
  rw [run_eq_journalled, run_eq_journalled, aloneJournalled, journalEq]
  refine ⟨ofJournal alone aloneType, rfl, ⟨?_, ?_⟩, ?_, passes.within.issues_eq_reports⟩
  · intro node member
    obtain ⟨found, foundEq⟩ :=
      (alonePasses.visits node (Expr.mem_typingOrder.2 member)).exists_lookup
    have sameText := same.types node member
    rw [foundEq] at sameText
    exact ⟨alone.progress.store.render found, congrArg (Option.map _) foundEq, sameText.symm⟩
  · intro node member
    rw [Bool.eq_iff_iff]
    exact List.contains_iff_mem.trans ((same.broadcasts node member).trans
      List.contains_iff_mem.symm)
  · refine alonePasses.within.issues_eq_reports.trans (congrArg _ ?_)
    exact alonePasses.within.reportsIn_eq_reports.symm.trans same.reports

/-- After a polymorphic application, a function is mapped over a list and another one
is applied to an argument that does not fit. -/
def nested : Document where
  declarations := [{ name := "next", type := some "Int -> Int" }]
  expr :=
    .tuple {}
      [.apply {} (.reference {} "id" none) [.reference {} "id" none],
        .tuple {}
          [.pipe {} (.list {} [.literal {} (.int 1)]) (.reference {} "next" none),
            .apply {} (.reference {} "count" none) [.reference {} "head" none]]]

/-- This document has one issue and one pipe that maps, and each of its
subexpressions is typed on its own as it is here, under all settings. -/
theorem nested_agrees : ∃ program, Program.load nested = .ok program ∧
    ∀ config, ∃ whole, (program.analyse config).1 = .ok whole ∧
      whole.issues.length = 1 ∧ whole.broadcasts.length = 1 ∧
      ∀ expr ∈ program.expr.preorder, ∃ alone,
        (run config program.environment program.declared.store expr).1 = .ok alone ∧
        alone.AgreesOn whole (run config program.environment program.declared.store expr).2
          (program.analyse config).2 expr ∧
        alone.issues = ((journal config program.environment program.declared.store
          program.expr).reportsIn expr).map Prod.snd := by
  have computes : ∃ program, Program.load nested = .ok program ∧ program.expr.DistinctIds ∧
      ∀ config, ∃ whole, (program.analyse config).1 = .ok whole ∧
        whole.issues.length = 1 ∧ whole.broadcasts.length = 1 := by
    decide +kernel
  obtain ⟨program, loads, distinct, completes⟩ := computes
  refine ⟨program, loads, ?_⟩
  intro config
  obtain ⟨whole, completed, oneIssue, oneBroadcast⟩ := completes config
  refine ⟨whole, completed, oneIssue, oneBroadcast, ?_⟩
  intro expr inside
  obtain ⟨alone, aloneCompleted, agrees, issuesEq, _⟩ :=
    subexpression_agrees loads config distinct inside completed
  exact ⟨alone, aloneCompleted, agrees, issuesEq⟩

end Analysis
end PipeCheck
