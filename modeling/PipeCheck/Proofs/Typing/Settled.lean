import PipeCheck.Proofs.Typing.Verdicts

/-!
# What a journal says of a node

After a run each node is settled: its type does not mention the invalid type and
nothing was reported at it, or its type is the invalid type and either one issue
was reported at it or something below it explains it.  Nodes with different ids do
not touch each other's records.
-/

namespace PipeCheck

open List Option

namespace Expr

/-- Whether an expression stands for text that could not be read. -/
def isPlaceholder : Expr → Bool
  | .placeholder _ => true
  | _ => false

/-- Whether an expression pipes an argument into a function. -/
def isPipe : Expr → Bool
  | .pipe _ _ _ => true
  | _ => false

end Expr

namespace Journal

variable {base : Store} {earlier mid later : Journal} {ids more : List NodeId}

/-- The tree of the type that is recorded for a node. -/
def treeAt? (journal : Journal) (node : NodeId) : Option Tree :=
  (journal.progress.types.lookup node).map journal.progress.store.tree

/-- What was reported at a node. -/
def reportsAt (journal : Journal) (node : NodeId) : List (NodeId × Issue) :=
  journal.reports.filter fun report => report.1 = node

/-- Later journals have records and reports of some more nodes, and the reports
are the new issues. -/
structure Touches (later earlier : Journal) (ids : List NodeId) : Prop where
  /-- No type has changed. -/
  follows : later.progress.store.Follows earlier.progress.store
  /-- Recorded types are stored. -/
  inside : ∀ entry ∈ later.progress.types, entry.2 < later.progress.store.size
  /-- Only these nodes get records. -/
  types : Prepends (fun entry => entry.1 ∈ ids) later.progress.types earlier.progress.types
  /-- Only these nodes get issues. -/
  reports : later.Reports (· ∈ ids) earlier

theorem touches_self (sound : earlier.progress.Sound base) : earlier.Touches earlier ids :=
  ⟨sound.wellFormed.follows_self, sound.inside, ⟨[], rfl, by simp⟩, ⟨[], by simp⟩⟩

theorem Touches.mono (touches : later.Touches earlier ids) (subset : ids ⊆ more) :
    later.Touches earlier more :=
  ⟨touches.follows, touches.inside, touches.types.mono fun _ mem => subset mem,
    touches.reports.mono fun _ mem => subset mem⟩

theorem Touches.trans (second : later.Touches mid ids) (first : mid.Touches earlier ids) :
    later.Touches earlier ids :=
  ⟨second.follows.trans first.follows, second.inside, second.types.trans first.types,
    second.reports.trans first.reports⟩

theorem Touches.sound (touches : later.Touches earlier ids) (sound : earlier.progress.Sound base) :
    later.progress.Sound base :=
  ⟨touches.follows.wellFormed, touches.follows.grown.trans sound.grown, touches.inside⟩

section Frame

variable {node : NodeId}

theorem Touches.lookup_eq (touches : later.Touches earlier ids) (absent : node ∉ ids) :
    later.progress.types.lookup node = earlier.progress.types.lookup node := by
  obtain ⟨new, typesEq, newIn⟩ := touches.types
  have notNew : new.lookup node = none := by
    rw [lookup_eq_none_iff]
    intro entry mem
    have different : node ≠ entry.1 := fun same => absent (same ▸ newIn entry mem)
    simpa using different
  rw [typesEq, lookup_append, notNew, none_or]

theorem Touches.treeAt?_eq (touches : later.Touches earlier ids)
    (sound : earlier.progress.Sound base) (absent : node ∉ ids) :
    later.treeAt? node = earlier.treeAt? node := by
  unfold treeAt?
  rw [touches.lookup_eq absent]
  cases found : earlier.progress.types.lookup node with
  | none => rfl
  | some type =>
    obtain ⟨_, _, typesEq, _⟩ := lookup_eq_some_iff.1 found
    have inside := sound.inside (node, type) (by simp [typesEq])
    rw [map_some, map_some, touches.follows.grown.tree_eq sound.wellFormed inside]

theorem Touches.reportsAt_eq (touches : later.Touches earlier ids) (absent : node ∉ ids) :
    later.reportsAt node = earlier.reportsAt node := by
  obtain ⟨new, reportsEq, newIn, _⟩ := touches.reports
  unfold reportsAt
  rw [reportsEq, filter_append, append_right_eq_self, filter_eq_nil_iff]
  intro report mem
  have different : report.1 ≠ node := fun same => absent (same ▸ newIn report mem)
  simpa using different

end Frame

/-- A node whose recorded type is the invalid type. -/
def InvalidAt (journal : Journal) (node : Expr) : Prop :=
  journal.treeAt? node.id = some .invalid

/-- A node without issue may be invalid as a placeholder or because something
directly below it is. -/
def Excuses (journal : Journal) (node : Expr) : Prop :=
  node.isPlaceholder ∨ ∃ child ∈ node.children, journal.InvalidAt child

/-- The state of a node after it was typed. -/
inductive Settled (journal : Journal) (node : Expr) : Prop
  | valid {tree : Tree} :
      journal.treeAt? node.id = some tree → tree.InvalidFree →
      journal.reportsAt node.id = [] → journal.Settled node
  | reported {report : NodeId × Issue} :
      journal.InvalidAt node → journal.reportsAt node.id = [report] →
      (node.isPipe → ∀ child ∈ node.children, ¬journal.InvalidAt child) → journal.Settled node
  | excused :
      journal.InvalidAt node → journal.reportsAt node.id = [] →
      journal.Excuses node → journal.Settled node

theorem settled_of_verdict {node : Expr} {store : Store} {type : TypeId} {issues : List Issue}
    {excuse : Prop} (treeEq : later.treeAt? node.id = some (store.tree type))
    (reportsEq : later.reportsAt node.id = issues.map (node.id, ·))
    (verdict : store.Verdict excuse type issues) (excused : excuse → later.Excuses node)
    (silent : node.isPipe → (∃ child ∈ node.children, later.InvalidAt child) → issues = []) :
    later.Settled node := by
  cases verdict with
  | valid free => exact .valid treeEq free.2 reportsEq
  | reported issue shown =>
    refine .reported (treeEq.trans (congrArg some shown.2)) reportsEq ?_
    intro isPipe child mem isInvalid
    cases silent isPipe ⟨child, mem, isInvalid⟩
  | excused shown isExcused =>
    exact .excused (treeEq.trans (congrArg some shown.2)) reportsEq (excused isExcused)

theorem Settled.of_touches {node : Expr} (settled : earlier.Settled node)
    (touches : later.Touches earlier ids) (sound : earlier.progress.Sound base)
    (absent : node.id ∉ ids) (childrenAbsent : ∀ child ∈ node.children, child.id ∉ ids) :
    later.Settled node := by
  have treeEq := touches.treeAt?_eq sound absent
  have reportsEq := touches.reportsAt_eq absent
  have invalidIff : ∀ child ∈ node.children, later.InvalidAt child ↔ earlier.InvalidAt child := by
    intro child mem
    unfold InvalidAt
    rw [touches.treeAt?_eq sound (childrenAbsent child mem)]
  cases settled with
  | valid recorded free silent =>
    exact .valid (treeEq.trans recorded) free (reportsEq.trans silent)
  | reported isInvalid reported heard =>
    refine .reported (treeEq.trans isInvalid) (reportsEq.trans reported) ?_
    intro isPipe child mem
    exact mt (invalidIff child mem).1 (heard isPipe child mem)
  | excused isInvalid silent excuse =>
    refine .excused (treeEq.trans isInvalid) (reportsEq.trans silent) (excuse.imp_right ?_)
    rintro ⟨child, mem, childInvalid⟩
    exact ⟨child, mem, (invalidIff child mem).2 childInvalid⟩

theorem forall_settled_of_touches {nodes : List Expr}
    (settled : ∀ node ∈ nodes, earlier.Settled node) (touches : later.Touches earlier ids)
    (sound : earlier.progress.Sound base) (downward : Expr.Downward nodes)
    (apart : ∀ node ∈ nodes, node.id ∉ ids) :
    ∀ node ∈ nodes, later.Settled node :=
  fun node mem => (settled node mem).of_touches touches sound (apart node mem)
    fun child isChild => apart child (downward node mem child isChild)

/-- Nodes with distinct ids that nothing was reported at. -/
structure Awaits (journal : Journal) (nodes : List Expr) : Prop where
  /-- The ids are distinct. -/
  distinct : (nodes.map Expr.id).Nodup
  /-- Nothing was reported at them. -/
  unreported : ∀ node ∈ nodes, journal.reportsAt node.id = []

section Awaits

variable {nodes others : List Expr}

section

variable (awaits : earlier.Awaits (nodes ++ others))

include awaits

theorem Awaits.left : earlier.Awaits nodes := by
  have distinct := awaits.distinct
  rw [map_append] at distinct
  exact ⟨distinct.of_append_left, fun node mem =>
    awaits.unreported node (mem_append_left _ mem)⟩

theorem Awaits.apart :
    ∀ node ∈ nodes, node.id ∉ others.map Expr.id := by
  intro node mem inOthers
  have distinct := awaits.distinct
  rw [map_append, nodup_append'] at distinct
  exact distinct.2.2 (List.mem_map_of_mem mem) inOthers

/-- What is done at some nodes does not touch those that come after them. -/
theorem Awaits.right (touches : later.Touches earlier (nodes.map Expr.id)) :
    later.Awaits others := by
  have distinct := awaits.distinct
  rw [map_append, nodup_append'] at distinct
  refine ⟨distinct.2.1, ?_⟩
  intro node mem
  rw [touches.reportsAt_eq fun inNodes => distinct.2.2 inNodes (List.mem_map_of_mem mem)]
  exact awaits.unreported node (mem_append_right _ mem)

end

end Awaits

/-- Some more nodes are settled and no others are touched. -/
structure Completed (later earlier : Journal) (nodes : List Expr) : Prop where
  /-- No other nodes are touched. -/
  touches : later.Touches earlier (nodes.map Expr.id)
  /-- These nodes are settled. -/
  settled : ∀ node ∈ nodes, later.Settled node

theorem Completed.trans {nodes others : List Expr} (second : later.Completed mid others)
    (first : mid.Completed earlier nodes) (sound : earlier.progress.Sound base)
    (downward : Expr.Downward nodes) (apart : ∀ node ∈ nodes, node.id ∉ others.map Expr.id) :
    later.Completed earlier (nodes ++ others) := by
  refine ⟨?_, ?_⟩
  · rw [map_append]
    exact (second.touches.mono (subset_append_right _ _)).trans
      (first.touches.mono (subset_append_left _ _))
  · rw [forall_mem_append]
    exact ⟨forall_settled_of_touches first.settled second.touches (first.touches.sound sound)
      downward apart, second.settled⟩

/-- A type stands for a node: it is the invalid type where the node is invalid, and
else it does not mention it. -/
structure StandsFor (journal : Journal) (type : TypeId) (node : Expr) : Prop where
  /-- The type is valid or invalid as a whole. -/
  decided : journal.progress.store.Has Tree.Decided type
  /-- It is invalid where the node is. -/
  invalid_iff : journal.InvalidAt node ↔ journal.progress.store.tree type = .invalid

/-- The recorded type of a settled node stands for it. -/
theorem Completed.standsFor {nodes : List Expr} (completed : later.Completed earlier nodes)
    {expr : Expr} (mem : expr ∈ nodes) {type : TypeId}
    (recorded : later.progress.types.lookup expr.id = some type) :
    later.StandsFor type expr := by
  have treeEq : later.treeAt? expr.id = some (later.progress.store.tree type) := by
    rw [treeAt?, recorded, map_some]
  have typeInside : type < later.progress.store.size := by
    obtain ⟨_, _, typesEq, _⟩ := lookup_eq_some_iff.1 recorded
    exact completed.touches.inside (expr.id, type) (by simp [typesEq])
  refine ⟨⟨typeInside, ?_⟩, by rw [InvalidAt, treeEq, Option.some.injEq]⟩
  cases completed.settled expr mem with
  | valid found free _ => exact .inr (Option.some.inj (treeEq.symm.trans found) ▸ free)
  | reported isInvalid _ _ => exact .inl (Option.some.inj (treeEq.symm.trans isInvalid))
  | excused isInvalid _ _ => exact .inl (Option.some.inj (treeEq.symm.trans isInvalid))

/-- What is left of a function after some arguments, and why if nothing is. -/
def Pending (journal : Journal) (node : NodeId) (done : List Expr) (found : Option TypeId) :
    Prop :=
  ∃ issues, journal.reportsAt node = issues.map (node, ·) ∧
    journal.progress.store.Interim (∃ child ∈ done, journal.InvalidAt child) found issues

theorem Pending.of_touches {node : NodeId} {done : List Expr} {found : Option TypeId}
    (pending : earlier.Pending node done found) (touches : later.Touches earlier ids)
    (sound : earlier.progress.Sound base) (absent : node ∉ ids)
    (doneAbsent : ∀ child ∈ done, child.id ∉ ids) :
    later.Pending node done found := by
  obtain ⟨issues, reportsEq, interim⟩ := pending
  refine ⟨issues, (touches.reportsAt_eq absent).trans reportsEq, ?_⟩
  cases interim with
  | found free => exact .found (touches.follows.has sound.wellFormed free)
  | reported issue => exact .reported issue
  | excused excuse =>
    obtain ⟨child, mem, isInvalid⟩ := excuse
    exact .excused ⟨child, mem, (touches.treeAt?_eq sound (doneAbsent child mem)).trans isInvalid⟩

/-- A step in the typing of a node, which may record types for it. -/
theorem touches_of_steps {before : Progress} {node : NodeId} {new : List (NodeId × TypeId)}
    {broadcasts : List NodeId} {issues : List Issue} (sound : earlier.progress.Sound base)
    (steps : before.Steps earlier.progress broadcasts issues)
    (progressEq : later.progress = { before with types := new ++ before.types })
    (newInside : ∀ entry ∈ new, entry.1 = node ∧ entry.2 < before.store.size)
    (reportsEq : later.reports = earlier.reports ++ issues.map (node, ·)) :
    later.Touches earlier [node] := by
  refine ⟨?_, ?_, ⟨new, ?_, ?_⟩, ⟨issues.map (node, ·), reportsEq, by simp, ?_⟩⟩
  · rw [progressEq]
    exact steps.follows
  · rw [progressEq]
    intro entry mem
    rcases mem_append.1 mem with isNew | isOld
    · exact (newInside entry isNew).2
    · rw [steps.types_eq] at isOld
      exact steps.follows.grown.inside (sound.inside entry isOld)
  · rw [progressEq, steps.types_eq]
  · exact fun entry mem => mem_singleton.2 (newInside entry mem).1
  · rw [progressEq, List.map_map]
    simpa using steps.issues_eq

section Reading

variable {journal : Journal} {node : Expr}

theorem mem_reports_iff {id : NodeId} :
    id ∈ journal.reports.map Prod.fst ↔ journal.reportsAt id ≠ [] := by
  simp [reportsAt]

theorem count_reports (journal : Journal) (id : NodeId) :
    (journal.reports.map Prod.fst).count id = (journal.reportsAt id).length := by
  rw [List.count, countP_map, countP_eq_length_filter, reportsAt]
  rfl

/-- A settled node has a type. -/
theorem Settled.exists_treeAt? (settled : journal.Settled node) :
    ∃ tree, journal.treeAt? node.id = some tree ∧ tree.Decided := by
  cases settled with
  | valid found free _ => exact ⟨_, found, .inr free⟩
  | reported isInvalid _ _ => exact ⟨_, isInvalid, .inl rfl⟩
  | excused isInvalid _ _ => exact ⟨_, isInvalid, .inl rfl⟩

theorem Settled.explained (settled : journal.Settled node) (isInvalid : journal.InvalidAt node) :
    journal.Excuses node ∨ node.id ∈ journal.reports.map Prod.fst := by
  cases settled with
  | valid found free _ =>
    rw [InvalidAt, found, Option.some.injEq] at isInvalid
    exact absurd (by rw [isInvalid]; simp [Tree.primitives, Tree.invalid]) free
  | reported _ reported _ => exact .inr (mem_reports_iff.2 (by simp [reported]))
  | excused _ _ excuse => exact .inl excuse

/-- What is reported at a settled node makes it invalid. -/
theorem Settled.reported_once (settled : journal.Settled node)
    (isReported : node.id ∈ journal.reports.map Prod.fst) :
    journal.InvalidAt node ∧ (journal.reportsAt node.id).length = 1 ∧
      (node.isPipe → ∀ child ∈ node.children, ¬journal.InvalidAt child) := by
  rw [mem_reports_iff] at isReported
  cases settled with
  | valid _ _ silent => exact absurd silent isReported
  | reported isInvalid reported heard => exact ⟨isInvalid, by simp [reported], heard⟩
  | excused _ silent _ => exact absurd silent isReported

/-- Where a node is invalid, there is a placeholder or an issue below it. -/
theorem exists_cause {expr : Expr} (settled : ∀ node ∈ expr.preorder, journal.Settled node)
    (isInvalid : journal.InvalidAt expr) :
    (∃ node ∈ expr.preorder, node.isPlaceholder) ∨ journal.reports ≠ [] := by
  induction expr using Expr.inductionOnChildren with
  | step expr ih =>
    rcases (settled expr expr.self_mem_preorder).explained isInvalid with
      (isPlaceholder | ⟨child, isChild, childInvalid⟩) | isReported
    · exact .inl ⟨expr, expr.self_mem_preorder, isPlaceholder⟩
    · -- an excuse hands the question on to a child
      have childSettled : ∀ node ∈ child.preorder, journal.Settled node :=
        fun node mem => settled node (Expr.preorder_subset isChild mem)
      refine (ih child isChild childSettled childInvalid).imp_left ?_
      rintro ⟨node, mem, isPlaceholder⟩
      exact ⟨node, Expr.preorder_subset isChild mem, isPlaceholder⟩
    · right
      intro noReports
      simp [noReports] at isReported

end Reading

end Journal
end PipeCheck
