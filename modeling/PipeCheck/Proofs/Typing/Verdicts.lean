import PipeCheck.Proofs.Properties.InvalidFree
import PipeCheck.Proofs.Typing.Journal
import PipeCheck.Proofs.Typing.Steps

/-!
# How expressions become invalid

A step in the typing of a node finds a type that does not mention the invalid
type, or the invalid type itself.  The invalid type comes with one issue, or
without issue if there is an excuse: the node is a placeholder, or something below
it is invalid already.
-/

namespace PipeCheck

open List PipeCheck.Tree

/-- The invalid type itself, or a type that does not mention it. -/
def Tree.Decided (tree : Tree) : Prop :=
  tree = .invalid ∨ tree.InvalidFree

namespace Store

variable {store last : Store} {id : TypeId} {issues : List Issue}

theorem Has.decided (free : store.Has InvalidFree id) : store.Has Decided id :=
  ⟨free.1, .inr free.2⟩

theorem Has.invalidFree (decided : store.Has Decided id) (notInvalid : store.tree id ≠ .invalid) :
    store.Has InvalidFree id :=
  ⟨decided.1, decided.2.resolve_left notInvalid⟩

/-- A type that does not mention the invalid type is not invalid under its
quantifier either. -/
theorem Has.isInvalid_iff (decided : store.Has Decided id) (wf : store.WellFormed) :
    store.isInvalid id = true ↔ store.tree id = .invalid := by
  unfold isInvalid isKind
  rw [decide_eq_true_iff, ← Store.kind_tree, wf.tree_body, kind_eq_primitive_iff]
  constructor
  · intro bodyEq
    rcases decided.2 with isInvalid | free
    · exact isInvalid
    · exact absurd (by rw [← primitives_body, bodyEq]; simp [primitives]) free
  · intro isInvalid
    rw [isInvalid]
    rfl

theorem Has.not_isInvalid (free : store.Has InvalidFree id) (wf : store.WellFormed) :
    store.isInvalid id = false := by
  rw [← Bool.not_eq_true, free.decided.isInvalid_iff wf]
  intro isInvalid
  exact free.2 (by rw [isInvalid]; simp [primitives, invalid])

/-- A type that was found, with the issues of the step that found it. -/
inductive Verdict (store : Store) (excuse : Prop) (type : TypeId) : List Issue → Prop
  | valid : store.Has InvalidFree type → Verdict store excuse type []
  | reported (issue : Issue) : store.Shows type .invalid → Verdict store excuse type [issue]
  | excused : store.Shows type .invalid → excuse → Verdict store excuse type []

theorem Verdict.inside {excuse : Prop} {type : TypeId}
    (verdict : store.Verdict excuse type issues) :
    type < store.size := by
  cases verdict with
  | valid free => exact free.1
  | reported issue shown => exact shown.1
  | excused shown isExcused => exact shown.1

/-- What was found on the way to a type, with the issues of the step. -/
inductive Interim (store : Store) (excuse : Prop) : Option TypeId → List Issue → Prop
  | found {type : TypeId} : store.Has InvalidFree type → Interim store excuse (some type) []
  | reported (issue : Issue) : Interim store excuse none [issue]
  | excused : excuse → Interim store excuse none []

theorem Interim.mono {excuse weaker : Prop} {found : Option TypeId}
    (interim : store.Interim excuse found issues) (weaken : excuse → weaker) :
    store.Interim weaker found issues := by
  cases interim with
  | found free => exact .found free
  | reported issue => exact .reported issue
  | excused isExcused => exact .excused (weaken isExcused)

/-- What was found is not used, for a good reason. -/
theorem Interim.dismiss {excuse other : Prop} {found : Option TypeId}
    (interim : store.Interim other found issues) (excused : excuse) :
    store.Interim excuse none issues := by
  cases interim with
  | found free => exact .excused excused
  | reported issue => exact .reported issue
  | excused _ => exact .excused excused

/-- Without a type the verdict is the invalid type. -/
theorem Interim.verdict {excuse : Prop} {type : TypeId}
    (interim : store.Interim excuse none issues) (shown : last.Shows type .invalid) :
    last.Verdict excuse type issues := by
  cases interim with
  | reported issue => exact .reported issue shown
  | excused isExcused => exact .excused shown isExcused

end Store

namespace Typing

open Progress

variable {state : Progress} {excuse : Prop}

/-- A step ends with a verdict. -/
def Concludes (excuse : Prop) (computation : Typing TypeId) (progress : Progress) : Prop :=
  Ensures computation progress fun type last => ∃ broadcasts issues,
    last.Steps progress broadcasts issues ∧ last.store.Verdict excuse type issues

/-- A step on the way to a type ends with an interim result. -/
def Decides (excuse : Prop) (computation : Typing (Option TypeId)) (progress : Progress) : Prop :=
  Ensures computation progress fun found last => ∃ issues,
    last.Steps progress [] issues ∧ last.store.Interim excuse found issues

theorem ensures_checked {α : Type} {create : Checked α} {post : α → Store → Prop}
    (keeps : Keeps Store.Follows create state.store post) :
    Ensures (checked create) state fun value last =>
      last.Steps state [] [] ∧ post value last.store := by
  refine (ensures_of_checked keeps.ensures).mono ?_
  rintro value _ ⟨store, rfl, follows, holds⟩
  exact ⟨steps_store follows, holds⟩

theorem Finds.concludes {node : NodeId} {action : Typing TypeId} {own : Judgement}
    (finds : Finds node action state own) (free : own.type.InvalidFree)
    (noIssues : own.issues = []) :
    Concludes excuse action state := by
  refine (Succeeds.ensures finds).mono ?_
  rintro type last ⟨steps, shown⟩
  rw [noIssues] at steps
  exact ⟨_, _, steps, .valid ⟨shown.1, shown.2 ▸ free⟩⟩

/-- A step that changes no type comes first. -/
theorem Concludes.after {action : Typing TypeId} {mid : Progress}
    (concludes : Concludes excuse action mid) (steps : mid.Steps state [] []) :
    Ensures action mid fun type last => ∃ broadcasts issues,
      last.Steps state broadcasts issues ∧ last.store.Verdict excuse type issues := by
  refine Ensures.mono concludes ?_
  rintro type last ⟨broadcasts, issues, lastSteps, verdict⟩
  exact ⟨_, _, lastSteps.trans steps, verdict⟩

/-- Without a type the expression is invalid. -/
theorem ensures_invalid {mid : Progress} {issues : List Issue}
    (steps : mid.Steps state [] issues) (interim : mid.store.Interim excuse none issues) :
    Ensures invalid mid fun type last => ∃ broadcasts issues,
      last.Steps state broadcasts issues ∧ last.store.Verdict excuse type issues := by
  have finds : Finds 0 invalid mid .invalid := finds_primitive steps.follows.wellFormed .invalid
  refine (Succeeds.ensures finds).mono ?_
  rintro type last ⟨lastSteps, shown⟩
  have allSteps : last.Steps state [] (issues ++ []) := lastSteps.trans steps
  rw [append_nil] at allSteps
  exact ⟨_, issues, allSteps, interim.verdict shown⟩

section

variable (wf : state.store.WellFormed)

include wf

theorem concludes_excused (excused : excuse) :
    Concludes excuse invalid state :=
  ensures_invalid (steps_self wf) (.excused excused)

theorem concludes_reject (issue : Issue) :
    Concludes excuse (reject issue) state := by
  have finds : Finds 0 (reject issue) state _ := finds_reject wf issue
  refine (Succeeds.ensures finds).mono ?_
  rintro type last ⟨steps, shown⟩
  exact ⟨_, _, steps, .reported issue shown⟩

theorem concludes_literal (value : Literal) :
    Concludes excuse (literal value) state := by
  have finds : Finds 0 (literal value) state _ := finds_literal wf value
  refine finds.concludes ?_ rfl
  cases value <;> simp [InvalidFree, TreeChecker.literal, primitives]

theorem concludes_reference {env : Environment}
    (declared : ∀ entry ∈ env.types, state.store.Has InvalidFree entry.2)
    (name : String) (symbol : Option SymbolId) (span : Span) :
    Concludes excuse (reference env name symbol span) state := by
  unfold reference
  split
  · next type found =>
      obtain ⟨symbol, _, typeEq⟩ := Option.bind_eq_some_iff.1 found
      obtain ⟨_, _, typesEq, _⟩ := lookup_eq_some_iff.1 typeEq
      refine ensures_pure ⟨_, _, steps_self wf, .valid (declared (symbol, type) ?_)⟩
      simp [typesEq]
  · exact concludes_reject wf _

/-- A mismatch is one issue. -/
theorem ensures_mismatch (fn arg : TypeId) (position : Option Nat) (span : Span) :
    Ensures (mismatch fn arg position span) state fun _ last =>
      ∃ issue, last.Steps state [] [issue] := by
  have reports : ∀ issue, Ensures (report issue) state fun _ last =>
      ∃ issue, last.Steps state [] [issue] := fun issue =>
    (succeeds_report wf issue).ensures.mono fun _ _ steps => ⟨issue, steps⟩
  refine ensures_store_bind ?_
  dsimp only
  split
  · refine Ensures.bind (ensures_except fun parameter _ => (rfl : state = state)) ?_
    intro parameter mid midEq
    subst midEq
    exact reports _
  · exact reports _

/-- After a mismatch the type is the invalid one. -/
theorem concludes_mismatch (fn arg : TypeId) (position : Option Nat) (span : Span) :
    Concludes excuse (do mismatch fn arg position span; invalid) state := by
  refine (ensures_mismatch wf fn arg position span).bind ?_
  rintro _ mid ⟨issue, steps⟩
  exact ensures_invalid steps (.reported issue)

end

section Literals

variable {elements : List (TypeId × Span)}

/-- Some element is invalid. -/
def SomeInvalid (store : Store) (elements : List (TypeId × Span)) : Prop :=
  ∃ element ∈ elements, store.tree element.1 = .invalid

/-- The elements that are left are decided, and an invalid one among them or before them
is an excuse. -/
structure Undecided (excuse : Prop) (start : Progress) (common : Option TypeId)
    (sawInvalid : Bool) (rest : List (TypeId × Span)) (state : Progress) : Prop where
  /-- Nothing is recorded or reported on the way. -/
  steps : state.Steps start [] []
  /-- The common type so far does not mention the invalid type. -/
  commonFree : ∀ id ∈ common, state.store.Has InvalidFree id
  /-- An element that was passed over is the excuse. -/
  excused : sawInvalid = true → excuse
  /-- Each element that is left is valid or invalid as a whole. -/
  decided : ∀ element ∈ rest, state.store.Has Decided element.1
  /-- An invalid element that is left is the excuse. -/
  blamed : SomeInvalid state.store rest → excuse
  /-- There has been an element, or one is left. -/
  begun : common.isSome ∨ sawInvalid ∨ rest ≠ []

theorem Undecided.blamed_tail {start : Progress} {common : Option TypeId} {sawInvalid : Bool}
    {element : TypeId × Span} {rest : List (TypeId × Span)}
    (walk : Undecided excuse start common sawInvalid (element :: rest) state) :
    SomeInvalid state.store rest → excuse := by
  rintro ⟨other, mem, isInvalid⟩
  exact walk.blamed ⟨other, mem_cons_of_mem _ mem, isInvalid⟩

theorem Undecided.free_head {start : Progress} {common : Option TypeId} {sawInvalid : Bool}
    {element : TypeId × Span} {rest : List (TypeId × Span)}
    (walk : Undecided excuse start common sawInvalid (element :: rest) state)
    (notInvalid : state.store.isInvalid element.1 = false) :
    state.store.Has InvalidFree element.1 := by
  have decided := walk.decided element mem_cons_self
  refine decided.invalidFree fun treeEq => ?_
  rw [(decided.isInvalid_iff walk.steps.follows.wellFormed).2 treeEq] at notInvalid
  cases notInvalid

theorem elementLoop_decides (excuse : Prop) (start : Progress) :
    ElementLoop (fun _ => Undecided excuse start) fun found last => ∃ issues,
      last.Steps start [] issues ∧ last.store.Interim excuse found issues where
  done := by
    intro _ common sawInvalid state walk
    refine ⟨_, walk.steps, ?_⟩
    cases sawInvalid with
    | true => exact .excused (walk.excused rfl)
    | false =>
      cases common with
      | none => simpa using walk.begun
      | some id => exact .found (walk.commonFree id rfl)
  passes := by
    intro _ _ _ type span rest state walk isInvalid
    have decided := forall_mem_cons.1 walk.decided
    have treeEq := (decided.1.isInvalid_iff walk.steps.follows.wellFormed).1 isInvalid
    -- an element that is passed over is itself the excuse for finding nothing
    exact ⟨walk.steps, walk.commonFree, fun _ => walk.blamed ⟨_, mem_cons_self, treeEq⟩,
      decided.2, walk.blamed_tail, by simp⟩
  starts := by
    intro _ _ type span rest state walk notInvalid
    exact ⟨walk.steps, by simpa using walk.free_head notInvalid, walk.excused,
      (forall_mem_cons.1 walk.decided).2, walk.blamed_tail, by simp⟩
  joins := by
    intro _ previous _ type span rest state walk notInvalid
    have wf := walk.steps.follows.wellFormed
    have decided := (forall_mem_cons.1 walk.decided).2
    refine (Store.invalidFree_inherited.yields_unify wf (walk.commonFree previous rfl)
      (walk.free_head notInvalid)).mono ?_
    rintro found last ⟨follows, foundFree⟩
    cases found with
    | none => exact ⟨_, (steps_reported follows _).trans walk.steps, .reported _⟩
    | some unified =>
      refine ⟨(steps_store follows).trans walk.steps, by simpa using foundFree, walk.excused,
        fun element mem => follows.has wf (decided element mem), ?_, by simp⟩
      rintro ⟨element, mem, isInvalid⟩
      rw [follows.grown.tree_eq wf (decided element mem).1] at isInvalid
      exact walk.blamed_tail ⟨element, mem, isInvalid⟩

theorem concludes_list (wf : state.store.WellFormed) {element : TypeId}
    (decided : state.store.Has Decided element)
    (blamed : state.store.tree element = .invalid → excuse) :
    Concludes excuse (do
      if (← store).isInvalid element then invalid else alloc (Alloc.list element)) state := by
  refine ensures_store_bind ?_
  split
  · next isInvalid =>
      exact concludes_excused wf (blamed ((decided.isInvalid_iff wf).1 isInvalid))
  · next notInvalid =>
      have free := decided.invalidFree fun treeEq =>
        notInvalid ((decided.isInvalid_iff wf).2 treeEq)
      have finds : Finds 0 (alloc (Alloc.list element)) state _ :=
        Finds.of_alloc ((Alloc.yields_list wf decided.1).mono fun _ _ built => built.1)
      exact finds.concludes free.2 rfl

theorem concludes_listLiteral (wf : state.store.WellFormed) (policy : ListPolicy) (span : Span)
    (decided : ∀ element ∈ elements, state.store.Has Tree.Decided element.1)
    (blamed : SomeInvalid state.store elements → excuse) :
    Concludes excuse (listLiteral policy span elements) state := by
  unfold listLiteral
  split
  · exact concludes_reject wf _
  next notEmpty =>
    rw [List.isEmpty_iff] at notEmpty
    cases policy with
    | lastElement =>
      have isLast := getLast?_eq_some_getLast notEmpty
      have mem := getLast_mem notEmpty
      rw [elementType, isLast]
      exact concludes_list wf (decided _ mem) fun isInvalid => blamed ⟨_, mem, isInvalid⟩
    | unify =>
      have walked : Succeeds (commonType 0 none false elements) state _ :=
        (elementLoop_decides excuse state).succeeds
          ⟨steps_self wf, by simp, by simp, decided, blamed, by simp [notEmpty]⟩
      refine walked.ensures.bind ?_
      rintro found mid ⟨issues, steps, interim⟩
      cases found with
      | none => exact ensures_invalid steps interim
      | some element =>
        cases interim with
        | found free =>
          refine (concludes_list steps.follows.wellFormed free.decided ?_).after steps
          intro isInvalid
          exact absurd (by rw [isInvalid]; simp [Tree.primitives, Tree.invalid]) free.2

theorem concludes_tupleLiteral (wf : state.store.WellFormed) {parts : List TypeId}
    (decided : ∀ part ∈ parts, state.store.Has Decided part)
    (blamed : ∀ part ∈ parts, state.store.tree part = .invalid → excuse) :
    Concludes excuse (tupleLiteral parts) state := by
  have primitiveUnit : Finds 0 (alloc (Alloc.primitive .unit)) state _ := finds_primitive wf .unit
  unfold tupleLiteral
  split
  · exact primitiveUnit.concludes (by decide) rfl
  refine ensures_store_bind ?_
  split
  · next someInvalid =>
      obtain ⟨part, mem, isInvalid⟩ := any_eq_true.1 someInvalid
      exact concludes_excused wf (blamed part mem
        (((decided part mem).isInvalid_iff wf).1 isInvalid))
  · next noneInvalid =>
      have finds : Finds 0 (alloc (Alloc.tuple parts)) state _ :=
        Finds.of_alloc ((Alloc.yields_tuple wf
          fun part mem => (decided part mem).1).mono fun _ _ built => built.1)
      refine finds.concludes ?_ rfl
      unfold InvalidFree
      rw [primitives, primitivesAll_eq_flatMap, mem_flatMap]
      rintro ⟨_, inTrees, occurs⟩
      obtain ⟨part, mem, rfl⟩ := mem_map.1 inTrees
      refine ((decided part mem).invalidFree fun treeEq => noneInvalid ?_).2 occurs
      exact any_eq_true.2 ⟨part, mem, ((decided part mem).isInvalid_iff wf).2 treeEq⟩

end Literals

section Applications

variable {fn arg : TypeId}

section

variable (wf : state.store.WellFormed)

include wf

/-- A pipe with an invalid operand is invalid without an issue. -/
theorem ensures_pipe_of_invalid (policy : QuantifierPolicy) (site : Site)
    (fnDecided : state.store.Has Decided fn) (argDecided : state.store.Has Decided arg)
    (someInvalid : state.store.tree arg = .invalid ∨ state.store.tree fn = .invalid) :
    Ensures (pipe policy site arg fn) state fun type last =>
      last.Steps state [] [] ∧ last.store.Shows type .invalid := by
  refine ensures_store_bind ?_
  rw [if_pos (by simpa [argDecided.isInvalid_iff wf, fnDecided.isInvalid_iff wf] using someInvalid)]
  have finds : Finds 0 invalid state .invalid := finds_primitive wf .invalid
  exact Succeeds.ensures finds

/-- A pipe of valid operands has a valid type or an issue. -/
theorem concludes_pipe (policy : QuantifierPolicy) (site : Site)
    (fnFree : state.store.Has InvalidFree fn) (argFree : state.store.Has InvalidFree arg) :
    Concludes excuse (pipe policy site arg fn) state := by
  refine ensures_store_bind ?_
  rw [if_neg (by simp [fnFree.not_isInvalid wf, argFree.not_isInvalid wf])]
  refine Ensures.bind (ensures_checked
    (Store.invalidFree_inherited.keeps_pipe policy wf fnFree argFree)) ?_
  rintro returned mid ⟨steps, returnedFree⟩
  have midWf := steps.follows.wellFormed
  cases returned with
  | none => exact (concludes_mismatch midWf fn arg none site.span).after steps
  | some piped =>
    have resultFree := returnedFree piped rfl
    dsimp only
    split
    · refine (succeeds_recordBroadcast midWf site.id).ensures.bind ?_
      intro _ last lastSteps
      exact ensures_pure ⟨_, _, lastSteps.trans steps,
        .valid (lastSteps.follows.has midWf resultFree)⟩
    · exact ensures_pure ⟨_, _, steps, .valid resultFree⟩

theorem concludes_applyUnit (fnFree : state.store.Has InvalidFree fn) (span : Span) :
    Concludes excuse (applyUnit fn span) state := by
  refine ensures_store_bind ?_
  split
  · next result applied =>
      have resultFree := Store.invalidFree_inherited.applyUnit wf fnFree applied
      exact ensures_pure ⟨_, _, steps_self wf, .valid resultFree⟩
  · have unitFinds : Finds 0 (alloc (Alloc.primitive .unit)) state _ := finds_primitive wf .unit
    refine (Succeeds.ensures unitFinds).bind ?_
    rintro unit mid ⟨steps, _⟩
    exact (concludes_mismatch steps.follows.wellFormed fn unit none span).after steps

/-- One more argument leaves a valid type, or there is an issue, or the argument
is invalid. -/
theorem decides_applyArgument (policy : QuantifierPolicy) (span : Span) (position : Nat)
    (fnFree : state.store.Has InvalidFree fn) (argDecided : state.store.Has Decided arg) :
    Decides (state.store.tree arg = .invalid)
      (applyArgument policy span position (some fn) arg) state := by
  refine ensures_store_bind ?_
  split
  · next isInvalid =>
      exact ensures_pure ⟨_, steps_self wf, .excused ((argDecided.isInvalid_iff wf).1 isInvalid)⟩
  next notInvalid =>
    have argFree := argDecided.invalidFree fun treeEq =>
      notInvalid ((argDecided.isInvalid_iff wf).2 treeEq)
    refine Ensures.bind (ensures_checked
      (Store.invalidFree_inherited.returns_apply policy wf fnFree argFree)) ?_
    rintro returned mid ⟨steps, returnedFree⟩
    cases returned with
    | some result => exact ensures_pure ⟨_, steps, .found (returnedFree result rfl)⟩
    | none =>
      refine (ensures_mismatch steps.follows.wellFormed _ _ _ _).bind ?_
      rintro _ last ⟨issue, lastSteps⟩
      exact ensures_pure ⟨_, lastSteps.trans steps, .reported issue⟩

end

end Applications

end Typing
end PipeCheck
