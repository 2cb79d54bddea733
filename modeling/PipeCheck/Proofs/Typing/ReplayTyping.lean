import PipeCheck.Proofs.Typing.Journal
import PipeCheck.Proofs.Unification.ReplayUnification

/-!
# Typing takes the same course on top of other findings

An expression may be typed after others, whose types, broadcasts and issues are
there already and whose types fill the store.  The typing of the expression adds
to them what it would find on its own, twin for twin.
-/

namespace PipeCheck

open List Progress Typing Journal Option Alloc

/-- Progress on its own, and the same progress on top of earlier findings. -/
structure Progress.Alike (base : Progress) (twins : Twins) (left right : Progress) : Prop where
  /-- The stores are alike. -/
  stores : left.store.Alike twins right.store
  /-- The same nodes have twins as types. -/
  types : ∃ types, right.types = types ++ base.types ∧
    Forall₂ (fun entry other => entry.1 = other.1 ∧ twins entry.2 other.2) left.types types
  /-- The same pipes map over lists. -/
  broadcasts : right.broadcasts = left.broadcasts ++ base.broadcasts
  /-- The same issues are found. -/
  issues : right.issues.toList = base.issues.toList ++ left.issues.toList

namespace Progress

variable {base : Progress} {twins further : Twins} {left right : Progress}

/-- The stores have grown, and nothing else was found. -/
theorem Alike.withStores (alike : Alike base twins left right) {store otherStore : Store}
    (grown : twins ≤ further) (stores : store.Alike further otherStore) :
    Alike base further { left with store } { right with store := otherStore } := by
  obtain ⟨types, typesEq, typesTwins⟩ := alike.types
  exact ⟨stores, ⟨types, typesEq, typesTwins.imp fun _ _ entry =>
    ⟨entry.1, grown _ _ entry.2⟩⟩, alike.broadcasts, alike.issues⟩

end Progress

namespace Typing

variable {other function arg otherArg : TypeId} {elements others : List (TypeId × Span)}
  {base : Progress} {twins : Twins} {left right : Progress} (alike : Alike base twins left right)

include alike

section Basic

variable {Value Counterpart : Type} {related : Twins → Value → Counterpart → Prop}

/-- New types leave the findings alike. -/
theorem concur_alloc {create : Alloc Value} {otherCreate : Alloc Counterpart}
    (parallel : Parallel Store.Alike twins left.store right.store create otherCreate related) :
    Concur (Alike base) twins left right (alloc create) (alloc otherCreate)
      related := by
  obtain ⟨further, grown, stores, holds⟩ := parallel
  exact ⟨further, grown, alike.withStores grown stores, holds⟩

/-- So do operations on the store that may fail. -/
theorem concur_checked {create : Checked Value} {otherCreate : Checked Counterpart}
    (concur : Concur Store.Alike twins left.store right.store create otherCreate related) :
    Concur (Alike base) twins left right (checked create) (checked otherCreate)
      related := by
  obtain ⟨further, grown, stores, holds⟩ := concur
  exact ⟨further, grown, alike.withStores grown stores, holds⟩

omit alike in
theorem concur_store_bind {next : Store → Typing Value} {otherNext : Store → Typing Counterpart}
    (rest : Concur (Alike base) twins left right (next left.store)
      (otherNext right.store) related) :
    Concur (Alike base) twins left right (store >>= next) (store >>= otherNext)
      related :=
  rest

/-- The same issue is reported. -/
theorem concur_report (issue : Issue) :
    Concur (Alike base) twins left right (report issue) (report issue)
      fun _ _ _ => True := by
  refine ⟨twins, le_refl twins, ⟨alike.stores, alike.types, alike.broadcasts, ?_⟩, trivial⟩
  change (right.issues.push issue).toList = base.issues.toList ++ (left.issues.push issue).toList
  rw [Array.toList_push, Array.toList_push, alike.issues, append_assoc]

/-- The same pipe is recorded. -/
theorem concur_recordBroadcast (node : NodeId) :
    Concur (Alike base) twins left right (recordBroadcast node) (recordBroadcast node)
      fun _ _ _ => True := by
  refine ⟨twins, le_refl twins, ⟨alike.stores, alike.types, ?_, alike.issues⟩, trivial⟩
  exact congrArg (cons node) alike.broadcasts

/-- Twins are recorded for one node. -/
theorem concur_record (node : NodeId) {type : TypeId} (types : twins type other) :
    Concur (Alike base) twins left right (record node type) (record node other)
      fun further => further := by
  obtain ⟨earlier, earlierEq, earlierTwins⟩ := alike.types
  refine ⟨twins, le_refl twins, ⟨alike.stores, ⟨(node, other) :: earlier, ?_, ?_⟩,
    alike.broadcasts, alike.issues⟩, types⟩
  · exact congrArg (cons (node, other)) earlierEq
  · exact .cons ⟨rfl, types⟩ earlierTwins

end Basic

theorem concur_invalid :
    Concur (Alike base) twins left right invalid invalid fun further => further :=
  concur_alloc alike (parallel_primitive alike.stores .invalid)

/-- One issue is reported, and both types are invalid. -/
theorem concur_reject (issue : Issue) :
    Concur (Alike base) twins left right (reject issue) (reject issue)
      fun further => further :=
  (concur_report alike issue).bind fun _ alike _ => concur_invalid alike

/-- A literal has twins as its types. -/
theorem concur_literal (value : Literal) :
    Concur (Alike base) twins left right (literal value) (literal value)
      fun further => further := by
  cases value with
  | glob pattern =>
    exact concur_alloc alike ((parallel_primitive alike.stores .file).bind
      fun _ stores file => parallel_list stores file)
  | _ => exact concur_alloc alike (parallel_primitive alike.stores _)

/-- So has a symbol whose type is its own twin. -/
theorem concur_reference {env : Environment} (fixed : ∀ entry ∈ env.types, twins entry.2 entry.2)
    (name : String) (symbol : Option SymbolId) (span : Span) :
    Concur (Alike base) twins left right (reference env name symbol span)
      (reference env name symbol span) fun further => further := by
  unfold reference
  split
  · next type found =>
      obtain ⟨id, _, lookupEq⟩ := bind_eq_some_iff.1 found
      obtain ⟨_, _, typesEq, _⟩ := lookup_eq_some_iff.1 lookupEq
      exact concur_pure alike (fixed (id, type) (by simp [typesEq]))
  · exact concur_reject alike _

omit alike in
/-- The parameters of twins are twins. -/
theorem outcomes_parameter {left right : Store} (alike : left.Alike twins right)
    (fns : twins function other) :
    Outcomes (fun twins => twins) twins (left.parameter function) (right.parameter other) := by
  have shapes := alike.shapes (alike.body fns)
  unfold Store.parameter
  rw [alike.render_eq fns]
  generalize left.shape (left.body function) = shape, right.shape (right.body other) = otherShape
    at shapes
  cases shapes with
  | function domains codomains => exact domains
  | _ => rfl

/-- Twins that do not fit are reported in the same words. -/
theorem concur_mismatch {otherFn : TypeId} (fns : twins function otherFn)
    (args : twins arg otherArg) (position : Option Nat) (span : Span) :
    Concur (Alike base) twins left right (mismatch function arg position span)
      (mismatch otherFn otherArg position span) fun _ _ _ => True := by
  have stores := alike.stores
  unfold mismatch
  refine concur_store_bind ?_
  have isFnEq : left.store.isFunction function = right.store.isFunction otherFn :=
    stores.isKind_eq fns _
  rw [isFnEq, stores.render_eq fns, stores.render_eq args]
  split
  · have rendered : Outcomes (fun _ domain other =>
        left.store.render domain = right.store.render other) twins
        (left.store.parameter function) (right.store.parameter otherFn) :=
      outcomes_mono (fun _ _ domains => stores.render_eq domains) (outcomes_parameter stores fns)
    refine (concur_except alike rendered).bind fun _ midAlike sameText => ?_
    rw [sameText]
    exact concur_report midAlike _
  · exact concur_report alike _

/-- Twins, with the same spans. -/
def ElementsAlike (twins : Twins) (elements others : List (TypeId × Span)) : Prop :=
  Forall₂ (fun element other => twins element.1 other.1 ∧ element.2 = other.2) elements others

omit alike in
theorem ElementsAlike.mono {further : Twins} (elementTwins : ElementsAlike twins elements others)
    (grown : twins ≤ further) :
    ElementsAlike further elements others :=
  Forall₂.imp (fun _ _ pair => ⟨grown _ _ pair.1, pair.2⟩) elementTwins

omit alike in
/-- The last elements are twins, or there are none. -/
theorem ElementsAlike.getLast? (elementTwins : ElementsAlike twins elements others) :
    Rel twins (elements.getLast?.map Prod.fst) (others.getLast?.map Prod.fst) := by
  have lasts := rel_reverse elementTwins
  rw [getLast?_eq_head?_reverse, getLast?_eq_head?_reverse]
  generalize elements.reverse = reversed, others.reverse = otherReversed at lasts
  cases lasts with
  | nil => exact .none
  | cons last _ => exact .some last.1

omit alike in
theorem elementsAlike_zip {types others : List TypeId} (listed : Forall₂ twins types others)
    (spans : List Span) :
    ElementsAlike twins (types.zip spans) (others.zip spans) := by
  induction listed generalizing spans with
  | nil => exact .nil
  | cons head _ ih =>
    cases spans with
    | nil => exact .nil
    | cons span rest => exact .cons ⟨head, rfl⟩ (ih rest)

/-- Common types of twins are twins. -/
theorem concur_commonType (index : Nat) {common otherCommon : Option TypeId}
    (commons : Rel twins common otherCommon) (sawInvalid : Bool)
    (elementTwins : ElementsAlike twins elements others) :
    Concur (Alike base) twins left right (commonType index common sawInvalid elements)
      (commonType index otherCommon sawInvalid others) fun further => Rel further := by
  induction elements generalizing twins left right index common otherCommon sawInvalid others with
  | nil =>
    cases elementTwins
    refine concur_pure alike ?_
    cases sawInvalid
    · exact commons
    · exact .none
  | cons element rest ih =>
    cases elementTwins with
    | @cons _ other _ otherRest elementTwin restTwins =>
      obtain ⟨type, span⟩ := element
      obtain ⟨otherType, otherSpan⟩ := other
      obtain ⟨types, rfl⟩ := elementTwin
      refine concur_store_bind ?_
      rw [alike.stores.isInvalid_eq types]
      split
      · exact ih alike _ commons true restTwins
      cases commons with
      | none => exact ih alike _ (.some types) sawInvalid restTwins
      | some previous =>
        refine (concur_alloc alike (parallel_unify alike.stores previous types)).bind
          fun {further _ _ _ _} grown midAlike unifieds => ?_
        have restTwins : ElementsAlike further rest otherRest := ElementsAlike.mono restTwins grown
        cases unifieds with
        | some twin =>
          exact ih midAlike _ (.some twin) sawInvalid restTwins
        | none =>
          refine concur_store_bind ?_
          rw [midAlike.stores.render_eq (grown _ _ previous),
            midAlike.stores.render_eq (grown _ _ types)]
          refine (concur_report midAlike _).bind fun _ lastAlike _ => ?_
          exact concur_pure lastAlike .none

theorem concur_elementType (policy : ListPolicy)
    (elementTwins : ElementsAlike twins elements others) :
    Concur (Alike base) twins left right (elementType policy elements)
      (elementType policy others) fun further => Rel further := by
  cases policy with
  | lastElement => exact concur_pure alike elementTwins.getLast?
  | unify => exact concur_commonType alike 0 .none false elementTwins

/-- Lists of twins have twins as their types. -/
theorem concur_listLiteral (policy : ListPolicy) (span : Span)
    (elementTwins : ElementsAlike twins elements others) :
    Concur (Alike base) twins left right (listLiteral policy span elements)
      (listLiteral policy span others) fun further => further := by
  have emptyEq : elements.isEmpty = others.isEmpty := by
    cases elementTwins <;> rfl
  unfold listLiteral
  rw [emptyEq]
  split
  · exact concur_reject alike _
  refine (concur_elementType alike policy elementTwins).bind fun _ midAlike commons => ?_
  cases commons with
  | none => exact concur_invalid midAlike
  | some elements =>
    refine concur_store_bind ?_
    rw [midAlike.stores.isInvalid_eq elements]
    split
    · exact concur_invalid midAlike
    · exact concur_alloc midAlike (parallel_list midAlike.stores elements)

/-- So have tuples of twins. -/
theorem concur_tupleLiteral {parts others : List TypeId} (listed : Forall₂ twins parts others) :
    Concur (Alike base) twins left right (tupleLiteral parts)
      (tupleLiteral others) fun further => further := by
  have emptyEq : parts.isEmpty = others.isEmpty := by
    cases listed <;> rfl
  have anyEq : parts.any left.store.isInvalid = others.any right.store.isInvalid := by
    rw [any_eq_not_all_not, any_eq_not_all_not, all_eq_all listed]
    exact fun _ _ twin => by rw [alike.stores.isInvalid_eq twin]
  unfold tupleLiteral
  rw [emptyEq]
  split
  · exact concur_alloc alike (parallel_primitive alike.stores .unit)
  refine concur_store_bind ?_
  rw [anyEq]
  split
  · exact concur_invalid alike
  · exact concur_alloc alike (parallel_tuple alike.stores listed)

/-- Twins piped into twins give twins. -/
theorem concur_pipe (policy : QuantifierPolicy) (site : Site) {otherFn : TypeId}
    (args : twins arg otherArg) (fns : twins function otherFn) :
    Concur (Alike base) twins left right (pipe policy site arg function)
      (pipe policy site otherArg otherFn) fun further => further := by
  unfold pipe
  refine concur_store_bind ?_
  rw [alike.stores.isInvalid_eq args, alike.stores.isInvalid_eq fns]
  split
  · exact concur_invalid alike
  refine (concur_checked alike (Checked.concur_pipe alike.stores policy args fns)).bind
    fun grown midAlike pipeds => ?_
  cases pipeds with
  | none =>
    refine (concur_mismatch midAlike (grown _ _ fns) (grown _ _ args) none site.span).bind
      fun _ lastAlike _ => ?_
    exact concur_invalid lastAlike
  | some results =>
    simp only [results.2]
    split
    · refine (concur_recordBroadcast midAlike site.id).bind fun more lastAlike _ => ?_
      exact concur_pure lastAlike (more _ _ results.1)
    · exact concur_pure midAlike results.1

/-- So do twins applied to no argument. -/
theorem concur_applyUnit (fns : twins function other) (span : Span) :
    Concur (Alike base) twins left right (applyUnit function span)
      (applyUnit other span) fun further => further := by
  have results : Rel twins (left.store.applyUnit function)
      (right.store.applyUnit other) := by
    have shapes := alike.stores.shapes fns
    unfold Store.applyUnit
    generalize left.store.shape function = shape, right.store.shape other = otherShape at shapes
    cases shapes with
    | function domains codomains =>
      simp only [alike.stores.kind_eq domains]
      split
      · exact .some codomains
      · exact .none
    | _ => exact .none
  unfold applyUnit
  refine concur_store_bind ?_
  generalize left.store.applyUnit function = result, right.store.applyUnit other = otherResult
    at results
  cases results with
  | some twin => exact concur_pure alike twin
  | none =>
    refine (concur_alloc alike (parallel_primitive alike.stores .unit)).bind
      fun grown midAlike units => ?_
    refine (concur_mismatch midAlike (grown _ _ fns) units none span).bind fun _ lastAlike _ => ?_
    exact concur_invalid lastAlike

/-- So do twins applied to twins. -/
theorem concur_applyArgument (policy : QuantifierPolicy) (span : Span) (position : Nat)
    {function otherFn : Option TypeId} (fns : Rel twins function otherFn)
    (args : twins arg otherArg) :
    Concur (Alike base) twins left right
      (applyArgument policy span position function arg)
      (applyArgument policy span position otherFn otherArg)
      fun further => Rel further := by
  unfold applyArgument
  cases fns with
  | none => exact concur_pure alike .none
  | some fnTwins =>
    refine concur_store_bind ?_
    rw [alike.stores.isInvalid_eq args]
    split
    · exact concur_pure alike .none
    refine (concur_checked alike (Checked.concur_apply alike.stores policy args fnTwins)).bind
      fun grown midAlike results => ?_
    cases results with
    | some twin => exact concur_pure midAlike (.some twin)
    | none =>
      refine (concur_mismatch midAlike (grown _ _ fnTwins) (grown _ _ args)
        (some position) span).bind fun _ lastAlike _ => ?_
      exact concur_pure lastAlike .none

end Typing

/-- A journal of its own, and the same journal on top of an earlier one. -/
structure Journal.Alike (base : Journal) (twins : Twins) (left right : Journal) : Prop where
  /-- What has been found is alike. -/
  progress : Progress.Alike base.progress twins left.progress right.progress
  /-- The same reports are added. -/
  reports : right.reports = base.reports ++ left.reports

namespace Journaling

variable {config : Config} {env : Environment} {base : Journal} {twins : Twins}
  {left right : Journal} {Value Counterpart : Type} {related : Twins → Value → Counterpart → Prop}

theorem concur_store_bind {next : Store → Journaling Value}
    {otherNext : Store → Journaling Counterpart}
    (rest : Concur (Alike base) twins left right (next left.progress.store)
      (otherNext right.progress.store) related) :
    Concur (Alike base) twins left right (store >>= next) (store >>= otherNext)
      related :=
  rest

/-- Both journals get the same reports for a step. -/
theorem concur_attempt (alike : Alike base twins left right) (node : NodeId)
    (call otherCall : Option Call) {first : Typing Value} {second : Typing Counterpart}
    (concur : Concur (Progress.Alike base.progress) twins left.progress right.progress first
      second related) :
    Concur (Alike base) twins left right (attempt node call first)
      (attempt node otherCall second) related := by
  obtain ⟨further, grown, ended, holds⟩ := concur
  unfold Concur Parallel
  rcases firstEq : first.run.run left.progress with ⟨outcome, state⟩
  rcases secondEq : second.run.run right.progress with ⟨otherOutcome, otherProgress⟩
  rw [firstEq, secondEq] at ended holds
  rw [run_attempt firstEq, run_attempt secondEq]
  refine ⟨further, grown, ⟨ended, ?_⟩, holds⟩
  have before := congrArg length alike.progress.issues
  simp only [length_append, Array.length_toList] at before
  have new : otherProgress.issues.toList.drop right.progress.issues.size =
      state.issues.toList.drop left.progress.issues.size := by
    rw [ended.issues, before, drop_append, drop_of_length_le (by simp)]
    simp
  change right.reports ++ map _ (drop _ _) = base.reports ++ (left.reports ++ map _ (drop _ _))
  rw [new, alike.reports, append_assoc]

section Nodes

/-- The last step of a node gives it twins. -/
theorem concur_recorded (alike : Alike base twins left right) (node : NodeId)
    (call otherCall : Option Call) {first second : Typing TypeId}
    (concur : Concur (Alike base.progress) twins left.progress right.progress first
      second fun further => further) :
    Concur (Alike base) twins left right
      (attempt node call (do record node (← first)))
      (attempt node otherCall (do record node (← second))) fun further => further := by
  refine concur_attempt alike node call otherCall (concur.bind ?_)
  exact fun _ midAlike types => concur_record midAlike node types

/-- An expression is typed in parallel wherever the types of symbols are their own
twins. -/
def Replays (config : Config) (env : Environment) (expr : Expr) : Prop :=
  ∀ ⦃base : Journal⦄ ⦃twins : Twins⦄ ⦃left right : Journal⦄,
    (∀ entry ∈ env.types, twins entry.2 entry.2) → Alike base twins left right →
      Concur (Alike base) twins left right (expression config env expr)
        (expression config env expr) fun further => further

variable (fixed : ∀ entry ∈ env.types, twins entry.2 entry.2) (alike : Alike base twins left right)

include fixed alike

/-- Expressions are typed in parallel, one after the other. -/
theorem concur_expressions {exprs : List Expr} (each : ∀ expr ∈ exprs, Replays config env expr) :
    Concur (Alike base) twins left right (expressions config env exprs)
      (expressions config env exprs) fun further => Forall₂ further := by
  induction exprs generalizing twins left right with
  | nil =>
    rw [expressions]
    exact concur_pure alike .nil
  | cons expr rest ih =>
    rw [expressions]
    refine (each expr mem_cons_self fixed alike).bind fun grown midAlike types => ?_
    refine (ih (fun entry mem => grown _ _ (fixed entry mem)) midAlike
      (forall_mem_of_forall_mem_cons each)).bind fun more laterAlike restTwins => ?_
    exact concur_pure laterAlike (.cons (more _ _ types) restTwins)

/-- So are arguments, and the function is applied to each in turn. -/
theorem concur_applied {args : List Expr}
    (each : ∀ arg ∈ args, Replays config env arg) (site : Site)
    (position : Nat) {function otherFn : Option TypeId} (fns : Rel twins function otherFn) :
    Concur (Alike base) twins left right
      (applied config env site position function args)
      (applied config env site position otherFn args)
      fun further => Rel further := by
  induction args generalizing twins left right position function otherFn with
  | nil =>
    rw [applied, applied]
    exact concur_pure alike fns
  | cons arg rest ih =>
    rw [applied, applied]
    refine (each arg mem_cons_self fixed alike).bind
      fun {further _ _ _ _} grown midAlike types => ?_
    have fns : Rel further function otherFn := by
      cases fns with
      | none => exact .none
      | some twin => exact .some (grown _ _ twin)
    refine (concur_attempt midAlike site.id _ _ (concur_applyArgument
      midAlike.progress config.quantifiers site.span position fns types)).bind
      fun more laterAlike nexts => ?_
    exact ih (fun entry mem => more _ _ (grown _ _ (fixed entry mem)))
      laterAlike (forall_mem_of_forall_mem_cons each) _ nexts

end Nodes

/-- Typing takes the same course wherever it starts. -/
theorem replays (config : Config) (env : Environment) (expr : Expr) :
    Replays config env expr := by
  induction expr with
  | reference site name symbol =>
    intro base twins left right fixed alike
    rw [expression]
    exact concur_recorded alike site.id _ _
      (concur_reference alike.progress fixed name symbol site.span)
  | literal site value =>
    intro base twins left right fixed alike
    rw [expression]
    exact concur_recorded alike site.id _ _ (concur_literal alike.progress value)
  | list site items each =>
    intro base twins left right fixed alike
    rw [expression]
    refine (concur_expressions fixed alike each).bind fun _ midAlike typeTwins => ?_
    refine concur_recorded midAlike site.id _ _
      (concur_listLiteral midAlike.progress _ site.span ?_)
    exact elementsAlike_zip typeTwins _
  | tuple site items each =>
    intro base twins left right fixed alike
    rw [expression]
    refine (concur_expressions fixed alike each).bind fun _ midAlike typeTwins => ?_
    exact concur_recorded midAlike site.id _ _ (concur_tupleLiteral midAlike.progress typeTwins)
  | apply site function args fnReplays each =>
    intro base twins left right fixed alike
    rw [expression]
    refine (fnReplays fixed alike).bind fun grown midAlike fns => ?_
    have fixed := fun entry mem => grown _ _ (fixed entry mem)
    refine concur_store_bind ?_
    rw [midAlike.progress.stores.isInvalid_eq fns]
    split
    · refine (concur_applied fixed midAlike each site 0 .none).bind fun _ laterAlike _ => ?_
      exact concur_recorded laterAlike site.id _ _ (concur_invalid laterAlike.progress)
    split
    · exact concur_recorded midAlike site.id _ _ (concur_applyUnit midAlike.progress fns site.span)
    · refine (concur_applied fixed midAlike each site 0 (.some fns)).bind
        fun _ laterAlike results => ?_
      cases results with
      | some twin =>
        exact concur_attempt laterAlike site.id _ _ (concur_record laterAlike.progress site.id twin)
      | none =>
        exact concur_recorded laterAlike site.id _ _ (concur_invalid laterAlike.progress)
  | pipe site arg function argReplays fnReplays =>
    intro base twins left right fixed alike
    rw [expression]
    refine (argReplays fixed alike).bind fun grown midAlike args => ?_
    refine (fnReplays (fun entry mem => grown _ _ (fixed entry mem)) midAlike).bind
      fun more laterAlike fns => ?_
    exact concur_recorded laterAlike site.id _ _ (concur_pipe laterAlike.progress
      config.quantifiers site (more _ _ args) fns)
  | binary site op left right leftReplays rightReplays =>
    intro base twins start otherStart fixed alike
    rw [expression]
    refine (leftReplays fixed alike).bind fun grown midAlike _ => ?_
    refine (rightReplays (fun entry mem => grown _ _ (fixed entry mem)) midAlike).bind
      fun _ laterAlike _ => ?_
    exact concur_recorded laterAlike site.id _ _ (concur_reject laterAlike.progress _)
  | definition site symbol init initReplays =>
    intro base twins left right fixed alike
    rw [expression]
    refine (initReplays fixed alike).bind fun _ laterAlike _ => ?_
    exact concur_recorded laterAlike site.id _ _ (concur_reject laterAlike.progress _)
  | placeholder site =>
    intro base twins left right fixed alike
    rw [expression]
    exact concur_recorded alike site.id _ _ (concur_invalid alike.progress)

end Journaling
end PipeCheck
