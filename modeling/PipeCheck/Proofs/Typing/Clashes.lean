import PipeCheck.Proofs.Typing.Journal
import PipeCheck.Proofs.Typing.SameSteps
import PipeCheck.Proofs.Typing.Steps

/-!
# Applications that clash

A function without quantifier compares its parameter with the argument, and the
comparison may come to two types that cannot be compared.  An application that does
so clashes, and later types do not change that.  Applications and pipes fail just if
they clash; all other steps of typing succeed, whatever they are given.
-/

namespace PipeCheck

namespace Store

variable {store other last : Store} {left right : TypeId} {failure : MalformedType}

/-- Two well-formed stores have the same types up to an index. -/
structure Coincide (store other : Store) (bound : Nat) : Prop where
  /-- The first store is in order. -/
  wellFormed : store.WellFormed
  /-- So is the second. -/
  otherWellFormed : other.WellFormed
  /-- The types up to the index are the same. -/
  shape_eq : ∀ {place}, place < bound → other.shape place = store.shape place

variable {bound : Nat}

theorem Coincide.symm (coincide : store.Coincide other bound) : other.Coincide store bound :=
  ⟨coincide.otherWellFormed, coincide.wellFormed, fun before => (coincide.shape_eq before).symm⟩

theorem Follows.coincide (follows : last.Follows store) (wf : store.WellFormed) :
    store.Coincide last store.size :=
  ⟨wf, follows.wellFormed, follows.grown.shape_eq⟩

section

variable (coincide : store.Coincide other bound)

include coincide

theorem Coincide.tree_eq {id : TypeId} (before : id < bound) :
    other.tree id = store.tree id :=
  coincide.wellFormed.treeWithin_congr
    (fun _ notAfter => coincide.shape_eq (Nat.lt_of_le_of_lt notAfter before))
    (Nat.lt_succ_self id) (Nat.lt_succ_self id)

theorem Coincide.render_eq {id : TypeId} (before : id < bound) :
    other.render id = store.render id := by
  rw [coincide.otherWellFormed.render_eq, coincide.wellFormed.render_eq, coincide.tree_eq before]

theorem Coincide.isInvalid_eq {id : TypeId} (before : id < bound) :
    other.isInvalid id = store.isInvalid id := by
  unfold isInvalid isKind
  rw [← Store.kind_tree, ← Store.kind_tree,
    coincide.otherWellFormed.tree_body, coincide.wellFormed.tree_body, coincide.tree_eq before]

theorem Coincide.refusal?_eq (leftBefore : left < bound) (rightBefore : right < bound) :
    other.refusal? left right = store.refusal? left right := by
  unfold refusal?
  rw [coincide.shape_eq leftBefore, coincide.shape_eq rightBefore,
    coincide.render_eq leftBefore, coincide.render_eq rightBefore]

/-- Whether two types can be compared does not depend on later types. -/
theorem Coincide.refuses (leftBefore : left < bound)
    (rightBefore : right < bound) (refuses : store.Refuses left right failure) :
    other.Refuses left right failure := by
  induction refuses with
  | meets different refusalEq =>
    exact .meets different ((coincide.refusal?_eq leftBefore rightBefore).trans refusalEq)
  | @descends left right failure earlier later pair different pairsEq equal _
      ih =>
      have pairBefore : ∀ {other}, other ∈ earlier ++ pair :: later →
          other.1 < bound ∧ other.2 < bound := by
        intro other mem
        obtain ⟨inLeft, inRight⟩ := Shape.mem_components_of_mem_pairs pairsEq mem
        exact ⟨Nat.lt_trans (coincide.wellFormed.component_lt inLeft) leftBefore,
          Nat.lt_trans (coincide.wellFormed.component_lt inRight) rightBefore⟩
      obtain ⟨firstBefore, secondBefore⟩ := pairBefore (List.mem_append_right _ List.mem_cons_self)
      rw [← coincide.shape_eq leftBefore, ← coincide.shape_eq rightBefore] at pairsEq
      refine .descends different pairsEq ?_ (ih firstBefore secondBefore)
      intro before mem
      obtain ⟨isBefore, otherBefore⟩ := pairBefore (List.mem_append_left _ mem)
      rw [coincide.tree_eq isBefore, coincide.tree_eq otherBefore]
      exact equal before mem

end

/-- Two quantified types are not compared. -/
theorem exists_refuses_of_quantified (different : left ≠ right)
    (leftQuantified : store.kind left = .quantified)
    (rightQuantified : store.kind right = .quantified) :
    ∃ failure, store.Refuses left right failure := by
  obtain ⟨leftBinders, leftBody, leftEq⟩ := exists_shape_eq_quantified leftQuantified
  obtain ⟨rightBinders, rightBody, rightEq⟩ := exists_shape_eq_quantified rightQuantified
  have refusalEq : store.refusal? left right =
      some (.quantifierEquality (store.render left) (store.render right)) := by
    simp only [refusal?, leftEq, rightEq]
  exact ⟨_, .meets different refusalEq⟩

/-- A quantified type is compared with every type that is not. -/
theorem not_refuses_of_quantified (leftNot : store.kind left ≠ .quantified)
    (rightQuantified : store.kind right = .quantified) :
    ¬store.Refuses left right failure := by
  obtain ⟨binders, body, rightEq⟩ := exists_shape_eq_quantified rightQuantified
  intro refuses
  cases refuses with
  | meets _ refusalEq =>
    unfold refusal? at refusalEq
    unfold kind at leftNot
    cases leftEq : store.shape left <;> simp [leftEq, rightEq, Shape.kind] at refusalEq leftNot
  | descends _ pairsEq _ _ =>
    cases leftEq : store.shape left <;> simp [leftEq, rightEq, Shape.pairs] at pairsEq

/-- What applying a function to an argument ends with.  A function without
quantifier compares its parameter with the argument. -/
def Responds (store : Store) (function argument : TypeId) :
    Except MalformedType (Option TypeId) → Prop
  | .ok returned => ∀ domain codomain, store.shape function = .function domain codomain →
      (returned.isSome ↔ store.tree domain = store.tree argument) ∧
        ∀ failure, ¬store.Refuses domain argument failure
  | .error failure => ∃ domain codomain, store.shape function = .function domain codomain ∧
      store.Refuses domain argument failure

end Store

/-- An application compares two types that cannot be compared. -/
inductive Call.Clashes (store : Store) (call : Call) (failure : MalformedType) : Prop
  /-- The parameter with the argument. -/
  | direct {domain codomain : TypeId} :
      store.shape call.function = .function domain codomain →
      store.isInvalid call.argument = false →
      store.Refuses domain call.argument failure →
      Clashes store call failure
  /-- The parameter with the elements of a list that is piped into the function and
  is not its parameter's type. -/
  | mapped {domain codomain element : TypeId} :
      call.piped = true →
      store.shape call.function = .function domain codomain →
      store.shape call.argument = .list element →
      store.tree domain ≠ store.tree call.argument →
      store.Refuses domain element failure →
      Clashes store call failure

namespace Call

open Store

variable {store other last : Store} {call : Call} {failure : MalformedType}

/-- Both types of an application are stored. -/
def Stored (store : Store) (call : Call) : Prop :=
  call.function < store.size ∧ call.argument < store.size

theorem Clashes.of_coincide {bound : Nat} (coincide : store.Coincide other bound)
    (fnBefore : call.function < bound) (argBefore : call.argument < bound)
    (clashes : call.Clashes store failure) :
    call.Clashes other failure := by
  have domainBefore : ∀ {domain codomain},
      store.shape call.function = .function domain codomain → domain < bound := by
    intro domain codomain shapeEq
    exact Nat.lt_trans (coincide.wellFormed.domain_lt shapeEq) fnBefore
  cases clashes with
  | direct shapeEq notInvalid refuses =>
    exact .direct ((coincide.shape_eq fnBefore).trans shapeEq)
      ((coincide.isInvalid_eq argBefore).trans notInvalid)
      (coincide.refuses (domainBefore shapeEq) argBefore refuses)
  | @mapped domain codomain element piped shapeEq listEq different refuses =>
    have elementBefore := Nat.lt_trans (coincide.wellFormed.element_lt listEq) argBefore
    refine .mapped piped ((coincide.shape_eq fnBefore).trans shapeEq)
      ((coincide.shape_eq argBefore).trans listEq) ?_
      (coincide.refuses (domainBefore shapeEq) elementBefore refuses)
    rwa [coincide.tree_eq (domainBefore shapeEq), coincide.tree_eq argBefore]

/-- Whether an application clashes does not depend on later types. -/
theorem Stored.clashes_iff (stored : call.Stored store) (wf : store.WellFormed)
    (follows : last.Follows store) :
    call.Clashes last failure ↔ call.Clashes store failure :=
  ⟨.of_coincide (follows.coincide wf).symm stored.1 stored.2,
    .of_coincide (follows.coincide wf) stored.1 stored.2⟩

/-- A step fails just if it tries an application that clashes. -/
def Judges {α : Type} (store : Store) (call : Option Call) : Except MalformedType α → Prop
  | .ok _ => ∀ tried ∈ call, ∀ failure, ¬tried.Clashes store failure
  | .error failure => ∃ tried ∈ call, tried.Clashes store failure

end Call

namespace Checked

open Store Call

variable {store : Store} {function argument : TypeId}

theorem yields_apply_responds (policy : QuantifierPolicy) (wf : store.WellFormed)
    (functionInside : function < store.size) (argumentInside : argument < store.size) :
    Yields (apply policy argument function).run store fun outcome last =>
      last.Follows store ∧ store.Responds function argument outcome := by
  cases shapeEq : store.shape function with
  | function domain codomain =>
    have compared :=
      wf.compared_equal (Nat.lt_trans (wf.domain_lt shapeEq) functionInside) argumentInside
    have runEq := apply_function policy argument shapeEq
    unfold Yields
    rw [runEq]
    refine ⟨wf.follows_self, ?_⟩
    cases outcomeEq : store.equal domain argument with
    | error failure =>
      rw [outcomeEq] at compared
      exact ⟨domain, codomain, shapeEq, compared⟩
    | ok same =>
      rw [outcomeEq] at compared
      intro otherDomain otherCodomain otherEq
      obtain ⟨rfl, rfl⟩ := Shape.function.inj (shapeEq.symm.trans otherEq)
      refine ⟨?_, compared.2⟩
      rw [← compared.1]
      cases same <;> simp
  | quantified binders body =>
    -- a quantified function is matched with the argument, and never compared
    have applied := yields_apply_quantified policy wf shapeEq argumentInside
    have follows := (trivial_inherited.returns_apply policy wf
      ⟨functionInside, trivial⟩ ⟨argumentInside, trivial⟩).1
    obtain ⟨returned, outcomeEq, _⟩ := applied
    refine ⟨follows, ?_⟩
    rw [outcomeEq]
    intro domain codomain otherEq
    rw [shapeEq] at otherEq
    cases otherEq
  | _ =>
    have runEq := apply_other policy argument
      (by simp [Store.kind, shapeEq, Shape.kind] : store.kind function ≠ .function)
      (by simp [Store.kind, shapeEq, Shape.kind])
    unfold Yields
    rw [runEq]
    refine ⟨wf.follows_self, ?_⟩
    intro domain codomain otherEq
    rw [shapeEq] at otherEq
    cases otherEq

/-- A function that is applied to an argument only compares its parameter with
it. -/
theorem judges_applied {outcome : Except MalformedType (Option TypeId)}
    (notInvalid : store.isInvalid argument = false)
    (responds : store.Responds function argument outcome) :
    Judges store (some { function, argument, piped := false }) outcome := by
  cases outcome with
  | error failure =>
    obtain ⟨domain, codomain, shapeEq, refuses⟩ := responds
    exact ⟨_, rfl, .direct shapeEq notInvalid refuses⟩
  | ok returned =>
    intro call isCall failure clashes
    cases isCall
    cases clashes with
    | direct shapeEq _ refuses => exact (responds _ _ shapeEq).2 failure refuses
    | mapped piped _ _ _ _ => cases piped

section Pipes

/-- A function that takes a piped argument, or one that is no list, does not
clash. -/
theorem not_clashes_of_responds {returned : Option TypeId}
    (responds : store.Responds function argument (.ok returned))
    (notMapped : returned.isSome ∨ ∀ element, store.shape argument ≠ .list element)
    (failure : MalformedType) :
    ¬({ function, argument, piped := true } : Call).Clashes store failure := by
  intro clashes
  cases clashes with
  | direct shapeEq _ refuses => exact (responds _ _ shapeEq).2 failure refuses
  | mapped _ shapeEq listEq different _ =>
    rcases notMapped with taken | notList
    · exact different ((responds _ _ shapeEq).1.1 taken)
    · exact notList _ listEq

/-- A function that does not take a list is tried on its elements. -/
theorem judges_mapped {last : Store} {element : TypeId}
    {outcome : Except MalformedType (Option TypeId)} (wf : store.WellFormed)
    (functionInside : function < store.size) (argumentInside : argument < store.size)
    (responds : store.Responds function argument (.ok none)) (follows : last.Follows store)
    (elementEq : store.shape argument = .list element ∨
      store.kind argument = .quantified ∧ last.kind element = .quantified)
    (mapped : last.Responds function element outcome) :
    Judges store (some { function, argument, piped := true }) outcome := by
  have coincide := follows.coincide wf
  have domainInside : ∀ {domain codomain}, store.shape function = .function domain codomain →
      domain < store.size := fun shapeEq => Nat.lt_trans (wf.domain_lt shapeEq) functionInside
  have elementInside : ∀ {element}, store.shape argument = .list element →
      element < store.size := fun listEq => Nat.lt_trans (wf.element_lt listEq) argumentInside
  cases outcome with
  | error failure =>
    obtain ⟨domain, codomain, lastEq, refuses⟩ := mapped
    have shapeEq := (coincide.shape_eq functionInside).symm.trans lastEq
    obtain ⟨takenIff, compared⟩ := responds domain codomain shapeEq
    have different : store.tree domain ≠ store.tree argument := fun equal => by
      simpa using takenIff.2 equal
    rcases elementEq with listEq | ⟨argumentQuantified, elementQuantified⟩
    · exact ⟨_, rfl, .mapped rfl shapeEq listEq different
        (coincide.symm.refuses (domainInside shapeEq) (elementInside listEq) refuses)⟩
    · -- a quantified parameter would not have been compared with the list
      have notQuantified : last.kind domain ≠ .quantified := by
        intro lastQuantified
        rw [kind, coincide.shape_eq (domainInside shapeEq)] at lastQuantified
        obtain ⟨failure, refuses⟩ := exists_refuses_of_quantified
          (fun same => different (congrArg store.tree same)) lastQuantified argumentQuantified
        exact compared failure refuses
      exact absurd refuses (not_refuses_of_quantified notQuantified elementQuantified)
  | ok returned =>
    intro call isCall failure clashes
    cases isCall
    cases clashes with
    | direct shapeEq _ refuses => exact (responds _ _ shapeEq).2 failure refuses
    | mapped _ shapeEq listEq _ refuses =>
      rcases elementEq with elementEq | ⟨argumentQuantified, _⟩
      · obtain rfl := Shape.list.inj (elementEq.symm.trans listEq)
        exact (mapped _ _ ((coincide.shape_eq functionInside).trans shapeEq)).2 failure
          (coincide.refuses (domainInside shapeEq) (elementInside listEq) refuses)
      · rw [kind, listEq] at argumentQuantified
        cases argumentQuantified

/-- A pipe fails just if its function, applied or mapped, clashes with the
argument. -/
theorem yields_pipe_judges (policy : QuantifierPolicy) (wf : store.WellFormed)
    (functionInside : function < store.size) (argumentInside : argument < store.size)
    (notInvalid : store.isInvalid argument = false) :
    Yields (pipe policy argument function).run store fun outcome _ =>
      Judges store (some { function, argument, piped := true }) outcome := by
  -- the two attempts run in different stores, but both are judged in the first one
  unfold pipe
  rw [yields_bind_run]
  refine (yields_apply_responds policy wf functionInside argumentInside).mono ?_
  rintro outcome mid ⟨follows, responds⟩
  cases outcome with
  | error failure =>
    obtain ⟨domain, codomain, shapeEq, refuses⟩ := responds
    exact ⟨_, rfl, .direct shapeEq notInvalid refuses⟩
  | ok returned =>
    cases returned with
    | some type =>
      intro call isCall
      cases isCall
      exact not_clashes_of_responds responds (.inl rfl)
    | none =>
      have argEq : mid.shape argument = store.shape argument :=
        follows.grown.shape_eq argumentInside
      dsimp only
      rw [yields_bind_run]
      refine Yields.mono (succeeds_elementOf? follows.wellFormed
        (follows.grown.inside argumentInside)) ?_
      rintro _ last ⟨found, rfl, elementFollows, ofArgument⟩
      cases found with
      | none =>
        intro call isCall
        cases isCall
        refine not_clashes_of_responds responds (.inr ?_)
        intro element listEq
        cases ofArgument with
        | none notList =>
          exact notList (by simp [isList, isKind, body, kind, argEq.trans listEq, Shape.kind])
      | some element =>
        have bothFollow := elementFollows.trans follows
        obtain ⟨elementInside, elementEq⟩ : element < last.size ∧
            (store.shape argument = .list element ∨
              store.kind argument = .quantified ∧ last.kind element = .quantified) := by
          rw [kind, ← argEq]
          cases ofArgument with
          | direct shapeEq inside => exact ⟨elementFollows.grown.inside inside, .inl shapeEq⟩
          | quantified shapeEq _ built createdEq =>
            exact ⟨built.inside, .inr ⟨congrArg Shape.kind shapeEq, congrArg Shape.kind createdEq⟩⟩
        dsimp only
        rw [yields_bind_run]
        refine (yields_apply_responds policy elementFollows.wellFormed
          (bothFollow.grown.inside functionInside) elementInside).mono ?_
        rintro outcome final ⟨_, mapped⟩
        have judges := judges_mapped wf functionInside argumentInside responds
          bothFollow elementEq mapped
        cases outcome with
        | error failure => exact judges
        | ok returned =>
          cases returned with
          | none => exact judges
          | some type => exact judges

end Pipes

end Checked

namespace Typing

open Store Call

variable {α β : Type} {state : Progress}

section Judging

variable {store : Store} {call : Option Call}

theorem Total.judges {action : Typing α} (total : Total action)
    (comparable : ∀ tried ∈ call, ∀ failure, ¬tried.Clashes store failure) :
    Judges store call (action.run.run state).1 := by
  obtain ⟨value, outcomeEq, _⟩ := total state
  rw [outcomeEq]
  exact comparable

/-- What comes after the application does not fail. -/
theorem judges_bind {action : Typing α} {next : α → Typing β}
    (judges : Judges store call (action.run.run state).1) (rest : ∀ value, Total (next value)) :
    Judges store call ((action >>= next).run.run state).1 := by
  rcases runEq : action.run.run state with ⟨outcome, mid⟩
  rw [runEq] at judges
  cases outcome with
  | error failure =>
    rw [run_bind_of_error runEq]
    exact judges
  | ok value =>
    rw [run_bind_of_ok runEq]
    exact (rest value).judges judges

/-- An invalid type is compared with none. -/
theorem not_clashes_of_isInvalid {tried : Call}
    (isInvalid : store.isInvalid tried.argument = true ∨ store.isInvalid tried.function = true)
    (failure : MalformedType) :
    ¬tried.Clashes store failure := by
  intro clashes
  cases clashes with
  | direct shapeEq notInvalid _ =>
    rw [notInvalid] at isInvalid
    simp [Store.isInvalid, isKind, Store.body, Store.kind, shapeEq, Shape.kind] at isInvalid
  | mapped _ shapeEq listEq _ _ =>
    simp [Store.isInvalid, isKind, Store.body, Store.kind, shapeEq, listEq, Shape.kind] at isInvalid

theorem judges_pipe (wf : state.store.WellFormed) (policy : QuantifierPolicy)
    (site : Site) {function argument : TypeId} (functionInside : function < state.store.size)
    (argumentInside : argument < state.store.size) :
    Judges state.store (some { function, argument, piped := true })
      ((pipe policy site argument function).run.run state).1 := by
  change Judges state.store _ ((if _ then invalid else _ : Typing TypeId).run.run state).1
  split
  · next isInvalid =>
      refine sameSteps_invalid.total.judges ?_
      intro tried isCall
      cases isCall
      exact not_clashes_of_isInvalid (by simpa using isInvalid)
  next notInvalid =>
    rw [Bool.not_eq_true, Bool.or_eq_false_iff] at notInvalid
    refine judges_bind (Checked.yields_pipe_judges policy wf functionInside
      argumentInside notInvalid.1) ?_
    intro piped
    cases piped with
    | none => exact (sameSteps_mismatch_invalid _ _ _ _ _ _).total
    | some piped =>
      dsimp only
      split
      · exact fun _ => ⟨_, rfl, trivial⟩
      · exact (SameSteps.pure _).total

theorem judges_applyArgument (wf : state.store.WellFormed) (policy : QuantifierPolicy)
    (span : Span) (position : Nat) {function : Option TypeId} {argument : TypeId}
    (functionInside : ∀ id, function = some id → id < state.store.size)
    (argumentInside : argument < state.store.size) :
    Judges state.store (function.map fun function => { function, argument, piped := false })
      ((applyArgument policy span position function argument).run.run state).1 := by
  cases function with
  | none => exact (SameSteps.pure none).total.judges (by simp)
  | some function =>
    change Judges state.store _
      ((if _ then pure none else _ : Typing (Option TypeId)).run.run state).1
    split
    · next isInvalid =>
        refine (SameSteps.pure none).total.judges ?_
        intro tried isCall
        cases isCall
        exact not_clashes_of_isInvalid (Or.inl isInvalid)
    next notInvalid =>
      rw [Bool.not_eq_true] at notInvalid
      have responds := Checked.yields_apply_responds policy wf
        (functionInside function rfl) argumentInside
      refine judges_bind (Checked.judges_applied notInvalid responds.2) ?_
      intro returned
      cases returned with
      | some result => exact (SameSteps.pure _).total
      | none => exact ((sameSteps_mismatch _ _ _ _ _ _).bind fun _ => .pure none).total

end Judging

end Typing

end PipeCheck
