import PipeCheck.Proofs.Typing.Clashes
import PipeCheck.Proofs.Typing.Basic

/-!
# Properties that last through an expression

Typing an expression records a type for each of its nodes, and all of them have a
lasting property if the declared types do.  Typing that fails has come to two types
with the property that cannot be compared.
-/

namespace PipeCheck

open PipeCheck.Expr

namespace Store

variable {property : Tree → Prop} {store last : Store} {failure : MalformedType}

/-- Two types with a property cannot be compared. -/
def Incomparable (store : Store) (property : Tree → Prop) (failure : MalformedType) : Prop :=
  ∃ left right, store.Has property left ∧ store.Has property right ∧
    store.Refuses left right failure

theorem Incomparable.of_follows (incomparable : store.Incomparable property failure)
    (wf : store.WellFormed) (follows : last.Follows store) :
    last.Incomparable property failure := by
  obtain ⟨left, right, leftHas, rightHas, refuses⟩ := incomparable
  exact ⟨left, right, follows.has wf leftHas, follows.has wf rightHas,
    (follows.coincide wf).refuses leftHas.1 rightHas.1 refuses⟩

/-- An application that clashes compares a part of its function with its argument,
or with a part of it. -/
theorem Inherited.incomparable_of_clashes (inherited : Inherited property)
    (wf : store.WellFormed) {call : Call} (fnHas : store.Has property call.function)
    (argHas : store.Has property call.argument) (clashes : call.Clashes store failure) :
    store.Incomparable property failure := by
  have domainHas : ∀ {domain codomain}, store.shape call.function = .function domain codomain →
      store.Has property domain := fun shapeEq =>
    inherited.component wf fnHas (by simp [kind, shapeEq, Shape.kind])
      (by simp [shapeEq, Shape.components])
  cases clashes with
  | direct shapeEq _ refuses => exact ⟨_, _, domainHas shapeEq, argHas, refuses⟩
  | @mapped _ _ element _ shapeEq listEq _ refuses =>
    have elementHas : store.Has property element := inherited.component wf argHas
      (by simp [kind, listEq, Shape.kind]) (by simp [listEq, Shape.components])
    exact ⟨_, _, domainHas shapeEq, elementHas, refuses⟩

end Store

namespace Typing

open Progress Store Call

variable {α β : Type} {property : Tree → Prop} {env : Environment} {state : Progress}
  {action : Typing α} {post : α → Progress → Prop}

/-- A computation continues what was found, and a postcondition holds unless two
types with a property cannot be compared. -/
structure Lasts (property : Tree → Prop) (computation : Typing α) (progress : Progress)
    (post : α → Progress → Prop) : Prop where
  /-- What was found is continued. -/
  keeps : Keeps (Sustains property) computation progress post
  /-- Failures are comparisons that are refused. -/
  fails : ∀ failure, (computation.run.run progress).1 = .error failure →
    (computation.run.run progress).2.store.Incomparable property failure

theorem Total.lasts (total : Total action) (keeps : Keeps (Sustains property) action state post) :
    Lasts property action state post := by
  refine ⟨keeps, ?_⟩
  intro failure failed
  obtain ⟨value, succeeded, _⟩ := total state
  cases failed.symm.trans succeeded

/-- A step fails at the application that it tries. -/
theorem lasts_of_judges (lasting : Lasting property) (upholds : state.Upholds property env)
    {call : Call} (fnHas : state.store.Has property call.function)
    (argHas : state.store.Has property call.argument)
    (keeps : Keeps (Sustains property) action state post)
    (judges : Judges state.store (some call) (action.run.run state).1) :
    Lasts property action state post := by
  refine ⟨keeps, ?_⟩
  intro failure failed
  rw [failed] at judges
  obtain ⟨tried, isCall, clashes⟩ := judges
  cases isCall
  exact (lasting.incomparable_of_clashes upholds.wellFormed fnHas argHas
    clashes).of_follows upholds.wellFormed keeps.1.follows

theorem Lasts.bind {next : α → Typing β} {midPost : α → Progress → Prop}
    {post : β → Progress → Prop} (upholds : state.Upholds property env)
    (lasts : Lasts property action state midPost) (rest : ∀ value mid, mid.Upholds property env →
      mid.Sustains property state → midPost value mid → Lasts property (next value) mid post) :
    Lasts property (action >>= next) state post := by
  refine ⟨upholds.bind lasts.keeps fun value mid midUpholds sustains holds =>
    (rest value mid midUpholds sustains holds).keeps, ?_⟩
  obtain ⟨keeps, fails⟩ := lasts
  unfold Keeps Yields at keeps
  rcases runEq : action.run.run state with ⟨outcome, mid⟩
  rw [runEq] at keeps fails
  obtain ⟨sustains, succeeded⟩ := keeps
  cases outcome with
  | error failure =>
    rw [run_bind_of_error runEq]
    rintro _ ⟨⟩
    exact fails failure rfl
  | ok value =>
    rw [run_bind_of_ok runEq]
    exact (rest value mid (upholds.of_sustains sustains) sustains (succeeded value rfl)).fails

theorem Lasts.mono {post weaker : α → Progress → Prop} (lasts : Lasts property action state post)
    (weaken : ∀ value last, last.Sustains property state → post value last → weaker value last) :
    Lasts property action state weaker :=
  ⟨lasts.keeps.mono weaken, lasts.fails⟩

theorem lasts_store_bind {next : Store → Typing α}
    (lasts : Lasts property (next state.store) state post) :
    Lasts property (store >>= next) state post :=
  ⟨keeps_store_bind lasts.keeps, lasts.fails⟩

theorem lasts_pure (upholds : state.Upholds property env) {value : α} (holds : post value state) :
    Lasts property (pure value) state post :=
  (SameSteps.pure value).total.lasts (keeps_pure upholds.sustains_self holds)

/-- Once the nodes below an expression have types, recording its own type leaves
none without. -/
theorem lasts_recorded (upholds : state.Upholds property env) {action : Typing TypeId}
    (lasts : Lasts property action state fun type last => last.store.Has property type)
    {expr : Expr} {below : List Expr} (covers : state.Covers below)
    (preorderEq : expr.preorder = expr :: below) {site : Site} (siteEq : expr.site = site) :
    Lasts property (do record site.id (← action)) state fun type last =>
      last.store.Has property type ∧ last.Covers expr.preorder := by
  subst siteEq
  refine lasts.bind upholds ?_
  intro type mid midUpholds sustains has
  refine (total_record _ type).lasts ((keeps_record midUpholds _ has).mono ?_)
  rintro recorded last _ ⟨recordedHas, typesEq⟩
  refine ⟨recordedHas, ?_⟩
  rw [preorderEq]
  intro node mem
  rw [typesEq]
  rcases List.mem_cons.1 mem with rfl | isBelow
  · exact ⟨recorded, List.mem_cons_self⟩
  · obtain ⟨belowType, isRecorded⟩ := covers.of_sustains sustains node isBelow
    exact ⟨belowType, List.mem_cons_of_mem _ isRecorded⟩

section Expressions

variable {config : Config}

/-- Typing gives an expression a type with a property and records one for each of
its nodes. -/
def LastsThrough (property : Tree → Prop) (config : Config) (env : Environment)
    (expr : Expr) : Prop :=
  ∀ ⦃progress : Progress⦄, progress.Upholds property env →
    Lasts property (expression config env expr) progress fun type last =>
      last.store.Has property type ∧ last.Covers expr.preorder

theorem lasts_expressions {exprs : List Expr}
    (each : ∀ expr ∈ exprs, LastsThrough property config env expr)
    (upholds : state.Upholds property env) :
    Lasts property (expressions config env exprs) state fun types last =>
      (∀ type ∈ types, last.store.Has property type) ∧ last.Covers (preorderAll exprs) := by
  induction exprs generalizing state with
  | nil =>
    rw [expressions, preorderAll]
    exact lasts_pure upholds ⟨by simp, covers_nil state⟩
  | cons expr rest ih =>
    rw [expressions, preorderAll]
    refine (each expr List.mem_cons_self upholds).bind upholds ?_
    rintro type mid midUpholds _ ⟨typeHas, covers⟩
    refine (ih (List.forall_mem_of_forall_mem_cons each) midUpholds).bind midUpholds ?_
    rintro types last lastUpholds sustains ⟨typesHave, restCovers⟩
    refine lasts_pure lastUpholds ⟨?_, (covers.of_sustains sustains).append restCovers⟩
    rw [List.forall_mem_cons]
    exact ⟨midUpholds.has sustains typeHas, typesHave⟩

section Induction

variable (lasting : Lasting property)

include lasting

theorem lasts_applyArgument (upholds : state.Upholds property env)
    (policy : QuantifierPolicy) (span : Span) (position : Nat) {fn : Option TypeId}
    (fnHas : ∀ id, fn = some id → state.store.Has property id)
    {arg : TypeId} (argHas : state.store.Has property arg) :
    Lasts property (applyArgument policy span position fn arg) state
      fun found last => ∀ id, found = some id → last.store.Has property id := by
  have mayGive := mayGive_applyArgument lasting upholds policy span position fnHas argHas
  cases fn with
  | none => exact (SameSteps.pure none).total.lasts mayGive
  | some fn =>
    exact lasts_of_judges lasting upholds (fnHas fn rfl) argHas mayGive
      (judges_applyArgument upholds.wellFormed policy span position
        (fun id isSome => (fnHas id isSome).1) argHas.1)

theorem lasts_applied {args : List Expr} (each : ∀ arg ∈ args, LastsThrough property config env arg)
    (upholds : state.Upholds property env) (span : Span) (position : Nat) {fn : Option TypeId}
    (fnHas : ∀ id, fn = some id → state.store.Has property id) :
    Lasts property (applied config env span position fn args) state
      fun found last => (∀ id, found = some id → last.store.Has property id) ∧
        last.Covers (preorderAll args) := by
  induction args generalizing state position fn with
  | nil =>
    rw [applied, preorderAll]
    exact lasts_pure upholds ⟨fnHas, covers_nil state⟩
  | cons arg rest ih =>
    rw [applied, preorderAll]
    refine (each arg List.mem_cons_self upholds).bind upholds ?_
    rintro type mid midUpholds sustains ⟨typeHas, covers⟩
    refine (lasts_applyArgument lasting midUpholds config.quantifiers span position
      (fun id isSome => upholds.has sustains (fnHas id isSome)) typeHas).bind midUpholds ?_
    intro next afterNext nextUpholds nextSustains nextHas
    refine (ih (List.forall_mem_of_forall_mem_cons each) nextUpholds _ nextHas).mono ?_
    rintro found last lastSustains ⟨foundHas, restCovers⟩
    exact ⟨foundHas, (covers.of_sustains (lastSustains.trans nextSustains)).append restCovers⟩

/-- The application of a function to its arguments in turn. -/
theorem lastsThrough_apply {site : Site} {fn : Expr} {args : List Expr}
    (fnTyped : LastsThrough property config env fn)
    (each : ∀ arg ∈ args, LastsThrough property config env arg) :
    LastsThrough property config env (.apply site fn args) := by
  intro state upholds
  rw [expression]
  refine (fnTyped upholds).bind upholds ?_
  rintro fnType mid midUpholds _ ⟨fnHas, fnCovers⟩
  have preorderEq : (apply site fn args).preorder =
      .apply site fn args ::
        (preorderAll args ++ fn.preorder) := by
    rw [preorder]
  refine lasts_store_bind ?_
  split
  · refine (lasts_applied lasting each midUpholds site.span 0 (by simp)).bind midUpholds ?_
    rintro _ last lastUpholds sustains ⟨_, covers⟩
    exact lasts_recorded lastUpholds
      (sameSteps_invalid.total.lasts (gives_primitive lasting lastUpholds .invalid))
      (covers.append (fnCovers.of_sustains sustains)) preorderEq rfl
  split
  · next noArgs =>
      rw [List.isEmpty_iff] at noArgs
      subst noArgs
      exact lasts_recorded midUpholds ((sameSteps_applyUnit fnType site.span _).total.lasts
        (gives_applyUnit lasting midUpholds fnHas site.span)) fnCovers preorderEq rfl
  · refine (lasts_applied lasting each midUpholds site.span 0
      (by simpa using fnHas)).bind midUpholds ?_
    rintro found last lastUpholds sustains ⟨foundHas, covers⟩
    have allCovered := covers.append (fnCovers.of_sustains sustains)
    cases found with
    | some result =>
      exact lasts_recorded lastUpholds (lasts_pure lastUpholds (foundHas result rfl)) allCovered
        preorderEq rfl
    | none =>
      exact lasts_recorded lastUpholds
        (sameSteps_invalid.total.lasts (gives_primitive lasting lastUpholds .invalid)) allCovered
        preorderEq rfl

theorem lastsThrough_pipe {site : Site} {arg fn : Expr}
    (argTyped : LastsThrough property config env arg)
    (fnTyped : LastsThrough property config env fn) :
    LastsThrough property config env (.pipe site arg fn) := by
  intro state upholds
  rw [expression]
  refine (argTyped upholds).bind upholds ?_
  rintro argType mid midUpholds _ ⟨argHas, argCovers⟩
  refine (fnTyped midUpholds).bind midUpholds ?_
  rintro fnType last lastUpholds sustains ⟨fnHas, fnCovers⟩
  have stillHas := midUpholds.has sustains argHas
  have gives := gives_pipe lasting lastUpholds config.quantifiers site stillHas fnHas
  have judges := judges_pipe lastUpholds.wellFormed config.quantifiers site fnHas.1 stillHas.1
  exact lasts_recorded lastUpholds (lasts_of_judges lasting lastUpholds fnHas stillHas gives judges)
    ((argCovers.of_sustains sustains).append fnCovers) (by rw [preorder]) rfl

/-- A lasting property lasts through every expression. -/
theorem lastsThrough (expr : Expr) : LastsThrough property config env expr := by
  induction expr with
  | reference site name symbol =>
    intro state upholds
    rw [expression]
    exact lasts_recorded upholds ((sameSteps_reference env name symbol site.span _).total.lasts
      (gives_reference lasting upholds name symbol site.span)) (covers_nil state)
      (by rw [preorder]) rfl
  | literal site value =>
    intro state upholds
    rw [expression]
    exact lasts_recorded upholds ((sameSteps_literal value).total.lasts
      (gives_literal lasting upholds value)) (covers_nil state) (by rw [preorder]) rfl
  | list site items each =>
    intro state upholds
    rw [expression]
    refine (lasts_expressions each upholds).bind upholds ?_
    rintro types mid midUpholds _ ⟨typesHave, covers⟩
    refine lasts_recorded midUpholds ((sameSteps_listLiteral _ site.span _ rfl).total.lasts
      (gives_listLiteral lasting midUpholds _ site.span ?_)) covers (by rw [preorder]) rfl
    intro element mem
    exact typesHave element.1 (List.of_mem_zip mem).1
  | tuple site items each =>
    intro state upholds
    rw [expression]
    refine (lasts_expressions each upholds).bind upholds ?_
    rintro types mid midUpholds _ ⟨typesHave, covers⟩
    exact lasts_recorded midUpholds ((sameSteps_tupleLiteral types).total.lasts
      (gives_tupleLiteral lasting midUpholds typesHave)) covers (by rw [preorder]) rfl
  | apply site fn args fnTyped each =>
    exact lastsThrough_apply lasting fnTyped each
  | pipe site arg fn argTyped fnTyped =>
    exact lastsThrough_pipe lasting argTyped fnTyped
  | binary site op left right leftTyped rightTyped =>
    intro state upholds
    rw [expression]
    refine (leftTyped upholds).bind upholds ?_
    rintro _ mid midUpholds _ ⟨_, leftCovers⟩
    refine (rightTyped midUpholds).bind midUpholds ?_
    rintro _ last lastUpholds sustains ⟨_, rightCovers⟩
    exact lasts_recorded lastUpholds
      ((sameSteps_reject _ _).total.lasts (gives_reject lasting lastUpholds _))
      ((leftCovers.of_sustains sustains).append rightCovers) (by rw [preorder]) rfl
  | definition site symbol init initTyped =>
    intro state upholds
    rw [expression]
    refine (initTyped upholds).bind upholds ?_
    rintro _ mid midUpholds _ ⟨_, covers⟩
    exact lasts_recorded midUpholds
      ((sameSteps_reject _ _).total.lasts (gives_reject lasting midUpholds _)) covers
      (by rw [preorder]) rfl
  | placeholder site =>
    intro state upholds
    rw [expression]
    exact lasts_recorded upholds
      (sameSteps_invalid.total.lasts (gives_primitive lasting upholds .invalid)) (covers_nil state)
      (by rw [preorder]) rfl

end Induction

/-- Typing gives an expression a closed type and records one for each of its
nodes. -/
def TypesNodes (config : Config) (env : Environment) (expr : Expr) : Prop :=
  ∀ ⦃progress : Progress⦄, progress.Valid env →
    Keeps Continues (expression config env expr) progress fun type last =>
      last.store.ClosedType type ∧ last.Covers expr.preorder

theorem typesNodes (expr : Expr) : TypesNodes config env expr :=
  fun _ valid => (lastsThrough closed_lasting expr valid).keeps

end Expressions

end Typing

/-- A whole analysis keeps the earlier types.  Where it fails, two types with a
lasting property cannot be compared. -/
theorem Analysis.run_lasts {property : Tree → Prop} (lasting : Store.Lasting property)
    {env : Environment} {store : Store} (wf : store.WellFormed)
    (declared : ∀ entry ∈ env.types, store.Has property entry.2) (config : Config) (expr : Expr) :
    (run config env store expr).2.Follows store ∧
      ∀ failure, (run config env store expr).1 = .error failure →
        (run config env store expr).2.Incomparable property failure := by
  have upholds : ({ store } : Progress).Upholds property env := ⟨wf, declared, by simp⟩
  have lasts : Typing.LastsThrough property config env expr := Typing.lastsThrough lasting expr
  obtain ⟨keeps, fails⟩ := lasts upholds
  refine ⟨keeps.1.follows, ?_⟩
  intro failure failed
  refine fails failure ?_
  change Except.map _ ((Typing.expression config env expr).run.run { store }).1 = _ at failed
  cases outcomeEq : ((Typing.expression config env expr).run.run { store }).1 with
  | error other =>
    rw [outcomeEq] at failed
    cases failed
    rfl
  | ok root =>
    rw [outcomeEq] at failed
    cases failed

end PipeCheck
