import PipeCheck.Proofs.Properties.Inheritance
import PipeCheck.Proofs.Reading.ClosedTypes

/-!
# Histories of a store

A store starts empty and changes by requests only.  Each request that mentions
stored types leaves a well-formed store behind, also where it fails, so every
history does.  The main statement is `Request.history_wellFormed`.
-/

namespace PipeCheck

open Store

namespace Alloc

open Store

variable {store : Store}

theorem keeps_ofKind (wf : store.WellFormed) (kind : Kind) :
    Keeps Follows (ofKind kind) store fun id last => id < last.size := by
  cases kind with
  | primitive which =>
    refine keeps_lift ((yields_primitive wf which).mono ?_)
    intro id last built
    exact ⟨built.toFollows, built.inside⟩
  | _ => exact keeps_throw wf.follows_self

/-- A chain is built from its result backwards, and a kind that is refused
leaves the rest of the chain in the store. -/
theorem keeps_functionChain (wf : store.WellFormed) (kinds : List Kind) :
    Keeps Follows (functionChain kinds) store fun id last => id < last.size := by
  induction kinds generalizing store with
  | nil => exact keeps_ofKind wf (.primitive .unit)
  | cons kind rest ih =>
    cases rest with
    | nil => exact keeps_ofKind wf kind
    | cons next rest =>
      rw [functionChain]
      · refine (ih wf).bind Follows.trans ?_
        intro codomain mid follows codomainInside
        refine (keeps_ofKind follows.wellFormed kind).bind Follows.trans ?_
        intro domain later laterFollows domainInside
        refine keeps_lift ((yields_function laterFollows.wellFormed domainInside
          (laterFollows.grown.inside codomainInside)).mono ?_)
        rintro id last ⟨built, _⟩
        exact ⟨built.toFollows, built.inside⟩
      · simp

end Alloc

/-- The result of a function is stored; of any other type there is none. -/
theorem Checked.keeps_result (policy : QuantifierPolicy) {store : Store}
    (wf : store.WellFormed) {fnType : TypeId} (inside : fnType < store.size) :
    Keeps Follows (result policy fnType) store fun id last => id < last.size := by
  unfold result
  refine keeps_get_bind ?_
  cases shapeEq : store.shape fnType with
  | function domain codomain =>
    exact keeps_pure wf.follows_self (Nat.lt_trans (wf.codomain_lt shapeEq) inside)
  | quantified binders body =>
    cases bodyEq : store.shape body with
    | function domain codomain =>
      have sublist : (policy.binders store binders codomain).Sublist binders := by
        rw [policy.binders_eq_keeps wf]
        exact policy.keeps_sublist binders _
      simp only [bodyEq]
      refine keeps_lift ((Alloc.yields_quantifiedOver wf
        (Nat.lt_trans (wf.codomain_lt bodyEq) (Nat.lt_trans (wf.body_lt shapeEq) inside))
        (fun id mem => wf.binders_var shapeEq id (sublist.subset mem))
        fun distinct => (distinct shapeEq).sublist sublist).mono ?_)
      intro id last built
      exact ⟨built.toFollows, built.inside⟩
    | _ =>
      simp only [bodyEq]
      exact keeps_throw wf.follows_self
  | _ => exact keeps_throw wf.follows_self

/-- A request to a store of types. -/
inductive Request where
  | ofKind (kind : Kind)
  | function (domain codomain : TypeId)
  | list (element : TypeId)
  | tuple (components : List TypeId)
  | var
  | quantified (binders : List TypeId) (body : TypeId)
  | functionChain (kinds : List Kind)
  | read (text : String)
  | substitute (bindings : Bindings) (id : TypeId)
  | result (policy : QuantifierPolicy) (functionType : TypeId)
  | apply (policy : QuantifierPolicy) (argument functionType : TypeId)
  | pipe (policy : QuantifierPolicy) (argument functionType : TypeId)
  | unify (left right : TypeId)
deriving Repr

namespace Request

/-- The type picked from what a computation returns, if it succeeds. -/
def answered {Failure Value : Type} (pick : Value → Option TypeId)
    (computation : ExceptT Failure Alloc Value) : Alloc (Option TypeId) := do
  match ← computation.run with
  | .ok value => return pick value
  | .error _ => return none

/-- The type that a request returns, unless it fails or finds none. -/
def answer : Request → Alloc (Option TypeId)
  | .ofKind kind => answered some (Alloc.ofKind kind)
  | .function domain codomain => some <$> Alloc.function domain codomain
  | .list element => some <$> Alloc.list element
  | .tuple components => some <$> Alloc.tuple components
  | .var => some <$> Alloc.var
  | .quantified binders body => some <$> Alloc.quantified binders body
  | .functionChain kinds => answered some (Alloc.functionChain kinds)
  | .read text => answered some (Alloc.read text)
  | .substitute bindings type => some <$> Alloc.substitute bindings type
  | .result policy functionType => answered some (Checked.result policy functionType)
  | .apply policy argument functionType => answered id (Checked.apply policy argument functionType)
  | .pipe policy argument functionType =>
    answered (Option.map Piped.result) (Checked.pipe policy argument functionType)
  | .unify left right => Alloc.unify left right

/-- A request mentions stored types only, and it quantifies over variables. -/
def Permitted (store : Store) : Request → Prop
  | .ofKind _ | .var | .functionChain _ | .read _ => True
  | .function domain codomain => domain < store.size ∧ codomain < store.size
  | .list element => element < store.size
  | .tuple components => ∀ component ∈ components, component < store.size
  | .quantified binders body =>
    (∀ binder ∈ binders, store.kind binder = .var) ∧ body < store.size
  | .substitute bindings id =>
    (∀ binding ∈ bindings, binding.2 < store.size) ∧ id < store.size
  | .result _ functionType => functionType < store.size
  | .apply _ argument functionType | .pipe _ argument functionType =>
    argument < store.size ∧ functionType < store.size
  | .unify left right => left < store.size ∧ right < store.size

instance (store : Store) : (request : Request) → Decidable (request.Permitted store)
  | .ofKind _ | .var | .functionChain _ | .read _ => inferInstanceAs (Decidable True)
  | .function domain codomain =>
    inferInstanceAs (Decidable (domain < store.size ∧ codomain < store.size))
  | .list element => inferInstanceAs (Decidable (element < store.size))
  | .tuple components => inferInstanceAs (Decidable (∀ component ∈ components, component < _))
  | .quantified binders body =>
    inferInstanceAs (Decidable ((∀ binder ∈ binders, store.kind binder = .var) ∧ body < _))
  | .substitute bindings id =>
    inferInstanceAs (Decidable ((∀ binding ∈ bindings, binding.2 < store.size) ∧ id < _))
  | .result _ functionType => inferInstanceAs (Decidable (functionType < store.size))
  | .apply _ argument functionType | .pipe _ argument functionType =>
    inferInstanceAs (Decidable (argument < store.size ∧ functionType < store.size))
  | .unify left right => inferInstanceAs (Decidable (left < store.size ∧ right < store.size))

/-- A computation leaves a well-formed store with all earlier types, and what it
returns is stored. -/
def Answers (computation : Alloc (Option TypeId)) (store : Store) : Prop :=
  Yields computation store fun answer last =>
    last.Extends store ∧ last.WellFormed ∧ ∀ id, answer = some id → id < last.size

variable {store : Store}

theorem answers_some {action : Alloc TypeId} (yields : Yields action store fun id last =>
      last.Extends store ∧ last.WellFormed ∧ id < last.size) :
    Answers (some <$> action) store := by
  unfold Answers
  rw [yields_map]
  refine yields.mono ?_
  rintro id last ⟨grown, wf, inside⟩
  refine ⟨grown, wf, ?_⟩
  intro other same
  exact Option.some.inj same ▸ inside

theorem answers_answered {Failure Value : Type} {action : ExceptT Failure Alloc Value}
    {pick : Value → Option TypeId} (keeps : Keeps Follows action store fun value last =>
      ∀ id, pick value = some id → id < last.size) :
    Answers (answered pick action) store := by
  unfold Answers answered
  rw [yields_bind]
  refine Yields.mono keeps ?_
  rintro outcome last ⟨follows, succeeded⟩
  cases outcome with
  | error failure => exact ⟨follows.grown, follows.wellFormed, by simp⟩
  | ok value => exact ⟨follows.grown, follows.wellFormed, succeeded value rfl⟩

/-- A store stays well-formed when a quantifier lists a variable twice. -/
theorem answers_quantified (wf : store.WellFormed) {binders : List TypeId} {body : TypeId}
    (vars : ∀ binder ∈ binders, store.kind binder = .var) (bodyInside : body < store.size) :
    Answers (some <$> Alloc.quantified binders body) store := by
  have fits : store.Fits (.quantified binders body) :=
    fits_quantified bodyInside fun binder listed =>
      exists_shape_eq_var (vars binder listed)
  have appends : (store.extend (.quantified binders body)).Appends store _ :=
    store.extend_appends (by simp) (by simp)
  exact answers_some ⟨appends.grown, appends.wellFormed wf fits, appends.last_inside⟩

/-- One request keeps the store well-formed. -/
theorem answers_answer (wf : store.WellFormed) {request : Request}
    (permitted : request.Permitted store) :
    Answers request.answer store := by
  have stored : ∀ {id}, id < store.size → store.Has (fun _ => True) id :=
    fun inside => ⟨inside, trivial⟩
  cases request with
  | ofKind kind =>
    refine answers_answered ((Alloc.keeps_ofKind wf kind).mono ?_)
    intro id last _ inside other same
    exact Option.some.inj same ▸ inside
  | function domain codomain =>
    refine answers_some ((Alloc.yields_function wf permitted.1 permitted.2).mono ?_)
    rintro id last ⟨built, _⟩
    exact ⟨built.grown, built.wellFormed, built.inside⟩
  | list element =>
    refine answers_some ((Alloc.yields_list wf permitted).mono ?_)
    rintro id last ⟨built, _⟩
    exact ⟨built.grown, built.wellFormed, built.inside⟩
  | tuple parts =>
    refine answers_some ((Alloc.yields_tuple wf permitted).mono ?_)
    rintro id last ⟨built, _⟩
    exact ⟨built.grown, built.wellFormed, built.inside⟩
  | var =>
    refine answers_some ((Alloc.yields_var wf).mono ?_)
    rintro id last ⟨follows, isVar, _⟩
    exact ⟨follows.grown, follows.wellFormed, lt_size_of_shape isVar (by simp)⟩
  | quantified binders body => exact answers_quantified wf permitted.1 permitted.2
  | functionChain kinds =>
    refine answers_answered ((Alloc.keeps_functionChain wf kinds).mono ?_)
    intro id last _ inside other same
    exact Option.some.inj same ▸ inside
  | read text =>
    refine answers_answered ((Alloc.yields_read wf text).mono ?_)
    rintro outcome last ⟨follows, closed⟩
    refine ⟨follows, ?_⟩
    intro id read other same
    exact Option.some.inj same ▸ (closed id read).1
  | substitute bindings type =>
    have bindingsInside : bindings.Inside store := fun _ _ found =>
      permitted.1 _ (Bindings.mem_of_find? found)
    refine answers_some ((Alloc.yields_substitute wf bindingsInside permitted.2).mono ?_)
    intro id last substituted
    exact ⟨substituted.grown, substituted.wellFormed, substituted.inside⟩
  | result policy fnType =>
    refine answers_answered ((Checked.keeps_result policy wf permitted).mono ?_)
    intro id last _ inside other same
    exact Option.some.inj same ▸ inside
  | apply policy arg fnType =>
    refine answers_answered ((trivial_inherited.returns_apply policy wf
      (stored permitted.2) (stored permitted.1)).mono ?_)
    intro returned last _ has id picked
    exact (has id picked).1
  | pipe policy arg fnType =>
    refine answers_answered ((trivial_inherited.keeps_pipe policy wf
      (stored permitted.2) (stored permitted.1)).mono ?_)
    intro returned last _ has id picked
    obtain ⟨piped, returnedEq, rfl⟩ := Option.map_eq_some_iff.1 picked
    exact (has piped returnedEq).1
  | unify left right =>
    refine (trivial_inherited.yields_unify wf (stored permitted.1) (stored permitted.2)).mono ?_
    rintro returned last ⟨follows, has⟩
    exact ⟨follows.grown, follows.wellFormed, fun id same => (has id same).1⟩

/-- Each request of a history mentions only types that are stored by then. -/
def PermittedAll : List Request → Store → Prop
  | [], _ => True
  | request :: rest, store =>
    request.Permitted store ∧ PermittedAll rest (request.answer.run store).2

instance decidablePermittedAll :
    (requests : List Request) → (store : Store) → Decidable (PermittedAll requests store)
  | [], _ => inferInstanceAs (Decidable True)
  | request :: rest, store =>
    have := decidablePermittedAll rest (request.answer.run store).2
    inferInstanceAs (Decidable (request.Permitted store ∧ PermittedAll rest _))

theorem yields_history (wf : store.WellFormed) {requests : List Request}
    (permitted : PermittedAll requests store) :
    Yields (requests.mapM answer) store fun answers last =>
      last.Extends store ∧ last.WellFormed ∧ ∀ id, some id ∈ answers → id < last.size := by
  induction requests generalizing store with
  | nil =>
    rw [List.mapM_nil, yields_pure]
    exact ⟨.refl store, wf, by simp⟩
  | cons request rest ih =>
    obtain ⟨grown, midWf, answerInside⟩ := answers_answer wf permitted.1
    rw [List.mapM_cons, yields_bind, Yields, yields_bind]
    refine (ih midWf permitted.2).mono ?_
    rintro answers last ⟨lastGrown, lastWf, answersInside⟩
    rw [yields_pure]
    refine ⟨lastGrown.trans grown, lastWf, ?_⟩
    intro id mem
    rcases List.mem_cons.1 mem with isFirst | isLater
    · exact lastGrown.inside (answerInside id isFirst.symm)
    · exact answersInside id isLater

/-- Every history of an empty store leaves a well-formed store, in which all types
are stored that were returned on the way. -/
theorem history_wellFormed {requests : List Request} (permitted : PermittedAll requests .empty) :
    Yields (requests.mapM answer) .empty fun answers last =>
      last.WellFormed ∧ ∀ id, some id ∈ answers → id < last.size :=
  (yields_history wellFormed_empty permitted).2

/-- A reading that fails half-way, a quantifier that lists a variable twice, and
requests that work on what these two leave behind. -/
def mixedHistory : List Request :=
  [.read "forall 'a. 'a -> ['b]", .read "Int -> (Str", .var, .function 8 8, .quantified [8, 8] 9,
    .list 10, .pipe .prune 11 5, .apply .keepAll 8 10, .unify 5 10, .substitute [(8, 6)] 9,
    .result .prune 10, .functionChain [.primitive .int, .primitive .bool, .primitive .int]]

theorem mixedHistory_wellFormed :
    PermittedAll mixedHistory .empty ∧
      Yields (mixedHistory.mapM answer) .empty fun answers last =>
        last.WellFormed ∧ ∀ id, some id ∈ answers → id < last.size :=
  ⟨by decide +kernel, history_wellFormed (by decide +kernel)⟩

end Request
end PipeCheck
