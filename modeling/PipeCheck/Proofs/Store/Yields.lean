import PipeCheck.Types.Store

/-!
# What a computation yields

A computation is described by what holds of its value and of the state that it
ends in.  The rules below take a computation apart at its first step, so that
the description of a composed computation comes from those of its parts.
-/

namespace PipeCheck

variable {State Value Next Failure : Type}

/-- A postcondition holds of the value and of the last state of a
computation. -/
def Yields (computation : StateM State Value) (start : State)
    (post : Value → State → Prop) : Prop :=
  post (computation.run start).1 (computation.run start).2

/-- A weaker postcondition holds too. -/
theorem Yields.mono {action : StateM State Value} {start : State}
    {post weaker : Value → State → Prop} (yields : Yields action start post)
    (weaken : ∀ value last, post value last → weaker value last) :
    Yields action start weaker :=
  weaken _ _ yields

/-- The postcondition speaks of the run. -/
theorem Yields.of_run_eq {action : StateM State Value} {start last : State} {value : Value}
    {post : Value → State → Prop} (yields : Yields action start post)
    (runEq : action.run start = (value, last)) :
    post value last := by
  unfold Yields at yields
  rwa [runEq] at yields

theorem yields_pure (value : Value) (start : State) (post : Value → State → Prop) :
    Yields (pure value) start post ↔ post value start := Iff.rfl

/-- A sequence yields what its second part does after the first. -/
theorem yields_bind (action : StateM State Value) (next : Value → StateM State Next)
    (start : State) (post : Next → State → Prop) :
    Yields (action >>= next) start post ↔
      Yields action start fun value mid =>
        Yields (next value) mid post := Iff.rfl

theorem yields_map
    (fn : Value → Next) (action : StateM State Value) (start : State) (post : Next → State → Prop) :
    Yields (fn <$> action) start post ↔
      Yields action start fun value last =>
        post (fn value) last := Iff.rfl

theorem yields_get (start : State) (post : State → State → Prop) :
    Yields get start post ↔ post start start := Iff.rfl

theorem yields_modifyGet
    (change : State → Value × State) (start : State) (post : Value → State → Prop) :
    Yields (modifyGet change) start post ↔ post (change start).1 (change start).2 := Iff.rfl

/-- Computations that may fail, with a state that a failure leaves as it is. -/
abbrev Fallible (Failure State : Type) := ExceptT Failure (StateM State)

/-- A computation that may fail goes on with its next part or stops at its
failure. -/
theorem yields_bind_run (action : Fallible Failure State Value)
    (next : Value → Fallible Failure State Next) (start : State)
    (post : Except Failure Next → State → Prop) :
    Yields (action >>= next).run start post ↔
      Yields action.run start fun outcome mid =>
        match outcome with
        | .ok value => Yields (next value).run mid post
        | .error failure => post (.error failure) mid := by
  have unfolded : (action >>= next).run = (action.run >>= ExceptT.bindCont next) := rfl
  rw [unfolded, yields_bind]
  constructor
  all_goals
    intro yields
    refine yields.mono ?_
    rintro (failure | value) mid rest <;> exact rest

theorem yields_pure_run
    (value : Value) (start : State) (post : Except Failure Value → State → Prop) :
    Yields (pure value : Fallible Failure State Value).run start post ↔
      post (.ok value) start := Iff.rfl

theorem yields_lift_run
    (action : StateM State Value) (start : State) (post : Except Failure Value → State → Prop) :
    Yields (liftM action : Fallible Failure State Value).run start post ↔
      Yields action start fun value last => post (.ok value) last := Iff.rfl

theorem yields_get_run (start : State) (post : Except Failure State → State → Prop) :
    Yields (get : Fallible Failure State State).run start post ↔ post (.ok start) start := Iff.rfl

theorem yields_modifyGet_run
    (change : State → Value × State) (start : State) (post : Except Failure Value → State → Prop) :
    Yields (modifyGet change : Fallible Failure State Value).run start post ↔
      post (.ok (change start).1) (change start).2 := Iff.rfl

theorem run_get_bind (next : State → Fallible Failure State Next) (start : State) :
    (get >>= next).run.run start = (next start).run.run start := rfl

/-- After a success the next part runs. -/
theorem run_bind_of_ok {action : Fallible Failure State Value} {start mid : State} {value : Value}
    (runEq : action.run.run start = (.ok value, mid)) (next : Value → Fallible Failure State Next) :
    (action >>= next).run.run start = (next value).run.run mid := by
  change (ExceptT.bindCont next (action.run.run start).1).run (action.run.run start).2 = _
  rw [runEq]
  rfl

/-- A failure ends a sequence. -/
theorem run_bind_of_error {action : Fallible Failure State Value} {start mid : State}
    {failure : Failure} (runEq : action.run.run start = (.error failure, mid))
    (next : Value → Fallible Failure State Next) :
    (action >>= next).run.run start = (.error failure, mid) := by
  change (ExceptT.bindCont next (action.run.run start).1).run (action.run.run start).2 = _
  rw [runEq]
  rfl

theorem yields_map_run (fn : Value → Next) (action : Fallible Failure State Value)
    (start : State) (post : Except Failure Next → State → Prop) :
    Yields (fn <$> action).run start post ↔
      Yields action.run start fun outcome last =>
        post (outcome.map fn) last := by
  have unfolded : (fn <$> action).run = action.run >>= fun outcome => pure (outcome.map fn) := by
    rw [ExceptT.run_map]
    rfl
  rw [unfolded]
  exact Iff.rfl

variable {action : Fallible Failure State Value} {start : State}
  {post weaker : Value → State → Prop} {lastPost : Next → State → Prop}
  {relation : State → State → Prop}

section Keeping

/-- A computation ends in a state related to its first one, whether it fails or
not, and a postcondition holds if it succeeds. -/
def Keeps (relation : State → State → Prop)
    (computation : Fallible Failure State Value) (start : State)
    (post : Value → State → Prop) : Prop :=
  Yields computation.run start fun outcome last =>
    relation last start ∧ ∀ value, outcome = .ok value → post value last

theorem Keeps.mono (keeps : Keeps relation action start post)
    (weaken : ∀ value last, relation last start → post value last → weaker value last) :
    Keeps relation action start weaker := by
  refine Yields.mono keeps ?_
  rintro outcome last ⟨related, succeeded⟩
  exact ⟨related, fun value ok => weaken value last related (succeeded value ok)⟩

/-- A sequence keeps a transitive relation that its parts keep. -/
theorem Keeps.bind {next : Value → Fallible Failure State Next}
    (trans : ∀ {first mid last}, relation last mid → relation mid first → relation last first)
    (keeps : Keeps relation action start post)
    (rest : ∀ value mid, relation mid start → post value mid →
      Keeps relation (next value) mid lastPost) :
    Keeps relation (action >>= next) start lastPost := by
  unfold Keeps
  rw [yields_bind_run]
  refine Yields.mono keeps ?_
  rintro outcome mid ⟨related, succeeded⟩
  cases outcome with
  | error failure => exact ⟨related, by simp⟩
  | ok value =>
    refine Yields.mono (rest value mid related (succeeded value rfl)) ?_
    rintro lastOutcome last ⟨lastRelated, lastSucceeded⟩
    exact ⟨trans lastRelated related, lastSucceeded⟩

theorem keeps_pure {value : Value} (related : relation start start) (holds : post value start) :
    Keeps relation (pure value : Fallible Failure State Value) start post := by
  refine ⟨related, ?_⟩
  rintro _ ⟨⟩
  exact holds

/-- A failure keeps a relation that holds of a state and itself. -/
theorem keeps_throw {failure : Failure} (related : relation start start) :
    Keeps relation (throw failure : Fallible Failure State Value) start post := by
  refine ⟨related, ?_⟩
  rintro _ ⟨⟩

theorem keeps_get_bind {next : State → Fallible Failure State Next}
    (keeps : Keeps relation (next start) start lastPost) :
    Keeps relation (get >>= next) start lastPost :=
  keeps

/-- A part that cannot fail. -/
theorem keeps_lift {create : StateM State Value}
    (yields : Yields create start fun value last => relation last start ∧ post value last) :
    Keeps relation (monadLift create : Fallible Failure State Value) start post := by
  refine ⟨yields.1, ?_⟩
  rintro _ ⟨⟩
  exact yields.2

theorem keeps_except {outcome : Except Failure Value}
    (related : relation start start) (holds : ∀ value, outcome = .ok value → post value start) :
    Keeps relation (monadLift outcome : Fallible Failure State Value) start post :=
  ⟨related, holds⟩

theorem Keeps.map {fn : Value → Next}
    (keeps : Keeps relation action start fun value last => lastPost (fn value) last) :
    Keeps relation (fn <$> action) start lastPost := by
  unfold Keeps
  rw [yields_map_run]
  refine Yields.mono keeps ?_
  rintro outcome last ⟨related, succeeded⟩
  refine ⟨related, ?_⟩
  cases outcome with
  | error failure => rintro _ ⟨⟩
  | ok value =>
    rintro _ ⟨⟩
    exact succeeded value rfl

end Keeping

section Success

/-- A computation succeeds, and a postcondition holds of its value and of the
last state. -/
def Succeeds (computation : Fallible Failure State Value) (start : State)
    (post : Value → State → Prop) : Prop :=
  Yields computation.run start fun outcome last =>
    ∃ value, outcome = .ok value ∧ post value last

theorem Succeeds.mono (succeeds : Succeeds action start post)
    (weaken : ∀ value last, post value last → weaker value last) :
    Succeeds action start weaker := by
  obtain ⟨value, ok, holds⟩ := succeeds
  exact ⟨value, ok, weaken value _ holds⟩

/-- The run of a computation that succeeds. -/
theorem Succeeds.exists_run_eq (succeeds : Succeeds action start post) :
    ∃ value last, action.run.run start = (.ok value, last) ∧ post value last := by
  obtain ⟨value, ok, holds⟩ := succeeds
  exact ⟨value, _, Prod.ext ok rfl, holds⟩

/-- What a success tells of both states is kept. -/
theorem Succeeds.keeps {relation : State → State → Prop}
    (succeeds : Succeeds action start fun value last => relation last start ∧ post value last) :
    Keeps relation action start post := by
  obtain ⟨value, ok, related, holds⟩ := succeeds
  exact ⟨related, fun _ same => Except.ok.inj (ok.symm.trans same) ▸ holds⟩

/-- A sequence succeeds if its parts do. -/
theorem Succeeds.bind {next : Value → Fallible Failure State Next}
    (succeeds : Succeeds action start post)
    (rest : ∀ value mid, post value mid → Succeeds (next value) mid lastPost) :
    Succeeds (action >>= next) start lastPost := by
  unfold Succeeds
  rw [yields_bind_run]
  obtain ⟨value, ok, holds⟩ := succeeds
  unfold Yields
  rw [ok]
  exact rest value _ holds

theorem succeeds_pure {value : Value} (holds : post value start) :
    Succeeds (pure value : Fallible Failure State Value) start post :=
  ⟨value, rfl, holds⟩

theorem succeeds_modifyGet {change : State → Value × State}
    (holds : post (change start).1 (change start).2) :
    Succeeds (modifyGet change : Fallible Failure State Value) start post :=
  ⟨(change start).1, rfl, holds⟩

theorem succeeds_get_bind {next : State → Fallible Failure State Next}
    (succeeds : Succeeds (next start) start lastPost) :
    Succeeds (get >>= next) start lastPost :=
  succeeds

theorem succeeds_lift {create : StateM State Value} (yields : Yields create start post) :
    Succeeds (monadLift create : Fallible Failure State Value) start post :=
  ⟨(create.run start).1, rfl, yields⟩

/-- A run shows the success. -/
theorem succeeds_of_run_eq {value : Value} {last : State}
    (runEq : action.run.run start = (.ok value, last)) (holds : post value last) :
    Succeeds action start post := by
  unfold Succeeds Yields
  rw [runEq]
  exact ⟨value, rfl, holds⟩

end Success

section Ensuring

/-- If a computation succeeds, a postcondition holds of its value and of the last
state. -/
def Ensures (computation : Fallible Failure State Value) (start : State)
    (post : Value → State → Prop) : Prop :=
  ∀ value last, computation.run.run start = (.ok value, last) → post value last

section

variable (ensures : Ensures action start post)

include ensures

theorem Ensures.mono (weaken : ∀ value last, post value last → weaker value last) :
    Ensures action start weaker :=
  fun value last runEq => weaken value last (ensures value last runEq)

/-- Two postconditions hold together. -/
theorem Ensures.and {other : Value → State → Prop} (otherEnsures : Ensures action start other) :
    Ensures action start fun value last => post value last ∧ other value last :=
  fun value last runEq => ⟨ensures value last runEq, otherEnsures value last runEq⟩

/-- The postcondition may speak of the run itself. -/
theorem Ensures.and_run_eq :
    Ensures action start fun value last =>
      action.run.run start = (.ok value, last) ∧ post value last :=
  fun value last runEq => ⟨runEq, ensures value last runEq⟩

/-- The next part may count on what the first one ensures. -/
theorem Ensures.bind {next : Value → Fallible Failure State Next}
    (rest : ∀ value mid, post value mid → Ensures (next value) mid lastPost) :
    Ensures (action >>= next) start lastPost := by
  intro value last runEq
  rcases firstEq : action.run.run start with ⟨outcome, mid⟩
  cases outcome with
  | error failure =>
    rw [run_bind_of_error firstEq] at runEq
    cases runEq
  | ok first =>
    rw [run_bind_of_ok firstEq] at runEq
    exact rest first mid (ensures first mid firstEq) value last runEq

end

theorem ensures_pure {value : Value} (holds : post value start) :
    Ensures (pure value : Fallible Failure State Value) start post := by
  intro returned last runEq
  cases runEq
  exact holds

/-- A failure ensures anything. -/
theorem ensures_throw {failure : Failure} :
    Ensures (throw failure : Fallible Failure State Value) start post := by
  intro value last runEq
  cases runEq

theorem ensures_get_bind {next : State → Fallible Failure State Next}
    (ensures : Ensures (next start) start lastPost) :
    Ensures (get >>= next) start lastPost :=
  ensures

theorem ensures_except {outcome : Except Failure Value}
    (holds : ∀ value, outcome = .ok value → post value start) :
    Ensures (monadLift outcome : Fallible Failure State Value) start post := by
  intro value last runEq
  cases runEq
  exact holds value rfl

/-- A success with a postcondition ensures it. -/
theorem Succeeds.ensures (succeeds : Succeeds action start post) :
    Ensures action start post := by
  intro value last runEq
  obtain ⟨found, outcomeEq, holds⟩ := succeeds
  rw [runEq] at outcomeEq holds
  cases outcomeEq
  exact holds

/-- After a success both the relation and the postcondition hold. -/
theorem Keeps.ensures (keeps : Keeps relation action start post) :
    Ensures action start fun value last => relation last start ∧ post value last := by
  intro value last runEq
  unfold Keeps Yields at keeps
  rw [runEq] at keeps
  exact ⟨keeps.1, keeps.2 value rfl⟩

end Ensuring

section Decisions

variable {ε α : Type}

/-- Whether a run ends with a value of some kind is found by running it. -/
instance decidableOk (outcome : Except ε α) (holds : α → Prop) [DecidablePred holds] :
    Decidable (∃ value, outcome = .ok value ∧ holds value) :=
  match outcome with
  | .ok value => decidable_of_iff (holds value) (by simp)
  | .error _ => isFalse (by simp)

instance decidableError [DecidableEq ε] (outcome : Except ε α) (failure : ε) :
    Decidable (outcome = .error failure) :=
  match outcome with
  | .ok _ => isFalse nofun
  | .error found => decidable_of_iff (found = failure) (by simp)

end Decisions

end PipeCheck
