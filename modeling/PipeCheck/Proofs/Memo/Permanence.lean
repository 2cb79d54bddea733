import PipeCheck.Proofs.Properties.Lasting
import PipeCheck.Proofs.Store.Histories
import PipeCheck.Proofs.Store.Twins
import PipeCheck.Types.Memo

/-!
# Types never change

A store only grows at its end, whatever is asked of it and even if the answer is a
failure.  So nothing changes about a type once it is stored, and a text that was kept
for it, before an operation or in the middle of one, is the one that would be rendered
now.  The main statement is `RenderedStore.history_unchanged`.
-/

namespace PipeCheck

open List

namespace Store

variable {store other later : Store} {bound : Nat} {id : TypeId}

theorem Coincide.freeVars_eq (coincide : store.Coincide other bound) (before : id < bound) :
    other.freeVars id = store.freeVars id := by
  rw [coincide.otherWellFormed.freeVars_eq, coincide.wellFormed.freeVars_eq,
    coincide.tree_eq before]

/-- A later store has new types at its end only, and nothing about the earlier types
has changed: not what they are made of, nor how they are rendered, which variables
are free in them, and how they compare. -/
structure Unchanged (store later : Store) : Prop where
  /-- The earlier types come first, in their order. -/
  appended : store.shapes.toList <+: later.shapes.toList
  /-- A type is built from the same types. -/
  shape_eq : ∀ id < store.size, later.shape id = store.shape id
  /-- A type has the same structure. -/
  tree_eq : ∀ id < store.size, later.tree id = store.tree id
  /-- A type is rendered in the same way. -/
  render_eq : ∀ id < store.size, later.render id = store.render id
  /-- The same variables are free. -/
  freeVars_eq : ∀ id < store.size, later.freeVars id = store.freeVars id
  /-- Two types compare in the same way, also if the comparison is refused. -/
  equal_eq : ∀ left < store.size, ∀ right < store.size,
    later.equal left right = store.equal left right

theorem Extends.isPrefix (grown : later.Extends store) :
    store.shapes.toList <+: later.shapes.toList := by
  rw [prefix_iff_getElem?]
  intro place inside
  have laterInside : place < later.shapes.size := Nat.lt_of_lt_of_le inside grown.size_le
  rw [Array.length_toList] at inside
  simpa [shape, inside, laterInside] using grown.shape_eq inside

theorem Extends.coincide (grown : later.Extends store) (wf : store.WellFormed)
    (laterWf : later.WellFormed) :
    store.Coincide later store.size :=
  ⟨wf, laterWf, grown.shape_eq⟩

theorem Extends.unchanged (grown : later.Extends store) (wf : store.WellFormed)
    (laterWf : later.WellFormed) :
    store.Unchanged later := by
  have coincide := grown.coincide wf laterWf
  exact {
    appended := grown.isPrefix
    shape_eq := fun _ inside => grown.shape_eq inside
    tree_eq := fun _ inside => coincide.tree_eq inside
    render_eq := fun _ inside => coincide.render_eq inside
    freeVars_eq := fun _ inside => coincide.freeVars_eq inside
    equal_eq := fun _ leftInside _ rightInside =>
      ((grown.alike wf laterWf).equal_eq ⟨rfl, leftInside⟩ ⟨rfl, rightInside⟩).symm }

/-- The store as it was when it had a given number of types. -/
def upTo (store : Store) (count : Nat) : Store where
  shapes := store.shapes.take count
  slots which := (store.slots which).filter (· < count)
  nextVar := store.nextVar

section Earlier

variable {count : Nat}

theorem size_upTo (within : count ≤ store.size) : (store.upTo count).size = count := by
  simpa [upTo, size] using within

theorem shape_upTo (within : count ≤ store.size) (before : id < count) :
    (store.upTo count).shape id = store.shape id := by
  have inside : id < store.shapes.size := Nat.lt_of_lt_of_le before within
  simp [upTo, shape, before, inside]

theorem extends_upTo (within : count ≤ store.size) : store.Extends (store.upTo count) := by
  refine ⟨?_, ?_⟩ <;> rw [size_upTo within]
  · exact within
  · exact fun before => (shape_upTo within before).symm

theorem Extends.upTo (grown : later.Extends store) (between : store.size ≤ count)
    (within : count ≤ later.size) :
    (later.upTo count).Extends store := by
  refine ⟨by rwa [size_upTo within], fun inside => ?_⟩
  rw [shape_upTo within (Nat.lt_of_lt_of_le inside between), grown.shape_eq inside]

theorem shape_of_shape_upTo (within : count ≤ store.size) {shape : Shape}
    (shapeEq : (store.upTo count).shape id = shape) (other : shape ≠ .primitive .invalid) :
    id < count ∧ store.shape id = shape := by
  have before := lt_size_of_shape shapeEq other
  rw [size_upTo within] at before
  exact ⟨before, (shape_upTo within before).symm.trans shapeEq⟩

theorem WellFormed.upTo (wf : store.WellFormed) (within : count ≤ store.size) :
    (store.upTo count).WellFormed where
  references_lt id reference mem := by
    by_cases before : id < (store.upTo count).size
    · exact wf.references_lt id reference ((extends_upTo within).shape_eq before ▸ mem)
    · rw [shape_of_size_le (Nat.le_of_not_lt before)] at mem
      cases mem
  binders_var := by
    intro id binders body shapeEq binder mem
    obtain ⟨before, storedEq⟩ := shape_of_shape_upTo within shapeEq (by simp)
    obtain ⟨number, varEq⟩ := wf.binders_var storedEq binder mem
    have binderBefore := wf.references_lt id binder (by simp [storedEq, Shape.references, mem])
    exact ⟨number, (shape_upTo within (Nat.lt_trans binderBefore before)).trans varEq⟩
  slots_iff which id := by
    rw [size_upTo within, Store.upTo, Option.filter_eq_some_iff, wf.slots_iff, decide_eq_true_iff]
    constructor
    · rintro ⟨⟨_, shapeEq⟩, before⟩
      exact ⟨before, (shape_upTo within before).trans shapeEq⟩
    · rintro ⟨before, shapeEq⟩
      exact ⟨⟨Nat.lt_of_lt_of_le before within, (shape_upTo within before).symm.trans shapeEq⟩,
        before⟩
  var_injective firstEq secondEq :=
    wf.var_injective (shape_of_shape_upTo within firstEq (by simp)).2
      (shape_of_shape_upTo within secondEq (by simp)).2
  number_lt shapeEq := wf.number_lt (shape_of_shape_upTo within shapeEq (by simp)).2

end Earlier

end Store

/-- Something that may create types: a request to the store, or the analysis of an
expression. -/
inductive Operation where
  | ask (request : Request)
  | analyse (config : Config) (env : Environment) (expr : Expr)

namespace Operation

/-- The type that an operation returns, unless it fails or finds none. -/
def perform : Operation → Alloc (Option TypeId)
  | .ask request => request.answer
  | .analyse config env expr =>
    modifyGet fun store =>
      let (outcome, last) := Analysis.run config env store expr
      (outcome.toOption.map Analysis.root, last)

/-- An operation mentions stored types only. -/
def Permitted (store : Store) : Operation → Prop
  | .ask request => request.Permitted store
  | .analyse _ env _ => ∀ entry ∈ env.types, entry.2 < store.size

instance (store : Store) : (operation : Operation) → Decidable (operation.Permitted store)
  | .ask request => inferInstanceAs (Decidable (request.Permitted store))
  | .analyse _ env _ =>
    inferInstanceAs (Decidable (∀ entry ∈ env.types, entry.2 < store.size))

/-- One operation only adds types. -/
theorem grows_perform {store : Store} (wf : store.WellFormed) {operation : Operation}
    (permitted : operation.Permitted store) :
    Yields operation.perform store fun _ last => last.Extends store ∧ last.WellFormed := by
  cases operation with
  | ask request =>
    refine (Request.answers_answer wf permitted).mono ?_
    rintro _ last ⟨grown, lastWf, _⟩
    exact ⟨grown, lastWf⟩
  | analyse config env expr =>
    have declared : ∀ entry ∈ env.types, store.Has (fun _ => True) entry.2 :=
      fun entry mem => ⟨permitted entry mem, trivial⟩
    have follows := (Analysis.run_lasts Store.trivial_lasting wf declared config expr).1
    exact ⟨follows.grown, follows.wellFormed⟩

end Operation

namespace RenderedStore

/-- Every text that is kept is the one that would be rendered now. -/
def Accurate (rendered : RenderedStore) : Prop :=
  ∀ entry ∈ rendered.texts, entry.1 < rendered.store.size ∧ entry.2 = rendered.store.render entry.1

/-- A type is rendered in the middle of an operation. -/
structure Moment where
  /-- How many types the store has by then. -/
  count : Nat
  /-- The type that is rendered. -/
  id : TypeId

namespace Moment

/-- On the way to its last state, of which it is a beginning by then, the store has grown,
and a type is rendered. -/
def perform (last : Store) (moment : Moment) : StateM RenderedStore String :=
  modifyGet fun rendered =>
    (text moment.id).run { rendered with store := last.upTo moment.count }

/-- Moments on the way from a store to a later one, in their order.  Each type is there
when it is rendered. -/
def Between (last : Store) : Store → List Moment → Prop
  | _, [] => True
  | store, moment :: rest =>
    (store.size ≤ moment.count ∧ moment.count ≤ last.size ∧ moment.id < moment.count) ∧
      Between last (last.upTo moment.count) rest

instance decidableBetween (last : Store) : (store : Store) → (moments : List Moment) →
    Decidable (Between last store moments)
  | _, [] => inferInstanceAs (Decidable True)
  | _, moment :: rest =>
    have := decidableBetween last (last.upTo moment.count) rest
    inferInstanceAs (Decidable (_ ∧ Between last _ rest))

/-- A text is the one that is rendered from the moment on, in every store on the way to the
last one. -/
def Answered (last : Store) (moment : Moment) (text : String) : Prop :=
  moment.count ≤ last.size ∧ moment.id < moment.count ∧
    ∀ mid : Store, mid.WellFormed → last.Extends mid → moment.count ≤ mid.size →
      text = mid.render moment.id

theorem answered_of_render_eq {last : Store} (lastWf : last.WellFormed) {moment : Moment}
    {text : String} (within : moment.count ≤ last.size) (before : moment.id < moment.count)
    (textEq : text = last.render moment.id) : moment.Answered last text := by
  refine ⟨within, before, fun mid midWf grown there => ?_⟩
  rw [textEq, (grown.coincide midWf lastWf).render_eq (Nat.lt_of_lt_of_le before there)]

end Moment

/-- What happens to a store: an operation, which may render types at any moment for the
text of a failure, of an issue or of a log, or that a type is rendered by itself. -/
inductive Event where
  | operate (operation : Operation) (moments : List Moment)
  | render (id : TypeId)

namespace Event

/-- Lets an event happen and returns the texts of the types that are rendered. -/
def perform : Event → StateM RenderedStore (List String)
  | .operate operation moments => modifyGet fun rendered =>
    let last := (operation.perform.run rendered.store).2
    let (texts, mid) := (moments.mapM (Moment.perform last)).run rendered
    (texts, { mid with store := last })
  | .render id => (fun text => [text]) <$> text id

/-- An event mentions stored types only. -/
def Permitted (store : Store) : Event → Prop
  | .operate operation moments => operation.Permitted store ∧
    Moment.Between (operation.perform.run store).2 store moments
  | .render id => id < store.size

instance (store : Store) : (event : Event) → Decidable (event.Permitted store)
  | .operate operation moments => inferInstanceAs (Decidable (operation.Permitted store ∧
    Moment.Between (operation.perform.run store).2 store moments))
  | .render id => inferInstanceAs (Decidable (id < store.size))

/-- Types that were rendered are answered by the texts that a store gives for them, and
gave for them on the way. -/
def Answered (store : Store) : Event → List String → Prop
  | .operate _ moments, answer => Forall₂ (Moment.Answered store) moments answer
  | .render id, answer => id < store.size ∧ answer = [store.render id]

end Event

variable {rendered : RenderedStore} {store later : Store}

/-- Texts stay accurate when the store grows. -/
theorem Accurate.of_extends (accurate : rendered.Accurate) (wf : rendered.store.WellFormed)
    (grown : later.Extends rendered.store) (laterWf : later.WellFormed) :
    ({ rendered with store := later } : RenderedStore).Accurate := by
  intro entry mem
  obtain ⟨inside, textEq⟩ := accurate entry mem
  have renderEq := (grown.coincide wf laterWf).render_eq inside
  exact ⟨grown.inside inside, textEq.trans renderEq.symm⟩

theorem yields_text (accurate : rendered.Accurate) {id : TypeId}
    (inside : id < rendered.store.size) :
    Yields (text id) rendered fun answer last =>
      last.store = rendered.store ∧ last.Accurate ∧ answer = rendered.store.render id := by
  unfold text
  rw [yields_modifyGet]
  cases found : rendered.texts.lookup id with
  | some kept =>
    obtain ⟨earlier, later, textsEq, _⟩ := lookup_eq_some_iff.1 found
    have mem : (id, kept) ∈ rendered.texts := by simp [textsEq]
    exact ⟨rfl, accurate, (accurate (id, kept) mem).2⟩
  | none => exact ⟨rfl, forall_mem_cons.2 ⟨⟨inside, rfl⟩, accurate⟩, rfl⟩

section Moments

variable {last : Store} (lastWf : last.WellFormed) (accurate : rendered.Accurate)
  (wf : rendered.store.WellFormed) (grown : last.Extends rendered.store)

include lastWf accurate wf grown

/-- What is rendered on the way to a store is what it renders in the end. -/
theorem yields_moment {moment : Moment} (after : rendered.store.size ≤ moment.count)
    (within : moment.count ≤ last.size) (before : moment.id < moment.count) :
    Yields (moment.perform last) rendered fun answer mid =>
      mid.store = last.upTo moment.count ∧ mid.Accurate ∧ moment.Answered last answer := by
  have midWf := lastWf.upTo within
  have inside : moment.id < (last.upTo moment.count).size := by rwa [Store.size_upTo within]
  have midAccurate := accurate.of_extends wf (grown.upTo after within) midWf
  rw [Moment.perform, yields_modifyGet]
  obtain ⟨storeEq, keptAccurate, answerEq⟩ := yields_text midAccurate inside
  refine ⟨storeEq, keptAccurate, Moment.answered_of_render_eq lastWf within before ?_⟩
  have coincide := (Store.extends_upTo within).coincide midWf lastWf
  exact answerEq.trans (coincide.render_eq inside).symm

theorem yields_moments {moments : List Moment}
    (between : Moment.Between last rendered.store moments) :
    Yields (moments.mapM (Moment.perform last)) rendered fun texts later =>
      last.Extends later.store ∧ later.store.WellFormed ∧ later.Accurate ∧
        Forall₂ (Moment.Answered last) moments texts := by
  induction moments generalizing rendered with
  | nil =>
    rw [mapM_nil, yields_pure]
    exact ⟨grown, wf, accurate, .nil⟩
  | cons moment rest ih =>
    obtain ⟨⟨after, within, before⟩, restBetween⟩ := between
    rw [mapM_cons, yields_bind]
    refine (yields_moment lastWf accurate wf grown after within before).mono ?_
    rintro answer ⟨_, kept⟩ ⟨rfl, midAccurate, answered⟩
    rw [yields_bind]
    refine (ih midAccurate (lastWf.upTo within) (Store.extends_upTo within) restBetween).mono ?_
    rintro answers later ⟨lastGrown, laterWf, laterAccurate, restAnswered⟩
    rw [yields_pure]
    exact ⟨lastGrown, laterWf, laterAccurate, .cons answered restAnswered⟩

end Moments

/-- One event. -/
theorem yields_event (accurate : rendered.Accurate) (wf : rendered.store.WellFormed)
    {event : Event} (permitted : event.Permitted rendered.store) :
    Yields event.perform rendered fun answer last =>
      last.store.Extends rendered.store ∧ last.store.WellFormed ∧ last.Accurate ∧
        event.Answered last.store answer := by
  cases event with
  | operate operation moments =>
    obtain ⟨grown, lastWf⟩ := Operation.grows_perform wf permitted.1
    obtain ⟨laterGrown, laterWf, laterAccurate, answered⟩ :=
      yields_moments lastWf accurate wf grown permitted.2
    exact ⟨grown, lastWf, laterAccurate.of_extends laterWf laterGrown lastWf, answered⟩
  | render id =>
    rw [Event.perform, yields_map]
    refine (yields_text accurate permitted).mono ?_
    rintro _ last ⟨storeEq, lastAccurate, rfl⟩
    rw [← storeEq] at permitted wf ⊢
    exact ⟨.refl last.store, wf, lastAccurate, permitted, rfl⟩

theorem Event.Answered.of_extends {event : Event} {answer : List String}
    (answered : event.Answered store answer) (grown : later.Extends store)
    (wf : store.WellFormed) (laterWf : later.WellFormed) :
    event.Answered later answer := by
  have coincide := grown.coincide wf laterWf
  cases event with
  | operate operation moments =>
    refine Forall₂.imp ?_ answered
    rintro moment text ⟨within, before, answered⟩
    refine Moment.answered_of_render_eq laterWf (Nat.le_trans within grown.size_le) before ?_
    rw [answered store wf (.refl store) within]
    exact (coincide.render_eq (Nat.lt_of_lt_of_le before within)).symm
  | render id =>
    obtain ⟨inside, answerEq⟩ := answered
    refine ⟨grown.inside inside, ?_⟩
    rw [answerEq, coincide.render_eq inside]

/-- Each event of a history mentions only types that are stored by then. -/
def PermittedAll : List Event → RenderedStore → Prop
  | [], _ => True
  | event :: rest, rendered =>
    event.Permitted rendered.store ∧ PermittedAll rest (event.perform.run rendered).2

instance decidablePermittedAll : (events : List Event) → (rendered : RenderedStore) →
    Decidable (PermittedAll events rendered)
  | [], _ => inferInstanceAs (Decidable True)
  | event :: rest, rendered =>
    have := decidablePermittedAll rest (event.perform.run rendered).2
    inferInstanceAs (Decidable (event.Permitted rendered.store ∧ PermittedAll rest _))

theorem yields_events (accurate : rendered.Accurate) (wf : rendered.store.WellFormed)
    {events : List Event} (permitted : PermittedAll events rendered) :
    Yields (events.mapM Event.perform) rendered fun answers last =>
      last.store.Extends rendered.store ∧ last.store.WellFormed ∧ last.Accurate ∧
        Forall₂ (fun event answer => event.Answered last.store answer) events answers := by
  induction events generalizing rendered with
  | nil =>
    rw [mapM_nil, yields_pure]
    exact ⟨.refl rendered.store, wf, accurate, .nil⟩
  | cons event rest ih =>
    obtain ⟨grown, midWf, midAccurate, answered⟩ := yields_event accurate wf permitted.1
    rw [mapM_cons, yields_bind, Yields, yields_bind]
    refine (ih midAccurate midWf permitted.2).mono ?_
    rintro answers last ⟨lastGrown, lastWf, lastAccurate, restAnswered⟩
    rw [yields_pure]
    exact ⟨lastGrown.trans grown, lastWf, lastAccurate,
      .cons (answered.of_extends lastGrown midWf lastWf) restAnswered⟩

/-- A store with a type that has been rendered. -/
def started : RenderedStore where
  store := ((Alloc.read "(forall 'a. 'a -> 'a) -> Int").run.run .empty).2
  texts := [(4, "('a -> 'a) -> Int")]

/-- Types are rendered before, in the middle of and after a reading, a unification and
an analysis that fail and leave new types behind. -/
def mixedEvents : List Event :=
  let env := { table := {}, types := [(0, 4), (1, 9)] }
  [.render 4, .operate (.ask (.read "Int -> (Str")) [],
    .operate (.ask (.read "forall 'b. ['b] -> Int")) [⟨7, 5⟩, ⟨9, 8⟩],
    .operate (.ask (.unify 2 9)) [⟨10, 2⟩, ⟨11, 9⟩], .render 9,
    .operate (.analyse {} env (.tuple {} [.literal {} (.glob "*"),
      .pipe {} (.reference {} "g" (some 1)) (.reference {} "f" (some 0))])) [⟨15, 4⟩, ⟨16, 15⟩],
    .render 4, .render 9]

end RenderedStore
end PipeCheck
