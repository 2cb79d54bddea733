import PipeCheck.Proofs.Properties.Closedness
import PipeCheck.Proofs.Expr.Nodes
import PipeCheck.Proofs.Typing.ElementLoop

/-!
# Steps of typing

Typing makes types of those that are declared.  A property of trees lasts if all
types have it that typing makes, once the declared ones do.  Being closed is such a
property, and so is being stored at all.  Each step of typing keeps the store in
order and hands a lasting property on, even if a malformed type ends it.
-/

namespace PipeCheck

namespace Store

/-- An inherited property that literals have, too. -/
structure Lasting (property : Tree → Prop) : Prop extends Inherited property where
  /-- Primitive types have the property. -/
  primitive : ∀ which, property (.primitive which)
  /-- Tuples of such types have it. -/
  tuple : ∀ {components}, (∀ component ∈ components, property component) →
    property (.tuple components)

theorem trivial_lasting : Lasting fun _ => True where
  toInherited := trivial_inherited
  primitive _ := trivial
  tuple _ := trivial

theorem closed_lasting : Lasting Tree.Closed where
  toInherited := closed_inherited
  primitive _ := rfl
  tuple partsClosed := by
    rw [Tree.Closed, Tree.occurrences, Tree.occurrencesAll_eq_flatMap, List.flatMap_eq_nil_iff]
    exact partsClosed

end Store

namespace Progress

variable {property : Tree → Prop}

/-- The store is in order, and all declared and all recorded types have a
property. -/
structure Upholds (property : Tree → Prop) (env : Environment) (progress : Progress) :
    Prop where
  /-- The store is in order. -/
  wellFormed : progress.store.WellFormed
  /-- Declared types have the property. -/
  declared : ∀ entry ∈ env.types, progress.store.Has property entry.2
  /-- Recorded types have it. -/
  recorded : ∀ entry ∈ progress.types, progress.store.Has property entry.2

/-- Later progress has a store that follows and all recorded types, and what it
has recorded has a property. -/
structure Sustains (property : Tree → Prop) (later earlier : Progress) : Prop where
  /-- No type has changed. -/
  follows : later.store.Follows earlier.store
  /-- No record is lost. -/
  types_subset : earlier.types ⊆ later.types
  /-- Recorded types have the property. -/
  recorded : ∀ entry ∈ later.types, later.store.Has property entry.2

/-- All declared and all recorded types are closed. -/
abbrev Valid (env : Environment) (progress : Progress) : Prop :=
  progress.Upholds Tree.Closed env

/-- What later progress has recorded is closed. -/
abbrev Continues (later earlier : Progress) : Prop :=
  later.Sustains Tree.Closed earlier

/-- Every listed node has a recorded type. -/
def Covers (progress : Progress) (nodes : List Expr) : Prop :=
  ∀ node ∈ nodes, ∃ type, (node.id, type) ∈ progress.types

variable {env : Environment} {earlier mid later : Progress}

theorem Upholds.sustains_self (upholds : earlier.Upholds property env) :
    earlier.Sustains property earlier :=
  ⟨upholds.wellFormed.follows_self, fun _ mem => mem, upholds.recorded⟩

theorem Sustains.trans (second : later.Sustains property mid)
    (first : mid.Sustains property earlier) :
    later.Sustains property earlier :=
  ⟨second.follows.trans first.follows,
    fun _ mem => second.types_subset (first.types_subset mem), second.recorded⟩

theorem Upholds.has (upholds : earlier.Upholds property env)
    (sustains : later.Sustains property earlier) {id : TypeId}
    (has : earlier.store.Has property id) :
    later.store.Has property id :=
  sustains.follows.has upholds.wellFormed has

theorem Upholds.of_sustains (upholds : earlier.Upholds property env)
    (sustains : later.Sustains property earlier) :
    later.Upholds property env :=
  ⟨sustains.follows.wellFormed, fun entry mem => upholds.has sustains (upholds.declared entry mem),
    sustains.recorded⟩

theorem covers_nil (state : Progress) : state.Covers [] := by
  intro node mem
  cases mem

theorem Covers.of_sustains {nodes : List Expr} (covers : earlier.Covers nodes)
    (sustains : later.Sustains property earlier) :
    later.Covers nodes := by
  intro node mem
  obtain ⟨type, recorded⟩ := covers node mem
  exact ⟨type, sustains.types_subset recorded⟩

theorem Covers.append {nodes others : List Expr} (covers : earlier.Covers nodes)
    (othersCovered : earlier.Covers others) :
    earlier.Covers (nodes ++ others) := by
  intro node mem
  rcases List.mem_append.1 mem with inNodes | inOthers
  · exact covers node inNodes
  · exact othersCovered node inOthers

/-- A new store with the same records. -/
theorem Upholds.sustains_store (upholds : earlier.Upholds property env) {store : Store}
    (follows : store.Follows earlier.store) :
    ({ earlier with store } : Progress).Sustains property earlier :=
  ⟨follows, fun _ mem => mem,
    fun entry mem => follows.has upholds.wellFormed (upholds.recorded entry mem)⟩

theorem Upholds.bind {α β : Type} {action : Typing α} {next : α → Typing β}
    {midPost : α → Progress → Prop} {post : β → Progress → Prop}
    (upholds : earlier.Upholds property env)
    (keeps : Keeps (Sustains property) action earlier midPost)
    (rest : ∀ value mid, mid.Upholds property env →
      mid.Sustains property earlier → midPost value mid →
      Keeps (Sustains property) (next value) mid post) :
    Keeps (Sustains property) (action >>= next) earlier post :=
  keeps.bind Sustains.trans fun value mid sustains =>
    rest value mid (upholds.of_sustains sustains) sustains

end Progress

namespace Typing

open Progress

variable {elements : List (TypeId × Span)} {α : Type} {property : Tree → Prop} {env : Environment}
  {state : Progress}

theorem keeps_alloc {create : Alloc α} {post : α → Store → Prop}
    (upholds : state.Upholds property env) (yields : Yields create state.store fun value store =>
      store.Follows state.store ∧ post value store) :
    Keeps (Sustains property) (alloc create) state fun value last => post value last.store := by
  refine ⟨upholds.sustains_store yields.1, ?_⟩
  rintro _ ⟨⟩
  exact yields.2

theorem keeps_checked {create : Checked α} {post : α → Store → Prop}
    (upholds : state.Upholds property env) (keeps : Keeps Store.Follows create state.store post) :
    Keeps (Sustains property) (checked create) state fun value last => post value last.store :=
  ⟨upholds.sustains_store keeps.1, keeps.2⟩

theorem keeps_store_bind {next : Store → Typing α} {post : α → Progress → Prop}
    (keeps : Keeps (Sustains property) (next state.store) state post) :
    Keeps (Sustains property) (store >>= next) state post :=
  keeps

/-- An issue changes no type. -/
theorem keeps_report (upholds : state.Upholds property env) (issue : Issue) :
    Keeps (Sustains property) (report issue) state fun _ _ => True :=
  ⟨⟨upholds.wellFormed.follows_self, fun _ mem => mem, upholds.recorded⟩, fun _ _ => trivial⟩

theorem keeps_recordBroadcast (upholds : state.Upholds property env) (node : NodeId) :
    Keeps (Sustains property) (recordBroadcast node) state fun _ _ => True :=
  ⟨⟨upholds.wellFormed.follows_self, fun _ mem => mem, upholds.recorded⟩, fun _ _ => trivial⟩

/-- The type of an expression has a property. -/
def Gives (property : Tree → Prop) (computation : Typing TypeId) (progress : Progress) : Prop :=
  Keeps (Sustains property) computation progress fun type last => last.store.Has property type

section

variable (upholds : state.Upholds property env)

include upholds

theorem keeps_record (node : NodeId) {type : TypeId} (has : state.store.Has property type) :
    Keeps (Sustains property) (record node type) state fun recorded last =>
      last.store.Has property recorded ∧ last.types = (node, recorded) :: state.types := by
  refine ⟨⟨upholds.wellFormed.follows_self, fun _ mem => List.mem_cons_of_mem _ mem,
    List.forall_mem_cons.2 ⟨has, upholds.recorded⟩⟩, ?_⟩
  rintro _ ⟨⟩
  exact ⟨has, rfl⟩

theorem gives_recorded
    {action : Typing TypeId} (gives : Gives property action state) (node : NodeId) :
    Gives property (do record node (← action)) state := by
  refine upholds.bind gives ?_
  intro type mid midUpholds _ has
  exact (keeps_record midUpholds node has).mono fun _ _ _ holds => holds.1

theorem gives_alloc {create : Alloc TypeId} (yields : Yields create state.store fun id store =>
      store.Follows state.store ∧ store.Has property id) :
    Gives property (alloc create) state :=
  keeps_alloc upholds yields

/-- The report of a mismatch may meet a malformed type, but changes no type. -/
theorem keeps_mismatch (fn arg : TypeId) (position : Option Nat) (span : Span) :
    Keeps (Sustains property) (mismatch fn arg position span) state
      fun _ _ => True := by
  have paramKeeps : Keeps (Sustains property)
      (state.store.parameter fn : Typing TypeId) state fun _ _ => True :=
    keeps_except upholds.sustains_self fun _ _ => trivial
  refine keeps_store_bind ?_
  dsimp only
  split
  · exact upholds.bind paramKeeps fun _ _ midUpholds _ _ => keeps_report midUpholds _
  · exact keeps_report upholds _

end

/-- Every type that is found has a property. -/
def MayGive (property : Tree → Prop) (computation : Typing (Option TypeId)) (progress : Progress) :
    Prop :=
  Keeps (Sustains property) computation progress fun found last =>
    ∀ id, found = some id → last.store.Has property id

theorem mayGive_none (upholds : state.Upholds property env) :
    MayGive property (return none) state :=
  keeps_pure upholds.sustains_self (by simp)

section Steps

variable (lasting : Store.Lasting property)

include lasting

section

variable (upholds : state.Upholds property env)

include upholds

theorem gives_primitive (which : Primitive) :
    Gives property (alloc (Alloc.primitive which)) state := by
  refine gives_alloc upholds ((Alloc.yields_primitive upholds.wellFormed which).mono ?_)
  intro id last built
  exact ⟨built.toFollows, built.has (lasting.primitive which)⟩

theorem gives_list {element : TypeId} (has : state.store.Has property element) :
    Gives property (alloc (Alloc.list element)) state := by
  refine gives_alloc upholds ((Alloc.yields_list upholds.wellFormed has.1).mono ?_)
  rintro id last ⟨built, _⟩
  exact ⟨built.toFollows, built.has (lasting.list has.2)⟩

theorem gives_reject (issue : Issue) :
    Gives property (reject issue) state :=
  upholds.bind (keeps_report upholds issue) fun _ _ midUpholds _ _ =>
    gives_primitive lasting midUpholds .invalid

theorem gives_literal (value : Literal) :
    Gives property (literal value) state := by
  cases value with
  | glob pattern =>
    refine gives_alloc upholds ?_
    rw [yields_bind]
    refine (Alloc.yields_primitive upholds.wellFormed .file).mono ?_
    intro file mid fileBuilt
    refine (Alloc.yields_list fileBuilt.wellFormed fileBuilt.inside).mono ?_
    rintro id last ⟨built, _⟩
    exact ⟨built.toFollows.trans fileBuilt.toFollows,
      built.has (lasting.list (fileBuilt.has (lasting.primitive .file)).2)⟩
  | _ => exact gives_primitive lasting upholds _

theorem gives_reference (name : String) (symbol : Option SymbolId) (span : Span) :
    Gives property (reference env name symbol span) state := by
  unfold reference
  split
  · next type found =>
      obtain ⟨symbol, _, typeEq⟩ := Option.bind_eq_some_iff.1 found
      obtain ⟨_, _, typesEq, _⟩ := List.lookup_eq_some_iff.1 typeEq
      refine keeps_pure upholds.sustains_self (upholds.declared (symbol, type) ?_)
      simp [typesEq]
  · exact gives_reject lasting upholds _

/-- After a mismatch the type is the invalid one. -/
theorem gives_mismatch_invalid (fn arg : TypeId) (position : Option Nat) (span : Span) :
    Gives property (do mismatch fn arg position span; invalid) state :=
  upholds.bind (keeps_mismatch upholds fn arg position span)
    fun _ _ midUpholds _ _ => gives_primitive lasting midUpholds .invalid

end

theorem elementLoop_mayGive (start : Progress) :
    ElementLoop
      (fun _ common _ rest state => state.Upholds property env ∧ state.Sustains property start ∧
        (∀ id, common = some id → state.store.Has property id) ∧
          ∀ element ∈ rest, state.store.Has property element.1)
      fun found last => last.Sustains property start ∧
        ∀ id, found = some id → last.store.Has property id where
  done := by
    rintro _ common sawInvalid state ⟨_, sustains, commonHas, _⟩
    refine ⟨sustains, fun id found => ?_⟩
    split at found
    · cases found
    · exact commonHas id found
  passes := by
    rintro _ _ _ _ _ _ _ ⟨upholds, sustains, commonHas, each⟩ _
    exact ⟨upholds, sustains, commonHas, (List.forall_mem_cons.1 each).2⟩
  starts := by
    rintro _ _ type _ _ _ ⟨upholds, sustains, _, each⟩ _
    rw [List.forall_mem_cons] at each
    exact ⟨upholds, sustains, fun _ found => Option.some.inj found ▸ each.1, each.2⟩
  joins := by
    rintro _ previous _ type _ _ state ⟨upholds, sustains, commonHas, each⟩ _
    rw [List.forall_mem_cons] at each
    refine (lasting.yields_unify upholds.wellFormed (commonHas previous rfl) each.1).mono ?_
    rintro found last ⟨follows, foundHas⟩
    have next := upholds.sustains_store follows
    cases found with
    | none =>
      exact ⟨⟨next.follows.trans sustains.follows, (next.trans sustains).types_subset,
        next.recorded⟩, by simp⟩
    | some unified =>
      exact ⟨upholds.of_sustains next, next.trans sustains, foundHas,
        fun element mem => upholds.has next (each.2 element mem)⟩

section

variable (upholds : state.Upholds property env)

include upholds

theorem mayGive_elementType (policy : ListPolicy)
    (elementsHas : ∀ element ∈ elements, state.store.Has property element.1) :
    MayGive property (elementType policy elements) state := by
  cases policy with
  | unify =>
    have walked : Succeeds (commonType 0 none false elements) state _ :=
      (elementLoop_mayGive lasting state).succeeds
        ⟨upholds, upholds.sustains_self, by simp, elementsHas⟩
    obtain ⟨found, outcomeEq, sustains, foundHas⟩ := walked
    exact ⟨sustains, fun value ok => Except.ok.inj (outcomeEq.symm.trans ok) ▸ foundHas⟩
  | lastElement =>
    refine keeps_pure upholds.sustains_self ?_
    intro id found
    obtain ⟨element, isLast, rfl⟩ := Option.map_eq_some_iff.1 found
    exact elementsHas element (List.mem_of_getLast? isLast)

theorem gives_listLiteral (policy : ListPolicy)
    (span : Span) (elementsHas : ∀ element ∈ elements, state.store.Has property element.1) :
    Gives property (listLiteral policy span elements) state := by
  unfold listLiteral
  split
  · exact gives_reject lasting upholds _
  refine upholds.bind (mayGive_elementType lasting upholds policy elementsHas) ?_
  intro found mid midUpholds _ foundHas
  cases found with
  | none => exact gives_primitive lasting midUpholds .invalid
  | some element =>
    refine keeps_store_bind ?_
    split
    · exact gives_primitive lasting midUpholds .invalid
    · exact gives_list lasting midUpholds (foundHas element rfl)

theorem gives_tupleLiteral {parts : List TypeId}
    (partsHas : ∀ part ∈ parts, state.store.Has property part) :
    Gives property (tupleLiteral parts) state := by
  unfold tupleLiteral
  split
  · exact gives_primitive lasting upholds .unit
  refine keeps_store_bind ?_
  split
  · exact gives_primitive lasting upholds .invalid
  refine gives_alloc upholds ((Alloc.yields_tuple upholds.wellFormed
    fun part mem => (partsHas part mem).1).mono ?_)
  rintro id last ⟨built, _⟩
  refine ⟨built.toFollows, built.has (lasting.tuple ?_)⟩
  intro tree mem
  obtain ⟨part, isPart, rfl⟩ := List.mem_map.1 mem
  exact (partsHas part isPart).2

theorem gives_pipe (policy : QuantifierPolicy) (site : Site) {arg fn : TypeId}
    (argHas : state.store.Has property arg) (fnHas : state.store.Has property fn) :
    Gives property (pipe policy site arg fn) state := by
  refine keeps_store_bind ?_
  split
  · exact gives_primitive lasting upholds .invalid
  refine upholds.bind (keeps_checked upholds
    (lasting.keeps_pipe policy upholds.wellFormed fnHas argHas)) ?_
  intro returned mid midUpholds _ returnedHas
  cases returned with
  | none => exact gives_mismatch_invalid lasting midUpholds _ _ _ _
  | some piped =>
    have resultHas := returnedHas piped rfl
    dsimp only
    split
    · refine midUpholds.bind (keeps_recordBroadcast midUpholds _) ?_
      intro _ last lastUpholds sustains _
      exact keeps_pure lastUpholds.sustains_self (midUpholds.has sustains resultHas)
    · exact keeps_pure midUpholds.sustains_self resultHas

theorem gives_applyUnit {fn : TypeId} (fnHas : state.store.Has property fn) (span : Span) :
    Gives property (applyUnit fn span) state := by
  refine keeps_store_bind ?_
  split
  · next result applied =>
      exact keeps_pure upholds.sustains_self (lasting.applyUnit upholds.wellFormed fnHas applied)
  · exact upholds.bind (gives_primitive lasting upholds .unit) fun _ _ midUpholds _ _ =>
      gives_mismatch_invalid lasting midUpholds _ _ _ _

theorem mayGive_applyArgument (policy : QuantifierPolicy) (span : Span) (position : Nat)
    {fn : Option TypeId} (fnHas : ∀ id, fn = some id → state.store.Has property id) {arg : TypeId}
    (argHas : state.store.Has property arg) :
    MayGive property (applyArgument policy span position fn arg) state := by
  cases fn with
  | none => exact mayGive_none upholds
  | some fn =>
    refine keeps_store_bind ?_
    split
    · exact mayGive_none upholds
    refine upholds.bind (keeps_checked upholds (lasting.returns_apply policy
      upholds.wellFormed (fnHas fn rfl) argHas)) ?_
    intro returned mid midUpholds _ returnedHas
    cases returned with
    | some result => exact keeps_pure midUpholds.sustains_self returnedHas
    | none =>
      exact midUpholds.bind (keeps_mismatch midUpholds _ _ _ _)
        fun _ _ lastUpholds _ _ => mayGive_none lastUpholds

end

end Steps

end Typing
end PipeCheck
