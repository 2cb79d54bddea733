import PipeCheck.Program.Loading
import PipeCheck.Proofs.Reading.ClosedTypes
import PipeCheck.Proofs.Properties.Lasting

/-!
# The types of a program are closed

Loading a document declares closed types only, so its analysis finds a closed
type for every node of the expression.  No quantifier that is created on the way
lists a variable twice.
-/

namespace PipeCheck

namespace Declarations

/-- The store is in order and every declared type is closed. -/
structure Valid (declared : Declarations) : Prop where
  /-- The store is in order. -/
  wellFormed : declared.store.WellFormed
  /-- No quantifier lists a variable twice. -/
  distinct : declared.store.DistinctBinders
  /-- Declared types are closed. -/
  closed : ∀ entry ∈ declared.types, declared.store.ClosedType entry.2

theorem valid_empty : ({} : Declarations).Valid :=
  ⟨Store.wellFormed_empty, Store.distinctBinders_empty, by simp⟩

variable {declared later : Declarations}

/-- Names do not matter to types. -/
theorem Valid.withNames (valid : declared.Valid) (names : Names) :
    { declared with names : Declarations }.Valid :=
  ⟨valid.wellFormed, valid.distinct, valid.closed⟩

theorem Valid.of_declare (valid : declared.Valid) {name : String} {span : Span}
    {written : Option String} (declares : declared.declare name span written = .ok later) :
    later.Valid := by
  cases written with
  | none =>
    cases declares
    exact valid.withNames _
  | some text =>
    have reads := Alloc.yields_read valid.wellFormed text
    unfold declare at declares
    dsimp only at declares
    rw [Yields] at reads
    split at declares
    · next type store read =>
        cases declares
        rw [read] at reads
        obtain ⟨follows, closed⟩ := reads
        refine ⟨follows.wellFormed, follows.distinct valid.distinct, ?_⟩
        intro entry mem
        rcases List.mem_cons.1 mem with rfl | earlier
        · exact closed type rfl
        · exact follows.closedType valid.wellFormed (valid.closed entry earlier)
    · cases declares

theorem Valid.of_declareBuiltins (valid : declared.Valid)
    (declares : declared.declareBuiltins = .ok later) :
    later.Valid := by
  unfold declareBuiltins at declares
  generalize builtins = listed at declares
  induction listed generalizing declared with
  | nil =>
    cases declares
    exact valid
  | cons builtin rest ih =>
    rw [List.foldlM_cons] at declares
    cases first : declared.declare builtin.1 {} (some builtin.2) with
    | error failure =>
      rw [first] at declares
      cases declares
    | ok mid =>
      rw [first] at declares
      exact ih (valid.of_declare first) declares

end Declarations

namespace Program

theorem valid_of_declareAll {decls : List Declaration} {declared later : Declarations}
    {errors : List NameError} (valid : declared.Valid)
    (declares : declareAll decls declared = .ok (later, errors)) :
    later.Valid := by
  induction decls generalizing declared errors with
  | nil =>
    cases declares
    exact valid
  | cons decl rest ih =>
    rw [declareAll] at declares
    split at declares
    · cases restDone : declareAll rest declared with
      | error failure =>
        rw [restDone] at declares
        cases declares
      | ok outcome =>
        rw [restDone] at declares
        cases declares
        exact ih valid restDone
    · cases first : declared.declare decl.name decl.span decl.type with
      | error failure =>
        rw [first] at declares
        cases declares
      | ok mid =>
        rw [first] at declares
        exact ih (valid.of_declare first) declares

theorem valid_of_load {document : Document} {program : Program}
    (loads : load document = .ok program) :
    program.declared.Valid := by
  unfold load at loads
  cases builtinsDone : ({} : Declarations).declareBuiltins with
  | error failure =>
    rw [builtinsDone] at loads
    cases loads
  | ok builtins =>
    rw [builtinsDone] at loads
    have builtinsValid := Declarations.valid_empty.of_declareBuiltins builtinsDone
    cases allDone : declareAll document.declarations
        { builtins with names := builtins.names.push } with
    | error failure =>
      simp only [bind, Except.bind, allDone] at loads
      cases loads
    | ok outcome =>
      simp only [bind, Except.bind, allDone] at loads
      cases loads
      exact valid_of_declareAll (builtinsValid.withNames _) allDone

/-- A completed analysis knows a closed type for every node that was typed. -/
theorem closedType_typeOf? {analysis : Analysis} {state : Progress}
    (typesEq : analysis.types = state.types)
    (recorded : ∀ entry ∈ state.types, state.store.ClosedType entry.2) {node : NodeId}
    (typed : ∃ type, (node, type) ∈ state.types) :
    ∃ type, analysis.typeOf? node = some type ∧ state.store.ClosedType type := by
  obtain ⟨recordedType, isRecorded⟩ := typed
  have isSome : (analysis.types.lookup node).isSome := by
    rw [List.lookup_isSome_iff, typesEq]
    exact ⟨(node, recordedType), isRecorded, by simp⟩
  obtain ⟨type, found⟩ := Option.isSome_iff_exists.1 isSome
  obtain ⟨earlier, later, entriesEq, _⟩ := List.lookup_eq_some_iff.1 found
  refine ⟨type, found, recorded (node, type) ?_⟩
  simp [← typesEq, entriesEq]

/-- Every node of a program that is analysed has a type without free variables,
and every quantifier lists its variables once. -/
theorem analyse_types_closed {document : Document} {program : Program}
    (loads : load document = .ok program) (config : Config) :
    (∀ analysis, (program.analyse config).1 = .ok analysis →
      ∀ node ∈ program.expr.preorder, ∃ type, analysis.typeOf? node.id = some type ∧
        type < (program.analyse config).2.size ∧ (program.analyse config).2.freeVars type = []) ∧
      (program.analyse config).2.DistinctBinders := by
  have declaredValid := valid_of_load loads
  have valid : ({ store := program.declared.store } : Progress).Valid program.environment :=
    ⟨declaredValid.wellFormed, declaredValid.closed, by simp⟩
  have typesNodes : Typing.TypesNodes config program.environment program.expr :=
    Typing.typesNodes program.expr
  have keeps := typesNodes valid
  unfold Keeps Yields StateT.run at keeps
  unfold analyse Analysis.run
  generalize (Typing.expression config program.environment program.expr).run
    { store := program.declared.store } = result at keeps ⊢
  obtain ⟨outcome, progress⟩ := result
  obtain ⟨continues, typed⟩ := keeps
  refine ⟨?_, continues.follows.distinct declaredValid.distinct⟩
  intro analysis completed node member
  cases outcome with
  | error failure => cases completed
  | ok root =>
    have typesEq : analysis.types = progress.types := by
      cases completed
      rfl
    obtain ⟨_, covers⟩ := typed root rfl
    obtain ⟨type, found, closed⟩ :=
      closedType_typeOf? typesEq continues.recorded (covers node member)
    exact ⟨type, found, closed.1, continues.follows.wellFormed.freeVars_eq_nil_iff.2 closed.2⟩

/-- A list of two polymorphic functions is piped into the builtin `pair`. -/
def pairing : Document where
  declarations := [{ name := "twice", type := some "forall 'a. ('a -> 'a) -> 'a -> 'a" }]
  expr :=
    .pipe {} (.list {} [.reference {} "id" none, .reference {} "twice" none])
      (.reference {} "pair" none)

/-- The nodes of this document have closed types under all settings. -/
theorem analyse_pairing : ∃ program, load pairing = .ok program ∧
    ∀ config, ∃ analysis, (program.analyse config).1 = .ok analysis ∧
      ∀ node ∈ program.expr.preorder, ∃ type, analysis.typeOf? node.id = some type ∧
        (program.analyse config).2.freeVars type = [] := by
  have completes : ∃ program, load pairing = .ok program ∧ ∀ config, ∃ analysis,
      (program.analyse config).1 = .ok analysis ∧ analysis.issues = [] := by
    decide +kernel
  obtain ⟨program, loads, completes⟩ := completes
  refine ⟨program, loads, ?_⟩
  intro config
  obtain ⟨analysis, completed, _⟩ := completes config
  refine ⟨analysis, completed, ?_⟩
  intro node member
  obtain ⟨type, found, _, closed⟩ :=
    (analyse_types_closed loads config).1 analysis completed node member
  exact ⟨type, found, closed⟩

end Program
end PipeCheck
