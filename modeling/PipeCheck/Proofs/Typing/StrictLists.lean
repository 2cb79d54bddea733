import PipeCheck.Proofs.Typing.Refinement
import PipeCheck.Proofs.Typing.Settled

/-!
# Lists whose elements must agree

A list literal is typed by its last element, or by the common type of all elements.
The second way is stricter.  It only rejects: where it finds nothing wrong and no
symbol has a type with variables, quantifiers or the invalid type, the first way
finds nothing wrong either and gives every node the same type.
-/

namespace PipeCheck

open List Option TreeChecker PipeCheck.Tree

namespace Tree

variable {tree : Tree}

theorem InvalidFree.ne_invalid (free : tree.InvalidFree) : tree ≠ .invalid := by
  rintro rfl
  exact free mem_cons_self

theorem InvalidFree.of_mem_children {child : Tree} (free : tree.InvalidFree)
    (mem : child ∈ tree.children) :
    child.InvalidFree :=
  mt (mem_primitives_of_mem_children mem) free

theorem InvalidFree.resultFor {arg result : Tree} (free : tree.InvalidFree)
    (found : tree.resultFor arg = some result) :
    result.InvalidFree := by
  cases tree with
  | function domain codomain =>
    rw [resultFor] at found
    split at found
    · cases found
      exact free.of_mem_children (by simp [children])
    · cases found
  | _ => cases found

theorem InvalidFree.resultPiped {arg result : Tree} {broadcast : Bool}
    (free : tree.InvalidFree) (found : tree.resultPiped arg = some (result, broadcast)) :
    result.InvalidFree := by
  rw [Tree.resultPiped] at found
  split at found
  · next direct =>
      cases found
      exact free.resultFor direct
  · obtain ⟨mapped, mappedEq, same⟩ := map_eq_some_iff.1 found
    cases same
    obtain ⟨element, _, applied⟩ := bind_eq_some_iff.1 mappedEq
    have mappedFree := free.resultFor applied
    rwa [InvalidFree, primitives]

/-- A tree without variables and quantifiers that does not mention the invalid
type. -/
def Plain (tree : Tree) : Prop :=
  tree.Monomorphic ∧ tree.InvalidFree

instance (tree : Tree) : Decidable tree.Plain :=
  inferInstanceAs (Decidable (_ ∧ _))

end Tree

/-- The typed symbols of some nodes have types without variables and quantifiers that
do not mention the invalid type. -/
def Environment.Plain (env : Environment) (store : Store) (nodes : List Expr) : Prop :=
  ∀ node ∈ nodes, ∀ type ∈ node.symbol?.bind env.typeOf?, store.Has Tree.Plain type

instance (env : Environment) (store : Store) (nodes : List Expr) :
    Decidable (env.Plain store nodes) :=
  inferInstanceAs (Decidable (∀ node ∈ nodes, ∀ type ∈ node.symbol?.bind env.typeOf?,
    type < store.size ∧ (store.tree type).Plain))

theorem Environment.Plain.monomorphic {env : Environment} {store : Store}
    {nodes : List Expr} (plain : env.Plain store nodes) :
    env.Monomorphic store nodes :=
  fun node mem type found =>
    ⟨(plain node mem type found).1, (plain node mem type found).2.1⟩

theorem Environment.Plain.signature_invalidFree {env : Environment} {store : Store}
    {nodes : List Expr} (plain : env.Plain store nodes) :
    ∀ node ∈ nodes, ∀ tree ∈ node.symbol?.bind (env.signature store).typeOf?,
      tree.InvalidFree := by
  intro node mem tree found
  obtain ⟨symbol, symbolEq, treeEq⟩ := bind_eq_some_iff.1 found
  obtain ⟨type, typeEq, rfl⟩ := map_eq_some_iff.1 treeEq
  exact (plain node mem type (bind_eq_some_iff.2 ⟨symbol, symbolEq, typeEq⟩)).2.2

namespace TreeChecker

variable {elements : List (Tree × Span)} {function : Tree} {args : List Judgement}
  {items : List Expr}

section Steps

variable {span : Span}

theorem invalidFree_literal (value : Literal) : (literal value).InvalidFree := by
  cases value <;> simp [literal, InvalidFree, primitives]

/-- Without issue, valid elements all have the expected type. -/
theorem agreeing_of_quiet {expected : Tree} {index : Nat}
    (valid : ∀ element ∈ elements, element.1 ≠ .invalid)
    (quiet : (agreeing expected index false elements).2 = []) :
    agreeing expected index false elements = (some expected, []) ∧
      ∀ element ∈ elements, element.1 = expected := by
  induction elements generalizing index with
  | nil => simp [agreeing_nil]
  | cons element rest ih =>
    obtain ⟨type, span⟩ := element
    rw [forall_mem_cons] at valid ⊢
    by_cases same : type = expected
    · subst same
      rw [agreeing_cons_self valid.1] at quiet ⊢
      obtain ⟨agreeingEq, restSame⟩ := ih valid.2 quiet
      exact ⟨agreeingEq, rfl, restSame⟩
    · rw [agreeing_cons_different valid.1 same] at quiet
      cases quiet

/-- If the strict way finds no issue with valid elements, all have one type, which
is what either way finds. -/
theorem elementType_of_quiet (nonempty : elements ≠ [])
    (valid : ∀ element ∈ elements, element.1 ≠ .invalid)
    (quiet : (elementType .unify elements).2 = []) :
    ∃ element ∈ elements, ∀ policy, elementType policy elements = (some element.1, []) := by
  cases elements with
  | nil => exact absurd rfl nonempty
  | cons element rest =>
    obtain ⟨type, span⟩ := element
    rw [forall_mem_cons] at valid
    rw [elementType, commonType_cons_valid valid.1] at quiet
    obtain ⟨agreeingEq, same⟩ := agreeing_of_quiet valid.2 quiet
    refine ⟨(type, span), mem_cons_self, ?_⟩
    intro policy
    cases policy with
    | unify => rw [elementType, commonType_cons_valid valid.1, agreeingEq]
    | lastElement =>
      have lastSame : ∀ element ∈ (type, span) :: rest, element.1 = type := by
        rw [forall_mem_cons]
        exact ⟨rfl, same⟩
      rw [elementType, getLast?_eq_some_getLast (cons_ne_nil _ rest),
        map_some, lastSame _ (getLast_mem _)]

/-- If the strict way finds no issue with a list literal of valid elements, either
way gives it the list type of an element. -/
theorem listLiteral_of_quiet (valid : ∀ element ∈ elements, element.1 ≠ .invalid)
    (quiet : (listLiteral .unify span elements).issues = []) :
    ∃ element ∈ elements, ∀ policy,
      listLiteral policy span elements = { type := .list element.1 } := by
  have nonempty : elements ≠ [] := by
    rintro rfl
    cases quiet
  have notEmpty : ¬elements.isEmpty := by simpa using nonempty
  rw [listLiteral, if_neg notEmpty, Judgement.after] at quiet
  obtain ⟨element, mem, found⟩ := elementType_of_quiet nonempty valid (append_eq_nil_iff.1 quiet).1
  refine ⟨element, mem, ?_⟩
  intro policy
  rw [listLiteral, if_neg notEmpty, found, Judgement.listOf, if_neg (valid element mem)]
  rfl

theorem invalidFree_tupleLiteral {parts : List Tree} (each : ∀ part ∈ parts, part.InvalidFree) :
    (tupleLiteral parts).type.InvalidFree := by
  have allValid : invalid ∉ parts := fun mem => (each _ mem).ne_invalid rfl
  rw [tupleLiteral, if_neg allValid]
  split
  · simp [InvalidFree, primitives]
  · rw [InvalidFree, primitives, primitivesAll_eq_flatMap, mem_flatMap]
    rintro ⟨part, mem, occurs⟩
    exact each part mem occurs

theorem invalidFree_pipe {arg : Tree} (argFree : arg.InvalidFree)
    (fnFree : function.InvalidFree) (quiet : (pipe span arg function).issues = []) :
    (pipe span arg function).type.InvalidFree := by
  rw [pipe, if_neg (not_or.2 ⟨argFree.ne_invalid, fnFree.ne_invalid⟩)] at quiet ⊢
  cases found : function.resultPiped arg with
  | none =>
    rw [found] at quiet
    cases quiet
  | some piped => exact fnFree.resultPiped found

/-- Without issue, valid arguments leave something of a valid function. -/
theorem applied_of_quiet {position : Nat} (fnFree : function.InvalidFree)
    (argsFree : ∀ arg ∈ args, arg.type.InvalidFree)
    (quiet : (applied span position (some function) args).2 = []) :
    ∃ result, (applied span position (some function) args).1 = some result ∧
      result.InvalidFree := by
  induction args generalizing position function with
  | nil => exact ⟨function, rfl, fnFree⟩
  | cons arg rest ih =>
    rw [forall_mem_cons] at argsFree
    rw [applied, applyArgument, if_neg argsFree.1.ne_invalid] at quiet ⊢
    cases found : function.resultFor arg.type with
    | none =>
      rw [found] at quiet
      simp at quiet
    | some next =>
      rw [found] at quiet
      exact ih (fnFree.resultFor found) argsFree.2 (append_eq_nil_iff.1 quiet).2

theorem invalidFree_application (fnFree : function.InvalidFree)
    (argsFree : ∀ arg ∈ args, arg.type.InvalidFree)
    (quiet : (application span function args).issues = []) :
    (application span function args).type.InvalidFree := by
  rw [application, if_neg fnFree.ne_invalid] at quiet ⊢
  split at quiet
  · next noArgs =>
      rw [if_pos noArgs]
      cases found : function.resultFor (.primitive .unit) with
      | none =>
        rw [found] at quiet
        cases quiet
      | some result => exact fnFree.resultFor found
  · next someArgs =>
      obtain ⟨result, resultEq, free⟩ := applied_of_quiet fnFree argsFree quiet
      rw [if_neg someArgs]
      simpa [resultEq] using free

end Steps

section Issues

variable {policy : ListPolicy} {signature : Signature} {expr : Expr}

theorem issues_subset_applied {span : Span} {position : Nat} {function : Option Tree}
    {arg : Judgement} (mem : arg ∈ args) :
    arg.issues ⊆ (applied span position function args).2 := by
  induction args generalizing position function with
  | nil => cases mem
  | cons first rest ih =>
    rw [applied]
    rcases mem_cons.1 mem with rfl | later
    · exact fun issue found => mem_append_left _ (mem_append_left _ found)
    · exact fun issue found => mem_append_right _ (ih later found)

theorem issues_subset_application {span : Span} {arg : Judgement} (mem : arg ∈ args) :
    arg.issues ⊆ (application span function args).issues := by
  rw [application]
  split
  · exact fun issue found => mem_append_left _ (mem_flatMap.2 ⟨arg, mem, found⟩)
  · rw [if_neg (by simpa using ne_nil_of_mem mem)]
    exact issues_subset_applied mem

/-- The issues of a subexpression are issues of the expression. -/
theorem issues_subset_of_mem_children {child : Expr} (mem : child ∈ expr.children) :
    (check policy signature child).issues ⊆ (check policy signature expr).issues := by
  intro issue found
  have amongAll : ∀ {items : List Expr}, child ∈ items →
      issue ∈ (items.map (check policy signature)).flatMap Judgement.issues :=
    fun isItem => mem_flatMap.2 ⟨_, List.mem_map_of_mem isItem, found⟩
  cases expr with
  | reference site name symbol => cases mem
  | literal site value => cases mem
  | list site items =>
    rw [check, checkAll_eq_map]
    exact mem_append_left _ (amongAll mem)
  | tuple site items =>
    rw [check, checkAll_eq_map]
    exact mem_append_left _ (amongAll mem)
  | apply site function args =>
    rw [check, checkAll_eq_map]
    rcases mem_append.1 mem with isArg | isFunction
    · exact mem_append_right _ (issues_subset_application (List.mem_map_of_mem isArg) found)
    · rw [mem_singleton.1 isFunction] at found
      exact mem_append_left _ found
  | pipe site arg function =>
    simp only [Expr.children, mem_cons, not_mem_nil, or_false] at mem
    rw [check]
    refine mem_append_left _ (mem_append.2 ?_)
    rcases mem with rfl | rfl
    · exact .inl found
    · exact .inr found
  | binary site op left right =>
    simp only [Expr.children, mem_cons, not_mem_nil, or_false] at mem
    rw [check]
    refine mem_append_left _ (mem_append.2 ?_)
    rcases mem with rfl | rfl
    · exact .inl found
    · exact .inr found
  | definition site symbol init =>
    rw [mem_singleton.1 mem] at found
    rw [check]
    exact mem_append_left _ found
  | placeholder site => cases mem

end Issues

section Agreement

variable {signature : Signature} {expr : Expr}

/-- Both ways to type lists judge an expression alike, and validly. -/
structure Agree (signature : Signature) (expr : Expr) : Prop where
  /-- Both ways give the same judgement. -/
  check_eq : check .lastElement signature expr = check .unify signature expr
  /-- Its type does not mention the invalid type. -/
  invalidFree : (check .unify signature expr).type.InvalidFree

section

variable (each : ∀ item ∈ items, Agree signature item)

include each

theorem map_check_eq_of_agree :
    items.map (check .lastElement signature) = items.map (check .unify signature) :=
  map_congr_left fun item mem => (each item mem).check_eq

theorem types_invalidFree :
    ∀ judged ∈ items.map (check .unify signature), judged.type.InvalidFree := by
  intro judged mem
  obtain ⟨item, isItem, rfl⟩ := List.mem_map.1 mem
  exact (each item isItem).invalidFree

/-- What is found at a list literal whose elements are judged alike. -/
theorem agree_list {site : Site} (quiet : (check .unify signature (.list site items)).issues = []) :
    Agree signature (.list site items) := by
  rw [check, checkAll_eq_map, Judgement.after, append_eq_nil_iff] at quiet
  have elementsFree : ∀ element ∈ ((items.map (check .unify signature)).map Judgement.type).zip
      (items.map Expr.span), element.1.InvalidFree := by
    intro element mem
    obtain ⟨judged, isJudged, typeEq⟩ := List.mem_map.1 (of_mem_zip mem).1
    exact typeEq ▸ types_invalidFree each judged isJudged
  obtain ⟨element, mem, found⟩ := listLiteral_of_quiet
    (fun element mem => (elementsFree element mem).ne_invalid) quiet.2
  constructor
  · simp only [check, checkAll_eq_map, map_check_eq_of_agree each, found]
  · simp only [check, checkAll_eq_map, found, Judgement.after]
    exact elementsFree element mem

end

/-- If the subexpressions are judged alike and the strict way finds no issue, the
expression itself is judged alike. -/
theorem agree_of_children (below : ∀ child ∈ expr.children, Agree signature child)
    (complete : ¬expr.isPlaceholder)
    (declared : ∀ tree ∈ expr.symbol?.bind signature.typeOf?, tree.InvalidFree)
    (quiet : (check .unify signature expr).issues = []) :
    Agree signature expr := by
  cases expr with
  | reference site name symbol =>
    refine ⟨by rw [check, check], ?_⟩
    rw [check] at quiet ⊢
    cases found : symbol.bind signature.typeOf? with
    | none =>
      rw [found] at quiet
      cases quiet
    | some tree => exact declared tree found
  | literal site value =>
    refine ⟨by rw [check, check], ?_⟩
    rw [check]
    exact invalidFree_literal value
  | list site items => exact agree_list below quiet
  | tuple site items =>
    have each : ∀ item ∈ items, Agree signature item := below
    refine ⟨?_, ?_⟩
    · simp only [check, checkAll_eq_map, map_check_eq_of_agree each]
    · rw [check, checkAll_eq_map]
      exact invalidFree_tupleLiteral (by simpa using types_invalidFree each)
  | apply site function args =>
    simp only [Expr.children, forall_mem_append, forall_mem_singleton] at below
    refine ⟨?_, ?_⟩
    · simp only [check, checkAll_eq_map, map_check_eq_of_agree below.1, below.2.check_eq]
    · rw [check, checkAll_eq_map] at quiet ⊢
      exact invalidFree_application below.2.invalidFree (types_invalidFree below.1)
        (append_eq_nil_iff.1 quiet).2
  | pipe site arg function =>
    simp only [Expr.children, forall_mem_cons] at below
    refine ⟨?_, ?_⟩
    · simp only [check, below.1.check_eq, below.2.1.check_eq]
    · rw [check] at quiet ⊢
      exact invalidFree_pipe below.1.invalidFree below.2.1.invalidFree (append_eq_nil_iff.1 quiet).2
  -- an operator or a definition always has an issue
  | binary site op left right =>
    rw [check] at quiet
    cases (append_eq_nil_iff.1 quiet).2
  | definition site symbol init =>
    rw [check] at quiet
    cases (append_eq_nil_iff.1 quiet).2
  | placeholder site => exact absurd rfl complete

/-- If the strict way finds no issue in an expression without placeholders and no
symbol has a type that mentions the invalid one, every node is judged alike. -/
theorem agree_of_quiet (complete : ∀ node ∈ expr.preorder, ¬node.isPlaceholder)
    (declared : ∀ node ∈ expr.preorder, ∀ tree ∈ node.symbol?.bind signature.typeOf?,
      tree.InvalidFree) (quiet : (check .unify signature expr).issues = []) :
    ∀ node ∈ expr.preorder, Agree signature node := by
  induction expr using Expr.inductionOnChildren with
  | step expr ih =>
    have below : ∀ child ∈ expr.children, ∀ node ∈ child.preorder, Agree signature node := by
      intro child mem
      have subset := Expr.preorder_subset mem
      have childQuiet : (check .unify signature child).issues ⊆ [] :=
        quiet ▸ issues_subset_of_mem_children mem
      exact ih child mem (fun node inside => complete node (subset inside))
        (fun node inside => declared node (subset inside)) (subset_nil.1 childQuiet)
    have self := Expr.self_mem_preorder expr
    intro node mem
    rw [Expr.preorder_eq, mem_cons, mem_flatMap] at mem
    rcases mem with rfl | ⟨child, isChild, inside⟩
    · exact agree_of_children (fun child mem => below child mem _ child.self_mem_preorder)
        (complete _ self) (declared _ self) quiet
    · exact below child isChild node inside

end Agreement

end TreeChecker

namespace Progress

variable {judge otherJudge : Expr → Judgement} {earlier later other : Progress}
  {nodes : List Expr} {issues otherIssues : List Issue}

/-- The recorded type of a node, as a tree. -/
theorem lookup_table (state : Progress) (node : NodeId) :
    state.table.lookup node = (state.types.lookup node).map state.store.tree := by
  unfold table
  induction state.types with
  | nil => rfl
  | cons entry rest ih =>
    rw [map_cons, lookup_cons, lookup_cons, ih]
    cases node == entry.1 <;> rfl

theorem Adds.isSome_lookup (adds : later.Adds judge earlier nodes issues) {node : Expr}
    (mem : node ∈ nodes) :
    (later.types.lookup node.id).isSome := by
  have added : (node.id, (judge node).type) ∈ later.table := by
    rw [adds.table_eq, mem_append, mem_reverse]
    exact .inl (List.mem_map_of_mem mem)
  rw [← isSome_map (f := later.store.tree), ← lookup_table, lookup_isSome_iff]
  exact ⟨_, added, beq_self_eq_true node.id⟩

/-- Nodes that are judged alike are recorded alike. -/
theorem Adds.table_eq_of_judged (adds : later.Adds judge earlier nodes issues)
    (otherAdds : other.Adds otherJudge earlier nodes otherIssues)
    (same : ∀ node ∈ nodes, otherJudge node = judge node) :
    other.table = later.table ∧ other.broadcasts = later.broadcasts := by
  rw [adds.table_eq, adds.broadcasts_eq, otherAdds.table_eq, otherAdds.broadcasts_eq]
  constructor
  · congr 2
    exact map_congr_left fun node mem => by rw [same node mem]
  · congr 3
    exact filter_congr fun node mem => by rw [same node mem]

end Progress

namespace Analysis

variable {env : Environment} {store : Store} {expr : Expr}

/-- If the symbols have types without variables and quantifiers, an analysis ends
with what the checker on trees says of the nodes in the order of their typing. -/
theorem exists_adds_of_run (config : Config) (wf : store.WellFormed)
    (monomorphic : env.Monomorphic store expr.preorder) :
    ∃ (analysis : Analysis) (state : Progress),
      run config env store expr = (.ok analysis, state.store) ∧
      analysis.types = state.types ∧ analysis.broadcasts = state.broadcasts ∧
      analysis.issues = state.issues.toList ∧
      state.Adds (check config.listLiterals (env.signature store)) { store }
        expr.typingOrder
        (check config.listLiterals (env.signature store) expr).issues := by
  have simulates : Typing.Simulates config env store
      (check config.listLiterals (env.signature store)) expr :=
    Typing.simulates_check wf monomorphic
  have startSound : ({ store } : Progress).Sound store := ⟨wf, .refl store, by simp⟩
  obtain ⟨root, outcomeEq, adds, _⟩ := simulates startSound
  exact ⟨_, _, Prod.ext (congrArg (Except.map _) outcomeEq) rfl, rfl, rfl, rfl, adds⟩

/-- The text of the type that is recorded for a node. -/
theorem map_render_typeOf? {analysis : Analysis} {state : Progress}
    (typesEq : analysis.types = state.types) (wf : state.store.WellFormed) (node : NodeId) :
    (analysis.typeOf? node).map state.store.render =
      (state.table.lookup node).map render := by
  rw [typeOf?, typesEq, state.lookup_table, Option.map_map]
  exact congrArg (Option.map · _) (funext wf.render_eq)

/-- If lists whose elements must agree bring no issues to an expression without
placeholders, typing lists by their last elements brings none either, and every node
has the same type as before and is mapped over a list if it was before. -/
theorem run_lastElement_of_unify (config : Config) (wf : store.WellFormed)
    (plain : env.Plain store expr.preorder)
    (complete : ∀ node ∈ expr.preorder, ¬node.isPlaceholder) {strict : Analysis}
    (completed : (run { config with listLiterals := .unify } env store expr).1 = .ok strict)
    (quiet : strict.issues = []) :
    ∃ lenient,
      (run { config with listLiterals := .lastElement } env store expr).1 = .ok lenient ∧
      lenient.issues = [] ∧
      (∀ node ∈ expr.preorder, (lenient.typeOf? node.id).isSome) ∧
      ∀ node,
        (lenient.typeOf? node).map
            (run { config with listLiterals := .lastElement } env store expr).2.render =
          (strict.typeOf? node).map
            (run { config with listLiterals := .unify } env store expr).2.render ∧
        lenient.isBroadcast node = strict.isBroadcast node := by
  obtain ⟨analysis, last, runEq, typesEq, broadcastsEq, issuesEq, adds⟩ :=
    exists_adds_of_run { config with listLiterals := .unify } wf plain.monomorphic
  obtain ⟨lenient, other, otherRunEq, otherTypesEq, otherBroadcastsEq, otherIssuesEq, otherAdds⟩ :=
    exists_adds_of_run { config with listLiterals := .lastElement } wf plain.monomorphic
  obtain rfl : analysis = strict := by
    rw [runEq] at completed
    exact Except.ok.inj completed
  have noIssues :
      (check .unify (env.signature store) expr).issues = [] := by
    rw [← quiet, issuesEq, adds.issues_eq]
    rfl
  have agree := agree_of_quiet complete plain.signature_invalidFree noIssues
  obtain ⟨tableEq, sameBroadcasts⟩ := adds.table_eq_of_judged otherAdds
    fun node member => (agree node (Expr.mem_typingOrder.1 member)).check_eq
  refine ⟨lenient, by rw [otherRunEq], ?_, ?_, ?_⟩
  · rw [otherIssuesEq, otherAdds.issues_eq, (agree expr expr.self_mem_preorder).check_eq, noIssues]
    rfl
  · intro node member
    rw [typeOf?, otherTypesEq]
    exact otherAdds.isSome_lookup (Expr.mem_typingOrder.2 member)
  · intro node
    rw [otherRunEq, runEq, map_render_typeOf? otherTypesEq otherAdds.follows.wellFormed,
      map_render_typeOf? typesEq adds.follows.wellFormed, tableEq, isBroadcast, isBroadcast,
      otherBroadcastsEq, broadcastsEq, sameBroadcasts]
    exact ⟨rfl, rfl⟩

/-- Lists of lists of files, one of them a pattern, are mapped over and the result is
applied to. -/
def shelves : Document where
  declarations :=
    [{ name := "weigh", type := some "[File] -> Int" },
      { name := "sum", type := some "[Int] -> Int -> Int" }]
  expr :=
    .apply {} (.reference {} "sum" none)
      [.pipe {}
          (.list {}
            [.literal {} (.glob "*.txt"),
              .list {} [.literal {} (.file "a.txt"), .literal {} (.str "b.txt")]])
          (.reference {} "weigh" none),
        .literal {} (.int 1)]

/-- The document's lists agree, so its nodes are typed alike under both settings. -/
theorem run_lastElement_of_unify_shelves :
    ∃ program, Program.load shelves = .ok program ∧
      program.environment.Plain program.declared.store program.expr.preorder ∧
      ∃ strict lenient, (program.analyse { listLiterals := .unify }).1 = .ok strict ∧
        strict.issues = [] ∧ (strict.isBroadcast 1 = true) ∧
        (program.analyse { listLiterals := .lastElement }).1 = .ok lenient ∧
        lenient.issues = [] ∧
        ∀ node,
          (lenient.typeOf? node).map
              (program.analyse { listLiterals := .lastElement }).2.render =
            (strict.typeOf? node).map (program.analyse { listLiterals := .unify }).2.render ∧
          lenient.isBroadcast node = strict.isBroadcast node := by
  have computes : ∃ program, Program.load shelves = .ok program ∧
      program.environment.Plain program.declared.store program.expr.preorder ∧
        (∀ node ∈ program.expr.preorder, ¬node.isPlaceholder) ∧
        ∃ strict, (program.analyse { listLiterals := .unify }).1 = .ok strict ∧
          strict.issues = [] ∧ strict.isBroadcast 1 = true := by
    decide +kernel
  obtain ⟨program, loads, plain, complete, strict, completed, quiet, broadcast⟩ := computes
  obtain ⟨lenient, lenientCompleted, lenientQuiet, _, alike⟩ :=
    run_lastElement_of_unify {} (Program.valid_of_load loads).wellFormed plain complete completed
      quiet
  exact ⟨program, loads, plain, strict, lenient, completed, quiet, broadcast, lenientCompleted,
    lenientQuiet, alike⟩

end Analysis
end PipeCheck
