import Mathlib.Data.List.Forall2
import PipeCheck.Proofs.Store.Comparison
import PipeCheck.Proofs.Properties.Inheritance
import PipeCheck.Proofs.Expr.Nodes
import PipeCheck.Proofs.Typing.TreeChecker

/-!
# Types without variables and quantifiers

On such types a comparison always has an answer, unification finds a common
instance exactly of equal types, and application and pipes give the types that
the trees of their operands say.
-/

namespace PipeCheck

open List Option PipeCheck.Tree

namespace Tree

variable {tree child : Tree}

/-- A tree without variables and quantifiers. -/
def Monomorphic (tree : Tree) : Prop :=
  tree.quantifierFree ∧ tree.Closed

instance (tree : Tree) : Decidable tree.Monomorphic :=
  inferInstanceAs (Decidable (tree.quantifierFree = true ∧ tree.occurrences = []))

theorem monomorphic_primitive (which : Primitive) : (primitive which).Monomorphic :=
  ⟨rfl, rfl⟩

theorem Monomorphic.list (monomorphic : tree.Monomorphic) : (list tree).Monomorphic :=
  monomorphic

theorem monomorphic_tuple {parts : List Tree} (each : ∀ part ∈ parts, part.Monomorphic) :
    (tuple parts).Monomorphic := by
  refine ⟨?_, ?_⟩
  · simp only [quantifierFree, quantifierFreeAll_eq_all, List.all_eq_true]
    exact fun part mem => (each part mem).1
  · rw [Closed, occurrences, occurrencesAll_eq_flatMap, flatMap_eq_nil_iff]
    exact fun part mem => (each part mem).2

theorem Monomorphic.of_mem_children (monomorphic : tree.Monomorphic) (mem : child ∈ tree.children) :
    child.Monomorphic := by
  refine ⟨quantifierFree_of_mem_children monomorphic.1 mem, ?_⟩
  have noneOccurs := closed_iff_forall_notMem.1 monomorphic.2
  rw [closed_iff_forall_notMem]
  intro id occurs
  exact noneOccurs id
    (mem_occurrences_of_mem_children mem (kind_ne_quantified monomorphic.1) occurs)

theorem Monomorphic.replace_eq_self (monomorphic : tree.Monomorphic) (assign : TypeId → Tree) :
    tree.replace assign = tree := by
  apply Tree.replace_eq_self
  intro id occurs
  exact absurd occurs (closed_iff_forall_notMem.1 monomorphic.2 id)

theorem kind_eq_primitive_iff {which : Primitive} :
    tree.kind = .primitive which ↔ tree = primitive which := by
  cases tree <;> simp [kind]

theorem Monomorphic.kind_ne_var (monomorphic : tree.Monomorphic) : tree.kind ≠ .var := by
  intro isVar
  cases tree <;> cases isVar
  cases monomorphic.2

end Tree

namespace Store

variable {store last : Store} {id left right : TypeId} {tree : Tree}

/-- A stored type has a given tree. -/
def Shows (store : Store) (id : TypeId) (tree : Tree) : Prop :=
  store.Has (· = tree) id

theorem Follows.shows (follows : last.Follows store) (wf : store.WellFormed)
    (shown : store.Shows id tree) :
    last.Shows id tree :=
  follows.has wf shown

theorem Follows.showsOption (follows : last.Follows store) (wf : store.WellFormed)
    {found : Option TypeId} {tree : Option Tree} (shown : Option.Rel store.Shows found tree) :
    Option.Rel last.Shows found tree := by
  cases shown with
  | none => exact .none
  | some shown => exact .some (follows.shows wf shown)

theorem Builds.shows (built : store.Builds last id tree) : last.Shows id tree :=
  built.has rfl

theorem map_tree_eq_of_shows {ids : List TypeId} {trees : List Tree}
    (shown : List.Forall₂ store.Shows ids trees) :
    ids.map store.tree = trees ∧ ∀ id ∈ ids, id < store.size := by
  induction shown with
  | nil => exact ⟨rfl, by simp⟩
  | cons first _ ih =>
    obtain ⟨treesEq, inside⟩ := ih
    refine ⟨by rw [map_cons, first.2, treesEq], ?_⟩
    intro id mem
    rcases mem_cons.1 mem with rfl | later
    · exact first.1
    · exact inside id later

/-- A type without variables and quantifiers can be compared with every type. -/
theorem WellFormed.not_refuses_of_monomorphic (wf : store.WellFormed)
    (monomorphic : (store.tree left).Monomorphic) (failure : MalformedType) :
    ¬store.Refuses left right failure := by
  intro refuses
  induction refuses with
  | meets _ refusalEq =>
    unfold refusal? at refusalEq
    split at refusalEq
    · next leftEq _ =>
        rw [tree_of_var leftEq] at monomorphic
        exact monomorphic.kind_ne_var rfl
    · next leftEq _ =>
        rw [wf.tree_of_quantified leftEq] at monomorphic
        exact kind_ne_quantified monomorphic.1 rfl
    · cases refusalEq
  | descends _ pairsEq _ _ ih =>
    apply ih
    apply monomorphic.of_mem_children
    apply wf.tree_mem_children
    exact (Shape.mem_components_of_mem_pairs pairsEq (by simp)).1

theorem WellFormed.equal_of_monomorphic (wf : store.WellFormed) (leftInside : left < store.size)
    (rightInside : right < store.size) (monomorphic : (store.tree left).Monomorphic) :
    store.equal left right = .ok (decide (store.tree left = store.tree right)) := by
  have compared := wf.compared_equal leftInside rightInside
  cases answer : store.equal left right with
  | error failure =>
    rw [answer] at compared
    exact absurd compared (wf.not_refuses_of_monomorphic monomorphic failure)
  | ok same =>
    rw [answer] at compared
    congr 1
    rw [Bool.eq_iff_iff, decide_eq_true_iff]
    exact compared.1

theorem WellFormed.isKind_eq (wf : store.WellFormed)
    (monomorphic : (store.tree id).Monomorphic) (kind : Kind) :
    store.isKind kind id = decide ((store.tree id).kind = kind) := by
  rw [isKind, ← Store.kind_tree, wf.tree_body, body_of_quantifierFree monomorphic.1]

/-- A type is invalid when it is the invalid type. -/
theorem Shows.isInvalid_eq (shown : store.Shows id tree) (wf : store.WellFormed)
    (monomorphic : tree.Monomorphic) :
    store.isInvalid id = decide (tree = .invalid) := by
  obtain ⟨_, rfl⟩ := shown
  rw [isInvalid, wf.isKind_eq monomorphic, decide_eq_decide]
  exact kind_eq_primitive_iff

/-- The result of a function for the unit. -/
theorem WellFormed.applyUnit_rel (wf : store.WellFormed) (inside : id < store.size) :
    Option.Rel store.Shows (store.applyUnit id) ((store.tree id).resultFor (.primitive .unit)) := by
  unfold applyUnit
  split
  · next domain codomain shapeEq =>
      rw [wf.tree_of_function shapeEq, resultFor, ← Store.kind_tree]
      simp only [kind_eq_primitive_iff]
      split
      · exact .some ⟨Nat.lt_trans (wf.codomain_lt shapeEq) inside, rfl⟩
      · exact .none
  · next notFn =>
      have noResult : (store.tree id).resultFor (.primitive .unit) = none := by
        cases treeEq : store.tree id with
        | function domain codomain =>
          obtain ⟨_, _, shapeEq, _⟩ := wf.shape_of_tree_function treeEq
          exact absurd shapeEq (notFn _ _)
        | _ => rfl
      rw [noResult]
      exact .none

/-- There is no quantifier to be stripped of. -/
theorem Strips.tree_eq_of_monomorphic {first mid : Store} {leftVars rightVars : List TypeId}
    {leftBody rightBody : TypeId}
    (strips : Strips store first mid left right leftVars leftBody rightVars rightBody)
    (wf : store.WellFormed) (rightInside : right < store.size)
    (leftMono : (store.tree left).Monomorphic) (rightMono : (store.tree right).Monomorphic) :
    mid.tree leftBody = store.tree left ∧ mid.tree rightBody = store.tree right := by
  constructor
  · rw [strips.right.grown.tree_eq strips.left.wellFormed strips.left.inside,
      strips.left.tree_eq, wf.tree_body, body_of_quantifierFree leftMono.1]
    exact leftMono.replace_eq_self _
  · rw [strips.right.tree_eq, strips.left.grown.tree_eq wf
      (wf.body_inside rightInside), wf.tree_body, body_of_quantifierFree rightMono.1]
    exact rightMono.replace_eq_self _

/-- Nothing is bound in a type without variables, so it is rebuilt as it was. -/
theorem Rebuilds.shows_of_monomorphic {mid : Store} {bindable binders : List TypeId}
    {bindings : Bindings} {source result : TypeId} {body : Tree}
    (rebuilds : Rebuilds mid last bindable bindings source result binders body)
    (monomorphic : (mid.tree source).Monomorphic) :
    last.Shows result (mid.tree source) := by
  obtain ⟨times, bodyEq⟩ := rebuilds.iterated
  have fixed : replace (bindings.assignment mid) (mid.tree source) =
      mid.tree source := monomorphic.replace_eq_self _
  rw [Function.iterate_fixed fixed] at bodyEq
  subst bodyEq
  have noBinders : binders = [] := by
    rw [eq_nil_iff_forall_not_mem]
    intro leaf listed
    exact closed_iff_forall_notMem.1 monomorphic.2 leaf ((rebuilds.mem_binders leaf).1 listed).1
  subst noBinders
  exact rebuilds.toBuilds.shows

end Store

namespace Alloc

open Store

/-- Types without variables and quantifiers have a common instance exactly when
they are equal. -/
theorem yields_unify_monomorphic {store : Store} (wf : store.WellFormed)
    {left right : TypeId} {leftTree rightTree : Tree} (leftShown : store.Shows left leftTree)
    (rightShown : store.Shows right rightTree) (leftMono : leftTree.Monomorphic)
    (rightMono : rightTree.Monomorphic) :
    Yields (unify left right) store fun found last =>
      last.Follows store ∧
        Option.Rel last.Shows found (if leftTree = rightTree then some leftTree else none) := by
  obtain ⟨leftInside, rfl⟩ := leftShown
  obtain ⟨rightInside, rfl⟩ := rightShown
  by_cases identical : left = right
  · subst identical
    rw [unify, if_pos rfl, if_pos rfl]
    exact ⟨wf.follows_self, .some ⟨leftInside, rfl⟩⟩
  refine (yields_unify wf identical leftInside rightInside).mono ?_
  rintro found last ⟨first, mid, leftVars, leftBody, rightVars, rightBody, strips, unified⟩
  have midFollows : mid.Follows store := strips.right.toFollows.trans strips.left.toFollows
  obtain ⟨leftEq, rightEq⟩ := strips.tree_eq_of_monomorphic wf rightInside leftMono rightMono
  cases found with
  | none =>
    obtain ⟨rfl, refutes⟩ := unified
    have different : store.tree left ≠ store.tree right := by
      intro equal
      -- equal trees would be solved without any binding
      refine refutes ?_ (fun _ _ none => by cases none) (fun _ _ => rfl)
        (fun _ _ none => by cases none) ?_
      · intro pair mem
        rw [mem_singleton.1 mem, leftEq, rightEq]
        exact ⟨leftMono.1, rightMono.1⟩
      · intro pair mem
        rw [mem_singleton.1 mem, leftEq, rightEq, equal]
    rw [if_neg different]
    exact ⟨midFollows, .none⟩
  | some result =>
    obtain ⟨bindings, binders, body, unifies, rebuilds⟩ := unified
    obtain ⟨assign, solved, _⟩ :=
      unifies.sound.exists_solvedBy strips.right.wellFormed strips.vars .var
    -- a solution leaves both trees as they are, so they agree already
    have agree := (unifies.solvedBy_iff fun _ _ none => by cases none).1 solved
      (leftBody, rightBody) (by simp)
    rw [leftEq, rightEq, leftMono.replace_eq_self, rightMono.replace_eq_self] at agree
    rw [if_pos agree]
    refine ⟨rebuilds.toFollows.trans midFollows, .some ?_⟩
    rw [← leftEq]
    exact rebuilds.shows_of_monomorphic (leftEq.symm ▸ leftMono)

end Alloc

namespace Checked

open Store

variable {store : Store} {fnType arg : TypeId} {fnTree argTree : Tree}

/-- A function without variables and quantifiers takes its parameter's type. -/
theorem succeeds_apply_monomorphic (policy : QuantifierPolicy) (wf : store.WellFormed)
    (fnShown : store.Shows fnType fnTree) (argShown : store.Shows arg argTree)
    (monomorphic : fnTree.Monomorphic) :
    Succeeds (apply policy arg fnType) store fun returned last =>
      last.Follows store ∧
        Option.Rel last.Shows returned (fnTree.resultFor argTree) := by
  obtain ⟨functionInside, rfl⟩ := fnShown
  obtain ⟨argumentInside, rfl⟩ := argShown
  have notQuantified := kind_ne_quantified monomorphic.1
  by_cases isFunction : (store.tree fnType).kind = .function
  · obtain ⟨domainTree, codomainTree, treeEq⟩ := exists_eq_function isFunction
    obtain ⟨domain, codomain, shapeEq, rfl, rfl⟩ := wf.shape_of_tree_function treeEq
    have domainMono : (store.tree domain).Monomorphic :=
      monomorphic.of_mem_children (by simp [treeEq, children])
    have runEq := apply_function policy arg shapeEq
    rw [wf.equal_of_monomorphic (Nat.lt_trans (wf.domain_lt shapeEq) functionInside)
      argumentInside domainMono] at runEq
    refine succeeds_of_run_eq runEq ⟨wf.follows_self, ?_⟩
    rw [treeEq, resultFor]
    by_cases equal : store.tree domain = store.tree arg
    · rw [if_pos equal, decide_eq_true equal]
      exact .some ⟨Nat.lt_trans (wf.codomain_lt shapeEq) functionInside, rfl⟩
    · rw [if_neg equal, decide_eq_false equal]
      exact .none
  · have noResult : (store.tree fnType).resultFor (store.tree arg) = none := by
      cases treeEq : store.tree fnType with
      | function domain codomain =>
        rw [treeEq] at isFunction
        exact absurd rfl isFunction
      | _ => rfl
    rw [Store.kind_tree] at isFunction notQuantified
    refine succeeds_of_run_eq (apply_other policy arg isFunction notQuantified)
      ⟨wf.follows_self, ?_⟩
    rw [noResult]
    exact .none

/-- The element of a list without variables and quantifiers. -/
theorem succeeds_elementOf?_monomorphic (wf : store.WellFormed)
    (argShown : store.Shows arg argTree) (monomorphic : argTree.Monomorphic) :
    Succeeds (elementOf? arg) store fun element last =>
      last.Follows store ∧ Option.Rel last.Shows element argTree.element? := by
  obtain ⟨argumentInside, rfl⟩ := argShown
  refine (succeeds_elementOf? wf argumentInside).mono ?_
  rintro _ last ⟨follows, ofArgument⟩
  refine ⟨follows, ?_⟩
  cases ofArgument with
  | direct shapeEq inside =>
    rw [wf.tree_of_list shapeEq]
    exact .some (follows.shows wf ⟨inside, rfl⟩)
  | quantified shapeEq =>
    rw [wf.tree_of_quantified shapeEq] at monomorphic
    exact absurd rfl (kind_ne_quantified monomorphic.1)
  | none notList =>
    rw [isList, wf.isKind_eq monomorphic, decide_eq_true_eq] at notList
    cases treeEq : store.tree arg with
    | list element =>
      rw [treeEq] at notList
      exact absurd rfl notList
    | _ => exact .none

/-- A pipe tries the argument itself and then its elements. -/
theorem succeeds_pipe_monomorphic (policy : QuantifierPolicy) (wf : store.WellFormed)
    (fnShown : store.Shows fnType fnTree) (argShown : store.Shows arg argTree)
    (fnMono : fnTree.Monomorphic) (argMono : argTree.Monomorphic) :
    Succeeds (pipe policy arg fnType) store fun returned last =>
      last.Follows store ∧
        Option.Rel (fun piped result => last.Shows piped.result result.1 ∧
          piped.broadcast = result.2) returned (fnTree.resultPiped argTree) := by
  unfold resultPiped
  refine (succeeds_apply_monomorphic policy wf fnShown argShown fnMono).bind ?_
  rintro returned mid ⟨follows, direct⟩
  generalize fnTree.resultFor argTree = result at direct
  cases direct with
  | some shown => exact succeeds_pure ⟨follows, .some ⟨shown, rfl⟩⟩
  | none =>
    refine (succeeds_elementOf?_monomorphic follows.wellFormed
      (follows.shows wf argShown) argMono).bind ?_
    rintro element later ⟨laterFollows, elementShown⟩
    have bothFollow := laterFollows.trans follows
    generalize argTree.element? = elementTree at elementShown
    cases elementShown with
    | none => exact succeeds_pure ⟨bothFollow, .none⟩
    | @some _ tree shown =>
      refine (succeeds_apply_monomorphic policy laterFollows.wellFormed
        (bothFollow.shows wf fnShown) shown fnMono).bind ?_
      rintro mapped last ⟨lastFollows, mappedShown⟩
      have allFollow := lastFollows.trans bothFollow
      rw [bind_some]
      generalize fnTree.resultFor tree = mappedTree at mappedShown
      cases mappedShown with
      | none => exact succeeds_pure ⟨allFollow, .none⟩
      | some resultShown =>
        refine (succeeds_lift (Alloc.yields_list lastFollows.wellFormed resultShown.1)).bind ?_
        rintro id final ⟨built, _⟩
        refine succeeds_pure ⟨built.toFollows.trans allFollow, .some ⟨?_, rfl⟩⟩
        rw [← resultShown.2]
        exact built.shows

end Checked

/-- The symbol that a reference is bound to. -/
def Expr.symbol? : Expr → Option SymbolId
  | .reference _ _ symbol => symbol
  | _ => none

namespace Environment

/-- The trees of the declared types. -/
def signature (env : Environment) (store : Store) : Signature where
  typeOf? symbol := (env.typeOf? symbol).map store.tree
  nameOf := env.referenceName

/-- The typed symbols of some nodes have types without variables and
quantifiers. -/
def Monomorphic (env : Environment) (store : Store) (nodes : List Expr) : Prop :=
  ∀ node ∈ nodes, ∀ type ∈ node.symbol?.bind env.typeOf?, store.Has Tree.Monomorphic type

instance (env : Environment) (store : Store) (nodes : List Expr) :
    Decidable (env.Monomorphic store nodes) :=
  inferInstanceAs (Decidable (∀ node ∈ nodes, ∀ type ∈ node.symbol?.bind env.typeOf?,
    type < store.size ∧ (store.tree type).Monomorphic))

theorem Monomorphic.subset {env : Environment} {store : Store} {nodes fewer : List Expr}
    (monomorphic : env.Monomorphic store nodes) (subset : fewer ⊆ nodes) :
    env.Monomorphic store fewer :=
  fun node mem => monomorphic node (subset mem)

end Environment

namespace TreeChecker

variable {function arg : Tree} {elements : List (Tree × Span)} {span : Span}
  {policy : ListPolicy} {env : Environment} {store : Store}

theorem monomorphic_resultFor {result : Tree} (monomorphic : function.Monomorphic)
    (found : function.resultFor arg = some result) :
    result.Monomorphic := by
  cases function with
  | function domain codomain =>
    rw [resultFor] at found
    split at found
    · cases found
      exact monomorphic.of_mem_children (by simp [children])
    · cases found
  | _ => cases found

theorem monomorphic_listOf {element : Option Tree}
    (monomorphic : ∀ tree ∈ element, tree.Monomorphic) :
    (Judgement.listOf element).type.Monomorphic := by
  unfold Judgement.listOf
  split
  · exact monomorphic_primitive .invalid
  · next tree =>
      split
      · exact monomorphic_primitive .invalid
      · exact (monomorphic tree rfl).list

/-- The common type is that of an element. -/
theorem exists_mem_of_commonType {tree : Tree} (found : tree ∈ (commonType 0 false elements).1) :
    ∃ element ∈ elements, element.1 = tree := by
  unfold commonType at found
  split at found
  · next expected span first =>
      refine ⟨(expected, span), mem_of_find?_eq_some first, ?_⟩
      unfold agreeing at found
      split at found
      · cases found
      · dsimp only at found
        split at found
        · cases found
        · exact Option.some.inj found
  · cases found

theorem monomorphic_elementType (each : ∀ element ∈ elements, element.1.Monomorphic) :
    ∀ tree ∈ (elementType policy elements).1, tree.Monomorphic := by
  intro tree found
  cases policy with
  | lastElement =>
    obtain ⟨element, lastEq, rfl⟩ := map_eq_some_iff.1 found
    exact each element (mem_of_getLast? lastEq)
  | unify =>
    obtain ⟨element, mem, rfl⟩ := exists_mem_of_commonType found
    exact each element mem

theorem monomorphic_listLiteral (each : ∀ element ∈ elements, element.1.Monomorphic) :
    (listLiteral policy span elements).type.Monomorphic := by
  unfold listLiteral
  split
  · exact monomorphic_primitive .invalid
  · exact monomorphic_listOf (monomorphic_elementType each)

theorem monomorphic_tupleLiteral {parts : List Tree} (each : ∀ part ∈ parts, part.Monomorphic) :
    (tupleLiteral parts).type.Monomorphic := by
  unfold tupleLiteral
  split
  · exact monomorphic_primitive .unit
  split
  · exact monomorphic_primitive .invalid
  · exact monomorphic_tuple each

theorem monomorphic_pipe (monomorphic : function.Monomorphic) :
    (pipe span arg function).type.Monomorphic := by
  unfold pipe
  split
  · exact monomorphic_primitive .invalid
  split
  · next type broadcast found =>
      unfold resultPiped at found
      split at found
      · next result direct =>
          cases found
          exact monomorphic_resultFor monomorphic direct
      · obtain ⟨result, mapped, same⟩ := map_eq_some_iff.1 found
        cases same
        obtain ⟨element, _, applied⟩ := bind_eq_some_iff.1 mapped
        exact (monomorphic_resultFor monomorphic applied).list
  · exact monomorphic_primitive .invalid

theorem monomorphic_applyArgument {position : Nat} {function : Option Tree}
    (monomorphic : ∀ tree ∈ function, tree.Monomorphic) :
    ∀ tree ∈ (applyArgument span position function arg).1, tree.Monomorphic := by
  intro tree found
  cases function with
  | none => cases found
  | some function =>
    rw [applyArgument] at found
    split at found
    · cases found
    split at found
    · next result applied =>
        cases found
        exact monomorphic_resultFor (monomorphic function rfl) applied
    · cases found

theorem monomorphic_applied {position : Nat} {function : Option Tree} {args : List Judgement}
    (monomorphic : ∀ tree ∈ function, tree.Monomorphic) :
    ∀ tree ∈ (applied span position function args).1, tree.Monomorphic := by
  induction args generalizing position function with
  | nil => exact monomorphic
  | cons arg rest ih =>
    exact ih (monomorphic_applyArgument monomorphic)

theorem monomorphic_application {args : List Judgement} (monomorphic : function.Monomorphic) :
    (application span function args).type.Monomorphic := by
  unfold application
  split
  · exact monomorphic_primitive .invalid
  split
  · split
    · next applied => exact monomorphic_resultFor monomorphic applied
    · exact monomorphic_primitive .invalid
  · have results : ∀ tree ∈ (applied span 0 (some function) args).1, tree.Monomorphic :=
      monomorphic_applied (by simpa using monomorphic)
    dsimp only
    cases resultEq : (applied span 0 (some function) args).1 with
    | none => exact monomorphic_primitive .invalid
    | some tree => exact results tree resultEq

/-- If the symbols have types without variables and quantifiers, so has every
expression. -/
theorem monomorphic_check {expr : Expr} (monomorphic : env.Monomorphic store expr.preorder) :
    (check policy (env.signature store) expr).type.Monomorphic := by
  induction expr using Expr.inductionOnChildren with
  | step expr ih =>
    have below : ∀ child ∈ expr.children,
        (check policy (env.signature store) child).type.Monomorphic :=
      fun child mem => ih child mem (monomorphic.subset (Expr.preorder_subset mem))
    cases expr with
    | reference site name symbol =>
      rw [check]
      split
      · next tree found =>
          obtain ⟨bound, symbolEq, treeEq⟩ := bind_eq_some_iff.1 found
          obtain ⟨type, typeEq, rfl⟩ := map_eq_some_iff.1 treeEq
          refine (monomorphic _ (Expr.self_mem_preorder _) type ?_).2
          exact bind_eq_some_iff.2 ⟨bound, symbolEq, typeEq⟩
      · exact monomorphic_primitive .invalid
    | literal site value =>
      rw [check]
      cases value <;> exact ⟨rfl, rfl⟩
    | list site items =>
      rw [check, checkAll_eq_map]
      refine monomorphic_listLiteral ?_
      intro element mem
      obtain ⟨judged, isJudged, typeEq⟩ := List.mem_map.1 (of_mem_zip mem).1
      obtain ⟨item, isItem, rfl⟩ := List.mem_map.1 isJudged
      exact typeEq ▸ below item isItem
    | tuple site items =>
      rw [check, checkAll_eq_map]
      refine monomorphic_tupleLiteral ?_
      intro part mem
      obtain ⟨judged, isJudged, rfl⟩ := List.mem_map.1 mem
      obtain ⟨item, isItem, rfl⟩ := List.mem_map.1 isJudged
      exact below item isItem
    | apply site function args =>
      rw [check]
      exact monomorphic_application (below function (by simp [Expr.children]))
    | pipe site arg function =>
      rw [check]
      exact monomorphic_pipe (below function (by simp [Expr.children]))
    | binary site op left right =>
      rw [check]
      exact monomorphic_primitive .invalid
    | definition site symbol init =>
      rw [check]
      exact monomorphic_primitive .invalid
    | placeholder site =>
      rw [check]
      exact monomorphic_primitive .invalid

end TreeChecker
end PipeCheck
