import PipeCheck.Proofs.Properties.Closedness
import PipeCheck.Proofs.Application.Instantiation
import PipeCheck.Proofs.Typing.Monomorphic

/-!
# Applying type schemes

A type scheme is a closed type without quantifiers below its outermost one.  What
functions take and what they give can be read off the instances of the schemes
alone, but for one thing: a function without quantifier takes no quantified
argument, not even one whose variables do not occur.
-/

namespace PipeCheck

open List Option PipeCheck.Tree

namespace Tree

variable {fnTree arg result : Tree}

/-- A closed tree without quantifiers below its outermost one. -/
structure Scheme (tree : Tree) : Prop where
  /-- All variables are quantified. -/
  closed : tree.Closed
  /-- There is no inner quantifier. -/
  quantifierFree : tree.body.quantifierFree

/-- A quantifier none of whose variables occurs. -/
def Idle (tree : Tree) : Prop :=
  tree.kind = .quantified ∧ tree.body.Closed

instance (tree : Tree) : Decidable tree.Idle :=
  inferInstanceAs (Decidable (tree.kind = .quantified ∧ tree.body.occurrences = []))

/-- Every argument is taken by a function. -/
def Takes (functions arguments : Set Tree) : Prop :=
  ∀ argument ∈ arguments, ∃ result, function argument result ∈ functions

/-- What functions give for the arguments that they take. -/
def results (functions arguments : Set Tree) : Set Tree :=
  {result | ∃ argument ∈ arguments, function argument result ∈ functions}

/-- A function accepts an argument if its instances take all instances of the
argument; without quantifier it accepts no quantified one. -/
structure Accepts (functionTree argument : Tree) : Prop where
  /-- It is a function. -/
  isFunction : functionTree.body.kind = .function
  /-- Its instances take those of the argument. -/
  takes : Takes functionTree.instances argument.instances
  /-- Without quantifier it accepts no quantified one. -/
  unquantified : functionTree.kind ≠ .quantified → argument.kind ≠ .quantified

/-- A scheme of what a function gives for an argument.  Dropping unused variables
leaves no idle quantifier. -/
structure Gives (policy : QuantifierPolicy) (functionTree argument result : Tree) : Prop where
  /-- The result is a scheme. -/
  scheme : result.Scheme
  /-- It has the results of instances as instances. -/
  instances_eq : result.instances = results functionTree.instances argument.instances
  /-- Pruned, it has no idle quantifier. -/
  active : policy = .prune → ¬result.Idle

/-- The element of a list, under the list's own quantifier. -/
def item? : Tree → Option Tree
  | .list element => some element
  | .quantified binders (.list element) => some (.quantified binders element)
  | _ => none

/-- The elements of lists. -/
def elements (lists : Set Tree) : Set Tree :=
  {element | list element ∈ lists}

/-- What comes of piping an argument into a function, and whether the function is
mapped over a list. -/
inductive Pipes (policy : QuantifierPolicy) (functionTree argument : Tree) :
    Option (Tree × Bool) → Prop
  | direct {result : Tree} (accepts : functionTree.Accepts argument)
      (gives : Gives policy functionTree argument result) :
      Pipes policy functionTree argument (some (result, false))
  | mapped {item result : Tree} (rejects : ¬functionTree.Accepts argument)
      (isItem : argument.item? = some item) (accepts : functionTree.Accepts item)
      (gives : Gives policy functionTree item result) :
      Pipes policy functionTree argument (some (.list result, true))
  | fails (rejects : ¬functionTree.Accepts argument)
      (rejectsItem : ∀ item ∈ argument.item?, ¬functionTree.Accepts item) :
      Pipes policy functionTree argument none

section Schemes

variable {tree image : Tree}

/-- What is put for a variable stands in the replaced tree. -/
theorem quantifierFree_of_replace (free : tree.quantifierFree) {assign : TypeId → Tree}
    (replaced : (tree.replace assign).quantifierFree) {id : TypeId}
    (occurs : id ∈ tree.occurrences) :
    (assign id).quantifierFree := by
  induction tree with
  | primitive which => cases occurs
  | function domain codomain domainIH codomainIH =>
    simp only [replace, quantifierFree, Bool.and_eq_true] at free replaced
    rcases mem_append.1 occurs with inDomain | inCodomain
    · exact domainIH free.1 replaced.1 inDomain
    · exact codomainIH free.2 replaced.2 inCodomain
  | list element elementIH => exact elementIH free replaced occurs
  | tuple parts partIH =>
    simp only [replace, replaceAll_eq_map, quantifierFree, quantifierFreeAll_eq_all,
      List.all_map, List.all_eq_true] at free replaced
    simp only [occurrences, occurrencesAll_eq_flatMap, mem_flatMap] at occurs
    obtain ⟨part, mem, inPart⟩ := occurs
    exact partIH part mem (free part mem) (replaced part mem) inPart
  | var leaf =>
    obtain rfl := mem_singleton.1 occurs
    exact replaced
  | quantified binders body bodyIH => simp [quantifierFree] at free

theorem Monomorphic.scheme (monomorphic : tree.Monomorphic) : tree.Scheme :=
  ⟨monomorphic.2, by rw [body_of_quantifierFree monomorphic.1]; exact monomorphic.1⟩

theorem Scheme.monomorphic (scheme : tree.Scheme) (notQuantified : tree.kind ≠ .quantified) :
    tree.Monomorphic := by
  have free := scheme.quantifierFree
  rw [body_of_kind_ne notQuantified] at free
  exact ⟨free, scheme.closed⟩

theorem Monomorphic.instances_eq (monomorphic : tree.Monomorphic) : tree.instances = {tree} := by
  have : Nonempty (TypeId → Tree) := ⟨.var⟩
  rw [monomorphic.2.instances_eq, body_of_quantifierFree monomorphic.1]
  simp only [monomorphic.replace_eq_self, Set.range_const]

theorem Monomorphic.not_idle (monomorphic : tree.Monomorphic) : ¬tree.Idle :=
  fun idle => kind_ne_quantified monomorphic.1 idle.1

/-- The instances of a tree that is no variable are of one kind. -/
theorem kind_of_mem_instances (notVar : tree.body.kind ≠ .var) (mem : image ∈ tree.instances) :
    image.kind = tree.body.kind := by
  obtain ⟨assign, rfl⟩ := mem
  exact kind_replace notVar _

/-- A quantifier all of whose variables occur is left out if there is none. -/
theorem not_idle_quantifiedOver (free : tree.quantifierFree) {binders : List TypeId}
    (occur : ∀ id ∈ binders, id ∈ tree.occurrences) :
    ¬(tree.quantifiedOver binders).Idle := by
  rintro ⟨isQuantified, bodyClosed⟩
  rw [body_quantifiedOver free] at bodyClosed
  have noBinders : binders = [] := by
    rw [eq_nil_iff_forall_not_mem]
    intro id listed
    have absent := occur id listed
    rw [bodyClosed] at absent
    cases absent
  rw [quantifiedOver, noBinders, isEmpty_nil, if_pos rfl] at isQuantified
  exact kind_ne_quantified free isQuantified

theorem Orderly.not_idle (orderly : tree.Orderly) (free : tree.body.quantifierFree) :
    ¬tree.Idle := by
  rw [orderly]
  apply not_idle_quantifiedOver free
  intro id listed
  exact (mem_foldl_addNew.1 (mem_filter.1 listed).1).resolve_left not_mem_nil

/-- What has the only instance of a tree is that tree, or idly quantified. -/
theorem Monomorphic.eq_of_instances_subset (monomorphic : image.Monomorphic)
    (same : tree.instances ⊆ {image}) (active : ¬tree.Idle) :
    tree = image := by
  have bodyEq : tree.body = image := same tree.body_mem_instances
  have notQuantified : tree.kind ≠ .quantified := by
    intro isQuantified
    refine active ⟨isQuantified, ?_⟩
    rw [bodyEq]
    exact monomorphic.2
  rw [← body_of_kind_ne notQuantified, bodyEq]

end Schemes

section Items

variable {tree item : Tree}

theorem item?_eq_some_iff : tree.item? = some item ↔ tree = .list item ∨
    ∃ binders element, tree = .quantified binders (.list element) ∧
      item = .quantified binders element := by
  unfold item?
  split <;> simp_all [eq_comm]

theorem isSome_item? : tree.item?.isSome ↔ tree.body.kind = .list := by
  cases tree with
  | quantified binders body => cases body <;> simp [item?, body, kind]
  | _ => simp [item?, body, kind]

/-- The elements of a list are the elements of its instances. -/
theorem Scheme.of_item (scheme : tree.Scheme) (found : tree.item? = some item) :
    item.Scheme ∧ item.instances = elements tree.instances := by
  obtain rfl | ⟨binders, element, rfl, rfl⟩ := item?_eq_some_iff.1 found
  · have monomorphic := scheme.monomorphic (by simp [kind])
    have itemMono : item.Monomorphic := monomorphic.of_mem_children (by simp [children])
    refine ⟨itemMono.scheme, ?_⟩
    rw [itemMono.instances_eq, monomorphic.instances_eq]
    simp [elements]
  · obtain ⟨closed, free⟩ := scheme
    have itemClosed := Store.closed_inherited.element closed
    refine ⟨⟨itemClosed, free⟩, ?_⟩
    rw [itemClosed.instances_eq, closed.instances_eq]
    ext instanceTree
    simp [elements, body, replace]

theorem quantified_item (found : tree.item? = some item) (isQuantified : tree.kind = .quantified) :
    item.kind = .quantified := by
  obtain rfl | ⟨binders, element, rfl, rfl⟩ := item?_eq_some_iff.1 found
  · simp [kind] at isQuantified
  · rfl

theorem Idle.of_item (scheme : tree.Scheme) (found : tree.item? = some item) (idle : item.Idle) :
    tree.Idle := by
  obtain rfl | ⟨binders, element, rfl, rfl⟩ := item?_eq_some_iff.1 found
  · have monomorphic := scheme.monomorphic (by simp [kind])
    exact absurd idle (monomorphic.of_mem_children (by simp [children])).not_idle
  · exact ⟨rfl, idle.2⟩

end Items

theorem resultFor_eq_some :
    fnTree.resultFor arg = some result ↔ fnTree = .function arg result := by
  cases fnTree <;> simp [resultFor]

theorem Monomorphic.accepts_iff (monomorphic : fnTree.Monomorphic) (scheme : arg.Scheme) :
    fnTree.Accepts arg ↔ (fnTree.resultFor arg).isSome := by
  rw [isSome_iff_exists]
  simp only [resultFor_eq_some]
  constructor
  · intro accepts
    have notQuantified := kind_ne_quantified monomorphic.1
    have argMono := scheme.monomorphic (accepts.unquantified notQuantified)
    obtain ⟨result, found⟩ := accepts.takes arg (by simp [argMono.instances_eq])
    rw [monomorphic.instances_eq, Set.mem_singleton_iff] at found
    exact ⟨result, found.symm⟩
  · rintro ⟨result, rfl⟩
    have argMono : arg.Monomorphic := monomorphic.of_mem_children (by simp [children])
    refine ⟨rfl, ?_, fun _ => kind_ne_quantified argMono.1⟩
    rw [monomorphic.instances_eq, argMono.instances_eq]
    rintro _ rfl
    exact ⟨result, rfl⟩

section Equivalent

/-- Schemes with the same instances. -/
structure Equivalent (tree other : Tree) : Prop where
  /-- The first is a scheme. -/
  scheme : tree.Scheme
  /-- So is the second. -/
  otherScheme : other.Scheme
  /-- Both have the same instances. -/
  instances_eq : tree.instances = other.instances

variable {fnTree arg other otherArg : Tree}

theorem Equivalent.symm (equivalent : arg.Equivalent otherArg) :
    otherArg.Equivalent arg :=
  ⟨equivalent.otherScheme, equivalent.scheme, equivalent.instances_eq.symm⟩

theorem Equivalent.kind_body (equivalent : arg.Equivalent otherArg)
    (notVar : arg.body.kind ≠ .var) :
    otherArg.body.kind = arg.body.kind :=
  kind_of_mem_instances notVar (equivalent.instances_eq ▸ otherArg.body_mem_instances)

theorem Equivalent.eq_of_monomorphic (equivalent : arg.Equivalent otherArg)
    (monomorphic : arg.Monomorphic) (active : ¬otherArg.Idle) :
    otherArg = arg := by
  refine monomorphic.eq_of_instances_subset ?_ active
  rw [← equivalent.instances_eq, monomorphic.instances_eq]

/-- An equivalent function accepts an equivalent argument, unless that is idly
quantified. -/
theorem Accepts.of_equivalent (accepts : fnTree.Accepts arg)
    (fns : fnTree.Equivalent other) (args : arg.Equivalent otherArg) (active : ¬otherArg.Idle) :
    other.Accepts otherArg := by
  have isFunction : other.body.kind = .function := by
    rw [fns.kind_body (by simp [accepts.isFunction]), accepts.isFunction]
  have takes : Takes other.instances otherArg.instances := by
    rw [← fns.instances_eq, ← args.instances_eq]
    exact accepts.takes
  refine ⟨isFunction, takes, ?_⟩
  intro notQuantified
  have monomorphic := fns.otherScheme.monomorphic notQuantified
  rw [body_of_kind_ne notQuantified] at isFunction
  obtain ⟨domain, codomain, rfl⟩ := exists_eq_function isFunction
  have domainMono : domain.Monomorphic := monomorphic.of_mem_children (by simp [children])
  -- all instances are the parameter, so the argument is
  have argEq : otherArg = domain := by
    refine domainMono.eq_of_instances_subset ?_ active
    intro taken mem
    obtain ⟨result, found⟩ := takes taken mem
    rw [monomorphic.instances_eq, Set.mem_singleton_iff, function.injEq] at found
    exact found.1
  rw [argEq]
  exact kind_ne_quantified domainMono.1

theorem Gives.equivalent {policy otherPolicy : QuantifierPolicy} {otherResult : Tree}
    (gives : Gives policy fnTree arg result)
    (otherGives : Gives otherPolicy other otherArg otherResult)
    (fns : fnTree.Equivalent other) (args : arg.Equivalent otherArg) :
    result.Equivalent otherResult := by
  refine ⟨gives.scheme, otherGives.scheme, ?_⟩
  rw [gives.instances_eq, otherGives.instances_eq, fns.instances_eq, args.instances_eq]

/-- Equivalent lists have equivalent elements. -/
theorem Equivalent.of_item (args : arg.Equivalent otherArg) {item : Tree}
    (found : arg.item? = some item) :
    ∃ otherItem, otherArg.item? = some otherItem ∧ item.Equivalent otherItem := by
  have isList : arg.body.kind = .list := isSome_item?.1 (isSome_of_eq_some found)
  have otherIsList : otherArg.body.kind = .list := by
    rw [args.kind_body (by simp [isList]), isList]
  obtain ⟨otherItem, otherFound⟩ := isSome_iff_exists.1 (isSome_item?.2 otherIsList)
  obtain ⟨scheme, instancesEq⟩ := args.scheme.of_item found
  obtain ⟨otherScheme, otherInstancesEq⟩ := args.otherScheme.of_item otherFound
  refine ⟨otherItem, otherFound, scheme, otherScheme, ?_⟩
  rw [instancesEq, otherInstancesEq, args.instances_eq]

end Equivalent

section Corresponds

/-- What a type is without unused variables: it is invalid only if the type is, and
it has the same instances if the type is a scheme. -/
structure Corresponds (kept pruned : Tree) : Prop where
  /-- The type is closed. -/
  closed : kept.Closed
  /-- So is the other one. -/
  prunedClosed : pruned.Closed
  /-- Either both are invalid or neither is. -/
  invalid_iff : kept.body.kind = .primitive .invalid ↔ pruned.body.kind = .primitive .invalid
  /-- Schemes have the same instances. -/
  equivalent : kept.body.quantifierFree → kept.Equivalent pruned

variable {tree kept pruned : Tree}

theorem Closed.corresponds_self (closed : tree.Closed) : tree.Corresponds tree :=
  ⟨closed, closed, Iff.rfl, fun free => ⟨⟨closed, free⟩, ⟨closed, free⟩, rfl⟩⟩

theorem Equivalent.corresponds (equivalent : kept.Equivalent pruned) : kept.Corresponds pruned := by
  refine ⟨equivalent.scheme.closed, equivalent.otherScheme.closed, ?_, fun _ => equivalent⟩
  constructor
  · intro isInvalid
    rw [equivalent.kind_body (by simp [isInvalid]), isInvalid]
  · intro isInvalid
    rw [equivalent.symm.kind_body (by simp [isInvalid]), isInvalid]

/-- Lists correspond if their elements are equal where they have no quantifier. -/
theorem Corresponds.list (elements : kept.Corresponds pruned)
    (same : kept.quantifierFree → pruned = kept) :
    (list kept).Corresponds (list pruned) := by
  refine ⟨elements.closed, elements.prunedClosed, by simp [body, kind], ?_⟩
  intro free
  rw [same free]
  have closed : (Tree.list kept).Closed := elements.closed
  exact closed.corresponds_self.equivalent free

/-- What comes of a pipe comes of an equivalent one without unused variables, and
by the same way. -/
theorem Pipes.of_equivalent {policy : QuantifierPolicy} {other otherArg : Tree} {broadcast : Bool}
    {outcome : Option (Tree × Bool)} (pipes : Pipes policy fnTree arg (some (result, broadcast)))
    (otherPipes : Pipes .prune other otherArg outcome) (fns : fnTree.Equivalent other)
    (args : arg.Equivalent otherArg) (active : ¬otherArg.Idle) :
    ∃ otherResult, outcome = some (otherResult, broadcast) ∧ result.Corresponds otherResult ∧
      ¬otherResult.Idle := by
  cases pipes with
  | direct accepts gives =>
    have otherAccepts := accepts.of_equivalent fns args active
    cases otherPipes with
    | direct _ otherGives =>
      exact ⟨_, rfl, (gives.equivalent otherGives fns args).corresponds, otherGives.active rfl⟩
    | mapped otherRejects => exact absurd otherAccepts otherRejects
    | fails otherRejects => exact absurd otherAccepts otherRejects
  | @mapped item given rejects isItem accepts gives =>
    obtain ⟨otherItem, isOtherItem, items⟩ := args.of_item isItem
    have otherAccepts := accepts.of_equivalent fns items
      fun idle => active (idle.of_item args.otherScheme isOtherItem)
    cases otherPipes with
    | direct otherAccepted =>
      -- only a quantifier of the argument can be in the way, and it stays on the elements
      refine absurd ?_ rejects
      refine ⟨accepts.isFunction, ?_, ?_⟩
      · rw [fns.instances_eq, args.instances_eq]
        exact otherAccepted.takes
      · intro notQuantified isQuantified
        exact accepts.unquantified notQuantified (quantified_item isItem isQuantified)
    | mapped _ isAlsoItem _ otherGives =>
      cases isOtherItem.symm.trans isAlsoItem
      have equivalent := gives.equivalent otherGives fns items
      refine ⟨_, rfl, equivalent.corresponds.list ?_, by simp [Idle, kind]⟩
      exact fun free => equivalent.eq_of_monomorphic ⟨free, gives.scheme.closed⟩
        (otherGives.active rfl)
    | fails _ otherRejects => exact absurd otherAccepts (otherRejects otherItem isOtherItem)

end Corresponds
end Tree

namespace Store

variable {store last mid : Store} {function arg result : TypeId}

section Specialises

variable {binders : List TypeId} {parameter codomain : Tree} {fresh : List TypeId}
  {assign : TypeId → Tree} {quantifier : List TypeId} {domain image : Tree}
  {specialised : TypeId}
  (specialises : Specialises store mid binders parameter codomain arg fresh assign
    quantifier domain image specialised)
  (wf : store.WellFormed)
  (free : (Tree.function parameter codomain).quantifierFree)

include specialises wf free

/-- The instance is made by one assignment of the function's variables. -/
theorem Specialises.replace_eq :
    (Tree.function parameter codomain).replace
        (fun id => assign (Bindings.rename binders fresh id)) =
      .function (store.tree arg).body image := by
  simp only [Tree.quantifierFree, Bool.and_eq_true] at free
  rw [Tree.replace, specialises.image_eq, ← wf.tree_body, ← specialises.domain_eq_argument,
    specialises.domain_eq, Tree.rename, Tree.rename,
    Tree.replace_replace_of_quantifierFree free.1, Tree.replace_replace_of_quantifierFree free.2]
  rfl

theorem Specialises.quantifierFree_image (argFree : (store.tree arg).body.quantifierFree)
    (old : ∀ id ∈ (Tree.function parameter codomain).occurrences, id < store.size) :
    image.quantifierFree := by
  have replaceEq := specialises.replace_eq wf free
  simp only [Tree.replace, Tree.function.injEq] at replaceEq
  simp only [Tree.quantifierFree, Bool.and_eq_true] at free
  simp only [Tree.occurrences, mem_append] at old
  rw [← replaceEq.2]
  refine Tree.quantifierFree_replace free.2 ?_
  intro id occurs
  by_cases inParam : id ∈ parameter.occurrences
  · rw [← replaceEq.1] at argFree
    exact Tree.quantifierFree_of_replace free.1 argFree inParam
  · rw [specialises.assignment_eq_var]
    · rfl
    · rwa [specialises.rename_mem_occurrences_iff free.1 (fun id occurs => old id (Or.inl occurs))
        (old id (Or.inr occurs))]

variable (functionClosed : (Tree.quantified binders (.function parameter codomain)).Closed)
  (argumentClosed : (store.tree arg).Closed)
  (old : ∀ id ∈ (Tree.function parameter codomain).occurrences, id < store.size)

include functionClosed argumentClosed

/-- The function takes every instance of the argument. -/
theorem Specialises.takes :
    Tree.Takes (Tree.quantified binders (.function parameter codomain)).instances
      (store.tree arg).instances := by
  rw [functionClosed.instances_eq, argumentClosed.instances_eq]
  rintro _ ⟨outer, rfl⟩
  refine ⟨image.replace outer, ?_⟩
  have mem := Tree.range_replace_subset free
    (fun id => assign (Bindings.rename binders fresh id)) ⟨outer, rfl⟩
  rwa [specialises.replace_eq wf free] at mem

include old

/-- What the function gives are the instances of the image. -/
theorem Specialises.results_eq :
    Tree.results (Tree.quantified binders (.function parameter codomain)).instances
        (store.tree arg).instances =
      Set.range fun outer => image.replace outer := by
  have replaceEq := specialises.replace_eq wf free
  rw [functionClosed.instances_eq, argumentClosed.instances_eq]
  apply Set.Subset.antisymm
  · rintro _ ⟨_, ⟨outer, rfl⟩, inner, innerEq⟩
    change (Tree.function parameter codomain).replace inner = _ at innerEq
    simp only [Tree.replace, Tree.function.injEq] at innerEq replaceEq
    obtain ⟨paramEq, rfl⟩ := innerEq
    simp only [Tree.quantifierFree, Bool.and_eq_true] at free
    simp only [Tree.occurrences, mem_append] at old
    have injective : Set.InjOn (Bindings.rename binders fresh) {id | id < store.size} :=
      fun first firstOld second secondOld => specialises.rename_injective firstOld secondOld
    -- old variables go where the argument's go, new ones where the function's go
    refine ⟨fun leaf => if leaf < store.size then outer leaf else
      inner (Function.invFunOn (Bindings.rename binders fresh) {id | id < store.size} leaf), ?_⟩
    beta_reduce
    rw [← replaceEq.2, Tree.replace_replace_of_quantifierFree free.2]
    apply Tree.replace_congr
    intro id occurs
    have idOld := old id (Or.inr occurs)
    by_cases inParam : id ∈ parameter.occurrences
    · have agree : parameter.replace (fun id =>
          (assign (Bindings.rename binders fresh id)).replace outer) =
            parameter.replace inner := by
        rw [← Tree.replace_replace_of_quantifierFree free.1, replaceEq.1, paramEq]
      rw [← Tree.eq_of_replace_eq free.1 agree inParam]
      apply Tree.replace_congr
      intro leaf present
      have inBody : leaf ∈ (store.tree (store.body arg)).occurrences := by
        rw [wf.tree_body, ← replaceEq.1, Tree.mem_occurrences_replace free.1]
        exact ⟨id, inParam, present⟩
      exact if_pos (wf.inside_of_mem_occurrences inBody)
    · have listed : id ∈ binders := functionClosed.mem_binders (mem_append_right _ occurs)
      have isNew := specialises.size_le_of_mem (Bindings.rename_mem specialises.length_eq listed)
      rw [specialises.assignment_eq_var, Tree.replace, if_neg (Nat.not_lt_of_le isNew),
        injective.leftInvOn_invFunOn idOld]
      rwa [specialises.rename_mem_occurrences_iff free.1 (fun id occurs => old id (Or.inl occurs))
        idOld]
  · rintro _ ⟨outer, rfl⟩
    refine ⟨(store.tree arg).body.replace outer, ⟨outer, rfl⟩, ?_⟩
    have mem := Tree.range_replace_subset free
      (fun id => assign (Bindings.rename binders fresh id)) ⟨outer, rfl⟩
    rwa [replaceEq] at mem

end Specialises
end Store

namespace Checked

open Store

variable {store : Store} {function arg : TypeId}

/-- A quantified function accepts what its instances take. -/
theorem succeeds_apply_quantified (policy : QuantifierPolicy) (wf : store.WellFormed)
    (fnScheme : (store.tree function).Scheme) (argumentInside : arg < store.size)
    (argScheme : (store.tree arg).Scheme)
    (isQuantified : (store.tree function).kind = .quantified) :
    Succeeds (apply policy arg function) store fun returned last =>
      last.Follows store ∧
        (returned.isSome ↔ (store.tree function).Accepts (store.tree arg)) ∧
          ∀ result ∈ returned,
            last.Has (Tree.Gives policy (store.tree function) (store.tree arg)) result := by
  obtain ⟨binders, bodyTree, treeEq⟩ : ∃ binders body,
      store.tree function = .quantified binders body := by
    cases fnTree : store.tree function <;> rw [fnTree] at isQuantified <;>
      cases isQuantified
    exact ⟨_, _, rfl⟩
  obtain ⟨body, shapeEq, rfl⟩ := wf.shape_of_tree_quantified treeEq
  obtain ⟨functionClosed, fnFree⟩ := fnScheme
  rw [treeEq] at functionClosed fnFree
  obtain ⟨returned, ok, application⟩ := yields_apply_quantified policy wf shapeEq argumentInside
  refine ⟨returned, ok, ?_⟩
  rw [treeEq]
  cases returned with
  | none =>
    refine ⟨application.1, ?_, by simp⟩
    simp only [isSome_none, Bool.false_eq_true, false_iff]
    intro accepts
    obtain ⟨parameter, codomain, bodyEq⟩ := Tree.exists_eq_function accepts.isFunction
    have bodyFree : (Tree.function parameter codomain).quantifierFree := bodyEq ▸ fnFree
    obtain ⟨result, assign, assignEq⟩ := accepts.takes _ (store.tree arg).body_mem_instances
    change (store.tree body).replace _ = _ at assignEq
    change store.tree body = _ at bodyEq
    simp only [bodyEq, Tree.replace, Tree.function.injEq] at assignEq
    simp only [Tree.quantifierFree, Bool.and_eq_true] at bodyFree
    refine application.2 parameter codomain bodyEq bodyFree.1 assign ?_
    rw [wf.tree_body]
    exact assignEq.1
  | some result =>
    obtain ⟨parameter, codomain, fresh, assign, quantifier, domain, image, mid,
      specialised, bodyEq, specialises, built⟩ := application
    have old : ∀ id ∈ (Tree.function parameter codomain).occurrences, id < store.size := by
      rw [← bodyEq]
      exact fun id => wf.inside_of_mem_occurrences
    rw [bodyEq] at functionClosed fnFree ⊢
    have imageFree := specialises.quantifierFree_image wf fnFree argScheme.quantifierFree old
    have closed : (image.quantifiedOver (policy.keeps quantifier image)).Closed :=
      closed_inherited.image policy wf specialises functionClosed ⟨argumentInside, argScheme.closed⟩
    have bodyOver := Tree.body_quantifiedOver imageFree (policy.keeps quantifier image)
    refine ⟨built.toFollows.trans specialises.toFollows, ?_, ?_⟩
    · simp only [isSome_some, true_iff]
      exact ⟨rfl, specialises.takes wf fnFree functionClosed argScheme.closed,
        fun notQuantified => absurd rfl notQuantified⟩
    · rintro _ ⟨⟩
      refine built.has ⟨⟨closed, bodyOver.symm ▸ imageFree⟩, ?_, ?_⟩
      · rw [closed.instances_eq, bodyOver,
          specialises.results_eq wf fnFree functionClosed argScheme.closed old]
      · rintro rfl
        exact Tree.not_idle_quantifiedOver imageFree
          fun id kept => (QuantifierPolicy.mem_keeps.1 kept).2 rfl

/-- A function accepts what its instances take, and gives what they give. -/
theorem succeeds_apply_scheme (policy : QuantifierPolicy) (wf : store.WellFormed)
    (functionInside : function < store.size) (fnScheme : (store.tree function).Scheme)
    (argumentInside : arg < store.size) (argScheme : (store.tree arg).Scheme) :
    Succeeds (apply policy arg function) store fun returned last =>
      last.Follows store ∧
        (returned.isSome ↔ (store.tree function).Accepts (store.tree arg)) ∧
          ∀ result ∈ returned,
            last.Has (Gives policy (store.tree function) (store.tree arg)) result := by
  by_cases isQuantified : (store.tree function).kind = .quantified
  · exact succeeds_apply_quantified policy wf fnScheme argumentInside argScheme isQuantified
  have monomorphic := fnScheme.monomorphic isQuantified
  refine (succeeds_apply_monomorphic policy wf ⟨functionInside, rfl⟩
    ⟨argumentInside, rfl⟩ monomorphic).mono ?_
  rintro returned last ⟨follows, shown⟩
  rw [monomorphic.accepts_iff argScheme]
  generalize resultEq : (store.tree function).resultFor (store.tree arg) = tree at shown ⊢
  refine ⟨follows, ?_, ?_⟩
  · cases shown with
    | none => simp
    | some _ => simp
  · rintro result ⟨⟩
    obtain ⟨inside, rfl⟩ | _ := shown
    have fnEq := resultFor_eq_some.1 resultEq
    have resultMono : (last.tree result).Monomorphic :=
      monomorphic.of_mem_children (by simp [fnEq, children])
    have argMono : (store.tree arg).Monomorphic :=
      monomorphic.of_mem_children (by simp [fnEq, children])
    refine ⟨inside, resultMono.scheme, ?_, fun _ => resultMono.not_idle⟩
    rw [monomorphic.instances_eq, resultMono.instances_eq, argMono.instances_eq, fnEq]
    simp [results]

/-- The element of a list comes under the list's quantifier. -/
theorem succeeds_elementOf?_item (wf : store.WellFormed) (argumentInside : arg < store.size) :
    Succeeds (elementOf? arg) store fun returned last =>
      last.Follows store ∧ Option.Rel last.Shows returned (store.tree arg).item? := by
  refine (succeeds_elementOf? wf argumentInside).mono ?_
  rintro _ last ⟨follows, ofArgument⟩
  refine ⟨follows, ?_⟩
  cases ofArgument with
  | direct shapeEq inside =>
    rw [wf.tree_of_list shapeEq]
    exact .some (follows.shows wf ⟨inside, rfl⟩)
  | quantified shapeEq bodyEq built =>
    rw [wf.tree_of_quantified shapeEq, wf.tree_of_list bodyEq]
    exact .some built.shows
  | none notList =>
    rw [isList, isKind, ← Store.kind_tree, wf.tree_body, decide_eq_true_eq] at notList
    rw [← isSome_item?, not_isSome_iff_eq_none] at notList
    rw [notList]
    exact .none

/-- A pipe tries the argument itself and then its elements. -/
theorem succeeds_pipe_scheme (policy : QuantifierPolicy) (wf : store.WellFormed)
    (functionInside : function < store.size) (fnScheme : (store.tree function).Scheme)
    (argumentInside : arg < store.size) (argScheme : (store.tree arg).Scheme) :
    Succeeds (pipe policy arg function) store fun returned last =>
      last.Follows store ∧ ∃ outcome,
        Pipes policy (store.tree function) (store.tree arg) outcome ∧
          Option.Rel (fun piped result => last.Shows piped.result result.1 ∧
            piped.broadcast = result.2) returned outcome := by
  refine (succeeds_apply_scheme policy wf functionInside fnScheme argumentInside argScheme).bind ?_
  rintro returned mid ⟨follows, accepts, gives⟩
  cases returned with
  | some type =>
    obtain ⟨inside, typeGives⟩ := gives type rfl
    exact succeeds_pure ⟨follows, _, .direct (accepts.1 rfl) typeGives, .some ⟨⟨inside, rfl⟩, rfl⟩⟩
  | none =>
    have rejects : ¬(store.tree function).Accepts (store.tree arg) :=
      fun accepted => by cases accepts.2 accepted
    have stillArg := follows.shows wf ⟨argumentInside, rfl⟩
    refine (succeeds_elementOf?_item follows.wellFormed stillArg.1).bind ?_
    rintro element later ⟨laterFollows, elementShown⟩
    have bothFollow := laterFollows.trans follows
    rw [stillArg.2] at elementShown
    generalize itemEq : (store.tree arg).item? = item at elementShown
    cases elementShown with
    | none => exact succeeds_pure ⟨bothFollow, none, .fails rejects (by simp [itemEq]), .none⟩
    | @some element item shown =>
      obtain ⟨elementInside, rfl⟩ := shown
      have stillFn := bothFollow.shows wf ⟨functionInside, rfl⟩
      refine (succeeds_apply_scheme policy laterFollows.wellFormed stillFn.1
        (stillFn.2.symm ▸ fnScheme) elementInside (argScheme.of_item itemEq).1).bind ?_
      rintro mapped last ⟨lastFollows, acceptsItem, givesItem⟩
      have allFollow := lastFollows.trans bothFollow
      rw [stillFn.2] at acceptsItem givesItem
      cases mapped with
      | none =>
        refine succeeds_pure ⟨allFollow, none, .fails rejects ?_, .none⟩
        rw [itemEq]
        rintro _ ⟨⟩ accepted
        cases acceptsItem.2 accepted
      | some type =>
        obtain ⟨typeInside, typeGives⟩ := givesItem type rfl
        refine (succeeds_lift (Alloc.yields_list lastFollows.wellFormed typeInside)).bind ?_
        rintro id final ⟨built, _⟩
        exact succeeds_pure ⟨built.toFollows.trans allFollow, _,
          .mapped rejects itemEq (acceptsItem.1 rfl) typeGives, .some ⟨built.shows, rfl⟩⟩

end Checked

/-- What unification of type schemes finds: a scheme of the common instances, and
an idle one only for a type with itself. -/
structure Store.Unified (store last : Store) (left right : TypeId) (found : Option TypeId) :
    Prop where
  /-- No type has changed. -/
  follows : last.Follows store
  /-- A type is found if there are common instances. -/
  isSome_iff : found.isSome ↔ ((store.tree left).instances ∩ (store.tree right).instances).Nonempty
  /-- It is a scheme. -/
  scheme : ∀ type ∈ found, last.Has Scheme type
  /-- It has the common instances. -/
  instances_eq : ∀ type ∈ found,
    (last.tree type).instances = (store.tree left).instances ∩ (store.tree right).instances
  /-- A type unifies with itself to itself. -/
  self : left = right → found = some left
  /-- Only then is it idly quantified. -/
  idle : ∀ type ∈ found, (last.tree type).Idle → left = right

theorem Alloc.yields_unify_scheme {store : Store} (wf : store.WellFormed) {left right : TypeId}
    (leftHas : store.Has Scheme left) (rightHas : store.Has Scheme right) :
    Yields (Alloc.unify left right) store fun found last =>
      Store.Unified store last left right found := by
  obtain ⟨leftInside, leftScheme⟩ := leftHas
  obtain ⟨rightInside, rightScheme⟩ := rightHas
  have closed := Store.closed_inherited.yields_unify wf ⟨leftInside, leftScheme.closed⟩
    ⟨rightInside, rightScheme.closed⟩
  have joins := Store.yields_unify_joins wf leftInside rightInside
    leftScheme.quantifierFree rightScheme.quantifierFree
  refine ⟨joins.follows, joins.isSome_iff, ?_, joins.instances_eq, joins.self, ?_⟩
  · intro type isFound
    exact ⟨joins.inside type isFound, (closed.2 type isFound).2, joins.quantifierFree type isFound⟩
  · intro type isFound idle
    by_contra different
    exact (joins.orderly different type isFound).not_idle (joins.quantifierFree type isFound) idle

end PipeCheck
