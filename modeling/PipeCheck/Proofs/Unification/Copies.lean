import Mathlib.Tactic.Choose
import PipeCheck.Proofs.Properties.Closedness
import PipeCheck.Proofs.Store.Printing
import PipeCheck.Proofs.Reading.Recognition

/-!
# Unifying two readings of one text

A text that is read twice gives two types with variables of their own.  If no
quantifier stands below the outermost one, unification returns the type again,
up to the names of bound variables and without those that do not occur.
Otherwise it returns no type: variables of inner quantifiers are compared by
identity, and each reading has created its own.
-/

namespace PipeCheck

open List PipeCheck.Tree

namespace Tree

section Variants

/-- The tree whose outermost quantifier lists the variables that occur below it,
in order of first occurrence. -/
def trimmed (tree : Tree) : Tree :=
  tree.body.quantifiedOver (tree.body.occurrences.foldl addNew [])

variable {tree image : Tree}

theorem relabel_eq_replace (free : tree.quantifierFree) (label : TypeId → TypeId) :
    tree.relabel label = tree.replace fun id => .var (label id) := by
  induction tree, free using inductionOnFree with
  | primitive which => rfl
  | function domain codomain domainIH codomainIH =>
    rw [relabel, replace, domainIH, codomainIH]
  | list element elementIH => rw [relabel, replace, elementIH]
  | tuple parts partIH =>
    rw [relabel, replace, relabelAll_eq_map, replaceAll_eq_map]
    congr 1
    apply map_congr_left
    intro component mem
    exact partIH component mem
  | var id => rfl

theorem exists_var_of_replace_eq_var {assign : TypeId → Tree} {id : TypeId}
    (replaced : tree.replace assign = .var id) :
    ∃ leaf, tree = .var leaf ∧ assign leaf = .var id := by
  cases tree with
  | var leaf => exact ⟨leaf, rfl, replaced⟩
  | _ => cases replaced

/-- Trees that become each other by replacement differ in labels only. -/
theorem exists_relabel_of_replace (free : tree.quantifierFree) {there back : TypeId → Tree}
    (imageEq : tree.replace there = image) (treeEq : image.replace back = tree) :
    ∃ label, Set.InjOn label {id | id ∈ tree.occurrences} ∧ image = tree.relabel label := by
  have returns : tree.replace (fun id => (there id).replace back) = tree.replace .var := by
    rw [← replace_replace_of_quantifierFree free, imageEq, treeEq, replace_var]
  have labels : ∀ id ∈ tree.occurrences, ∃ leaf, there id = .var leaf ∧ back leaf = .var id :=
    fun id occurs => exists_var_of_replace_eq_var (eq_of_replace_eq free returns occurs)
  choose! label labelEq backEq using labels
  refine ⟨label, ?_, ?_⟩
  · intro first firstOccurs second secondOccurs same
    have firstBack := backEq first firstOccurs
    rw [same, backEq second secondOccurs, var.injEq] at firstBack
    exact firstBack.symm
  · rw [relabel_eq_replace free, ← imageEq]
    exact replace_congr labelEq

/-- What has the same instances and lists its variables in order of occurrence is
the same tree, up to labels and unused variables. -/
theorem alphaEq_trimmed_of_instances_eq (free : tree.body.quantifierFree)
    (same : image.instances = tree.instances) (imageEq : image = image.trimmed) :
    image.AlphaEq tree.trimmed := by
  obtain ⟨there, thereEq⟩ := same ▸ image.body_mem_instances
  obtain ⟨back, backEq⟩ := same.symm ▸ tree.body_mem_instances
  obtain ⟨label, injective, bodyEq⟩ := exists_relabel_of_replace free thereEq backEq
  have listed : tree.body.occurrences.foldl addNew [] ⊆ tree.body.occurrences := by
    intro id mem
    exact (mem_foldl_addNew.1 mem).resolve_left not_mem_nil
  have occurs : tree.body.occurrences ⊆ tree.body.occurrences.foldl addNew [] := fun id mem =>
    mem_foldl_addNew.2 (.inr mem)
  have order : image.body.occurrences.foldl addNew [] =
      (tree.body.occurrences.foldl addNew []).map label := by
    rw [bodyEq, occurrences_relabel free]
    exact foldl_addNew_map injective (List.Subset.refl _) (nil_subset _)
  rw [AlphaEq, imageEq, trimmed, trimmed, order, bodyEq, nameless_quantifiedOver,
    nameless_quantifiedOver, isEmpty_map, length_map,
    namelessUnder_relabel free (injective.mono listed) occurs]

end Variants

section Quantifiers

variable {tree image : Tree}

theorem quantifierFree_of_lists_eq_nil (noLists : tree.lists = []) : tree.quantifierFree := by
  induction tree with
  | primitive which => rfl
  | function domain codomain domainIH codomainIH =>
    rw [lists, append_eq_nil_iff] at noLists
    rw [quantifierFree, domainIH noLists.1, codomainIH noLists.2]
    rfl
  | list element elementIH => exact elementIH noLists
  | tuple parts partIH =>
    rw [lists, listsAll_eq_flatMap, flatMap_eq_nil_iff] at noLists
    rw [quantifierFree, quantifierFreeAll_eq_all, all_eq_true]
    exact fun component mem =>
      partIH component mem (noLists component mem)
  | var id => rfl
  | quantified binders body bodyIH => cases noLists

/-- No quantifier can list variables from both of two ranges. -/
theorem ListsWithin.quantifierFree {low middle high : Nat} (below : tree.ListsWithin low middle)
    (above : tree.ListsWithin middle high) :
    tree.quantifierFree := by
  apply quantifierFree_of_lists_eq_nil
  rw [eq_nil_iff_forall_not_mem]
  intro binders mem
  obtain ⟨nonempty, small⟩ := below binders mem
  obtain ⟨id, listed⟩ := exists_mem_of_ne_nil binders nonempty
  exact Nat.not_lt_of_le ((above binders mem).2 id listed).1 (small id listed).2

/-- At some place both trees have a quantifier, and the two list different
variables. -/
inductive Discord : Tree → Tree → Prop
  | quantified {binders others : List TypeId} {body image : Tree} :
      binders ≠ others → Discord (.quantified binders body) (.quantified others image)
  | domain {domain codomain otherDomain otherCodomain : Tree} :
      Discord domain otherDomain →
      Discord (.function domain codomain) (.function otherDomain otherCodomain)
  | codomain {domain codomain otherDomain otherCodomain : Tree} :
      Discord codomain otherCodomain →
      Discord (.function domain codomain) (.function otherDomain otherCodomain)
  | list {element other : Tree} : Discord element other → Discord (.list element) (.list other)
  | component {first other : Tree} {rest others : List Tree} :
      Discord first other → Discord (.tuple (first :: rest)) (.tuple (other :: others))
  | further {first other : Tree} {rest others : List Tree} :
      Discord (.tuple rest) (.tuple others) →
      Discord (.tuple (first :: rest)) (.tuple (other :: others))

theorem Discord.ne (discord : tree.Discord image) : tree ≠ image := by
  induction discord with
  | quantified different => simp [different]
  | domain _ different => simp [different]
  | codomain _ different => simp [different]
  | list _ different => simp [different]
  | component _ different => simp [different]
  | further _ different =>
    simp only [ne_eq, tuple.injEq] at different
    simp [different]

/-- Replacement does not reach what quantifiers list. -/
theorem Discord.replace (discord : tree.Discord image) (assign other : TypeId → Tree) :
    (tree.replace assign).Discord (image.replace other) := by
  induction discord with
  | quantified different => exact .quantified different
  | domain _ ih => exact .domain ih
  | codomain _ ih => exact .codomain ih
  | list _ ih => exact .list ih
  | component _ ih => exact .component ih
  | further _ ih => exact .further ih

end Quantifiers

end Tree

namespace Written

variable {written : Written} {tree image : Tree} {lookup other : String → TypeId}

/-- The written type without an outermost quantifier. -/
def body : Written → Written
  | .quantified _ body => body
  | written => written

section Names

variable {names : List String} {ids : List TypeId} {name : String}

theorem exists_bind_of_mem (lookup : String → TypeId) (lengthEq : ids.length = names.length)
    (listed : name ∈ names) :
    ∃ id, bind names ids lookup name = id ∧ (name, id) ∈ names.zip ids := by
  obtain ⟨earlier, later, zipEq, _⟩ := exists_zip_of_mem lookup lengthEq listed
  refine ⟨_, rfl, ?_⟩
  rw [zipEq]
  simp

theorem eq_of_mem_zip (nodup : ids.Nodup) {second : String} {id : TypeId}
    (first : (name, id) ∈ names.zip ids) (again : (second, id) ∈ names.zip ids) :
    name = second := by
  obtain ⟨place, inside, placeEq⟩ := mem_iff_getElem.1 first
  obtain ⟨otherPlace, otherInside, otherEq⟩ := mem_iff_getElem.1 again
  rw [getElem_zip, Prod.mk.injEq] at placeEq otherEq
  obtain rfl := (nodup.getElem_inj_iff).1 (placeEq.2.trans otherEq.2.symm)
  exact placeEq.1.symm.trans otherEq.1

/-- Under a quantifier different names stand for different variables, if they do
outside. -/
theorem injOn_bind {body : Written} (lengthEq : ids.length = names.length) (nodup : ids.Nodup)
    (outside : ∀ name ∈ (quantified names body).unbound, lookup name ∉ ids)
    (injective : Set.InjOn lookup {name | name ∈ (quantified names body).unbound}) :
    Set.InjOn (bind names ids lookup) {name | name ∈ body.unbound} := by
  have isUnbound : ∀ {name}, name ∈ body.unbound → name ∉ names →
      name ∈ (quantified names body).unbound := by
    intro name occurs absent
    simp [unbound, occurs, absent]
  intro first firstOccurs second secondOccurs same
  by_cases firstListed : first ∈ names
  · obtain ⟨id, firstEq, firstMem⟩ := exists_bind_of_mem lookup lengthEq firstListed
    by_cases secondListed : second ∈ names
    · obtain ⟨secondId, secondEq, secondMem⟩ := exists_bind_of_mem lookup lengthEq secondListed
      obtain rfl : id = secondId := firstEq.symm.trans (same.trans secondEq)
      exact eq_of_mem_zip nodup firstMem secondMem
    · rw [firstEq, bind_of_notMem lengthEq secondListed] at same
      exact absurd (same ▸ (of_mem_zip firstMem).2)
        (outside second (isUnbound secondOccurs secondListed))
  · rw [bind_of_notMem lengthEq firstListed] at same
    by_cases secondListed : second ∈ names
    · obtain ⟨id, secondEq, secondMem⟩ := exists_bind_of_mem lookup lengthEq secondListed
      rw [secondEq] at same
      exact absurd (same ▸ (of_mem_zip secondMem).2)
        (outside first (isUnbound firstOccurs firstListed))
    · rw [bind_of_notMem lengthEq secondListed] at same
      exact injective (isUnbound firstOccurs firstListed) (isUnbound secondOccurs secondListed) same

end Names

/-- Below its quantifier what is denoted means the written body, different names
standing for different variables. -/
theorem Denotes.exists_lookup (denotes : written.Denotes tree) :
    ∃ lookup, Set.InjOn lookup {name | name ∈ written.body.unbound} ∧
      written.body.Means lookup tree.body := by
  obtain ⟨lookup, inner, means, nodup, rfl⟩ := denotes
  have injective : Set.InjOn lookup {name | name ∈ written.unbound} := by
    intro first firstOccurs second secondOccurs same
    exact inj_on_of_nodup_map nodup (mem_foldl_addNew.2 (.inr firstOccurs))
      (mem_foldl_addNew.2 (.inr secondOccurs)) same
  have bodyEq : (inner.generalised ((written.unbound.foldl addNew []).map lookup)).body =
      inner.body := by
    unfold generalised
    split <;> rfl
  rw [bodyEq]
  cases means with
  | quantified lengthEq idsNodup outside bodyMeans =>
    exact ⟨_, injOn_bind lengthEq idsNodup outside injective, bodyMeans⟩
  | primitive => exact ⟨lookup, injective, .primitive⟩
  | var => exact ⟨lookup, injective, .var⟩
  | list elementMeans => exact ⟨lookup, injective, .list elementMeans⟩
  | noComponent => exact ⟨lookup, injective, .noComponent⟩
  | component firstMeans restMeans => exact ⟨lookup, injective, .component firstMeans restMeans⟩
  | function domainMeans codomainMeans =>
    exact ⟨lookup, injective, .function domainMeans codomainMeans⟩

section

variable (means : written.Means lookup tree) (otherMeans : written.Means other image)

include means otherMeans

/-- Two trees that one written type means agree wherever what its names stand for
does. -/
theorem Means.replace_eq (free : tree.quantifierFree) {assign otherAssign : TypeId → Tree}
    (agree : ∀ name ∈ written.unbound, assign (lookup name) = otherAssign (other name)) :
    tree.replace assign = image.replace otherAssign := by
  induction means generalizing image with
  | primitive =>
    cases otherMeans
    rfl
  | var =>
    cases otherMeans
    exact agree _ mem_cons_self
  | list _ ih =>
    cases otherMeans with
    | list otherElement =>
      rw [Tree.replace, Tree.replace, ih otherElement free agree]
  | noComponent =>
    cases otherMeans
    rfl
  | component _ _ firstIH restIH =>
    cases otherMeans with
    | component otherFirst otherRest =>
      simp only [Tree.quantifierFree, Tree.quantifierFreeAll, Bool.and_eq_true] at free
      simp only [unbound, unboundAll, mem_append] at agree
      have firstEq := firstIH otherFirst free.1 fun name occurs =>
        agree name (.inl occurs)
      have restEq := restIH otherRest free.2 fun name occurs =>
        agree name (.inr occurs)
      simp only [Tree.replace, Tree.tuple.injEq] at restEq
      rw [Tree.replace, Tree.replace, Tree.replaceAll, Tree.replaceAll, firstEq, restEq]
  | function _ _ domainIH codomainIH =>
    cases otherMeans with
    | function otherDomain otherCodomain =>
      simp only [Tree.quantifierFree, Bool.and_eq_true] at free
      simp only [unbound, mem_append] at agree
      rw [Tree.replace, Tree.replace,
        domainIH otherDomain free.1 fun name occurs => agree name (.inl occurs),
        codomainIH otherCodomain free.2 fun name occurs => agree name (.inr occurs)]
  | quantified => simp [Tree.quantifierFree] at free

/-- One tree that a written type means becomes another by renaming. -/
theorem Means.exists_replace (free : tree.quantifierFree)
    (injective : Set.InjOn lookup {name | name ∈ written.unbound}) :
    ∃ label : TypeId → TypeId, tree.replace (fun id => .var (label id)) = image := by
  refine ⟨fun id => other (Function.invFunOn lookup {name | name ∈ written.unbound} id), ?_⟩
  rw [← image.replace_var]
  refine means.replace_eq otherMeans free ?_
  intro name occurs
  exact congrArg (fun name => Tree.var (other name)) (injective.leftInvOn_invFunOn occurs)

/-- Where a written type has quantifiers, two trees that it means list different
variables there, if they list variables from different ranges. -/
theorem Means.discord {low middle high : Nat} (below : tree.ListsWithin low middle)
    (above : image.ListsWithin middle high) (nested : ¬tree.quantifierFree) :
    tree.Discord image := by
  induction means generalizing image other with
  | primitive => exact absurd rfl nested
  | var => exact absurd rfl nested
  | list _ ih =>
    cases otherMeans with
    | list otherElement =>
      exact .list (ih otherElement below above nested)
  | noComponent => exact absurd rfl nested
  | @component _ _ _ first rest _ _ firstIH restIH =>
    cases otherMeans with
    | component otherFirst otherRest =>
      have belowEach := forall_mem_append.1 below
      have aboveEach := forall_mem_append.1 above
      by_cases firstFree : first.quantifierFree
      · refine .further (restIH otherRest belowEach.2 aboveEach.2 ?_)
        intro restFree
        apply nested
        simp only [quantifierFree, quantifierFreeAll, firstFree, Bool.true_and]
        exact restFree
      · exact .component (firstIH otherFirst belowEach.1 aboveEach.1 firstFree)
  | @function _ _ _ domain codomain _ _ domainIH codomainIH =>
    cases otherMeans with
    | function otherDomain otherCodomain =>
      have belowEach := forall_mem_append.1 below
      have aboveEach := forall_mem_append.1 above
      by_cases domainFree : domain.quantifierFree
      · refine .codomain (codomainIH otherCodomain belowEach.2 aboveEach.2 ?_)
        intro codomainFree
        exact nested (by rw [quantifierFree, domainFree, codomainFree]; rfl)
      · exact .domain (domainIH otherDomain belowEach.1 aboveEach.1 domainFree)
  | quantified =>
    cases otherMeans with
    | quantified =>
      refine .quantified ?_
      rintro rfl
      obtain ⟨nonempty, small⟩ := below _ mem_cons_self
      obtain ⟨id, listed⟩ := exists_mem_of_ne_nil _ nonempty
      exact Nat.not_lt_of_le ((above _ mem_cons_self).2 id listed).1 (small id listed).2

end

/-- Closed trees that one written type means below their quantifiers have the
same instances. -/
theorem Means.instances_eq (means : written.Means lookup tree.body)
    (otherMeans : written.Means other image.body) (closed : tree.Closed)
    (imageClosed : image.Closed) (free : tree.body.quantifierFree)
    (injective : Set.InjOn lookup {name | name ∈ written.unbound})
    (otherInjective : Set.InjOn other {name | name ∈ written.unbound}) :
    image.body.quantifierFree ∧ tree.instances = image.instances := by
  obtain ⟨label, imageEq⟩ := means.exists_replace otherMeans free injective
  have imageFree : image.body.quantifierFree := by
    rw [← imageEq]
    exact quantifierFree_replace free fun _ _ => rfl
  obtain ⟨back, treeEq⟩ := otherMeans.exists_replace means imageFree otherInjective
  refine ⟨imageFree, ?_⟩
  rw [closed.instances_eq, imageClosed.instances_eq]
  apply Set.Subset.antisymm
  · rw [← treeEq]
    exact range_replace_subset imageFree _
  · rw [← imageEq]
    exact range_replace_subset free _

end Written

namespace Store

variable {start first middle later store last : Store} {left right : TypeId}
  {leftVars rightVars : List TypeId} {leftBody rightBody : TypeId}

/-- Stripped types do not agree where their inner quantifiers list different
variables. -/
theorem Strips.not_agree
    (strips : Strips store first middle left right leftVars leftBody rightVars rightBody)
    (wf : store.WellFormed) (rightInside : right < store.size)
    (discord : (store.tree left).body.Discord (store.tree right).body) (assign : TypeId → Tree) :
    ¬middle.Agree assign [(leftBody, rightBody)] := by
  intro agree
  have equal := agree (leftBody, rightBody) mem_cons_self
  have leftTree := strips.right.grown.tree_eq strips.left.wellFormed strips.left.inside
  have rightTree := strips.left.grown.tree_eq wf (wf.body_inside rightInside)
  rw [leftTree, strips.left.tree_eq, strips.right.tree_eq, rightTree, wf.tree_body,
    wf.tree_body] at equal
  exact ((discord.replace _ _).replace assign assign).ne equal

/-- A closed type that is rebuilt without inner quantifiers lists the variables
that occur, in order. -/
theorem Rebuilds.tree_eq_trimmed {bindable binders : List TypeId} {bindings : Bindings}
    {source result : TypeId} {body : Tree}
    (rebuilds : Rebuilds middle last bindable bindings source result binders body)
    (free : body.quantifierFree) (closed : (body.quantifiedOver binders).Closed) :
    last.tree result = (last.tree result).trimmed := by
  have bindersEq : binders = body.occurrences.foldl addNew [] := by
    rw [rebuilds.binders_eq, filter_eq_self]
    intro leaf mem
    have occurs := (mem_foldl_addNew.1 mem).resolve_left not_mem_nil
    rw [closed_quantifiedOver_iff] at closed
    simpa using ((rebuilds.mem_binders leaf).1 (closed leaf occurs)).2
  rw [rebuilds.tree_eq, trimmed, body_quantifiedOver free, ← bindersEq]

/-- A type that a written type denotes, read in a store. -/
structure ReadFrom (written : Written) (start last : Store) (id : TypeId) : Prop
    extends last.Follows start where
  /-- The type is closed. -/
  closedType : last.ClosedType id
  /-- It lists variables that the reading has created. -/
  lists : (last.tree id).ListsWithin start.size last.size
  /-- It is what is written. -/
  denotes : written.Denotes (last.tree id)

/-- Two closed types that are the same below their outermost quantifiers, but for
the variables: these are others, also those of inner quantifiers. -/
structure Copies (store : Store) (left right : TypeId) : Prop where
  /-- The left type is closed. -/
  leftClosed : store.ClosedType left
  /-- So is the right one. -/
  rightClosed : store.ClosedType right
  /-- Without inner quantifiers they have the same instances. -/
  same : (store.tree left).body.quantifierFree → (store.tree right).body.quantifierFree ∧
    (store.tree left).instances = (store.tree right).instances
  /-- Otherwise inner ones list different variables. -/
  discord : ¬(store.tree left).body.quantifierFree →
    (store.tree left).body.Discord (store.tree right).body
  /-- Only a type without quantifiers is its own copy. -/
  shared : left = right → (store.tree left).quantifierFree

/-- What has been read twice are copies. -/
theorem ReadFrom.copies {written : Written} (leftRead : ReadFrom written start middle left)
    (follows : later.Follows middle) (rightRead : ReadFrom written later store right) :
    Copies store left right := by
  have grown := rightRead.toFollows.trans follows
  have treeEq : store.tree left = middle.tree left :=
    grown.grown.tree_eq leftRead.wellFormed leftRead.closedType.1
  have leftLists : (store.tree left).ListsWithin start.size later.size := by
    rw [treeEq]
    exact leftRead.lists.mono Nat.le.refl follows.grown.size_le
  have leftClosed := grown.closedType leftRead.wellFormed leftRead.closedType
  obtain ⟨lookup, injective, means⟩ := leftRead.denotes.exists_lookup
  obtain ⟨other, otherInjective, otherMeans⟩ := rightRead.denotes.exists_lookup
  rw [← treeEq] at means
  refine ⟨leftClosed, rightRead.closedType, ?_, ?_, ?_⟩
  · intro free
    exact means.instances_eq otherMeans leftClosed.2 rightRead.closedType.2 free injective
      otherInjective
  · exact means.discord otherMeans leftLists.body rightRead.lists.body
  · rintro rfl
    exact leftLists.quantifierFree rightRead.lists

end Store

namespace Alloc

open Store

variable {start middle later store : Store} {left right : TypeId} {text : String}
  {written : Written}

/-- Copies are unified exactly if they have no inner quantifiers. -/
theorem yields_unify_copies (wf : store.WellFormed) (copies : Copies store left right) :
    Yields (unify left right) store fun result last =>
      (result.isSome ↔ (store.tree left).body.quantifierFree) ∧
        ∀ type, result = some type → (last.tree type).AlphaEq (store.tree left).trimmed := by
  by_cases different : left = right
  · have free := copies.shared different
    unfold unify
    rw [if_pos different, yields_pure]
    refine ⟨by simp [body_of_quantifierFree free, free], ?_⟩
    rintro _ ⟨⟩
    have closed : (store.tree left).occurrences = [] := copies.leftClosed.2
    rw [AlphaEq, trimmed, body_of_quantifierFree free, closed]
    rfl
  refine (yields_unify wf different copies.leftClosed.1 copies.rightClosed.1).mono ?_
  rintro result last ⟨first, middle, leftVars, leftBody, rightVars, rightBody, strips, unification⟩
  have rightInside := copies.rightClosed.1
  cases result with
  | none =>
    refine ⟨?_, by simp⟩
    simp only [Option.isSome_none, Bool.false_eq_true, false_iff]
    intro free
    obtain ⟨rightFree, same⟩ := copies.same free
    have nothing := strips.inter_eq_empty wf rightInside free rightFree unification.2
    rw [← same, Set.inter_self] at nothing
    exact Set.notMem_empty _ (nothing ▸ (store.tree left).body_mem_instances)
  | some result =>
    obtain ⟨bindings, binders, body, unifies, rebuilds⟩ := unification
    have free : (store.tree left).body.quantifierFree := by
      by_contra nested
      obtain ⟨assign, solved, _⟩ := unifies.sound.exists_solvedBy strips.right.wellFormed
        strips.vars .var
      exact strips.not_agree wf rightInside (copies.discord nested) assign
        ((unifies.solvedBy_iff fun _ _ found => by cases found).1 solved)
    refine ⟨by simp [free], ?_⟩
    rintro _ ⟨⟩
    obtain ⟨rightFree, same⟩ := copies.same free
    have instancesEq := strips.instances_eq_inter wf rightInside free rightFree unifies rebuilds
    rw [← same, Set.inter_self] at instancesEq
    have stripped := strips.quantifierFree wf rightInside free rightFree
    have bodyFree := (rebuilds.replace_body unifies strips.right.wellFormed stripped.1 stripped.2).1
    have closed : (body.quantifiedOver binders).Closed := closed_inherited.common wf
      strips unifies rebuilds copies.leftClosed copies.rightClosed
    exact alphaEq_trimmed_of_instances_eq free instancesEq
      (rebuilds.tree_eq_trimmed bodyFree closed)

theorem succeeds_readFrom (wf : start.WellFormed) (isText : written.IsText text) :
    Succeeds (read text) start fun id last => ReadFrom written start last id := by
  obtain ⟨follows, closed⟩ := keeps_read wf text
  obtain ⟨id, ok, denotes⟩ := succeeds_read wf isText
  exact ⟨id, ok, follows, (closed id ok).1, (closed id ok).2.1, denotes⟩

/-- A text that is read can be read again later, and the two types are unified
exactly if no quantifier stands below the outermost one.  Then the result is the
type up to the names of bound variables, listing those that occur. -/
theorem unify_read_read (wellFormed : start.WellFormed)
    (leftRead : (read text).run.run start = (.ok left, middle)) (follows : later.Follows middle) :
    Succeeds (read text) later fun right store =>
      Yields (unify left right) store fun result last =>
        (result.isSome ↔ (store.tree left).body.quantifierFree) ∧
          ∀ type, result = some type → (last.tree type).AlphaEq (store.tree left).trimmed := by
  obtain ⟨written, isText⟩ := exists_isText_of_read leftRead
  have leftFrom : ReadFrom written start middle left :=
    (succeeds_readFrom wellFormed isText).ensures left middle leftRead
  refine (succeeds_readFrom follows.wellFormed isText).mono ?_
  intro right store rightFrom
  exact yields_unify_copies rightFrom.wellFormed (leftFrom.copies follows rightFrom)

/-- A quantifier that lists an unused variable, and the others in another order
than they occur. -/
def pairing : String :=
  "forall 'b, 'a, 'c. ('a, ['b]) -> 'b -> 'a"

/-- A type that has been read once. -/
def pairingRead : Store :=
  ((read pairing).run.run empty).2

theorem unify_read_pairing :
    empty.WellFormed ∧ (read pairing).run.run empty = (.ok 7, pairingRead) ∧
      (pairingRead.tree 7).body.quantifierFree ∧
      Succeeds (read pairing) pairingRead fun right store =>
        Yields (unify 7 right) store fun result last =>
          (result.isSome ↔ (store.tree 7).body.quantifierFree) ∧
            ∀ type, result = some type → (last.tree type).AlphaEq (store.tree 7).trimmed := by
  have runEq : (read pairing).run.run empty = (.ok 7, pairingRead) :=
    Prod.ext (by decide +kernel) (by simp only [pairingRead])
  have wellFormed : pairingRead.WellFormed := by decide +kernel
  exact ⟨wellFormed_empty, runEq, by decide +kernel,
    unify_read_read wellFormed_empty runEq wellFormed.follows_self⟩

/-- A quantifier inside a list. -/
def inner : String :=
  "[forall 'a. 'a]"

/-- The type with a quantifier inside, read once. -/
def innerRead : Store :=
  ((read inner).run.run empty).2

/-- Two readings with a quantifier inside have no common type. -/
theorem unify_inner_inner :
    (read inner).run.run empty = (.ok 2, innerRead) ∧
      ((read inner).run.run innerRead).1 = .ok 5 ∧
        ((unify 2 5).run ((read inner).run.run innerRead).2).1 = none :=
  ⟨Prod.ext (by decide +kernel) (by simp only [innerRead]), by decide +kernel, by decide +kernel⟩

end Alloc
end PipeCheck
