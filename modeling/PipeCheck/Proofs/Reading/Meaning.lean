import PipeCheck.Proofs.Reading.Grammar
import PipeCheck.Proofs.Reading.ClosedTypes

/-!
# What a written type means

A written type means a tree once it is known what its unbound names stand for.
While a type is read, names are resolved in the order of the text: a name means
the innermost variable in scope that has it, or else the unbound variable of
that name, which is new at its first appearance.
-/

namespace PipeCheck

open List Option

namespace Written

mutual

/-- The names outside every quantifier that binds them, from left to right. -/
def unbound : Written → List String
  | .primitive _ => []
  | .var name => [name]
  | .list element => element.unbound
  | .tuple components => unboundAll components
  | .function domain codomain => domain.unbound ++ codomain.unbound
  | .quantified names body => body.unbound.filter fun name => !names.contains name

/-- The names outside every quantifier in several written types. -/
def unboundAll : List Written → List String
  | [] => []
  | written :: rest => written.unbound ++ unboundAll rest

end

@[simp] theorem unboundAll_eq_flatMap (all : List Written) :
    unboundAll all = all.flatMap unbound := by
  induction all with
  | nil => rfl
  | cons written rest ih => simp [unboundAll, ih]

/-- What names stand for under a quantifier.  Where its list repeats a name the
last variable counts. -/
def bind (names : List String) (ids : List TypeId) (lookup : String → TypeId) :
    String → TypeId :=
  fun name => ((names.zip ids).reverse.lookup name).getD (lookup name)

/-- The tree that a written type means, given what names stand for.  A quantifier
lists different variables, and it catches no variable that comes from
outside. -/
inductive Means : (String → TypeId) → Written → Tree → Prop
  | primitive {lookup : String → TypeId} {which : Primitive} :
      Means lookup (.primitive which) (.primitive which)
  | var {lookup : String → TypeId} {name : String} :
      Means lookup (.var name) (.var (lookup name))
  | list {lookup : String → TypeId} {element : Written} {tree : Tree} :
      Means lookup element tree → Means lookup (.list element) (.list tree)
  | noComponent {lookup : String → TypeId} : Means lookup (.tuple []) (.tuple [])
  | component {lookup : String → TypeId} {first : Written} {rest : List Written} {tree : Tree}
      {trees : List Tree} :
      Means lookup first tree → Means lookup (.tuple rest) (.tuple trees) →
      Means lookup (.tuple (first :: rest)) (.tuple (tree :: trees))
  | function {lookup : String → TypeId} {domain codomain : Written}
      {domainTree codomainTree : Tree} :
      Means lookup domain domainTree → Means lookup codomain codomainTree →
      Means lookup (.function domain codomain) (.function domainTree codomainTree)
  | quantified {lookup : String → TypeId} {names : List String} {ids : List TypeId}
      {body : Written} {tree : Tree} :
      ids.length = names.length → ids.Nodup →
      (∀ name ∈ (quantified names body).unbound, lookup name ∉ ids) →
      Means (bind names ids lookup) body tree →
      Means lookup (.quantified names body) (.quantified ids tree)

end Written

/-- Further variables are quantified at the outermost level, after those of an
outermost quantifier. -/
def Tree.generalised (free : List TypeId) (tree : Tree) : Tree :=
  if free.isEmpty then tree else .quantified (tree.binders ++ free) tree.body

/-- The tree that a whole text denotes: its unbound names stand for different
variables, which are quantified in order of first appearance. -/
def Written.Denotes (written : Written) (tree : Tree) : Prop :=
  ∃ lookup inner, written.Means lookup inner ∧
    ((written.unbound.foldl addNew []).map lookup).Nodup ∧
      tree = inner.generalised ((written.unbound.foldl addNew []).map lookup)

namespace Cursor

variable {names : List String} {name : String} {id : TypeId} {lookup : String → TypeId}
  {written : Written} {tree : Tree} {first mid last before after : Cursor}

/-- The variable that a name denotes here, unless it is a new one. -/
def resolve? (cursor : Cursor) (name : String) : Option TypeId :=
  (cursor.scope.lookup name).or (cursor.free.lookup name)

/-- The names stand for the variables that they denote here. -/
def Resolves (cursor : Cursor) (lookup : String → TypeId) : Prop :=
  ∀ name id, cursor.resolve? name = some id → lookup name = id

/-- In the same scope, some names have been met; those not in scope are unbound
from now on. -/
structure Meets (after before : Cursor) (names : List String) : Prop where
  /-- The names in scope are the same. -/
  scope_eq : after.scope = before.scope
  /-- No unbound name is forgotten. -/
  grows : before.free <+: after.free
  /-- Names met for the first time are added in order. -/
  names_eq : after.free.map Prod.fst =
    (names.filter fun name => (before.scope.lookup name).isNone).foldl addNew
      (before.free.map Prod.fst)

theorem meets_nil (scopeEq : after.scope = before.scope) (freeEq : after.free = before.free) :
    after.Meets before [] where
  scope_eq := scopeEq
  grows := by simp only [freeEq, prefix_rfl]
  names_eq := by
    rw [freeEq]
    rfl

theorem Meets.trans {others : List String} (earlier : mid.Meets first names)
    (later : last.Meets mid others) :
    last.Meets first (names ++ others) := by
  refine ⟨later.scope_eq.trans earlier.scope_eq, earlier.grows.trans later.grows, ?_⟩
  rw [later.names_eq, earlier.names_eq, earlier.scope_eq, filter_append, foldl_append]

theorem isSome_lookup_iff {names : List (String × TypeId)} :
    (names.lookup name).isSome ↔ name ∈ names.map Prod.fst := by
  simp

/-- A name that has been met denotes a variable. -/
theorem Meets.isSome_resolve? (meets : after.Meets before names) (mem : name ∈ names) :
    (after.resolve? name).isSome := by
  rw [resolve?, isSome_or, meets.scope_eq, Bool.or_eq_true]
  by_cases inScope : (before.scope.lookup name).isSome
  · exact .inl inScope
  · right
    rw [isSome_lookup_iff, meets.names_eq, mem_foldl_addNew, mem_filter]
    exact .inr ⟨mem, not_isSome_iff_eq_none.1 inScope ▸ rfl⟩

/-- What a name denotes it denotes later too. -/
theorem Meets.resolve?_eq (meets : after.Meets before names)
    (found : before.resolve? name = some id) :
    after.resolve? name = some id := by
  obtain ⟨new, freeEq⟩ := meets.grows
  unfold resolve? at found ⊢
  rw [meets.scope_eq, ← freeEq, lookup_append, ← Option.or_assoc, found, some_or]

theorem Meets.resolves (meets : after.Meets before names) (resolves : after.Resolves lookup) :
    before.Resolves lookup :=
  fun name id found => resolves name id (meets.resolve?_eq found)

theorem lookup_of_mem {names : List (String × TypeId)} (nodup : (names.map Prod.fst).Nodup)
    (mem : (name, id) ∈ names) :
    names.lookup name = some id := by
  obtain ⟨earlier, later, rfl⟩ := append_of_mem mem
  refine lookup_eq_some_iff.2 ⟨earlier, later, rfl, ?_⟩
  rintro ⟨other, otherId⟩ isEarlier
  rw [map_append, nodup_append] at nodup
  have different := nodup.2.2 other (List.mem_map_of_mem isEarlier) name (by simp)
  simpa using Ne.symm different

/-- Outside all scopes the unbound variables are those that the names met stand
for, in order of first appearance. -/
theorem Meets.freeIds_eq (meets : after.Meets before names) (outside : before.scope = [])
    (nothing : before.free = []) (resolves : after.Resolves lookup) :
    (names.foldl addNew []).map lookup = after.freeIds := by
  have namesEq := meets.names_eq
  simp only [outside, nothing, lookup_nil, isNone_none, filter_true, map_nil] at namesEq
  have nodup : (after.free.map Prod.fst).Nodup := by
    rw [namesEq]
    exact nodup_foldl_addNew nodup_nil
  rw [← namesEq, List.map_map, freeIds]
  apply map_congr_left
  rintro ⟨name, id⟩ mem
  refine resolves name id ?_
  rw [resolve?, meets.scope_eq, outside, lookup_nil, none_or, lookup_of_mem nodup mem]

/-- Reading a written type has met its unbound names, and the tree is what it
means, whatever the names stand for that it does not use. -/
structure Understands (after before : Cursor) (written : Written) (tree : Tree) : Prop where
  /-- The unbound names have been met. -/
  meets : after.Meets before written.unbound
  /-- The tree is the meaning. -/
  means : ∀ lookup, after.Resolves lookup → written.Means lookup tree

/-- The text and the store do not matter. -/
theorem Understands.congr {afterToo beforeToo : Cursor}
    (understands : after.Understands before written tree)
    (afterScope : afterToo.scope = after.scope) (afterFree : afterToo.free = after.free)
    (beforeScope : beforeToo.scope = before.scope) (beforeFree : beforeToo.free = before.free) :
    afterToo.Understands beforeToo written tree := by
  obtain ⟨⟨scopeEq, grows, namesEq⟩, means⟩ := understands
  refine ⟨⟨?_, ?_, ?_⟩, ?_⟩
  · rw [afterScope, beforeScope, scopeEq]
  · rwa [afterFree, beforeFree]
  · rwa [afterFree, beforeFree, beforeScope]
  · intro lookup resolves
    apply means
    unfold Resolves resolve? at resolves ⊢
    rwa [afterScope, afterFree] at resolves

/-- Moving on in the text first makes no difference. -/
theorem Understands.of_sameNames (understands : after.Understands mid written tree)
    (same : mid.SameNames before) :
    after.Understands before written tree :=
  understands.congr rfl rfl same.2.1.symm same.2.2.symm

theorem understands_primitive (scopeEq : after.scope = before.scope)
    (freeEq : after.free = before.free) (which : Primitive) :
    after.Understands before (.primitive which) (.primitive which) :=
  ⟨meets_nil scopeEq freeEq, fun _ _ => .primitive⟩

theorem understands_noComponent (scopeEq : after.scope = before.scope)
    (freeEq : after.free = before.free) :
    after.Understands before (.tuple []) (.tuple []) :=
  ⟨meets_nil scopeEq freeEq, fun _ _ => .noComponent⟩

theorem understands_var (meets : after.Meets before [name])
    (found : after.resolve? name = some id) :
    after.Understands before (.var name) (.var id) := by
  refine ⟨meets, ?_⟩
  intro lookup resolves
  rw [← resolves name id found]
  exact .var

theorem Understands.list {element : Written} (understands : after.Understands before element tree) :
    after.Understands before (.list element) (.list tree) :=
  ⟨understands.meets, fun lookup resolves => .list (understands.means lookup resolves)⟩

theorem Understands.function {domain codomain : Written} {domainTree codomainTree : Tree}
    (understandsDomain : mid.Understands first domain domainTree)
    (understandsCodomain : last.Understands mid codomain codomainTree) :
    last.Understands first (.function domain codomain) (.function domainTree codomainTree) where
  meets := understandsDomain.meets.trans understandsCodomain.meets
  means lookup resolves :=
    .function (understandsDomain.means lookup (understandsCodomain.meets.resolves resolves))
      (understandsCodomain.means lookup resolves)

theorem Understands.component {rest : List Written} {trees : List Tree}
    (understandsFirst : mid.Understands first written tree)
    (understandsRest : last.Understands mid (.tuple rest) (.tuple trees)) :
    last.Understands first (.tuple (written :: rest)) (.tuple (tree :: trees)) where
  meets := understandsFirst.meets.trans understandsRest.meets
  means lookup resolves :=
    .component (understandsFirst.means lookup (understandsRest.meets.resolves resolves))
      (understandsRest.means lookup resolves)

section Quantifier

variable {names : List String} {ids : List TypeId}

theorem isSome_lookup_zip (lengthEq : ids.length = names.length) (name : String) :
    ((names.zip ids).reverse.lookup name).isSome ↔ name ∈ names := by
  rw [isSome_lookup_iff, map_reverse, mem_reverse, map_fst_zip (Nat.le_of_eq lengthEq.symm)]

/-- Under a quantifier its own names are looked up first. -/
theorem resolve?_under {inner outer : Cursor}
    (scopeEq : inner.scope = (names.zip ids).reverse ++ outer.scope)
    (freeEq : inner.free = outer.free) (name : String) :
    inner.resolve? name = ((names.zip ids).reverse.lookup name).or (outer.resolve? name) := by
  rw [resolve?, resolve?, scopeEq, freeEq, lookup_append, Option.or_assoc]

/-- New variables have been brought into scope under their names. -/
structure Binds (after before : Cursor) (names : List String) (ids : List TypeId) : Prop where
  /-- The variables are new. -/
  bound : Reader.BindsVars after before ids
  /-- There is one for each name. -/
  length_eq : ids.length = names.length
  /-- The last name comes first in scope. -/
  scope_eq : after.scope = (names.zip ids).reverse ++ before.scope
  /-- The unbound names are the same. -/
  free_eq : after.free = before.free

variable {body : Written} {tree : Tree}

section

variable (binds : mid.Binds first names ids)

include binds

section

variable (understands : after.Understands mid body tree) (scopeEq : last.scope = first.scope)
  (freeEq : last.free = after.free)

include understands scopeEq freeEq

theorem Binds.meets :
    last.Meets first (Written.quantified names body).unbound where
  scope_eq := scopeEq
  grows := by
    rw [freeEq, ← binds.free_eq]
    exact understands.meets.grows
  names_eq := by
    rw [freeEq, understands.meets.names_eq, binds.free_eq, Written.unbound, List.filter_filter]
    congr 2
    funext name
    rw [binds.scope_eq, lookup_append, isNone_or, ← not_isSome, Bool.and_comm]
    congr 2
    rw [Bool.eq_iff_iff, isSome_lookup_zip binds.length_eq, contains_iff_mem]

theorem Binds.resolves (resolves : last.Resolves lookup) :
    after.Resolves (Written.bind names ids lookup) := by
  intro name id found
  rw [resolve?_under (by rw [understands.meets.scope_eq, binds.scope_eq, scopeEq]) freeEq.symm]
    at found
  unfold Written.bind
  cases listed : (names.zip ids).reverse.lookup name with
  | none =>
    rw [listed, none_or] at found
    exact resolves name id found
  | some own =>
    rw [listed, some_or] at found
    exact Option.some.inj found

end

/-- No variable from outside is among the new ones. -/
theorem Binds.notMem (firstValid : first.Valid) (afterValid : after.Valid)
    (understands : after.Understands mid body tree) (scopeEq : last.scope = first.scope)
    (freeEq : last.free = after.free) (found : last.resolve? name = some id) :
    id ∉ ids := by
  intro listed
  rcases or_eq_some_iff.1 found with inScope | ⟨_, isFree⟩
  · rw [scopeEq] at inScope
    obtain ⟨number, isVar⟩ := firstValid.vars id (.inl (Reader.mem_map_snd_of_lookup inScope))
    exact Nat.not_lt_of_le (binds.bound.size_le id listed) (Store.lt_size_of_shape isVar (by simp))
  · rw [freeEq] at isFree
    refine afterValid.apart id ?_ (Reader.mem_map_snd_of_lookup isFree)
    rw [scopeIds, understands.meets.scope_eq]
    exact (binds.bound.mem_scopeIds id).2 (.inl listed)

/-- A quantified type is understood from its variables and its body. -/
theorem Binds.quantified (firstValid : first.Valid)
    (afterValid : after.Valid) (understands : after.Understands mid body tree)
    (scopeEq : last.scope = first.scope) (freeEq : last.free = after.free) :
    last.Understands first (.quantified names body) (.quantified ids tree) := by
  have meets := binds.meets understands scopeEq freeEq
  refine ⟨meets, ?_⟩
  intro lookup resolves
  refine .quantified binds.length_eq binds.bound.nodup ?_
    (understands.means _ (binds.resolves understands scopeEq freeEq resolves))
  intro name isUnbound
  obtain ⟨id, found⟩ := isSome_iff_exists.1 (meets.isSome_resolve? isUnbound)
  rw [resolves name id found]
  exact binds.notMem firstValid afterValid understands scopeEq freeEq found

end

end Quantifier
end Cursor

namespace Written

variable {lookup : String → TypeId} {names : List String} {ids : List TypeId} {name : String}

theorem bind_of_notMem (lengthEq : ids.length = names.length) (absent : name ∉ names) :
    bind names ids lookup name = lookup name := by
  have notFound : (names.zip ids).reverse.lookup name = none := by
    rw [← not_isSome_iff_eq_none, Cursor.isSome_lookup_zip lengthEq]
    exact absent
  rw [bind, notFound, getD_none]

/-- A listed name stands for the last variable that is listed under it. -/
theorem exists_zip_of_mem (lookup : String → TypeId) (lengthEq : ids.length = names.length)
    (listed : name ∈ names) :
    ∃ earlier later, names.zip ids = earlier ++ (name, bind names ids lookup name) :: later ∧
      name ∉ later.map Prod.fst := by
  obtain ⟨id, found⟩ := isSome_iff_exists.1 ((Cursor.isSome_lookup_zip lengthEq name).2 listed)
  obtain ⟨later, earlier, reverseEq, others⟩ := lookup_eq_some_iff.1 found
  rw [bind, found, getD_some]
  refine ⟨earlier.reverse, later.reverse, ?_, ?_⟩
  · rw [← reverse_inj, reverseEq]
    simp
  · rw [map_reverse, mem_reverse, List.mem_map]
    rintro ⟨pair, isLater, rfl⟩
    simpa using others pair isLater

end Written
end PipeCheck
