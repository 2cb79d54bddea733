import PipeCheck.Proofs.Store.FreeVars
import PipeCheck.Proofs.Reading.Grammar
import PipeCheck.Proofs.Substitution.Trees

/-!
# Written types are closed

Every variable of a type that is being read is in scope or among the unbound
ones, and these are never both.  When the whole text has been read, the unbound
variables are quantified, so the type is closed.  Where the quantifiers of the
store list each variable once, so do the new ones, and they list only variables
that the reading has created, each of them in one place.  A failed reading leaves a
well-formed store too.
-/

namespace PipeCheck

open List Cursor PipeCheck.Tree Alloc Store

namespace Tree

variable {low high : Nat} {tree : Tree}

mutual

/-- The lists of the quantifiers in a tree. -/
def lists : Tree → List (List TypeId)
  | .primitive _ => []
  | .function domain codomain => domain.lists ++ codomain.lists
  | .list element => element.lists
  | .tuple components => listsAll components
  | .var _ => []
  | .quantified binders body => binders :: body.lists

/-- The lists of the quantifiers in several trees. -/
def listsAll : List Tree → List (List TypeId)
  | [] => []
  | tree :: rest => tree.lists ++ listsAll rest

end

@[simp] theorem listsAll_eq_flatMap (trees : List Tree) : listsAll trees = trees.flatMap lists := by
  induction trees with
  | nil => rfl
  | cons tree rest ih => simp [listsAll, ih]

theorem lists_tuple_cons (tree : Tree) (rest : List Tree) :
    (tuple (tree :: rest)).lists = tree.lists ++ (tuple rest).lists := by
  simp only [lists, listsAll]

/-- The outermost quantifier comes first. -/
theorem flatten_lists (tree : Tree) :
    tree.lists.flatten = tree.binders ++ tree.body.lists.flatten := by
  cases tree with
  | quantified binders body =>
    rw [lists, flatten_cons]
    rfl
  | _ => rfl

/-- Further variables listed with those of an outermost quantifier. -/
theorem perm_flatten_lists (tree : Tree) (free : List TypeId) :
    (quantified (tree.binders ++ free) tree.body).lists.flatten.Perm
      (tree.lists.flatten ++ free) := by
  rw [lists, flatten_cons, tree.flatten_lists, append_assoc, append_assoc]
  exact List.Perm.append_left _ perm_append_comm

/-- Every quantifier lists some variables, all of them within bounds. -/
def ListsWithin (low high : Nat) (tree : Tree) : Prop :=
  ∀ binders ∈ tree.lists, binders ≠ [] ∧ ∀ id ∈ binders, low ≤ id ∧ id < high

theorem ListsWithin.mono {lower higher : Nat} (within : tree.ListsWithin low high)
    (lowerLe : lower ≤ low) (leHigher : high ≤ higher) :
    tree.ListsWithin lower higher := by
  intro binders mem
  obtain ⟨nonempty, bounds⟩ := within binders mem
  refine ⟨nonempty, ?_⟩
  intro id listed
  obtain ⟨lowLe, ltHigh⟩ := bounds id listed
  exact ⟨Nat.le_trans lowerLe lowLe, Nat.lt_of_lt_of_le ltHigh leHigher⟩

theorem ListsWithin.body (within : tree.ListsWithin low high) :
    tree.body.ListsWithin low high := by
  cases tree with
  | quantified binders body =>
    intro nested mem
    exact within nested (mem_cons_of_mem _ mem)
  | _ => exact within

/-- Further variables may be listed with those of an outermost quantifier. -/
theorem ListsWithin.generalised (within : tree.ListsWithin low high) {free : List TypeId}
    (nonempty : free ≠ []) (freeWithin : ∀ id ∈ free, low ≤ id ∧ id < high) :
    (quantified (tree.binders ++ free) tree.body).ListsWithin low high := by
  intro binders mem
  rw [lists] at mem
  rcases mem_cons.1 mem with rfl | nested
  · refine ⟨by simp [nonempty], ?_⟩
    intro id listed
    rcases mem_append.1 listed with old | isFree
    · cases tree with
      | quantified binders body => exact (within binders mem_cons_self).2 id old
      | _ => cases old
    · exact freeWithin id isFree
  · exact within.body binders nested

end Tree

namespace Cursor

/-- The variables of the enclosing quantifiers. -/
def scopeIds (cursor : Cursor) : List TypeId :=
  cursor.scope.map Prod.snd

/-- The variables that no quantifier binds. -/
def freeIds (cursor : Cursor) : List TypeId :=
  cursor.free.map Prod.snd

/-- The named variables are variables of the store, and none is both bound and
unbound. -/
structure Valid (cursor : Cursor) : Prop where
  /-- The store is in order. -/
  wellFormed : cursor.store.WellFormed
  /-- Names stand for stored variables. -/
  vars : ∀ id, id ∈ cursor.scopeIds ∨ id ∈ cursor.freeIds →
    ∃ number, cursor.store.shape id = .var number
  /-- No variable is both bound and unbound. -/
  apart : ∀ id ∈ cursor.scopeIds, id ∉ cursor.freeIds
  /-- No unbound variable has two names. -/
  nodup : cursor.freeIds.Nodup

/-- A later cursor: types have been created, and the unbound variables may have
become more. -/
structure Continues (after before : Cursor) : Prop where
  /-- The later cursor is valid too. -/
  valid : after.Valid
  /-- No type has changed. -/
  follows : after.store.Follows before.store
  /-- No unbound variable is forgotten. -/
  free_subset : ∀ id ∈ before.freeIds, id ∈ after.freeIds
  /-- What has become unbound is new. -/
  free_new : ∀ id ∈ after.freeIds, id ∈ before.freeIds ∨ before.store.size ≤ id

/-- A later cursor in the same scope. -/
structure Advances (after before : Cursor) : Prop extends Continues after before where
  /-- The names in scope are the same. -/
  scope_eq : after.scope = before.scope

/-- Variables that have been created meanwhile, none of them listed twice and none of them
unbound. -/
structure Lists (after before : Cursor) (ids : List TypeId) : Prop where
  /-- None is listed twice. -/
  nodup : ids.Nodup
  /-- None was stored before. -/
  size_le : ∀ id ∈ ids, before.store.size ≤ id
  /-- All are stored now. -/
  lt_size : ∀ id ∈ ids, id < after.store.size
  /-- None is unbound. -/
  not_free : ∀ id ∈ ids, id ∉ after.freeIds

/-- All variables of a tree are accounted for. -/
structure Accounts (after before : Cursor) (tree : Tree) : Prop where
  /-- The variables that occur have names. -/
  named : ∀ leaf ∈ tree.occurrences, leaf ∈ after.scopeIds ∨ leaf ∈ after.freeIds
  /-- Every quantifier lists a variable. -/
  nonempty : [] ∉ tree.lists
  /-- The quantifiers list variables that have been created meanwhile. -/
  listed : after.Lists before tree.lists.flatten

/-- Only the place in the text has changed. -/
def SameNames (after before : Cursor) : Prop :=
  after.store = before.store ∧ after.scope = before.scope ∧ after.free = before.free

variable {first mid last before after : Cursor} {tree : Tree}

theorem SameNames.trans (lastMid : last.SameNames mid) (midFirst : mid.SameNames first) :
    last.SameNames first :=
  ⟨lastMid.1.trans midFirst.1, lastMid.2.1.trans midFirst.2.1, lastMid.2.2.trans midFirst.2.2⟩

theorem SameNames.advances (same : after.SameNames before) (valid : before.Valid) :
    after.Advances before := by
  obtain ⟨storeEq, scopeEq, freeEq⟩ := same
  have scopeIds : after.scopeIds = before.scopeIds := congrArg (List.map Prod.snd) scopeEq
  have freeIds : after.freeIds = before.freeIds := congrArg (List.map Prod.snd) freeEq
  refine ⟨⟨⟨?_, ?_, ?_, ?_⟩, ?_, ?_, ?_⟩, scopeEq⟩
  · exact storeEq ▸ valid.wellFormed
  · rw [scopeIds, freeIds, storeEq]
    exact valid.vars
  · rw [scopeIds, freeIds]
    exact valid.apart
  · exact freeIds ▸ valid.nodup
  · rw [storeEq]
    exact valid.wellFormed.follows_self
  · rw [freeIds]
    exact fun _ mem => mem
  · rw [freeIds]
    exact fun _ mem => .inl mem

theorem Continues.trans (lastMid : last.Continues mid) (midFirst : mid.Continues first) :
    last.Continues first where
  valid := lastMid.valid
  follows := lastMid.follows.trans midFirst.follows
  free_subset id mem := lastMid.free_subset id (midFirst.free_subset id mem)
  free_new id isFree := by
    rcases lastMid.free_new id isFree with earlier | new
    · exact midFirst.free_new id earlier
    · exact .inr (Nat.le_trans midFirst.follows.grown.size_le new)

theorem Advances.trans (lastMid : last.Advances mid) (midFirst : mid.Advances first) :
    last.Advances first :=
  ⟨lastMid.toContinues.trans midFirst.toContinues, lastMid.scope_eq.trans midFirst.scope_eq⟩

/-- At the start of a text no variable has a name. -/
theorem valid_start {store : Store} (wf : store.WellFormed) (text : String) :
    ({ rest := text.toList, store } : Cursor).Valid :=
  ⟨wf, by simp [scopeIds, freeIds], by simp [scopeIds], by simp [freeIds]⟩

/-- What has a name keeps it. -/
theorem Advances.named (advances : after.Advances before) {leaf : TypeId}
    (named : leaf ∈ before.scopeIds ∨ leaf ∈ before.freeIds) :
    leaf ∈ after.scopeIds ∨ leaf ∈ after.freeIds := by
  rcases named with inScope | isFree
  · rw [scopeIds, advances.scope_eq]
    exact .inl inScope
  · exact .inr (advances.free_subset leaf isFree)

/-- Types may be created as long as the store follows. -/
theorem Valid.advances_store (valid : before.Valid) {store : Store}
    (follows : store.Follows before.store) :
    ({ before with store } : Cursor).Advances before where
  valid :=
    { wellFormed := follows.wellFormed
      vars := by
        intro id named
        obtain ⟨number, isVar⟩ := valid.vars id named
        have inside := lt_size_of_shape isVar (by simp)
        exact ⟨number, (follows.grown.shape_eq inside).trans isVar⟩
      apart := valid.apart
      nodup := valid.nodup }
  follows := follows
  free_subset _ mem := mem
  free_new _ mem := .inl mem
  scope_eq := rfl

section Listed

variable {ids others : List TypeId}

theorem lists_nil (after before : Cursor) : after.Lists before [] := by
  constructor <;> simp

/-- Variables that become unbound are new ones. -/
theorem Lists.later (lists : mid.Lists first ids) (advances : last.Advances mid) :
    last.Lists first ids where
  nodup := lists.nodup
  size_le := lists.size_le
  lt_size id mem := advances.follows.grown.inside (lists.lt_size id mem)
  not_free id mem isFree := by
    rcases advances.free_new id isFree with earlier | new
    · exact lists.not_free id mem earlier
    · exact Nat.not_lt_of_le new (lists.lt_size id mem)

theorem Lists.of_follows (lists : last.Lists mid ids) (follows : mid.store.Follows first.store) :
    last.Lists first ids where
  nodup := lists.nodup
  size_le id mem := Nat.le_trans follows.grown.size_le (lists.size_le id mem)
  lt_size := lists.lt_size
  not_free := lists.not_free

/-- What is listed earlier is not listed again later. -/
theorem Lists.append (earlier : mid.Lists first ids) (later : last.Lists mid others)
    (follows : mid.store.Follows first.store) (advances : last.Advances mid) :
    last.Lists first (ids ++ others) := by
  have kept := earlier.later advances
  have moved := later.of_follows follows
  refine ⟨?_, ?_, ?_, ?_⟩
  · rw [nodup_append]
    refine ⟨earlier.nodup, later.nodup, ?_⟩
    rintro id inEarlier _ inLater rfl
    exact Nat.not_lt_of_le (later.size_le id inLater) (earlier.lt_size id inEarlier)
  · exact forall_mem_append.2 ⟨kept.size_le, moved.size_le⟩
  · exact forall_mem_append.2 ⟨kept.lt_size, moved.lt_size⟩
  · exact forall_mem_append.2 ⟨kept.not_free, moved.not_free⟩

end Listed

section Accounted

variable {left right whole : Tree}

theorem accounts_of_lists_nil (before : Cursor)
    (named : ∀ leaf ∈ tree.occurrences, leaf ∈ after.scopeIds ∨ leaf ∈ after.freeIds)
    (noLists : tree.lists = []) :
    after.Accounts before tree := by
  refine ⟨named, ?_, ?_⟩
  · simp [noLists]
  · rw [noLists]
    exact lists_nil after before

theorem Accounts.later (accounts : mid.Accounts first tree) (advances : last.Advances mid) :
    last.Accounts first tree :=
  ⟨fun leaf occurs => advances.named (accounts.named leaf occurs), accounts.nonempty,
    accounts.listed.later advances⟩

theorem Accounts.of_follows (accounts : last.Accounts mid tree)
    (follows : mid.store.Follows first.store) :
    last.Accounts first tree :=
  ⟨accounts.named, accounts.nonempty, accounts.listed.of_follows follows⟩

/-- A tree that is read in two parts, one after the other. -/
theorem Accounts.join (accounts : mid.Accounts first left) (others : last.Accounts mid right)
    (follows : mid.store.Follows first.store) (advances : last.Advances mid)
    (occursEq : whole.occurrences = left.occurrences ++ right.occurrences)
    (listsEq : whole.lists = left.lists ++ right.lists) :
    last.Accounts first whole := by
  refine ⟨?_, ?_, ?_⟩
  · rw [occursEq]
    exact forall_mem_append.2 ⟨(accounts.later advances).named, others.named⟩
  · rw [listsEq, mem_append, not_or]
    exact ⟨accounts.nonempty, others.nonempty⟩
  · rw [listsEq, flatten_append]
    exact accounts.listed.append others.listed follows advances

theorem Accounts.listsWithin (accounts : after.Accounts before tree) :
    tree.ListsWithin before.store.size after.store.size := by
  intro binders mem
  refine ⟨?_, ?_⟩
  · rintro rfl
    exact accounts.nonempty mem
  · intro id listed
    have inside := mem_flatten.2 ⟨binders, mem, listed⟩
    exact ⟨accounts.listed.size_le id inside, accounts.listed.lt_size id inside⟩

end Accounted

section NewVariable

variable {store : Store} {id number : Nat}

theorem Valid.unnamed (valid : before.Valid) (new : id = before.store.size) :
    id ∉ before.scopeIds ∧ id ∉ before.freeIds := by
  have old : ∀ {other}, other ∈ before.scopeIds ∨ other ∈ before.freeIds → other ≠ id := by
    intro other named
    obtain ⟨number, isVar⟩ := valid.vars other named
    rw [new]
    exact Nat.ne_of_lt (lt_size_of_shape isVar (by simp))
  exact ⟨fun inScope => old (.inl inScope) rfl, fun isFree => old (.inr isFree) rfl⟩

section

variable (valid : before.Valid) (follows : store.Follows before.store)
  (isVar : store.shape id = .var number)

include valid follows isVar

/-- A new variable may be brought into scope. -/
theorem Valid.addScope (new : id = before.store.size) (name : String) :
    ({ before with store, scope := (name, id) :: before.scope } : Cursor).Valid := by
  have advanced := (valid.advances_store follows).valid
  have unnamed := valid.unnamed new
  refine ⟨follows.wellFormed, ?_, ?_, valid.nodup⟩
  · rintro other (inScope | isFree)
    · rcases mem_cons.1 inScope with rfl | inScope
      · exact ⟨number, isVar⟩
      · exact advanced.vars other (.inl inScope)
    · exact advanced.vars other (.inr isFree)
  · intro other inScope
    rcases mem_cons.1 inScope with rfl | inScope
    · exact unnamed.2
    · exact valid.apart other inScope

/-- A new variable may be added to the unbound ones. -/
theorem Valid.addFree (new : id = before.store.size) (name : String) :
    ({ before with store, free := before.free ++ [(name, id)] } : Cursor).Valid := by
  have advanced := (valid.advances_store follows).valid
  have unnamed := valid.unnamed new
  have freeEq : ({ before with store, free := before.free ++ [(name, id)] } : Cursor).freeIds =
      before.freeIds ++ [id] := by
    simp [freeIds]
  refine ⟨follows.wellFormed, ?_, ?_, ?_⟩
  · rw [freeEq]
    rintro other (inScope | isFree)
    · exact advanced.vars other (.inl inScope)
    · rcases mem_append.1 isFree with isFree | isNew
      · exact advanced.vars other (.inr isFree)
      · rw [mem_singleton.1 isNew]
        exact ⟨number, isVar⟩
  · rw [freeEq]
    intro other inScope isFree
    rcases mem_append.1 isFree with isFree | isNew
    · exact valid.apart other inScope isFree
    · exact unnamed.1 (mem_singleton.1 isNew ▸ inScope)
  · rw [freeEq, nodup_append]
    refine ⟨valid.nodup, by simp, ?_⟩
    intro other isFree last isNew same
    rw [mem_singleton.1 isNew] at same
    exact unnamed.2 (same ▸ isFree)

end

end NewVariable
end Cursor

namespace Reader

variable {mid after : Cursor} {id : TypeId} {α β : Type} {before : Cursor}
  {read : Reader α} {post : α → Cursor → Prop}

/-- A reading leaves a store that follows, and if it succeeds a postcondition
holds. -/
def Reads (read : Reader α) (before : Cursor) (post : α → Cursor → Prop) : Prop :=
  Keeps (fun after before => after.store.Follows before.store) read before post

theorem Reads.mono {weaker : α → Cursor → Prop} (reads : Reads read before post)
    (weaken : ∀ value after, post value after → weaker value after) :
    Reads read before weaker :=
  Keeps.mono reads fun value after _ => weaken value after

theorem Reads.bind {next : α → Reader β} {midPost : α → Cursor → Prop}
    {post : β → Cursor → Prop} (first : Reads read before midPost)
    (rest : ∀ value mid, midPost value mid → Reads (next value) mid post) :
    Reads (read >>= next) before post :=
  Keeps.bind Follows.trans first fun value mid _ => rest value mid

theorem reads_pure {value : α} (wf : before.store.WellFormed) (holds : post value before) :
    Reads (pure value) before post :=
  keeps_pure wf.follows_self holds

theorem reads_throw {failure : ReadError} (wf : before.store.WellFormed) :
    Reads (throw failure) before post :=
  keeps_throw wf.follows_self

theorem reads_alloc {create : Alloc α} (yields : Yields create before.store fun value store =>
      store.Follows before.store ∧ post value { before with store }) :
    Reads (alloc create) before post := by
  refine ⟨yields.1, ?_⟩
  rintro _ ⟨⟩
  exact yields.2

/-- A change of names is followed by its value. -/
theorem reads_modify_pure {change : Cursor → Cursor} {value : α} (wf : before.store.WellFormed)
    (sameStore : (change before).store = before.store) (holds : post value (change before)) :
    Reads (do modify change; pure value) before post := by
  refine ⟨?_, ?_⟩
  · change (change before).store.Follows before.store
    rw [sameStore]
    exact wf.follows_self
  · rintro _ ⟨⟩
    exact holds

theorem reads_newVar (wf : before.store.WellFormed) :
    Reads (alloc var) before fun id after =>
      ∃ store number, after = { before with store } ∧ store.Follows before.store ∧
        store.shape id = .var number ∧ id = before.store.size := by
  apply reads_alloc
  refine (yields_var wf).mono ?_
  rintro id store ⟨follows, isVar, new, _⟩
  exact ⟨follows, store, _, rfl, follows, isVar, new⟩

/-- A reading that only moves on in the text. -/
def Moves (read : Reader α) : Prop :=
  ∀ before, Yields read.run before fun _ after => after.SameNames before

theorem Moves.bind {next : α → Reader β} (first : Moves read) (rest : ∀ value, Moves (next value)) :
    Moves (read >>= next) := by
  intro before
  rw [yields_bind_run]
  refine Yields.mono (first before) ?_
  intro outcome mid same
  cases outcome with
  | error failure => exact same
  | ok value =>
    refine Yields.mono (rest value mid) ?_
    intro _ last lastSame
    exact lastSame.trans same

theorem moves_pure (value : α) : Moves (pure value) := fun _ => ⟨rfl, rfl, rfl⟩

theorem moves_throw (failure : ReadError) : Moves (throw failure : Reader α) :=
  fun _ => ⟨rfl, rfl, rfl⟩

theorem moves_get : Moves (get : Reader Cursor) := fun _ => ⟨rfl, rfl, rfl⟩

theorem moves_skipBlanks : Moves skipBlanks := fun _ => ⟨rfl, rfl, rfl⟩

theorem moves_name : Moves name := fun _ => ⟨rfl, rfl, rfl⟩

theorem sameNames_of_token? {next : Cursor} {text : String}
    (found : before.token? text = some next) :
    next.SameNames before := by
  unfold token? at found
  split at found
  · cases found
    exact ⟨rfl, rfl, rfl⟩
  · cases found

theorem moves_token (text : String) : Moves (token text) := by
  intro before
  rw [token, yields_modifyGet_run]
  cases found : before.token? text with
  | none => exact ⟨rfl, rfl, rfl⟩
  | some next => exact sameNames_of_token? found

theorem moves_forallWord : Moves forallWord := by
  intro before
  rw [forallWord, yields_modifyGet_run]
  cases found : before.token? "forall" with
  | none => exact ⟨rfl, rfl, rfl⟩
  | some next =>
    simp only
    split
    · exact ⟨rfl, rfl, rfl⟩
    · exact sameNames_of_token? found

theorem moves_accept (text : String) : Moves (accept text) :=
  moves_skipBlanks.bind fun _ => moves_token text

theorem moves_expect (text : String) : Moves (expect text) := by
  refine (moves_accept text).bind ?_
  intro accepted
  split
  · exact moves_pure ()
  · refine moves_get.bind ?_
    intro cursor
    split
    · exact moves_throw _
    · exact moves_throw _

theorem moves_varName : Moves varName := by
  refine (moves_token "'").bind ?_
  intro isVar
  split
  · refine moves_name.bind ?_
    intro name
    split
    · exact moves_get.bind fun _ => moves_throw _
    · exact moves_pure name
  · refine moves_get.bind ?_
    intro cursor
    split
    · exact moves_throw _
    · exact moves_throw _

theorem Moves.reads_sameNames (moves : Moves read) (valid : before.Valid) :
    Reads read before fun _ after => after.SameNames before := by
  unfold Reads Keeps
  refine Yields.mono (moves before) ?_
  intro outcome after same
  exact ⟨(same.advances valid).follows, fun _ _ => same⟩

theorem Moves.reads (moves : Moves read) (valid : before.Valid) :
    Reads read before fun _ after => after.Advances before :=
  (moves.reads_sameNames valid).mono fun _ _ same => same.advances valid

/-- A type has been read whose variables have names. -/
structure HasRead (after before : Cursor) (id : TypeId) : Prop where
  /-- The reading ends in the scope where it started. -/
  advances : after.Advances before
  /-- The type is stored. -/
  inside : id < after.store.size
  /-- Its variables are accounted for. -/
  accounts : after.Accounts before (after.store.tree id)

theorem HasRead.tree_eq {last : Cursor} (read : HasRead after before id)
    (advances : last.Advances after) :
    last.store.tree id = after.store.tree id :=
  advances.follows.grown.tree_eq read.advances.valid.wellFormed read.inside

theorem HasRead.later {last : Cursor} (read : HasRead after before id)
    (advances : last.Advances after) :
    HasRead last before id := by
  refine ⟨advances.trans read.advances, advances.follows.grown.inside read.inside, ?_⟩
  rw [read.tree_eq advances]
  exact read.accounts.later advances

theorem HasRead.of_sameNames {last : Cursor} (read : HasRead after before id)
    (same : last.SameNames after) :
    HasRead last before id :=
  read.later (same.advances read.advances.valid)

theorem HasRead.of_advances (read : HasRead after mid id) (advances : mid.Advances before) :
    HasRead after before id :=
  ⟨read.advances.trans advances, read.inside, read.accounts.of_follows advances.follows⟩

theorem Reads.of_advances {read : Reader TypeId}
    (reads : Reads read mid fun id after => HasRead after mid id) (advances : mid.Advances before) :
    Reads read mid fun id after => HasRead after before id :=
  reads.mono fun _ _ read => read.of_advances advances

/-- A type is created from parts that have been read. -/
theorem reads_alloc_builds {start : Cursor} {create : Alloc TypeId}
    (advances : before.Advances start) {tree : Tree} (accounts : before.Accounts start tree)
    (yields : Yields create before.store fun id store => before.store.Builds store id tree) :
    Reads (alloc create) before fun id after => HasRead after start id := by
  apply reads_alloc
  refine yields.mono ?_
  intro id store built
  have stored := advances.valid.advances_store built.toFollows
  refine ⟨built.toFollows, stored.trans advances, built.inside, ?_⟩
  change Accounts _ _ (store.tree id)
  rw [built.tree_eq]
  exact accounts.later stored

theorem mem_map_snd_of_lookup {names : List (String × TypeId)} {name : String}
    (found : names.lookup name = some id) :
    id ∈ names.map Prod.snd := by
  obtain ⟨earlier, later, rfl, _⟩ := lookup_eq_some_iff.1 found
  simp

/-- A name denotes a variable in scope or an unbound one. -/
theorem reads_resolveVar (valid : before.Valid) (name : String) :
    Reads (resolveVar name) before fun id after => HasRead after before id := by
  have known : ∀ {cursor : Cursor} {id}, cursor.Advances before →
      id ∈ cursor.scopeIds ∨ id ∈ cursor.freeIds → HasRead cursor before id := by
    intro cursor id advances named
    obtain ⟨number, isVar⟩ := advances.valid.vars id named
    refine ⟨advances, lt_size_of_shape isVar (by simp), ?_⟩
    rw [tree_of_var isVar]
    refine accounts_of_lists_nil before ?_ rfl
    intro leaf occurs
    rwa [mem_singleton.1 occurs]
  have stays := valid.advances_store valid.wellFormed.follows_self
  refine keeps_get_bind ?_
  split
  · next id found =>
      exact reads_pure valid.wellFormed (known stays (.inl (mem_map_snd_of_lookup found)))
  split
  · next id found =>
      exact reads_pure valid.wellFormed (known stays (.inr (mem_map_snd_of_lookup found)))
  · refine (reads_newVar valid.wellFormed).bind ?_
    rintro id _ ⟨store, number, rfl, follows, isVar, new⟩
    have added := valid.addFree follows isVar new name
    refine reads_modify_pure follows.wellFormed rfl
      (known ⟨⟨added, follows, ?_, ?_⟩, rfl⟩ (.inr (by simp [freeIds])))
    · intro other isFree
      simp only [freeIds, map_append, mem_append]
      exact .inl isFree
    · intro other isFree
      simp only [freeIds, map_append, mem_append] at isFree
      rcases isFree with old | isNew
      · exact .inl old
      · rw [mem_singleton.1 isNew]
        exact .inr (Nat.le_of_eq new.symm)

/-- New variables have been brought into scope. -/
structure BindsVars (after before : Cursor) (vars : List TypeId) : Prop
    extends Continues after before where
  /-- They join the variables that were in scope. -/
  mem_scopeIds : ∀ id, id ∈ after.scopeIds ↔ id ∈ vars ∨ id ∈ before.scopeIds
  /-- No variable is listed twice. -/
  nodup : vars.Nodup
  /-- None was stored before. -/
  size_le : ∀ id ∈ vars, before.store.size ≤ id

theorem bindsVars_nil (advances : after.Advances before) : BindsVars after before [] where
  toContinues := advances.toContinues
  mem_scopeIds id := by simp [scopeIds, advances.scope_eq]
  nodup := nodup_nil
  size_le := by simp

theorem BindsVars.lists {vars : List TypeId} (bound : BindsVars after before vars) :
    after.Lists before vars where
  nodup := bound.nodup
  size_le := bound.size_le
  lt_size id mem := by
    obtain ⟨number, isVar⟩ := bound.valid.vars id (.inl ((bound.mem_scopeIds id).2 (.inl mem)))
    exact lt_size_of_shape isVar (by simp)
  not_free id mem := bound.valid.apart id ((bound.mem_scopeIds id).2 (.inl mem))

theorem BindsVars.append {first last : Cursor} {earlier later : List TypeId}
    (midFirst : BindsVars mid first earlier) (lastMid : BindsVars last mid later) :
    BindsVars last first (earlier ++ later) where
  toContinues := lastMid.toContinues.trans midFirst.toContinues
  mem_scopeIds id := by
    rw [lastMid.mem_scopeIds, midFirst.mem_scopeIds, mem_append]
    tauto
  nodup := by
    rw [nodup_append]
    refine ⟨midFirst.nodup, lastMid.nodup, ?_⟩
    rintro id inEarlier _ inLater rfl
    exact Nat.not_lt_of_le (lastMid.size_le id inLater) (midFirst.lists.lt_size id inEarlier)
  size_le id mem := by
    rcases mem_append.1 mem with inEarlier | inLater
    · exact midFirst.size_le id inEarlier
    · exact Nat.le_trans midFirst.follows.grown.size_le (lastMid.size_le id inLater)

theorem reads_bindVar (valid : before.Valid) (name : String) :
    Reads (bindVar name) before fun id after => BindsVars after before [id] := by
  refine (reads_newVar valid.wellFormed).bind ?_
  rintro id _ ⟨store, number, rfl, follows, isVar, new⟩
  refine reads_modify_pure follows.wellFormed rfl
    ⟨⟨valid.addScope follows isVar new name, follows, fun _ mem => mem,
      fun _ mem => .inl mem⟩, ?_, by simp, ?_⟩
  · intro other
    simp [scopeIds]
  · intro other mem
    rw [mem_singleton.1 mem]
    exact Nat.le_of_eq new.symm

theorem reads_binders {fuel : Nat} (valid : before.Valid) :
    Reads (binders fuel) before fun vars after =>
      BindsVars after before vars ∧ vars ≠ [] := by
  induction fuel generalizing before with
  | zero => exact reads_throw valid.wellFormed
  | succ fuel ih =>
    refine (moves_skipBlanks.reads valid).bind ?_
    intro _ afterBlanks blanks
    refine (moves_varName.reads blanks.valid).bind ?_
    intro name afterName named
    refine (reads_bindVar named.valid name).bind ?_
    intro first afterFirst bound
    refine ((moves_accept ",").reads bound.valid).bind ?_
    intro more afterComma comma
    have firstBound : BindsVars afterComma before [first] :=
      (bindsVars_nil (named.trans blanks)).append (bound.append (bindsVars_nil comma))
    split
    · refine (ih comma.valid).bind ?_
      rintro others last ⟨othersBound, _⟩
      exact reads_pure othersBound.valid.wellFormed ⟨firstBound.append othersBound, by simp⟩
    · exact reads_pure comma.valid.wellFormed ⟨firstBound, by simp⟩

/-- Leaving the scopes that a reading has entered. -/
theorem reads_restoringScope (inner : α → Cursor → Prop) (reads : Reads read before inner)
    (leave : ∀ value after, inner value after → post value { after with scope := before.scope }) :
    Reads (restoringScope read) before post := by
  refine keeps_get_bind (Keeps.bind Follows.trans reads ?_)
  intro value after follows holds
  exact reads_modify_pure follows.wellFormed rfl (leave value after holds)

/-- Outside a quantifier its variables are out of scope, and not unbound
either. -/
theorem BindsVars.leave {vars : List TypeId} (bound : BindsVars after before vars)
    (nonempty : vars ≠ []) {body : Tree} (inside : id < after.store.size)
    (treeEq : after.store.tree id = .quantified vars body) (accounts : after.Accounts before body)
    (listed : after.Lists before (vars ++ body.lists.flatten)) :
    HasRead { after with scope := before.scope } before id := by
  have inScope : ∀ id ∈ before.scopeIds, id ∈ after.scopeIds := fun id mem =>
    (bound.mem_scopeIds id).2 (.inr mem)
  refine ⟨⟨⟨⟨bound.valid.wellFormed, ?_, ?_, bound.valid.nodup⟩,
    bound.follows, bound.free_subset, bound.free_new⟩, rfl⟩, inside, ?_⟩
  · rintro other (isScope | isFree)
    · exact bound.valid.vars other (.inl (inScope other isScope))
    · exact bound.valid.vars other (.inr isFree)
  · exact fun other isScope => bound.valid.apart other (inScope other isScope)
  · change Accounts _ _ (after.store.tree id)
    rw [treeEq]
    refine ⟨?_, ?_, ?_⟩
    · intro leaf occurs
      simp only [occurrences, mem_filter, contains_eq_mem, Bool.not_eq_true',
        decide_eq_false_iff_not] at occurs
      rcases accounts.named leaf occurs.1 with isScope | isFree
      · exact .inl (((bound.mem_scopeIds leaf).1 isScope).resolve_left occurs.2)
      · exact .inr isFree
    · rw [Tree.lists, mem_cons, not_or]
      exact ⟨nonempty.symm, accounts.nonempty⟩
    · rw [Tree.lists, flatten_cons]
      exact ⟨listed.nodup, listed.size_le, listed.lt_size, listed.not_free⟩

/-- A quantified type is read from its variables and its body. -/
theorem reads_quantified {fuel : Nat} (readBody : ∀ {cursor : Cursor}, cursor.Valid →
      Reads (type fuel) cursor fun id after => HasRead after cursor id) (valid : before.Valid) :
    Reads (restoringScope do
      let vars ← binders fuel
      expect "."
      let body ← type fuel
      alloc (quantified vars body)) before fun id after => HasRead after before id := by
  refine reads_restoringScope (fun id after => ∃ vars body,
    BindsVars after before vars ∧ vars ≠ [] ∧ id < after.store.size ∧
      after.store.tree id = .quantified vars body ∧ after.Accounts before body ∧
        after.Lists before (vars ++ body.lists.flatten)) ?_ ?_
  · refine (reads_binders valid).bind ?_
    rintro vars afterVars ⟨bound, nonempty⟩
    refine ((moves_expect ".").reads bound.valid).bind ?_
    intro _ afterDot dot
    refine (readBody dot.valid).bind ?_
    intro body afterBody read
    have bodyBound := bound.append (bindsVars_nil (read.advances.trans dot))
    rw [append_nil] at bodyBound
    have accounts := read.accounts.of_follows dot.follows
    have listed := bound.lists.append accounts.listed bound.follows (read.advances.trans dot)
    have valid := read.advances.valid
    apply reads_alloc
    refine (yields_quantified valid.wellFormed read.inside ?_ fun _ => bound.nodup).mono ?_
    · intro id listed
      exact valid.vars id (.inl ((bodyBound.mem_scopeIds id).2 (.inl listed)))
    · rintro id store ⟨built, _⟩
      have stored := valid.advances_store built.toFollows
      have lastBound := bodyBound.append (bindsVars_nil stored)
      rw [append_nil] at lastBound
      exact ⟨built.toFollows, vars, _, lastBound, nonempty, built.inside, built.tree_eq,
        (accounts.of_follows bound.follows).later stored, listed.later stored⟩
  · rintro id after ⟨vars, body, bound, nonempty, inside, treeEq, accounts, listed⟩
    exact bound.leave nonempty inside treeEq accounts listed

theorem reads_primitive (valid : before.Valid) (which : Primitive) :
    Reads (alloc (primitive which)) before fun id after => HasRead after before id :=
  reads_alloc_builds (valid.advances_store valid.wellFormed.follows_self)
    (accounts_of_lists_nil _ (by simp [occurrences]) rfl) (yields_primitive valid.wellFormed which)

theorem reads_typeName (valid : before.Valid) (offset : Nat) :
    Reads (typeName offset) before fun id after => HasRead after before id := by
  refine (moves_name.reads valid).bind ?_
  intro text afterName named
  split
  · exact (reads_primitive named.valid _).of_advances named
  · exact reads_throw named.valid.wellFormed

section Recursion

/-- What one level of the grammar needs to know about the next. -/
structure ReadsBelow (fuel : Nat) : Prop where
  /-- Types are read. -/
  type : ∀ {before : Cursor}, before.Valid →
    Reads (Reader.type fuel) before fun id after => HasRead after before id
  /-- Atoms are read. -/
  atom : ∀ {before : Cursor}, before.Valid →
    Reads (Reader.atom fuel) before fun id after => HasRead after before id
  /-- Further components are read. -/
  components : ∀ {before : Cursor}, before.Valid →
    Reads (Reader.components fuel) before fun ids after =>
      after.Advances before ∧ (∀ id ∈ ids, id < after.store.size) ∧
        after.Accounts before (tuple (ids.map after.store.tree))

variable {fuel : Nat} (below : ReadsBelow fuel)

include below

theorem reads_type_succ (valid : before.Valid) :
    Reads (type (fuel + 1)) before fun id after => HasRead after before id := by
  rw [type]
  refine (moves_skipBlanks.reads valid).bind ?_
  intro _ afterBlanks blanks
  refine (moves_forallWord.reads blanks.valid).bind ?_
  intro isForall start word
  have started := word.trans blanks
  split
  · exact (reads_quantified below.type started.valid).of_advances started
  · refine (below.atom started.valid).bind ?_
    intro domain afterDomain domainRead
    refine ((moves_accept "->").reads_sameNames domainRead.advances.valid).bind ?_
    intro isFunction afterArrow same
    have arrowRead := (domainRead.of_sameNames same).of_advances started
    split
    · refine (below.type arrowRead.advances.valid).bind ?_
      intro codomain afterCodomain codomainRead
      have advances := codomainRead.advances.trans arrowRead.advances
      have accounts : afterCodomain.Accounts before (.function _ _) :=
        arrowRead.accounts.join codomainRead.accounts arrowRead.advances.follows
          codomainRead.advances rfl rfl
      rw [← arrowRead.tree_eq codomainRead.advances] at accounts
      exact reads_alloc_builds advances accounts ((yields_function advances.valid.wellFormed
        (arrowRead.later codomainRead.advances).inside codomainRead.inside).mono
        fun _ _ built => built.1)
    · exact reads_pure arrowRead.advances.valid.wellFormed arrowRead

theorem reads_components_succ (valid : before.Valid) :
    Reads (components (fuel + 1)) before fun ids after =>
      after.Advances before ∧ (∀ id ∈ ids, id < after.store.size) ∧
        after.Accounts before (tuple (ids.map after.store.tree)) := by
  rw [components]
  refine ((moves_accept ",").reads valid).bind ?_
  intro more afterComma comma
  split
  · refine (below.type comma.valid).bind ?_
    intro first afterFirst read
    have firstRead := read.of_advances comma
    refine (below.components firstRead.advances.valid).bind ?_
    rintro others last ⟨advances, inside, accounts⟩
    refine reads_pure advances.valid.wellFormed ⟨advances.trans firstRead.advances,
      forall_mem_cons.2 ⟨(firstRead.later advances).inside, inside⟩, ?_⟩
    rw [map_cons, firstRead.tree_eq advances]
    exact firstRead.accounts.join accounts firstRead.advances.follows advances rfl rfl
  · exact reads_pure comma.valid.wellFormed ⟨comma, by simp, accounts_of_lists_nil _ nofun rfl⟩

theorem reads_parenthesised (valid : before.Valid) :
    Reads (parenthesised fuel) before fun id after => HasRead after before id := by
  refine ((moves_accept ")").reads valid).bind ?_
  intro isUnit start started
  split
  · exact (reads_primitive started.valid .unit).of_advances started
  · refine (below.type started.valid).bind ?_
    intro first afterFirst firstRead
    refine ((moves_accept ")").reads_sameNames firstRead.advances.valid).bind ?_
    intro isClosed afterClose same
    have closeRead := (firstRead.of_sameNames same).of_advances started
    split
    · exact reads_pure closeRead.advances.valid.wellFormed closeRead
    · refine (below.components closeRead.advances.valid).bind ?_
      rintro others afterOthers ⟨othersAdvance, othersInside, othersAccount⟩
      refine ((moves_expect ")").reads othersAdvance.valid).bind ?_
      intro _ last closed
      have advances := closed.trans othersAdvance
      have inside : ∀ id ∈ first :: others, id < last.store.size :=
        forall_mem_cons.2 ⟨(closeRead.later advances).inside,
          fun id mem => closed.follows.grown.inside (othersInside id mem)⟩
      have othersEq : others.map last.store.tree = others.map afterOthers.store.tree :=
        map_congr_left fun id mem => closed.follows.grown.tree_eq
          othersAdvance.valid.wellFormed (othersInside id mem)
      have accounts : last.Accounts before (.tuple (_ :: _)) := closeRead.accounts.join
        (othersAccount.later closed) closeRead.advances.follows advances rfl rfl
      rw [← othersEq, ← closeRead.tree_eq advances, ← map_cons] at accounts
      exact reads_alloc_builds (advances.trans closeRead.advances) accounts
        ((yields_tuple closed.valid.wellFormed inside).mono fun _ _ built => built.1)

theorem reads_atom_succ (valid : before.Valid) :
    Reads (atom (fuel + 1)) before fun id after => HasRead after before id := by
  rw [atom]
  refine (moves_skipBlanks.reads valid).bind ?_
  intro _ afterBlanks blanks
  refine (moves_get.reads blanks.valid).bind ?_
  intro offsetCursor afterOffset offset
  refine (moves_get.reads offset.valid).bind ?_
  intro headCursor start head
  have started := head.trans (offset.trans blanks)
  split
  · exact reads_throw started.valid.wellFormed
  split
  · refine (moves_varName.reads started.valid).bind ?_
    intro name afterName named
    exact (reads_resolveVar named.valid name).of_advances (named.trans started)
  refine ((moves_token "[").reads started.valid).bind ?_
  intro isList afterBracket bracket
  have bracketed := bracket.trans started
  split
  · refine (below.type bracketed.valid).bind ?_
    intro element afterElement elementRead
    refine ((moves_expect "]").reads elementRead.advances.valid).bind ?_
    intro _ last closed
    have listRead := (elementRead.of_advances bracketed).later closed
    have accounts : last.Accounts before (.list (last.store.tree element)) :=
      ⟨listRead.accounts.named, listRead.accounts.nonempty, listRead.accounts.listed⟩
    exact reads_alloc_builds listRead.advances accounts
      ((yields_list closed.valid.wellFormed listRead.inside).mono fun _ _ built => built.1)
  refine ((moves_token "(").reads bracketed.valid).bind ?_
  intro isParenthesis afterParenthesis parenthesis
  have parenthesised := parenthesis.trans bracketed
  split
  · exact (reads_parenthesised below parenthesised.valid).of_advances parenthesised
  refine ((moves_token "<invalid>").reads parenthesised.valid).bind ?_
  intro isInvalid afterInvalid invalid
  have last := invalid.trans parenthesised
  split
  · exact (reads_primitive last.valid .invalid).of_advances last
  split
  · exact (reads_typeName last.valid _).of_advances last
  · exact reads_throw last.valid.wellFormed

end Recursion

theorem readsBelow (fuel : Nat) : ReadsBelow fuel := by
  induction fuel with
  | zero =>
    exact ⟨fun valid => reads_throw valid.wellFormed, fun valid => reads_throw valid.wellFormed,
      fun valid => reads_throw valid.wellFormed⟩
  | succ fuel ih =>
    exact ⟨reads_type_succ ih, reads_atom_succ ih, reads_components_succ ih⟩

/-- The unbound variables are quantified after those of an outermost
quantifier. -/
theorem yields_generalised {start : Cursor} (read : HasRead before start id) :
    Yields (quantified (before.store.binders id ++ before.freeIds) (before.store.body id))
      before.store fun result store => before.store.Builds store result
        (.quantified ((before.store.tree id).binders ++ before.freeIds)
          (before.store.tree id).body) := by
  have valid := read.advances.valid
  have wf := valid.wellFormed
  have treeBinders := wf.binders_tree id
  have nodup : before.store.DistinctBinders →
      (before.store.binders id ++ before.freeIds).Nodup := by
    intro distinct
    rw [nodup_append]
    refine ⟨distinct.nodup_binders id, valid.nodup, ?_⟩
    rintro binder listed _ isFree rfl
    refine read.accounts.listed.not_free binder ?_ isFree
    rw [flatten_lists, treeBinders]
    exact mem_append_left _ listed
  refine (yields_quantified wf (wf.body_inside read.inside) ?_ nodup).mono ?_
  · intro binder mem
    rcases mem_append.1 mem with listed | isFree
    · exact wf.var_of_mem_binders listed
    · exact valid.vars binder (.inr isFree)
  · rintro result store ⟨built, _⟩
    rwa [treeBinders, ← wf.tree_body]

/-- With the unbound variables quantified a type outside all scopes is
closed. -/
theorem reads_generalise {start : Cursor} (read : HasRead before start id)
    (outside : before.scope = []) (nothing : start.free = []) :
    Reads (generalise id) before fun result after => after.store.ClosedType result ∧
      (after.store.tree result).ListsWithin start.store.size after.store.size ∧
        (after.store.tree result).lists.flatten.Nodup := by
  have valid := read.advances.valid
  have lists := read.accounts.listsWithin
  have occursFree : ∀ leaf ∈ (before.store.tree id).occurrences, leaf ∈ before.freeIds := by
    intro leaf occurs
    rcases read.accounts.named leaf occurs with inScope | isFree
    · simp [scopeIds, outside] at inScope
    · exact isFree
  refine keeps_get_bind ?_
  dsimp only
  split
  · next noFree =>
      refine reads_pure valid.wellFormed ⟨⟨read.inside, ?_⟩, lists, read.accounts.listed.nodup⟩
      rw [closed_iff_forall_notMem]
      intro leaf occurs
      have isFree := occursFree leaf occurs
      rw [freeIds, List.isEmpty_iff.1 noFree] at isFree
      cases isFree
  · next someFree =>
      apply reads_alloc
      refine (yields_generalised read).mono ?_
      intro result store built
      refine ⟨built.toFollows, ⟨built.inside, ?_⟩, ?_, ?_⟩
      · change (store.tree result).Closed
        rw [built.tree_eq, Closed, occurrences, filter_eq_nil_iff]
        intro leaf occurs
        rcases mem_binders_or_occurrences occurs with listed | occurs
        · simp [listed]
        · simp [occursFree leaf occurs]
      · change (store.tree result).ListsWithin start.store.size store.size
        rw [built.tree_eq]
        refine ListsWithin.mono ?_ Nat.le.refl built.grown.size_le
        have freeWithin : ∀ id ∈ before.freeIds,
            start.store.size ≤ id ∧ id < before.store.size := by
          intro id isFree
          obtain ⟨number, isVar⟩ := valid.vars id (.inr isFree)
          refine ⟨?_, lt_size_of_shape isVar (by simp)⟩
          refine (read.advances.free_new id isFree).resolve_left ?_
          simp [freeIds, nothing]
        have someIds : before.freeIds ≠ [] := by
          simpa [freeIds, List.isEmpty_iff] using someFree
        exact lists.generalised someIds freeWithin
      · change (store.tree result).lists.flatten.Nodup
        rw [built.tree_eq, (perm_flatten_lists _ _).nodup_iff, nodup_append]
        refine ⟨read.accounts.listed.nodup, valid.nodup, ?_⟩
        rintro id listed _ isFree rfl
        exact read.accounts.listed.not_free id listed isFree

theorem reads_wholeType (valid : before.Valid) (outside : before.scope = [])
    (nothing : before.free = []) (fuel : Nat) :
    Reads (wholeType fuel) before fun result after => after.store.ClosedType result ∧
      (after.store.tree result).ListsWithin before.store.size after.store.size ∧
        (after.store.tree result).lists.flatten.Nodup := by
  refine ((readsBelow fuel).type valid).bind ?_
  intro id afterType read
  refine (moves_skipBlanks.reads_sameNames read.advances.valid).bind ?_
  intro _ afterBlanks blanks
  have blanksRead := read.of_sameNames blanks
  refine (moves_get.reads_sameNames blanksRead.advances.valid).bind ?_
  intro cursor last same
  have lastRead := blanksRead.of_sameNames same
  split
  · exact reads_generalise lastRead (lastRead.advances.scope_eq.trans outside) nothing
  · exact reads_throw lastRead.advances.valid.wellFormed

end Reader

namespace Alloc

/-- A type that has been read is closed, and its quantifiers list variables that
the reading has created, each of them once. -/
theorem keeps_read {store : Store} (wf : store.WellFormed) (text : String) :
    Keeps Follows (read text) store fun id last =>
      last.ClosedType id ∧ (last.tree id).ListsWithin store.size last.size ∧
        (last.tree id).lists.flatten.Nodup :=
  Reader.reads_wholeType (valid_start wf text) rfl rfl (readingDepth text.length)

/-- A type that has been read is closed; a failed reading leaves a well-formed
store too. -/
theorem yields_read {store : Store} (wf : store.WellFormed) (text : String) :
    Yields (read text).run store fun outcome last =>
      last.Follows store ∧ ∀ id, outcome = .ok id → last.ClosedType id :=
  (keeps_read wf text).mono fun _ _ _ post => post.1

end Alloc
end PipeCheck
