import Mathlib.Data.List.Basic
import PipeCheck.Names.Symbol

/-!
# Scopes as a stack of frames

Scopes stay in their tree when they are left, and a name is looked up along the
parents of the current scope.  All the same a look-up gives what a stack of frames
gives, to which entering a scope adds an empty frame and from which leaving it
takes one.  Where every name has been bound by declaring it, the symbol that is
found was declared under that name in the current scope or in one around it.
-/

namespace PipeCheck

open List Option ScopeTree SymbolTable

/-- A change to the names in scope. -/
inductive NameStep where
  | push
  | pop
  | define (name : String) (symbol : SymbolId)
  | declare (name : String) (span : Span)
deriving DecidableEq, Repr

namespace NameStep

/-- Whether a step binds a name to a symbol that was not declared with it. -/
def isDefine : NameStep → Bool
  | .define _ _ => true
  | _ => false

end NameStep

namespace Names

/-- The names after a change. -/
def step (names : Names) : NameStep → Names
  | .push => names.push
  | .pop => names.pop
  | .define name symbol => { names with scopes := names.scopes.define name symbol }
  | .declare name span => names.declare name span

/-- The names after several changes. -/
def after (names : Names) (steps : List NameStep) : Names :=
  steps.foldl step names

theorem after_append (names : Names) (steps further : List NameStep) :
    names.after (steps ++ further) = (names.after steps).after further :=
  foldl_append

end Names

/-- Frames of bindings, the innermost frame and the newest binding first, and the
number of declared symbols. -/
structure NameStack where
  /-- The bindings of the open scopes. -/
  frames : List (List (String × SymbolId)) := [[]]
  /-- The number of declared symbols. -/
  declared : Nat := 0

namespace NameStack

variable (stack : NameStack)

/-- Adds an empty frame. -/
def push : NameStack :=
  { stack with frames := [] :: stack.frames }

/-- Removes the top frame unless it is the only one. -/
def pop : NameStack :=
  { stack with frames := if stack.frames.length ≤ 1 then stack.frames else stack.frames.tail }

/-- Binds a name in the top frame. -/
def define (name : String) (symbol : SymbolId) : NameStack :=
  { stack with frames := stack.frames.modifyHead ((name, symbol) :: ·) }

/-- Binds a name to the next symbol. -/
def declare (name : String) : NameStack :=
  { stack.define name stack.declared.toUInt32 with declared := stack.declared + 1 }

/-- The first binding of a name, from the top frame down. -/
def lookup (name : String) : Option SymbolId :=
  stack.frames.findSome? fun frame => frame.lookup name

/-- The stack after a change. -/
def step : NameStep → NameStack
  | .push => stack.push
  | .pop => stack.pop
  | .define name symbol => stack.define name symbol
  | .declare name _ => stack.declare name

/-- The stack after several changes. -/
def after (steps : List NameStep) : NameStack :=
  steps.foldl step stack

theorem after_append (steps further : List NameStep) :
    stack.after (steps ++ further) = (stack.after steps).after further :=
  foldl_append

end NameStack

namespace ScopeTree

/-- Every scope has its own number, parents come before their children, and the
current scope exists. -/
structure WellFormed (tree : ScopeTree) : Prop where
  /-- The current scope exists. -/
  current_lt : tree.current < tree.scopes.size
  /-- A scope has the number of its place. -/
  id_eq : ∀ {id scope}, tree.get? id = some scope → scope.id = id
  /-- Parents come before their children. -/
  parent_lt : ∀ {id scope parent}, tree.get? id = some scope → scope.parent = some parent →
    parent < id

/-- A scope is another or lies inside it, parents leading from one to the
other. -/
inductive Within (tree : ScopeTree) : (inner outer : ScopeId) → Prop
  | self {id : ScopeId} {scope : Scope} : tree.get? id = some scope → Within tree id id
  | parent {inner parent outer : ScopeId} {scope : Scope} : tree.get? inner = some scope →
      scope.parent = some parent → Within tree parent outer → Within tree inner outer

/-- The bindings of the current scope and of those around it. -/
def frames (tree : ScopeTree) : List (List (String × SymbolId)) :=
  (tree.chain tree.current).map fun scope => scope.bindings.reverse

theorem lookup_eq_findSome? (tree : ScopeTree) (name : String) :
    tree.lookup name = tree.frames.findSome? fun frame => frame.lookup name := by
  rw [frames, findSome?_map]
  rfl

section Chains

variable {tree other : ScopeTree} {id : ScopeId} {scope : Scope}

theorem lt_size_of_get? (found : tree.get? id = some scope) : id < tree.scopes.size :=
  (Array.getElem?_eq_some_iff.1 found).1

theorem get?_eq_some_of_lt (inside : id < tree.scopes.size) : ∃ scope, tree.get? id = some scope :=
  ⟨_, Array.getElem?_eq_getElem inside⟩

/-- A chain depends on the scopes up to its start only, and any number of steps
above it leads to its end. -/
theorem WellFormed.chainWithin_congr (wf : tree.WellFormed)
    (agree : ∀ place ≤ id, other.get? place = tree.get? place) {steps otherSteps : Nat}
    (enough : id < steps) (otherEnough : id < otherSteps) :
    other.chainWithin otherSteps id = tree.chainWithin steps id := by
  induction id using Nat.strongRecOn generalizing steps otherSteps with
  | ind id ih =>
    obtain ⟨steps, rfl⟩ := Nat.exists_eq_add_one.2 (Nat.zero_lt_of_lt enough)
    obtain ⟨otherSteps, rfl⟩ := Nat.exists_eq_add_one.2 (Nat.zero_lt_of_lt otherEnough)
    rw [chainWithin, chainWithin, agree id (Nat.le_refl id)]
    cases found : tree.get? id with
    | none => rfl
    | some scope =>
      cases parentEq : scope.parent with
      | none => simp [parentEq]
      | some parent =>
        have below := wf.parent_lt found parentEq
        have parentChain := ih parent below
          (fun place before => agree place (Nat.le_trans before (Nat.le_of_lt below)))
          (Nat.lt_of_lt_of_le below (Nat.le_of_lt_succ enough))
          (Nat.lt_of_lt_of_le below (Nat.le_of_lt_succ otherEnough))
        simp [parentEq, parentChain]

theorem WellFormed.chain_congr (wf : tree.WellFormed) (inside : id < tree.scopes.size)
    (otherInside : id < other.scopes.size)
    (agree : ∀ place ≤ id, other.get? place = tree.get? place) :
    other.chain id = tree.chain id :=
  wf.chainWithin_congr agree inside otherInside

/-- A chain goes on with the chain of the parent. -/
theorem WellFormed.chain_eq (wf : tree.WellFormed) (found : tree.get? id = some scope) :
    tree.chain id = scope :: scope.parent.elim [] tree.chain := by
  have inside := lt_size_of_get? found
  obtain ⟨size, sizeEq⟩ := Nat.exists_eq_add_one.2 (Nat.zero_lt_of_lt inside)
  rw [chain, sizeEq, chainWithin, found]
  cases parentEq : scope.parent with
  | none => simp [parentEq]
  | some parent =>
    have below := wf.parent_lt found parentEq
    have parentChain : tree.chainWithin size parent = tree.chain parent :=
      wf.chainWithin_congr (fun _ _ => rfl) (Nat.lt_trans below inside)
        (Nat.lt_of_lt_of_le below (Nat.le_of_lt_succ (Nat.lt_of_lt_of_eq inside sizeEq)))
    simp [parentEq, parentChain]

theorem exists_get?_of_mem_chain (mem : scope ∈ tree.chain id) :
    ∃ start, tree.get? id = some start := by
  rw [chain] at mem
  generalize tree.scopes.size = steps at mem
  cases steps with
  | zero => cases mem
  | succ steps =>
    cases found : tree.get? id with
    | none => simp [chainWithin, found] at mem
    | some start => exact ⟨start, rfl⟩

theorem WellFormed.within_of_mem_chain (wf : tree.WellFormed) (mem : scope ∈ tree.chain id) :
    tree.Within id scope.id ∧ tree.get? scope.id = some scope := by
  induction id using Nat.strongRecOn with
  | ind id ih =>
    obtain ⟨start, found⟩ := exists_get?_of_mem_chain mem
    rw [wf.chain_eq found, mem_cons] at mem
    rcases mem with rfl | further
    · rw [wf.id_eq found]
      exact ⟨.self found, found⟩
    · cases parentEq : start.parent with
      | none =>
        rw [parentEq] at further
        cases further
      | some parent =>
        rw [parentEq] at further
        obtain ⟨within, scopeFound⟩ := ih parent (wf.parent_lt found parentEq) further
        exact ⟨.parent found parentEq within, scopeFound⟩

/-- The walk along the parents of a scope meets the scopes that it lies in. -/
theorem WellFormed.isInside_iff (wf : tree.WellFormed) {inner outer : ScopeId} :
    tree.isInside inner outer ↔ tree.Within inner outer := by
  rw [isInside, List.any_eq_true]
  constructor
  · rintro ⟨scope, mem, isOuter⟩
    obtain rfl := of_decide_eq_true isOuter
    exact (wf.within_of_mem_chain mem).1
  · intro within
    induction within with
    | self found =>
      rw [wf.chain_eq found]
      exact ⟨_, mem_cons_self, decide_eq_true (wf.id_eq found)⟩
    | parent found parentEq _ ih =>
      obtain ⟨scope, mem, isOuter⟩ := ih
      rw [wf.chain_eq found, parentEq]
      exact ⟨scope, mem_cons_of_mem _ mem, isOuter⟩

/-- Scopes further out have smaller numbers. -/
theorem WellFormed.le_of_within (wf : tree.WellFormed) {inner outer : ScopeId}
    (within : tree.Within inner outer) :
    outer ≤ inner := by
  induction within with
  | self found => exact Nat.le_refl _
  | parent found parentEq _ ih =>
    exact Nat.le_trans ih (Nat.le_of_lt (wf.parent_lt found parentEq))

end Chains

section Changes

variable {tree : ScopeTree} {id : ScopeId} {scope : Scope}

theorem get?_push_of_lt (inside : id < tree.scopes.size) : tree.push.get? id = tree.get? id := by
  simp [push, get?, Array.getElem?_push, Nat.ne_of_lt inside]

theorem get?_push_current :
    tree.push.get? tree.push.current =
      some { id := tree.scopes.size, parent := some tree.current, bindings := [] } := by
  simp [push, get?]

/-- After a scope is opened, a scope is an old one or the opened one. -/
theorem get?_push_cases (found : tree.push.get? id = some scope) :
    tree.get? id = some scope ∨ id = tree.scopes.size ∧
      scope = { id := tree.scopes.size, parent := some tree.current, bindings := [] } := by
  by_cases opened : id = tree.scopes.size
  · subst opened
    exact .inr ⟨rfl, Option.some.inj (found.symm.trans get?_push_current)⟩
  · have bound : id < tree.push.scopes.size := lt_size_of_get? found
    have inside : id < tree.scopes.size := by
      rw [push, Array.size_push] at bound
      exact Nat.lt_of_le_of_ne (Nat.le_of_lt_succ bound) opened
    exact .inl (get?_push_of_lt inside ▸ found)

/-- Leaving a scope leads to its parent, if it has one. -/
theorem pop_eq (found : tree.get? tree.current = some scope) :
    tree.pop = { tree with current := scope.parent.getD tree.current } := by
  rw [pop, found, bind_some]
  cases scope.parent <;> rfl

theorem get?_pop : tree.pop.get? id = tree.get? id := by
  rw [pop]
  split <;> rfl

/-- A definition changes the bindings of the current scope and nothing else. -/
theorem get?_define (name : String) (symbol : SymbolId) :
    (tree.define name symbol).get? id =
      (tree.get? id).map fun scope =>
        if id = tree.current then { scope with bindings := scope.bindings ++ [(name, symbol)] }
        else scope := by
  rw [get?, define, Array.getElem?_modify]
  by_cases current : id = tree.current
  · simp [get?, current]
  · simp [get?, current, Ne.symm current]

end Changes

section Keeping

variable {tree : ScopeTree}

theorem wellFormed_new : new.WellFormed where
  current_lt := Nat.zero_lt_one
  id_eq := by
    intro id scope found
    obtain ⟨inside, rfl⟩ := Array.getElem?_eq_some_iff.1 found
    obtain rfl := Nat.lt_one_iff.1 inside
    rfl
  parent_lt := by
    intro id scope parent found parentEq
    obtain ⟨inside, rfl⟩ := Array.getElem?_eq_some_iff.1 found
    obtain rfl := Nat.lt_one_iff.1 inside
    cases parentEq

theorem WellFormed.push (wf : tree.WellFormed) : tree.push.WellFormed where
  current_lt := by simp [ScopeTree.push]
  id_eq := by
    intro id scope found
    rcases get?_push_cases found with old | ⟨rfl, rfl⟩
    · exact wf.id_eq old
    · rfl
  parent_lt := by
    intro id scope parent found parentEq
    rcases get?_push_cases found with old | ⟨rfl, rfl⟩
    · exact wf.parent_lt old parentEq
    · cases parentEq
      exact wf.current_lt

theorem WellFormed.pop (wf : tree.WellFormed) : tree.pop.WellFormed where
  current_lt := by
    obtain ⟨scope, found⟩ := get?_eq_some_of_lt wf.current_lt
    rw [pop_eq found]
    cases parentEq : scope.parent with
    | none => exact wf.current_lt
    | some parent =>
      exact Nat.lt_trans (wf.parent_lt found parentEq) wf.current_lt
  id_eq found := wf.id_eq (get?_pop ▸ found)
  parent_lt found := wf.parent_lt (get?_pop ▸ found)

theorem WellFormed.define (wf : tree.WellFormed) (name : String) (symbol : SymbolId) :
    (tree.define name symbol).WellFormed where
  current_lt := by
    rw [ScopeTree.define, Array.size_modify]
    exact wf.current_lt
  id_eq := by
    intro id scope found
    rw [get?_define] at found
    obtain ⟨old, oldFound, rfl⟩ := map_eq_some_iff.1 found
    rw [← wf.id_eq oldFound]
    split <;> rfl
  parent_lt := by
    intro id scope parent found parentEq
    rw [get?_define] at found
    obtain ⟨old, oldFound, rfl⟩ := map_eq_some_iff.1 found
    refine wf.parent_lt oldFound ?_
    rw [← parentEq]
    split <;> rfl

end Keeping

section Frames

variable {tree : ScopeTree} {scope : Scope}

theorem WellFormed.frames_eq (wf : tree.WellFormed) (found : tree.get? tree.current = some scope) :
    tree.frames = scope.bindings.reverse ::
      (scope.parent.elim [] tree.chain).map fun outer => outer.bindings.reverse := by
  rw [frames, wf.chain_eq found, map_cons]

theorem frames_new : new.frames = [[]] := rfl

theorem WellFormed.frames_push (wf : tree.WellFormed) :
    tree.push.frames = [] :: tree.frames := by
  have outer : tree.push.chain tree.current = tree.chain tree.current := by
    refine wf.chain_congr wf.current_lt ?_ ?_
    · rw [ScopeTree.push, Array.size_push]
      exact Nat.lt_succ_of_lt wf.current_lt
    · intro place before
      exact get?_push_of_lt (Nat.lt_of_le_of_lt before wf.current_lt)
  rw [wf.push.frames_eq get?_push_current, elim_some, outer]
  rfl

theorem WellFormed.frames_pop (wf : tree.WellFormed) :
    tree.pop.frames = if tree.frames.length ≤ 1 then tree.frames else tree.frames.tail := by
  obtain ⟨scope, found⟩ := get?_eq_some_of_lt wf.current_lt
  rw [wf.frames_eq found, pop_eq found]
  cases parentEq : scope.parent with
  | none =>
    rw [if_pos (by simp)]
    simpa [parentEq] using wf.frames_eq found
  | some parent =>
    -- The frames of the parent are what remains, and there is one.
    have inside := Nat.lt_trans (wf.parent_lt found parentEq) wf.current_lt
    obtain ⟨outer, outerFound⟩ := get?_eq_some_of_lt inside
    rw [if_neg (by simp [wf.chain_eq outerFound]), tail_cons]
    exact congrArg (List.map _) (wf.chain_congr inside inside fun _ _ => rfl)

theorem WellFormed.frames_define (wf : tree.WellFormed) (name : String) (symbol : SymbolId) :
    (tree.define name symbol).frames = tree.frames.modifyHead ((name, symbol) :: ·) := by
  obtain ⟨scope, found⟩ := get?_eq_some_of_lt wf.current_lt
  have changed : (tree.define name symbol).get? tree.current =
      some { scope with bindings := scope.bindings ++ [(name, symbol)] } := by
    rw [get?_define, found, map_some, if_pos rfl]
  rw [(wf.define name symbol).frames_eq changed, wf.frames_eq found,
    modifyHead_cons, reverse_append]
  cases parentEq : scope.parent with
  | none => rfl
  | some parent =>
    -- The change is further in than the scopes around the current one.
    have below := wf.parent_lt found parentEq
    have inside := Nat.lt_trans below wf.current_lt
    have outer : (tree.define name symbol).chain parent = tree.chain parent := by
      refine wf.chain_congr inside ?_ ?_
      · rwa [ScopeTree.define, Array.size_modify]
      · intro place before
        rw [get?_define]
        simp [Nat.ne_of_lt (Nat.lt_of_le_of_lt before below)]
    rw [elim_some, elim_some, outer]
    rfl

end Frames

end ScopeTree

theorem SymbolTable.size_insert (table : SymbolTable) (name : Option String) (scope : ScopeId)
    (span : Span) :
    (table.insert name scope span).size = table.size + 1 := by
  rw [size, insert, Array.size_push]
  rfl

/-- Names and a stack of frames that say the same. -/
structure Names.Mirrors (names : Names) (stack : NameStack) : Prop where
  /-- The scopes are in order. -/
  wellFormed : names.scopes.WellFormed
  /-- The open scopes are the frames. -/
  frames_eq : names.scopes.frames = stack.frames
  /-- As many symbols are declared. -/
  size_eq : names.table.size = stack.declared

namespace Names

variable {names : Names} {stack : NameStack}

theorem mirrors_new : ({} : Names).Mirrors {} :=
  ⟨wellFormed_new, frames_new, rfl⟩

theorem Mirrors.lookup_eq (mirrors : names.Mirrors stack) (name : String) :
    names.scopes.lookup name = stack.lookup name := by
  rw [lookup_eq_findSome?, mirrors.frames_eq, NameStack.lookup]

/-- A change keeps names and their stack in agreement. -/
theorem Mirrors.step (mirrors : names.Mirrors stack) (step : NameStep) :
    (names.step step).Mirrors (stack.step step) := by
  have wf := mirrors.wellFormed
  cases step with
  | push =>
    refine ⟨wf.push, ?_, mirrors.size_eq⟩
    exact wf.frames_push.trans (congrArg ([] :: ·) mirrors.frames_eq)
  | pop =>
    refine ⟨wf.pop, ?_, mirrors.size_eq⟩
    rw [Names.step, pop, wf.frames_pop, mirrors.frames_eq]
    rfl
  | define name symbol =>
    refine ⟨wf.define name symbol, ?_, mirrors.size_eq⟩
    rw [Names.step, wf.frames_define, mirrors.frames_eq]
    rfl
  | declare name span =>
    refine ⟨wf.define name _, ?_, ?_⟩
    · rw [Names.step, declare, wf.frames_define, mirrors.frames_eq, nextId, mirrors.size_eq]
      rfl
    · exact (size_insert _ _ _ _).trans (congrArg (· + 1) mirrors.size_eq)

theorem Mirrors.after (mirrors : names.Mirrors stack) (steps : List NameStep) :
    (names.after steps).Mirrors (stack.after steps) := by
  induction steps generalizing names stack with
  | nil => exact mirrors
  | cons first rest ih => exact ih (mirrors.step first)

end Names

theorem Scope.mem_bindings_of_find? {scope : Scope} {name : String} {id : SymbolId}
    (found : scope.find? name = some id) :
    (name, id) ∈ scope.bindings := by
  obtain ⟨newer, older, bindingsEq, _⟩ := lookup_eq_some_iff.1 found
  rw [← mem_reverse, bindingsEq]
  exact mem_append_right newer mem_cons_self

namespace SymbolTable

/-- The symbol with a given number was declared under a name in a scope. -/
def Records (table : SymbolTable) (id : SymbolId) (name : String) (scope : ScopeId) : Prop :=
  ∃ symbol, table.get? id = some symbol ∧ symbol.name = some name ∧ symbol.scope = scope

variable {table : SymbolTable}

theorem get?_insert {id : SymbolId} {symbol : Symbol} (found : table.get? id = some symbol)
    (name : Option String) (scope : ScopeId) (span : Span) :
    (table.insert name scope span).get? id = some symbol := by
  obtain ⟨inside, rfl⟩ := Array.getElem?_eq_some_iff.1 found
  rw [get?, insert, Array.getElem?_push_lt inside]

theorem get?_insert_nextId (inside : table.size < UInt32.size) (name : Option String)
    (scope : ScopeId) (span : Span) :
    (table.insert name scope span).get? table.nextId =
      some { id := table.nextId, name, scope, span } := by
  have position : table.nextId.toNat = table.symbols.size := UInt32.toNat_ofNat_of_lt' inside
  rw [get?, insert, position, Array.getElem?_push_size]

end SymbolTable

namespace Names

variable {names : Names}

/-- Every binding of a scope is of a symbol that was declared under that name in
that scope. -/
structure Faithful (names : Names) : Prop where
  /-- The scopes are in order. -/
  wellFormed : names.scopes.WellFormed
  /-- The table has every bound symbol. -/
  records : ∀ {place scope name id}, names.scopes.get? place = some scope →
    (name, id) ∈ scope.bindings → names.table.Records id name place

theorem faithful_new : ({} : Names).Faithful where
  wellFormed := wellFormed_new
  records := by
    intro place scope name id found bound
    obtain ⟨inside, rfl⟩ := Array.getElem?_eq_some_iff.1 found
    obtain rfl := Nat.lt_one_iff.1 inside
    cases bound

theorem Faithful.push (faithful : names.Faithful) : names.push.Faithful where
  wellFormed := faithful.wellFormed.push
  records := by
    intro place scope name id found bound
    rcases get?_push_cases found with old | ⟨rfl, rfl⟩
    · exact faithful.records old bound
    · cases bound

theorem Faithful.pop (faithful : names.Faithful) : names.pop.Faithful where
  wellFormed := faithful.wellFormed.pop
  records := by
    intro place scope name id found
    rw [Names.pop, get?_pop] at found
    exact faithful.records found

theorem Faithful.declare (faithful : names.Faithful) (inside : names.table.size < UInt32.size)
    (name : String) (span : Span) :
    (names.declare name span).Faithful where
  wellFormed := faithful.wellFormed.define name _
  records := by
    intro place scope bound id found mem
    have kept : ∀ {old}, names.scopes.get? place = some old → (bound, id) ∈ old.bindings →
        (names.declare name span).table.Records id bound place := by
      intro old oldFound oldMem
      obtain ⟨symbol, symbolFound, nameEq, scopeEq⟩ := faithful.records oldFound oldMem
      exact ⟨symbol, get?_insert symbolFound _ _ _, nameEq, scopeEq⟩
    rw [Names.declare, get?_define] at found
    obtain ⟨old, oldFound, rfl⟩ := map_eq_some_iff.1 found
    by_cases current : place = names.scopes.current
    · rw [if_pos current, mem_append, mem_singleton] at mem
      rcases mem with earlier | latest
      · exact kept oldFound earlier
      · cases latest
        exact ⟨_, get?_insert_nextId inside _ _ _, rfl, current.symm⟩
    · rw [if_neg current] at mem
      exact kept oldFound mem

theorem size_le_size_step (names : Names) (step : NameStep) :
    names.table.size ≤ (names.step step).table.size := by
  cases step with
  | declare name span =>
    rw [Names.step, declare, size_insert]
    exact Nat.le_succ _
  | push | pop | define => exact Nat.le_refl _

theorem size_le_size_after (names : Names) (steps : List NameStep) :
    names.table.size ≤ (names.after steps).table.size := by
  induction steps generalizing names with
  | nil => exact Nat.le_refl _
  | cons first rest ih =>
    exact Nat.le_trans (names.size_le_size_step first) (ih _)

section

variable (faithful : names.Faithful)

include faithful

theorem Faithful.step {step : NameStep} (declared : ¬step.isDefine)
    (inside : (names.step step).table.size ≤ UInt32.size) :
    (names.step step).Faithful := by
  cases step with
  | push => exact faithful.push
  | pop => exact faithful.pop
  | define name symbol => exact absurd rfl declared
  | declare name span =>
    rw [Names.step, Names.declare, size_insert] at inside
    exact faithful.declare inside name span

theorem Faithful.after {steps : List NameStep} (declared : ∀ step ∈ steps, ¬step.isDefine)
    (inside : (names.after steps).table.size ≤ UInt32.size) :
    (names.after steps).Faithful := by
  induction steps generalizing names with
  | nil => exact faithful
  | cons first rest ih =>
    have stepped : (names.step first).Faithful :=
      faithful.step (declared first mem_cons_self)
        (Nat.le_trans (size_le_size_after _ rest) inside)
    exact ih stepped (fun step mem => declared step (mem_cons_of_mem first mem)) inside

/-- The symbol that a name denotes was declared under it, in the current scope or
in one around it. -/
theorem Faithful.records_lookup {name : String} {id : SymbolId}
    (found : names.scopes.lookup name = some id) :
    ∃ scope, names.table.Records id name scope ∧
      names.scopes.Within names.scopes.current scope := by
  obtain ⟨scope, mem, scopeFound⟩ := exists_of_findSome?_eq_some found
  obtain ⟨within, place⟩ := faithful.wellFormed.within_of_mem_chain mem
  exact ⟨scope.id, faithful.records place (Scope.mem_bindings_of_find? scopeFound), within⟩

/-- A name counts as declared already if the innermost frame binds it. -/
theorem Faithful.previous?_eq (name : String) :
    names.previous? name =
      ((names.scopes.frames.headD []).lookup name).bind names.table.get? := by
  have wf := faithful.wellFormed
  obtain ⟨scope, found⟩ := ScopeTree.get?_eq_some_of_lt wf.current_lt
  rw [wf.frames_eq found, headD_cons, previous?, ScopeTree.lookup,
    wf.chain_eq found, findSome?_cons]
  cases here : scope.find? name with
  | some id =>
    obtain ⟨symbol, symbolFound, _, scopeEq⟩ :=
      faithful.records found (Scope.mem_bindings_of_find? here)
    have isInside : names.scopes.isInside symbol.scope names.scopes.current := by
      rw [scopeEq, wf.isInside_iff]
      exact .self found
    rw [Scope.find?] at here
    simp [here, symbolFound, isInside]
  | none =>
    rw [Scope.find?] at here
    rw [here, bind_none, filter_eq_none_iff]
    intro symbol symbolFound isInside
    obtain ⟨id, further, symbolFound⟩ := bind_eq_some_iff.1 symbolFound
    obtain ⟨outer, mem, outerFound⟩ := exists_of_findSome?_eq_some further
    cases parentEq : scope.parent with
    | none =>
      rw [parentEq] at mem
      cases mem
    | some parent =>
      -- What is found further out lies outside the current scope.
      rw [parentEq] at mem
      have below := wf.parent_lt found parentEq
      obtain ⟨within, place⟩ := wf.within_of_mem_chain mem
      obtain ⟨other, otherFound, _, scopeEq⟩ :=
        faithful.records place (Scope.mem_bindings_of_find? outerFound)
      obtain rfl : other = symbol := Option.some.inj (otherFound.symm.trans symbolFound)
      rw [scopeEq, wf.isInside_iff] at isInside
      have outerLe := wf.le_of_within within
      have currentLe := wf.le_of_within isInside
      exact absurd (Nat.le_trans currentLe outerLe) (Nat.not_le_of_lt below)

end

theorem resolve_eq_ok_iff (names : Names) (name : String) (span : Span) (id : SymbolId) :
    names.resolve name span = .ok id ↔ names.scopes.lookup name = some id := by
  rw [resolve]
  cases names.scopes.lookup name <;> simp

/-- Looking a name up after any changes gives what the same changes to a stack of
frames give.  Where names were bound by declaring them only, and the symbols have
numbers of their own, the name resolves to what the look-up finds: a symbol that
was declared under it, in the current scope or in one around it. -/
theorem lookup_after_eq_lookup (steps : List NameStep) (name : String) :
    (({} : Names).after steps).scopes.lookup name = (({} : NameStack).after steps).lookup name ∧
      ((∀ step ∈ steps, ¬step.isDefine) →
        (({} : Names).after steps).table.size ≤ UInt32.size →
        ∀ id, (({} : NameStack).after steps).lookup name = some id →
          (∀ span, (({} : Names).after steps).resolve name span = .ok id) ∧
          ∃ symbol, (({} : Names).after steps).table.get? id = some symbol ∧
            symbol.name = some name ∧
            (({} : Names).after steps).scopes.Within
              (({} : Names).after steps).scopes.current symbol.scope) := by
  have lookup_eq := (mirrors_new.after steps).lookup_eq name
  refine ⟨lookup_eq, ?_⟩
  intro declared inside id found
  rw [← lookup_eq] at found
  refine ⟨fun span => (resolve_eq_ok_iff _ name span id).2 found, ?_⟩
  obtain ⟨scope, ⟨symbol, symbolFound, nameEq, rfl⟩, within⟩ :=
    (faithful_new.after declared inside).records_lookup found
  exact ⟨symbol, symbolFound, nameEq, within⟩

/-- A name that is declared in the global scope, in one that is left again and in
one beside that. -/
def reopened : List NameStep :=
  [.declare "x" {}, .push, .declare "x" {}, .pop, .push, .declare "y" {}]

theorem lookup_after_eq_lookup_reopened :
    (({} : Names).after reopened).scopes.lookup "x" = some 0 ∧
      (({} : Names).after reopened).resolve "y" {} = .ok 2 ∧
      ∃ symbol, (({} : Names).after reopened).table.get? 2 = some symbol ∧
        symbol.name = some "y" ∧
        (({} : Names).after reopened).scopes.Within
          (({} : Names).after reopened).scopes.current symbol.scope := by
  have resolved := (lookup_after_eq_lookup reopened "y").2 (by decide) (by decide) 2 (by decide)
  exact ⟨(lookup_after_eq_lookup reopened "x").1.trans (by decide), resolved.1 {}, resolved.2⟩

end Names
end PipeCheck
