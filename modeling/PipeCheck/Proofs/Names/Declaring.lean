import PipeCheck.Program.Loading
import PipeCheck.Proofs.Reading.Rejection
import PipeCheck.Proofs.Names.Scopes

/-!
# Declarations one after the other

Declaring several symbols in a row fails at the first written type that is
rejected, and at nothing else.  Otherwise the symbols have the next numbers in
order, and each has the type that was written for it, if one was.
-/

namespace PipeCheck

open List Option Declaration

namespace Declaration

/-- The change to the names in scope. -/
def step (declaration : Declaration) : NameStep :=
  .declare declaration.name declaration.span

/-- Why the written type of a declaration is rejected. -/
def badType? (declaration : Declaration) : Option BadType :=
  (declaration.type.bind Alloc.rejection?).map fun error => { symbol := declaration.name, error }

/-- The symbols of several declarations in one scope, numbered from `start` on. -/
def symbols (scope : ScopeId) (start : Nat) (declarations : List Declaration) : List Symbol :=
  declarations.mapIdx fun position declaration =>
    { id := (start + position).toUInt32, name := some declaration.name, scope,
      span := declaration.span }

/-- The bindings of several declarations, the newest last. -/
def bindings (start : Nat) (declarations : List Declaration) : List (String × SymbolId) :=
  declarations.mapIdx fun position declaration =>
    (declaration.name, (start + position).toUInt32)

/-- The number that a name has among declarations numbered from `start` on. -/
def idOf? (start : Nat) (declarations : List Declaration) (name : String) : Option SymbolId :=
  (declarations.findIdx? fun declaration => declaration.name = name).map fun position =>
    (start + position).toUInt32

end Declaration

namespace Declaration

variable {decls : List Declaration}

/-- Exactly the texts that are no written types are rejected. -/
theorem isSome_badType?_iff {decl : Declaration} :
    decl.badType?.isSome ↔
      ∃ text ∈ decl.type, ¬∃ written : Written, written.IsText text := by
  rw [badType?, isSome_map]
  cases decl.type with
  | none => simp
  | some text => simp [← Alloc.rejection?_eq_none_iff, isSome_iff_ne_none]

theorem symbols_concat (scope : ScopeId) (start : Nat) (decl : Declaration) :
    symbols scope start (decls ++ [decl]) =
      symbols scope start decls ++
        [{ id := (start + decls.length).toUInt32, name := some decl.name, scope,
           span := decl.span }] :=
  mapIdx_concat

theorem bindings_concat (start : Nat) (decl : Declaration) :
    bindings start (decls ++ [decl]) =
      bindings start decls ++
        [(decl.name, (start + decls.length).toUInt32)] :=
  mapIdx_concat

/-- Declarations add their symbols to the table and stay in the current scope. -/
theorem symbols_after (names : Names) (decls : List Declaration) :
    (names.after (decls.map step)).scopes.current = names.scopes.current ∧
      (names.after (decls.map step)).table.symbols.toList =
        names.table.symbols.toList ++
          symbols names.scopes.current names.table.size decls := by
  induction decls using List.reverseRecOn with
  | nil => exact ⟨rfl, (append_nil _).symm⟩
  | append_singleton decls decl ih =>
    obtain ⟨currentEq, symbolsEq⟩ := ih
    rw [map_append, Names.after_append]
    refine ⟨currentEq, ?_⟩
    have size_eq : (names.after (decls.map step)).table.size =
        names.table.size + decls.length := by
      rw [SymbolTable.size, ← Array.length_toList, symbolsEq, length_append, symbols,
        length_mapIdx, Array.length_toList, SymbolTable.size]
    rw [symbols_concat, ← append_assoc, ← symbolsEq, ← currentEq, ← size_eq]
    exact Array.toList_push

/-- Declarations add their bindings to the top frame. -/
theorem stack_after (stack : NameStack) (decls : List Declaration) :
    stack.after (decls.map step) =
      { frames := stack.frames.modifyHead ((bindings stack.declared decls).reverse ++ ·)
        declared := stack.declared + decls.length } := by
  induction decls using List.reverseRecOn with
  | nil =>
    have unchanged : stack.frames.modifyHead (fun frame => frame) = stack.frames := by
      cases stack.frames <;> rfl
    exact congrArg (NameStack.mk · stack.declared) unchanged.symm
  | append_singleton decls decl ih =>
    rw [map_append, NameStack.after_append, ih, bindings_concat, reverse_append, length_append]
    exact congrArg (NameStack.mk · (stack.declared + decls.length + 1)) modifyHead_modifyHead

/-- Where names are declared once, a look-up finds the declaration of the name. -/
theorem lookup_bindings (distinct : (decls.map name).Nodup) (start : Nat) (name : String) :
    (bindings start decls).reverse.lookup name = idOf? start decls name := by
  induction decls using List.reverseRecOn with
  | nil => rfl
  | append_singleton decls decl ih =>
    rw [map_append, nodup_append] at distinct
    obtain ⟨distinct, _, fresh⟩ := distinct
    rw [bindings_concat, reverse_append, reverse_singleton, singleton_append,
      lookup_cons, ih distinct, idOf?, idOf?, findIdx?_append]
    by_cases isLast : decl.name = name
    · have absent : decls.findIdx? (fun earlier => earlier.name = name) = none := by
        rw [findIdx?_eq_none_iff]
        intro earlier mem
        have different := fresh earlier.name (List.mem_map_of_mem mem) decl.name mem_cons_self
        simpa [isLast] using different
      simp [absent, isLast]
    · have different : (name == decl.name) = false := beq_false_of_ne (Ne.symm isLast)
      simp [different, isLast]

end Declaration

namespace Store

/-- A type is one that a text denotes. -/
def Reads (store : Store) (text : String) (type : TypeId) : Prop :=
  ∃ written : Written, written.IsText text ∧ type < store.size ∧ written.Denotes (store.tree type)

theorem Reads.mono {earlier later : Store} {text : String} {type : TypeId}
    (reads : earlier.Reads text type) (wf : earlier.WellFormed) (grown : later.Extends earlier) :
    later.Reads text type := by
  obtain ⟨written, isText, inside, denotes⟩ := reads
  refine ⟨written, isText, Nat.lt_of_lt_of_le inside grown.size_le, ?_⟩
  rwa [grown.tree_eq wf inside]

end Store

namespace Alloc

/-- What is read is what the text denotes. -/
theorem reads_of_read {text : String} {store last : Store} {type : TypeId}
    (wf : store.WellFormed) (runEq : (read text).run.run store = (.ok type, last)) :
    last.Follows store ∧ last.Reads text type := by
  obtain ⟨written, isText⟩ := exists_isText_of_read runEq
  have readFrom := (succeeds_readFrom wf isText).ensures type last runEq
  exact ⟨readFrom.toFollows, written, isText, readFrom.closedType.1, readFrom.denotes⟩

end Alloc

namespace Declarations

variable {declared later : Declarations} {decl : Declaration} {bad : BadType}

/-- Declares symbols without looking for names that are declared again. -/
def declareEach (declared : Declarations) (declarations : List Declaration) :
    Except BadType Declarations :=
  declarations.foldlM (fun declared declaration =>
    declared.declare declaration.name declaration.span declaration.type) declared

/-- The builtin functions as declarations. -/
def builtinDeclarations : List Declaration :=
  builtins.map fun builtin => { name := builtin.1, type := some builtin.2 }

theorem declareBuiltins_eq (declared : Declarations) :
    declared.declareBuiltins = declared.declareEach builtinDeclarations := by
  rw [declareBuiltins, declareEach, builtinDeclarations, foldlM_map]

theorem declare_eq_error_iff :
    declared.declare decl.name decl.span decl.type = .error bad ↔
      decl.badType? = some bad := by
  unfold declare badType?
  cases decl.type with
  | none => simp
  | some text =>
    have rejects := Alloc.read_eq_error_iff text declared.store
    dsimp only
    generalize (Alloc.read text).run.run declared.store = result at rejects ⊢
    obtain ⟨outcome, store⟩ := result
    cases outcome with
    | ok type =>
      cases rejected : Alloc.rejection? text with
      | none => simp [rejected]
      | some error => cases (rejects error).2 rejected
    | error error =>
      have rejected := (rejects error).1 rfl
      simp [rejected]

/-- A declaration adds a name and, if a type is written, the type that it denotes. -/
theorem declare_cases (declares : declared.declare decl.name decl.span decl.type = .ok later) :
    (decl.type = none ∧ later = { declared with names := declared.names.step decl.step }) ∨
    ∃ text type store, decl.type = some text ∧
      (Alloc.read text).run.run declared.store = (.ok type, store) ∧
      later =
        { names := declared.names.step decl.step
          types := (declared.names.table.nextId, type) :: declared.types
          store } := by
  unfold declare at declares
  dsimp only at declares
  split at declares
  · next untyped =>
      cases declares
      exact .inl ⟨untyped, rfl⟩
  · next text typeEq =>
      split at declares
      · next type store runEq =>
          cases declares
          exact .inr ⟨text, type, store, typeEq, runEq, rfl⟩
      · cases declares

theorem names_of_declare (declares : declared.declare decl.name decl.span decl.type = .ok later) :
    later.names = declared.names.step decl.step := by
  rcases declare_cases declares with ⟨_, rfl⟩ | ⟨_, _, _, _, _, rfl⟩
  · rfl
  · rfl

section Each

variable {decls : List Declaration}

theorem declareEach_cons :
    declared.declareEach (decl :: decls) =
      (declared.declare decl.name decl.span decl.type).bind fun mid =>
        mid.declareEach decls := by
  rw [declareEach, foldlM_cons]
  rfl

theorem exists_of_declareEach_cons (declares : declared.declareEach (decl :: decls) = .ok later) :
    ∃ mid, declared.declare decl.name decl.span decl.type = .ok mid ∧
      mid.declareEach decls = .ok later := by
  rw [declareEach_cons] at declares
  cases first : declared.declare decl.name decl.span decl.type with
  | error failure =>
    rw [first] at declares
    cases declares
  | ok mid =>
    rw [first] at declares
    exact ⟨mid, rfl, declares⟩

theorem declareEach_concat :
    declared.declareEach (decls ++ [decl]) =
      (declared.declareEach decls).bind fun mid =>
        mid.declare decl.name decl.span decl.type := by
  simp only [declareEach, foldlM_append, foldlM_cons, foldlM_nil, bind_pure]
  rfl

/-- A failure is that of the first written type that is rejected. -/
theorem declareEach_eq_error_iff :
    declared.declareEach decls = .error bad ↔
      decls.findSome? badType? = some bad := by
  induction decls generalizing declared with
  | nil => simp [declareEach, pure, Except.pure]
  | cons decl rest ih =>
    rw [declareEach_cons, findSome?_cons]
    cases first : declared.declare decl.name decl.span decl.type with
    | error failure =>
      rw [declare_eq_error_iff.1 first]
      simp [Except.bind]
    | ok mid =>
      have accepted : decl.badType? = none := by
        cases rejected : decl.badType? with
        | none => rfl
        | some failure => cases first.symm.trans (declare_eq_error_iff.2 rejected)
      rw [accepted]
      exact ih

theorem names_of_declareEach (declares : declared.declareEach decls = .ok later) :
    later.names = declared.names.after (decls.map step) := by
  induction decls generalizing declared with
  | nil =>
    cases declares
    rfl
  | cons decl rest ih =>
    obtain ⟨mid, first, others⟩ := exists_of_declareEach_cons declares
    rw [ih others, names_of_declare first]
    rfl

end Each

section Types

/-- Symbols whose numbers are the positions of a list have the types that are
written there, and no other symbol has a type. -/
structure Typed (declared : Declarations) (written : List (Option String)) : Prop where
  /-- The store is in order. -/
  wellFormed : declared.store.WellFormed
  /-- There is a symbol for each position. -/
  size_eq : declared.names.table.size = written.length
  /-- Each symbol has the type written for it. -/
  reads : ∀ id : SymbolId,
    Option.Rel declared.store.Reads (written[id.toNat]?).join (declared.types.lookup id)

variable {written : List (Option String)}

theorem typed_empty : ({} : Declarations).Typed [] :=
  ⟨Store.wellFormed_empty, rfl, fun _ => .none⟩

/-- Entering a scope leaves the types as they are. -/
theorem Typed.push (typed : declared.Typed written) :
    { declared with names := declared.names.push : Declarations }.Typed written :=
  ⟨typed.wellFormed, typed.size_eq, typed.reads⟩

theorem Typed.of_declare (typed : declared.Typed written)
    (inside : declared.names.table.size < UInt32.size)
    (declares : declared.declare decl.name decl.span decl.type = .ok later) :
    later.Typed (written ++ [decl.type]) := by
  have nextId : declared.names.table.nextId.toNat = written.length :=
    (UInt32.toNat_ofNat_of_lt' inside).trans typed.size_eq
  have size_eq : later.names.table.size = (written ++ [decl.type]).length := by
    rw [names_of_declare declares, length_append, ← typed.size_eq]
    exact SymbolTable.size_insert _ _ _ _
  -- The other positions of the longer list say what they said before.
  have others : ∀ id : SymbolId, id.toNat ≠ written.length →
      (written ++ [decl.type])[id.toNat]? = written[id.toNat]? := by
    intro id other
    rcases Nat.lt_or_gt_of_ne other with before | beyond
    · exact getElem?_append_left before
    · rw [getElem?_eq_none (by simp; omega), getElem?_eq_none (by omega)]
  rcases declare_cases declares with
    ⟨untyped, rfl⟩ | ⟨text, type, store, typeEq, runEq, rfl⟩
  · refine ⟨typed.wellFormed, size_eq, ?_⟩
    intro id
    by_cases isNew : id.toNat = written.length
    · have absent := typed.reads id
      rw [isNew, getElem?_eq_none (Nat.le_refl _)] at absent
      rw [isNew, getElem?_concat_length, untyped]
      exact absent
    · rw [others id isNew]
      exact typed.reads id
  · obtain ⟨follows, reads⟩ := Alloc.reads_of_read typed.wellFormed runEq
    refine ⟨follows.wellFormed, size_eq, ?_⟩
    intro id
    by_cases isNew : id.toNat = written.length
    · obtain rfl : id = declared.names.table.nextId := UInt32.toNat_inj.1 (isNew.trans nextId.symm)
      rw [isNew, getElem?_concat_length, typeEq, lookup_cons_self]
      exact .some reads
    · have otherId : (id == declared.names.table.nextId) = false :=
        beq_false_of_ne fun idEq => isNew (idEq ▸ nextId)
      have earlier := typed.reads id
      rw [others id isNew, lookup_cons, otherId]
      -- The types that were read before are still there.
      generalize (written[id.toNat]?).join = expected, declared.types.lookup id = found at earlier ⊢
      cases earlier with
      | none => exact .none
      | some reads => exact .some (reads.mono typed.wellFormed follows.grown)

/-- Each of several declared symbols has the type that is written for it. -/
theorem Typed.of_declareEach {decls : List Declaration} (typed : declared.Typed written)
    (inside : declared.names.table.size + decls.length ≤ UInt32.size)
    (declares : declared.declareEach decls = .ok later) :
    later.Typed (written ++ decls.map type) := by
  induction decls generalizing declared written with
  | nil =>
    cases declares
    rwa [map_nil, append_nil]
  | cons decl rest ih =>
    obtain ⟨mid, first, others⟩ := exists_of_declareEach_cons declares
    rw [length_cons] at inside
    have midTyped := typed.of_declare (by omega) first
    have size_eq : mid.names.table.size = declared.names.table.size + 1 := by
      rw [midTyped.size_eq, typed.size_eq, length_append, length_singleton]
    rw [map_cons, append_cons]
    exact ih midTyped (by omega) others

end Types

end Declarations
end PipeCheck
