import PipeCheck.Proofs.Names.Declaring
import PipeCheck.Proofs.Expr.Nodes

/-!
# Names bound by loading

Of the declarations of one name the first one counts.  Loading numbers the builtin
functions and then those declarations, binds references to them by name, and
reports every other declaration and every reference that stays without symbol.  It
fails exactly if the written type of a declaration that counts is rejected.
-/

namespace PipeCheck

open List Option Declaration Document

namespace Declaration

variable {β : Type} {declarations : List Declaration} {decl : Declaration}

/-- The first declaration of a name. -/
def firstNamed? (declarations : List Declaration) (name : String) : Option Declaration :=
  declarations.find? fun declaration => declaration.name = name

/-- What declarations give rise to, each judged together with the first one of its
name among those before it. -/
def gather (judge : Option Declaration → Declaration → Option β)
    (declarations : List Declaration) : List β :=
  declarations.zipIdx.filterMap fun entry =>
    judge (firstNamed? (declarations.take entry.2) entry.1.name) entry.1

/-- The first declaration of each name. -/
def kept : List Declaration → List Declaration :=
  gather fun earlier declaration => if earlier.isNone then some declaration else none

/-- The errors of the other declarations. -/
def repeated : List Declaration → List NameError :=
  gather fun earlier declaration => earlier.map fun first =>
    .duplicateDefinition declaration.name first.span declaration.span

theorem gather_concat (judge : Option Declaration → Declaration → Option β) :
    gather judge (declarations ++ [decl]) =
      gather judge declarations ++
        (judge (firstNamed? declarations decl.name) decl).toList := by
  rw [gather, zipIdx_append, filterMap_append, gather]
  congr 1
  -- What stands before an earlier declaration has not changed.
  · refine filterMap_congr ?_
    rintro ⟨entry, position⟩ mem
    have before := (mem_zipIdx' mem).1
    rw [take_append_of_le_length (Nat.le_of_lt before)]
  · rw [Nat.zero_add, zipIdx_singleton, filterMap_cons, take_left]
    cases judge (firstNamed? declarations decl.name) decl <;> rfl

theorem kept_concat_of_none (fresh : firstNamed? declarations decl.name = none) :
    kept (declarations ++ [decl]) = kept declarations ++ [decl] := by
  rw [kept, gather_concat, fresh]
  rfl

theorem kept_concat_of_some {first : Declaration}
    (found : firstNamed? declarations decl.name = some first) :
    kept (declarations ++ [decl]) = kept declarations := by
  rw [kept, gather_concat, found]
  exact append_nil _

theorem firstNamed?_concat (name : String) :
    firstNamed? (declarations ++ [decl]) name =
      (firstNamed? declarations name).or
        (if decl.name = name then some decl else none) := by
  rw [firstNamed?, find?_append, firstNamed?]
  by_cases named : decl.name = name <;> simp [named]

/-- Each name has the same first declaration among those that are kept. -/
theorem firstNamed?_kept (declarations : List Declaration) (name : String) :
    firstNamed? (kept declarations) name = firstNamed? declarations name := by
  induction declarations using reverseRecOn with
  | nil => rfl
  | append_singleton declarations decl ih =>
    cases found : firstNamed? declarations decl.name with
    | none =>
      rw [kept_concat_of_none found, firstNamed?_concat, firstNamed?_concat, ih]
    | some first =>
      -- The last declaration is not the first of its own name, nor of another.
      rw [kept_concat_of_some found, firstNamed?_concat, ih]
      by_cases named : decl.name = name
      · subst named
        rw [found, some_or]
      · rw [if_neg named, or_none]

theorem name_mem_iff {name : String} :
    name ∈ declarations.map Declaration.name ↔ (firstNamed? declarations name).isSome := by
  rw [firstNamed?, find?_isSome, List.mem_map]
  simp

theorem nodup_kept (declarations : List Declaration) :
    ((kept declarations).map name).Nodup := by
  induction declarations using reverseRecOn with
  | nil => exact nodup_nil
  | append_singleton declarations decl ih =>
    cases found : firstNamed? declarations decl.name with
    | none =>
      have absent : decl.name ∉ (kept declarations).map name := by
        rw [name_mem_iff, firstNamed?_kept, found]
        exact Bool.false_ne_true
      rw [kept_concat_of_none found, map_append, nodup_append]
      refine ⟨ih, nodup_singleton _, ?_⟩
      intro name mem last isLast nameEq
      obtain rfl := mem_singleton.1 isLast
      exact absent (nameEq ▸ mem)
    | some first =>
      rw [kept_concat_of_some found]
      exact ih

/-- Declarations of different names are all kept and none is reported. -/
theorem kept_eq_self (distinct : (declarations.map name).Nodup) :
    kept declarations = declarations ∧ repeated declarations = [] := by
  induction declarations using reverseRecOn with
  | nil => exact ⟨rfl, rfl⟩
  | append_singleton declarations decl ih =>
    rw [map_append, nodup_append] at distinct
    obtain ⟨earlierDistinct, _, fresh⟩ := distinct
    obtain ⟨keptEq, repeatedEq⟩ := ih earlierDistinct
    have absent : firstNamed? declarations decl.name = none := by
      rw [← not_isSome_iff_eq_none, ← name_mem_iff]
      exact fun mem => fresh _ mem _ mem_cons_self rfl
    rw [kept_concat_of_none absent, keptEq, repeated, gather_concat, ← repeated, repeatedEq, absent]
    exact ⟨rfl, rfl⟩

end Declaration

namespace Declarations

open Declaration

/-- The names in scope where a document declares its own symbols. -/
def builtinNames : Names :=
  (({} : Names).after (builtinDeclarations.map step)).push

theorem not_isDefine_of_mem_steps (declarations : List Declaration) :
    ∀ change ∈ declarations.map step, ¬change.isDefine := by
  intro change mem
  obtain ⟨decl, _, rfl⟩ := mem_map.1 mem
  exact Bool.false_ne_true

theorem faithful_builtinNames : builtinNames.Faithful :=
  (Names.faithful_new.after (not_isDefine_of_mem_steps _) (by decide)).push

theorem mirrors_builtinNames :
    builtinNames.Mirrors
      { frames := [[], (bindings 0 builtinDeclarations).reverse]
        declared := builtins.length } :=
  ((Names.mirrors_new.after (builtinDeclarations.map step)).step .push)

section Document

variable {declarations : List Declaration} {decl : Declaration}

theorem frames_after (declarations : List Declaration) :
    (builtinNames.after (declarations.map step)).scopes.frames =
      [(bindings builtins.length declarations).reverse,
        (bindings 0 builtinDeclarations).reverse] := by
  rw [(mirrors_builtinNames.after (declarations.map step)).frames_eq, stack_after]
  simp

/-- A name denotes the document's own symbol or else the builtin function. -/
theorem lookup_after (distinct : (declarations.map name).Nodup) (name : String) :
    (builtinNames.after (declarations.map step)).scopes.lookup name =
      (idOf? builtins.length declarations name).or (idOf? 0 builtinDeclarations name) := by
  rw [ScopeTree.lookup_eq_findSome?, frames_after, findSome?_cons, findSome?_singleton,
    lookup_bindings distinct, lookup_bindings (by decide)]
  cases idOf? builtins.length declarations name <;> rfl

theorem symbols_builtinNames :
    builtinNames.table.symbols.toList = symbols ScopeTree.global 0 builtinDeclarations := by
  decide

theorem table_after (declarations : List Declaration) :
    (builtinNames.after (declarations.map step)).table.symbols.toList =
      symbols ScopeTree.global 0 builtinDeclarations ++
        symbols 1 builtins.length declarations := by
  rw [(symbols_after builtinNames declarations).2, symbols_builtinNames]
  rfl

theorem size_after (declarations : List Declaration) :
    (builtinNames.after (declarations.map step)).table.size =
      builtins.length + declarations.length := by
  rw [(mirrors_builtinNames.after (declarations.map step)).size_eq, stack_after]

/-- The symbol of a document's declaration has the number of its place. -/
theorem get?_after {position : Nat} (inside : builtins.length + declarations.length ≤ UInt32.size)
    (found : declarations[position]? = some decl) :
    (builtinNames.after (declarations.map step)).table.get?
        (builtins.length + position).toUInt32 =
      some { id := (builtins.length + position).toUInt32, name := some decl.name,
             scope := 1, span := decl.span } := by
  have bound := (List.getElem?_eq_some_iff.1 found).1
  have place : (builtins.length + position).toUInt32.toNat = builtins.length + position :=
    UInt32.toNat_ofNat_of_lt' (by omega)
  have builtinCount : (symbols ScopeTree.global 0 builtinDeclarations).length = builtins.length :=
    rfl
  rw [SymbolTable.get?, place, ← Array.getElem?_toList, table_after,
    getElem?_append_right (by omega), builtinCount, Nat.add_sub_cancel_left, symbols,
    getElem?_mapIdx, found]
  rfl

section

variable (distinct : (declarations.map Declaration.name).Nodup)
  (inside : builtins.length + declarations.length ≤ UInt32.size) (name : String)

include distinct inside name

theorem previous?_after :
    ((builtinNames.after (declarations.map step)).previous? name).map Symbol.span =
      (firstNamed? declarations name).map Declaration.span := by
  have faithful := faithful_builtinNames.after (not_isDefine_of_mem_steps declarations)
    ((size_after declarations).trans_le inside)
  rw [faithful.previous?_eq, frames_after, headD_cons, lookup_bindings distinct, idOf?,
    firstNamed?, find?_eq_bind_findIdx?_getElem?]
  cases position : declarations.findIdx? fun decl => decl.name = name with
  | none => rfl
  | some position =>
    have bound := (findIdx?_eq_some_iff_findIdx_eq.1 position).1
    have found := getElem?_eq_getElem bound
    rw [map_some, bind_some, bind_some, get?_after inside found, found]
    rfl

/-- Declaring a name again is an error that points to its first declaration. -/
theorem checkRedeclaration_after (span : Span) :
    (builtinNames.after (declarations.map step)).checkRedeclaration name span =
      (firstNamed? declarations name).elim (.ok ()) fun first =>
        .error (.duplicateDefinition name first.span span) := by
  have spans := previous?_after distinct inside name
  rw [Names.checkRedeclaration]
  generalize (builtinNames.after (declarations.map step)).previous? name = previous at spans ⊢
  cases found : firstNamed? declarations name with
  | none =>
    rw [found] at spans
    rw [map_eq_none_iff.1 spans]
    rfl
  | some first =>
    rw [found] at spans
    obtain ⟨symbol, rfl, spanEq⟩ := map_eq_some_iff.1 spans
    rw [elim_some, ← spanEq]

end

end Document

end Declarations

namespace Program

open Declaration Declarations

variable {declarations : List Declaration} {decl : Declaration} {inner : Declarations}

/-- Declares one more symbol after others, unless its name is declared already. -/
def declareNext (outcome : Declarations × List NameError) (declaration : Declaration) :
    Except BadType (Declarations × List NameError) :=
  match outcome.1.names.checkRedeclaration declaration.name declaration.span with
  | .error error => .ok (outcome.1, outcome.2 ++ [error])
  | .ok () =>
    (outcome.1.declare declaration.name declaration.span declaration.type).map fun later =>
      (later, outcome.2)

theorem declareNext_cons (declared : Declarations) (error : NameError) (errors : List NameError) :
    declareNext (declared, error :: errors) decl =
      (declareNext (declared, errors) decl).map fun outcome =>
        (outcome.1, error :: outcome.2) := by
  unfold declareNext
  cases declared.names.checkRedeclaration decl.name decl.span with
  | error other => rfl
  | ok checked =>
    cases declared.declare decl.name decl.span decl.type <;> rfl

theorem declareAll_concat :
    declareAll (declarations ++ [decl]) inner =
      (declareAll declarations inner).bind fun outcome => declareNext outcome decl := by
  induction declarations generalizing inner with
  | nil =>
    rw [nil_append, declareAll, declareAll, Except.bind, declareNext]
    cases inner.names.checkRedeclaration decl.name decl.span with
    | error error => rfl
    | ok checked =>
      cases inner.declare decl.name decl.span decl.type <;> rfl
  | cons first rest ih =>
    rw [cons_append, declareAll, declareAll]
    cases inner.names.checkRedeclaration first.name first.span with
    | error error =>
      dsimp only
      rw [ih]
      cases declareAll rest inner with
      | error bad => rfl
      | ok outcome =>
        refine Eq.trans ?_ (declareNext_cons outcome.1 error outcome.2).symm
        cases next : declareNext outcome decl with
        | error bad => simp [bind, Except.bind, Except.map, next]
        | ok later => simp [bind, Except.bind, Except.map, pure, Except.pure, next]
    | ok checked =>
      cases inner.declare first.name first.span first.type with
      | error bad => rfl
      | ok mid => exact ih

section

variable (namesEq : inner.names = builtinNames)
  (inside : builtins.length + (kept declarations).length ≤ UInt32.size)

include namesEq inside

theorem checkRedeclaration_of_declareEach {later : Declarations}
    (each : inner.declareEach (kept declarations) = .ok later) (name : String) (span : Span) :
    later.names.checkRedeclaration name span =
      (firstNamed? declarations name).elim (.ok ()) fun first =>
        .error (.duplicateDefinition name first.span span) := by
  rw [names_of_declareEach each, namesEq,
    checkRedeclaration_after (nodup_kept declarations) inside, firstNamed?_kept]

/-- Declarations that are not the first of their name are passed over. -/
theorem declareAll_eq :
    declareAll declarations inner =
      (inner.declareEach (kept declarations)).map fun declared =>
        (declared, repeated declarations) := by
  induction declarations using reverseRecOn with
  | nil => rfl
  | append_singleton declarations decl ih =>
    have repeatedEq : repeated (declarations ++ [decl]) = _ := gather_concat _
    rw [declareAll_concat, repeatedEq, ← repeated]
    cases found : firstNamed? declarations decl.name with
    | none =>
      rw [kept_concat_of_none found] at inside ⊢
      rw [length_append, length_singleton] at inside
      rw [ih (by omega), declareEach_concat]
      cases each : inner.declareEach (kept declarations) with
      | error bad => rfl
      | ok later =>
        have check := checkRedeclaration_of_declareEach namesEq (by omega) each
        simp [Except.map, Except.bind, declareNext, check, found]
    | some first =>
      rw [kept_concat_of_some found] at inside ⊢
      rw [ih inside]
      cases each : inner.declareEach (kept declarations) with
      | error bad => rfl
      | ok later =>
        have check := checkRedeclaration_of_declareEach namesEq inside each
        simp [Except.map, Except.bind, declareNext, check, found]

end

end Program

namespace Expr

/-- The same tree with other node ids, in which references without symbol have the
one that their name denotes. -/
inductive Bound (lookup : String → Option SymbolId) : (before after : Expr) → Prop
  | explicit {site other : Site} {name : String} {symbol : SymbolId} : site.span = other.span →
      Bound lookup (.reference site name (some symbol)) (.reference other name (some symbol))
  | named {site other : Site} {name : String} : site.span = other.span →
      Bound lookup (.reference site name none) (.reference other name (lookup name))
  | literal {site other : Site} {value : Literal} : site.span = other.span →
      Bound lookup (.literal site value) (.literal other value)
  | list {site other : Site} {items others : List Expr} : site.span = other.span →
      Forall₂ (Bound lookup) items others →
      Bound lookup (.list site items) (.list other others)
  | tuple {site other : Site} {items others : List Expr} : site.span = other.span →
      Forall₂ (Bound lookup) items others →
      Bound lookup (.tuple site items) (.tuple other others)
  | apply {site other : Site} {function otherFunction : Expr} {arguments others : List Expr} :
      site.span = other.span → Bound lookup function otherFunction →
      Forall₂ (Bound lookup) arguments others →
      Bound lookup (.apply site function arguments) (.apply other otherFunction others)
  | pipe {site other : Site} {argument otherArgument function otherFunction : Expr} :
      site.span = other.span → Bound lookup argument otherArgument →
      Bound lookup function otherFunction →
      Bound lookup (.pipe site argument function) (.pipe other otherArgument otherFunction)
  | binary {site other : Site} {op : BinaryOp} {left otherLeft right otherRight : Expr} :
      site.span = other.span → Bound lookup left otherLeft → Bound lookup right otherRight →
      Bound lookup (.binary site op left right) (.binary other op otherLeft otherRight)
  | definition {site other : Site} {symbol : Option SymbolId} {init otherInit : Expr} :
      site.span = other.span → Bound lookup init otherInit →
      Bound lookup (.definition site symbol init) (.definition other symbol otherInit)
  | placeholder {site other : Site} : site.span = other.span →
      Bound lookup (.placeholder site) (.placeholder other)

variable {lookup : String → Option SymbolId}

theorem forall₂_bound {items : List Expr} (each : ∀ item ∈ items, ∀ next,
      item.Bound lookup (numberFrom next (item.bindNames lookup)).1) (next : NodeId) :
    Forall₂ (Bound lookup) items (numberAllFrom next (bindAllNames lookup items)).1 := by
  induction items generalizing next with
  | nil => exact .nil
  | cons item rest ih =>
    rw [forall_mem_cons] at each
    exact .cons (each.1 next) (ih each.2 _)

/-- Binding names and numbering nodes changes nothing else. -/
theorem bound_numberFrom (expr : Expr) (next : NodeId) :
    expr.Bound lookup (numberFrom next (expr.bindNames lookup)).1 := by
  induction expr generalizing next with
  | reference site name symbol =>
    cases symbol with
    | none => exact .named rfl
    | some symbol => exact .explicit rfl
  | literal site value => exact .literal rfl
  | list site items each => exact .list rfl (forall₂_bound each _)
  | tuple site items each => exact .tuple rfl (forall₂_bound each _)
  | apply site fn args fnIH each =>
    exact .apply rfl (fnIH _) (forall₂_bound each _)
  | pipe site arg fn argIH fnIH =>
    exact .pipe rfl (argIH _) (fnIH _)
  | binary site op left right leftIH rightIH =>
    exact .binary rfl (leftIH _) (rightIH _)
  | definition site symbol init initIH => exact .definition rfl (initIH _)
  | placeholder site => exact .placeholder rfl

end Expr

namespace Document

open Declaration Declarations

variable (document : Document)

/-- The symbols of a document: the builtin functions and after them what the
document declares. -/
def symbols : List Symbol :=
  Declaration.symbols ScopeTree.global 0 builtinDeclarations ++
    Declaration.symbols 1 builtins.length (kept document.declarations)

/-- The written types of the symbols, as far as they have one. -/
def writtenTypes : List (Option String) :=
  builtinDeclarations.map type ++ (kept document.declarations).map type

/-- The symbol that a name denotes. -/
def symbolOf? (name : String) : Option SymbolId :=
  (idOf? builtins.length (kept document.declarations) name).or (idOf? 0 builtinDeclarations name)

/-- The error of a reference that has no symbol and whose name denotes none. -/
def unresolved? (node : Expr) : Option NameError :=
  node.unboundName?.bind fun name =>
    if (document.symbolOf? name).isNone then some (.undefinedSymbol name node.span) else none

/-- The errors of all such references. -/
def unresolved : List NameError :=
  document.expr.preorder.filterMap document.unresolved?

/-- The document's program, once its symbols are declared. -/
def program (declared : Declarations) : Program where
  source := document.source
  config := document.config
  expr := (document.expr.bindNames document.symbolOf?).numbered
  declared
  nameErrors := repeated document.declarations ++ document.unresolved

/-- A program is what a document says.  Declarations that are not kept leave an
error and nothing else. -/
structure Loaded (program : Program) : Prop where
  /-- The source text is the document's. -/
  source_eq : program.source = document.source
  /-- So are the settings. -/
  config_eq : program.config = document.config
  /-- The symbols are those of the document. -/
  symbols_eq : program.declared.names.table.symbols.toList = document.symbols
  /-- Written types have been read for their symbols. -/
  types : ∀ id : SymbolId, Option.Rel program.declared.store.Reads
    (document.writtenTypes[id.toNat]?).join (program.environment.typeOf? id)
  /-- References are bound to what their names denote. -/
  bound : document.expr.Bound document.symbolOf? program.expr
  /-- Repeated declarations come before unresolved references. -/
  nameErrors_eq : program.nameErrors = repeated document.declarations ++ document.unresolved
  /-- Repeated declarations leave their errors only. -/
  skipped : Program.load { document with declarations := kept document.declarations } =
    .ok { program with nameErrors := document.unresolved }

end Document

namespace Program

open Declaration Declarations

variable {inner : Declarations}

/-- What is declared when a document's own declarations begin. -/
structure Opens (inner : Declarations) : Prop where
  /-- The builtin names are in scope. -/
  names_eq : inner.names = builtinNames
  /-- They have their types. -/
  typed : inner.Typed (builtinDeclarations.map type)
  /-- Loading goes on from here. -/
  load_eq : ∀ document : Document, load document =
    (declareAll document.declarations inner).map fun outcome =>
      { source := document.source
        config := document.config
        expr := (document.expr.bindNames outcome.1.names.scopes.lookup).numbered
        declared := outcome.1
        nameErrors := outcome.2 ++
          document.expr.preorder.filterMap (undefinedReference? outcome.1.names) }

/-- The builtin functions can be declared. -/
theorem exists_opens : ∃ inner, Opens inner := by
  cases each : ({} : Declarations).declareEach builtinDeclarations with
  | error bad =>
    have accepted : builtinDeclarations.findSome? badType? = none := by decide +kernel
    cases accepted.symm.trans (declareEach_eq_error_iff.1 each)
  | ok builtins =>
    refine ⟨{ builtins with names := builtins.names.push }, ?_,
      (typed_empty.of_declareEach (by decide) each).push, ?_⟩
    · exact congrArg Names.push (names_of_declareEach each)
    · intro document
      rw [load, declareBuiltins_eq, each]
      simp only [bind, Except.bind]
      cases declareAll document.declarations { builtins with names := builtins.names.push } <;>
        rfl

section Loading

variable {document : Document}

/-- Once the symbols are declared, names denote what the document says. -/
theorem lookup_of_declareEach {declared : Declarations} (namesEq : inner.names = builtinNames)
    (each : inner.declareEach (kept document.declarations) = .ok declared) :
    declared.names.scopes.lookup = document.symbolOf? := by
  funext name
  rw [names_of_declareEach each, namesEq, lookup_after (nodup_kept _), symbolOf?]

theorem undefinedReference?_eq {names : Names}
    (lookupEq : names.scopes.lookup = document.symbolOf?) :
    undefinedReference? names = document.unresolved? := by
  funext node
  rw [undefinedReference?, unresolved?]
  congr 1
  funext name
  rw [Names.resolve, lookupEq]
  cases document.symbolOf? name <;> rfl

variable (opens : Opens inner)
  (inside : builtins.length + (kept document.declarations).length ≤ UInt32.size)

include opens inside

/-- Loading declares what is kept. -/
theorem load_eq_declareEach :
    load document = (inner.declareEach (kept document.declarations)).map document.program := by
  rw [opens.load_eq, declareAll_eq opens.names_eq inside]
  cases each : inner.declareEach (kept document.declarations) with
  | error bad => rfl
  | ok declared =>
    have lookupEq := lookup_of_declareEach opens.names_eq each
    simp only [Except.map, lookupEq, undefinedReference?_eq lookupEq]
    rfl

/-- Loading what is kept gives the same program without the errors of the other
declarations. -/
theorem load_kept :
    load { document with declarations := kept document.declarations } =
      (load document).map fun program => { program with nameErrors := document.unresolved } := by
  obtain ⟨keptKept, noneRepeated⟩ := kept_eq_self (nodup_kept document.declarations)
  have sameSymbols :
      symbolOf? { document with declarations := kept document.declarations } =
        document.symbolOf? := by
    funext name
    rw [symbolOf?, keptKept, symbolOf?]
  have sameErrors :
      unresolved? { document with declarations := kept document.declarations } =
        document.unresolved? := by
    funext node
    rw [unresolved?, sameSymbols, unresolved?]
  rw [load_eq_declareEach opens inside, load_eq_declareEach opens (by rwa [keptKept]), keptKept]
  cases inner.declareEach (kept document.declarations) with
  | error bad => rfl
  | ok declared =>
    simp [Except.map, program, unresolved, sameSymbols, sameErrors, noneRepeated]

theorem load_eq_error_iff {bad : BadType} :
    load document = .error bad ↔
      (kept document.declarations).findSome? badType? = some bad := by
  have failure_iff : inner.declareEach (kept document.declarations) = .error bad ↔ _ :=
    declareEach_eq_error_iff
  rw [load_eq_declareEach opens inside, ← failure_iff]
  cases inner.declareEach (kept document.declarations) <;> simp [Except.map]

theorem loaded_of_load {program : Program} (loads : load document = .ok program) :
    document.Loaded program := by
  have skipped := load_kept opens inside
  rw [loads] at skipped
  rw [load_eq_declareEach opens inside] at loads
  cases each : inner.declareEach (kept document.declarations) with
  | error bad =>
    rw [each] at loads
    cases loads
  | ok declared =>
    rw [each] at loads
    obtain rfl := Except.ok.inj loads
    have size_eq : inner.names.table.size = builtins.length := opens.typed.size_eq
    have typed := opens.typed.of_declareEach (size_eq ▸ inside) each
    refine ⟨rfl, rfl, ?_, typed.reads, document.expr.bound_numberFrom 0, rfl, skipped⟩
    rw [Document.symbols, ← table_after, ← opens.names_eq, ← names_of_declareEach each]
    rfl

end Loading

/-- As long as there are numbers for all symbols, loading binds names as the document
says, or fails at the first declaration that counts and whose written type is
rejected.  It has no other reason to fail. -/
theorem load_binds_names (document : Document)
    (inside : builtins.length + (kept document.declarations).length ≤ UInt32.size) :
    (∀ program, load document = .ok program → document.Loaded program) ∧
      (∀ bad, load document = .error bad ↔
        (kept document.declarations).findSome? badType? = some bad) ∧
      ((∃ bad, load document = .error bad) ↔ ∃ declaration ∈ kept document.declarations,
        ∃ text ∈ declaration.type, ¬∃ written : Written, written.IsText text) := by
  obtain ⟨inner, opens⟩ := exists_opens
  refine ⟨fun program => loaded_of_load opens inside, fun bad => load_eq_error_iff opens inside, ?_⟩
  simp only [load_eq_error_iff opens inside, ← isSome_badType?_iff,
    ← Option.isSome_iff_exists, findSome?_isSome_iff]

/-- A document that hides a builtin function, declares `x` twice, the second time with
a text that is no written type, and refers to symbols in every way. -/
def shadowing : Document where
  declarations :=
    [{ name := "x", type := some "['a]", span := { start := 0, stop := 1 } }, { name := "id" },
      { name := "x", type := some "->", span := { start := 4, stop := 5 } },
      { name := "y", type := some "Int" }]
  expr :=
    .list {} [.reference {} "x" none, .reference {} "id" none, .reference {} "head" none,
      .reference {} "z" none, .reference {} "x" (some 3)]

/-- The second `x` leaves an error, and makes loading fail where it is the first. -/
theorem load_binds_names_shadowing :
    (∃ program, load shadowing = .ok program ∧ shadowing.Loaded program ∧
      program.nameErrors =
        [.duplicateDefinition "x" { start := 0, stop := 1 } { start := 4, stop := 5 },
          .undefinedSymbol "z" {}]) ∧
      load { shadowing with declarations := shadowing.declarations.drop 2 } =
        .error { symbol := "x", error := .unexpectedChar '-' 0 } := by
  constructor
  · have binds := load_binds_names shadowing (by decide)
    cases loads : load shadowing with
    | error bad =>
      have accepted : (kept shadowing.declarations).findSome? badType? = none := by
        decide +kernel
      cases accepted.symm.trans ((binds.2.1 bad).1 loads)
    | ok program =>
      have loaded := binds.1 program loads
      exact ⟨program, rfl, loaded, loaded.nameErrors_eq.trans (by decide)⟩
  · exact ((load_binds_names _ (by decide)).2.1 _).2 (by decide +kernel)

end Program
end PipeCheck
