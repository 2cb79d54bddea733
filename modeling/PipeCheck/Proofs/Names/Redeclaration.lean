import Mathlib.Data.List.Forall2
import PipeCheck.Proofs.Names.Scopes

/-!
# Names declared twice in one scope

Whether a name may be declared is answered by a look-up that goes on to the scopes
around the current one, and by the place of the symbol that it finds.  The answer is
that of a stack that holds the declarations of each open scope: a name is refused if
it was declared in the current scope itself, and its latest declaration there is the
one that is pointed at.
-/

namespace PipeCheck

open List Option NameStep

namespace NameStep

/-- The declarations of the open scopes after a change. -/
def track (frames : List (List (String × Span))) : NameStep → List (List (String × Span))
  | .push => [] :: frames
  | .pop => if frames.length ≤ 1 then frames else frames.tail
  | .define _ _ => frames
  | .declare name span => frames.modifyHead ((name, span) :: ·)

/-- The declarations of the scopes that are open after some changes, the innermost
scope and the newest declaration first. -/
def openDeclarations (steps : List NameStep) : List (List (String × Span)) :=
  steps.foldl track [[]]

end NameStep

namespace Names

/-- What a change declares, with the scope that is current. -/
def declaration? (names : Names) : NameStep → Option (ScopeId × String × Span)
  | .declare name span => some (names.scopes.current, name, span)
  | _ => none

/-- What some changes declare, the newest declaration first, each with the scope that
was current. -/
def declarations (names : Names) : List NameStep → List (ScopeId × String × Span)
  | [] => []
  | step :: rest => (names.step step).declarations rest ++ (names.declaration? step).toList

end Names

namespace SymbolTable

variable {bindings : List (String × SymbolId)} {declarations : List (String × Span)}
  {table : SymbolTable}

/-- A binding is of the symbol of a declaration. -/
def Declares (table : SymbolTable) (binding : String × SymbolId) (declaration : String × Span) :
    Prop :=
  binding.1 = declaration.1 ∧ (table.get? binding.2).map Symbol.span = some declaration.2

theorem Declares.insert {binding : String × SymbolId} {decl : String × Span}
    (declares : table.Declares binding decl) (name : Option String) (scope : ScopeId)
    (span : Span) :
    (table.insert name scope span).Declares binding decl := by
  obtain ⟨nameEq, spanEq⟩ := declares
  obtain ⟨symbol, found, spanEq⟩ := map_eq_some_iff.1 spanEq
  exact ⟨nameEq, map_eq_some_iff.2 ⟨symbol, get?_insert found name scope span, spanEq⟩⟩

theorem declares_nextId (inside : table.size < UInt32.size) (name : String) (scope : ScopeId)
    (span : Span) :
    (table.insert (some name) scope span).Declares (name, table.nextId) (name, span) :=
  ⟨rfl, congrArg (Option.map Symbol.span) (get?_insert_nextId inside (some name) scope span)⟩

/-- Bindings and declarations that belong together, in order. -/
def DeclaresAll (table : SymbolTable) :
    List (String × SymbolId) → List (String × Span) → Prop :=
  List.Forall₂ table.Declares

section

variable (declares : table.DeclaresAll bindings declarations)

include declares

theorem DeclaresAll.insert (name : Option String) (scope : ScopeId) (span : Span) :
    (table.insert name scope span).DeclaresAll bindings declarations :=
  List.Forall₂.imp (fun _ _ each => each.insert name scope span) declares

/-- Looking a name up among bindings finds its declaration. -/
theorem DeclaresAll.lookup_eq (name : String) :
    ((bindings.lookup name).bind table.get?).map Symbol.span = declarations.lookup name := by
  induction declares with
  | nil => rfl
  | @cons binding decl _ _ first _ ih =>
    rw [lookup_cons, lookup_cons, ← first.1]
    cases name == binding.1 with
    | true => exact first.2
    | false => exact ih

/-- Bindings belong to one list of declarations only. -/
theorem DeclaresAll.unique {others : List (String × Span)}
    (declaresOthers : table.DeclaresAll bindings others) :
    declarations = others := by
  induction declares generalizing others with
  | nil => cases declaresOthers; rfl
  | cons first _ ih =>
    cases declaresOthers with
    | cons otherFirst otherRest =>
      congr 1
      · exact Prod.ext (first.1.symm.trans otherFirst.1)
          (Option.some.inj (first.2.symm.trans otherFirst.2))
      · exact ih otherRest

end

end SymbolTable

namespace Names

variable {names : Names} {frames : List (List (String × Span))}
  {log : List (ScopeId × String × Span)}

/-- The declarations of a log that were made in one scope. -/
def declaredIn (log : List (ScopeId × String × Span)) (place : ScopeId) : List (String × Span) :=
  (log.filter fun entry => entry.1 = place).map Prod.snd

theorem declaredIn_cons_self {place current : ScopeId} (same : current = place)
    (decl : String × Span) :
    declaredIn ((current, decl) :: log) place = decl :: declaredIn log place := by
  simp [declaredIn, same]

theorem declaredIn_cons_of_ne {place current : ScopeId} (different : current ≠ place)
    (decl : String × Span) :
    declaredIn ((current, decl) :: log) place = declaredIn log place := by
  simp [declaredIn, different]

/-- Every binding is of a declaration: the open scopes have the declarations of a stack,
and every scope has those that a log has for it. -/
structure Recalls (names : Names) (frames : List (List (String × Span)))
    (log : List (ScopeId × String × Span)) : Prop where
  /-- The scopes are in order. -/
  wellFormed : names.scopes.WellFormed
  /-- Open scopes bind what the stack declares. -/
  frames_declared : List.Forall₂ names.table.DeclaresAll names.scopes.frames frames
  /-- Each scope binds what the log has for it. -/
  scope_declared : ∀ {place scope}, names.scopes.get? place = some scope →
    names.table.DeclaresAll scope.bindings.reverse (declaredIn log place)
  /-- Declarations were made in scopes that exist. -/
  inside : ∀ entry ∈ log, entry.1 < names.scopes.scopes.size

theorem recalls_new : ({} : Names).Recalls [[]] [] where
  wellFormed := ScopeTree.wellFormed_new
  frames_declared := .cons .nil .nil
  scope_declared := by
    intro place scope found
    obtain ⟨inside, rfl⟩ := Array.getElem?_eq_some_iff.1 found
    obtain rfl := Nat.lt_one_iff.1 inside
    exact .nil
  inside := by simp

section

variable (recalls : names.Recalls frames log)

include recalls

theorem Recalls.push :
    names.push.Recalls ([] :: frames) log where
  wellFormed := recalls.wellFormed.push
  frames_declared := by
    rw [Names.push, recalls.wellFormed.frames_push]
    exact .cons .nil recalls.frames_declared
  scope_declared := by
    intro place scope found
    rcases ScopeTree.get?_push_cases found with old | ⟨rfl, rfl⟩
    · exact recalls.scope_declared old
    · -- nothing was declared in the new scope before it was opened
      have noneThere : declaredIn log names.scopes.scopes.size = [] := by
        rw [declaredIn, map_eq_nil_iff, filter_eq_nil_iff]
        intro entry mem
        simpa using Nat.ne_of_lt (recalls.inside entry mem)
      rw [noneThere]
      exact .nil
  inside := by
    intro entry mem
    rw [Names.push, ScopeTree.push, Array.size_push]
    exact Nat.lt_succ_of_lt (recalls.inside entry mem)

theorem Recalls.pop :
    names.pop.Recalls (track frames .pop) log where
  wellFormed := recalls.wellFormed.pop
  frames_declared := by
    rw [Names.pop, recalls.wellFormed.frames_pop, track, recalls.frames_declared.length_eq]
    split
    · exact recalls.frames_declared
    · have declared := recalls.frames_declared
      generalize names.scopes.frames = bindings at declared
      cases declared with
      | nil => exact .nil
      | cons _ rest => exact rest
  scope_declared := by
    intro place scope found
    rw [Names.pop, ScopeTree.get?_pop] at found
    exact recalls.scope_declared found
  inside := by
    intro entry mem
    have sizeEq : names.scopes.pop.scopes.size = names.scopes.scopes.size := by
      rw [ScopeTree.pop]
      split <;> rfl
    rw [Names.pop, sizeEq]
    exact recalls.inside entry mem

theorem Recalls.declare (inside : names.table.size < UInt32.size) (name : String) (span : Span) :
    (names.declare name span).Recalls (track frames (.declare name span))
      ((names.scopes.current, name, span) :: log) where
  wellFormed := recalls.wellFormed.define name _
  frames_declared := by
    rw [Names.declare, recalls.wellFormed.frames_define, track]
    have kept := recalls.frames_declared.imp
      fun _ _ declares => declares.insert (some name) names.scopes.current span
    generalize names.scopes.frames = bindings at kept ⊢
    cases kept with
    | nil => exact .nil
    | cons first rest => exact .cons (.cons (SymbolTable.declares_nextId inside _ _ _) first) rest
  scope_declared := by
    intro place scope found
    rw [Names.declare, ScopeTree.get?_define] at found
    obtain ⟨old, oldFound, rfl⟩ := map_eq_some_iff.1 found
    have kept := (recalls.scope_declared oldFound).insert (some name) names.scopes.current span
    by_cases current : place = names.scopes.current
    · rw [if_pos current, reverse_append, declaredIn_cons_self current.symm]
      exact .cons (SymbolTable.declares_nextId inside _ _ _) kept
    · rw [if_neg current, declaredIn_cons_of_ne (Ne.symm current)]
      exact kept
  inside := by
    have sizeEq : (names.declare name span).scopes.scopes.size = names.scopes.scopes.size :=
      Array.size_modify
    rw [sizeEq, forall_mem_cons]
    exact ⟨recalls.wellFormed.current_lt, recalls.inside⟩

theorem Recalls.step {step : NameStep}
    (declared : ¬step.isDefine) (inside : (names.step step).table.size ≤ UInt32.size) :
    (names.step step).Recalls (track frames step)
      ((names.declaration? step).toList ++ log) := by
  cases step with
  | push => exact recalls.push
  | pop => exact recalls.pop
  | define name symbol => exact absurd rfl declared
  | declare name span =>
    rw [Names.step, Names.declare, SymbolTable.size_insert] at inside
    exact recalls.declare inside name span

theorem Recalls.after {steps : List NameStep} (declared : ∀ step ∈ steps, ¬step.isDefine)
    (inside : (names.after steps).table.size ≤ UInt32.size) :
    (names.after steps).Recalls (steps.foldl track frames)
      (names.declarations steps ++ log) := by
  induction steps generalizing names frames log with
  | nil => exact recalls
  | cons first rest ih =>
    have stepped := recalls.step (declared first mem_cons_self)
      (Nat.le_trans (size_le_size_after _ rest) inside)
    rw [declarations, append_assoc]
    exact ih stepped (fun step mem => declared step (mem_cons_of_mem first mem)) inside

/-- The innermost open scope has the declarations that were made in the current one. -/
theorem Recalls.headD_eq :
    frames.headD [] = declaredIn log names.scopes.current := by
  obtain ⟨scope, found⟩ := ScopeTree.get?_eq_some_of_lt recalls.wellFormed.current_lt
  have declared := recalls.frames_declared
  rw [recalls.wellFormed.frames_eq found] at declared
  cases declared with
  | cons first _ => exact first.unique (recalls.scope_declared found)

/-- The latest declaration of a name in the current scope is found. -/
theorem Recalls.previous?_span_eq (faithful : names.Faithful) (name : String) :
    (names.previous? name).map Symbol.span = (frames.headD []).lookup name := by
  rw [faithful.previous?_eq]
  have declared := recalls.frames_declared
  generalize names.scopes.frames = bindings at declared ⊢
  cases declared with
  | nil => rfl
  | cons first _ => exact first.lookup_eq name

end

/-- After any changes that bind names by declaring them, a name is refused exactly if it
was declared in the current scope itself, and the error points at its latest
declaration there.  What was declared there is the top frame of a stack to which
entering a scope adds a frame and from which leaving it takes one, and it is all
that was declared while the scope was current. -/
theorem checkRedeclaration_here (steps : List NameStep)
    (declared : ∀ step ∈ steps, ¬step.isDefine)
    (inside : (({} : Names).after steps).table.size ≤ UInt32.size) (name : String) (span : Span) :
    let names := ({} : Names).after steps
    let here := (openDeclarations steps).headD []
    (names.checkRedeclaration name span = .ok () ↔ name ∉ here.map Prod.fst) ∧
      (∀ error, names.checkRedeclaration name span = .error error ↔
        ∃ previous, here.lookup name = some previous ∧
          error = .duplicateDefinition name previous span) ∧
      here = declaredIn (({} : Names).declarations steps) names.scopes.current := by
  intro names here
  have recalls := recalls_new.after declared inside
  rw [List.append_nil] at recalls
  have previousEq : (names.previous? name).map Symbol.span = here.lookup name :=
    recalls.previous?_span_eq (faithful_new.after declared inside) name
  rw [checkRedeclaration]
  cases found : names.previous? name with
  | some previous =>
    have lookupEq : here.lookup name = some previous.span := by
      rw [← previousEq, found, Option.map_some]
    refine ⟨?_, ?_, recalls.headD_eq⟩
    · have isDeclared : name ∈ here.map Prod.fst := by
        obtain ⟨_, _, hereEq, _⟩ := List.lookup_eq_some_iff.1 lookupEq
        simp [hereEq]
      simp [isDeclared]
    · intro error
      simp [lookupEq, eq_comm]
  | none =>
    have lookupEq : here.lookup name = none := by
      rw [← previousEq, found, Option.map_none]
    refine ⟨?_, ?_, recalls.headD_eq⟩
    · have notDeclared : name ∉ here.map Prod.fst := by
        intro isDeclared
        obtain ⟨declaration, member, rfl⟩ := List.mem_map.1 isDeclared
        simpa using List.lookup_eq_none_iff.1 lookupEq declaration member
      simp [notDeclared]
    · intro error
      simp [lookupEq]

/-- A name is declared in the global scope, in one inside it and in one that is left
again; the second one is current at the end. -/
def redeclared : List NameStep :=
  [.declare "x" { start := 0, stop := 1 }, .pop, .push, .declare "x" { start := 2, stop := 3 },
    .declare "x" { start := 4, stop := 5 }, .declare "y" { start := 6, stop := 7 }, .push,
    .declare "x" { start := 8, stop := 9 }, .declare "z" { start := 10, stop := 11 }, .pop]

/-- At the end the name is refused, and the name declared further in is not. -/
theorem checkRedeclaration_here_redeclared :
    (({} : Names).after redeclared).checkRedeclaration "x" {} =
        .error (.duplicateDefinition "x" { start := 4, stop := 5 } {}) ∧
      (({} : Names).after redeclared).checkRedeclaration "z" {} = .ok () := by
  have refused := (checkRedeclaration_here redeclared (by decide) (by decide) "x" {}).2.1
  have accepted := (checkRedeclaration_here redeclared (by decide) (by decide) "z" {}).1
  exact ⟨(refused _).2 ⟨{ start := 4, stop := 5 }, by decide, rfl⟩, accepted.2 (by decide)⟩

end Names
end PipeCheck
