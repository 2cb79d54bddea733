import PipeCheck.Proofs.Substitution.Trees

/-!
# Renaming a quantifier's variables

Freshening gives every variable of a quantifier a variable that is new to the
store.  Different variables get different new ones, and where a variable is
listed twice its last place counts.
-/

namespace PipeCheck

open List Option Bindings

namespace Bindings

/-- The variable that takes the place of another when the listed variables are
renamed. -/
def rename (binders fresh : List TypeId) (id : TypeId) : TypeId :=
  ((ofLists binders fresh).find? id).getD id

section Renaming

variable {binders fresh : List TypeId} {id : TypeId}

theorem mem_zip_of_find?_ofLists {type : TypeId}
    (found : (ofLists binders fresh).find? id = some type) :
    (id, type) ∈ binders.zip fresh :=
  mem_reverse.1 (mem_of_find? found)

theorem rename_of_notMem (absent : id ∉ binders) :
    rename binders fresh id = id := by
  unfold rename
  cases found : (ofLists binders fresh).find? id with
  | none => rfl
  | some type => exact absurd (of_mem_zip (mem_zip_of_find?_ofLists found)).1 absent

section

variable (sameLength : binders.length = fresh.length)

include sameLength

/-- A listed variable is paired with its new name. -/
theorem mem_zip_rename (mem : id ∈ binders) :
    (id, rename binders fresh id) ∈ binders.zip fresh := by
  obtain ⟨place, inside, rfl⟩ := getElem_of_mem mem
  have freshInside : place < fresh.length := sameLength ▸ inside
  have zipInside : place < (binders.zip fresh).length := by
    rw [length_zip, ← sameLength, Nat.min_self]
    exact inside
  have paired : (binders[place], fresh[place]) ∈ ofLists binders fresh := by
    rw [ofLists, mem_reverse, mem_iff_getElem]
    exact ⟨place, zipInside, getElem_zip⟩
  obtain ⟨type, found⟩ := exists_find?_of_mem paired
  have zipped := mem_zip_of_find?_ofLists found
  rwa [rename, found, getD_some]

theorem rename_mem (mem : id ∈ binders) :
    rename binders fresh id ∈ fresh :=
  (of_mem_zip (mem_zip_rename sameLength mem)).2

/-- Different variables are renamed differently. -/
theorem rename_injective (nodup : fresh.Nodup) {other : TypeId} (mem : id ∈ binders)
    (otherMem : other ∈ binders) (same : rename binders fresh id = rename binders fresh other) :
    id = other := by
  have first := mem_zip_rename sameLength mem
  have second := mem_zip_rename sameLength otherMem
  rw [same] at first
  obtain ⟨firstPlace, firstInside, firstEq⟩ := getElem_of_mem first
  obtain ⟨secondPlace, secondInside, secondEq⟩ := getElem_of_mem second
  rw [getElem_zip, Prod.mk.injEq] at firstEq secondEq
  have samePlace : firstPlace = secondPlace :=
    (nodup.getElem_inj_iff).1 (firstEq.2.trans secondEq.2.symm)
  subst samePlace
  exact firstEq.1.symm.trans secondEq.1

/-- Where no variable is listed twice, every new variable renames one. -/
theorem exists_rename_eq (nodup : binders.Nodup) {new : TypeId} (mem : new ∈ fresh) :
    ∃ id ∈ binders, rename binders fresh id = new := by
  obtain ⟨place, inside, rfl⟩ := getElem_of_mem mem
  have bindersInside : place < binders.length := sameLength ▸ inside
  refine ⟨binders[place], getElem_mem bindersInside, ?_⟩
  have zipped := mem_zip_rename sameLength (getElem_mem bindersInside)
  obtain ⟨other, otherInside, otherEq⟩ := getElem_of_mem zipped
  rw [getElem_zip, Prod.mk.injEq] at otherEq
  have samePlace : other = place := nodup.getElem_inj_iff.1 otherEq.1
  subst samePlace
  exact otherEq.2.symm

end

end Renaming
end Bindings

/-- A tree with the listed variables renamed. -/
def Tree.rename (binders fresh : List TypeId) (tree : Tree) : Tree :=
  tree.replace fun id => .var (Bindings.rename binders fresh id)

namespace Store

/-- What freshening leaves behind: new variables, one for each listed place, and
the body with its variables renamed to them. -/
structure Freshens (earlier later : Store) (binders : List TypeId) (body : TypeId)
    (fresh : List TypeId) (renamed : TypeId) : Prop
    extends earlier.Builds later renamed ((earlier.tree body).rename binders fresh) where
  /-- The new variables are the next ones. -/
  fresh_eq : fresh = List.range' earlier.size binders.length
  /-- They are variables. -/
  fresh_var : ∀ id ∈ fresh, ∃ number, later.shape id = .var number

namespace Freshens

variable {earlier later : Store} {binders fresh : List TypeId} {body renamed id : TypeId}

section

variable (freshens : Freshens earlier later binders body fresh renamed)

include freshens

theorem length_eq :
    binders.length = fresh.length := by
  simp [freshens.fresh_eq]

theorem nodup :
    fresh.Nodup := by
  rw [freshens.fresh_eq]
  exact nodup_range'

theorem size_le_of_mem (mem : id ∈ fresh) :
    earlier.size ≤ id := by
  rw [freshens.fresh_eq] at mem
  exact (mem_range'_1.1 mem).1

theorem inside_of_mem (mem : id ∈ fresh) :
    id < later.size := by
  obtain ⟨number, isVar⟩ := freshens.fresh_var id mem
  exact lt_size_of_shape isVar (by simp)

/-- A type of the earlier store mentions no new variable. -/
theorem notMem_occurrences (wf : earlier.WellFormed) (mem : id ∈ fresh) (type : TypeId) :
    id ∉ (earlier.tree type).occurrences := by
  intro occurs
  exact Nat.not_lt_of_le (freshens.size_le_of_mem mem) (wf.inside_of_mem_occurrences occurs)

/-- An assignment of the listed variables read through their new names, of which
each has one old name. -/
theorem exists_assignsOnly (assign : TypeId → Tree) :
    ∃ read, Tree.AssignsOnly fresh read ∧ ∀ id ∉ fresh,
      read (rename binders fresh id) = Tree.restrict binders assign id := by
  classical
  refine ⟨fun new => if named : ∃ id ∈ binders, rename binders fresh id = new
    then assign named.choose else .var new, ?_, ?_⟩
  · intro new absent
    beta_reduce
    rw [dif_neg]
    rintro ⟨id, listed, rfl⟩
    exact absent (rename_mem freshens.length_eq listed)
  · intro id old
    beta_reduce
    by_cases listed : id ∈ binders
    · have named : ∃ other ∈ binders,
          rename binders fresh other = rename binders fresh id :=
        ⟨id, listed, rfl⟩
      have chosen := rename_injective freshens.length_eq freshens.nodup
        named.choose_spec.1 listed named.choose_spec.2
      rw [Tree.restrict_of_mem listed, dif_pos named, chosen]
    · rw [Tree.restrict_of_notMem listed, rename_of_notMem listed, dif_neg]
      rintro ⟨other, otherListed, rfl⟩
      exact old (rename_mem freshens.length_eq otherListed)

end

end Freshens
end Store

namespace Alloc

open Store

/-- One new variable for each entry of a list. -/
theorem yields_mapM_var {store : Store} (wf : store.WellFormed) (binders : List TypeId) :
    Yields (binders.mapM fun _ => var) store fun fresh later =>
      later.Follows store ∧ fresh = List.range' store.size binders.length ∧
        later.Vars fresh := by
  induction binders generalizing store with
  | nil =>
    rw [mapM_nil, yields_pure]
    exact ⟨wf.follows_self, rfl, by simp [Vars]⟩
  | cons binder rest ih =>
    rw [mapM_cons, yields_bind]
    refine (yields_var wf).mono ?_
    rintro first mid ⟨follows, isVar, firstEq, sizeEq⟩
    rw [yields_bind]
    refine (ih follows.wellFormed).mono ?_
    rintro fresh later ⟨laterFollows, freshEq, areVars⟩
    rw [yields_pure]
    refine ⟨laterFollows.trans follows, ?_, ?_⟩
    · rw [freshEq, firstEq, sizeEq, length_cons, range'_succ]
    · intro id mem
      rcases mem_cons.1 mem with rfl | mem
      · have inside := lt_size_of_shape isVar (by simp)
        exact ⟨_, (laterFollows.grown.shape_eq inside).trans isVar⟩
      · exact areVars id mem

theorem yields_freshen {store : Store} (wf : store.WellFormed)
    (binders : List TypeId) {body : TypeId} (inside : body < store.size) :
    Yields (freshen binders body) store fun result later =>
      Freshens store later binders body result.1 result.2 := by
  unfold freshen
  rw [yields_bind]
  refine (yields_mapM_var wf binders).mono ?_
  rintro fresh mid ⟨follows, freshEq, areVars⟩
  have bound : ∀ {id type}, (ofLists binders fresh).find? id = some type →
      ∃ number, mid.shape type = .var number := fun found =>
    areVars _ (of_mem_zip (mem_zip_of_find?_ofLists found)).2
  have bindingsInside : (ofLists binders fresh).Inside mid := by
    intro id type found
    obtain ⟨number, isVar⟩ := bound found
    exact lt_size_of_shape isVar (by simp)
  rw [yields_bind]
  refine (yields_substitute follows.wellFormed bindingsInside (follows.grown.inside inside)).mono ?_
  intro renamed later done
  rw [yields_pure]
  have renamedTree : later.tree renamed = (store.tree body).rename binders fresh := by
    rw [done.tree_eq, follows.grown.tree_eq wf inside]
    apply Tree.replace_congr
    intro id _
    unfold rename
    cases found : (ofLists binders fresh).find? id with
    | none => exact assignment_of_unbound found mid
    | some type =>
      obtain ⟨number, isVar⟩ := bound found
      rw [assignment_of_find? found, tree_of_var isVar, getD_some]
  refine ⟨⟨done.toFollows.trans follows, done.inside, renamedTree⟩, freshEq, ?_⟩
  intro id mem
  obtain ⟨number, isVar⟩ := areVars id mem
  exact ⟨number, (done.grown.shape_eq (lt_size_of_shape isVar (by simp))).trans isVar⟩

end Alloc
end PipeCheck
