import Clausal.Proofs.Store.Creation

namespace Clausal

theorem ok_of_bind {ε α β : Type} {first : Except ε α} {next : α → Except ε β} {b : β}
    (done : (first >>= next) = .ok b) : ∃ a, first = .ok a ∧ next a = .ok b := by
  cases first with
  | error e => cases done
  | ok a => exact ⟨a, rfl, done⟩

/-- A choice of clauses and theories, by their places. -/
structure Region where
  clause : ClauseId → Prop
  theory : TheoryId → Prop

namespace Store

theorem clause_setClause_of_ne (store : Store) {c d : ClauseId} (apart : d ≠ c) (clause : Clause) :
    (store.setClause c clause).clause d = store.clause d := by
  have index : c.index ≠ d.index := fun same => apart (by cases c; cases d; exact congrArg _ same.symm)
  simp [setClause, Store.clause, index]

theorem held_setHeld_of_ne (store : Store) {t u : TheoryId} (apart : u ≠ t) (cs : List ClauseId) :
    (store.setHeld t cs).held u = store.held u := by
  have index : t.index ≠ u.index := fun same => apart (by cases t; cases u; exact congrArg _ same.symm)
  simp [setHeld, held, index]

theorem held_of_unused {store : Store} {t : TheoryId} (unused : store.theories.size ≤ t.index) :
    store.held t = [] := by
  rw [held, Array.getElem?_eq_none unused, Option.getD_none]

/-- A theory that is not in use cannot be given clauses to hold. -/
theorem held_setHeld_self (store : Store) (t : TheoryId) (cs : List ClauseId) :
    (store.setHeld t cs).held t = cs ∨ (store.setHeld t cs).held t = [] := by
  by_cases used : t.index < store.theories.size
  · rw [held_setHeld store t t cs used, if_pos rfl]
    exact Or.inl rfl
  · refine Or.inr (held_of_unused ?_)
    rw [setHeld, Array.size_setIfInBounds]
    exact Nat.le_of_not_lt used

@[simp]
theorem size_setClause (store : Store) (c : ClauseId) (clause : Clause) :
    (store.setClause c clause).clauses.size = store.clauses.size := Array.size_setIfInBounds

@[simp]
theorem size_setHeld (store : Store) (t : TheoryId) (cs : List ClauseId) :
    (store.setHeld t cs).theories.size = store.theories.size := Array.size_setIfInBounds

@[simp]
theorem theories_setClause (store : Store) (c : ClauseId) (clause : Clause) :
    (store.setClause c clause).theories = store.theories := rfl

/-- Only one theory holds something else than before. -/
def Only (t : TheoryId) (before after : Store) : Prop :=
  ∀ u, u ≠ t → after.held u = before.held u

/-- All that one operation on clauses and theories of a region can do to a store. -/
inductive Change (r : Region) (store : Store) : Store → Prop
  | nothing : Change r store store
  | rewrite {c} (clause : Clause) : r.clause c → Change r store (store.setClause c clause)
  | add {t c} : r.theory t → r.clause c → Change r store (store.addClause t c)
  | move {t u} : t ≠ u → r.theory t → r.theory u →
      Change r store ((store.setHeld t (store.held t ++ store.held u)).setHeld u [])
  | take {t c cs} : r.theory t → store.held t = c :: cs → Change r store (store.setHeld t cs)
  /-- The clause that is taken out is changed as well, whether or not it was chosen. -/
  | strip {t c cs} (clause : Clause) : r.theory t → store.held t = c :: cs →
      Change r store ((store.setHeld t cs).setClause c clause)
  | create {t made after} : Made store after t made → Only t store after → Change r store after

theorem Change.theories_size {r : Region} {before after : Store} (change : Change r before after) :
    before.theories.size ≤ after.theories.size := by
  cases change with
  | create made only => exact made.extended.theories_size
  | _ => simp [addClause]

/-- The theories of the region hold clauses of the region alone, and all that is not in use yet belongs
to it. -/
structure Closed (r : Region) (store : Store) : Prop where
  holds : ∀ t, r.theory t → ∀ c ∈ store.held t, r.clause c
  new_clause : ∀ c : ClauseId, store.clauses.size ≤ c.index → r.clause c
  new_theory : ∀ t : TheoryId, store.theories.size ≤ t.index → r.theory t

/-- Nothing outside the region has changed. -/
structure Within (r : Region) (before after : Store) : Prop where
  clauses_size : before.clauses.size ≤ after.clauses.size
  theories_size : before.theories.size ≤ after.theories.size
  clause : ∀ c, ¬r.clause c → after.clause c = before.clause c
  held : ∀ t, ¬r.theory t → after.held t = before.held t

variable {r : Region}

theorem Within.refl (store : Store) : Within r store store :=
  ⟨Nat.le_refl _, Nat.le_refl _, fun _ _ => rfl, fun _ _ => rfl⟩

theorem Within.trans {first second third : Store} (before : Within r first second)
    (after : Within r second third) : Within r first third where
  clauses_size := Nat.le_trans before.clauses_size after.clauses_size
  theories_size := Nat.le_trans before.theories_size after.theories_size
  clause c outside := (after.clause c outside).trans (before.clause c outside)
  held t outside := (after.held t outside).trans (before.held t outside)

theorem Within.setClause (store : Store) {c : ClauseId} (inside : r.clause c) (clause : Clause) :
    Within r store (store.setClause c clause) where
  clauses_size := Nat.le_of_eq (store.size_setClause c clause).symm
  theories_size := Nat.le_refl _
  clause d outside := store.clause_setClause_of_ne (fun same : d = c => outside (same ▸ inside)) clause
  held _ _ := rfl

theorem Within.setHeld (store : Store) {t : TheoryId} (inside : r.theory t) (cs : List ClauseId) :
    Within r store (store.setHeld t cs) where
  clauses_size := Nat.le_refl _
  theories_size := Nat.le_of_eq (store.size_setHeld t cs).symm
  clause _ _ := rfl
  held u outside := store.held_setHeld_of_ne (fun same : u = t => outside (same ▸ inside)) cs

theorem Closed.of_within {before after : Store} (closed : Closed r before) (within : Within r before after)
    (holds : ∀ t, r.theory t → ∀ c ∈ after.held t, r.clause c) : Closed r after where
  holds := holds
  new_clause c new := closed.new_clause c (Nat.le_trans within.clauses_size new)
  new_theory t new := closed.new_theory t (Nat.le_trans within.theories_size new)

theorem Closed.setClause {store : Store} (closed : Closed r store) {c : ClauseId} (inside : r.clause c)
    (clause : Clause) : Closed r (store.setClause c clause) :=
  closed.of_within (.setClause store inside clause) closed.holds

theorem Closed.setHeld {store : Store} (closed : Closed r store) {t : TheoryId} (inside : r.theory t)
    {cs : List ClauseId} (chosen : ∀ c ∈ cs, r.clause c) : Closed r (store.setHeld t cs) := by
  refine closed.of_within (.setHeld store inside cs) fun u theory c member => ?_
  by_cases same : u = t
  · subst same
    rcases store.held_setHeld_self u cs with held | held
    · exact chosen c (held ▸ member)
    · exact absurd (held ▸ member) List.not_mem_nil
  · rw [store.held_setHeld_of_ne same] at member
    exact closed.holds u theory c member

/-- A creation changes nothing that was there, and all that it makes is new. -/
theorem Closed.extends {before after : Store} (closed : Closed r before) (extended : after.Extends before)
    (holds : ∀ t : TheoryId, before.theories.size ≤ t.index → ∀ c ∈ after.held t, r.clause c) :
    Within r before after ∧ Closed r after := by
  have within : Within r before after := by
    refine ⟨extended.clauses_size, extended.theories_size, fun c outside => ?_, fun t outside => ?_⟩
    · exact extended.clause c (Nat.lt_of_not_le fun new => outside (closed.new_clause c new))
    · exact extended.held t (Nat.lt_of_not_le fun new => outside (closed.new_theory t new))
  refine ⟨within, closed.of_within within fun t theory c member => ?_⟩
  by_cases new : before.theories.size ≤ t.index
  · exact holds t new c member
  · rw [extended.held t (Nat.lt_of_not_le new)] at member
    exact closed.holds t theory c member

/-- An operation on a closed region stays in it. -/
theorem Change.within {before after : Store} (change : Change r before after) (closed : Closed r before) :
    Within r before after ∧ Closed r after := by
  cases change with
  | nothing => exact ⟨.refl before, closed⟩
  | rewrite clause inside => exact ⟨.setClause before inside clause, closed.setClause inside clause⟩
  | @add t c target inside =>
    refine ⟨.setHeld before target _, closed.setHeld target fun d member => ?_⟩
    rcases List.mem_append.mp member with old | new
    · exact closed.holds t target d old
    · exact List.mem_singleton.mp new ▸ inside
  | @move t u apart target source =>
    refine ⟨(Within.setHeld before target _).trans (.setHeld _ source []), ?_⟩
    refine (closed.setHeld target fun c member => ?_).setHeld source nofun
    rcases List.mem_append.mp member with own | other
    · exact closed.holds t target c own
    · exact closed.holds u source c other
  | @take t c cs target held =>
    refine ⟨.setHeld before target cs, closed.setHeld target fun d member => ?_⟩
    exact closed.holds t target d (held ▸ .tail c member)
  | @strip t c cs clause target held =>
    have inside : ∀ d ∈ c :: cs, r.clause d := fun d member => closed.holds t target d (held ▸ member)
    have first := inside c List.mem_cons_self
    refine ⟨(Within.setHeld before target cs).trans (.setClause _ first clause), ?_⟩
    exact (closed.setHeld target fun d member => inside d (.tail c member)).setClause first clause
  | @create t made after new only =>
    refine closed.extends new.extended fun u unused c member => ?_
    by_cases same : u = t
    · subst same
      exact closed.new_clause c (new.fresh c member)
    · rw [only u same, held_of_unused unused] at member
      exact absurd member List.not_mem_nil

/-- A theory, the clauses that it holds, and all that is not in use yet. -/
def own (store : Store) (t : TheoryId) : Region where
  clause c := c ∈ store.held t ∨ store.clauses.size ≤ c.index
  theory u := u = t ∨ store.theories.size ≤ u.index

/-- All but a theory and the clauses that it holds. -/
def others (store : Store) (t : TheoryId) : Region where
  clause c := c ∉ store.held t
  theory u := u ≠ t

theorem closed_own (store : Store) (t : TheoryId) : Closed (store.own t) store where
  holds u inside c member := by
    rcases inside with rfl | new
    · exact .inl member
    · exact absurd (held_of_unused new ▸ member) List.not_mem_nil
  new_clause _ := .inr
  new_theory _ := .inr

theorem closed_others {store : Store} {t : TheoryId} (used : store.InUse t)
    (apart : ∀ u, u ≠ t → ∀ c ∈ store.held u, c ∉ store.held t) : Closed (store.others t) store where
  holds := apart
  new_clause c new member := Nat.not_lt.mpr new (used.clause_lt c member)
  new_theory _ new same := Nat.not_lt.mpr new (same ▸ used.theory_lt)

/-- What is taken off a theory comes from its first clause, also if it turns out not to declare anything. -/
theorem takeDeclared_change (store : Store) {t : TheoryId} (inside : r.theory t) :
    Change r store (store.takeDeclared t).2 := by
  rw [Store.takeDeclared, takeClause]
  split
  · rename_i taken
    exact .nothing
  · rename_i c after taken
    cases held : store.held t with
    | nil =>
      rw [held] at taken
      cases taken
    | cons c cs =>
      rw [held] at taken
      cases taken
      split
      · split
        · exact .take inside held
        · rename_i given
          obtain ⟨rest, -, given⟩ := ok_of_bind given
          cases given
          exact .strip _ inside held
      · exact .take inside held

theorem newClauses_theories (clauses : List Clause) (store : Store) :
    (newClauses clauses store).2.theories = store.theories := by
  induction clauses generalizing store with
  | nil => rfl
  | cons clause clauses ih => exact ih (store.newClause clause).2

theorem only_newTheory (store : Store) (cs : List ClauseId) :
    Only (store.newTheory cs).1 store (store.newTheory cs).2 := by
  intro u apart
  have index : u.index ≠ store.theories.size := fun same => apart (congrArg TheoryId.mk same)
  simp [newTheory, held, Array.getElem?_push, index]

theorem only_addTheory (store : Store) (t : Theory) :
    Only (store.addTheory t).1 store (store.addTheory t).2 := by
  intro u apart
  have later := only_newTheory (newClauses t.clauses store).2 (newClauses t.clauses store).1 u apart
  rw [addTheory, later, held, newClauses_theories, held]

end Store

end Clausal
