import Clausal.Store.Basic

namespace Clausal.Store

/-- The larger store has all that the smaller one has, as it was. -/
structure Extends (larger smaller : Store) : Prop where
  clauses_size : smaller.clauses.size ≤ larger.clauses.size
  theories_size : smaller.theories.size ≤ larger.theories.size
  clause : ∀ c, c.index < smaller.clauses.size → larger.clause c = smaller.clause c
  held : ∀ t, t.index < smaller.theories.size → larger.held t = smaller.held t

/-- A theory and all clauses that it holds stand at places in use. -/
structure InUse (store : Store) (t : TheoryId) : Prop where
  theory_lt : t.index < store.theories.size
  clause_lt : ∀ c ∈ store.held t, c.index < store.clauses.size

theorem Extends.refl (store : Store) : store.Extends store :=
  ⟨Nat.le_refl _, Nat.le_refl _, fun _ _ => rfl, fun _ _ => rfl⟩

theorem Extends.trans {largest larger smaller : Store} (outer : largest.Extends larger)
    (inner : larger.Extends smaller) : largest.Extends smaller := by
  refine ⟨Nat.le_trans inner.clauses_size outer.clauses_size,
    Nat.le_trans inner.theories_size outer.theories_size, fun c used => ?_, fun t used => ?_⟩
  · have later : c.index < larger.clauses.size := Nat.lt_of_lt_of_le used inner.clauses_size
    rw [outer.clause c later, inner.clause c used]
  · have later : t.index < larger.theories.size := Nat.lt_of_lt_of_le used inner.theories_size
    rw [outer.held t later, inner.held t used]

theorem Extends.inUse {larger smaller : Store} (extended : larger.Extends smaller) {t : TheoryId}
    (used : smaller.InUse t) : larger.InUse t := by
  refine ⟨Nat.lt_of_lt_of_le used.theory_lt extended.theories_size, fun c holds => ?_⟩
  rw [extended.held t used.theory_lt] at holds
  exact Nat.lt_of_lt_of_le (used.clause_lt c holds) extended.clauses_size

theorem Extends.theory {larger smaller : Store} (extended : larger.Extends smaller) {t : TheoryId}
    (used : smaller.InUse t) : larger.theory t = smaller.theory t := by
  rw [Store.theory, Store.theory, extended.held t used.theory_lt]
  congr 1
  refine List.map_congr_left fun c holds => ?_
  exact extended.clause c (used.clause_lt c holds)

theorem extends_newClause (store : Store) (clause : Clause) :
    (store.newClause clause).2.Extends store := by
  refine ⟨?_, Nat.le_refl _, fun c used => ?_, fun _ _ => rfl⟩
  · rw [newClause, Array.size_push]
    omega
  · exact clause_newClause_of_used store clause c used

theorem extends_newTheory (store : Store) (cs : List ClauseId) :
    (store.newTheory cs).2.Extends store := by
  refine ⟨Nat.le_refl _, ?_, fun _ _ => rfl, fun t used => ?_⟩
  · rw [newTheory, Array.size_push]
    omega
  · exact held_newTheory_of_used store cs t used

theorem newClauses_spec (clauses : List Clause) (store : Store) :
    (newClauses clauses store).2.Extends store ∧
      (newClauses clauses store).1.map (newClauses clauses store).2.clause = clauses ∧
      ∀ c ∈ (newClauses clauses store).1, c.index < (newClauses clauses store).2.clauses.size := by
  induction clauses generalizing store with
  | nil => exact ⟨Extends.refl store, rfl, fun c member => absurd member List.not_mem_nil⟩
  | cons clause clauses ih =>
    obtain ⟨extended, filled, used⟩ := ih (store.newClause clause).2
    have first : (store.newClause clause).1.index < (store.newClause clause).2.clauses.size := by
      rw [newClause, Array.size_push]
      exact Nat.lt_succ_self _
    rw [newClauses]
    refine ⟨extended.trans (extends_newClause store clause), ?_, ?_⟩
    · rw [List.map_cons, filled, extended.clause _ first, clause_newClause]
    · intro c member
      rcases List.mem_cons.mp member with rfl | rest
      · exact Nat.lt_of_lt_of_le first extended.clauses_size
      · exact used c rest

theorem addTheory_spec (store : Store) (t : Theory) :
    (store.addTheory t).2.Extends store ∧ (store.addTheory t).2.InUse (store.addTheory t).1 ∧
      (store.addTheory t).2.theory (store.addTheory t).1 = t := by
  obtain ⟨extended, filled, used⟩ := newClauses_spec t.clauses store
  have later := extends_newTheory (newClauses t.clauses store).2 (newClauses t.clauses store).1
  have holds := held_newTheory (newClauses t.clauses store).2 (newClauses t.clauses store).1
  rw [addTheory]
  refine ⟨later.trans extended, ⟨?_, ?_⟩, ?_⟩
  · simp [newTheory]
  · intro c member
    rw [holds] at member
    exact used c member
  · rw [Store.theory, holds]
    exact congrArg Theory.mk filled

def addTheories : List Theory → Store → List TheoryId × Store
  | [], store => ([], store)
  | t :: ts, store =>
    let (id, store) := store.addTheory t
    let (ids, store) := addTheories ts store
    (id :: ids, store)

theorem addTheories_spec (ts : List Theory) (store : Store) :
    (addTheories ts store).2.Extends store ∧
      (∀ t ∈ (addTheories ts store).1, (addTheories ts store).2.InUse t) ∧
      (addTheories ts store).1.map (addTheories ts store).2.theory = ts := by
  induction ts generalizing store with
  | nil => exact ⟨Extends.refl store, fun t member => absurd member List.not_mem_nil, rfl⟩
  | cons t ts ih =>
    obtain ⟨added, used, stored⟩ := addTheory_spec store t
    obtain ⟨extended, rest, filled⟩ := ih (store.addTheory t).2
    rw [addTheories]
    refine ⟨extended.trans added, ?_, ?_⟩
    · intro u member
      rcases List.mem_cons.mp member with rfl | later
      · exact extended.inUse used
      · exact rest u later
    · rw [List.map_cons, filled, extended.theory used, stored]

theorem merge_spec {store : Store} {t u : TheoryId} (distinct : t ≠ u)
    (target : t.index < store.theories.size) (source : u.index < store.theories.size) :
    ∃ after, store.merge t u = .ok after ∧ after.clauses = store.clauses ∧
      after.theories.size = store.theories.size ∧
      ∀ v, after.held v =
        if v = u then [] else if v = t then store.held t ++ store.held u else store.held v := by
  refine ⟨(store.setHeld t (store.held t ++ store.held u)).setHeld u [], ?_, rfl, ?_, ?_⟩
  · rw [merge, if_neg distinct]
  · rw [setHeld, setHeld, Array.size_setIfInBounds, Array.size_setIfInBounds]
  · intro v
    have still : u.index < (store.setHeld t (store.held t ++ store.held u)).theories.size := by
      rw [setHeld, Array.size_setIfInBounds]
      exact source
    rw [held_setHeld _ u v [] still, held_setHeld store t v _ target]

def mergeAll : List (TheoryId × TheoryId) → Store → Except Fault Store
  | [], store => .ok store
  | pair :: pairs, store => do
    let store ← store.merge pair.1 pair.2
    mergeAll pairs store

def Pooled (store : Store) (pool : List TheoryId) (c : Clause) : Prop :=
  ∃ t ∈ pool, c ∈ (store.theory t).clauses

theorem pooled_addTheories (ts : List Theory) (store : Store) (c : Clause) :
    (addTheories ts store).2.Pooled (addTheories ts store).1 c ↔ ∃ t ∈ ts, c ∈ t.clauses := by
  obtain ⟨_, _, filled⟩ := addTheories_spec ts store
  have members : ∀ t, t ∈ ts ↔ ∃ id ∈ (addTheories ts store).1, (addTheories ts store).2.theory id = t := by
    intro t
    rw [← List.mem_map, filled]
  constructor
  · intro pooled
    obtain ⟨id, member, holds⟩ := pooled
    exact ⟨_, (members _).mpr ⟨id, member, rfl⟩, holds⟩
  · intro held
    obtain ⟨t, member, holds⟩ := held
    obtain ⟨id, inside, rfl⟩ := (members t).mp member
    exact ⟨id, inside, holds⟩

theorem pooled_of_others_empty {store : Store} {pool : List TheoryId} {target : TheoryId}
    (inside : target ∈ pool) (others : ∀ t ∈ pool, t ≠ target → (store.theory t).clauses = [])
    {c : Clause} : store.Pooled pool c ↔ c ∈ (store.theory target).clauses := by
  constructor
  · intro pooled
    obtain ⟨t, member, holds⟩ := pooled
    by_cases same : t = target
    · exact same ▸ holds
    · rw [others t member same] at holds
      exact absurd holds List.not_mem_nil
  · intro holds
    exact ⟨target, inside, holds⟩

/-- A merge inside a pool neither loses a clause nor brings in a new one. -/
theorem pooled_merge {store after : Store} {pool : List TheoryId} {t u : TheoryId} (distinct : t ≠ u)
    (target : t ∈ pool) (source : u ∈ pool) (clauses : after.clauses = store.clauses)
    (moved : ∀ v, after.held v =
      if v = u then [] else if v = t then store.held t ++ store.held u else store.held v)
    (c : Clause) : after.Pooled pool c ↔ store.Pooled pool c := by
  have same : after.clause = store.clause := by
    funext d
    rw [Store.clause, Store.clause, clauses]
  simp only [Pooled, theory, same, moved, List.mem_map]
  constructor
  · intro pooled
    obtain ⟨v, inside, d, holds, rfl⟩ := pooled
    by_cases atSource : v = u
    · rw [if_pos atSource] at holds
      exact absurd holds List.not_mem_nil
    · rw [if_neg atSource] at holds
      by_cases atTarget : v = t
      · rw [if_pos atTarget, List.mem_append] at holds
        rcases holds with own | other
        · exact ⟨t, target, d, own, rfl⟩
        · exact ⟨u, source, d, other, rfl⟩
      · rw [if_neg atTarget] at holds
        exact ⟨v, inside, d, holds, rfl⟩
  · intro pooled
    obtain ⟨v, inside, d, holds, rfl⟩ := pooled
    by_cases atSource : v = u
    · subst atSource
      refine ⟨t, target, d, ?_, rfl⟩
      rw [if_neg distinct, if_pos rfl]
      exact List.mem_append_right _ holds
    · refine ⟨v, inside, d, ?_, rfl⟩
      rw [if_neg atSource]
      by_cases atTarget : v = t
      · subst atTarget
        rw [if_pos rfl]
        exact List.mem_append_left _ holds
      · rw [if_neg atTarget]
        exact holds

/-- Merges of different theories of a pool succeed, in whatever order, and keep its clauses. -/
theorem mergeAll_spec {pool : List TheoryId} (pairs : List (TheoryId × TheoryId)) (store : Store)
    (used : ∀ t ∈ pool, t.index < store.theories.size)
    (within : ∀ pair ∈ pairs, pair.1 ∈ pool ∧ pair.2 ∈ pool ∧ pair.1 ≠ pair.2) :
    ∃ final, mergeAll pairs store = .ok final ∧
      ∀ c, final.Pooled pool c ↔ store.Pooled pool c := by
  induction pairs generalizing store with
  | nil => exact ⟨store, rfl, fun c => Iff.rfl⟩
  | cons pair pairs ih =>
    obtain ⟨target, source, distinct⟩ := within pair List.mem_cons_self
    obtain ⟨after, merged, clauses, size, moved⟩ :=
      merge_spec distinct (used pair.1 target) (used pair.2 source)
    have stillUsed : ∀ t ∈ pool, t.index < after.theories.size := by
      intro t member
      rw [size]
      exact used t member
    obtain ⟨final, done, kept⟩ := ih after stillUsed fun other member => within other (.tail _ member)
    refine ⟨final, ?_, fun c => ?_⟩
    · rw [mergeAll, merged]
      exact done
    · exact (kept c).trans (pooled_merge distinct target source clauses moved c)

/-- If theories that were put into a store, along with empty ones, are merged until all clauses are
in one of them, then this one has exactly the clauses of them all. -/
theorem mem_merged_iff (store : Store) (ts : List Theory) (blanks : Nat)
    {pairs : List (TheoryId × TheoryId)}
    (within : ∀ pair ∈ pairs, pair.1 ∈ (store.addTheories (ts ++ List.replicate blanks ⟨[]⟩)).1 ∧
      pair.2 ∈ (store.addTheories (ts ++ List.replicate blanks ⟨[]⟩)).1 ∧ pair.1 ≠ pair.2) :
    ∃ final, (store.addTheories (ts ++ List.replicate blanks ⟨[]⟩)).2.mergeAll pairs = .ok final ∧
      ∀ target ∈ (store.addTheories (ts ++ List.replicate blanks ⟨[]⟩)).1,
        (∀ t ∈ (store.addTheories (ts ++ List.replicate blanks ⟨[]⟩)).1, t ≠ target →
          (final.theory t).clauses = []) →
        ∀ c, c ∈ (final.theory target).clauses ↔ ∃ t ∈ ts, c ∈ t.clauses := by
  obtain ⟨_, used, _⟩ := addTheories_spec (ts ++ List.replicate blanks ⟨[]⟩) store
  obtain ⟨final, done, kept⟩ := mergeAll_spec pairs _ (fun t member => (used t member).theory_lt) within
  refine ⟨final, done, fun target inside others c => ?_⟩
  rw [← pooled_of_others_empty inside others, kept, pooled_addTheories]
  constructor
  · intro pooled
    obtain ⟨t, member, holds⟩ := pooled
    rcases List.mem_append.mp member with given | blank
    · exact ⟨t, given, holds⟩
    · obtain ⟨_, rfl⟩ := List.mem_replicate.mp blank
      exact absurd holds List.not_mem_nil
  · intro given
    obtain ⟨t, given, holds⟩ := given
    exact ⟨t, List.mem_append_left _ given, holds⟩

end Clausal.Store
