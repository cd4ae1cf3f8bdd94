import Clausal.Proofs.Store.Merging

namespace Clausal.Store

/-- Puts the theory that declares a name into a store. -/
def declare (store : Store) (name : String) : TheoryId × Store :=
  store.addTheory ⟨[.declaring name]⟩

/-- Makes clauses and then adds each to the end of a theory. -/
def addClauses (store : Store) (t : TheoryId) (clauses : List Clause) : Store :=
  let (cs, store) := newClauses clauses store
  cs.foldl (fun store c => store.addClause t c) store

/-- Between two stores nothing that was there has changed, apart from a pool, which got new clauses at
its end. -/
structure Grown (pool : TheoryId) (before after : Store) (added : List Clause) : Prop where
  clauses_size : before.clauses.size ≤ after.clauses.size
  theories_size : before.theories.size ≤ after.theories.size
  clause : ∀ c, c.index < before.clauses.size → after.clause c = before.clause c
  held : ∀ t, t.index < before.theories.size → t ≠ pool → after.held t = before.held t
  pooled : ∃ cs, after.held pool = before.held pool ++ cs ∧ cs.map after.clause = added ∧ cs.Nodup ∧
    ∀ c ∈ cs, before.clauses.size ≤ c.index ∧ c.index < after.clauses.size

theorem Extends.grown {pool : TheoryId} {before after : Store} (extended : after.Extends before)
    (used : pool.index < before.theories.size) : Grown pool before after [] where
  clauses_size := extended.clauses_size
  theories_size := extended.theories_size
  clause := extended.clause
  held t inside _ := extended.held t inside
  pooled := ⟨[], by rw [extended.held pool used, List.append_nil], rfl, List.nodup_nil,
    fun c member => absurd member List.not_mem_nil⟩

theorem Grown.trans {pool : TheoryId} {first second third : Store} {early late : List Clause}
    (before : Grown pool first second early) (after : Grown pool second third late) :
    Grown pool first third (early ++ late) := by
  obtain ⟨cs, held, filled, distinct, fresh⟩ := before.pooled
  obtain ⟨ds, heldLater, filledLater, distinctLater, freshLater⟩ := after.pooled
  refine ⟨Nat.le_trans before.clauses_size after.clauses_size,
    Nat.le_trans before.theories_size after.theories_size, fun c used => ?_, fun t used other => ?_,
    cs ++ ds, ?_, ?_, ?_, ?_⟩
  · rw [after.clause c (Nat.lt_of_lt_of_le used before.clauses_size), before.clause c used]
  · rw [after.held t (Nat.lt_of_lt_of_le used before.theories_size) other, before.held t used other]
  · rw [heldLater, held, List.append_assoc]
  · have still : cs.map third.clause = cs.map second.clause :=
      List.map_congr_left fun c member => after.clause c (fresh c member).2
    rw [List.map_append, still, filled, filledLater]
  · refine List.nodup_append.mpr ⟨distinct, distinctLater, fun c member d memberLater same => ?_⟩
    have low := (fresh c member).2
    have high := (freshLater d memberLater).1
    rw [same] at low
    omega
  · intro c member
    rcases List.mem_append.mp member with early | late
    · exact ⟨(fresh c early).1, Nat.lt_of_lt_of_le (fresh c early).2 after.clauses_size⟩
    · exact ⟨Nat.le_trans before.clauses_size (freshLater c late).1, (freshLater c late).2⟩

/-- New clauses get places that were not used, each another one. -/
theorem newClauses_fresh (clauses : List Clause) (store : Store) :
    (newClauses clauses store).1.Nodup ∧
      ∀ c ∈ (newClauses clauses store).1, store.clauses.size ≤ c.index := by
  induction clauses generalizing store with
  | nil => exact ⟨List.nodup_nil, fun c member => absurd member List.not_mem_nil⟩
  | cons clause clauses ih =>
    obtain ⟨distinct, later⟩ := ih (store.newClause clause).2
    have size : (store.newClause clause).2.clauses.size = store.clauses.size + 1 := Array.size_push _
    rw [size] at later
    rw [newClauses]
    refine ⟨List.nodup_cons.mpr ⟨fun member => ?_, distinct⟩, fun c member => ?_⟩
    · exact absurd (later _ member) (Nat.not_succ_le_self _)
    · rcases List.mem_cons.mp member with rfl | rest
      · exact Nat.le_refl _
      · exact Nat.le_of_succ_le (later c rest)

theorem addEach_spec (t : TheoryId) (cs : List ClauseId) (store : Store)
    (used : t.index < store.theories.size) :
    (cs.foldl (fun store c => store.addClause t c) store).clauses = store.clauses ∧
      (cs.foldl (fun store c => store.addClause t c) store).theories.size = store.theories.size ∧
      ∀ u, (cs.foldl (fun store c => store.addClause t c) store).held u =
        if u = t then store.held t ++ cs else store.held u := by
  induction cs generalizing store with
  | nil =>
    refine ⟨rfl, rfl, fun u => ?_⟩
    rw [List.append_nil]
    split
    · rename_i same
      rw [same, List.foldl_nil]
    · rfl
  | cons c cs ih =>
    have size : (store.addClause t c).theories.size = store.theories.size := Array.size_setIfInBounds
    obtain ⟨clauses, sizes, held⟩ := ih (store.addClause t c) (size ▸ used)
    refine ⟨clauses, sizes.trans size, fun u => ?_⟩
    have added (v : TheoryId) := held_setHeld store t v (store.held t ++ [c]) used
    rw [List.foldl_cons, held, addClause, added, added, if_pos rfl, List.append_assoc]
    split <;> rfl

theorem addClauses_grown {t : TheoryId} {store : Store} (used : t.index < store.theories.size)
    (clauses : List Clause) : Grown t store (store.addClauses t clauses) clauses := by
  obtain ⟨extended, filled, inside⟩ := newClauses_spec clauses store
  obtain ⟨distinct, fresh⟩ := newClauses_fresh clauses store
  have still := Nat.lt_of_lt_of_le used extended.theories_size
  obtain ⟨same, sizes, held⟩ := addEach_spec t (newClauses clauses store).1 _ still
  have clause : (store.addClauses t clauses).clause = (newClauses clauses store).2.clause := by
    funext c
    rw [Store.clause, addClauses, same, Store.clause]
  refine ⟨?_, ?_, fun c inUse => ?_, fun u inUse other => ?_, (newClauses clauses store).1, ?_, ?_,
    distinct, fun c member => ⟨fresh c member, ?_⟩⟩
  · rw [addClauses, same]
    exact extended.clauses_size
  · rw [addClauses, sizes]
    exact extended.theories_size
  · rw [clause, extended.clause c inUse]
  · rw [addClauses, held, if_neg other, extended.held u inUse]
  · rw [addClauses, held, if_pos rfl, extended.held t used]
  · rw [clause, filled]
  · rw [addClauses, same]
    exact inside c member

/-- What a declaration consists of: one new theory that holds one new clause. -/
theorem declare_spec (store : Store) (name : String) :
    (store.declare name).2.Extends store ∧
      (store.declare name).1 = ⟨store.theories.size⟩ ∧
      (store.declare name).2.clauses.size = store.clauses.size + 1 ∧
      (store.declare name).2.theories.size = store.theories.size + 1 ∧
      (store.declare name).2.held ⟨store.theories.size⟩ = [⟨store.clauses.size⟩] ∧
      (store.declare name).2.clause ⟨store.clauses.size⟩ = .declaring name := by
  refine ⟨(addTheory_spec store _).1, rfl, Array.size_push _, Array.size_push _, ?_, ?_⟩
  · exact held_newTheory (store.newClause (.declaring name)).2 [⟨store.clauses.size⟩]
  · exact clause_newClause store (.declaring name)

/-- A theory made of new clauses alone, in a store where nothing else has changed. -/
structure Made (before after : Store) (t : TheoryId) (made : Theory) : Prop where
  extended : after.Extends before
  new : before.theories.size ≤ t.index
  inUse : after.InUse t
  theory : after.theory t = made
  distinct : (after.held t).Nodup
  fresh : ∀ c ∈ after.held t, before.clauses.size ≤ c.index

theorem Made.of_held {before after : Store} {t : TheoryId} {cs : List ClauseId} {clauses : List Clause}
    (extended : after.Extends before) (new : before.theories.size ≤ t.index)
    (used : t.index < after.theories.size) (held : after.held t = cs)
    (filled : cs.map after.clause = clauses) (distinct : cs.Nodup)
    (fresh : ∀ c ∈ cs, before.clauses.size ≤ c.index ∧ c.index < after.clauses.size) :
    Made before after t ⟨clauses⟩ := by
  subst held
  exact ⟨extended, new, ⟨used, fun c member => (fresh c member).2⟩, congrArg Theory.mk filled, distinct,
    fun c member => (fresh c member).1⟩

theorem made_addTheory (store : Store) (t : Theory) :
    Made store (store.addTheory t).2 (store.addTheory t).1 t := by
  obtain ⟨extended, filled, used⟩ := newClauses_spec t.clauses store
  obtain ⟨distinct, fresh⟩ := newClauses_fresh t.clauses store
  have later := extends_newTheory (newClauses t.clauses store).2 (newClauses t.clauses store).1
  exact .of_held (later.trans extended) extended.theories_size (by simp [addTheory, newTheory])
    (held_newTheory _ _) filled distinct fun c member => ⟨fresh c member, used c member⟩

theorem takeDeclared_declaring {store : Store} {t : TheoryId} {c : ClauseId} {cs : List ClauseId}
    (held : store.held t = c :: cs) {name : String} (first : store.clause c = .declaring name) :
    store.takeDeclared t = (.ok name, (store.setHeld t cs).setClause c ⟨[]⟩) := by
  rw [Store.takeDeclared, takeClause, held]
  simp only [clause_setHeld, first, takeLiteral]
  rfl

/-- The declaration can be taken off a new theory, which then has the other clauses. Nothing that was
there before the theory changes. -/
theorem Made.takeDeclared {before after : Store} {t : TheoryId} {name : String} {rest : List Clause}
    (made : Made before after t ⟨.declaring name :: rest⟩) :
    ∃ stripped, after.takeDeclared t = (.ok name, stripped) ∧ stripped.theory t = ⟨rest⟩ ∧
      stripped.Extends before := by
  cases held : after.held t with
  | nil =>
    have theory := made.theory
    rw [Store.theory, held] at theory
    cases theory
  | cons c cs =>
    obtain ⟨first, others⟩ : after.clause c = .declaring name ∧ cs.map after.clause = rest := by
      have theory := made.theory
      rw [Store.theory, held, List.map_cons] at theory
      exact List.cons.inj (congrArg Theory.clauses theory)
    have used := made.inUse.clause_lt
    have distinct := made.distinct
    have fresh := made.fresh
    rw [held] at used distinct fresh
    have clause (d : ClauseId) : ((after.setHeld t cs).setClause c ⟨[]⟩).clause d =
        if d = c then ⟨[]⟩ else after.clause d :=
      clause_setClause (after.setHeld t cs) c d ⟨[]⟩ (used c List.mem_cons_self)
    have holds (u : TheoryId) : ((after.setHeld t cs).setClause c ⟨[]⟩).held u =
        if u = t then cs else after.held u :=
      held_setHeld after t u cs made.inUse.theory_lt
    refine ⟨_, takeDeclared_declaring held first, ?_, ?_, ?_, ?_, ?_⟩
    · rw [Store.theory, holds, if_pos rfl, ← others]
      refine congrArg Theory.mk (List.map_congr_left fun d member => ?_)
      have other : d ≠ c := fun same => (List.nodup_cons.mp distinct).1 (same ▸ member)
      rw [clause, if_neg other]
    · rw [setClause, Array.size_setIfInBounds]
      exact made.extended.clauses_size
    · rw [setClause, setHeld, Array.size_setIfInBounds]
      exact made.extended.theories_size
    · intro d early
      have late := fresh c List.mem_cons_self
      have other : d ≠ c := fun same => by
        rw [same] at early
        omega
      rw [clause, if_neg other, made.extended.clause d early]
    · intro u early
      have late := made.new
      have other : u ≠ t := fun same => by
        rw [same] at early
        omega
      rw [holds, if_neg other, made.extended.held u early]

/-- A declaration that is made after a pool has grown gets all that the pool has, which is empty again
then. -/
theorem merge_pool {store middle : Store} {added : List Clause}
    (grown : Grown ⟨store.theories.size⟩ (store.newTheory []).2 middle added) (name : String) :
    ∃ after, (middle.declare name).2.merge (middle.declare name).1 ⟨store.theories.size⟩ = .ok after ∧
      Made store after (middle.declare name).1 ⟨.declaring name :: added⟩ := by
  obtain ⟨extended, place, clauses, theories, held, clause⟩ := middle.declare_spec name
  obtain ⟨cs, pooled, filled, distinct, fresh⟩ := grown.pooled
  have opens := extends_newTheory store []
  have blank : (store.newTheory []).2.held ⟨store.theories.size⟩ = [] := held_newTheory store []
  rw [blank, List.nil_append] at pooled
  have opened : (store.newTheory []).2.theories.size = store.theories.size + 1 := Array.size_push _
  have larger : store.theories.size < middle.theories.size := by
    have sizes := grown.theories_size
    omega
  have whole := grown.trans (extended.grown larger)
  have apart (t : TheoryId) (early : t.index < middle.theories.size) : t ≠ ⟨middle.theories.size⟩ :=
    fun same => by simp [same] at early
  have target : middle.theories.size < (middle.declare name).2.theories.size := by omega
  have source : store.theories.size < (middle.declare name).2.theories.size := by omega
  obtain ⟨after, merged, same, size, moved⟩ :=
    merge_spec (apart ⟨store.theories.size⟩ larger).symm target source
  have stays : after.clause = (middle.declare name).2.clause := by
    funext c
    rw [Store.clause, same, Store.clause]
  have kept : after.Extends store := by
    refine ⟨?_, by omega, fun c used => ?_, fun t used => ?_⟩
    · rw [same]
      exact whole.clauses_size
    · rw [stays, whole.clause c used]
      rfl
    · have other : t ≠ ⟨store.theories.size⟩ := fun same => by simp [same] at used
      rw [moved, if_neg other, if_neg (apart t (Nat.lt_trans used larger)),
        whole.held t (by omega) other, opens.held t used]
  have total : after.held ⟨middle.theories.size⟩ = ⟨middle.clauses.size⟩ :: cs := by
    rw [moved, if_neg (apart ⟨store.theories.size⟩ larger).symm, if_pos rfl, held,
      extended.held ⟨store.theories.size⟩ larger, pooled]
    rfl
  have still : cs.map (middle.declare name).2.clause = cs.map middle.clause :=
    List.map_congr_left fun c member => extended.clause c (fresh c member).2
  rw [← size] at target
  rw [place]
  refine ⟨after, merged, .of_held kept (Nat.le_of_lt larger) target total ?_ ?_ fun c member => ?_⟩
  · rw [stays, List.map_cons, clause, still, filled]
  · refine List.nodup_cons.mpr ⟨fun member => ?_, distinct⟩
    exact absurd (fresh _ member).2 (Nat.lt_irrefl _)
  · rw [same, clauses]
    rcases List.mem_cons.mp member with rfl | rest
    · exact ⟨grown.clauses_size, Nat.lt_succ_self _⟩
    · exact ⟨(fresh c rest).1, Nat.lt_succ_of_lt (fresh c rest).2⟩

end Clausal.Store
