import Clausal.Proofs.Store.Change

namespace Clausal.Store

/-- Each clause is held at most once, by at most one theory. All that is held is in use. -/
structure Owned (store : Store) : Prop where
  used : ∀ t, ∀ c ∈ store.held t, c.index < store.clauses.size
  once : ∀ t, (store.held t).Nodup
  one : ∀ t u c, c ∈ store.held t → c ∈ store.held u → t = u

/-- The theories in use, and the clauses in use that no theory holds. -/
def loose (store : Store) : Region where
  clause c := c.index < store.clauses.size ∧ ∀ t, c ∉ store.held t
  theory t := t.index < store.theories.size

theorem owned_empty : Owned {} where
  used _ _ member := absurd member List.not_mem_nil
  once _ := List.nodup_nil
  one _ _ _ member := absurd member List.not_mem_nil

variable {before after : Store}

/-- Clauses that are taken out leave the others where they were. -/
theorem Owned.fewer (owned : before.Owned) (size : before.clauses.size ≤ after.clauses.size)
    (fewer : ∀ t, (after.held t).Sublist (before.held t)) : after.Owned where
  used t c member := Nat.lt_of_lt_of_le (owned.used t c ((fewer t).subset member)) size
  once t := (owned.once t).sublist (fewer t)
  one t u c first second := owned.one t u c ((fewer t).subset first) ((fewer u).subset second)

/-- Different clauses that no theory held may all be put into one theory. -/
theorem Owned.more (owned : before.Owned) (size : before.clauses.size ≤ after.clauses.size)
    {t : TheoryId} {cs : List ClauseId} (held : after.held t = before.held t ++ cs)
    (only : Only t before after) (distinct : cs.Nodup)
    (free : ∀ c ∈ cs, c.index < after.clauses.size ∧ ∀ u, c ∉ before.held u) : after.Owned := by
  have origin (u : TheoryId) (c : ClauseId) (member : c ∈ after.held u) :
      c ∈ before.held u ∨ u = t ∧ c ∈ cs := by
    by_cases same : u = t
    · rw [same, held, List.mem_append] at member
      rw [same]
      exact member.imp_right fun new => ⟨rfl, new⟩
    · rw [only u same] at member
      exact Or.inl member
  refine ⟨fun u c member => ?_, fun u => ?_, fun u v c first second => ?_⟩
  · rcases origin u c member with old | ⟨_, new⟩
    · exact Nat.lt_of_lt_of_le (owned.used u c old) size
    · exact (free c new).1
  · by_cases same : u = t
    · rw [same, held]
      refine List.nodup_append.mpr ⟨owned.once t, distinct, fun c old d new equal => ?_⟩
      exact (free d new).2 t (equal ▸ old)
    · rw [only u same]
      exact owned.once u
  · rcases origin u c first with old | ⟨atFirst, new⟩ <;>
      rcases origin v c second with old' | ⟨atSecond, new'⟩
    · exact owned.one u v c old old'
    · exact absurd old ((free c new').2 u)
    · exact absurd old' ((free c new).2 v)
    · exact atFirst.trans atSecond.symm

theorem Owned.setClause (owned : before.Owned) (c : ClauseId) (clause : Clause) :
    (before.setClause c clause).Owned :=
  owned.fewer (Nat.le_of_eq (before.size_setClause c clause).symm) fun _ => List.Sublist.refl _

theorem Owned.shorten (owned : before.Owned) {t : TheoryId} {cs : List ClauseId}
    (fewer : cs.Sublist (before.held t)) : (before.setHeld t cs).Owned := by
  refine owned.fewer (Nat.le_refl _) fun u => ?_
  by_cases same : u = t
  · rw [same]
    rcases before.held_setHeld_self t cs with kept | blank
    · rw [kept]
      exact fewer
    · rw [blank]
      exact List.nil_sublist _
  · have kept := before.held_setHeld_of_ne same cs
    exact kept ▸ List.Sublist.refl _

/-- A theory may take over all that another holds: once that one is empty, no theory holds it. -/
theorem Owned.move (owned : before.Owned) {t u : TheoryId} (apart : t ≠ u)
    (target : t.index < before.theories.size) (source : u.index < before.theories.size) :
    ((before.setHeld t (before.held t ++ before.held u)).setHeld u []).Owned := by
  obtain ⟨_, merged, -, -, moved⟩ := merge_spec apart target source
  rw [merge, if_neg apart] at merged
  cases merged
  have emptied (v : TheoryId) := held_setHeld before u v [] source
  -- emptying the source first, no theory holds its clauses when the target gets them
  have gone := owned.shorten (t := u) (List.nil_sublist _)
  refine gone.more (t := t) (Nat.le_refl _) ?_ (fun v other => ?_) (owned.once u) fun c member => ?_
  · rw [moved, emptied, if_neg apart, if_pos rfl, if_neg apart]
  · rw [moved, emptied, if_neg other]
  · refine ⟨owned.used u c member, fun v holds => ?_⟩
    rw [emptied] at holds
    split at holds
    · exact absurd holds List.not_mem_nil
    · rename_i other
      exact other (owned.one v u c holds member)

theorem Owned.addClause (owned : before.Owned) {t : TheoryId} (used : t.index < before.theories.size)
    {c : ClauseId} (free : before.loose.clause c) : (before.addClause t c).Owned := by
  refine owned.more (Nat.le_refl _) (?_ : _ = before.held t ++ [c]) (fun u apart => ?_)
    (List.pairwise_singleton _ c) fun d member => ?_
  · rw [Store.addClause, held_setHeld before t t _ used, if_pos rfl]
  · exact before.held_setHeld_of_ne apart _
  · exact List.mem_singleton.mp member ▸ free

/-- New clauses are held by none of the theories that there were. -/
theorem Owned.create (owned : before.Owned) {t : TheoryId} {made : Theory} (new : Made before after t made)
    (only : Only t before after) : after.Owned := by
  refine owned.more (t := t) new.extended.clauses_size ?_ only new.distinct fun c member => ?_
  · rw [held_of_unused new.new, List.nil_append]
  · refine ⟨new.inUse.clause_lt c member, fun u old => ?_⟩
    exact Nat.not_lt.mpr (new.fresh c member) (owned.used u c old)

/-- No operation on theories, and on clauses that no theory holds, gives a clause to two of them. -/
theorem Owned.change (owned : before.Owned) (change : Change before.loose before after) : after.Owned := by
  cases change with
  | nothing => exact owned
  | rewrite clause _ => exact owned.setClause _ clause
  | add used free => exact owned.addClause used free
  | move apart target source => exact owned.move apart target source
  | @take t c cs _ held => exact owned.shorten (held ▸ List.sublist_cons_self c cs)
  | @strip t c cs clause _ held =>
    exact (owned.shorten (held ▸ List.sublist_cons_self c cs)).setClause c clause
  | create new only => exact owned.create new only

theorem Owned.takeDeclared (owned : before.Owned) {t : TheoryId} (used : t.index < before.theories.size) :
    (before.takeDeclared t).2.Owned :=
  owned.change (takeDeclared_change before used)

/-- New clauses may be added to any theory, since no theory can hold one of them yet. -/
theorem Owned.addClauses (owned : before.Owned) {t : TheoryId} (used : t.index < before.theories.size)
    (clauses : List Clause) : (before.addClauses t clauses).Owned := by
  obtain ⟨extended, -, inUse⟩ := newClauses_spec clauses before
  obtain ⟨distinct, fresh⟩ := newClauses_fresh clauses before
  have same (u : TheoryId) : (newClauses clauses before).2.held u = before.held u := by
    rw [held, newClauses_theories, held]
  have still := Nat.lt_of_lt_of_le used extended.theories_size
  obtain ⟨kept, -, added⟩ := addEach_spec t (newClauses clauses before).1 _ still
  have size : (before.addClauses t clauses).clauses.size = (newClauses clauses before).2.clauses.size := by
    rw [Store.addClauses, kept]
  refine owned.more (t := t) (size ▸ extended.clauses_size) ?_ (fun u other => ?_) distinct fun c member => ?_
  · rw [Store.addClauses, added, if_pos rfl, same]
  · rw [Store.addClauses, added, if_neg other, same]
  · exact ⟨size ▸ inUse c member, fun u holds => Nat.not_lt.mpr (fresh c member) (owned.used u c holds)⟩

end Clausal.Store
