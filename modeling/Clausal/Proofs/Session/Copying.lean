import Clausal.Proofs.Session.Operation
import Clausal.Proofs.Store.Copying
import Clausal.Proofs.Theory.Equality
import Mathlib.Logic.Relation

namespace Clausal

open Store

namespace Session

/-- What may happen to clauses and theories while only those of a region are worked on. What is new may hold
clauses of the region. -/
inductive Confined (r : Region) (session : Session) : Session → Prop
  | operate (thread : ThreadId) (keep : Option String) (op : Operation) :
      (∀ v ∈ op.operands, r.Has v) → Confined r session (session.request thread keep op.request).2
  /-- Anything that changes no clause and no theory that there is. -/
  | create {after} : after.store.Extends session.store →
      (∀ t : TheoryId, session.store.theories.size ≤ t.index → ∀ c ∈ after.store.held t, r.clause c) →
      Confined r session after

variable {r : Region}

theorem Confined.within {before after : Session} (step : Confined r before after)
    (closed : Closed r before.store) : Within r before.store after.store ∧ Closed r after.store := by
  cases step with
  | operate thread keep op inside => exact (before.request_change thread keep inside).within closed
  | create extended holds => exact closed.extends extended holds

theorem within_of_confined {start session : Session} (closed : Closed r start.store)
    (run : Relation.ReflTransGen (Confined r) start session) :
    Within r start.store session.store ∧ Closed r session.store := by
  induction run with
  | refl => exact ⟨.refl start.store, closed⟩
  | tail _ step ih =>
    obtain ⟨later, still⟩ := step.within ih.2
    exact ⟨ih.1.trans later, still⟩

end Session

theorem Memory.copy_theory (memory : Memory) (t : TheoryId) :
    memory.copy (.theory t) =
      (.theory (memory.store.copyTheory ⟨[]⟩ t).1,
        { memory with store := (memory.store.copyTheory ⟨[]⟩ t).2.2 }) := by
  rw [copy, Copying.value]
  rfl

namespace Session

/-- The requests for a copy of a theory: a deep copy, or one that is written out and read back. -/
def copying (t : TheoryId) : List Request :=
  [.copy (.given (.theory t)) true, .rebuild (.given (.theory t))]

theorem run_copying {t : TheoryId} {r : Request} (kind : r ∈ copying t) :
    ∃ more, ∀ ambient check (w : Workspace), (r.run ambient check).run.run w =
      (Request.answerCopy (.theory t) (w.memory.copy (.theory t)) more).run.run w := by
  simp only [copying, List.mem_cons, List.not_mem_nil, or_false] at kind
  rcases kind with rfl | rfl
  · refine ⟨false, fun ambient check w => ?_⟩
    rw [Request.run, Work.run_bind, Work.run_eval_given]
    dsimp only
    rw [Work.run_bind, Work.run_memory]
    rfl
  · refine ⟨true, fun ambient check w => ?_⟩
    rw [Request.run, Work.run_bind, Work.run_eval_given]
    dsimp only
    rw [Work.run_bind, Work.run_memory]

/-- A request for a copy answers with what the copy looks like and whether it equals the theory. -/
theorem request_duplicates (session : Session) {t : TheoryId} (used : session.store.InUse t)
    (thread : ThreadId) (keep : Option String) {r : Request} (kind : r ∈ copying t) :
    let after := session.request thread keep r
    ∃ copy more,
      after.1 = .output (.datum (.list [.text ((Value.theory copy).code after.2.workspace.memory),
        .bool ((Value.theory copy).same after.2.workspace.memory (.theory t)), .bool more])) ∧
      (∀ name, keep = some name → after.2.workspace.values.get? name = some (.theory copy)) ∧
      Duplicated session.store after.2.store t copy := by
  intro after
  obtain ⟨more, run⟩ := run_copying kind
  have duplicated := copyTheory_duplicated used
  refine ⟨(session.store.copyTheory ⟨[]⟩ t).1, more, ?_⟩
  simp only [after, request, run, Memory.copy_theory]
  cases keep with
  | none => exact ⟨rfl, fun other same => absurd same.symm (Option.some_ne_none other), duplicated⟩
  | some name =>
    refine ⟨rfl, fun other same => ?_, duplicated⟩
    cases same
    exact (Table.get?_insert _ name name _).trans (if_pos rfl)

end Session

/-- Two theories in a memory cannot be told apart by comparing, reading or evaluating them. -/
structure Agree (memory : Memory) (t u : TheoryId) : Prop where
  same : (Value.theory t).same memory (.theory u) = true ∧ (Value.theory u).same memory (.theory t) = true
  code : (Value.theory t).code memory = (Value.theory u).code memory
  names : (Value.theory t).names memory = (Value.theory u).names memory
  evaluate : ∀ model, (Value.theory t).evaluate memory model = (Value.theory u).evaluate memory model

theorem agree_of_eq {memory : Memory} {t u : TheoryId}
    (same : memory.store.theory t = memory.store.theory u) : Agree memory t u := by
  refine ⟨⟨?_, ?_⟩, ?_, ?_, fun model => ?_⟩
  · rw [Value.same, Value.sameWithin, same]
    exact Theory.same_equivalence.refl _
  · rw [Value.same, Value.sameWithin, same]
    exact Theory.same_equivalence.refl _
  · rw [Value.code, Value.codeWithin, Value.code, Value.codeWithin, same]
  · rw [Value.names, Value.names, same]
  · rw [Value.evaluate, Value.evaluate, same]

namespace Session

/-- A copy of a theory agrees with it and is made of new clauses, which no other theory holds. It shares a
clause between two positions exactly where the theory does. Whatever is done with the copy, its clauses
and what is made later leaves all that there was as it was, and what is done with all else leaves the copy
as it was. -/
theorem copy_independent (session : Session) {t : TheoryId} (used : t.index < session.store.theories.size)
    (sound : ∀ u : TheoryId, u.index < session.store.theories.size → session.store.InUse u)
    (thread : ThreadId) (keep : Option String) {r : Request} (kind : r ∈ copying t) :
    let after := session.request thread keep r
    ∃ copy more,
      after.1 = .output (.datum (.list [.text ((Value.theory t).code session.workspace.memory),
        .bool true, .bool more])) ∧
      (∀ name, keep = some name → after.2.workspace.values.get? name = some (.theory copy)) ∧
      Duplicated session.store after.2.store t copy ∧
      Agree after.2.workspace.memory copy t ∧
      (∀ u, u ≠ copy → ∀ c ∈ after.2.store.held u, c ∉ after.2.store.held copy) ∧
      (∀ later, Relation.ReflTransGen (Confined (after.2.store.own copy)) after.2 later →
        later.store.Extends session.store) ∧
      ∀ later, Relation.ReflTransGen (Confined (after.2.store.others copy)) after.2 later →
        later.store.held copy = after.2.store.held copy ∧
          ∀ c ∈ after.2.store.held copy, later.store.clause c = after.2.store.clause c := by
  intro after
  obtain ⟨copy, more, replied, kept, duplicated⟩ :=
    session.request_duplicates (sound t used) thread keep kind
  have theory : after.2.store.theory copy = after.2.store.theory t := by
    rw [duplicated.theory, duplicated.extended.theory (sound t used)]
  have agree : Agree after.2.workspace.memory copy t := agree_of_eq theory
  have code : (Value.theory copy).code after.2.workspace.memory =
      (Value.theory t).code session.workspace.memory := by
    rw [Value.code, Value.codeWithin, Value.code, Value.codeWithin]
    exact congrArg Theory.code duplicated.theory
  have apart := duplicated.apart sound
  rw [code, agree.same.1] at replied
  refine ⟨copy, more, replied, kept, duplicated, agree, apart, fun later run => ?_,
    fun later run => ?_⟩
  · exact duplicated.extends_of_within (within_of_confined (closed_own _ copy) run).1
  · have within := (within_of_confined (closed_others duplicated.inUse apart) run).1
    exact ⟨within.held copy fun other => other rfl,
      fun c held => within.clause c fun outside => outside held⟩

/-- A clause is held twice by the theory that is copied, and once more by another one. Taking the
declaration off the copy changes the clause for both positions of the copy, and only there. -/
theorem copy_independent_of_shared_clause :
    let session : Session := { workspace := { memory := { store :=
      { clauses := #[⟨[.pos "p"]⟩], theories := #[[⟨0⟩, ⟨0⟩], [⟨0⟩]] } } } }
    let copied := (session.request ⟨0⟩ (some "copy") (.copy (.given (.theory ⟨0⟩)) true)).2
    let stripped (t : TheoryId) :=
      (copied.request ⟨0⟩ none (Operation.takeDeclared (.theory t)).request).2
    copied.store.held ⟨2⟩ = [⟨1⟩, ⟨1⟩] ∧
      (stripped ⟨2⟩).store.theory ⟨2⟩ = ⟨[⟨[]⟩]⟩ ∧ (stripped ⟨2⟩).store.Extends session.store ∧
      (stripped ⟨0⟩).store.theory ⟨0⟩ = ⟨[⟨[]⟩]⟩ ∧ (stripped ⟨0⟩).store.theory ⟨1⟩ = ⟨[⟨[]⟩]⟩ ∧
      (stripped ⟨0⟩).store.held ⟨2⟩ = copied.store.held ⟨2⟩ ∧
      (stripped ⟨0⟩).store.clause ⟨1⟩ = ⟨[.pos "p"]⟩ := by
  intro session copied stripped
  have sound : ∀ u : TheoryId, u.index < session.store.theories.size → session.store.InUse u := by
    intro u used
    refine ⟨used, ?_⟩
    obtain ⟨i⟩ := u
    match i, used with
    | 0, _ => decide
    | 1, _ => decide
  obtain ⟨copy, -, -, -, duplicated, -, -, own, others⟩ :=
    session.copy_independent (t := ⟨0⟩) (by decide) sound ⟨0⟩ (some "copy") List.mem_cons_self
  obtain rfl : copy = ⟨2⟩ := duplicated.new
  have first : Confined (copied.store.own ⟨2⟩) copied (stripped ⟨2⟩) := by
    refine .operate ⟨0⟩ none _ fun v member => ?_
    cases List.mem_singleton.mp member
    exact .inl rfl
  have second : Confined (copied.store.others ⟨2⟩) copied (stripped ⟨0⟩) := by
    refine .operate ⟨0⟩ none _ fun v member => ?_
    cases List.mem_singleton.mp member
    exact fun same => by cases same
  obtain ⟨held, clause⟩ := others _ (.single second)
  exact ⟨by decide +kernel, by decide +kernel, own _ (.single first), by decide +kernel,
    by decide +kernel, held, (clause ⟨1⟩ (by decide +kernel)).trans (by decide +kernel)⟩

end Session

end Clausal
