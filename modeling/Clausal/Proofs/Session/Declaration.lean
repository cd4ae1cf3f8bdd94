import Clausal.Proofs.Session.Operation
import Clausal.Proofs.Store.Declaration

namespace Clausal

open Store

theorem Request.runTakeDeclared_eq (t : TheoryId) (w : Workspace) :
    (runTakeDeclared (.theory t)).run.run w =
      let after := (w.memory.store.takeDeclared t).2
      match (w.memory.store.takeDeclared t).1 with
      | .error fault => (.error fault, w.withStore after)
      | .ok name => (.ok (.texts [name, (after.theory t).code], none), w.withStore after) := by
  change (Work.lift (w.memory.store.takeDeclared t).1 >>= _ : Work Result).run.run
    (w.withStore (w.memory.store.takeDeclared t).2) = _
  cases (w.memory.store.takeDeclared t).1 <;> rfl

namespace Session

/-- The request answers with the name that was declared, or with the fault, and changes nothing but the
store. -/
theorem request_takeDeclared (session : Session) (thread : ThreadId) (keep : Option String) (t : TheoryId) :
    session.request thread keep (Operation.takeDeclared (.theory t)).request =
      let after := (session.store.takeDeclared t).2
      (match (session.store.takeDeclared t).1 with
        | .error fault => .fault fault
        | .ok name => .output (.texts [name, (after.theory t).code]),
        { session with workspace := session.workspace.withStore after }) := by
  have run : ((Operation.takeDeclared (.theory t)).request.run (session.settings.stem thread)
      (session.settings.check thread)).run.run session.workspace =
        (Request.runTakeDeclared (.theory t)).run.run session.workspace := rfl
  rw [request]
  simp only [run, Request.runTakeDeclared_eq, store]
  cases (session.workspace.memory.store.takeDeclared t).1 with
  | error fault => rfl
  | ok name => cases keep <;> rfl

/-- Taking the declaration off a theory gives a name exactly if the first clause asserts one and nothing
else. An empty theory stays as it is. Otherwise the theory loses its first position, also where that clause
declares nothing; a clause of one literal loses the literal wherever it is held, whatever its sign; and
nothing else changes. If the theory held the clause once, its declaration and what is left of it say
together what it said. -/
theorem takeDeclared_effect (session : Session) (t : TheoryId) :
    let before := session.store
    let result := (before.takeDeclared t).1
    let after := (before.takeDeclared t).2
    (∀ thread keep, session.request thread keep (Operation.takeDeclared (.theory t)).request =
      (match result with
        | .error fault => .fault fault
        | .ok name => .output (.texts [name, (after.theory t).code]),
        { session with workspace := session.workspace.withStore after })) ∧
    (∀ name, result = .ok name ↔
      ∃ c cs, before.held t = c :: cs ∧ (before.clause c).literals = [.pos name]) ∧
    (∀ fault, result = .error fault → fault.kind = .protocol) ∧
    (before.held t = [] → result = .error .emptyTheory ∧ after = before) ∧
    ∀ c cs, before.held t = c :: cs →
      after.held t = cs ∧ (∀ u, u ≠ t → after.held u = before.held u) ∧
      (∀ d, d ≠ c → after.clause d = before.clause d) ∧
      after.clauses.size = before.clauses.size ∧ after.theories.size = before.theories.size ∧
      ((before.clause c).literals.length ≠ 1 →
        result = .error (.notUnit (before.clause c).text) ∧ after.clause c = before.clause c) ∧
      (∀ l, (before.clause c).literals = [l] →
        after.clause c = ⟨[]⟩ ∧ (l.negated = true → result = .error (.negatedDeclaration l.name))) ∧
      ∀ name, result = .ok name → c ∉ cs →
        ∀ model : Model, (∀ x ∈ (before.theory t).names, x ∈ model.keys) →
          ∃ a b, model.value name = .ok a ∧ (after.theory t).evaluate model = .ok b ∧
            (before.theory t).evaluate model = .ok (a && b) := by
  intro before result after
  refine ⟨fun thread keep => session.request_takeDeclared thread keep t, before.takeDeclared_eq_ok_iff t,
    fun fault => kind_of_takeDeclared_error, fun empty => ?_, fun c cs held => ?_⟩
  · have unchanged := takeDeclared_empty empty
    exact ⟨congrArg Prod.fst unchanged, congrArg Prod.snd unchanged⟩
  · obtain ⟨own, theories, clause, clauses, clauses_size, theories_size⟩ := takeDeclared_post held
    refine ⟨own, theories, clauses, clauses_size, theories_size, fun other => ?_, fun l single => ?_,
      fun name done once model covered => ?_⟩
    · have unit : (before.clause c).isUnit = false := beq_eq_false_iff_ne.mpr other
      rw [unit] at clause
      exact ⟨congrArg Prod.fst (takeDeclared_not_unit held unit), clause⟩
    · rw [(Clause.isUnit_iff _).mpr ⟨l, single⟩] at clause
      refine ⟨clause, fun negated => ?_⟩
      have outcome := congrArg Prod.fst (takeDeclared_unit held single)
      rwa [negated] at outcome
    · obtain ⟨first, rest, again, single⟩ := (before.takeDeclared_eq_ok_iff t name).mp done
      cases held.symm.trans again
      have inside := names_takeDeclared held single once
      have named : name ∈ model.keys := covered name ((inside name).mpr (.inl rfl))
      have rest : ∀ x ∈ (after.theory t).names, x ∈ model.keys := fun x member =>
        covered x ((inside x).mpr (.inr member))
      refine ⟨_, _, Model.value_of_mem named, Theory.evaluate_eq_ok rest, ?_⟩
      rw [Theory.evaluate_eq_ok covered, truth_takeDeclared model.total held single once]

/-- The declaring clause is held by a second theory as well, which then holds an empty clause. -/
theorem takeDeclared_effect_of_alias :
    let store : Store := ⟨#[⟨[.pos "a"]⟩, ⟨[.neg "a", .pos "b"]⟩], #[[⟨0⟩, ⟨1⟩], [⟨1⟩, ⟨0⟩]]⟩
    let session : Session := { workspace := ({} : Workspace).withStore store }
    let model : Model := ⟨[("a", true), ("b", false)]⟩
    let after := (session.store.takeDeclared ⟨0⟩).2
    after.theory ⟨0⟩ = ⟨[⟨[.neg "a", .pos "b"]⟩]⟩ ∧
      after.theory ⟨1⟩ = ⟨[⟨[.neg "a", .pos "b"]⟩, ⟨[]⟩]⟩ ∧
      ∃ a b, model.value "a" = .ok a ∧ (after.theory ⟨0⟩).evaluate model = .ok b ∧
        (session.store.theory ⟨0⟩).evaluate model = .ok (a && b) := by
  intro store session model after
  obtain ⟨-, named, -, -, effect⟩ := takeDeclared_effect session ⟨0⟩
  have done := (named "a").mpr ⟨⟨0⟩, [⟨1⟩], rfl, rfl⟩
  obtain ⟨own, others, clauses, -, -, -, single, law⟩ := effect ⟨0⟩ [⟨1⟩] rfl
  obtain ⟨emptied, -⟩ := single (.pos "a") rfl
  have second := clauses ⟨1⟩ (by decide)
  have each : ∀ c ∈ (session.store.theory ⟨0⟩).clauses, ∀ l ∈ c.literals, l.name ∈ model.keys := by decide
  have covered : ∀ x ∈ (session.store.theory ⟨0⟩).names, x ∈ model.keys := by
    intro x member
    obtain ⟨c, atClause, l, atLiteral, rfl⟩ := (Theory.mem_names_iff _ x).mp member
    exact each c atClause l atLiteral
  refine ⟨?_, ?_, law "a" done (by decide) model covered⟩
  · rw [Store.theory, own, List.map_singleton, second]
    rfl
  · rw [Store.theory, others ⟨1⟩ (by decide)]
    change Theory.mk [after.clause ⟨1⟩, after.clause ⟨0⟩] = _
    rw [second, emptied]
    rfl

end Session

end Clausal
