import Clausal.Proofs.Encoding.Ownership
import Clausal.Proofs.Session.Operation
import Mathlib.Logic.Relation

namespace Clausal.Session

open Store

/-- What may happen to the clauses and theories of a session, as long as a clause is only ever added to a
theory while no theory holds it. -/
inductive Handling (session : Session) : Session → Prop
  | operate (thread : ThreadId) (keep : Option String) (op : Operation) :
      (∀ v ∈ op.operands, session.store.loose.Has v) →
      Handling session (session.request thread keep op.request).2
  /-- A conversion that works on the objects of the store, with a theory for each subformula. -/
  | convertIn {f source ambient check t b} :
      Encoding.convertIn session.store f source ambient check = .ok (t, b) →
      Handling session { session with workspace := session.workspace.withStore b.store }
  /-- Anything else that leaves to each theory the clauses it holds, such as putting together a clause. -/
  | aside {after} : after.store.theories = session.store.theories →
      session.store.clauses.size ≤ after.store.clauses.size → Handling session after

theorem Handling.owned {before after : Session} (step : Handling before after)
    (owned : before.store.Owned) : after.store.Owned := by
  cases step with
  | operate thread keep op loose => exact owned.change (before.request_change thread keep loose)
  | convertIn done => exact Encoding.convertIn_owned done owned
  | aside theories size =>
    refine owned.fewer size fun t => ?_
    have kept : after.store.held t = before.store.held t := by rw [held, theories, held]
    exact kept ▸ List.Sublist.refl _

theorem owned_of_handled {start session : Session} (blank : start.store = {})
    (run : Relation.ReflTransGen Handling start session) : session.store.Owned := by
  induction run with
  | refl => exact blank ▸ owned_empty
  | tail _ step owned => exact step.owned owned

theorem request_merge {session : Session} (thread : ThreadId) (keep : Option String) {t u : TheoryId}
    (apart : t ≠ u) (target : t.index < session.store.theories.size)
    (source : u.index < session.store.theories.size) :
    let after := session.request thread keep (Operation.merge (.theory t) (.theory u)).request
    (∃ output, after.1 = .output output) ∧ after.2.store.clauses = session.store.clauses ∧
      ∀ v, after.2.store.held v =
        if v = u then [] else if v = t then session.store.held t ++ session.store.held u
        else session.store.held v := by
  intro after
  obtain ⟨merged, done, clauses, -, moved⟩ := merge_spec apart target source
  have run : ((Operation.merge (.theory t) (.theory u)).request.run (session.settings.stem thread)
      (session.settings.check thread)).run.run session.workspace =
        (.ok (.texts [(merged.theory t).code, (merged.theory u).code], none),
          session.workspace.withStore merged) := by
    change (Request.runMerge (.theory t) (.theory u)).run.run session.workspace = _
    rw [store] at done
    rw [Request.runMerge_theories, done]
  have result : after = (.output (.texts [(merged.theory t).code, (merged.theory u).code]),
      { session with workspace := session.workspace.withStore merged }) := by
    simp only [after, request, run]
  rw [result]
  exact ⟨⟨_, rfl⟩, clauses, moved⟩

/-- However clauses and theories are handled, no clause gets into two theories, or into one twice. A merge
of two theories moves the clauses of one, in order, to the end of the other, and touches nothing else.
Where adding, merging or taking out fails, all is as it was. -/
theorem handled_holds_once {start session : Session} (blank : start.store = {})
    (run : Relation.ReflTransGen Handling start session) :
    (∀ t, (session.store.held t).Nodup) ∧
    (∀ t u c, c ∈ session.store.held t → c ∈ session.store.held u → t = u) ∧
    ∀ thread keep,
      (∀ t u, t ≠ u → t.index < session.store.theories.size → u.index < session.store.theories.size →
        let after := session.request thread keep (Operation.merge (.theory t) (.theory u)).request
        (∃ output, after.1 = .output output) ∧
          after.2.store.clauses = session.store.clauses ∧
          after.2.store.held t = session.store.held t ++ session.store.held u ∧
          after.2.store.held u = [] ∧
          ∀ v, v ≠ t → v ≠ u → after.2.store.held v = session.store.held v) ∧
      (∀ v w, ∀ op ∈ [Operation.append v w, .merge v w, .pop v], ∀ fault,
        (session.request thread keep op.request).1 = .fault fault →
          (session.request thread keep op.request).2 = session) ∧
      (∀ t v, (∀ c, v ≠ .clause c) →
        session.request thread keep (Operation.append (.theory t) v).request =
          (.fault (.notClause (v.code session.workspace.memory)), session)) ∧
      (∀ t, session.request thread keep (Operation.merge (.theory t) (.theory t)).request =
        (.fault .selfMerge, session)) ∧
      ∀ t, session.store.held t = [] →
        session.request thread keep (Operation.pop (.theory t)).request =
          (.fault .emptyTheory, session) := by
  have owned := owned_of_handled blank run
  refine ⟨owned.once, owned.one, fun thread keep => ⟨fun t u apart target source => ?_,
    fun v w op kind fault failed => ?_, fun t v other => ?_, fun t => ?_, fun t empty => ?_⟩⟩
  · obtain ⟨done, clauses, moved⟩ := request_merge thread keep apart target source
    refine ⟨done, clauses, ?_, ?_, fun v first second => ?_⟩
    · rw [moved, if_neg apart, if_pos rfl]
    · rw [moved, if_pos rfl]
    · rw [moved, if_neg second, if_neg first]
  · refine request_of_fault failed fun ambient check => ?_
    simp only [List.mem_cons, List.not_mem_nil, or_false] at kind
    rcases kind with rfl | rfl | rfl
    · exact Request.settled_append v w ambient check
    · exact Request.settled_merge v w ambient check
    · exact Request.settled_pop v ambient check
  · refine request_eq_fault ?_
    cases v with
    | clause c => exact absurd rfl (other c)
    | _ => rfl
  · refine request_eq_fault ?_
    change (Request.runMerge (.theory t) (.theory t)).run.run session.workspace = _
    rw [Request.runMerge_theories, Store.merge, if_pos rfl]
  · refine request_eq_fault ?_
    change (Request.runPop (.theory t)).run.run session.workspace = _
    rw [store] at empty
    rw [Request.runPop_theory, takeClause, empty]

theorem loose_of_absent {session : Session} {c : ClauseId}
    (free : c.index < session.store.clauses.size ∧ ∀ cs ∈ session.store.theories.toList, c ∉ cs) :
    session.store.loose.Has (.clause c) := by
  refine ⟨free.1, fun t => ?_⟩
  rw [held]
  cases found : session.store.theories[t.index]? with
  | none => exact List.not_mem_nil
  | some cs => exact free.2 cs (Array.mem_toList_iff.mpr (Array.mem_of_getElem? found))

/-- The declaration of a converted formula is taken out and added to another theory, which then takes over
what is left. -/
theorem handled_holds_once_of_popped :
    let created := (request {} ⟨0⟩ none Operation.create.request).2
    let converted :=
      (created.request ⟨0⟩ none (Operation.convert (.formula (.neg (.var "p"))) none true).request).2
    let popped := (converted.request ⟨0⟩ none (Operation.pop (.theory ⟨1⟩)).request).2
    let added := (popped.request ⟨0⟩ none (Operation.append (.theory ⟨0⟩) (.clause ⟨0⟩)).request).2
    let merged := (added.request ⟨0⟩ none (Operation.merge (.theory ⟨0⟩) (.theory ⟨1⟩)).request).2
    Relation.ReflTransGen Handling {} added ∧
      added.store.theory ⟨0⟩ = ⟨[⟨[.pos "_x1"]⟩]⟩ ∧
      merged.store.held ⟨0⟩ = [⟨0⟩, ⟨1⟩, ⟨2⟩] ∧ merged.store.held ⟨1⟩ = [] ∧
      added.request ⟨0⟩ none (Operation.append (.theory ⟨1⟩) (.theory ⟨0⟩)).request =
        (.fault (.notClause "Cnf([Clause([Literal('_x1')])])"), added) := by
  intro created converted popped added merged
  have first : Handling {} created := .operate ⟨0⟩ none .create nofun
  have second : Handling created converted := by
    refine .operate ⟨0⟩ none _ fun v member => ?_
    cases List.mem_singleton.mp member
    trivial
  have third : Handling converted popped := by
    refine .operate ⟨0⟩ none _ fun v member => ?_
    cases List.mem_singleton.mp member
    change 1 < converted.store.theories.size
    decide +kernel
  have fourth : Handling popped added := by
    refine .operate ⟨0⟩ none _ fun v member => ?_
    rcases List.mem_cons.mp member with rfl | member
    · change 0 < popped.store.theories.size
      decide +kernel
    · cases List.mem_singleton.mp member
      exact loose_of_absent (by decide +kernel)
  have run : Relation.ReflTransGen Handling {} added :=
    (((Relation.ReflTransGen.single first).tail second).tail third).tail fourth
  obtain ⟨-, -, outcomes⟩ := handled_holds_once rfl run
  obtain ⟨merges, -, refused, -, -⟩ := outcomes ⟨0⟩ none
  obtain ⟨-, -, target, source, -⟩ :=
    merges ⟨0⟩ ⟨1⟩ (by decide) (by decide +kernel) (by decide +kernel)
  refine ⟨run, by decide +kernel, target.trans ?_, source, (refused ⟨1⟩ (.theory ⟨0⟩) nofun).trans ?_⟩
  · decide +kernel
  · have code : (Value.theory ⟨0⟩).code added.workspace.memory = "Cnf([Clause([Literal('_x1')])])" := by
      decide +kernel
    rw [code]

end Clausal.Session
