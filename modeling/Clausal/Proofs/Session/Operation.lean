import Clausal.Proofs.Session.Request
import Clausal.Proofs.Store.Change
import Clausal.Session.Step

namespace Clausal

/-- What can be done to clauses and theories. Each operation works on values that are at hand. -/
inductive Operation where
  | convert (v : Value) (source : Option String) (ofAny : Bool)
  | create
  | append (target value : Value)
  | merge (target source : Value)
  | pop (v : Value)
  | takeDeclared (v : Value)

namespace Operation

/-- The values that an operation works on. -/
def operands : Operation → List Value
  | convert v _ _ => [v]
  | create => []
  | append v w => [v, w]
  | merge v w => [v, w]
  | pop v => [v]
  | takeDeclared v => [v]

def request : Operation → Request
  | convert v source ofAny => .convert (.given v) source ofAny
  | create => .build (.gather .theory [])
  | append v w => .append (.given v) (.given w)
  | merge v w => .merge (.given v) (.given w)
  | pop v => .pop (.given v)
  | takeDeclared v => .takeDeclared (.given v)

end Operation

/-- Whether a value belongs to a region. One that is neither a clause nor a theory always does. -/
def Region.Has (r : Region) : Value → Prop
  | .clause c => r.clause c
  | .theory t => r.theory t
  | _ => True

/-- Replaces the clauses and theories. -/
def Workspace.withStore (w : Workspace) (store : Store) : Workspace :=
  { w with memory := { w.memory with store } }

open Store

theorem Work.run_sourceId (name : Option String) (w : Workspace) :
    ∃ result, (sourceId name).run.run w = (result, w) := by
  cases name with
  | none => exact ⟨.ok ⟨0⟩, rfl⟩
  | some name =>
    rw [sourceId, run_bind, run_get]
    dsimp only
    cases w.sourceNames.get? name with
    | none => exact ⟨.error .missingPart, rfl⟩
    | some id => exact ⟨.ok id, rfl⟩

namespace Request

variable {r : Region} {w : Workspace}

theorem runMerge_theories (t u : TheoryId) (w : Workspace) :
    (runMerge (.theory t) (.theory u)).run.run w = match w.memory.store.merge t u with
      | .error fault => (.error fault, w)
      | .ok store =>
        (.ok (.texts [(store.theory t).code, (store.theory u).code], none), w.withStore store) := by
  change (Work.lift (w.memory.store.merge t u) >>= _ : Work Result).run.run w = _
  cases w.memory.store.merge t u <;> rfl

theorem runPop_clause (c : ClauseId) (w : Workspace) :
    (runPop (.clause c)).run.run w = match w.memory.store.takeLiteral c with
      | .error fault => (.error fault, w)
      | .ok (l, store) =>
        (.ok (.texts [l.code, (store.clause c).code], some (.literal l)), w.withStore store) := by
  change (Work.lift (w.memory.store.takeLiteral c) >>= _ : Work Result).run.run w = _
  cases w.memory.store.takeLiteral c <;> rfl

theorem runPop_theory (t : TheoryId) (w : Workspace) :
    (runPop (.theory t)).run.run w = match w.memory.store.takeClause t with
      | .error fault => (.error fault, w)
      | .ok (c, store) =>
        (.ok (.texts [(store.clause c).code, (store.theory t).code], some (.clause c)),
          w.withStore store) := by
  change (Work.lift (w.memory.store.takeClause t) >>= _ : Work Result).run.run w = _
  cases w.memory.store.takeClause t <;> rfl

theorem runTakeDeclared_clause (c : ClauseId) (w : Workspace) :
    (runTakeDeclared (.clause c)).run.run w = match w.memory.store.takeLiteral c with
      | .error fault => (.error fault, w)
      | .ok (_, store) => (.error .missingPart, w.withStore store) := by
  change (Work.lift (w.memory.store.takeLiteral c) >>= _ : Work Result).run.run w = _
  cases w.memory.store.takeLiteral c <;> rfl

theorem runTakeDeclared_theory (t : TheoryId) (w : Workspace) :
    ((runTakeDeclared (.theory t)).run.run w).2 = w.withStore (w.memory.store.takeDeclared t).2 := by
  change ((Work.lift (w.memory.store.takeDeclared t).1 >>= _ : Work Result).run.run
    (w.withStore (w.memory.store.takeDeclared t).2)).2 = _
  cases (w.memory.store.takeDeclared t).1 <;> rfl

theorem runConvert_change (ambient : String) (check : Bool) (v : Value) (source : Option String)
    (ofAny : Bool) :
    Change r w.memory.store ((runConvert ambient check v source ofAny).run.run w).2.memory.store := by
  cases v with
  | formula f =>
    obtain ⟨found, named⟩ := Work.run_sourceId source w
    cases found with
    | error fault =>
      rw [runConvert, Work.run_bind, named]
      exact .nothing
    | ok id =>
      rw [runConvert_eq named]
      cases f.convert (w.source id) ambient check with
      | error fault => exact .nothing
      | ok conversion => exact .create (made_addTheory _ _) (only_addTheory _ _)
  | _ => exact .nothing

theorem runAppend_change {target value : Value} (first : r.Has target) (second : r.Has value) :
    Change r w.memory.store ((runAppend target value).run.run w).2.memory.store := by
  cases target with
  | clause c =>
    cases value with
    | literal l => exact .rewrite _ first
    | _ => exact .nothing
  | theory t =>
    cases value with
    | clause c => exact .add first second
    | _ => exact .nothing
  | _ => exact .nothing

theorem runMerge_change {target source : Value} (first : r.Has target) (second : r.Has source) :
    Change r w.memory.store ((runMerge target source).run.run w).2.memory.store := by
  cases target with
  | theory t =>
    cases source with
    | theory u =>
      rw [runMerge_theories, Store.merge]
      split
      · rename_i failed
        exact .nothing
      · rename_i merged
        split at merged
        · cases merged
        · rename_i apart
          cases merged
          exact .move apart first second
    | _ => exact .nothing
  | _ => exact .nothing

theorem takeLiteral_change {store after : Store} {c : ClauseId} {l : Literal} (inside : r.clause c)
    (taken : store.takeLiteral c = .ok (l, after)) : Change r store after := by
  obtain ⟨rest, -, done⟩ := ok_of_bind taken
  cases done
  exact .rewrite _ inside

theorem runPop_change {v : Value} (inside : r.Has v) :
    Change r w.memory.store ((runPop v).run.run w).2.memory.store := by
  cases v with
  | clause c =>
    rw [runPop_clause]
    split
    · exact .nothing
    · rename_i taken
      exact takeLiteral_change inside taken
  | theory t =>
    rw [runPop_theory, takeClause]
    cases held : w.memory.store.held t with
    | nil => exact .nothing
    | cons c cs => exact .take inside held
  | _ => exact .nothing

theorem runTakeDeclared_change {v : Value} (inside : r.Has v) :
    Change r w.memory.store ((runTakeDeclared v).run.run w).2.memory.store := by
  cases v with
  | clause c =>
    rw [runTakeDeclared_clause]
    split
    · exact .nothing
    · rename_i taken
      exact takeLiteral_change inside taken
  | theory t =>
    rw [runTakeDeclared_theory]
    exact takeDeclared_change _ inside
  | _ => exact .nothing

/-- Work that changes nothing where it meets a fault. -/
def Settled (work : Work Result) : Prop :=
  ∀ w fault after, work.run.run w = (.error fault, after) → after = w

theorem settled_append (v value : Value) (ambient : String) (check : Bool) :
    Settled ((Operation.append v value).request.run ambient check) := by
  intro w fault after failed
  cases v with
  | clause _ | theory _ => cases value <;> cases failed <;> rfl
  | list _ => cases failed
  | _ =>
    cases failed
    rfl

theorem settled_merge (v source : Value) (ambient : String) (check : Bool) :
    Settled ((Operation.merge v source).request.run ambient check) := by
  intro w fault after failed
  cases v with
  | theory t =>
    cases source with
    | theory u =>
      change (runMerge (.theory t) (.theory u)).run.run w = _ at failed
      rw [runMerge_theories] at failed
      cases merged : w.memory.store.merge t u with
      | error met =>
        rw [merged] at failed
        cases failed
        rfl
      | ok after =>
        rw [merged] at failed
        cases failed
    | _ =>
      cases failed
      rfl
  | _ =>
    cases failed
    rfl

theorem settled_pop (v : Value) (ambient : String) (check : Bool) :
    Settled ((Operation.pop v).request.run ambient check) := by
  intro w fault after failed
  cases v with
  | clause c =>
    change (runPop (.clause c)).run.run w = _ at failed
    rw [runPop_clause] at failed
    cases taken : w.memory.store.takeLiteral c with
    | error met =>
      rw [taken] at failed
      cases failed
      rfl
    | ok rest =>
      rw [taken] at failed
      cases failed
  | theory t =>
    change (runPop (.theory t)).run.run w = _ at failed
    rw [runPop_theory] at failed
    cases taken : w.memory.store.takeClause t with
    | error met =>
      rw [taken] at failed
      cases failed
      rfl
    | ok rest =>
      rw [taken] at failed
      cases failed
  | _ =>
    cases failed
    rfl

end Request

namespace Session

/-- The clauses and theories of a session. -/
def store (session : Session) : Store :=
  session.workspace.memory.store

theorem request_memory (session : Session) (thread : ThreadId) (keep : Option String) (r : Request) :
    (session.request thread keep r).2.workspace.memory =
      ((r.run (session.settings.stem thread) (session.settings.check thread)).run.run
        session.workspace).2.memory := by
  rw [request]
  rcases (r.run _ _).run.run session.workspace with ⟨_ | ⟨output, value⟩, w⟩
  · rfl
  · cases keep with
    | none => rfl
    | some name => cases value <;> rfl

theorem request_eq_fault {session : Session} {thread : ThreadId} {keep : Option String} {r : Request}
    {fault : Fault}
    (failed : (r.run (session.settings.stem thread) (session.settings.check thread)).run.run
      session.workspace = (.error fault, session.workspace)) :
    session.request thread keep r = (.fault fault, session) := by
  rw [request, failed]

theorem request_of_fault {session : Session} {thread : ThreadId} {keep : Option String} {r : Request}
    {fault : Fault} (failed : (session.request thread keep r).1 = .fault fault)
    (settled : ∀ ambient check, Request.Settled (r.run ambient check)) :
    (session.request thread keep r).2 = session := by
  rw [request] at failed ⊢
  cases result : (r.run (session.settings.stem thread) (session.settings.check thread)).run.run
    session.workspace with
  | mk outcome after =>
    rw [result] at failed
    cases outcome with
    | error met => rw [settled _ _ _ _ _ result]
    | ok answer =>
      obtain ⟨output, value⟩ := answer
      cases keep <;> cases value <;> cases failed

/-- All that an operation can do to clauses and theories, whether or not it fails. -/
theorem request_change {r : Region} (session : Session) (thread : ThreadId) (keep : Option String)
    {op : Operation} (inside : ∀ v ∈ op.operands, r.Has v) :
    Change r session.store (session.request thread keep op.request).2.store := by
  rw [store, store, request_memory]
  cases op with
  | convert v source ofAny => exact Request.runConvert_change _ _ v source ofAny
  | create => exact .create (made_addTheory _ ⟨[]⟩) (only_addTheory _ ⟨[]⟩)
  | append v w =>
    have first := inside v List.mem_cons_self
    have second := inside w (.tail v List.mem_cons_self)
    cases v with
    | clause _ | theory _ | list _ => exact Request.runAppend_change first second
    | _ => exact .nothing
  | merge v w =>
    have second := inside w (.tail v List.mem_cons_self)
    exact Request.runMerge_change (inside v List.mem_cons_self) second
  | pop v => exact Request.runPop_change (inside v List.mem_cons_self)
  | takeDeclared v => exact Request.runTakeDeclared_change (inside v List.mem_cons_self)

end Session

end Clausal
