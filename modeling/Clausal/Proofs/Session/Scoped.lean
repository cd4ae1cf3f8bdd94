import Clausal.Proofs.Settings.Perform
import Clausal.Session.Step

namespace Clausal

/-- What can be run in a thread that enters and leaves scopes only around a body. -/
inductive Block where
  | pass
  | fail (fault : Fault)
  | request (keep : Option String) (request : Request)
  | assign (setting : String) (value : Datum)
  | read (setting : String)
  | andThen (first next : Block)
  /-- The handler runs if the body meets a fault. -/
  | recover (body handler : Block)
  | inScope (scope : ScopeId) (body : Block)
  /-- A number of calls, each inside the scope, whose faults are caught by the caller. -/
  | inScopeTimes (scope : ScopeId) (body : Block) (times : Nat)
  /-- The body runs in a new thread, which ends before the block goes on. -/
  | thread (body : Block)

def Reply.outcome : Reply → Except Fault Unit
  | fault f => .error f
  | _ => .ok ()

/-- Runs a block in a thread, where each scope puts the given values in force. A fault that is not
caught ends the block. -/
def Block.run (values : ScopeId → List (String × Datum)) :
    Block → ThreadId → Session → Except Fault Unit × Session
  | pass, _, session => (.ok (), session)
  | fail fault, _, session => (.error fault, session)
  | request keep r, current, session =>
    let (reply, session) := session.request current keep r
    (reply.outcome, session)
  | assign name value, current, session =>
    let (reply, session) := session.configure current (.assign name value)
    (reply.outcome, session)
  | read name, current, session =>
    let (reply, session) := session.configure current (.read name)
    (reply.outcome, session)
  | andThen first next, current, session =>
    match first.run values current session with
    | (.ok _, session) => next.run values current session
    | (.error fault, session) => (.error fault, session)
  | recover body handler, current, session =>
    match body.run values current session with
    | (.ok _, session) => (.ok (), session)
    | (.error _, session) => handler.run values current session
  | inScope scope body, current, session =>
    match session.within current scope (values scope) (body.run values current) with
    | (.ok outcome, session) => (outcome, session)
    | (.error fault, session) => (.error fault, session)
  | inScopeTimes scope body times, current, session =>
    match Session.withinTimes current scope (values scope) (body.run values current) times session with
    | (.ok _, session) => (.ok (), session)
    | (.error fault, session) => (.error fault, session)
  | thread body, _, session =>
    let started := { session with threads := session.threads + 1 }
    (.ok (), (body.run values ⟨session.threads⟩ started).2)

namespace Session

open Settings

/-- The session as a body inside a scope finds it. -/
def entered (session : Session) (thread : ThreadId) (scope : ScopeId)
    (values : List (String × Datum)) : Session :=
  { session with settings := (session.settings.enter thread scope values).2 }

/-- What a thread leaves as it was when it runs a block: the threads that run already, and what is to
be brought back for each scope that can be entered at all. -/
structure Kept (values : ScopeId → List (String × Datum)) (current : ThreadId)
    (before after : Session) : Prop where
  threads : before.threads ≤ after.threads
  valid : after.settings.Valid
  others : ∀ other, other ≠ current → other.index < before.threads →
    SameFor other before.settings after.settings
  stack : ∀ scope, Admissible (values scope) →
    after.settings.stack current scope = before.settings.stack current scope

variable {values : ScopeId → List (String × Datum)} {current : ThreadId}

theorem Kept.refl {session : Session} (valid : session.settings.Valid) :
    Kept values current session session where
  threads := Nat.le_refl _
  valid := valid
  others other _ _ := .refl other session.settings
  stack _ _ := rfl

theorem Kept.trans {first second third : Session} (before : Kept values current first second)
    (after : Kept values current second third) : Kept values current first third where
  threads := Nat.le_trans before.threads after.threads
  valid := after.valid
  others other apart running :=
    (before.others other apart running).trans
      (after.others other apart (Nat.lt_of_lt_of_le running before.threads))
  stack scope admissible := (after.stack scope admissible).trans (before.stack scope admissible)

theorem Kept.of_effect {session : Session} (valid : session.settings.Valid) {settings : Settings}
    (effect : Effect session.settings current settings)
    (stack : ∀ scope, Admissible (values scope) →
      settings.stack current scope = session.settings.stack current scope) :
    Kept values current session { session with settings } where
  threads := Nat.le_refl _
  valid := effect.valid valid
  others _ apart _ := effect.sameFor apart
  stack := stack

theorem request_settings (session : Session) (keep : Option String) (r : Request) :
    (session.request current keep r).2 =
      { session with workspace := (session.request current keep r).2.workspace } := by
  unfold request
  simp only
  split
  · rfl
  · split <;> rfl

theorem configure_settings (session : Session) (action : Action) :
    (session.configure current action).2 =
      { session with settings := (session.settings.perform current action).2 } := by
  rw [configure]
  split
  · rename_i performed
    rw [performed]
  · rename_i performed
    rw [performed]

section

variable {α : Type} {scope : ScopeId} {body : Session → α × Session}

theorem within_of_fault {session : Session} {fault : Fault} {settings : Settings}
    (failed : session.settings.enter current scope (values scope) = (.error fault, settings)) :
    session.within current scope (values scope) body = (.error fault, { session with settings }) := by
  rw [within, failed]

theorem within_of_ok {session : Session} {opened after : Settings}
    (enters : session.settings.enter current scope (values scope) = (.ok (), opened))
    (exits : (body { session with settings := opened }).2.settings.leave current scope = (.ok (), after)) :
    session.within current scope (values scope) body =
      (.ok (body { session with settings := opened }).1,
        { (body { session with settings := opened }).2 with settings := after }) := by
  unfold within
  simp only [enters]
  cases run : body { session with settings := opened } with
  | mk outcome inner =>
    rw [run] at exits
    simp only [exits]

theorem within_entered {session : Session} (valid : session.settings.Valid)
    (admissible : Admissible (values scope))
    (keeps : Kept values current (session.entered current scope (values scope))
      (body (session.entered current scope (values scope))).2) :
    let inner := body (session.entered current scope (values scope))
    let after := (inner.2.settings.leave current scope).2
    session.within current scope (values scope) body =
        (.ok inner.1, { inner.2 with settings := after }) ∧
      Restored (values scope) current scope session.settings inner.2.settings after := by
  intro inner after
  have enters := (enter_ok_iff session.settings current scope _).mpr admissible
  obtain ⟨exits, restored⟩ := leave_restores valid admissible (keeps.stack scope admissible)
  exact ⟨within_of_ok (Prod.ext enters rfl) (Prod.ext exits rfl), restored⟩

/-- One call more comes after the others. -/
theorem withinTimes_succ (calls : Nat) {session before : Session} {outcomes : List α}
    (run : withinTimes current scope (values scope) body calls session = (.ok outcomes, before))
    {outcome : α} {after : Session}
    (next : before.within current scope (values scope) body = (.ok outcome, after)) :
    withinTimes current scope (values scope) body (calls + 1) session =
      (.ok (outcomes ++ [outcome]), after) := by
  induction calls generalizing session outcomes with
  | zero =>
    cases run
    rw [withinTimes, next]
    rfl
  | succ calls ih =>
    rw [withinTimes] at run ⊢
    cases first : session.within current scope (values scope) body with
    | mk result middle =>
      rw [first] at run
      cases result with
      | error fault => cases run
      | ok head =>
        cases rest : withinTimes current scope (values scope) body calls middle with
        | mk results last =>
          simp only [rest] at run
          cases results with
          | error fault => cases run
          | ok tail =>
            cases run
            simp only [ih rest]
            rfl

variable (bodyKeeps : ∀ session : Session, session.settings.Valid → current.index < session.threads →
  Kept values current session (body session).2)

include bodyKeeps

theorem kept_entered (scope : ScopeId) {session : Session} (valid : session.settings.Valid)
    (running : current.index < session.threads) :
    Kept values current (session.entered current scope (values scope))
      (body (session.entered current scope (values scope))).2 :=
  bodyKeeps _ ((enter_effect session.settings current scope (values scope)).valid valid) running

theorem within_kept (scope : ScopeId) {session : Session} (valid : session.settings.Valid)
    (running : current.index < session.threads) :
    Kept values current session (session.within current scope (values scope) body).2 := by
  have effect := enter_effect session.settings current scope (values scope)
  have elsewhere := fun other (apart : other ≠ scope) =>
    stack_enter_of_ne session.settings current scope apart (values scope)
  cases outcome : (session.settings.enter current scope (values scope)).1 with
  | error fault =>
    have failed : session.settings.enter current scope (values scope) =
        (.error fault, (session.settings.enter current scope (values scope)).2) :=
      Prod.ext outcome rfl
    rw [within_of_fault failed]
    refine .of_effect valid effect fun other admissible => elsewhere other fun same => ?_
    -- a scope that can be entered meets no fault
    rw [same, ← enter_ok_iff session.settings current scope, outcome] at admissible
    cases admissible
  | ok _ =>
    have keeps : Kept values current (session.entered current scope (values scope)) _ :=
      kept_entered bodyKeeps scope valid running
    have admissible := (enter_ok_iff session.settings current scope _).mp outcome
    obtain ⟨run, restored⟩ := within_entered valid admissible keeps
    let inner := body (session.entered current scope (values scope))
    have exit := leave_effect inner.2.settings current scope
    rw [run]
    refine ⟨keeps.threads, exit.valid keeps.valid, fun other apart running => ?_, fun other opens => ?_⟩
    · have body := keeps.others other apart running
      exact ((effect.sameFor apart).trans body).trans (exit.sameFor apart)
    · by_cases same : other = scope
      · rw [same]
        exact restored.stack
      · have body := keeps.stack other opens
        exact ((restored.elsewhere other same).trans body).trans (elsewhere other same)

theorem withinTimes_kept (scope : ScopeId) (times : Nat) {session : Session}
    (valid : session.settings.Valid) (running : current.index < session.threads) :
    Kept values current session (withinTimes current scope (values scope) body times session).2 := by
  induction times generalizing session with
  | zero => exact .refl valid
  | succ times ih =>
    have first := within_kept bodyKeeps scope valid running
    rw [withinTimes]
    cases call : session.within current scope (values scope) body with
    | mk outcome after =>
      rw [call] at first
      cases outcome with
      | error fault => exact first
      | ok result =>
        have later := ih first.valid (Nat.lt_of_lt_of_le running first.threads)
        cases calls : withinTimes current scope (values scope) body times after with
        | mk outcomes last =>
          rw [calls] at later
          cases outcomes with
          | error fault => simpa only [calls] using first.trans later
          | ok results => simpa only [calls] using first.trans later

theorem withinTimes_ok (admissible : Admissible (values scope)) (calls : Nat) {session : Session}
    (valid : session.settings.Valid) (running : current.index < session.threads) :
    ∃ outcomes before,
      withinTimes current scope (values scope) body calls session = (.ok outcomes, before) ∧
        outcomes.length = calls := by
  induction calls with
  | zero => exact ⟨[], session, rfl, rfl⟩
  | succ calls ih =>
    obtain ⟨outcomes, before, run, length⟩ := ih
    have kept := withinTimes_kept bodyKeeps scope calls valid running
    rw [run] at kept
    have keeps : Kept values current (before.entered current scope (values scope)) _ :=
      kept_entered bodyKeeps scope kept.valid (Nat.lt_of_lt_of_le running kept.threads)
    have next := (within_entered kept.valid admissible keeps).1
    refine ⟨_, _, withinTimes_succ calls run next, ?_⟩
    rw [List.length_append, length, List.length_singleton]

end

end Session

namespace Block

open Session

variable {values : ScopeId → List (String × Datum)}

theorem run_kept (block : Block) {current : ThreadId} {session : Session}
    (valid : session.settings.Valid) (running : current.index < session.threads) :
    Kept values current session (block.run values current session).2 := by
  induction block generalizing current session with
  | pass => exact .refl valid
  | fail fault => exact .refl valid
  | request keep r =>
    change Kept values current session (session.request current keep r).2
    rw [request_settings]
    exact ⟨Nat.le_refl _, valid, fun other _ _ => .refl other _, fun _ _ => rfl⟩
  | assign name value =>
    obtain ⟨snapshot, permitted, put⟩ :=
      Settings.perform_assign_put session.settings current name value
    change Kept values current session (session.configure current (.assign name value)).2
    rw [configure_settings, put]
    exact .of_effect valid (.put permitted) fun _ _ => rfl
  | read name =>
    change Kept values current session (session.configure current (.read name)).2
    rw [configure_settings, Settings.perform_read]
    exact .refl valid
  | andThen first next first_ih next_ih =>
    have before := first_ih valid running
    rw [run]
    cases result : first.run values current session with
    | mk outcome middle =>
      rw [result] at before
      cases outcome with
      | error fault => exact before
      | ok _ => exact before.trans (next_ih before.valid (Nat.lt_of_lt_of_le running before.threads))
  | recover body handler body_ih handler_ih =>
    have before := body_ih valid running
    rw [run]
    cases result : body.run values current session with
    | mk outcome middle =>
      rw [result] at before
      cases outcome with
      | error fault =>
        exact before.trans (handler_ih before.valid (Nat.lt_of_lt_of_le running before.threads))
      | ok _ => exact before
  | inScope scope body ih =>
    have kept := within_kept (fun _ => ih) scope valid running
    rw [run]
    cases result : session.within current scope (values scope) (body.run values current) with
    | mk outcome after =>
      rw [result] at kept
      cases outcome with
      | error fault => exact kept
      | ok _ => exact kept
  | inScopeTimes scope body times ih =>
    have kept := withinTimes_kept (fun _ => ih) scope times valid running
    rw [run]
    cases result : withinTimes current scope (values scope) (body.run values current) times session with
    | mk outcome after =>
      rw [result] at kept
      cases outcome with
      | error fault => exact kept
      | ok _ => exact kept
  | thread body ih =>
    have child : Kept values ⟨session.threads⟩ { session with threads := session.threads + 1 } _ :=
      ih valid (Nat.lt_succ_self _)
    have others (other : ThreadId) (running : other.index < session.threads) :
        session.settings.SameFor other ((Block.thread body).run values current session).2.settings := by
      have apart : other ≠ ⟨session.threads⟩ := fun same => by simp [same] at running
      exact child.others other apart (Nat.lt_succ_of_lt running)
    refine ⟨Nat.le_of_succ_le child.threads, child.valid, fun other _ => others other, ?_⟩
    intro scope _
    rw [Settings.stack, (others current running).2 scope]
    rfl

/-- Leaving a scope after a body meets no fault and passes on what the body met. It brings back the
values that were in force at the entry, keeps all others, and leaves the stack of the scope as it was.
The same holds of each of a number of calls. -/
theorem within_restores (session : Session) (reached : session.settings.Reachable) {current : ThreadId}
    (running : current.index < session.threads) {scope : ScopeId}
    (enters : (session.settings.enter current scope (values scope)).1 = .ok ()) (body : Block) :
    (let inner := body.run values current (session.entered current scope (values scope))
      ∃ after,
        session.within current scope (values scope) (body.run values current) = (.ok inner.1, after) ∧
          Settings.Restored (values scope) current scope session.settings inner.2.settings
            after.settings) ∧
    ∀ calls, ∃ outcomes before outcome after,
      withinTimes current scope (values scope) (body.run values current) calls session =
          (.ok outcomes, before) ∧
        withinTimes current scope (values scope) (body.run values current) (calls + 1) session =
          (.ok (outcomes ++ [outcome]), after) ∧
        outcomes.length = calls ∧
        let inner := body.run values current (before.entered current scope (values scope))
        outcome = inner.1 ∧
          Settings.Restored (values scope) current scope before.settings inner.2.settings
            after.settings := by
  have admissible := (Settings.enter_ok_iff session.settings current scope _).mp enters
  have valid := reached.valid
  have bodyKeeps : ∀ session : Session, session.settings.Valid → current.index < session.threads →
      Kept values current session (body.run values current session).2 := fun _ => body.run_kept
  refine ⟨?_, fun calls => ?_⟩
  · obtain ⟨run, restored⟩ := within_entered valid admissible (kept_entered bodyKeeps scope valid running)
    exact ⟨_, run, restored⟩
  · obtain ⟨outcomes, before, run, length⟩ := withinTimes_ok bodyKeeps admissible calls valid running
    have kept := withinTimes_kept bodyKeeps scope calls valid running
    rw [run] at kept
    have still := Nat.lt_of_lt_of_le running kept.threads
    have keeps := kept_entered bodyKeeps scope kept.valid still
    obtain ⟨next, restored⟩ := within_entered kept.valid admissible keeps
    exact ⟨outcomes, before, _, _, run, withinTimes_succ calls run next, length, rfl, restored⟩

/-- The body changes the setting, runs into an entry that fails at its second value, starts a thread,
and breaks off inside the same scope entered again. -/
theorem within_restores_of_reentry :
    let values : ScopeId → List (String × Datum) := fun scope =>
      if scope = ⟨0⟩ then [("aux_prefix", .text "_y")]
      else [("check_collisions", .bool true), ("aux_prefix", .text "")]
    let body : Block :=
      .andThen (.assign "aux_prefix" (.text "_z")) <|
      .andThen (.recover (.inScope ⟨1⟩ .pass) .pass) <|
      .andThen (.thread (.assign "aux_prefix" (.text "_t"))) <|
      .inScope ⟨0⟩ (.fail .selfMerge)
    ∃ after,
      Session.within {} ⟨0⟩ ⟨0⟩ (values ⟨0⟩) (body.run values ⟨0⟩) = (.ok (.error .selfMerge), after) ∧
      after.settings.value ⟨0⟩ .stem = .text "_x" ∧
      after.settings.value ⟨0⟩ .check = .bool true ∧
      after.settings.stack ⟨0⟩ ⟨0⟩ = [] := by
  intro values body
  have enters : (Settings.enter {} ⟨0⟩ ⟨0⟩ (values ⟨0⟩)).1 = .ok () := rfl
  obtain ⟨after, run, restored⟩ := (within_restores {} .start Nat.zero_lt_one enters body).1
  refine ⟨after, run, ?_, ?_, restored.stack⟩
  · exact restored.named .stem (by simp [values, Setting.name])
  · exact restored.unnamed .check (by simp [values, Setting.name])

end Block

end Clausal
