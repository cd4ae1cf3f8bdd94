import Clausal.Proofs.Session.Scoped
import Clausal.Proofs.Settings.Run

namespace Clausal

namespace Session

open Settings

/-- Whatever a thread did, all threads but itself and those that it started have the same in force and
the same to bring back. -/
structure Spares (current : ThreadId) (before after : Session) : Prop where
  threads : before.threads ≤ after.threads
  others : ∀ other, other ≠ current → other.index < before.threads ∨ after.threads ≤ other.index →
    SameFor other before.settings after.settings

/-- Two sessions look the same to a thread and to those that it may start. -/
structure Alike (current : ThreadId) (left right : Session) : Prop where
  workspace : right.workspace = left.workspace
  threads : right.threads = left.threads
  seen : ∀ thread, thread = current ∨ left.threads ≤ thread.index →
    SameFor thread left.settings right.settings

/-- What runs in a thread does to the settings what a run of actions does. It neither touches the
settings of other threads nor depends on them. -/
structure Conduct {α : Type} (current : ThreadId) (act : Session → α × Session) : Prop where
  leads : ∀ session, Leads session.settings (act session).2.settings
  spares : ∀ session, current.index < session.threads → Spares current session (act session).2
  alike : ∀ {left right}, current.index < left.threads → Alike current left right →
    (act right).1 = (act left).1 ∧ Alike current (act left).2 (act right).2

variable {current : ThreadId} {α β : Type}

theorem Spares.refl (session : Session) : Spares current session session :=
  ⟨Nat.le_refl _, fun other _ _ => .refl other session.settings⟩

theorem Spares.trans {first second third : Session} (before : Spares current first second)
    (after : Spares current second third) : Spares current first third := by
  refine ⟨Nat.le_trans before.threads after.threads, fun other apart outside => ?_⟩
  have early := before.threads
  have late := after.threads
  exact (before.others other apart (by omega)).trans (after.others other apart (by omega))

namespace Conduct

theorem pure (a : α) : Conduct current fun session => (a, session) :=
  ⟨fun _ => .refl _, fun session _ => .refl session, fun _ alike => ⟨rfl, alike⟩⟩

theorem of_eq {act other : Session → α × Session} (conduct : Conduct current act)
    (same : ∀ session, other session = act session) : Conduct current other :=
  funext same ▸ conduct

theorem bind {act : Session → α × Session} {next : α → Session → β × Session}
    (first : Conduct current act) (rest : ∀ a, Conduct current (next a)) :
    Conduct current fun session => next (act session).1 (act session).2 := by
  refine ⟨fun session => (first.leads session).trans ((rest _).leads _), fun session running => ?_,
    fun {left right} running alike => ?_⟩
  · have before := first.spares session running
    exact before.trans ((rest _).spares _ (Nat.lt_of_lt_of_le running before.threads))
  · obtain ⟨result, alike'⟩ := first.alike running alike
    have still := Nat.lt_of_lt_of_le running (first.spares left running).threads
    rw [result]
    exact (rest _).alike still alike'

/-- What comes after an act that may fail runs only where there was no fault. -/
theorem bindOk {act : Session → Except Fault α × Session} {next : α → Session → Except Fault β × Session}
    (first : Conduct current act) (rest : ∀ a, Conduct current (next a)) :
    Conduct current fun session =>
      match act session with
      | (.error fault, session) => (.error fault, session)
      | (.ok a, session) => next a session := by
  have after (result : Except Fault α) : Conduct current fun session =>
      match result with
      | .error fault => (.error fault, session)
      | .ok a => next a session := by
    cases result with
    | error fault => exact pure _
    | ok a => exact rest a
  refine (first.bind after).of_eq fun session => ?_
  rcases act session with ⟨_ | _, _⟩ <;> rfl

theorem reply {act : Session → Except Fault α × Session} (conduct : Conduct current act)
    (answer : α → Reply) :
    Conduct current fun session =>
      match act session with
      | (.error fault, session) => (.fault fault, session)
      | (.ok a, session) => (answer a, session) := by
  refine (conduct.bind fun result => pure <| match result with
    | .error fault => Reply.fault fault
    | .ok a => answer a).of_eq fun session => ?_
  rcases act session with ⟨_ | _, _⟩ <;> rfl

/-- A thread may look at what is in force for it. -/
theorem look (see : (Setting → Datum) → α) :
    Conduct current fun session => (see (session.settings.value current), session) := by
  refine ⟨fun _ => .refl _, fun session _ => .refl session,
    fun {left right} _ alike => ⟨?_, alike⟩⟩
  have values : right.settings.value current = left.settings.value current :=
    funext (alike.seen current (.inl rfl)).1
  exact congrArg see values

/-- A thread may look at the workspace. -/
theorem lookUp (act : Workspace → Session → α × Session) (conduct : ∀ w, Conduct current (act w)) :
    Conduct current fun session => act session.workspace session := by
  refine ⟨fun session => (conduct session.workspace).leads session,
    fun session => (conduct session.workspace).spares session, fun {left right} running alike => ?_⟩
  rw [alike.workspace]
  exact (conduct left.workspace).alike running alike

/-- What comes to an action among settings does so in a session. -/
theorem onSettings (act : Settings → α × Settings) (action : Action)
    (performs : ∀ settings, (act settings).2 = (settings.perform current action).2)
    (same : ∀ {left right}, SameFor current left right → AlikeFor current (act left) (act right)) :
    Conduct current fun session =>
      ((act session.settings).1, { session with settings := (act session.settings).2 }) := by
  have effect (settings : Settings) : Effect settings current (act settings).2 :=
    performs settings ▸ perform_effect settings current action
  refine ⟨fun session => ?_,
    fun session _ => ⟨Nat.le_refl _, fun other apart _ => (effect _).sameFor apart⟩,
    fun {left right} _ alike => ?_⟩
  · rw [performs]
    exact .perform session.settings current action
  · obtain ⟨result, own⟩ := same (alike.seen current (.inl rfl))
    refine ⟨result, alike.workspace, alike.threads, fun thread seen => ?_⟩
    by_cases itself : thread = current
    · rw [itself]
      exact own
    · have early := (effect left.settings).sameFor itself
      have late := (effect right.settings).sameFor itself
      exact (early.symm.trans (alike.seen thread seen)).trans late

theorem configure (action : Action) :
    Conduct current fun session => session.configure current action := by
  have performed := onSettings (fun settings => settings.perform current action) action
    (fun _ => rfl) fun same => same.perform action
  refine (performed.reply fun d => .output (.datum d)).of_eq fun session => ?_
  rw [Session.configure]
  rcases session.settings.perform current action with ⟨_ | _, _⟩ <;> rfl

theorem request (keep : Option String) (r : Request) :
    Conduct current fun session => session.request current keep r := by
  refine ⟨fun session => ?_, fun session _ => ?_, fun {left right} _ alike => ?_⟩
  · rw [request_settings]
    exact .refl _
  · rw [request_settings]
    exact ⟨Nat.le_refl _, fun other _ _ => .refl other _⟩
  · have values := (alike.seen current (.inl rfl)).1
    have stem : right.settings.stem current = left.settings.stem current := by
      rw [stem, stem, values]
    have check : right.settings.check current = left.settings.check current := by
      rw [check, check, values]
    rw [Session.request, Session.request, stem, check, alike.workspace]
    rcases (r.run _ _).run.run left.workspace with ⟨_ | ⟨output, value⟩, w⟩
    · exact ⟨rfl, rfl, alike.threads, alike.seen⟩
    · cases keep with
      | none => exact ⟨rfl, rfl, alike.threads, alike.seen⟩
      | some name => cases value <;> exact ⟨rfl, rfl, alike.threads, alike.seen⟩

theorem report {act : Session → Reply × Session} (conduct : Conduct current act) :
    Conduct current fun session => Session.report current (act session) :=
  conduct.bind fun reply => look fun values => Reply.withSettings reply (values .stem) (values .check)

theorem within {body : Session → α × Session} (conduct : Conduct current body) (scope : ScopeId)
    (values : List (String × Datum)) :
    Conduct current fun session => session.within current scope values body := by
  have enters := onSettings (fun settings => settings.enter current scope values)
    (.enter scope values) (fun _ => rfl) fun same => same.enter scope values
  have leaves := onSettings (fun settings => settings.leave current scope)
    (.leave scope) (fun _ => rfl) fun same => same.leave scope
  refine (enters.bindOk fun _ => conduct.bind fun a => leaves.bindOk fun _ => pure (.ok a)).of_eq
    fun session => ?_
  rw [Session.within]
  rcases session.settings.enter current scope values with ⟨_ | _, settings⟩
  · rfl
  · simp only
    rcases (body { session with settings }).2.settings.leave current scope with ⟨_ | _, _⟩ <;> rfl

theorem withinTimes {body : Session → α × Session} (conduct : Conduct current body) (scope : ScopeId)
    (values : List (String × Datum)) (times : Nat) :
    Conduct current (Session.withinTimes current scope values body times) := by
  induction times with
  | zero => exact pure _
  | succ times ih =>
    refine ((conduct.within scope values).bindOk fun result => ih.bindOk fun results =>
      pure (Except.ok (result :: results))).of_eq fun session => ?_
    rw [Session.withinTimes]
    rcases session.within current scope values body with ⟨_ | _, after⟩
    · rfl
    · simp only
      rcases Session.withinTimes current scope values body times after with ⟨_ | _, _⟩ <;> rfl

/-- A thread that is started has a number that no thread had before, and it leaves alone the one that
started it. -/
theorem start {body : ThreadId → Session → α × Session} (conduct : ∀ thread, Conduct thread (body thread)) :
    Conduct current fun session =>
      body ⟨session.threads⟩ { session with threads := session.threads + 1 } := by
  have others (session : Session) : Spares ⟨session.threads⟩ { session with threads := session.threads + 1 }
      (body ⟨session.threads⟩ { session with threads := session.threads + 1 }).2 :=
    (conduct _).spares _ (Nat.lt_succ_self _)
  have parent (session : Session) (running : current.index < session.threads) :
      SameFor current session.settings
        (body ⟨session.threads⟩ { session with threads := session.threads + 1 }).2.settings :=
    (others session).others current (fun same => by simp [same] at running) (.inl (Nat.lt_succ_of_lt running))
  refine ⟨fun session => (conduct _).leads { session with threads := session.threads + 1 },
    fun session running => ?_, fun {left right} running alike => ?_⟩
  · have more : session.threads + 1 ≤ _ := (others session).threads
    refine ⟨Nat.le_of_succ_le more, fun other _ outside => ?_⟩
    refine (others session).others other (fun same => ?_) (outside.imp_left Nat.lt_succ_of_lt)
    simp only [same] at outside
    omega
  · have child : Alike ⟨left.threads⟩ { left with threads := left.threads + 1 }
        { right with threads := left.threads + 1 } := by
      refine ⟨alike.workspace, rfl, fun thread seen => alike.seen thread (.inr ?_)⟩
      rcases seen with rfl | later
      · exact Nat.le_refl _
      · exact Nat.le_of_succ_le later
    obtain ⟨result, after⟩ := (conduct ⟨left.threads⟩).alike (Nat.lt_succ_self _) child
    rw [alike.threads]
    refine ⟨result, after.workspace, after.threads, fun thread seen => ?_⟩
    rcases seen with rfl | later
    · have early := parent left running
      have late := parent right (alike.threads ▸ running)
      rw [alike.threads] at late
      exact (early.symm.trans (alike.seen thread (.inl rfl))).trans late
    · exact after.seen thread (.inr later)

/-- Where nothing goes by the name of a scope, nothing is done. -/
theorem atScope (name : String) {act : ScopeId → List (String × Datum) → Session → Reply × Session}
    (conduct : ∀ scope values, Conduct current (act scope values)) :
    Conduct current fun session => Session.report current <|
      match session.workspace.scopeNamed name with
      | .error fault => (.fault fault, session)
      | .ok (scope, values) => act scope values session := by
  refine (lookUp (fun w session => match w.scopeNamed name with
    | .error fault => (.fault fault, session)
    | .ok (scope, values) => act scope values session) fun w => ?_).report
  rcases w.scopeNamed name with fault | ⟨scope, values⟩
  · exact pure _
  · exact conduct scope values

end Conduct

end Session

namespace Step

open Session

mutual

theorem run_conduct (current : ThreadId) : ∀ step : Step, Conduct current (step.run current)
  | request keep r => .request keep r
  | assign name value => (Conduct.configure (.assign name value)).report
  | read name => (Conduct.configure (.read name)).report
  | enter name => .atScope name fun scope values => .configure (.enter scope values)
  | leave name => .atScope name fun scope _ => .configure (.leave scope)
  | program body =>
    (runAll_conduct current body).bind fun replies => .pure (Reply.body replies false)
  | inScope name body breaksOff => by
    refine .atScope name fun scope values =>
      (((runAll_conduct current body).within scope values).reply fun replies =>
        .body replies breaksOff).of_eq fun session => ?_
    rcases session.within current scope values (runAll current body) with ⟨_ | _, _⟩ <;> rfl
  | inScopeTimes name body breaksOff times => by
    refine .atScope name fun scope values =>
      (((runAll_conduct current body).withinTimes scope values times).reply fun results =>
        .runs (results.map fun replies => .body replies breaksOff)).of_eq fun session => ?_
    rcases withinTimes current scope values (runAll current body) times session with
      ⟨_ | _, _⟩ <;> rfl
  | thread body =>
    (Conduct.start fun thread => runAll_conduct thread body).bind fun replies =>
      .pure (Reply.body replies false)

theorem runAll_conduct (current : ThreadId) : ∀ steps : List Step, Conduct current (runAll current steps)
  | [] => .pure []
  | step :: steps =>
    (run_conduct current step).bind fun reply =>
      (runAll_conduct current steps).bind fun replies => .pure (reply :: replies)

end

end Step

end Clausal
