import Clausal.Session.Request

namespace Clausal

/-- A step of a session. -/
inductive Step where
  /-- A request, whose value may be kept under a name. -/
  | request (keep : Option String) (request : Request)
  | assign (setting : String) (value : Datum)
  | read (setting : String)
  | enter (scope : String)
  | leave (scope : String)
  | program (body : List Step)
  /-- The steps of the body inside a scope, which is left also when the body breaks off at its
  end. -/
  | inScope (scope : String) (body : List Step) (breaksOff : Bool)
  /-- A number of runs of the body, each inside the scope. -/
  | inScopeTimes (scope : String) (body : List Step) (breaksOff : Bool) (times : Nat)
  /-- The steps of the body in a new thread, which ends before the session goes on. -/
  | thread (body : List Step)

/-- The answer to a step. -/
inductive Reply where
  | output (output : Output)
  | fault (fault : Fault)
  /-- The answers to the steps of a body, and whether it broke off at its end. -/
  | body (replies : List Reply) (brokeOff : Bool)
  /-- One body for each run. -/
  | runs (bodies : List Reply)
  /-- A reply along with the stem and the check in force after the step. -/
  | withSettings (reply : Reply) (stem check : Datum)

/-- A workspace, the settings of all threads, and the number of threads so far. -/
structure Session where
  workspace : Workspace := {}
  settings : Settings := {}
  threads : Nat := 1

namespace Session

/-- Runs a request in a thread and keeps its value if it is to be kept. -/
def request (session : Session) (thread : ThreadId) (name : Option String) (r : Request) :
    Reply × Session :=
  let stem := session.settings.stem thread
  let check := session.settings.check thread
  match (r.run stem check).run.run session.workspace with
  | (.error fault, workspace) => (.fault fault, { session with workspace })
  | (.ok (output, value), workspace) =>
    match name, value with
    | some name, some v => (.output output, { session with workspace := workspace.keep name v })
    | _, _ => (.output output, { session with workspace })

/-- Lets a thread do something to its settings. -/
def configure (session : Session) (thread : ThreadId) (action : Settings.Action) :
    Reply × Session :=
  match session.settings.perform thread action with
  | (.error fault, settings) => (.fault fault, { session with settings })
  | (.ok d, settings) => (.output (.datum d), { session with settings })

/-- Runs a body inside a scope. A fault at the entry, where the body is not run, or at the end takes
the place of what the body answers. -/
def within {α : Type} (session : Session) (thread : ThreadId) (scope : ScopeId)
    (values : List (String × Datum)) (body : Session → α × Session) : Except Fault α × Session :=
  match session.settings.enter thread scope values with
  | (.error fault, settings) => (.error fault, { session with settings })
  | (.ok _, settings) =>
    let (result, session) := body { session with settings }
    match session.settings.leave thread scope with
    | (.error fault, settings) => (.error fault, { session with settings })
    | (.ok _, settings) => (.ok result, { session with settings })

/-- Runs a body inside a scope a number of times, up to the first fault. -/
def withinTimes {α : Type} (thread : ThreadId) (scope : ScopeId) (values : List (String × Datum))
    (body : Session → α × Session) : Nat → Session → Except Fault (List α) × Session
  | 0, session => (.ok [], session)
  | times + 1, session =>
    match session.within thread scope values body with
    | (.error fault, session) => (.error fault, session)
    | (.ok result, session) =>
      match withinTimes thread scope values body times session with
      | (.error fault, session) => (.error fault, session)
      | (.ok results, session) => (.ok (result :: results), session)

/-- A reply along with what a thread has in force. -/
def report (thread : ThreadId) (result : Reply × Session) : Reply × Session :=
  (.withSettings result.1 (result.2.settings.value thread .stem)
    (result.2.settings.value thread .check), result.2)

end Session

namespace Step

open Session

mutual

/-- Runs a step in a thread. -/
def run (current : ThreadId) : Step → Session → Reply × Session
  | request name r, session => session.request current name r
  | assign setting value, session =>
    report current (session.configure current (.assign setting value))
  | read setting, session => report current (session.configure current (.read setting))
  | enter name, session =>
    report current <|
      match session.workspace.scopeNamed name with
      | .error fault => (.fault fault, session)
      | .ok (scope, values) => session.configure current (.enter scope values)
  | leave name, session =>
    report current <|
      match session.workspace.scopeNamed name with
      | .error fault => (.fault fault, session)
      | .ok (scope, _) => session.configure current (.leave scope)
  | program body, session =>
    let (replies, session) := runAll current body session
    (.body replies false, session)
  | inScope name body breaksOff, session =>
    report current <|
      match session.workspace.scopeNamed name with
      | .error fault => (.fault fault, session)
      | .ok (scope, values) =>
        match session.within current scope values (runAll current body) with
        | (.error fault, session) => (.fault fault, session)
        | (.ok replies, session) => (.body replies breaksOff, session)
  | inScopeTimes name body breaksOff times, session =>
    report current <|
      match session.workspace.scopeNamed name with
      | .error fault => (.fault fault, session)
      | .ok (scope, values) =>
        match withinTimes current scope values (runAll current body) times session with
        | (.error fault, session) => (.fault fault, session)
        | (.ok results, session) =>
          (.runs (results.map fun replies => .body replies breaksOff), session)
  | thread body, session =>
    let (replies, session) :=
      runAll ⟨session.threads⟩ body { session with threads := session.threads + 1 }
    (.body replies false, session)

/-- Runs steps one after the other. A fault in one does not stop those after it. -/
def runAll (current : ThreadId) : List Step → Session → List Reply × Session
  | [], session => ([], session)
  | step :: steps, session =>
    let (reply, session) := run current step session
    let (replies, session) := runAll current steps session
    (reply :: replies, session)

end

/-- The answer to a step that begins a session, in a memory with the lists that are given in it. -/
def answer (step : Step) (memory : Memory) : Reply :=
  (step.run ⟨0⟩ { workspace := { memory } }).1

end Step

end Clausal
