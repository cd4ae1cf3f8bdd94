import Clausal.Proofs.Naming.Distinct
import Clausal.Proofs.Session.Request
import Clausal.Session.Step

namespace Clausal.Session

def shared (session : Session) (id : SourceId) : SharedSource :=
  ⟨session.settings, session.workspace.source id⟩

theorem shared_configure (session : Session) (thread : ThreadId) (action : Settings.Action) (id : SourceId) :
    (session.configure thread action).2.shared id =
      ((Activity.configure thread action).perform (session.shared id)).2 := by
  cases performed : session.settings.perform thread action with
  | mk result settings => cases result <;> simp [configure, performed, shared, Activity.perform]

section

variable {session : Session} {name : Option String} {id : SourceId}
  (used : id.index < session.workspace.sources.size)

include used

theorem request_draw
    (found : (Work.sourceId name).run.run session.workspace = (.ok id, session.workspace))
    (thread : ThreadId) (keep : Option String) (count : Nat) :
    (session.request thread keep (.draw name count)).1 =
        .output (.texts ((Activity.draw thread count).perform (session.shared id)).1) ∧
      (session.request thread keep (.draw name count)).2.shared id =
        ((Activity.draw thread count).perform (session.shared id)).2 := by
  let drawn := (session.workspace.source id).drawMany (session.settings.stem thread) count
  have result : ((Request.draw name count).run (session.settings.stem thread)
      (session.settings.check thread)).run.run session.workspace =
        (.ok (.texts drawn.1, none), session.workspace.setSource id drawn.2) := by
    rw [Request.run, Work.run_bind, found]
    rfl
  have stored := Workspace.source_setSource used drawn.2
  rw [request, result]
  refine ⟨?_, ?_⟩
  · cases keep <;> rfl
  · cases keep <;> simp [shared, stored, Activity.perform, drawn]

/-- A request for a conversion has the effect on the source that the activity has. -/
theorem shared_request_convert {f : Formula} {e : Expr} {w : Workspace}
    (evaluated : (Work.eval e).run.run session.workspace = (.ok (.formula f), w))
    (found : (Work.sourceId name).run.run w = (.ok id, w)) (thread : ThreadId) (keep : Option String)
    (ofAny : Bool) :
    (session.request thread keep (.convert e name ofAny)).2.shared id =
      ((Activity.convert thread f).perform (session.shared id)).2 := by
  have sources := Work.sources_eval evaluated
  have source : w.source id = session.workspace.source id := by
    rw [Workspace.source, sources, Workspace.source]
  rw [← sources] at used
  have result : ((Request.convert e name ofAny).run (session.settings.stem thread)
      (session.settings.check thread)).run.run session.workspace =
        (Request.runConvert (session.settings.stem thread) (session.settings.check thread) (.formula f)
          name ofAny).run.run w := by
    rw [Request.run, Work.run_bind, evaluated]
  rw [request, result, Request.runConvert_eq found, source, Activity.perform, shared, shared]
  cases f.convert (session.workspace.source id) (session.settings.stem thread)
      (session.settings.check thread) with
  | error fault => exact congrArg (SharedSource.mk session.settings) source
  | ok conversion =>
    have stored := Workspace.source_setSource used conversion.after
    cases keep with
    | none => exact congrArg (SharedSource.mk session.settings) stored
    | some kept => exact congrArg (SharedSource.mk session.settings) stored

end

end Clausal.Session
