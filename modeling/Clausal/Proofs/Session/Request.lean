import Clausal.Session.Request

namespace Clausal

namespace Work

/-- Work goes on in the workspace that the work before it left, unless that met a fault. -/
theorem run_bind {α β : Type} (first : Work α) (next : α → Work β) (w : Workspace) :
    (first >>= next).run.run w = match first.run.run w with
      | (.ok a, w) => (next a).run.run w
      | (.error fault, w) => (.error fault, w) := by
  rw [ExceptT.run_bind, StateT.run_bind]
  rcases first.run.run w with ⟨_ | _, _⟩ <;> rfl

theorem run_get (w : Workspace) : (get : Work Workspace).run.run w = (.ok w, w) :=
  rfl

theorem run_lift {α : Type} (result : Except Fault α) (w : Workspace) :
    (lift result).run.run w = (result, w) := by
  cases result <;> rfl

theorem run_eval_given (v : Value) (w : Workspace) : (eval (.given v)).run.run w = (.ok v, w) :=
  rfl

theorem run_memory (w : Workspace) : Work.memory.run.run w = (.ok w.memory, w) :=
  rfl

theorem sources_eval {e : Expr} {w after : Workspace} {result : Except Fault Value}
    (done : (eval e).run.run w = (result, after)) : after.sources = w.sources := by
  rw [eval, run_bind, run_get] at done
  change ((lift ((e.eval w.values).run w.memory) >>= _ : Work Value)).run.run w = _ at done
  rw [run_bind, run_lift] at done
  cases value : (e.eval w.values).run w.memory with
  | error fault =>
    rw [value] at done
    cases done
    rfl
  | ok evaluated =>
    rw [value] at done
    cases done
    rfl

end Work

theorem Workspace.source_setSource {w : Workspace} {id : SourceId} (used : id.index < w.sources.size)
    (source : NameSource) : (w.setSource id source).source id = source := by
  simp [Workspace.source, setSource, Array.getD, used]

theorem Workspace.source_setSource_of_ne (w : Workspace) {id other : SourceId} (apart : other ≠ id)
    (source : NameSource) : (w.setSource id source).source other = w.source other := by
  have index : id.index ≠ other.index := fun same => apart (by cases id; cases other; exact congrArg _ same.symm)
  simp [Workspace.source, setSource, Array.getD_eq_getD_getElem?, index]

/-- A request for a conversion leaves the workspace alone if the conversion is refused. Otherwise it
leaves the source as the conversion did and puts the theory into the store. -/
theorem Request.runConvert_eq {w : Workspace} {name : Option String} {id : SourceId}
    (found : (Work.sourceId name).run.run w = (.ok id, w)) (f : Formula) (ambient : String)
    (check ofAny : Bool) :
    (runConvert ambient check (.formula f) name ofAny).run.run w =
      match f.convert (w.source id) ambient check with
      | .error fault => (.error fault, w)
      | .ok conversion =>
        let added := w.memory.store.addTheory conversion.theory
        (.ok (.conversion (conversion.theory.clauses.map Clause.text) conversion.theory.names
            ["DEBUG: " ++ conversion.report], some (.theory added.1)),
          { w.setSource id conversion.after with memory := { w.memory with store := added.2 } }) := by
  rw [runConvert, Work.run_bind, found]
  change ((get >>= fun w => Work.lift (f.convert (w.source id) ambient check) >>= _ : Work Result)).run.run w = _
  rw [Work.run_bind, Work.run_get]
  change ((Work.lift (f.convert (w.source id) ambient check) >>= _ : Work Result)).run.run w = _
  rw [Work.run_bind, Work.run_lift]
  cases f.convert (w.source id) ambient check <;> rfl

end Clausal
