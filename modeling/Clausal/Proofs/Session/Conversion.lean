import Clausal.Proofs.Encoding.Composition
import Clausal.Proofs.Encoding.Objects
import Clausal.Proofs.Session.Operation
import Clausal.Proofs.Session.Scoped

namespace Clausal

/-- The name that the conversion of a formula declares: a variable's own, or else the first that the
source gives out. -/
def Formula.declaredName (source : NameSource) (ambient : String) : Formula → String
  | var name => name
  | _ => (source.draw ambient).1

namespace Session

/-- Between two sessions lies one conversion: a source has drawn names, and a new theory is in the
store and may be kept under a name. All else is as it was. -/
structure Converted (before after : Session) (id : SourceId) (conversion : Conversion) (t : TheoryId)
    (keep : Option String) : Prop where
  made : Store.Made before.workspace.memory.store after.workspace.memory.store t conversion.theory
  drawn : after.workspace.source id = conversion.after
  others : ∀ other, other ≠ id → after.workspace.source other = before.workspace.source other
  values : after.workspace.values = match keep with
    | none => before.workspace.values
    | some name => before.workspace.values.insert name (.theory t)
  lists : after.workspace.memory.lists = before.workspace.memory.lists
  sourceNames : after.workspace.sourceNames = before.workspace.sourceNames
  scopes : after.workspace.scopes = before.workspace.scopes
  scopeNames : after.workspace.scopeNames = before.workspace.scopeNames
  settings : after.settings = before.settings
  threads : after.threads = before.threads

/-- What a thread of the session converts with if it names a source: the source as it now is, the stem
in force, and whether the check is on. -/
structure ConvertsWith (session : Session) (thread : ThreadId) (gen : Option String) (id : SourceId)
    (source : NameSource) (ambient : String) (check : Bool) : Prop where
  found : (Work.sourceId gen).run.run session.workspace = (.ok id, session.workspace)
  used : id.index < session.workspace.sources.size
  source_eq : session.workspace.source id = source
  stem_eq : session.settings.stem thread = ambient
  check_eq : session.settings.check thread = check

section

variable {session : Session} {thread : ThreadId} {gen : Option String} {id : SourceId}
  {source : NameSource} {ambient : String} {check : Bool} {f : Formula}

theorem ConvertsWith.run_eq (given : session.ConvertsWith thread gen id source ambient check) (ofAny : Bool) :
    ((Request.convert (.given (.formula f)) gen ofAny).run (session.settings.stem thread)
      (session.settings.check thread)).run.run session.workspace =
        (Request.runConvert ambient check (.formula f) gen ofAny).run.run session.workspace := by
  rw [Request.run, Work.run_bind, Work.run_eval_given, given.stem_eq, given.check_eq]

theorem request_convert (given : session.ConvertsWith thread gen id source ambient check)
    {conversion : Conversion} (done : f.convert source ambient check = .ok conversion)
    (keep : Option String) (ofAny : Bool) :
    let after := session.request thread keep (.convert (.given (.formula f)) gen ofAny)
    after.1 = .output (.conversion (conversion.theory.clauses.map Clause.text) conversion.theory.names
        ["DEBUG: " ++ conversion.report]) ∧
      ∃ t, Converted session after.2 id conversion t keep := by
  intro after
  have result := given.run_eq (f := f) ofAny
  rw [Request.runConvert_eq given.found, given.source_eq, done] at result
  have stored := Workspace.source_setSource given.used conversion.after
  have others (other : SourceId) (apart : other ≠ id) :=
    session.workspace.source_setSource_of_ne apart conversion.after
  have made := Store.made_addTheory session.workspace.memory.store conversion.theory
  simp only [after, request, result]
  cases keep with
  | none => exact ⟨rfl, _, made, stored, others, rfl, rfl, rfl, rfl, rfl, rfl, rfl⟩
  | some name => exact ⟨rfl, _, made, stored, others, rfl, rfl, rfl, rfl, rfl, rfl, rfl⟩

/-- A conversion that is refused leaves the session as it was. -/
theorem request_convert_refused (given : session.ConvertsWith thread gen id source ambient check)
    {fault : Fault} (refused : f.convert source ambient check = .error fault)
    (keep : Option String) (ofAny : Bool) :
    session.request thread keep (.convert (.given (.formula f)) gen ofAny) = (.fault fault, session) := by
  have result := given.run_eq (f := f) ofAny
  rw [Request.runConvert_eq given.found, given.source_eq, refused] at result
  exact request_eq_fault result

end

/-- A conversion that is not refused never fails. Its first clause declares the variable itself, or the
first name that was drawn, and without the declaration the defining clauses are left. Among the objects
of a store and in a session all is as it was, apart from what is new and the count of the source. -/
theorem convert_declares (session : Session) (thread : ThreadId) (f : Formula) {gen : Option String}
    {id : SourceId}
    (found : (Work.sourceId gen).run.run session.workspace = (.ok id, session.workspace))
    (used : id.index < session.workspace.sources.size)
    (accepted : session.settings.check thread = true →
      f.clashes (session.workspace.source id) (session.settings.stem thread) = []) :
    let source := session.workspace.source id
    let ambient := session.settings.stem thread
    let check := session.settings.check thread
    let name := f.declaredName source ambient
    let defining : Theory :=
      ⟨f.postorderPositions.flatMap (f.clausesAt (f.nameAt (source.stem ambient) source.count))⟩
    ∃ conversion, f.convert source ambient check = .ok conversion ∧
      conversion.theory.clauses.head? = some ⟨[.pos name]⟩ ∧
      conversion.theory.takeDeclared = .ok (name, defining) ∧
      conversion.after = { source with count := source.count + f.preorderPositions.length } ∧
      (∀ store, ∃ t after,
        Encoding.convertIn store f source ambient check = .ok (t, ⟨conversion.after, after⟩) ∧
          Store.Made store after t conversion.theory) ∧
      (∀ before store t, Store.Made before store t conversion.theory → ∃ stripped,
        store.takeDeclared t = (.ok name, stripped) ∧ stripped.theory t = defining ∧
          stripped.Extends before) ∧
      ∀ keep ofAny,
        let after := session.request thread keep (.convert (.given (.formula f)) gen ofAny)
        (∃ output, after.1 = .output output) ∧ ∃ t, Converted session after.2 id conversion t keep := by
  intro source ambient check name defining
  have label : f.label (source.stem ambient) source.count = name := by
    cases f <;> rfl
  have gates := ((Formula.gates_eq_postorder (source.stem ambient)).1 f source.count _
    (Formula.namedBy_nameAt f (source.stem ambient) source.count)).2
  have theory : (f.conversion source ambient).theory = ⟨.declaring name :: defining.clauses⟩ := by
    rw [Formula.conversion, label, gates]
  refine ⟨f.conversion source ambient, Formula.convert_eq_ok accepted, ?_, ?_, ?_,
    Encoding.convertIn_eq_ok accepted, fun before store t made => ?_, fun keep ofAny => ?_⟩
  · rw [theory]
    rfl
  · rw [theory]
    rfl
  · rw [Formula.length_preorderPositions]
    rfl
  · rw [theory] at made
    exact made.takeDeclared
  · obtain ⟨reply, converted⟩ := request_convert ⟨found, used, rfl, rfl, rfl⟩
      (Formula.convert_eq_ok accepted) keep ofAny
    exact ⟨⟨_, reply⟩, converted⟩

/-- The variable is the name that is drawn, and the check is off. -/
theorem convert_declares_of_collision :
    let f : Formula := .neg (.var "_x1")
    NameSource.recognises {} "_x" "_x1" = true ∧
      ∃ conversion, f.convert {} "_x" false = .ok conversion ∧
        conversion.theory.takeDeclared =
          .ok ("_x1", ⟨[⟨[.neg "_x1", .neg "_x1"]⟩, ⟨[.pos "_x1", .pos "_x1"]⟩]⟩) ∧
        ∃ t, Converted {} (Session.request {} ⟨0⟩ none (.convert (.given (.formula f)) none true)).2 ⟨0⟩
          conversion t none := by
  intro f
  have found : (Work.sourceId none).run.run ({} : Session).workspace = (.ok ⟨0⟩, {}) := rfl
  obtain ⟨conversion, done, -, declared, -, -, -, requests⟩ :=
    convert_declares {} ⟨0⟩ f found Nat.zero_lt_one nofun
  refine ⟨by decide +kernel, conversion, done, declared.trans (congrArg Except.ok ?_),
    (requests none true).2⟩
  decide +kernel

end Session

end Clausal
