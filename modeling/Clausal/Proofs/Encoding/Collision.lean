import Clausal.Proofs.Encoding.Correctness
import Clausal.Proofs.Session.Conversion
import Clausal.Proofs.Text.Names

namespace Clausal

open NameSource (numbered Issued)

namespace Formula

section

variable (f : Formula) (source : NameSource) (ambient : String)

/-- The check objects to the variables that the source may issue, whatever it has issued so far. -/
theorem mem_clashes_iff (name : String) : name ∈ f.clashes source ambient ↔
    name ∈ f.names ∧ ∃ n, 1 ≤ n ∧ name = numbered (source.stem ambient) n := by
  rw [clashes, List.mem_filter, NameSource.recognises_iff]

theorem pairwise_clashes : (f.clashes source ambient).Pairwise (· < ·) := by
  have sorted : f.names.Pairwise (· < ·) := Text.pairwise_sortedNames _
  exact sorted.filter _

theorem clashes_ne_nil_iff : f.clashes source ambient ≠ [] ↔
    ∃ name, name ∈ f.names ∧ ∃ n, 1 ≤ n ∧ name = numbered (source.stem ambient) n := by
  constructor
  · intro clashing
    obtain ⟨name, member⟩ := List.exists_mem_of_ne_nil _ clashing
    exact ⟨name, (mem_clashes_iff f source ambient name).mp member⟩
  · intro some none
    obtain ⟨name, clash⟩ := some
    have member := (mem_clashes_iff f source ambient name).mpr clash
    exact List.ne_nil_of_mem member none

end

section

variable {f : Formula} {source : NameSource} {ambient : String}

theorem not_issued_of_accepted (accepted : f.clashes source ambient = []) {name : String}
    (member : name ∈ f.names) (k count : Nat) : ¬Issued (source.stem ambient) k count name := by
  intro issued
  have clash := (mem_clashes_iff f source ambient name).mpr ⟨member, issued.reserved⟩
  rw [accepted] at clash
  exact List.not_mem_nil clash

/-- An accepted formula has the vocabulary that conversion needs, with no further assumption. -/
theorem vocabulary_of_accepted (accepted : f.clashes source ambient = []) :
    Vocabulary (source.stem ambient) source.count [f] f.names
      (f.conversion source ambient).theory.names := by
  refine vocabulary_conversion f source ambient fun n above below member => ?_
  exact not_issued_of_accepted accepted member _ _ ⟨n, above, below, rfl⟩

end

end Formula

namespace Formula

/-- The check suffices and fails cleanly. A formula is refused exactly if one of its variables is
the stem with a number from one on; the refusal lists all those variables in order and draws no
name, and a session whose thread has the check on stays as it was. Otherwise no name drawn is a
variable, and the models of the variables that extend to a model of the theory, which they do in one
way only, are exactly the models of the formula. -/
theorem convert_checked (f : Formula) (source : NameSource) (ambient : String) :
    let clash := fun name => name ∈ f.names ∧ ∃ n, 1 ≤ n ∧ name = numbered (source.stem ambient) n
    ((∃ fault, f.convert source ambient true = .error fault) ↔ ∃ name, clash name) ∧
    ((∃ name, clash name) → ∃ names,
      f.convert source ambient true = .error (.clashes names (source.code ambient)) ∧
      (Fault.clashes names (source.code ambient)).message? =
        some ("Variables " ++ ", ".intercalate (names.map Text.quoted) ++
          " look like auxiliary variables from " ++ source.code ambient) ∧
      (Fault.clashes names (source.code ambient)).kind = .value ∧
      (∀ name, name ∈ names ↔ clash name) ∧ names.Pairwise (· < ·) ∧
      (∀ (w : Workspace) (id : SourceId) (sourceName : Option String) (ofAny : Bool),
        (Work.sourceId sourceName).run.run w = (.ok id, w) → w.source id = source →
          (Request.runConvert ambient true (.formula f) sourceName ofAny).run.run w =
            (.error (.clashes names (source.code ambient)), w)) ∧
      ∀ session thread gen id, Session.ConvertsWith session thread gen id source ambient true →
        ∀ keep ofAny, session.request thread keep (.convert (.given (.formula f)) gen ofAny) =
          (.fault (.clashes names (source.code ambient)), session)) ∧
    ((¬∃ name, clash name) → ∃ conversion, f.convert source ambient true = .ok conversion ∧
      (∀ name, name ∈ conversion.theory.names ↔
        name ∈ f.names ∨ name ∈ (source.drawMany ambient conversion.drawn).1) ∧
      conversion.after = (source.drawMany ambient conversion.drawn).2 ∧
      (∀ name ∈ (source.drawMany ambient conversion.drawn).1, name ∉ f.names) ∧
      (∀ session thread gen id, Session.ConvertsWith session thread gen id source ambient true →
        ∀ keep ofAny,
          let after := session.request thread keep (.convert (.given (.formula f)) gen ofAny)
          (∃ output, after.1 = .output output) ∧
            ∃ t, Session.Converted session after.2 id conversion t keep) ∧
      ∀ m : Model, m.Assigns f.names →
        (f.evaluateShared m = .ok true ↔ ∃ M : Model, M.Assigns conversion.theory.names ∧
          M.Extends m ∧ conversion.theory.evaluate M = .ok true) ∧
        ∀ M N : Model, M.Assigns conversion.theory.names → M.Extends m →
          conversion.theory.evaluate M = .ok true → N.Assigns conversion.theory.names →
          N.Extends m → conversion.theory.evaluate N = .ok true → N.Same M) := by
  intro clash
  have clashing : f.clashes source ambient ≠ [] ↔ ∃ name, clash name :=
    clashes_ne_nil_iff f source ambient
  refine ⟨?_, ?_, ?_⟩
  · rw [← clashing]
    constructor
    · intro refused none
      obtain ⟨fault, failed⟩ := refused
      rw [convert_eq_ok fun _ => none] at failed
      cases failed
    · intro some
      exact ⟨_, convert_eq_error some⟩
  · intro some
    have nonempty := clashing.mpr some
    have refused := convert_eq_error nonempty
    refine ⟨f.clashes source ambient, refused, rfl, rfl, mem_clashes_iff f source ambient,
      pairwise_clashes f source ambient, ?_, fun session thread gen id given keep ofAny => ?_⟩
    · rintro w id sourceName ofAny found rfl
      rw [Request.runConvert_eq found, refused]
    · exact Session.request_convert_refused given refused keep ofAny
  · intro none
    have accepted : f.clashes source ambient = [] :=
      Classical.byContradiction fun nonempty => none (clashing.mp nonempty)
    have vocabulary := vocabulary_of_accepted accepted
    have done : f.convert source ambient true = .ok (f.conversion source ambient) :=
      convert_eq_ok fun _ => accepted
    refine ⟨f.conversion source ambient, done, ?_, ?_, ?_,
      fun session thread gen id given keep ofAny => ?_, ?_⟩
    · intro name
      rw [mem_names_conversion, mem_drawn_conversion]
    · rw [NameSource.drawMany_after, drawn_conversion]
      rfl
    · intro name drawn member
      rw [mem_drawn_conversion] at drawn
      exact not_issued_of_accepted accepted member _ _ drawn
    · obtain ⟨reply, converted⟩ := Session.request_convert given done keep ofAny
      exact ⟨⟨_, reply⟩, converted⟩
    · intro m given
      have whole := truth_conversion f source ambient
      have satisfied := vocabulary.all_satisfied_iff_extension whole given
      rw [List.forall_mem_singleton] at satisfied
      refine ⟨satisfied, ?_⟩
      intro M N assigns extension value assigns' extension' value'
      have completes := vocabulary.completes_of_evaluate whole assigns extension value
      have completes' := vocabulary.completes_of_evaluate whole assigns' extension' value'
      exact vocabulary.completion_unique given completes completes'

end Formula

end Clausal
