import Clausal.Proofs.Session.Conduct
import Clausal.Proofs.Settings.Validity

namespace Clausal.Session

open Settings

/-- Lets threads take steps in a given order. -/
def takeSteps : List (ThreadId × Step) → Session → Session
  | [], session => session
  | (thread, step) :: run, session => takeSteps run (step.run thread session).2

theorem takeSteps_leads (run : List (ThreadId × Step)) (session : Session) :
    Leads session.settings (takeSteps run session).settings := by
  induction run generalizing session with
  | nil => exact .refl session.settings
  | cons entry run ih =>
    have first := (Step.run_conduct entry.1 entry.2).leads session
    exact first.trans (ih _)

/-- Whatever steps threads take, matched or not and failing or not, all settings are valid, and so is
all that was saved for a scope. A scope is left without a fault exactly if something was saved for it,
and an assignment is done as asked or not at all. -/
theorem takeSteps_valid (workspace : Workspace) (run : List (ThreadId × Step)) :
    let settings := (takeSteps run { workspace }).settings
    (∀ thread,
      (∃ stem, stem ≠ "" ∧ settings.value thread .stem = .text stem) ∧
        ((settings.value thread .check).same (.bool true) = true ∨
          (settings.value thread .check).same (.bool false) = true)) ∧
    (∀ thread scope, ∀ snapshot ∈ settings.stack thread scope, snapshot.Permitted) ∧
    (∀ thread scope,
      settings.leave thread scope =
        match settings.stack thread scope with
        | [] =>
          (.error (if settings.savedBy thread scope = none then .missingPart else .outOfRange), settings)
        | snapshot :: stack => (.ok (), (settings.setSaved thread scope stack).put thread snapshot)) ∧
    ∀ thread name value,
      (∃ fault, settings.perform thread (.assign name value) = (.error fault, settings) ∧
          ∀ setting : Setting, setting.name = name → setting.permit value = .error fault) ∨
        ∃ (setting : Setting) (after : Settings), setting.name = name ∧ setting.permit value = .ok () ∧
          settings.perform thread (.assign name value) = (.ok .null, after) ∧
          after.saved = settings.saved ∧
          ∀ other queried, after.value other queried =
            if queried = setting ∧ other = thread then value else settings.value other queried := by
  intro settings
  have sound : settings.Sound := (takeSteps_leads run { workspace }).sound sound_start
  refine ⟨fun thread => ⟨?_, ?_⟩, sound.saved, sound.leave_eq, perform_assign settings⟩
  · exact (Setting.permit_stem_iff _).mp (sound.valid thread .stem)
  · exact (Setting.permit_check_iff _).mp (sound.valid thread .check)

/-- An entry that fails at its second value leaves what it saved behind, so the scope can be left. -/
theorem takeSteps_valid_of_failed_entry :
    let settings := (takeSteps
      [(⟨0⟩, .request none (.newScope "c" [("aux_prefix", .text "_y"), ("check_collisions", .null)])),
        (⟨0⟩, .enter "c")] {}).settings
    settings.stack ⟨0⟩ ⟨0⟩ = [[(.stem, .text "_x"), (.check, .bool false)]] ∧
      Snapshot.Permitted [(.stem, .text "_x"), (.check, .bool false)] ∧
      (settings.leave ⟨0⟩ ⟨0⟩).1 = .ok () := by
  intro settings
  obtain ⟨-, saved, leaves, -⟩ := takeSteps_valid {}
    [(⟨0⟩, .request none (.newScope "c" [("aux_prefix", .text "_y"), ("check_collisions", .null)])),
      (⟨0⟩, .enter "c")]
  have stack : settings.stack ⟨0⟩ ⟨0⟩ = [[(.stem, .text "_x"), (.check, .bool false)]] := rfl
  refine ⟨stack, saved ⟨0⟩ ⟨0⟩ _ (by rw [stack]; exact List.mem_singleton_self _), ?_⟩
  have left := leaves ⟨0⟩ ⟨0⟩
  rw [stack] at left
  rw [left]

end Clausal.Session
