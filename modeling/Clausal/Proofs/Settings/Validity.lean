import Clausal.Proofs.Settings.Run

namespace Clausal

namespace Setting

theorem permit_stem_iff (value : Datum) :
    stem.permit value = .ok () ↔ ∃ s, s ≠ "" ∧ value = .text s := by
  cases value with
  | text s =>
    by_cases empty : s = ""
    · simp [permit, permit.refuse, empty]
    · simp [permit, empty]
  | _ => simp [permit, permit.refuse]

/-- A value that is the same as a truth value can be looked up. -/
theorem permit_check_iff (value : Datum) :
    check.permit value = .ok () ↔ value.same (.bool true) = true ∨ value.same (.bool false) = true := by
  rw [permit]
  cases key : value.isKey with
  | false =>
    cases value <;> simp [Datum.isKey, Datum.same, Datum.sameNumber, Datum.number?] at key ⊢
  | true =>
    rw [← Bool.or_eq_true]
    cases value.same (.bool true) || value.same (.bool false) <;> simp [permit.refuse]

end Setting

namespace Settings

/-- All values in force are permitted, and so are all that are to be brought back. -/
structure Sound (settings : Settings) : Prop where
  valid : settings.Valid
  saved : ∀ thread scope, ∀ snapshot ∈ settings.stack thread scope, snapshot.Permitted

theorem sound_start : Sound {} where
  valid := Reachable.start.valid
  saved _ _ _ member := nomatch member

section

variable {settings : Settings} (sound : settings.Sound) (thread : ThreadId)

include sound

theorem Sound.put {snapshot : Snapshot} (permitted : snapshot.Permitted) :
    (settings.put thread snapshot).Sound where
  valid := (Effect.put permitted).valid sound.valid
  saved := sound.saved

theorem Sound.setSaved (scope : ScopeId) {stack : List Snapshot}
    (permitted : ∀ snapshot ∈ stack, snapshot.Permitted) :
    (settings.setSaved thread scope stack).Sound where
  valid := sound.valid
  saved other queried snapshot member := by
    rw [stack_setSaved] at member
    split at member
    · exact permitted snapshot member
    · exact sound.saved other queried snapshot member

theorem Sound.assignAll (snapshot : Snapshot) : (assignAll thread snapshot settings).2.Sound := by
  obtain ⟨before, permitted, left⟩ := assignAll_put thread snapshot settings
  rw [left]
  exact sound.put thread permitted

theorem Sound.enter (scope : ScopeId) (values : List (String × Datum)) :
    (settings.enter thread scope values).2.Sound := by
  rcases unknown_or_named values with unknown | ⟨snapshot, rfl⟩
  · rw [enter_unknown settings thread scope unknown]
    exact sound.setSaved thread scope (sound.saved thread scope)
  · rw [enter_named]
    refine (sound.setSaved thread scope ?_).assignAll thread snapshot
    exact List.forall_mem_cons.mpr ⟨permitted_present sound.valid thread snapshot, sound.saved thread scope⟩

/-- A scope can be left by a thread exactly if the thread has something to bring back for it. What is
brought back is permitted, so nothing stops it half way. -/
theorem Sound.leave_eq (scope : ScopeId) :
    settings.leave thread scope =
      match settings.stack thread scope with
      | [] => (.error (if settings.savedBy thread scope = none then .missingPart else .outOfRange), settings)
      | snapshot :: stack => (.ok (), (settings.setSaved thread scope stack).put thread snapshot) := by
  cases top : settings.stack thread scope with
  | nil =>
    rw [Settings.stack] at top
    rw [leave]
    cases found : settings.savedBy thread scope with
    | none => simp
    | some all =>
      rw [found] at top
      change all = [] at top
      simp [top]
  | cons snapshot stack =>
    exact leave_saved settings thread scope top (sound.saved thread scope snapshot (by simp [top]))

theorem Sound.leave (scope : ScopeId) : (settings.leave thread scope).2.Sound := by
  rw [sound.leave_eq thread scope]
  cases top : settings.stack thread scope with
  | nil => exact sound
  | cons snapshot stack =>
    have saved := sound.saved thread scope
    rw [top] at saved
    obtain ⟨first, rest⟩ := List.forall_mem_cons.mp saved
    exact (sound.setSaved thread scope rest).put thread first

theorem Sound.perform (action : Action) : (settings.perform thread action).2.Sound := by
  cases action with
  | assign name value =>
    obtain ⟨snapshot, permitted, put⟩ := perform_assign_put settings thread name value
    rw [put]
    exact sound.put thread permitted
  | read name =>
    rw [perform_read]
    exact sound
  | enter scope values => exact sound.enter thread scope values
  | leave scope => exact sound.leave thread scope

end

theorem Sound.performAll (run : List (ThreadId × Action)) {settings : Settings} (sound : settings.Sound) :
    (performAll run settings).2.Sound := by
  induction run generalizing settings with
  | nil => exact sound
  | cons entry run ih => exact ih (sound.perform entry.1 entry.2)

theorem Leads.sound {before after : Settings} (leads : Leads before after) (sound : before.Sound) :
    after.Sound := by
  obtain ⟨run, rfl⟩ := leads
  exact sound.performAll run

/-- An assignment is done as asked, or not at all where the setting does not permit the value. -/
theorem perform_assign (settings : Settings) (thread : ThreadId) (name : String) (value : Datum) :
    (∃ fault, settings.perform thread (.assign name value) = (.error fault, settings) ∧
        ∀ setting : Setting, setting.name = name → setting.permit value = .error fault) ∨
      ∃ (setting : Setting) (after : Settings), setting.name = name ∧ setting.permit value = .ok () ∧
        settings.perform thread (.assign name value) = (.ok .null, after) ∧
        after.saved = settings.saved ∧
        ∀ other queried, after.value other queried =
          if queried = setting ∧ other = thread then value else settings.value other queried := by
  rw [perform]
  cases found : Setting.ofName? name with
  | none =>
    refine .inl ⟨_, rfl, fun setting same => ?_⟩
    rw [(Setting.ofName?_eq_some_iff setting name).mpr same.symm] at found
    cases found
  | some setting =>
    have own := ((Setting.ofName?_eq_some_iff setting name).mp found).symm
    have assigned := assign_eq settings thread setting value
    cases permitted : setting.permit value with
    | error fault =>
      rw [permitted] at assigned
      simp only [assigned]
      refine .inl ⟨fault, rfl, fun other same => ?_⟩
      rwa [Setting.name_inj (same.trans own.symm)]
    | ok _ =>
      rw [permitted] at assigned
      simp only [assigned]
      exact .inr ⟨setting, _, own, permitted, rfl, rfl, value_assign assigned⟩

end Settings

end Clausal
