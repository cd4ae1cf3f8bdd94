import Clausal.Proofs.Settings.Entry

namespace Clausal.Settings

/-- Another thread has the same values in force and the same snapshots to bring back. -/
def SameFor (other : ThreadId) (before after : Settings) : Prop :=
  (∀ setting, after.value other setting = before.value other setting) ∧
    ∀ scope, after.savedBy other scope = before.savedBy other scope

theorem SameFor.refl (other : ThreadId) (settings : Settings) : SameFor other settings settings :=
  ⟨fun _ => rfl, fun _ => rfl⟩

theorem SameFor.symm {other : ThreadId} {before after : Settings} (same : SameFor other before after) :
    SameFor other after before :=
  ⟨fun setting => (same.1 setting).symm, fun scope => (same.2 scope).symm⟩

theorem SameFor.trans {other : ThreadId} {first second third : Settings}
    (before : SameFor other first second) (after : SameFor other second third) :
    SameFor other first third :=
  ⟨fun setting => (after.1 setting).trans (before.1 setting),
    fun scope => (after.2 scope).trans (before.2 scope)⟩

/-- All that a thread can do to its settings: permitted values are put in force, and a scope may get
another stack. -/
inductive Effect (settings : Settings) (thread : ThreadId) : Settings → Prop
  | put {snapshot : Snapshot} (permitted : snapshot.Permitted) :
    Effect settings thread (settings.put thread snapshot)
  | save (scope : ScopeId) (stack : List Snapshot) {snapshot : Snapshot}
      (permitted : snapshot.Permitted) :
    Effect settings thread ((settings.setSaved thread scope stack).put thread snapshot)

theorem Effect.same {settings : Settings} {thread : ThreadId} : Effect settings thread settings :=
  .put Snapshot.permitted_nil

theorem Effect.sameFor {settings after : Settings} {thread : ThreadId} (effect : Effect settings thread after)
    {other : ThreadId} (apart : other ≠ thread) : SameFor other settings after := by
  cases effect with
  | put permitted =>
    refine ⟨fun setting => ?_, fun scope => rfl⟩
    rw [value_put, if_neg apart]
  | save scope stack permitted =>
    refine ⟨fun setting => ?_, fun queried => ?_⟩
    · rw [value_put, if_neg apart, value_setSaved]
    · rw [savedBy_put, savedBy_setSaved, if_neg fun both => apart both.2]

theorem Effect.valid {settings after : Settings} {thread : ThreadId}
    (effect : Effect settings thread after) (valid : settings.Valid) : after.Valid := by
  intro other setting
  by_cases own : other = thread
  · subst own
    cases effect with
    | put permitted =>
      rw [value_put_own]
      exact Snapshot.permit_override permitted (valid other setting)
    | save scope stack permitted =>
      rw [value_put_own]
      exact Snapshot.permit_override permitted (valid other setting)
  · rw [(effect.sameFor own).1 setting]
    exact valid other setting

section

variable (settings : Settings) (thread : ThreadId)

theorem enter_effect (scope : ScopeId) (values : List (String × Datum)) :
    Effect settings thread (settings.enter thread scope values).2 := by
  rcases unknown_or_named values with unknown | ⟨snapshot, rfl⟩
  · rw [enter_unknown settings thread scope unknown]
    exact .save scope _ Snapshot.permitted_nil
  · obtain ⟨before, permitted, left⟩ := assignAll_put thread snapshot (settings.save thread scope snapshot)
    rw [enter_named, left]
    exact .save scope _ permitted

theorem leave_effect (scope : ScopeId) : Effect settings thread (settings.leave thread scope).2 := by
  unfold leave
  split
  · exact .same
  · exact .same
  · rename_i saved stack _
    obtain ⟨before, permitted, left⟩ := assignAll_put thread saved (settings.setSaved thread scope stack)
    rw [left]
    exact .save scope stack permitted

theorem perform_assign_put (name : String) (value : Datum) :
    ∃ snapshot : Snapshot, snapshot.Permitted ∧
      (settings.perform thread (.assign name value)).2 = settings.put thread snapshot := by
  rw [perform]
  cases Setting.ofName? name with
  | none => exact ⟨[], Snapshot.permitted_nil, rfl⟩
  | some setting =>
    simp only [assign_eq]
    cases permitted : setting.permit value with
    | error fault => exact ⟨[], Snapshot.permitted_nil, rfl⟩
    | ok _ => exact ⟨[(setting, value)], by simpa [Snapshot.Permitted] using permitted, rfl⟩

theorem perform_read (name : String) :
    (settings.perform thread (.read name)).2 = settings := by
  rw [perform]
  cases Setting.ofName? name <;> rfl

theorem perform_effect (action : Action) : Effect settings thread (settings.perform thread action).2 := by
  cases action with
  | enter scope values => exact enter_effect settings thread scope values
  | leave scope => exact leave_effect settings thread scope
  | read name =>
    rw [perform_read]
    exact .same
  | assign name value =>
    obtain ⟨snapshot, permitted, put⟩ := perform_assign_put settings thread name value
    rw [put]
    exact .put permitted

end

/-- Between an entry and an exit, the settings that the scope has values for come to what they were
before the entry, all others stay as they were found at the exit, and so does what is to be brought
back, apart from what was saved at the entry. -/
structure Restored (values : List (String × Datum)) (thread : ThreadId) (scope : ScopeId)
    (before inner after : Settings) : Prop where
  named : ∀ setting : Setting, setting.name ∈ values.map Prod.fst →
    after.value thread setting = before.value thread setting
  unnamed : ∀ setting : Setting, setting.name ∉ values.map Prod.fst →
    after.value thread setting = inner.value thread setting
  stack : after.stack thread scope = before.stack thread scope
  elsewhere : ∀ other, other ≠ scope → after.stack thread other = inner.stack thread other

theorem leave_restores {before inner : Settings} (valid : before.Valid) {thread : ThreadId}
    {scope : ScopeId} {values : List (String × Datum)} (admissible : Admissible values)
    (keeps : inner.stack thread scope = (before.enter thread scope values).2.stack thread scope) :
    (inner.leave thread scope).1 = .ok () ∧
      Restored values thread scope before inner (inner.leave thread scope).2 := by
  obtain ⟨snapshot, rfl, permitted⟩ := admissible
  rw [enter_permitted before thread scope permitted, stack_put, save, stack_setSaved_own] at keeps
  rw [leave_saved inner thread scope keeps (permitted_present valid thread snapshot)]
  refine ⟨rfl, ?_, ?_, ?_, ?_⟩
  · intro setting member
    rw [value_put_own, override_present, if_pos ((Snapshot.mem_settings_iff _ _).mpr member)]
  · intro setting absent
    rw [value_put_own, override_present, if_neg (absent ∘ (Snapshot.mem_settings_iff _ _).mp),
      value_setSaved]
  · rw [stack_put, stack_setSaved_own]
  · intro other apart
    rw [stack_put, stack_setSaved_of_ne inner thread apart]

/-- The settings of threads that started with nothing set, after whatever they did. -/
inductive Reachable : Settings → Prop
  | start : Reachable {}
  | perform {settings : Settings} (before : Reachable settings) (thread : ThreadId) (action : Action) :
    Reachable (settings.perform thread action).2

theorem Reachable.valid {settings : Settings} (reached : settings.Reachable) : settings.Valid := by
  induction reached with
  | start =>
    rintro thread (_ | _)
    · rfl
    · rfl
  | perform before thread action ih => exact (perform_effect _ thread action).valid ih

end Clausal.Settings
