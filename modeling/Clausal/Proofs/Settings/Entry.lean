import Clausal.Proofs.Settings.Assignment

namespace Clausal.Settings

/-- All names are names of settings, and these permit the values. -/
def Admissible (values : List (String × Datum)) : Prop :=
  ∃ snapshot : Snapshot, values = snapshot.named ∧ snapshot.Permitted

/-- The values in force for the settings of a snapshot, put on top of what a thread has to bring back
when it leaves a scope. -/
def save (settings : Settings) (thread : ThreadId) (scope : ScopeId) (snapshot : Snapshot) : Settings :=
  settings.setSaved thread scope (settings.present thread snapshot :: settings.stack thread scope)

/-- The thread has the same values in force, and the same to bring back when it leaves the scope. -/
def Keeps (thread : ThreadId) (scope : ScopeId) (before after : Settings) : Prop :=
  (∀ setting, after.value thread setting = before.value thread setting) ∧
    after.stack thread scope = before.stack thread scope

variable (settings : Settings) (thread : ThreadId) (scope : ScopeId)

theorem enter_unknown {values : List (String × Datum)}
    (unknown : ∃ entry ∈ values, Setting.ofName? entry.1 = none) :
    settings.enter thread scope values =
      (.error .missingPart, settings.setSaved thread scope (settings.stack thread scope)) := by
  rw [enter, resolve_unknown unknown]
  rfl

theorem enter_named (snapshot : Snapshot) : settings.enter thread scope snapshot.named =
    assignAll thread snapshot (settings.save thread scope snapshot) := by
  rw [enter, resolve_named]
  rfl

theorem enter_permitted {snapshot : Snapshot} (permitted : snapshot.Permitted) :
    settings.enter thread scope snapshot.named =
      (.ok (), (settings.save thread scope snapshot).put thread snapshot) := by
  rw [enter_named, assignAll_permitted thread permitted]

theorem enter_refused {before : Snapshot} (permitted : before.Permitted) {setting : Setting}
    {value : Datum} {fault : Fault} (refused : setting.permit value = .error fault) (rest : Snapshot) :
    settings.enter thread scope (Snapshot.named (before ++ (setting, value) :: rest)) =
      (.error fault,
        (settings.save thread scope (before ++ (setting, value) :: rest)).put thread before) := by
  rw [enter_named, assignAll_refused thread permitted refused]

theorem enter_ok_iff (values : List (String × Datum)) :
    (settings.enter thread scope values).1 = .ok () ↔ Admissible values := by
  constructor
  · intro entered
    rcases unknown_or_named values with unknown | ⟨snapshot, rfl⟩
    · rw [enter_unknown settings thread scope unknown] at entered
      cases entered
    · rcases snapshot.permitted_or_refused with
        permitted | ⟨before, setting, value, rest, fault, rfl, first, refused⟩
      · exact ⟨snapshot, rfl, permitted⟩
      · rw [enter_refused settings thread scope first refused] at entered
        cases entered
  · rintro ⟨snapshot, rfl, permitted⟩
    rw [enter_permitted settings thread scope permitted]

theorem stack_enter_of_ne {other : ScopeId} (apart : other ≠ scope) (values : List (String × Datum)) :
    (settings.enter thread scope values).2.stack thread other = settings.stack thread other := by
  rcases unknown_or_named values with unknown | ⟨snapshot, rfl⟩
  · rw [enter_unknown settings thread scope unknown]
    exact stack_setSaved_of_ne settings thread apart _
  · obtain ⟨before, _, left⟩ := assignAll_put thread snapshot (settings.save thread scope snapshot)
    rw [enter_named, left, stack_put]
    exact stack_setSaved_of_ne settings thread apart _

theorem leave_saved {saved : Snapshot} {stack : List Snapshot}
    (top : settings.stack thread scope = saved :: stack) (permitted : saved.Permitted) :
    settings.leave thread scope = (.ok (), (settings.setSaved thread scope stack).put thread saved) := by
  have known : settings.savedBy thread scope = some (saved :: stack) := by
    unfold Settings.stack at top
    cases found : settings.savedBy thread scope with
    | none =>
      rw [found] at top
      cases top
    | some all =>
      rw [found] at top
      exact congrArg some top
  rw [leave, known]
  exact assignAll_permitted thread permitted _

/-- What was saved for an entry that a value stops is not taken back. -/
theorem stack_enter_refused {before : Snapshot} (permitted : before.Permitted) {setting : Setting}
    {value : Datum} {fault : Fault} (refused : setting.permit value = .error fault) (rest : Snapshot) :
    (settings.enter thread scope
        (Snapshot.named (before ++ (setting, value) :: rest))).2.stack thread scope =
      settings.present thread (before ++ (setting, value) :: rest) :: settings.stack thread scope := by
  rw [enter_refused settings thread scope permitted refused, stack_put, save, stack_setSaved_own]

/-- An entry that fails changes nothing exactly when it fails for a name. A value that is refused
leaves those before it in force, and what was saved at the top. -/
theorem enter_keeps_iff (values : List (String × Datum)) :
    ((settings.enter thread scope values).1 ≠ .ok () ∧
        Keeps thread scope settings (settings.enter thread scope values).2 ↔
      ∃ entry ∈ values, Setting.ofName? entry.1 = none) ∧
    ∀ (before : Snapshot) (setting : Setting) (value : Datum) (rest : Snapshot) (fault : Fault),
      values = Snapshot.named (before ++ (setting, value) :: rest) → before.Permitted →
      setting.permit value = .error fault →
      (settings.enter thread scope values).1 = .error fault ∧
        (∀ queried, (settings.enter thread scope values).2.value thread queried =
          before.override queried (settings.value thread queried)) ∧
        (settings.enter thread scope values).2.stack thread scope =
          settings.present thread (before ++ (setting, value) :: rest) :: settings.stack thread scope := by
  refine ⟨⟨?_, ?_⟩, ?_⟩
  · rintro ⟨failed, -, same⟩
    rcases unknown_or_named values with unknown | ⟨snapshot, rfl⟩
    · exact unknown
    · rcases snapshot.permitted_or_refused with
        permitted | ⟨before, setting, value, rest, fault, rfl, first, refused⟩
      · exact absurd ((enter_ok_iff settings thread scope _).mpr ⟨snapshot, rfl, permitted⟩) failed
      · have longer := stack_enter_refused settings thread scope first refused rest
        exact absurd (longer.symm.trans same) (List.cons_ne_self _ _)
  · intro unknown
    rw [enter_unknown settings thread scope unknown]
    refine ⟨by simp, fun setting => rfl, ?_⟩
    rw [stack_setSaved_own]
  · rintro before setting value rest fault rfl permitted refused
    refine ⟨?_, fun queried => ?_, stack_enter_refused settings thread scope permitted refused rest⟩
    · rw [enter_refused settings thread scope permitted refused]
    · rw [enter_refused settings thread scope permitted refused, value_put_own, save, value_setSaved]

theorem enter_keeps_iff_of_empty_stem :
    let after := enter {} ⟨0⟩ ⟨0⟩ [("check_collisions", .bool true), ("aux_prefix", .text "")]
    after.1 = .error (.invalidSetting "''" "aux_prefix") ∧
      after.2.value ⟨0⟩ .check = .bool true ∧
      after.2.stack ⟨0⟩ ⟨0⟩ = [[(.check, .bool false), (.stem, .text "_x")]] := by
  have permitted : Snapshot.Permitted [(.check, .bool true)] := by
    rintro entry (_ | ⟨_, ⟨⟩⟩)
    rfl
  have left := (enter_keeps_iff {} ⟨0⟩ ⟨0⟩ _).2 [(.check, .bool true)] .stem (.text "") [] _
    rfl permitted rfl
  exact ⟨left.1, left.2.1 .check, left.2.2⟩

theorem permit_check_int {n : Int} (notNought : n ≠ 0) (notOne : n ≠ 1) :
    Setting.check.permit (.int n) = .error (.invalidSetting (toString n) "check_collisions") := by
  have bits : ((Datum.int n).same (.bool true) || (Datum.int n).same (.bool false)) = false := by
    have one : Int.pow 10 0 = 1 := rfl
    simp only [Datum.same, Datum.sameNumber, Datum.number?, one, Int.mul_one, Bool.or_eq_false_iff,
      beq_eq_false_iff_ne]
    exact ⟨notOne, notNought⟩
  simp [Setting.permit, Setting.permit.refuse, Datum.isKey, Datum.code, Setting.name, bits]

/-- The second value is refused, but the first stays in force. -/
theorem not_keeps_of_refused_check :
    let after := enter {} ⟨0⟩ ⟨0⟩ [("aux_prefix", .text "_y"), ("check_collisions", .int 5)]
    after.1 ≠ .ok () ∧ ¬ Keeps ⟨0⟩ ⟨0⟩ {} after.2 := by
  have permitted : Snapshot.Permitted [(.stem, .text "_y")] := by simp [Snapshot.Permitted, Setting.permit]
  have refused := permit_check_int (n := 5) (by decide) (by decide)
  have entered := enter_refused {} ⟨0⟩ ⟨0⟩ permitted refused []
  intro after
  have result : after = (Except.error _, _) := entered
  rw [result]
  refine ⟨by simp, fun kept => ?_⟩
  exact absurd (Datum.text.inj (kept.1 .stem)) (by decide)

end Clausal.Settings
