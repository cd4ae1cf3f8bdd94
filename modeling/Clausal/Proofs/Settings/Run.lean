import Clausal.Proofs.Settings.Perform

namespace Clausal.Settings

/-- What a record of several threads has of one of them. -/
def ofThread {α : Type} (thread : ThreadId) (record : List (ThreadId × α)) : List (ThreadId × α) :=
  record.filter fun entry => entry.1 = thread

section

variable {α : Type} {thread actor : ThreadId} (a : α) (record : List (ThreadId × α))

theorem ofThread_cons_own : ofThread thread ((thread, a) :: record) = (thread, a) :: ofThread thread record :=
  List.filter_cons_of_pos (decide_eq_true rfl)

theorem ofThread_cons_of_ne (apart : actor ≠ thread) :
    ofThread thread ((actor, a) :: record) = ofThread thread record :=
  List.filter_cons_of_neg (by simpa using apart)

end

/-- Lets threads act in a given order, and records what each action answers to its thread. -/
def performAll : List (ThreadId × Action) → Settings → List (ThreadId × Except Fault Datum) × Settings
  | [], settings => ([], settings)
  | (thread, action) :: run, settings =>
    let (answer, settings) := settings.perform thread action
    let (answers, settings) := performAll run settings
    ((thread, answer) :: answers, settings)

theorem performAll_cons (thread : ThreadId) (action : Action) (run : List (ThreadId × Action))
    (settings : Settings) :
    performAll ((thread, action) :: run) settings =
      ((thread, (settings.perform thread action).1) ::
        (performAll run (settings.perform thread action).2).1,
        (performAll run (settings.perform thread action).2).2) := rfl

theorem performAll_append (first next : List (ThreadId × Action)) (settings : Settings) :
    (performAll (first ++ next) settings).2 = (performAll next (performAll first settings).2).2 := by
  induction first generalizing settings with
  | nil => rfl
  | cons entry first ih => exact ih _

/-- Some run of actions, of any threads, leads from the one to the other. -/
def Leads (before after : Settings) : Prop :=
  ∃ run, (performAll run before).2 = after

theorem Leads.refl (settings : Settings) : Leads settings settings :=
  ⟨[], rfl⟩

theorem Leads.trans {first second third : Settings} (before : Leads first second)
    (after : Leads second third) : Leads first third := by
  obtain ⟨early, rfl⟩ := before
  obtain ⟨late, rfl⟩ := after
  exact ⟨early ++ late, performAll_append early late first⟩

theorem Leads.perform (settings : Settings) (thread : ThreadId) (action : Action) :
    Leads settings (settings.perform thread action).2 :=
  ⟨[(thread, action)], rfl⟩

section

variable {thread : ThreadId} {settings others : Settings}

theorem SameFor.stack (same : SameFor thread settings others) (scope : ScopeId) :
    others.stack thread scope = settings.stack thread scope := by
  rw [Settings.stack, Settings.stack, same.2 scope]

theorem SameFor.put (same : SameFor thread settings others) (snapshot : Snapshot) :
    SameFor thread (settings.put thread snapshot) (others.put thread snapshot) := by
  refine ⟨fun setting => ?_, same.2⟩
  rw [value_put_own, value_put_own, same.1 setting]

theorem SameFor.setSaved (same : SameFor thread settings others) (scope : ScopeId)
    (stack : List Snapshot) :
    SameFor thread (settings.setSaved thread scope stack) (others.setSaved thread scope stack) := by
  refine ⟨same.1, fun queried => ?_⟩
  rw [savedBy_setSaved, savedBy_setSaved, same.2 queried]

theorem SameFor.save (same : SameFor thread settings others) (scope : ScopeId) (snapshot : Snapshot) :
    SameFor thread (settings.save thread scope snapshot) (others.save thread scope snapshot) := by
  have present : others.present thread snapshot = settings.present thread snapshot :=
    List.map_congr_left fun entry _ => congrArg (Prod.mk entry.1) (same.1 entry.1)
  rw [Settings.save, Settings.save, present, same.stack scope]
  exact same.setSaved scope _

/-- A thread that has the same in force and the same to bring back gets the same result. -/
def AlikeFor {α : Type} (thread : ThreadId) (left right : α × Settings) : Prop :=
  right.1 = left.1 ∧ SameFor thread left.2 right.2

theorem SameFor.assignAll (same : SameFor thread settings others) (snapshot : Snapshot) :
    AlikeFor thread (assignAll thread snapshot settings) (assignAll thread snapshot others) := by
  obtain ⟨result, before, _, assigned⟩ := assignAll_uniform thread snapshot
  rw [assigned, assigned]
  exact ⟨rfl, same.put before⟩

theorem SameFor.enter (same : SameFor thread settings others) (scope : ScopeId)
    (values : List (String × Datum)) :
    AlikeFor thread (settings.enter thread scope values) (others.enter thread scope values) := by
  rcases unknown_or_named values with unknown | ⟨snapshot, rfl⟩
  · rw [enter_unknown _ _ _ unknown, enter_unknown _ _ _ unknown, same.stack scope]
    exact ⟨rfl, same.setSaved scope _⟩
  · rw [enter_named, enter_named]
    exact (same.save scope snapshot).assignAll snapshot

theorem SameFor.leave (same : SameFor thread settings others) (scope : ScopeId) :
    AlikeFor thread (settings.leave thread scope) (others.leave thread scope) := by
  rw [Settings.leave, Settings.leave, same.2 scope]
  split
  · exact ⟨rfl, same⟩
  · exact ⟨rfl, same⟩
  · exact (same.setSaved scope _).assignAll _

theorem SameFor.perform (same : SameFor thread settings others) (action : Action) :
    AlikeFor thread (settings.perform thread action) (others.perform thread action) := by
  cases action with
  | assign name value =>
    rw [Settings.perform, Settings.perform]
    cases Setting.ofName? name with
    | none => exact ⟨rfl, same⟩
    | some setting =>
      simp only [assign_eq]
      cases setting.permit value with
      | error fault => exact ⟨rfl, same⟩
      | ok _ => exact ⟨rfl, same.put _⟩
  | read name =>
    rw [Settings.perform, Settings.perform]
    cases Setting.ofName? name with
    | none => exact ⟨rfl, same⟩
    | some setting => exact ⟨congrArg Except.ok (same.1 setting), same⟩
  | enter scope values =>
    obtain ⟨result, after⟩ := same.enter scope values
    exact ⟨congrArg (Except.map fun _ => Datum.null) result, after⟩
  | leave scope =>
    obtain ⟨result, after⟩ := same.leave scope
    exact ⟨congrArg (Except.map fun _ => Datum.null) result, after⟩

/-- What the other threads of a run do makes no difference to a thread. -/
theorem SameFor.performAll (run : List (ThreadId × Action)) (same : SameFor thread settings others) :
    AlikeFor thread (performAll (ofThread thread run) settings)
      (ofThread thread (performAll run others).1, (performAll run others).2) := by
  induction run generalizing settings others with
  | nil => exact ⟨rfl, same⟩
  | cons entry run ih =>
    obtain ⟨actor, action⟩ := entry
    rw [performAll_cons]
    by_cases own : actor = thread
    · subst own
      obtain ⟨answer, after⟩ := same.perform action
      obtain ⟨answers, last⟩ := ih after
      rw [ofThread_cons_own, ofThread_cons_own, performAll_cons, answer]
      exact ⟨congrArg (List.cons _) answers, last⟩
    · have other : SameFor thread settings (others.perform actor action).2 :=
        same.trans ((perform_effect others actor action).sameFor (Ne.symm own))
      rw [ofThread_cons_of_ne _ _ own, ofThread_cons_of_ne _ _ own]
      exact ih other

/-- A thread that has no part in a run finds all as it was. -/
theorem sameFor_of_absent {run : List (ThreadId × Action)} (absent : ∀ entry ∈ run, entry.1 ≠ thread)
    (settings : Settings) : SameFor thread settings (performAll run settings).2 := by
  have none : ofThread thread run = [] :=
    List.filter_eq_nil_iff.mpr fun entry member => by simpa using absent entry member
  have same := ((SameFor.refl thread settings).performAll run).2
  rwa [none] at same

end

end Clausal.Settings
