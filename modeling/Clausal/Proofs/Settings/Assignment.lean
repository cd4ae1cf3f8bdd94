import Clausal.Settings.Basic

namespace Clausal

theorem Setting.name_inj {s t : Setting} (same : s.name = t.name) : s = t := by
  have left := (Setting.ofName?_eq_some_iff s s.name).mpr rfl
  have right := (Setting.ofName?_eq_some_iff t s.name).mpr same
  exact Option.some.inj (left.symm.trans right)

namespace Snapshot

/-- The values of a snapshot under the names that callers know. -/
def named (snapshot : Snapshot) : List (String × Datum) :=
  snapshot.map fun entry => (entry.1.name, entry.2)

/-- The settings that a snapshot has values for. -/
def settings (snapshot : Snapshot) : List Setting :=
  snapshot.map Prod.fst

def Permitted (snapshot : Snapshot) : Prop :=
  ∀ entry ∈ snapshot, entry.1.permit entry.2 = .ok ()

/-- What becomes of the value of a setting when those of a snapshot are assigned in order. -/
def override (snapshot : Snapshot) (setting : Setting) (old : Datum) : Datum :=
  snapshot.foldl (fun value entry => if entry.1 = setting then entry.2 else value) old

theorem mem_settings_iff (snapshot : Snapshot) (setting : Setting) :
    setting ∈ snapshot.settings ↔ setting.name ∈ snapshot.named.map Prod.fst := by
  simp only [settings, named, List.map_map, List.mem_map, Function.comp_apply]
  constructor
  · rintro ⟨entry, member, rfl⟩
    exact ⟨entry, member, rfl⟩
  · rintro ⟨entry, member, same⟩
    exact ⟨entry, member, Setting.name_inj same⟩

theorem permitted_nil : Permitted [] := by
  simp [Permitted]

theorem permitted_or_refused (snapshot : Snapshot) : snapshot.Permitted ∨
    ∃ (before : Snapshot) (setting : Setting) (value : Datum) (rest : Snapshot) (fault : Fault),
      snapshot = before ++ (setting, value) :: rest ∧ before.Permitted ∧
        setting.permit value = .error fault := by
  induction snapshot with
  | nil => exact .inl permitted_nil
  | cons entry snapshot ih =>
    cases permitted : entry.1.permit entry.2 with
    | error fault =>
      exact .inr ⟨[], entry.1, entry.2, snapshot, fault, rfl, permitted_nil, permitted⟩
    | ok _ =>
      rcases ih with all | ⟨before, setting, value, rest, fault, rfl, first, refused⟩
      · exact .inl (List.forall_mem_cons.mpr ⟨permitted, all⟩)
      · exact .inr ⟨entry :: before, setting, value, rest, fault, rfl,
          List.forall_mem_cons.mpr ⟨permitted, first⟩, refused⟩

theorem permit_override {snapshot : Snapshot} (permitted : snapshot.Permitted) {setting : Setting}
    {old : Datum} (before : setting.permit old = .ok ()) :
    setting.permit (snapshot.override setting old) = .ok () := by
  induction snapshot generalizing old with
  | nil => exact before
  | cons entry snapshot ih =>
    obtain ⟨first, rest⟩ := List.forall_mem_cons.mp permitted
    rw [override, List.foldl_cons]
    apply ih rest
    split
    · rename_i same
      exact same ▸ first
    · exact before

end Snapshot

namespace Settings

/-- The snapshots that a thread has to bring back when it leaves a scope, none where it never
entered it. -/
def stack (settings : Settings) (thread : ThreadId) (scope : ScopeId) : List Snapshot :=
  (settings.savedBy thread scope).getD []

/-- The values in force in a thread for the settings of a snapshot. -/
def present (settings : Settings) (thread : ThreadId) (snapshot : Snapshot) : Snapshot :=
  snapshot.map fun entry => (entry.1, settings.value thread entry.1)

/-- Gives settings their values from a snapshot in one thread, permitted or not. -/
def put (settings : Settings) (thread : ThreadId) (snapshot : Snapshot) : Settings :=
  { settings with
    assigned := snapshot.foldl (fun table entry => table.insert (entry.1, thread) entry.2)
      settings.assigned }

/-- All values in force are permitted. -/
def Valid (settings : Settings) : Prop :=
  ∀ (thread : ThreadId) (setting : Setting), setting.permit (settings.value thread setting) = .ok ()

section

variable (settings : Settings) (thread : ThreadId)

@[simp]
theorem savedBy_put (snapshot : Snapshot) :
    (settings.put thread snapshot).savedBy = settings.savedBy := rfl

@[simp]
theorem stack_put (snapshot : Snapshot) : (settings.put thread snapshot).stack = settings.stack := rfl

@[simp]
theorem value_setSaved (scope : ScopeId) (stack : List Snapshot) :
    (settings.setSaved thread scope stack).value = settings.value := rfl

theorem savedBy_setSaved (other : ThreadId) (scope queried : ScopeId) (stack : List Snapshot) :
    (settings.setSaved thread scope stack).savedBy other queried =
      if queried = scope ∧ other = thread then some stack else settings.savedBy other queried := by
  simp [savedBy, setSaved]

theorem stack_setSaved (other : ThreadId) (scope queried : ScopeId) (stack : List Snapshot) :
    (settings.setSaved thread scope stack).stack other queried =
      if queried = scope ∧ other = thread then stack else settings.stack other queried := by
  rw [Settings.stack, savedBy_setSaved]
  split <;> rfl

@[simp]
theorem stack_setSaved_own (scope : ScopeId) (stack : List Snapshot) :
    (settings.setSaved thread scope stack).stack thread scope = stack := by
  rw [stack_setSaved, if_pos ⟨rfl, rfl⟩]

theorem stack_setSaved_of_ne {scope other : ScopeId} (apart : other ≠ scope) (stack : List Snapshot) :
    (settings.setSaved thread scope stack).stack thread other = settings.stack thread other := by
  rw [stack_setSaved, if_neg fun both => apart both.1]

theorem value_put (other : ThreadId) (snapshot : Snapshot) (setting : Setting) :
    (settings.put thread snapshot).value other setting =
      if other = thread then snapshot.override setting (settings.value other setting)
      else settings.value other setting := by
  induction snapshot generalizing settings with
  | nil => exact (ite_self _).symm
  | cons entry snapshot ih =>
    change ((settings.put thread [entry]).put thread snapshot).value other setting = _
    have first : (settings.put thread [entry]).value other setting =
        if setting = entry.1 ∧ other = thread then entry.2 else settings.value other setting := by
      simp only [put, List.foldl_cons, List.foldl_nil, value, Table.get?_insert, Prod.mk.injEq]
      split <;> rfl
    rw [ih, first]
    by_cases own : other = thread
    · simp only [own, and_true, if_true, Snapshot.override, List.foldl_cons, eq_comm]
    · simp only [own, and_false, if_false]

@[simp]
theorem value_put_own (snapshot : Snapshot) (setting : Setting) :
    (settings.put thread snapshot).value thread setting =
      snapshot.override setting (settings.value thread setting) := by
  rw [value_put, if_pos rfl]

/-- The present values of a snapshot's settings come back when they are assigned. -/
theorem override_present (snapshot : Snapshot) (setting : Setting) (old : Datum) :
    (settings.present thread snapshot).override setting old =
      if setting ∈ snapshot.settings then settings.value thread setting else old := by
  induction snapshot generalizing old with
  | nil => rfl
  | cons entry snapshot ih =>
    change (settings.present thread snapshot).override setting
      (if entry.1 = setting then settings.value thread entry.1 else old) = _
    rw [ih]
    simp only [Snapshot.settings, List.map_cons, List.mem_cons]
    by_cases later : setting ∈ snapshot.map Prod.fst
    · simp only [later, or_true, if_true]
    · by_cases here : entry.1 = setting
      · subst here
        simp only [true_or, if_true, ite_self]
      · simp only [later, here, Ne.symm here, or_self, if_false]

end

theorem assign_eq (settings : Settings) (thread : ThreadId) (setting : Setting) (value : Datum) :
    settings.assign thread setting value =
      (setting.permit value).map fun _ => settings.put thread [(setting, value)] := by
  unfold assign
  cases setting.permit value <;> rfl

theorem assignAll_append (thread : ThreadId) {before : Snapshot} (permitted : before.Permitted)
    (rest : Snapshot) (settings : Settings) :
    assignAll thread (before ++ rest) settings = assignAll thread rest (settings.put thread before) := by
  induction before generalizing settings with
  | nil => rfl
  | cons entry before ih =>
    obtain ⟨first, others⟩ := List.forall_mem_cons.mp permitted
    rw [List.cons_append, assignAll, assign_eq, first]
    exact ih others _

theorem assignAll_permitted (thread : ThreadId) {snapshot : Snapshot} (permitted : snapshot.Permitted)
    (settings : Settings) :
    assignAll thread snapshot settings = (.ok (), settings.put thread snapshot) := by
  have all := assignAll_append thread permitted [] settings
  rwa [List.append_nil] at all

theorem assignAll_refused (thread : ThreadId) {before : Snapshot} (permitted : before.Permitted)
    {setting : Setting} {value : Datum} {fault : Fault} (refused : setting.permit value = .error fault)
    (rest : Snapshot) (settings : Settings) :
    assignAll thread (before ++ (setting, value) :: rest) settings =
      (.error fault, settings.put thread before) := by
  rw [assignAll_append thread permitted, assignAll, assign_eq, refused]
  rfl

/-- How far an assignment of values in order comes is for the values alone to say. -/
theorem assignAll_uniform (thread : ThreadId) (snapshot : Snapshot) :
    ∃ (result : Except Fault Unit) (before : Snapshot), before.Permitted ∧
      ∀ settings, assignAll thread snapshot settings = (result, settings.put thread before) := by
  rcases snapshot.permitted_or_refused with
    permitted | ⟨before, setting, value, rest, fault, rfl, first, refused⟩
  · exact ⟨_, snapshot, permitted, assignAll_permitted thread permitted⟩
  · exact ⟨_, before, first, assignAll_refused thread first refused rest⟩

theorem assignAll_put (thread : ThreadId) (snapshot : Snapshot) (settings : Settings) :
    ∃ before : Snapshot, before.Permitted ∧
      (assignAll thread snapshot settings).2 = settings.put thread before := by
  obtain ⟨result, before, permitted, assigned⟩ := assignAll_uniform thread snapshot
  exact ⟨before, permitted, by rw [assigned]⟩

theorem permitted_present {settings : Settings} (valid : settings.Valid) (thread : ThreadId)
    (snapshot : Snapshot) : (settings.present thread snapshot).Permitted := by
  intro entry member
  obtain ⟨source, _, rfl⟩ := List.mem_map.mp member
  exact valid thread source.1

theorem resolve_named (snapshot : Snapshot) : resolve snapshot.named = .ok snapshot := by
  induction snapshot with
  | nil => rfl
  | cons entry snapshot ih =>
    have found := (Setting.ofName?_eq_some_iff entry.1 entry.1.name).mpr rfl
    change resolve ((entry.1.name, entry.2) :: Snapshot.named snapshot) = _
    rw [resolve, found]
    change (resolve (Snapshot.named snapshot) >>= fun rest => pure (entry :: rest)) = _
    rw [ih]
    rfl

theorem resolve_unknown {values : List (String × Datum)}
    (unknown : ∃ entry ∈ values, Setting.ofName? entry.1 = none) :
    resolve values = .error .missingPart := by
  induction values with
  | nil => simp at unknown
  | cons entry values ih =>
    rw [resolve]
    cases found : Setting.ofName? entry.1 with
    | none => rfl
    | some setting =>
      have later : ∃ entry ∈ values, Setting.ofName? entry.1 = none := by
        simpa only [List.mem_cons, exists_eq_or_imp, found, reduceCtorEq, false_or] using unknown
      change (resolve values >>= fun rest => pure ((setting, entry.2) :: rest)) = _
      rw [ih later]
      rfl

theorem unknown_or_named (values : List (String × Datum)) :
    (∃ entry ∈ values, Setting.ofName? entry.1 = none) ∨
      ∃ snapshot : Snapshot, values = snapshot.named := by
  induction values with
  | nil => exact .inr ⟨[], rfl⟩
  | cons entry values ih =>
    cases found : Setting.ofName? entry.1 with
    | none => exact .inl ⟨entry, List.mem_cons_self, found⟩
    | some setting =>
      have name := (Setting.ofName?_eq_some_iff setting entry.1).mp found
      rcases ih with ⟨other, member, unknown⟩ | ⟨snapshot, rfl⟩
      · exact .inl ⟨other, List.mem_cons_of_mem _ member, unknown⟩
      · refine .inr ⟨(setting, entry.2) :: snapshot, ?_⟩
        rw [Snapshot.named, Snapshot.named, List.map_cons, ← name]

end Settings

end Clausal
