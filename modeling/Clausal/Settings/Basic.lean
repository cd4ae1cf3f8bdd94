import Clausal.Settings.Setting
import Clausal.Table

namespace Clausal

/-- A thread. The first one is there from the start. -/
structure ThreadId where
  index : Nat
deriving DecidableEq, Repr

/-- The place of a scope, which is a list of settings that can be put in force and taken back. -/
structure ScopeId where
  index : Nat
deriving DecidableEq, Repr

/-- Values of settings as they were at some moment, to be brought back later. -/
abbrev Snapshot := List (Setting × Datum)

/-- The settings of all threads. Every setting has a value for each thread that assigned it, and
every scope has, for each thread that entered it, the values to be brought back, latest entry
first. -/
structure Settings where
  assigned : Table (Setting × ThreadId) Datum := ⟨[]⟩
  saved : Table (ScopeId × ThreadId) (List Snapshot) := ⟨[]⟩

namespace Settings

/-- The name by which the settings as a whole go among the names of single settings. -/
def ownName : String := "self"

/-- The value of a setting in a thread. -/
def value (settings : Settings) (thread : ThreadId) (setting : Setting) : Datum :=
  (settings.assigned.get? (setting, thread)).getD setting.initial

/-- Gives a setting a value in one thread, if it permits the value. -/
def assign (settings : Settings) (thread : ThreadId) (setting : Setting) (value : Datum) :
    Except Fault Settings := do
  setting.permit value
  return { settings with assigned := settings.assigned.insert (setting, thread) value }

theorem value_assign {settings after : Settings} {thread : ThreadId} {setting : Setting}
    {value : Datum} (done : settings.assign thread setting value = .ok after)
    (other : ThreadId) (queried : Setting) :
    after.value other queried =
      if queried = setting ∧ other = thread then value else settings.value other queried := by
  unfold assign at done
  cases permitted : setting.permit value with
  | error fault =>
    rw [permitted] at done
    cases done
  | ok _ =>
    rw [permitted] at done
    cases done
    simp only [Settings.value, Table.get?_insert, Prod.mk.injEq]
    split <;> rfl

/-- Assigns values in order up to the first that is refused. Those before it stay assigned. -/
def assignAll (thread : ThreadId) : Snapshot → Settings → Except Fault Unit × Settings
  | [], settings => (.ok (), settings)
  | (setting, value) :: rest, settings =>
    match settings.assign thread setting value with
    | .error fault => (.error fault, settings)
    | .ok settings => assignAll thread rest settings

/-- The settings that names stand for, up to the first name that stands for none. -/
def resolve : List (String × Datum) → Except Fault Snapshot
  | [] => .ok []
  | (name, value) :: rest =>
    match Setting.ofName? name with
    | none => .error .missingPart
    | some setting => do
      let rest ← resolve rest
      return (setting, value) :: rest

/-- What a thread has to bring back when it leaves a scope; nothing is known of a scope that it
never entered. -/
def savedBy (settings : Settings) (thread : ThreadId) (scope : ScopeId) : Option (List Snapshot) :=
  settings.saved.get? (scope, thread)

/-- Replaces what a thread has to bring back when it leaves a scope. -/
def setSaved (settings : Settings) (thread : ThreadId) (scope : ScopeId) (stack : List Snapshot) :
    Settings :=
  { settings with saved := settings.saved.insert (scope, thread) stack }

/-- Puts the values of a scope in force for one thread, after the present ones were saved. A name
that stands for no setting is refused before anything is saved; a value that is refused leaves the
saved values and the assignments before it in place. -/
def enter (settings : Settings) (thread : ThreadId) (scope : ScopeId)
    (values : List (String × Datum)) : Except Fault Unit × Settings :=
  let stack := (settings.savedBy thread scope).getD []
  match resolve values with
  | .error fault => (.error fault, settings.setSaved thread scope stack)
  | .ok values =>
    let present := values.map fun entry => (entry.1, settings.value thread entry.1)
    assignAll thread values (settings.setSaved thread scope (present :: stack))

/-- Brings back the values that the thread saved when it last entered the scope. -/
def leave (settings : Settings) (thread : ThreadId) (scope : ScopeId) :
    Except Fault Unit × Settings :=
  match settings.savedBy thread scope with
  | none => (.error .missingPart, settings)
  | some [] => (.error .outOfRange, settings)
  | some (present :: stack) => assignAll thread present (settings.setSaved thread scope stack)

/-- The stem in force in a thread. -/
def stem (settings : Settings) (thread : ThreadId) : String :=
  match settings.value thread .stem with
  | .text s => s
  | _ => ""

/-- Whether a thread asks for the check of variables against new names. -/
def check (settings : Settings) (thread : ThreadId) : Bool :=
  (settings.value thread .check).truthy

/-- What a thread can do to its settings. -/
inductive Action where
  | assign (setting : String) (value : Datum)
  | read (setting : String)
  | enter (scope : ScopeId) (values : List (String × Datum))
  | leave (scope : ScopeId)

/-- Lets a thread do something to its settings. Only reading has an answer. -/
def perform (settings : Settings) (thread : ThreadId) : Action → Except Fault Datum × Settings
  | .assign name value =>
    match Setting.ofName? name with
    | none => (.error .missingPart, settings)
    | some setting =>
      match settings.assign thread setting value with
      | .error fault => (.error fault, settings)
      | .ok settings => (.ok .null, settings)
  | .read name =>
    match Setting.ofName? name with
    | none => (.error .missingPart, settings)
    | some setting => (.ok (settings.value thread setting), settings)
  | .enter scope values =>
    let (result, settings) := settings.enter thread scope values
    (result.map fun _ => .null, settings)
  | .leave scope =>
    let (result, settings) := settings.leave thread scope
    (result.map fun _ => .null, settings)

end Settings

end Clausal
