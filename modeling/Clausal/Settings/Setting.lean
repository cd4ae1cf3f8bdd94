import Clausal.Fault

namespace Clausal

/-- What a thread can set for the operations that it runs. -/
inductive Setting where
  /-- The stem of names drawn from sources without a stem of their own. -/
  | stem
  /-- Whether formulas with variables that look like new names are refused. -/
  | check
deriving DecidableEq, Repr

namespace Setting

/-- The name under which a setting is known to callers. -/
def name : Setting → String
  | stem => "aux_prefix"
  | check => "check_collisions"

/-- The setting of a given name. -/
def ofName? (name : String) : Option Setting :=
  if name = stem.name then some stem
  else if name = check.name then some check
  else none

/-- The value that holds in a thread that has set nothing. -/
def initial : Setting → Datum
  | stem => .text "_x"
  | check => .bool false

/-- A stem is text that is not empty. The check is on or off, where one and nought are as good as
true and false; a value that cannot even be looked up is refused without a word. -/
def permit : Setting → Datum → Except Fault Unit
  | stem, .text s => if s = "" then refuse .stem (.text s) else .ok ()
  | stem, value => refuse .stem value
  | check, value =>
    if !value.isKey then .error .unsupported
    else if value.same (.bool true) || value.same (.bool false) then .ok ()
    else refuse .check value
where
  /-- The fault of a value that a setting does not permit. -/
  refuse (setting : Setting) (value : Datum) : Except Fault Unit :=
    .error (.invalidSetting value.code setting.name)

theorem ofName?_eq_some_iff (s : Setting) (name : String) :
    ofName? name = some s ↔ name = s.name := by
  constructor
  · intro found
    unfold ofName? at found
    split at found
    · cases found; assumption
    · split at found <;> cases found
      assumption
  · rintro rfl
    cases s <;> rfl

end Setting

end Clausal
