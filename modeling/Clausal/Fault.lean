import Clausal.Datum

namespace Clausal

/-- Why an operation was refused. A value that is to blame is carried as its written form. -/
inductive Fault where
  /-- A variable was to be named by something that is not text. -/
  | nameNotText (shown : String)
  /-- A variable was to have the empty name. -/
  | emptyName
  /-- A node of the given kind was to hold something that is not a formula. -/
  | notFormula (owner shown : String)
  /-- A part of a value that never changes was to be set or removed. -/
  | immutable (owner : String)
  /-- The model says nothing about the name. -/
  | unassigned (name : String)
  /-- A clause was to hold something that is not a literal. -/
  | notLiteral (shown : String)
  /-- A theory was to hold something that is not a clause. -/
  | notClause (shown : String)
  /-- A theory was to be merged into itself. -/
  | selfMerge
  /-- A literal was to be taken from the empty clause. -/
  | emptyClause
  /-- A clause was to be taken from the empty theory. -/
  | emptyTheory
  /-- A clause that should declare a name has not exactly one literal. -/
  | notUnit (shown : String)
  /-- A clause that should declare a name denies it. -/
  | negatedDeclaration (name : String)
  /-- Something that is not a formula was to be brought into clausal form. -/
  | notConvertible (shown : String)
  /-- Variables of the formula look like names that the source may issue. -/
  | clashes (names : List String) (source : String)
  /-- The setting does not permit the value. -/
  | invalidSetting (value setting : String)
  /-- The operation is not defined on a value of this kind. -/
  | unsupported
  /-- A connective was given a number of names other than its arity. -/
  | arity
  /-- The value or the configuration has no part of that name. -/
  | missingPart
  /-- A position lies outside a sequence. -/
  | outOfRange
deriving DecidableEq, Repr

namespace Fault

/-- The sentence that explains a fault; a misuse that needs no explanation has none. -/
def message? : Fault → Option String
  | nameNotText shown => some ("Variable names must be strings, not " ++ shown)
  | emptyName => some "Variable names can't be empty"
  | notFormula owner shown => some (owner ++ " can only contain formulas, not " ++ shown)
  | immutable owner => some (owner ++ " objects are immutable")
  | unassigned name => some ("Model does not contain variable " ++ Text.quoted name)
  | notLiteral shown => some ("Clauses only contain Literal objects, not " ++ shown)
  | notClause shown => some ("Cnf objects only contain Clause objects, not " ++ shown)
  | selfMerge => some "Can't merge a Cnf into itself"
  | emptyClause => some "Can't take a literal from an empty clause"
  | emptyTheory => some "Can't take a clause from an empty Cnf"
  | notUnit shown => some ("Expected a unit declaration clause, got " ++ shown)
  | negatedDeclaration name => some ("Declaration of " ++ Text.quoted name ++ " is negated")
  | notConvertible shown => some ("Can only convert formulas, not " ++ shown)
  | clashes names source =>
    some ("Variables " ++ ", ".intercalate (names.map Text.quoted) ++
      " look like auxiliary variables from " ++ source)
  | invalidSetting value setting =>
    some ("Invalid value " ++ value ++ " for setting " ++ Text.quoted setting)
  | unsupported => none
  | arity => none
  | missingPart => none
  | outOfRange => none

/-- What callers tell faults apart by. -/
inductive Kind where
  /-- Something of a sort that the operation does not take. -/
  | sort
  /-- Something of the right sort that is not permitted. -/
  | value
  /-- A declaration that is none. -/
  | protocol
  /-- A part that is not there. -/
  | part
  /-- A position outside a sequence. -/
  | position
deriving DecidableEq, Repr

/-- The name of a kind. -/
def Kind.name : Kind → String
  | sort => "TypeError"
  | value => "ValueError"
  | protocol => "ProtocolError"
  | part => "AttributeError"
  | position => "IndexError"

/-- The kind of a fault. -/
def kind : Fault → Kind
  | nameNotText _ | notFormula _ _ | immutable _ => .sort
  | notLiteral _ | notClause _ | notConvertible _ | unsupported => .sort
  | emptyName | unassigned _ | selfMerge | clashes _ _ | invalidSetting _ _ | arity => .value
  | emptyClause | emptyTheory | notUnit _ | negatedDeclaration _ => .protocol
  | missingPart => .part
  | outOfRange => .position

end Fault

end Clausal
