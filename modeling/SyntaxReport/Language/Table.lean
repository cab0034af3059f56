/- Tables of node kinds, and an engine that answers by them. -/
import SyntaxReport.Language.Basic

namespace SyntaxReport

/-- A row of a grammar's table of node kinds. -/
structure NodeKind where
  name : String
  named : Bool
  /-- Rows that are not visible are found by no name. -/
  visible : Bool
  /-- The row whose number is given for this one, if it is not its own. -/
  other : Option Nat
deriving DecidableEq, Repr

namespace NodeKind

def rule (name : String) : NodeKind := ⟨name, true, true, none⟩

def otherRule (name : String) (other : Nat) : NodeKind := ⟨name, true, true, some other⟩

def token (name : String) : NodeKind := ⟨name, false, true, none⟩

def hidden (name : String) : NodeKind := ⟨name, false, false, none⟩

/-- The row is one that answers for this name. -/
def answers (k : NodeKind) (name : String) (named : Bool) : Bool :=
  k.visible && k.name = name && k.named = named

end NodeKind

namespace Language

/-- The number of the kind that marks unplaced text. -/
def errorNumber : UInt16 := 65535

/-- The number of the kind that marks unplaced text inside a repetition. -/
def innerErrorNumber : UInt16 := 65534

def errorName : String := "ERROR"

/-- The number given for the first row that answers, zero if there is none. -/
def rowNumber (kinds : List NodeKind) (name : String) (named : Bool) : Nat :=
  match kinds.findIdx? (·.answers name named) with
  | some row => (kinds[row]?.bind (·.other)).getD row
  | none => 0

/-- Names are compared with the error kind's over their own length, or up to a null character. -/
def comparesAsError (name : String) : Bool :=
  name.toList.isPrefixOf errorName.toList || (errorName.toList ++ ['\x00']).isPrefixOf name.toList

/-- The two kinds of errors belong to every language, behind all rows. -/
def ofTables (version : Nat) (kinds : List NodeKind) (fields : List String) : Language where
  version
  kindCount := kinds.length
  kindNumber name named :=
    if comparesAsError name then errorNumber else .ofNat (rowNumber kinds name named)
  kindName? number :=
    if number = errorNumber then some errorName
    else if number = innerErrorNumber then some ("_" ++ errorName)
    else (kinds[number.toNat]?).map (·.name)
  kindNamed number :=
    if number = errorNumber then true
    else if number = innerErrorNumber then false
    else (kinds[number.toNat]?).any (·.named)
  kindVisible number := (kinds[number.toNat]?).any (·.visible)
  fieldCount := fields.length
  fieldName? number := if number = 0 then none else fields[number.toNat - 1]?
  fieldNumber? name := (fields.findIdx? (· = name)).map fun row => .ofNat (row + 1)

end Language
end SyntaxReport
