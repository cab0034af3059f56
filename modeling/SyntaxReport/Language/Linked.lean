/- Taking a grammar into use, and the units of a program that have to share it. -/
import SyntaxReport.Language.Basic
import SyntaxReport.Language.Error

namespace SyntaxReport

/-- A grammar that is there and has a table format that the engine takes. -/
def Language.admit (found : Option Language) : Except LanguageError Language :=
  match found with
  | none => .error .absent
  | some l =>
    if l.isSupported then .ok l
    else .error (.unsupported l.version oldestVersion newestVersion)

/-- Where the program itself and its units in C and in C++ find the grammar. Zero is nowhere. -/
structure LinkedUnits where
  own : Nat
  inC : Nat
  inCpp : Nat
deriving DecidableEq, Repr

namespace LinkedUnits

/-- The units in C and in C++ share their grammar. -/
def agree (u : LinkedUnits) : Bool := u.inC = u.inCpp

/-- Finds the first unit that has not the grammar that the program itself has. -/
def check (u : LinkedUnits) : Except LanguageError Unit :=
  if u.own = 0 then .error .absent
  else match [("C", u.inC), ("C++", u.inCpp)].find? (·.2 ≠ u.own) with
  | some (unit, _) => .error (.mismatch unit)
  | none => .ok ()

end LinkedUnits
end SyntaxReport
