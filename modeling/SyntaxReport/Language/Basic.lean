/- Languages: what the engine answers about a grammar, and what is made of its answers. -/
namespace SyntaxReport

/-- A grammar as the engine answers for it. Kinds and fields have numbers of 16 bits. -/
structure Language where
  /-- The version of the table format. -/
  version : Nat
  kindCount : Nat
  /-- The number of the kind with a name, as a rule or as a token. Zero says that there is none. -/
  kindNumber : String → Bool → UInt16
  kindName? : UInt16 → Option String
  /-- A named kind stands for a rule, an anonymous one for a token. -/
  kindNamed : UInt16 → Bool
  kindVisible : UInt16 → Bool
  fieldCount : Nat
  fieldName? : UInt16 → Option String
  fieldNumber? : String → Option UInt16

namespace Language

def name (_ : Language) : String := "swift"

def fileExtensions (_ : Language) : List String := [".swift"]

def numberOf? (l : Language) (name : String) (named : Bool) : Option UInt16 :=
  let number := l.kindNumber name named
  if number = 0 then none else some number

/-- The numbers from `first` on that have 16 bits. -/
def numbers (first count : Nat) : List UInt16 :=
  ((List.range' first count).filter (· < UInt16.size)).map UInt16.ofNat

def ruleNames (l : Language) : List String :=
  let rules := (numbers 0 l.kindCount).filter fun n => l.kindNamed n && l.kindVisible n
  ((rules.filterMap l.kindName?).mergeSort (· ≤ ·)).eraseDups

/-- Fields are numbered from one. -/
def fieldNames (l : Language) : List String := (numbers 1 l.fieldCount).filterMap l.fieldName?

/-- The oldest and newest table format that the engine takes. -/
def oldestVersion : Nat := 13
def newestVersion : Nat := 14

def isSupported (l : Language) : Bool := oldestVersion ≤ l.version && l.version ≤ newestVersion

end Language
end SyntaxReport
