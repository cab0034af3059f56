/- JSON values, as far as the reports use them. -/
namespace SyntaxReport

inductive Json
  | null
  | bool (value : Bool)
  | nat (value : Nat)
  | str (value : String)
  /-- Any other well-formed value: a number that is no natural, or text that no string holds.
  No record has a place for one, so nothing more of it is kept. -/
  | foreign
  | arr (items : List Json)
  | obj (members : List (String × Json))
deriving Repr, BEq, Inhabited

namespace Json

mutual

/-- How deep arrays and objects are nested. An empty one counts. -/
def depth : Json → Nat
  | .arr items => depthOfItems items + 1
  | .obj members => depthOfMembers members + 1
  | _ => 0

def depthOfItems : List Json → Nat
  | [] => 0
  | j :: rest => max j.depth (depthOfItems rest)

def depthOfMembers : List (String × Json) → Nat
  | [] => 0
  | (_, j) :: rest => max j.depth (depthOfMembers rest)

end

mutual

/-- The value in which an object has each key once, with the last value given for it. -/
def lastWins : Json → Json
  | .arr items => .arr (lastWinsItems items)
  | .obj members => .obj (lastWinsMembers members)
  | j => j

def lastWinsItems : List Json → List Json
  | [] => []
  | j :: rest => j.lastWins :: lastWinsItems rest

def lastWinsMembers : List (String × Json) → List (String × Json)
  | [] => []
  | (key, j) :: rest =>
    let later := lastWinsMembers rest
    if later.any (·.1 = key) then later else (key, j.lastWins) :: later

end

end Json
end SyntaxReport
