/- JSON forms: how values of a type are written, and what is read as one. -/
import SyntaxReport.Json.Parse

namespace SyntaxReport

class Form (α : Type) where
  write : α → Json
  read? : Json → Option α
  /-- Whether all of a value can be written. A path that is no text cannot. -/
  writable : α → Bool := fun _ => true

namespace Form

/-- Numbers are naturals below this bound. -/
def wordBound : Nat := 0x10000000000000000

instance : Form Bool where
  write := .bool
  read?
    | .bool b => some b
    | _ => none

instance : Form Nat where
  write := .nat
  read?
    | .nat n => if n < wordBound then some n else none
    | _ => none

instance : Form UInt64 where
  write n := .nat n.toNat
  read? j := (read? (α := Nat) j).map UInt64.ofNat

instance : Form String where
  write := .str
  read?
    | .str s => some s
    | _ => none

instance {α : Type} [Form α] : Form (Option α) where
  write
    | some a => write a
    | none => .null
  read?
    | .null => some none
    | j => (read? j).map some
  writable o := o.all writable

instance {α : Type} [Form α] : Form (List α) where
  write items := .arr (items.map write)
  read?
    | .arr items => items.mapM read?
    | _ => none
  writable items := items.all writable

instance {α β : Type} [Form α] [Form β] : Form (α × β) where
  write p := .arr [write p.1, write p.2]
  read?
    | .arr [a, b] => do some (← read? a, ← read? b)
    | _ => none
  writable p := writable p.1 && writable p.2

/-- The values of a record's fields in the order of `keys`, `none` for a key left out: an
array of all of them, or an object that has each at most once and may have others. -/
def fields? (keys : List String) : Json → Option (List (Option Json))
  | .arr items => if items.length = keys.length then some (items.map some) else none
  | .obj members =>
    if keys.all fun key => members.countP (·.1 = key) ≤ 1 then
      some (keys.map fun key => (members.find? (·.1 = key)).map Prod.snd)
    else none
  | _ => none

def required? {α : Type} [Form α] (field : Option Json) : Option α := field >>= read?

def optional? {α : Type} [Form α] : Option Json → Option (Option α)
  | some j => read? j
  | none => some none

/-- One of a fixed list of names: the name alone, or as the only key of an object, for null. -/
def variant? {α : Type} (named : String → Option α) : Json → Option α
  | .str name => named name
  | .obj [(name, .null)] => named name
  | _ => none

/-- How deep the written form of a value may be nested that is read from text. -/
def nestingLimit : Nat := 127

/-- The JSON value that is written, unless some part of the value cannot be. -/
def toJson? {α : Type} [Form α] (a : α) : Option Json :=
  if writable a then some (write a) else none

/-- The value read from a JSON value. Of a repeated key the last counts. -/
def ofJson? {α : Type} [Form α] (j : Json) : Option α := read? j.lastWins

/-- The value read from a JSON text. A field must not be repeated. -/
def ofText? {α : Type} [Form α] (text : String) : Option α := do
  let a : α ← Json.parse? text >>= read?
  if (write a).depth ≤ nestingLimit then some a else none

end Form
end SyntaxReport
