/- Spans of time, in whole nanoseconds. -/
import SyntaxReport.Json.Form

namespace SyntaxReport

structure Duration where
  nanos : Nat
deriving DecidableEq, Repr, Inhabited

namespace Duration

def zero : Duration := ⟨0⟩

def ofSeconds (n : Nat) : Duration := ⟨n * 1000000000⟩

def ofMicros (n : Nat) : Duration := ⟨n * 1000⟩

def seconds (d : Duration) : Nat := d.nanos / 1000000000

def subsecNanos (d : Duration) : Nat := d.nanos % 1000000000

def micros (d : Duration) : Nat := d.nanos / 1000

instance : Add Duration := ⟨fun a b => ⟨a.nanos + b.nanos⟩⟩

/-- A span split into `n` equal parts, rounded down. There is no split into none. -/
def div? (d : Duration) (n : UInt32) : Option Duration :=
  if n = 0 then none else some ⟨d.nanos / n.toNat⟩

end Duration

/-- The nanoseconds, or the largest number that can be written. -/
instance : Form Duration where
  write d := .nat (min d.nanos (Form.wordBound - 1))
  read? j := (Form.read? (α := Nat) j).map Duration.mk

end SyntaxReport
