/- Counts and times over many files. -/
import SyntaxReport.Duration

namespace SyntaxReport

/-- A part as a share of the whole. Of nothing, the share is zero. -/
def share (part whole : UInt64) : Float :=
  if whole = 0 then 0.0 else part.toFloat / whole.toFloat

/-- The counters wrap around. -/
structure Tally where
  attempted : UInt64
  succeeded : UInt64
  failed : UInt64
  time : Duration
  nodes : UInt64
  diagnostics : UInt64
deriving DecidableEq, Repr

namespace Tally

def zero : Tally := ⟨0, 0, 0, .zero, 0, 0⟩

def add (a b : Tally) : Tally where
  attempted := a.attempted + b.attempted
  succeeded := a.succeeded + b.succeeded
  failed := a.failed + b.failed
  time := a.time + b.time
  nodes := a.nodes + b.nodes
  diagnostics := a.diagnostics + b.diagnostics

instance : Add Tally := ⟨add⟩

def successShare (t : Tally) : Float := share t.succeeded t.attempted

inductive MeanError
  /-- The time is split by a count of 32 bits, and those of the count of successes are zero. -/
  | divisionByZero
deriving DecidableEq, Repr

def MeanError.message : MeanError → String
  | .divisionByZero => "divide by zero error when dividing duration by scalar"

/-- The time per success, and zero if there is none. The split is by the lower 32 bits of the
count. -/
def meanTime (t : Tally) : Except MeanError Duration :=
  if t.succeeded = 0 then .ok .zero
  else match t.time.div? t.succeeded.toUInt32 with
    | some d => .ok d
    | none => .error .divisionByZero

inductive Step
  | set (value : Tally)
  | add (other : Tally)
  /-- Adds the tally to itself. -/
  | double
  | reset
deriving DecidableEq, Repr

def apply (t : Tally) : Step → Tally
  | .set value => value
  | .add other => t + other
  | .double => t + t
  | .reset => zero

def keys : List String :=
  ["files_attempted", "files_succeeded", "files_failed", "total_parse_time", "total_nodes",
    "total_diagnostics"]

instance : Form Tally where
  write t := .obj [
    ("files_attempted", Form.write t.attempted),
    ("files_succeeded", Form.write t.succeeded),
    ("files_failed", Form.write t.failed),
    ("total_parse_time", Form.write t.time),
    ("total_nodes", Form.write t.nodes),
    ("total_diagnostics", Form.write t.diagnostics)]
  read? j := do
    let [attempted, succeeded, failed, time, nodes, diagnostics] ← Form.fields? keys j | none
    some {
      attempted := ← Form.required? attempted
      succeeded := ← Form.required? succeeded
      failed := ← Form.required? failed
      time := ← Form.required? time
      nodes := ← Form.required? nodes
      diagnostics := ← Form.required? diagnostics }

end Tally
end SyntaxReport
