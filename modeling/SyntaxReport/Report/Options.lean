/- What a report is to hold, and what it may cost. -/
import SyntaxReport.Duration

namespace SyntaxReport

structure Options where
  /-- Larger files are not read. In bytes. -/
  maxFileSize : Nat
  /-- How long the parse of a file may take. -/
  timeout : Option Duration
  /-- Whether a batch is shared among workers, and among how many. -/
  parallel : Bool
  workers : Option Nat
  /-- Whether a faulty source is an error instead of a report with diagnostics. -/
  rejectFaults : Bool
  includeOutline : Bool
  /-- Whether the outline has documentation. -/
  includeDocs : Bool
  maxDiagnostics : Nat
deriving DecidableEq, Repr

namespace Options

def standard : Options where
  maxFileSize := 10 * 1024 * 1024
  timeout := some (.ofSeconds 30)
  parallel := false
  workers := none
  rejectFaults := false
  includeOutline := true
  includeDocs := true
  maxDiagnostics := 100

def brief : Options := { standard with includeOutline := false, includeDocs := false }

/-- As many diagnostics as can be counted. -/
def thorough : Options := { standard with maxDiagnostics := Form.wordBound - 1 }

inductive Change
  | parallel (value : Bool)
  | workers (value : Nat)
  | maxFileSize (value : Nat)
  | timeout (value : Option Duration)
  | rejectFaults (value : Bool)
  | includeOutline (value : Bool)
  | includeDocs (value : Bool)
  | maxDiagnostics (value : Nat)
deriving DecidableEq, Repr

def change (o : Options) : Change → Options
  | .parallel value => { o with parallel := value }
  | .workers value => { o with workers := some value }
  | .maxFileSize value => { o with maxFileSize := value }
  | .timeout value => { o with timeout := value }
  | .rejectFaults value => { o with rejectFaults := value }
  | .includeOutline value => { o with includeOutline := value }
  | .includeDocs value => { o with includeDocs := value }
  | .maxDiagnostics value => { o with maxDiagnostics := value }

def keys : List String :=
  ["max_file_size", "timeout_per_file", "parallel", "parallel_workers", "reject_syntax_errors",
    "include_outline", "include_docs", "max_diagnostics"]

/-- The timeout is written in whole seconds. -/
instance : Form Options where
  write o := .obj [
    ("max_file_size", Form.write o.maxFileSize),
    ("timeout_per_file", Form.write (o.timeout.map Duration.seconds)),
    ("parallel", Form.write o.parallel),
    ("parallel_workers", Form.write o.workers),
    ("reject_syntax_errors", Form.write o.rejectFaults),
    ("include_outline", Form.write o.includeOutline),
    ("include_docs", Form.write o.includeDocs),
    ("max_diagnostics", Form.write o.maxDiagnostics)]
  read? j := do
    let [maxFileSize, timeout, parallel, workers, rejectFaults, includeOutline, includeDocs,
        maxDiagnostics] ← Form.fields? keys j | none
    let seconds : Option Nat ← Form.required? timeout
    some {
      maxFileSize := ← Form.required? maxFileSize
      timeout := seconds.map Duration.ofSeconds
      parallel := ← Form.required? parallel
      workers := ← Form.optional? workers
      rejectFaults := ← Form.required? rejectFaults
      includeOutline := ← Form.required? includeOutline
      includeDocs := ← Form.required? includeDocs
      maxDiagnostics := ← Form.required? maxDiagnostics }

/-- Whether options are read back from their JSON form as they were. -/
def roundTrips (o : Options) : Bool := Form.read? (Form.write o) = some o

end Options
end SyntaxReport
