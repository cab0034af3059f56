/- The report on many files. -/
import SyntaxReport.Report.File
import SyntaxReport.Report.Tally

namespace SyntaxReport

structure BatchReport where
  files : List FileReport
  /-- The files without a report, each with the message that says why. -/
  failures : List (FilePath × String)
  time : Duration

namespace BatchReport

def empty : BatchReport := ⟨[], [], .zero⟩

def add (b : BatchReport) : Except (FilePath × String) FileReport → BatchReport
  | .ok f => { b with files := b.files ++ [f], time := b.time + f.time }
  | .error failed => { b with failures := b.failures ++ [failed] }

def ofOutcomes (outcomes : List (Except (FilePath × String) FileReport)) : BatchReport :=
  outcomes.foldl add empty

def size (b : BatchReport) : Nat := b.files.length + b.failures.length

def successShare (b : BatchReport) : Float := share (.ofNat b.files.length) (.ofNat b.size)

def faulty (b : BatchReport) : List FileReport := b.files.filter (·.hasFaults)

def diagnosticCount (b : BatchReport) : Nat := b.files.foldr (·.diagnostics.length + ·) 0

def keys : List String := ["files", "failed_files", "total_parse_time"]

instance : Form BatchReport where
  write b := .obj [
    ("files", Form.write b.files),
    ("failed_files", Form.write b.failures),
    ("total_parse_time", Form.write b.time)]
  read? j := do
    let [files, failures, time] ← Form.fields? keys j | none
    some {
      files := ← Form.required? files
      failures := ← Form.required? failures
      time := ← Form.required? time }
  writable b := Form.writable b.files && Form.writable b.failures

end BatchReport
end SyntaxReport
