/- The report on one file. -/
import SyntaxReport.Diagnostic.Form
import SyntaxReport.Duration
import SyntaxReport.FileSystem.FilePath
import SyntaxReport.Outline.Form

namespace SyntaxReport

structure FileReport where
  path : FilePath
  /-- The source has faults, whether or not they are among the diagnostics. -/
  hasFaults : Bool
  diagnostics : List Diagnostic
  outline : Outline
  nodeCount : Nat
  time : Duration
  lineCount : Nat
  byteCount : Nat

namespace FileReport

def keys : List String :=
  ["file_path", "has_errors", "diagnostics", "outline", "node_count", "parse_time",
    "line_count", "byte_count"]

instance : Form FileReport where
  write f := .obj [
    ("file_path", Form.write f.path),
    ("has_errors", Form.write f.hasFaults),
    ("diagnostics", Form.write f.diagnostics),
    ("outline", Form.write f.outline),
    ("node_count", Form.write f.nodeCount),
    ("parse_time", Form.write f.time),
    ("line_count", Form.write f.lineCount),
    ("byte_count", Form.write f.byteCount)]
  read? j := do
    let [path, hasFaults, diagnostics, outline, nodeCount, time, lineCount, byteCount] ←
      Form.fields? keys j | none
    some {
      path := ← Form.required? path
      hasFaults := ← Form.required? hasFaults
      diagnostics := ← Form.required? diagnostics
      outline := ← Form.required? outline
      nodeCount := ← Form.required? nodeCount
      time := ← Form.required? time
      lineCount := ← Form.required? lineCount
      byteCount := ← Form.required? byteCount }
  writable f := Form.writable f.path

end FileReport
end SyntaxReport
