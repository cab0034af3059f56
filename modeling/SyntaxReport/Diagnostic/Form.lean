/- The JSON form of diagnostics. -/
import SyntaxReport.Diagnostic.Basic
import SyntaxReport.Json.Form

namespace SyntaxReport

def DiagnosticKind.name : DiagnosticKind → String
  | .unexpected => "Unexpected"
  | .missing => "Missing"

def DiagnosticKind.ofName? (name : String) : Option DiagnosticKind :=
  [.unexpected, .missing].find? fun kind : DiagnosticKind => kind.name = name

instance : Form DiagnosticKind where
  write kind := .str kind.name
  read? := Form.variant? DiagnosticKind.ofName?

def Diagnostic.keys : List String :=
  ["kind", "message", "line", "column", "end_line", "end_column", "start_byte", "end_byte"]

instance : Form Diagnostic where
  write d := .obj [
    ("kind", Form.write d.kind),
    ("message", Form.write d.message),
    ("line", Form.write d.line),
    ("column", Form.write d.column),
    ("end_line", Form.write d.endLine),
    ("end_column", Form.write d.endColumn),
    ("start_byte", Form.write d.startByte),
    ("end_byte", Form.write d.endByte)]
  read? j := do
    let [kind, message, line, column, endLine, endColumn, startByte, endByte] ←
      Form.fields? Diagnostic.keys j | none
    some {
      kind := ← Form.required? kind
      message := ← Form.required? message
      line := ← Form.required? line
      column := ← Form.required? column
      endLine := ← Form.required? endLine
      endColumn := ← Form.required? endColumn
      startByte := ← Form.required? startByte
      endByte := ← Form.required? endByte }

end SyntaxReport
