/- The parts of a source that an edit has changed. -/
import SyntaxReport.Engine

namespace SyntaxReport

/-- A changed part. Its lines count from one. -/
structure ChangedPart where
  startByte : Nat
  endByte : Nat
  startLine : Nat
  endLine : Nat
deriving DecidableEq, Repr

namespace ChangedPart

def ofTreeRange (r : TreeRange) : ChangedPart where
  startByte := r.startByte
  endByte := r.endByte
  startLine := r.startRow + 1
  endLine := r.endRow + 1

def keys : List String := ["start_byte", "end_byte", "start_line", "end_line"]

instance : Form ChangedPart where
  write r := .obj [
    ("start_byte", Form.write r.startByte),
    ("end_byte", Form.write r.endByte),
    ("start_line", Form.write r.startLine),
    ("end_line", Form.write r.endLine)]
  read? j := do
    let [startByte, endByte, startLine, endLine] ← Form.fields? keys j | none
    some {
      startByte := ← Form.required? startByte
      endByte := ← Form.required? endByte
      startLine := ← Form.required? startLine
      endLine := ← Form.required? endLine }

end ChangedPart
end SyntaxReport
