/- One file from its path to its report. -/
import SyntaxReport.Diagnostic.Walk
import SyntaxReport.Engine
import SyntaxReport.FileSystem.Basic
import SyntaxReport.Outline.Members
import SyntaxReport.Report.Error
import SyntaxReport.Report.File
import SyntaxReport.Report.Options
import SyntaxReport.Report.Tally

namespace SyntaxReport

/-- What a report depends on besides its options. -/
structure Workspace where
  files : FileSystem
  engine : Engine

namespace Options

/-- The error that stands for all diagnostics: the first of them, or a place at the very start
where none may be listed. -/
def rejection (path : String) (diagnostics : List Diagnostic) : ReportError :=
  match diagnostics with
  | d :: _ => .rejected path d.line d.column d.message
  | [] => .rejected path 1 1 "Syntax error"

def outlineOf (o : Options) (source : Bytes) (tree : Node) : Outline :=
  if o.includeOutline then Outline.ofTree source tree o.includeDocs else ⟨[]⟩

def reportTree (o : Options) (path source : String) (tree : Node) (time : Duration) :
    Except ReportError FileReport :=
  let bytes := bytesOf source
  let diagnostics := Diagnostic.below bytes tree o.maxDiagnostics
  if o.rejectFaults && tree.label.hasFault then .error (rejection path diagnostics)
  else .ok {
    path := .ofText path
    hasFaults := tree.label.hasFault
    diagnostics
    outline := o.outlineOf bytes tree
    nodeCount := tree.size
    time
    lineCount := Text.lineCount source.toList
    byteCount := bytes.length }

def parser (o : Options) : Parser := .new (Parser.limitOf o.timeout)

def reportSource (o : Options) (e : Engine) (source path : String) :
    Except ReportError FileReport :=
  let request : ParseRequest := ⟨source, none⟩
  match (o.parser.parse e request).1 with
  | none => .error (.timedOut path)
  | some tree => o.reportTree path source tree (e.elapsed o.parser request)

/-- The text of a file that is not too large. -/
def readSource (o : Options) (files : FileSystem) (path : String) : Except ReportError String :=
  match files.resolve path with
  | .error cause => .error (.unreadable path cause)
  | .ok found =>
    if o.maxFileSize < found.size then .error (.tooLarge path found.size)
    else match found.text with
      | .error cause => .error (.unreadable path cause)
      | .ok text => .ok (String.ofList text)

end Options

structure Attempt where
  path : String
  result : Except ReportError FileReport
  time : Duration

namespace Attempt

def ofPath (w : Workspace) (o : Options) (path : String) : Attempt :=
  match o.readSource w.files path with
  | .error error => ⟨path, .error error, .zero⟩
  | .ok source =>
    ⟨path, o.reportSource w.engine source path, w.engine.elapsed o.parser ⟨source, none⟩⟩

def tally (a : Attempt) : Tally :=
  match a.result with
  | .ok f => ⟨1, 1, 0, a.time, .ofNat f.nodeCount, .ofNat f.diagnostics.length⟩
  | .error _ => ⟨1, 0, 1, a.time, 0, 0⟩

/-- The report, or the path with the message that says why there is none. -/
def outcome (a : Attempt) : Except (FilePath × String) FileReport :=
  match a.result with
  | .ok f => .ok f
  | .error error => .error (.ofText a.path, error.message)

end Attempt
end SyntaxReport
