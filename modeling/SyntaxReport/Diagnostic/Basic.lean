/- Diagnostics: what is wrong with a source, and where. -/
import SyntaxReport.Tree.Node
import SyntaxReport.Text.Blank
import SyntaxReport.Text.Line

namespace SyntaxReport

inductive DiagnosticKind
  /-- Text that fits no rule. -/
  | unexpected
  /-- A token put in where one was expected. -/
  | missing
deriving DecidableEq, Repr

/-- A problem and its range. Lines and columns count from one, columns in bytes. -/
structure Diagnostic where
  kind : DiagnosticKind
  message : String
  line : Nat
  column : Nat
  endLine : Nat
  endColumn : Nat
  startByte : Nat
  endByte : Nat
deriving DecidableEq, Repr

namespace Diagnostic

def excerptLength : Nat := 40

def shorten (line : List Char) : List Char :=
  if excerptLength < line.length then line.take excerptLength ++ ['.', '.', '.'] else line

/-- The first line of a node's text that is not blank, trimmed and shortened. -/
def excerpt? (source : Bytes) (n : Node) : Option (List Char) := do
  let text ← n.text? source
  let line ← ((Text.lines text).map Text.trim).find? (!·.isEmpty)
  some (shorten line)

def unexpectedMessage (source : Bytes) (n : Node) : String :=
  match excerpt? source n with
  | some text => "unexpected `" ++ String.ofList text ++ "`"
  | none => "unexpected syntax"

def missingMessage (n : Node) : String := "missing `" ++ n.kind ++ "`"

def ofRange (source : Bytes) (n : Node) (kind : DiagnosticKind) (message : String) :
    Diagnostic where
  kind
  message
  line := (n.startPosition source).row + 1
  column := (n.startPosition source).column + 1
  endLine := (n.endPosition source).row + 1
  endColumn := (n.endPosition source).column + 1
  startByte := n.label.start
  endByte := n.label.stop

/-- The diagnostic of a node that is a fault itself. One that is both a missing token and an
error counts as missing. -/
def ofNode? (source : Bytes) (n : Node) : Option Diagnostic :=
  if n.label.missing then some (ofRange source n .missing (missingMessage n))
  else if n.label.error then some (ofRange source n .unexpected (unexpectedMessage source n))
  else none

end Diagnostic
end SyntaxReport
