/- Buffers: a source under edit together with its tree. -/
import SyntaxReport.Buffer.ChangedPart
import SyntaxReport.Diagnostic.Walk
import SyntaxReport.Outline.Members
import SyntaxReport.Report.Error
import SyntaxReport.Text.Splice

namespace SyntaxReport

/-- The description of an edit that puts `added` into a cut. -/
def TextEdit.ofCut (cut : Text.Cut) (added : List Char) : TextEdit :=
  let old := Utf8.encode (cut.fill cut.removed)
  let new := Utf8.encode (cut.fill added)
  let start := Text.width cut.before
  let oldEnd := start + Text.width cut.removed
  let newEnd := start + Text.width added
  { start
    oldEnd
    newEnd
    startPosition := .ofOffset old start
    oldEndPosition := .ofOffset old oldEnd
    newEndPosition := .ofOffset new newEnd }

structure Buffer where
  path : String
  source : String
  tree : Node
  parser : Parser

namespace Buffer

/-- A buffer with the source it starts from. Its first parse has no limit. -/
def ofSource (e : Engine) (path source : String) : Except ReportError Buffer :=
  match (Parser.new 0).parse e ⟨source, none⟩ with
  | (some tree, parser) => .ok { path, source, tree, parser }
  | (none, _) => .error (.unparsed path "Failed to parse")

/-- Why a parse was given up: for its limit, if it has one. -/
def gaveUp (b : Buffer) (reason : String) : ReportError :=
  if 0 < b.parser.limit then .timedOut b.path else .unparsed b.path reason

/-- Parses `source` and takes it over with its tree. If the engine gives up, the buffer stays
as it was, with nothing to resume. -/
def reparse (b : Buffer) (e : Engine) (source : String) (earlier : Option (Node × TextEdit)) :
    Option Node × Buffer :=
  match b.parser.parse e ⟨source, earlier⟩ with
  | (some tree, parser) => (some tree, { b with source, tree, parser })
  | (none, parser) => (none, { b with parser := parser.reset })

/-- Puts `added` in place of the bytes from `start` to `oldEnd`, and gives the changed parts. -/
def splice (b : Buffer) (e : Engine) (start oldEnd : Nat) (added : String) :
    Except ReportError (List ChangedPart) × Buffer :=
  match Text.Cut.at? b.source.toList start oldEnd with
  | none => (.error (.invalidEdit start oldEnd (Text.width b.source.toList)), b)
  | some cut =>
    let change := TextEdit.ofCut cut added.toList
    match b.reparse e (String.ofList (cut.fill added.toList)) (some (b.tree, change)) with
    | (some tree, after) =>
      (.ok ((e.changes b.tree change tree).map ChangedPart.ofTreeRange), after)
    | (none, after) => (.error (b.gaveUp "Failed to reparse"), after)

def replaceAll (b : Buffer) (e : Engine) (source : String) :
    Except ReportError Unit × Buffer :=
  match b.reparse e source none with
  | (some _, after) => (.ok (), after)
  | (none, after) => (.error (b.gaveUp "Failed to parse"), after)

def limitTime (b : Buffer) (timeout : Option Duration) : Buffer :=
  { b with parser := { b.parser with limit := Parser.limitOf timeout } }

def hasFaults (b : Buffer) : Bool := b.tree.label.hasFault

def diagnostics (b : Buffer) (limit : Nat) : List Diagnostic :=
  Diagnostic.below (bytesOf b.source) b.tree limit

def outline (b : Buffer) (docs : Bool) : Outline :=
  Outline.ofTree (bytesOf b.source) b.tree docs

end Buffer
end SyntaxReport
