/- The parse engine, as far as a report depends on it. -/
import SyntaxReport.Duration
import SyntaxReport.Tree.Node

namespace SyntaxReport

/-- An edit as the engine is told of it: the range that went, and the end of what came. -/
structure TextEdit where
  start : Nat
  oldEnd : Nat
  newEnd : Nat
  startPosition : Position
  oldEndPosition : Position
  newEndPosition : Position
deriving DecidableEq, Repr

/-- A text to parse, and the tree it had before an edit. -/
structure ParseRequest where
  source : String
  earlier : Option (Node × TextEdit)

structure TreeRange where
  startByte : Nat
  endByte : Nat
  startRow : Nat
  endRow : Nat
deriving DecidableEq, Repr

/-- What a parser keeps between two parses. -/
structure Parser where
  /-- The limit of a parse in microseconds, zero for none. -/
  limit : Nat
  /-- The text of a parse that was given up and would be resumed. -/
  interrupted : Option String
deriving DecidableEq, Repr

structure Engine where
  /-- The tree of a text, or `none` where the engine gives up. A parser with an interrupted
  parse may resume that one. -/
  parse : Parser → ParseRequest → Option Node
  /-- The parts of a source whose nodes an edit has changed. -/
  changes : Node → TextEdit → Node → List TreeRange
  /-- The time that a parse takes. -/
  elapsed : Parser → ParseRequest → Duration

namespace Parser

def new (limit : Nat) : Parser := ⟨limit, none⟩

/-- A timeout as a limit, as far as it can be counted. -/
def limitOf (timeout : Option Duration) : Nat :=
  match timeout with
  | none => 0
  | some d => min d.micros (Form.wordBound - 1)

def reset (p : Parser) : Parser := { p with interrupted := none }

def parse (p : Parser) (e : Engine) (r : ParseRequest) : Option Node × Parser :=
  match e.parse p r with
  | some tree => (some tree, p.reset)
  | none => (none, { p with interrupted := some r.source })

end Parser
end SyntaxReport
