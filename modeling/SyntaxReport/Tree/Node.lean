/- Syntax trees: labelled nodes over the byte ranges of a source. -/
import SyntaxReport.Text.Position

namespace SyntaxReport

/-- The roles of a child that the reports look at. -/
inductive Field
  | name | body | declarationKind | boundIdentifier
deriving DecidableEq, Repr

structure Label where
  kind : String
  /-- A named node stands for a rule, an anonymous one for a token. -/
  named : Bool
  /-- Text that fits no rule. -/
  error : Bool
  /-- A token put in where one was expected. -/
  missing : Bool
  /-- The node is, or contains, an error or a missing token. -/
  hasFault : Bool
  /-- The role of the node in its parent. -/
  field : Option Field
  /-- The byte offsets at which the node starts and ends. -/
  start : Nat
  stop : Nat
deriving DecidableEq, Repr, Inhabited

def Label.isFault (l : Label) : Bool := l.error || l.missing

inductive Node
  | mk (label : Label) (children : List Node)
deriving Repr, Inhabited

namespace Node

def label : Node → Label
  | .mk l _ => l

def children : Node → List Node
  | .mk _ cs => cs

def kind (n : Node) : String := n.label.kind

def namedChildren (n : Node) : List Node := n.children.filter (·.label.named)

def childrenOf (n : Node) (f : Field) : List Node :=
  n.children.filter (·.label.field = some f)

def childOf? (n : Node) (f : Field) : Option Node :=
  n.children.find? (·.label.field = some f)

/-- The bytes of a node's range. A range that reaches out of the source, which no tree of that
source has, is cut here, where to ask for its text would end the program. -/
def bytes (n : Node) (source : Bytes) : Bytes :=
  (source.drop n.label.start).take (n.label.stop - n.label.start)

/-- The text of a node, if its bytes are one. -/
def text? (n : Node) (source : Bytes) : Option (List Char) := Utf8.decode? (n.bytes source)

/-- The text of a node, empty if its bytes are none. -/
def text (n : Node) (source : Bytes) : List Char := (n.text? source).getD []

def startPosition (n : Node) (source : Bytes) : Position := .ofOffset source n.label.start

def endPosition (n : Node) (source : Bytes) : Position := .ofOffset source n.label.stop

/-- The node reached by child indexes from the top down. -/
def at? (n : Node) : List Nat → Option Node
  | [] => some n
  | i :: path => n.children[i]?.bind fun child => child.at? path

mutual

def size : Node → Nat
  | .mk _ cs => sizeAll cs + 1

def sizeAll : List Node → Nat
  | [] => 0
  | n :: ns => n.size + sizeAll ns

end

theorem size_pos (n : Node) : 0 < n.size := by
  cases n with
  | mk l cs => exact Nat.succ_pos _

theorem sizeAll_children_lt (n : Node) : sizeAll n.children < n.size := by
  cases n with
  | mk l cs => exact Nat.lt_succ_self _

end Node
end SyntaxReport
