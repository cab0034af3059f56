/- What every parsed tree promises: exact error flags, and ranges nested in source order. -/
import SyntaxReport.Tree.Node

namespace SyntaxReport.Node

mutual

/-- Whether a node is, or contains, an error or a missing token. -/
def containsFault : Node → Bool
  | .mk l cs => l.isFault || containsFaultAny cs

def containsFaultAny : List Node → Bool
  | [] => false
  | n :: ns => n.containsFault || containsFaultAny ns

end

mutual

/-- The flag `hasFault` is set on exactly the nodes that are, or contain, a fault. -/
def Flagged : Node → Prop
  | .mk l cs => l.hasFault = (l.isFault || containsFaultAny cs) ∧ FlaggedAll cs

def FlaggedAll : List Node → Prop
  | [] => True
  | n :: ns => n.Flagged ∧ FlaggedAll ns

end

mutual

/-- Every node ends no earlier than it starts, and its children lie in it, each behind its
elder siblings. -/
def Nested : Node → Prop
  | .mk l cs => l.start ≤ l.stop ∧ NestedIn l.start l.stop cs

/-- Nested nodes one behind another between two offsets. -/
def NestedIn (start stop : Nat) : List Node → Prop
  | [] => start ≤ stop
  | n :: ns => start ≤ n.label.start ∧ n.Nested ∧ NestedIn n.label.stop stop ns

end

end SyntaxReport.Node
