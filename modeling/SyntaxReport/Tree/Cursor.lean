/- A place in a tree from which a walk goes on: down, to the next sibling, or up. -/
import SyntaxReport.Tree.Node

namespace SyntaxReport

/-- A node, its younger siblings, and those of each ancestor, nearest first. The root of the
walk has neither, so no walk leaves it. -/
structure Cursor where
  node : Node
  younger : List Node
  above : List (List Node)

namespace Cursor

def ofRoot (root : Node) : Cursor := ⟨root, [], []⟩

def firstChild? (c : Cursor) : Option Cursor :=
  match c.node.children with
  | [] => none
  | n :: ns => some ⟨n, ns, c.younger :: c.above⟩

/-- The next sibling, or else that of the nearest ancestor that has one. -/
def climb? : List Node → List (List Node) → Option Cursor
  | n :: ns, above => some ⟨n, ns, above⟩
  | [], [] => none
  | [], ns :: above => climb? ns above

/-- The first place behind the node and all its descendants. -/
def skip? (c : Cursor) : Option Cursor := climb? c.younger c.above

def sizeOfRows : List (List Node) → Nat
  | [] => 0
  | row :: rows => Node.sizeAll row + sizeOfRows rows

/-- The number of nodes still to come, the current one included. -/
def remaining (c : Cursor) : Nat :=
  c.node.size + Node.sizeAll c.younger + sizeOfRows c.above

theorem remaining_climb? {younger : List Node} {above : List (List Node)} {c : Cursor}
    (h : climb? younger above = some c) :
    c.remaining = Node.sizeAll younger + sizeOfRows above := by
  induction above generalizing younger with
  | nil =>
    cases younger with
    | nil => simp [climb?] at h
    | cons n ns =>
      obtain rfl : _ = c := by simpa [climb?] using h
      simp [remaining, Node.sizeAll]
  | cons ns above ih =>
    cases younger with
    | nil => simpa [Node.sizeAll, sizeOfRows] using ih (by simpa [climb?] using h)
    | cons n ns =>
      obtain rfl : _ = c := by simpa [climb?] using h
      simp [remaining, Node.sizeAll]

theorem remaining_skip? {c d : Cursor} (h : c.skip? = some d) : d.remaining < c.remaining := by
  have same := remaining_climb? h
  have pos := c.node.size_pos
  simp only [remaining] at same ⊢
  omega

theorem remaining_firstChild? {c d : Cursor} (h : c.firstChild? = some d) :
    d.remaining < c.remaining := by
  have less := c.node.sizeAll_children_lt
  unfold firstChild? at h
  split at h
  · contradiction
  · next n ns children =>
    obtain rfl : _ = d := by simpa using h
    rw [children] at less
    simp only [remaining, Node.sizeAll, sizeOfRows] at less ⊢
    omega

end Cursor
end SyntaxReport
