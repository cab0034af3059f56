/- The diagnostics of a tree, gathered by a walk that skips what holds no fault. -/
import SyntaxReport.Diagnostic.Basic
import SyntaxReport.Tree.Cursor

namespace SyntaxReport.Diagnostic

/-- Where a walk goes from a node that is no fault: into it only if it contains one. -/
def advance? (c : Cursor) : Option Cursor :=
  if c.node.label.hasFault then c.firstChild? <|> c.skip? else c.skip?

theorem remaining_advance? {c d : Cursor} (h : advance? c = some d) :
    d.remaining < c.remaining := by
  unfold advance? at h
  split at h
  · cases child : c.firstChild? with
    | none => exact Cursor.remaining_skip? (by simpa [child] using h)
    | some e =>
      obtain rfl : e = d := by simpa [child] using h
      exact Cursor.remaining_firstChild? child
  · exact Cursor.remaining_skip? h

/-- Up to `room` diagnostics from a place on. Nothing inside a fault is reported again. -/
def walk (source : Bytes) (room : Nat) (c : Cursor) : List Diagnostic :=
  match room, ofNode? source c.node with
  | 0, _ => []
  | room + 1, some d =>
    d :: match _h : c.skip? with
      | some next => walk source room next
      | none => []
  | room + 1, none =>
    match _h : advance? c with
    | some next => walk source (room + 1) next
    | none => []
termination_by c.remaining
decreasing_by
  · exact Cursor.remaining_skip? _h
  · exact remaining_advance? _h

/-- The first `limit` diagnostics below a root, in source order. -/
def below (source : Bytes) (root : Node) (limit : Nat) : List Diagnostic :=
  if root.label.hasFault then walk source limit (.ofRoot root) else []

end SyntaxReport.Diagnostic
