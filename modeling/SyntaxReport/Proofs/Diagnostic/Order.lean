/- Diagnostics lie in the node that they are gathered below, one behind another. -/
import SyntaxReport.Proofs.Diagnostic.Walk
import SyntaxReport.Proofs.Text.Order
import SyntaxReport.Proofs.Tree.Nested

namespace SyntaxReport

open Node (NestedIn)

namespace Cursor

theorem nestedIn_skip? {lo hi : Nat} {c d : Cursor} (nested : NestedIn lo hi c.ahead)
    (h : c.skip? = some d) : NestedIn c.node.label.stop hi d.ahead := by
  rw [ahead_of_skip? h]
  exact nested.2.2

/-- What lies below a node stands in front of what lies behind it. -/
theorem nestedIn_firstChild? {lo hi : Nat} {c d : Cursor} (nested : NestedIn lo hi c.ahead)
    (h : c.firstChild? = some d) : NestedIn lo hi d.ahead := by
  obtain ⟨opens, inner, later⟩ := nested
  rw [ahead_of_firstChild? h]
  exact ((Node.nested_iff.mp inner).2.append later).of_le opens

theorem nestedIn_advance? {lo hi : Nat} {c d : Cursor} (nested : NestedIn lo hi c.ahead)
    (h : Diagnostic.advance? c = some d) : NestedIn lo hi d.ahead := by
  rcases Diagnostic.advance?_cases h with child | skipped
  · exact nestedIn_firstChild? nested child
  · rw [ahead_of_skip? skipped]
    exact nested.tail

end Cursor

namespace Diagnostic

/-- Whatever the flags say, the walk reports nodes that lie one behind another in the range that
is still ahead. -/
theorem exists_nestedIn_walk {source : Bytes} {room lo hi : Nat} {c : Cursor}
    (nested : NestedIn lo hi c.ahead) :
    ∃ ns, walk source room c = ns.map (ofFault source) ∧ NestedIn lo hi ns := by
  -- a report moves the start of the range behind its node, any other step leaves the range
  induction room, c using walk.induct source generalizing lo with
  | case1 c => exact ⟨[], by rw [walk]; rfl, nested.le⟩
  | case2 c room d reported ih =>
    have fault := isFault_of_reported reported
    rw [walk_of_fault fault]
    cases next : c.skip? with
    | none => exact ⟨[c.node], rfl, nested.1, nested.2.1, nested.2.2.le⟩
    | some e =>
      obtain ⟨ns, same, later⟩ := ih e next (Cursor.nestedIn_skip? nested next)
      refine ⟨c.node :: ns, ?_, nested.1, nested.2.1, later⟩
      rw [Option.elim_some, same, List.map_cons]
  | case3 c room passed next h ih =>
    have clear := not_isFault_of_passed passed
    rw [walk_of_clear clear, h]
    exact ih (Cursor.nestedIn_advance? nested h)
  | case4 c room passed h =>
    have clear := not_isFault_of_passed passed
    rw [walk_of_clear clear, h]
    exact ⟨[], rfl, nested.le⟩

theorem exists_nestedIn_below {root : Node} (nested : root.Nested) (source : Bytes)
    (limit : Nat) : ∃ ns, below source root limit = ns.map (ofFault source) ∧
      NestedIn root.label.start root.label.stop ns := by
  unfold below
  split
  · exact exists_nestedIn_walk (c := .ofRoot root) ⟨Nat.le_refl _, nested, Nat.le_refl _⟩
  · exact ⟨[], rfl, (Node.nested_iff.mp nested).1⟩

/-- The line and the column at which a diagnostic starts. -/
def opening (d : Diagnostic) : Position := ⟨d.line, d.column⟩

/-- The line and the column at which it ends. -/
def closing (d : Diagnostic) : Position := ⟨d.endLine, d.endColumn⟩

/-- A diagnostic within the range of a node. -/
structure LiesIn (d : Diagnostic) (root : Node) : Prop where
  opens : root.label.start ≤ d.startByte
  ordered : d.startByte ≤ d.endByte
  closes : d.endByte ≤ root.label.stop
  positions : d.opening ≤ d.closing
  counted : 1 ≤ d.line ∧ 1 ≤ d.column ∧ 1 ≤ d.endLine ∧ 1 ≤ d.endColumn

/-- A diagnostic that ends before another one starts. -/
structure EndsBefore (d e : Diagnostic) : Prop where
  bytes : d.endByte ≤ e.startByte
  positions : d.closing ≤ e.opening

/-- Positions counted from one are in the order of their offsets. -/
theorem counted_le (source : Bytes) {i j : Nat} (le : i ≤ j) :
    (⟨(Position.ofOffset source i).row + 1, (Position.ofOffset source i).column + 1⟩ : Position) ≤
      ⟨(Position.ofOffset source j).row + 1, (Position.ofOffset source j).column + 1⟩ := by
  have order := Position.monotone_ofOffset source le
  rw [Position.le_iff] at order ⊢
  dsimp only
  omega

theorem liesIn_ofFault {source : Bytes} {n root : Node} (nested : n.Nested)
    (opens : root.label.start ≤ n.label.start) (closes : n.label.stop ≤ root.label.stop) :
    (ofFault source n).LiesIn root := by
  obtain ⟨kind, message, same⟩ := exists_ofRange source n
  have ordered := (Node.nested_iff.mp nested).1
  rw [same]
  exact ⟨opens, ordered, closes, counted_le source ordered, by simp [ofRange]⟩

theorem endsBefore_ofFault {source : Bytes} {m n : Node} (le : m.label.stop ≤ n.label.start) :
    (ofFault source m).EndsBefore (ofFault source n) := by
  obtain ⟨_, _, first⟩ := exists_ofRange source m
  obtain ⟨_, _, second⟩ := exists_ofRange source n
  rw [first, second]
  exact ⟨le, counted_le source le⟩

/-- In a tree of nested ranges, right flags or not, the diagnostics below any node lie in its range,
and each of them ends before the next one starts. -/
theorem below_in_order {tree root : Node} {place : List Nat} (nested : tree.Nested)
    (found : tree.at? place = some root) (source : Bytes) (limit : Nat) :
    (∀ d ∈ below source root limit, d.LiesIn root) ∧
      (below source root limit).Pairwise EndsBefore := by
  obtain ⟨ns, same, inside⟩ := exists_nestedIn_below (nested.at? found) source limit
  obtain ⟨_, members, sorted⟩ := Node.nestedIn_iff.mp inside
  rw [same]
  constructor
  · intro d member
    obtain ⟨n, reported, rfl⟩ := List.mem_map.mp member
    obtain ⟨opens, own, closes⟩ := members n reported
    exact liesIn_ofFault own opens closes
  · exact sorted.map _ fun _ _ => endsBefore_ofFault

/-- The error in the body stands in front of the missing bracket, which is empty. -/
theorem brokenBody_in_order :
    brokenClass.Nested ∧ brokenClass.at? [0, 0] = some brokenBody ∧
      ∃ first second, below brokenSource brokenBody 5 = [first, second] ∧
        first.LiesIn brokenBody ∧ second.LiesIn brokenBody ∧ first.EndsBefore second := by
  have nested : brokenClass.Nested := by
    simp [brokenClass, brokenBody, Node.Nested, Node.NestedIn, Node.label]
  have found : brokenClass.at? [0, 0] = some brokenBody := rfl
  have flagged : brokenBody.Flagged := by
    simp [brokenBody, Node.Flagged, Node.FlaggedAll, Node.containsFaultAny, Node.containsFault,
      Label.isFault]
  have listed : below brokenSource brokenBody 5 =
      [ofFault brokenSource (.mk ⟨"ERROR", true, true, false, true, none, 8, 9⟩ [
          .mk ⟨")", false, false, true, true, none, 9, 9⟩ []]),
        ofFault brokenSource (.mk ⟨"\x7d", false, true, true, true, none, 12, 12⟩ [])] := by
    rw [below_eq flagged]
    rfl
  obtain ⟨inside, sorted⟩ := below_in_order nested found brokenSource 5
  rw [listed] at inside sorted
  have second := List.mem_singleton_self
    (ofFault brokenSource (.mk ⟨"\x7d", false, true, true, true, none, 12, 12⟩ []))
  exact ⟨nested, found, _, _, listed, inside _ List.mem_cons_self,
    inside _ (List.mem_cons_of_mem _ second), (List.pairwise_cons.mp sorted).1 _ second⟩

end Diagnostic
end SyntaxReport
