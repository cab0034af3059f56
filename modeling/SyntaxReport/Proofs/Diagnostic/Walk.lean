/- The walk that skips what holds no fault finds the diagnostics of all topmost faults. -/
import SyntaxReport.Diagnostic.Walk
import SyntaxReport.Proofs.Tree.Fault

namespace SyntaxReport.Cursor

/-- The nodes behind the current one that are not below it, down to their own roots. -/
def behind (c : Cursor) : List Node := c.younger ++ c.above.flatten

/-- The roots of what a walk has still to visit, the current node first. -/
def ahead (c : Cursor) : List Node := c.node :: c.behind

/-- The topmost faults that a walk has still to find. -/
def pending (c : Cursor) : List Node := c.ahead.flatMap Node.topmostFaults

def Flagged (c : Cursor) : Prop := ∀ n ∈ c.ahead, n.Flagged

theorem ahead_of_climb? {younger : List Node} {above : List (List Node)} {d : Cursor}
    (h : climb? younger above = some d) : d.ahead = younger ++ above.flatten := by
  induction above generalizing younger with
  | nil =>
    cases younger with
    | nil => cases h
    | cons n ns =>
      cases h
      rfl
  | cons row above ih =>
    cases younger with
    | nil => exact ih h
    | cons n ns =>
      cases h
      rfl

theorem eq_nil_of_climb? {younger : List Node} {above : List (List Node)}
    (h : climb? younger above = none) : younger ++ above.flatten = [] := by
  induction above generalizing younger with
  | nil =>
    cases younger with
    | nil => rfl
    | cons n ns => cases h
  | cons row above ih =>
    cases younger with
    | nil => exact ih h
    | cons n ns => cases h

theorem ahead_of_skip? {c d : Cursor} (h : c.skip? = some d) : d.ahead = c.behind :=
  ahead_of_climb? h

theorem behind_of_skip? {c : Cursor} (h : c.skip? = none) : c.behind = [] :=
  eq_nil_of_climb? h

theorem ahead_of_firstChild? {c d : Cursor} (h : c.firstChild? = some d) :
    d.ahead = c.node.children ++ c.behind := by
  unfold firstChild? at h
  split at h
  · cases h
  · next n ns children =>
    cases h
    rw [children]
    rfl

theorem children_of_firstChild? {c : Cursor} (h : c.firstChild? = none) :
    c.node.children = [] := by
  unfold firstChild? at h
  split at h
  · assumption
  · cases h

theorem pending_eq (c : Cursor) :
    c.pending = c.node.topmostFaults ++ c.behind.flatMap Node.topmostFaults := rfl

/-- What holds of all that is ahead still does behind the current node. -/
theorem forall_ahead_of_skip? {P : Node → Prop} {c d : Cursor} (ahead : ∀ n ∈ c.ahead, P n)
    (h : c.skip? = some d) : ∀ n ∈ d.ahead, P n := by
  intro n member
  rw [ahead_of_skip? h] at member
  exact ahead n (List.mem_cons_of_mem c.node member)

/-- What holds of all that is ahead still does below the current node, if its children inherit
it. -/
theorem forall_ahead_of_firstChild? {P : Node → Prop} {c d : Cursor}
    (ahead : ∀ n ∈ c.ahead, P n) (inherited : ∀ n ∈ c.node.children, P n)
    (h : c.firstChild? = some d) : ∀ n ∈ d.ahead, P n := by
  intro n member
  rw [ahead_of_firstChild? h] at member
  rcases List.mem_append.mp member with child | later
  · exact inherited n child
  · exact ahead n (List.mem_cons_of_mem c.node later)

theorem Flagged.skip? {c d : Cursor} (flagged : c.Flagged) (h : c.skip? = some d) :
    d.Flagged :=
  forall_ahead_of_skip? flagged h

theorem Flagged.firstChild? {c d : Cursor} (flagged : c.Flagged) (h : c.firstChild? = some d) :
    d.Flagged := by
  have children := (Node.flagged_iff.mp (flagged c.node List.mem_cons_self)).2
  exact forall_ahead_of_firstChild? flagged children h

end Cursor

namespace Diagnostic

theorem ofNode?_eq (source : Bytes) (n : Node) :
    ofNode? source n = if n.label.isFault then some (ofFault source n) else none := by
  unfold ofNode? ofFault Label.isFault
  cases n.label.missing <;> cases n.label.error <;> rfl

theorem isFault_of_reported {source : Bytes} {n : Node} {d : Diagnostic}
    (reported : ofNode? source n = some d) : n.label.isFault = true := by
  by_contra clear
  rw [ofNode?_eq, if_neg clear] at reported
  cases reported

theorem not_isFault_of_passed {source : Bytes} {n : Node} (passed : ofNode? source n = none) :
    n.label.isFault = false := by
  refine eq_false_of_ne_true fun fault => ?_
  rw [ofNode?_eq, if_pos fault] at passed
  cases passed

/-- Whatever is wrong with a fault, its diagnostic has the range of the node. -/
theorem exists_ofRange (source : Bytes) (n : Node) :
    ∃ kind message, ofFault source n = ofRange source n kind message := by
  unfold ofFault
  split <;> exact ⟨_, _, rfl⟩

theorem pending_of_fault {c : Cursor} (fault : c.node.label.isFault = true) :
    c.pending = c.node :: c.behind.flatMap Node.topmostFaults := by
  rw [Cursor.pending_eq, Node.topmostFaults_of_isFault fault]
  rfl

/-- A place that is passed over takes no fault with it: its flag rules out faults below, or the
walk goes on with its children. -/
theorem advance?_spec {c : Cursor} (flagged : c.Flagged) (clear : c.node.label.isFault = false) :
    (∀ d, advance? c = some d → d.Flagged ∧ d.pending = c.pending) ∧
      (advance? c = none → c.pending = []) := by
  have skipped (none_below : c.node.topmostFaults = []) :
      (∀ d, c.skip? = some d → d.Flagged ∧ d.pending = c.pending) ∧
        (c.skip? = none → c.pending = []) := by
    refine ⟨fun d h => ⟨flagged.skip? h, ?_⟩, fun h => ?_⟩
    · rw [Cursor.pending, Cursor.ahead_of_skip? h, Cursor.pending_eq, none_below]
      rfl
    · rw [Cursor.pending_eq, none_below, Cursor.behind_of_skip? h]
      rfl
  have flag := (Node.flagged_iff.mp (flagged c.node List.mem_cons_self)).1
  unfold advance?
  split
  · cases child : c.firstChild? with
    | none =>
      apply skipped
      rw [Node.topmostFaults_of_not_isFault clear, Cursor.children_of_firstChild? child]
      rfl
    | some e =>
      refine ⟨fun d h => ?_, fun h => by cases h⟩
      cases h
      refine ⟨flagged.firstChild? child, ?_⟩
      rw [Cursor.pending, Cursor.ahead_of_firstChild? child, List.flatMap_append,
        Cursor.pending_eq, Node.topmostFaults_of_not_isFault clear]
  · next unflagged =>
    apply skipped
    rw [Node.topmostFaults_eq_nil_iff, ← flag]
    exact eq_false_of_ne_true unflagged

/-- From a node that is no fault, the walk goes to the first child or passes the node over. -/
theorem advance?_cases {c d : Cursor} (h : advance? c = some d) :
    c.firstChild? = some d ∨ c.skip? = some d := by
  unfold advance? at h
  split at h
  · cases child : c.firstChild? with
    | none =>
      rw [child] at h
      exact .inr h
    | some e =>
      rw [child] at h
      exact .inl h
  · exact .inr h

theorem walk_of_fault {source : Bytes} {room : Nat} {c : Cursor}
    (fault : c.node.label.isFault = true) :
    walk source (room + 1) c =
      ofFault source c.node :: c.skip?.elim [] (walk source room) := by
  have reported : ofNode? source c.node = some (ofFault source c.node) := by
    rw [ofNode?_eq, if_pos fault]
  conv_lhs => unfold walk
  simp only [reported]
  split
  · next e h => rw [h]; rfl
  · next h => rw [h]; rfl

theorem walk_of_clear {source : Bytes} {room : Nat} {c : Cursor}
    (clear : c.node.label.isFault = false) :
    walk source (room + 1) c = (advance? c).elim [] (walk source (room + 1)) := by
  have passed : ofNode? source c.node = none := by
    simp [ofNode?_eq, clear]
  conv_lhs => unfold walk
  simp only [passed]
  split
  · next e h => rw [h]; rfl
  · next h => rw [h]; rfl

/-- From any place on, the walk reports the pending faults as far as there is room. -/
theorem walk_eq {source : Bytes} {room : Nat} {c : Cursor} (flagged : c.Flagged) :
    walk source room c = (c.pending.map (ofFault source)).take room := by
  -- a fault takes up room and leaves the list, any other place leaves the list as it is
  induction room, c using walk.induct source with
  | case1 c => rw [walk, List.take_zero]
  | case2 c room d reported ih =>
    have fault := isFault_of_reported reported
    rw [walk_of_fault fault, pending_of_fault fault, List.map_cons, List.take_succ_cons]
    congr 1
    cases next : c.skip? with
    | none => simp [Cursor.behind_of_skip? next]
    | some e =>
      have later := ih e next (flagged.skip? next)
      rw [Cursor.pending, Cursor.ahead_of_skip? next] at later
      exact later
  | case3 c room passed next h ih =>
    have clear := not_isFault_of_passed passed
    obtain ⟨flaggedNext, same⟩ := (advance?_spec flagged clear).1 next h
    rw [walk_of_clear clear, h, ← same]
    exact ih flaggedNext
  | case4 c room passed h =>
    have clear := not_isFault_of_passed passed
    rw [walk_of_clear clear, h, (advance?_spec flagged clear).2 h]
    rfl

theorem below_eq {root : Node} (flagged : root.Flagged) (source : Bytes) (limit : Nat) :
    below source root limit = (all source root).take limit := by
  unfold below all
  split
  · have start : (Cursor.ofRoot root).Flagged := by
      intro n member
      cases List.mem_singleton.mp member
      exact flagged
    rw [walk_eq start, Cursor.pending_eq]
    simp [Cursor.ofRoot, Cursor.behind]
  · next unflagged =>
    have flag := (Node.flagged_iff.mp flagged).1
    rw [Node.topmostFaults_eq_nil_iff.mpr (flag ▸ eq_false_of_ne_true unflagged),
      List.map_nil, List.take_nil]

/-- Under right flags, the diagnostics below any node of a tree are those of its topmost faults,
in the order of their addresses, as far as the limit allows. So a larger limit only adds more. -/
theorem below_eq_take_all {tree root : Node} {place : List Nat}
    (flagged : tree.Flagged) (found : tree.at? place = some root) (source : Bytes)
    (limit : Nat) :
    below source root limit = (all source root).take limit ∧
      root.topmostFaults.map some =
        (root.addresses.filter (root.TopmostFaultAt ·)).map root.at? ∧
      ∀ more, limit ≤ more → below source root limit <+: below source root more := by
  have taken := below_eq (flagged.at? found) source
  refine ⟨taken limit, root.topmostFaults_eq, fun more le => ?_⟩
  rw [taken, taken]
  exact List.take_prefix_take_left le

/-- An error that holds a missing token, and a missing token that is an error as well. -/
def brokenBody : Node :=
  .mk ⟨"class_body", true, false, false, true, some .body, 6, 12⟩ [
    .mk ⟨"\x7b", false, false, false, false, none, 6, 7⟩ [],
    .mk ⟨"ERROR", true, true, false, true, none, 8, 9⟩ [
      .mk ⟨")", false, false, true, true, none, 9, 9⟩ []],
    .mk ⟨"property_declaration", true, false, false, true, none, 10, 12⟩ [
      .mk ⟨"\x7d", false, true, true, true, none, 12, 12⟩ []]]

def brokenClass : Node :=
  .mk ⟨"source_file", true, false, false, true, none, 0, 14⟩ [
    .mk ⟨"class_declaration", true, false, false, true, none, 0, 12⟩ [brokenBody],
    .mk ⟨"ERROR", true, true, false, true, none, 13, 14⟩ []]

def brokenSource : Bytes := bytesOf "class \x7b ) x  !"

/-- Below the body, the inner missing token is covered and the error behind the class is out of
reach. -/
theorem below_brokenBody :
    brokenClass.Flagged ∧ brokenClass.at? [0, 0] = some brokenBody ∧
      below brokenSource brokenBody 5 =
        [ofFault brokenSource (.mk ⟨"ERROR", true, true, false, true, none, 8, 9⟩ [
            .mk ⟨")", false, false, true, true, none, 9, 9⟩ []]),
          ofFault brokenSource (.mk ⟨"\x7d", false, true, true, true, none, 12, 12⟩ [])] := by
  have flagged : brokenClass.Flagged := by
    simp [brokenClass, brokenBody, Node.Flagged, Node.FlaggedAll, Node.containsFaultAny,
      Node.containsFault, Label.isFault]
  have found : brokenClass.at? [0, 0] = some brokenBody := rfl
  refine ⟨flagged, found, ?_⟩
  rw [(below_eq_take_all flagged found brokenSource 5).1]
  rfl

end Diagnostic
end SyntaxReport
