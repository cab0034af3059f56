/- Every diagnostic of a report stands for a node of the tree. -/
import SyntaxReport.Proofs.Diagnostic.Walk

namespace SyntaxReport

namespace Node

/-- A node of a tree, its root included. -/
def Holds (root n : Node) : Prop := ∃ place, root.at? place = some n

theorem holds_self (root : Node) : root.Holds root := ⟨[], rfl⟩

theorem Holds.child {root n c : Node} (held : root.Holds n) (member : c ∈ n.children) :
    root.Holds c := by
  obtain ⟨place, found⟩ := held
  obtain ⟨i, child⟩ := List.mem_iff_getElem?.mp member
  refine ⟨place ++ [i], ?_⟩
  rw [at?_append, found, Option.bind_some, at?_singleton, child]

/-- Every node starts and ends within so many bytes. -/
def Within (size : Nat) (root : Node) : Prop :=
  ∀ n, root.Holds n → n.label.start ≤ size ∧ n.label.stop ≤ size

theorem within_mk {size : Nat} {l : Label} {cs : List Node} :
    Within size (.mk l cs) ↔ (l.start ≤ size ∧ l.stop ≤ size) ∧ ∀ c ∈ cs, c.Within size := by
  constructor
  · intro within
    refine ⟨within _ (holds_self _), ?_⟩
    rintro c member n ⟨place, found⟩
    obtain ⟨i, child⟩ := List.mem_iff_getElem?.mp member
    refine within n ⟨i :: place, ?_⟩
    rw [at?_cons, children, child, Option.bind_some, found]
  · rintro ⟨own, inner⟩ n ⟨place, found⟩
    cases place with
    | nil =>
      cases found
      exact own
    | cons i place =>
      obtain ⟨c, child, below⟩ := Option.bind_eq_some_iff.mp found
      exact inner c (List.mem_of_getElem? child) n ⟨place, below⟩

end Node

namespace Cursor

/-- A walk has only nodes of a tree ahead. -/
def Inside (root : Node) (c : Cursor) : Prop := ∀ n ∈ c.ahead, root.Holds n

theorem Inside.skip? {root : Node} {c d : Cursor} (inside : c.Inside root)
    (h : c.skip? = some d) : d.Inside root :=
  forall_ahead_of_skip? inside h

theorem Inside.firstChild? {root : Node} {c d : Cursor} (inside : c.Inside root)
    (h : c.firstChild? = some d) : d.Inside root := by
  have here : root.Holds c.node := inside c.node List.mem_cons_self
  exact forall_ahead_of_firstChild? inside (fun n child => here.child child) h

theorem Inside.advance? {root : Node} {c d : Cursor} (inside : c.Inside root)
    (h : Diagnostic.advance? c = some d) : d.Inside root := by
  rcases Diagnostic.advance?_cases h with child | skipped
  · exact inside.firstChild? child
  · exact inside.skip? skipped

end Cursor

namespace Diagnostic

theorem lines_ofFault (source : Bytes) (n : Node) :
    (ofFault source n).line = (n.startPosition source).row + 1 ∧
      (ofFault source n).endLine = (n.endPosition source).row + 1 := by
  obtain ⟨_, _, same⟩ := exists_ofRange source n
  rw [same]
  exact ⟨rfl, rfl⟩

theorem exists_of_mem_walk {source : Bytes} {root : Node} {room : Nat} {c : Cursor}
    {d : Diagnostic} (inside : c.Inside root) (member : d ∈ walk source room c) :
    ∃ n, root.Holds n ∧ d = ofFault source n := by
  -- whatever the flags say, each step stays inside the tree
  induction room, c using walk.induct source with
  | case1 c =>
    rw [walk] at member
    cases member
  | case2 c room reported is_fault ih =>
    have fault := isFault_of_reported is_fault
    rw [walk_of_fault fault] at member
    rcases List.mem_cons.mp member with rfl | later
    · exact ⟨c.node, inside c.node List.mem_cons_self, rfl⟩
    · cases next : c.skip? with
      | none =>
        rw [next] at later
        cases later
      | some e =>
        rw [next] at later
        exact ih e next (inside.skip? next) later
  | case3 c room passed next h ih =>
    have clear := not_isFault_of_passed passed
    rw [walk_of_clear clear, h] at member
    exact ih (inside.advance? h) member
  | case4 c room passed h =>
    have clear := not_isFault_of_passed passed
    rw [walk_of_clear clear, h] at member
    cases member

/-- A diagnostic is that of a node of the tree, right flags or not. -/
theorem exists_of_mem_below {source : Bytes} {root : Node} {limit : Nat} {d : Diagnostic}
    (member : d ∈ below source root limit) : ∃ n, root.Holds n ∧ d = ofFault source n := by
  unfold below at member
  split at member
  · refine exists_of_mem_walk (fun n ahead => ?_) member
    cases List.mem_singleton.mp ahead
    exact root.holds_self
  · cases member

end Diagnostic

end SyntaxReport
