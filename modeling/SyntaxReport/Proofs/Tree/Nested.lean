/- Nodes whose ranges nest: they lie in their parents, and behind their elder siblings. -/
import SyntaxReport.Proofs.Tree.Address
import SyntaxReport.Tree.WellFormed

namespace SyntaxReport.Node

theorem nested_iff {n : Node} : n.Nested ↔
    n.label.start ≤ n.label.stop ∧ NestedIn n.label.start n.label.stop n.children := by
  cases n
  rfl

theorem NestedIn.of_le {lo start stop : Nat} {ns : List Node} (le : lo ≤ start)
    (nested : NestedIn start stop ns) : NestedIn lo stop ns := by
  cases ns with
  | nil => exact Nat.le_trans le nested
  | cons n ns =>
    obtain ⟨opens, inner, later⟩ := nested
    exact ⟨Nat.le_trans le opens, inner, later⟩

/-- The younger siblings of a node in a row lie in the same range, and behind the node. -/
theorem NestedIn.tail {start stop : Nat} {n : Node} {ns : List Node}
    (nested : NestedIn start stop (n :: ns)) : NestedIn start stop ns := by
  obtain ⟨opens, inner, later⟩ := nested
  exact later.of_le (Nat.le_trans opens (nested_iff.mp inner).1)

theorem NestedIn.le {start stop : Nat} {ns : List Node} (nested : NestedIn start stop ns) :
    start ≤ stop := by
  induction ns with
  | nil => exact nested
  | cons n ns ih => exact ih nested.tail

theorem NestedIn.append {start between stop : Nat} {ns ms : List Node}
    (front : NestedIn start between ns) (rear : NestedIn between stop ms) :
    NestedIn start stop (ns ++ ms) := by
  induction ns generalizing start with
  | nil => exact rear.of_le front
  | cons n ns ih =>
    obtain ⟨opens, inner, later⟩ := front
    exact ⟨opens, inner, ih later⟩

/-- Where a row of nodes nests, each of them lies in the range, and each pair in its order. -/
theorem nestedIn_iff {start stop : Nat} {ns : List Node} :
    NestedIn start stop ns ↔ start ≤ stop ∧
      (∀ n ∈ ns, start ≤ n.label.start ∧ n.Nested ∧ n.label.stop ≤ stop) ∧
      ns.Pairwise fun m n => m.label.stop ≤ n.label.start := by
  induction ns generalizing start with
  | nil => simp [NestedIn]
  | cons n ns ih =>
    rw [NestedIn, ih, List.forall_mem_cons, List.pairwise_cons]
    constructor
    · rintro ⟨opens, inner, closes, members, sorted⟩
      have ordered := (nested_iff.mp inner).1
      refine ⟨by omega, ⟨⟨opens, inner, closes⟩, fun m member => ?_⟩, ?_, sorted⟩
      · obtain ⟨behind, rest⟩ := members m member
        exact ⟨by omega, rest⟩
      · exact fun m member => (members m member).1
    · rintro ⟨_, ⟨⟨opens, inner, closes⟩, members⟩, behind, sorted⟩
      exact ⟨opens, inner, closes, fun m member => ⟨behind m member, (members m member).2⟩, sorted⟩

theorem Nested.child {n c : Node} (nested : n.Nested) (member : c ∈ n.children) : c.Nested :=
  ((nestedIn_iff.mp (nested_iff.mp nested).2).2.1 c member).2.1

theorem Nested.child_range {n c : Node} (nested : n.Nested) (member : c ∈ n.children) :
    n.label.start ≤ c.label.start ∧ c.label.stop ≤ n.label.stop := by
  obtain ⟨opens, _, closes⟩ := (nestedIn_iff.mp (nested_iff.mp nested).2).2.1 c member
  exact ⟨opens, closes⟩

theorem Nested.at? {n m : Node} {path : List Nat} (nested : n.Nested)
    (found : n.at? path = some m) : m.Nested := by
  induction path generalizing n with
  | nil => exact Option.some.inj found ▸ nested
  | cons i path ih =>
    obtain ⟨c, child, below⟩ := Option.bind_eq_some_iff.mp found
    exact ih (nested.child (List.mem_of_getElem? child)) below

/-- A node lies in the range of every node above it. -/
theorem Nested.at?_range {n m : Node} {path : List Nat} (nested : n.Nested)
    (found : n.at? path = some m) :
    n.label.start ≤ m.label.start ∧ m.label.stop ≤ n.label.stop := by
  induction path generalizing n with
  | nil =>
    cases Option.some.inj found
    exact ⟨Nat.le_refl _, Nat.le_refl _⟩
  | cons i path ih =>
    obtain ⟨c, child, below⟩ := Option.bind_eq_some_iff.mp found
    have member := List.mem_of_getElem? child
    have outer := nested.child_range member
    have inner := ih (nested.child member) below
    omega

theorem Nested.stop_le_of_lt {n c d : Node} {i j : Nat} (nested : n.Nested)
    (first : n.children[i]? = some c) (second : n.children[j]? = some d) (less : i < j) :
    c.label.stop ≤ d.label.start := by
  have sorted := (nestedIn_iff.mp (nested_iff.mp nested).2).2.2
  obtain ⟨below, rfl⟩ := List.getElem?_eq_some_iff.mp first
  obtain ⟨bound, rfl⟩ := List.getElem?_eq_some_iff.mp second
  exact List.pairwise_iff_getElem.mp sorted i j below bound less

/-- The nodes of a tree in preorder start one behind another. -/
theorem Nested.start_le_of_precedes {root m n : Node} {p q : List Nat} (nested : root.Nested)
    (first : root.at? p = some m) (second : root.at? q = some n) (before : Precedes p q) :
    m.label.start ≤ n.label.start := by
  induction before generalizing root with
  | nil =>
    cases Option.some.inj first
    exact (nested.at?_range second).1
  | cons later ih =>
    obtain ⟨c, child, inner⟩ := Option.bind_eq_some_iff.mp first
    obtain ⟨d, child', inner'⟩ := Option.bind_eq_some_iff.mp second
    cases Option.some.inj (child.symm.trans child')
    exact ih (nested.child (List.mem_of_getElem? child)) inner inner'
  | rel less =>
    -- the addresses part here, so one child ends before the other one starts
    obtain ⟨c, child, inner⟩ := Option.bind_eq_some_iff.mp first
    obtain ⟨d, child', inner'⟩ := Option.bind_eq_some_iff.mp second
    have here := nested.child (List.mem_of_getElem? child)
    have there := nested.child (List.mem_of_getElem? child')
    have parted := nested.stop_le_of_lt child child' less
    have own := (nested_iff.mp (here.at? inner)).1
    have front := (here.at?_range inner).2
    have behind := (there.at?_range inner').1
    omega

end SyntaxReport.Node
