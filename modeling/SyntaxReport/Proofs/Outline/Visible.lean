/- The nodes that an outline looks at: the top of its root, and the bodies of visible containers. -/
import Mathlib.Data.List.Basic
import SyntaxReport.Outline.Declaration
import SyntaxReport.Proofs.Tree.Address

namespace SyntaxReport.Node

/-- The first child marked as a name has a text that is not empty. -/
def HasName (source : Bytes) (n : Node) : Prop :=
  (n.childOf? .name).any (fun name => !(name.text source).isEmpty) = true

instance (source : Bytes) (n : Node) : Decidable (n.HasName source) :=
  inferInstanceAs (Decidable (_ = true))

/-- A type or protocol with a name. -/
def IsContainer (source : Bytes) (n : Node) : Prop :=
  (n.kind = "class_declaration" ∨ n.kind = "protocol_declaration") ∧ n.HasName source

instance (source : Bytes) (n : Node) : Decidable (n.IsContainer source) :=
  inferInstanceAs (Decidable (_ ∧ _))

def bodyIndex? (n : Node) : Option Nat := n.children.findIdx? (·.label.field = some .body)

/-- The address of a named child of the root, or of the first body of a visible container. -/
inductive Visible (source : Bytes) (root : Node) : List Nat → Prop
  | top {i : Nat} {m : Node} (found : root.at? [i] = some m) (named : m.label.named = true) :
      Visible source root [i]
  | member {path : List Nat} {n : Node} {j i : Nat} {m : Node}
      (above : Visible source root path) (container : root.at? path = some n)
      (opens : n.IsContainer source) (body : n.bodyIndex? = some j)
      (found : root.at? (path ++ [j, i]) = some m) (named : m.label.named = true) :
      Visible source root (path ++ [j, i])

/-- Whether an address is visible, decided from the root down. -/
def shows (source : Bytes) : Node → List Nat → Bool
  | _, [] => false
  | root, [i] => (root.children[i]?).any (·.label.named)
  | root, i :: j :: path =>
    (root.children[i]?).any fun n =>
      n.label.named && decide (n.IsContainer source) && decide (n.bodyIndex? = some j) &&
        (n.children[j]?).any fun body => shows source body path

theorem shows_top {source : Bytes} {root m : Node} {i : Nat} (found : root.at? [i] = some m)
    (named : m.label.named = true) : root.shows source [i] = true := by
  rw [at?_singleton] at found
  rw [shows, found]
  exact named

theorem shows_inside {source : Bytes} {root n body : Node} {i j : Nat}
    (child : root.children[i]? = some n) (inner : n.children[j]? = some body)
    (path : List Nat) :
    root.shows source (i :: j :: path) = true ↔
      n.label.named = true ∧ n.IsContainer source ∧ n.bodyIndex? = some j ∧
        body.shows source path = true := by
  rw [shows, child]
  simp [inner, and_assoc]

/-- A shown address of at least two steps leads through a named container and its first body. -/
theorem exists_of_shows {source : Bytes} {root : Node} {i j : Nat} {path : List Nat}
    (shown : root.shows source (i :: j :: path) = true) :
    ∃ n body, root.children[i]? = some n ∧ n.children[j]? = some body ∧
      n.label.named = true ∧ n.IsContainer source ∧ n.bodyIndex? = some j ∧
        body.shows source path = true := by
  rw [shows, Option.any_eq_true] at shown
  obtain ⟨n, child, facts⟩ := shown
  simp only [Bool.and_eq_true, decide_eq_true_eq, Option.any_eq_true] at facts
  obtain ⟨⟨⟨named, opens⟩, first⟩, body, inner, below⟩ := facts
  exact ⟨n, body, child, inner, named, opens, first, below⟩

theorem opens_of_shows {source : Bytes} {root c : Node} {i j : Nat} {path : List Nat}
    (child : root.children[i]? = some c) (shown : root.shows source (i :: j :: path) = true) :
    c.label.named = true ∧ c.IsContainer source ∧ c.bodyIndex? = some j := by
  obtain ⟨n, body, child', _, named, opens, first, _⟩ := exists_of_shows shown
  cases Option.some.inj (child.symm.trans child')
  exact ⟨named, opens, first⟩

theorem shows_append {source : Bytes} {root n m : Node} {path : List Nat} {j i : Nat}
    (shown : root.shows source path = true) (container : root.at? path = some n)
    (opens : n.IsContainer source) (first : n.bodyIndex? = some j)
    (found : root.at? (path ++ [j, i]) = some m) (named : m.label.named = true) :
    root.shows source (path ++ [j, i]) = true := by
  induction root, path using shows.induct with
  | case1 root => cases shown
  | case2 root k =>
    rw [at?_append, container, Option.bind_some] at found
    obtain ⟨body, inner, below⟩ := Option.bind_eq_some_iff.mp found
    rw [at?_singleton] at container
    rw [shows, container] at shown
    exact (shows_inside container inner [i]).mpr
      ⟨shown, opens, first, shows_top below named⟩
  | case3 root k l path ih =>
    obtain ⟨c, body, child, inner, facts⟩ := exists_of_shows shown
    rw [at?_grandchild child inner] at container
    rw [List.cons_append, List.cons_append, at?_grandchild child inner] at found
    have below := ih body facts.2.2.2 container found
    exact (shows_inside child inner _).mpr ⟨facts.1, facts.2.1, facts.2.2.1, below⟩

theorem Visible.inside {source : Bytes} {root n body : Node} {i j : Nat}
    (child : root.children[i]? = some n) (named : n.label.named = true)
    (opens : n.IsContainer source) (first : n.bodyIndex? = some j)
    (inner : n.children[j]? = some body) {path : List Nat}
    (below : Visible source body path) : Visible source root (i :: j :: path) := by
  have descend := at?_grandchild child inner
  induction below with
  | top found named' =>
    have here : root.at? [i] = some n := (at?_singleton root i).trans child
    exact .member (.top here named) here opens first ((descend _).trans found) named'
  | member above container opens' first' found named' ih =>
    exact .member ih ((descend _).trans container) opens' first' ((descend _).trans found) named'

theorem visible_iff_shows {source : Bytes} {root : Node} {path : List Nat} :
    Visible source root path ↔ root.shows source path = true := by
  -- an address is built up at its end and checked from its front
  constructor
  · intro visible
    induction visible with
    | top found named => exact shows_top found named
    | member above container opens first found named ih =>
      exact shows_append ih container opens first found named
  · intro shown
    induction root, path using shows.induct with
    | case1 root => cases shown
    | case2 root i =>
      rw [shows, Option.any_eq_true] at shown
      obtain ⟨m, child, named⟩ := shown
      exact .top ((at?_singleton root i).trans child) named
    | case3 root i j path ih =>
      obtain ⟨n, body, child, inner, named, opens, first, below⟩ := exists_of_shows shown
      exact .inside child named opens first inner (ih body below)

instance (source : Bytes) (root : Node) (path : List Nat) :
    Decidable (Visible source root path) :=
  decidable_of_iff _ visible_iff_shows.symm

/-- A container at a visible address. -/
def VisibleContainer (source : Bytes) (root : Node) (path : List Nat) : Prop :=
  Visible source root path ∧ (root.at? path).any (·.IsContainer source) = true

instance (source : Bytes) (root : Node) (path : List Nat) :
    Decidable (VisibleContainer source root path) :=
  inferInstanceAs (Decidable (_ ∧ _))

/-- The number of visible containers above an address. -/
def nesting (source : Bytes) (root : Node) (path : List Nat) : Nat :=
  (List.range path.length).countP fun k => VisibleContainer source root (path.take k)

/-- Between the root and a visible node lie only visible containers and their first bodies. -/
theorem Visible.above {source : Bytes} {root : Node} {path : List Nat}
    (visible : Visible source root path) {k : Nat} (positive : 0 < k) (less : k < path.length) :
    VisibleContainer source root (path.take k) ∨
      ∃ front j n, path.take k = front ++ [j] ∧ VisibleContainer source root front ∧
        root.at? front = some n ∧ n.bodyIndex? = some j := by
  induction visible with
  | top found named =>
    rw [List.length_singleton] at less
    omega
  | @member path n j i m above container opens body found named ih =>
    have here : VisibleContainer source root path :=
      ⟨above, by simpa [container] using opens⟩
    rw [List.length_append] at less
    change k < path.length + 2 at less
    rcases Nat.lt_trichotomy k path.length with inner | same | outer
    · rw [List.take_append_of_le_length (Nat.le_of_lt inner)]
      exact ih inner
    · rw [same, List.take_left]
      exact .inl here
    · have last : k = path.length + 1 := by omega
      rw [last, List.take_length_add_append]
      exact .inr ⟨path, j, n, rfl, here, container, body⟩

theorem not_visibleContainer_nil {source : Bytes} {root : Node} :
    ¬ VisibleContainer source root [] := by
  rintro ⟨visible, _⟩
  rw [visible_iff_shows] at visible
  cases visible

theorem visibleContainer_inside {source : Bytes} {root n body : Node} {i j : Nat}
    (child : root.children[i]? = some n) (named : n.label.named = true)
    (opens : n.IsContainer source) (first : n.bodyIndex? = some j)
    (inner : n.children[j]? = some body) (path : List Nat) :
    VisibleContainer source root (i :: j :: path) ↔ VisibleContainer source body path := by
  rw [VisibleContainer, VisibleContainer, visible_iff_shows, visible_iff_shows,
    shows_inside child inner, at?_grandchild child inner]
  simp [named, opens, first]

theorem nesting_top (source : Bytes) (root : Node) (i : Nat) : nesting source root [i] = 0 := by
  simp [nesting, List.range_succ, not_visibleContainer_nil]

theorem nesting_inside {source : Bytes} {root n body : Node} {i j : Nat}
    (child : root.children[i]? = some n) (named : n.label.named = true)
    (opens : n.IsContainer source) (first : n.bodyIndex? = some j)
    (inner : n.children[j]? = some body) (path : List Nat) :
    nesting source root (i :: j :: path) = nesting source body path + 1 := by
  have container : VisibleContainer source root [i] := by
    refine ⟨.top ((at?_singleton root i).trans child) named, ?_⟩
    simpa [child] using opens
  simp only [nesting, List.length_cons, List.range_succ_eq_map, List.countP_cons,
    List.countP_map, List.map_cons, List.map_map, Function.comp_def, List.take_zero,
    List.take_succ_cons, not_visibleContainer_nil, container,
    visibleContainer_inside child named opens first inner]
  simp

/-- Of the visible addresses only those of one step lie in no container. -/
theorem nesting_pos_iff {source : Bytes} {root : Node} {path : List Nat}
    (visible : Visible source root path) : 0 < nesting source root path ↔ 1 < path.length := by
  rw [visible_iff_shows] at visible
  cases path with
  | nil => cases visible
  | cons i path =>
    cases path with
    | nil =>
      rw [nesting_top]
      exact iff_of_false (Nat.lt_irrefl 0) (Nat.lt_irrefl 1)
    | cons j path =>
      obtain ⟨n, body, child, inner, named, opens, first, _⟩ := exists_of_shows visible
      rw [nesting_inside child named opens first inner]
      exact iff_of_true (Nat.succ_pos _) (Nat.succ_lt_succ (Nat.succ_pos _))

end SyntaxReport.Node
