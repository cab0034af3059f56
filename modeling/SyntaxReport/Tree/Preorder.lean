/- Trees as lists: every node once, in front of its descendants, with its depth. -/
import SyntaxReport.Tree.Node

namespace SyntaxReport

structure Entry where
  depth : Nat
  label : Label
deriving DecidableEq, Repr

namespace Node

mutual

/-- The entries of a tree whose root lies at `depth`. -/
def preorder (depth : Nat) : Node → List Entry
  | .mk l cs => ⟨depth, l⟩ :: preorderAll (depth + 1) cs

def preorderAll (depth : Nat) : List Node → List Entry
  | [] => []
  | n :: ns => n.preorder depth ++ preorderAll depth ns

end

/-- Puts an entry in front of the trees that follow it: the deeper ones at the front become
its children. -/
def graft (entry : Entry) (later : List (Nat × Node)) : List (Nat × Node) :=
  (entry.depth, .mk entry.label ((later.takeWhile (entry.depth < ·.1)).map Prod.snd)) ::
    later.dropWhile (entry.depth < ·.1)

/-- The tree with these entries, if they are those of one tree. -/
def ofPreorder? (entries : List Entry) : Option Node :=
  match entries.foldr graft [] with
  | [(0, root)] => some root
  | _ => none

theorem graft_level (l : Label) (depth : Nat) (cs : List Node) (later : List (Nat × Node))
    (h : ∀ p ∈ later, p.1 ≤ depth) :
    graft ⟨depth, l⟩ (cs.map (depth + 1, ·) ++ later) = (depth, .mk l cs) :: later := by
  have deeper : ∀ p ∈ cs.map ((depth + 1, ·) : Node → Nat × Node), decide (depth < p.1) := by
    intro p hp
    obtain ⟨n, _, rfl⟩ := List.mem_map.mp hp
    simp
  have shallow : later.takeWhile (depth < ·.1) = [] ∧ later.dropWhile (depth < ·.1) = later := by
    cases later with
    | nil => simp
    | cons p rest =>
      have low := h p (by simp)
      simp [show ¬ depth < p.1 by omega]
  simp only [graft, List.takeWhile_append_of_pos deeper, List.dropWhile_append_of_pos deeper,
    shallow, List.append_nil, List.map_map]
  simp [Function.comp_def]

mutual

theorem foldr_graft_preorder (n : Node) (depth : Nat) (later : List (Nat × Node))
    (h : ∀ p ∈ later, p.1 ≤ depth) :
    (n.preorder depth).foldr graft later = (depth, n) :: later := by
  match n with
  | .mk l cs =>
    rw [preorder, List.foldr_cons,
      foldr_graft_preorderAll cs (depth + 1) later fun p hp => Nat.le_succ_of_le (h p hp)]
    exact graft_level l depth cs later h

theorem foldr_graft_preorderAll (ns : List Node) (depth : Nat) (later : List (Nat × Node))
    (h : ∀ p ∈ later, p.1 ≤ depth) :
    (preorderAll depth ns).foldr graft later = ns.map (depth, ·) ++ later := by
  match ns with
  | [] => rfl
  | n :: rest =>
    rw [preorderAll, List.foldr_append, foldr_graft_preorderAll rest depth later h,
      foldr_graft_preorder n depth]
    · rfl
    · intro p hp
      rcases List.mem_append.mp hp with hp | hp
      · obtain ⟨m, _, rfl⟩ := List.mem_map.mp hp
        exact Nat.le_refl _
      · exact h p hp

end

/-- A tree is the one that its entries make. -/
theorem ofPreorder?_preorder (root : Node) : ofPreorder? (root.preorder 0) = some root := by
  rw [ofPreorder?, foldr_graft_preorder root 0 [] (by simp)]
  rfl

end Node
end SyntaxReport
