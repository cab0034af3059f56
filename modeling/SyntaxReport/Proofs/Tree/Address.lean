/- The nodes of a tree by their addresses: in preorder, every node once. -/
import SyntaxReport.Tree.Node

namespace SyntaxReport.Node

mutual

/-- The addresses of all nodes, each in front of those of its descendants. -/
def addresses : Node → List (List Nat)
  | .mk _ cs => [] :: addressesFrom 0 cs

/-- The addresses in a row of siblings, the first of which has index `i`. -/
def addressesFrom (i : Nat) : List Node → List (List Nat)
  | [] => []
  | n :: ns => n.addresses.map (i :: ·) ++ addressesFrom (i + 1) ns

end

/-- What holds of a node as soon as it holds of its children holds of every node. -/
theorem childwise {P : Node → Prop} (step : ∀ n : Node, (∀ c ∈ n.children, P c) → P n)
    (n : Node) : P n := by
  refine Node.rec (motive_1 := P) (motive_2 := fun ns => ∀ c ∈ ns, P c) ?_ ?_ ?_ n
  · intro l cs ih
    exact step (.mk l cs) ih
  · intro c member
    cases member
  · intro c cs here later d member
    cases member with
    | head => exact here
    | tail _ member => exact later d member

@[simp] theorem at?_nil (n : Node) : n.at? [] = some n := rfl

@[simp] theorem at?_cons (n : Node) (i : Nat) (path : List Nat) :
    n.at? (i :: path) = n.children[i]?.bind (·.at? path) := rfl

theorem at?_singleton (n : Node) (i : Nat) : n.at? [i] = n.children[i]? := by
  rw [at?_cons]
  cases n.children[i]? with
  | none => rfl
  | some c => rfl

theorem at?_grandchild {n c d : Node} {i j : Nat} (child : n.children[i]? = some c)
    (inner : c.children[j]? = some d) (path : List Nat) :
    n.at? (i :: j :: path) = d.at? path := by
  rw [at?_cons, child, Option.bind_some, at?_cons, inner, Option.bind_some]

theorem at?_append (n : Node) (above below : List Nat) :
    n.at? (above ++ below) = (n.at? above).bind (·.at? below) := by
  induction above generalizing n with
  | nil => rfl
  | cons i above ih =>
    rw [List.cons_append, at?_cons, at?_cons]
    cases n.children[i]? with
    | none => rfl
    | some c => exact ih c

theorem addressesFrom_eq (i : Nat) (ns : List Node) :
    addressesFrom i ns = (ns.zipIdx i).flatMap fun (c, k) => c.addresses.map (k :: ·) := by
  induction ns generalizing i with
  | nil => rfl
  | cons n ns ih => rw [addressesFrom, List.zipIdx_cons, List.flatMap_cons, ih]

theorem addresses_eq (n : Node) :
    n.addresses =
      [] :: n.children.zipIdx.flatMap fun (c, k) => c.addresses.map (k :: ·) := by
  cases n with
  | mk l cs => rw [addresses, addressesFrom_eq, children]

theorem mem_zipIdx_children {n c : Node} {k : Nat} :
    (c, k) ∈ n.children.zipIdx ↔ n.children[k]? = some c :=
  List.mem_zipIdx_iff_getElem?

theorem mem_addresses {n : Node} {path : List Nat} :
    path ∈ n.addresses ↔ (n.at? path).isSome := by
  induction n using childwise generalizing path with
  | step n ih =>
    rw [addresses_eq]
    cases path with
    | nil => simp
    | cons i path =>
      simp only [List.mem_cons, reduceCtorEq, false_or, List.mem_flatMap, List.mem_map,
        at?_cons, Prod.exists]
      constructor
      · rintro ⟨c, k, place, q, found, same⟩
        obtain ⟨rfl, rfl⟩ := List.cons.inj same
        rw [mem_zipIdx_children] at place
        rw [place]
        exact (ih c (List.mem_of_getElem? place)).mp found
      · intro found
        cases place : n.children[i]? with
        | none => simp [place] at found
        | some c =>
          rw [place] at found
          exact ⟨c, i, mem_zipIdx_children.mpr place, path,
            (ih c (List.mem_of_getElem? place)).mpr found, rfl⟩

/-- In preorder an address comes before those that extend it, and before those that turn off to
a younger sibling. -/
abbrev Precedes : List Nat → List Nat → Prop := List.Lex (· < ·)

theorem pairwise_addressesFrom (i : Nat) (ns : List Node)
    (inner : ∀ c ∈ ns, c.addresses.Pairwise Precedes) :
    (addressesFrom i ns).Pairwise Precedes ∧
      ∀ path ∈ addressesFrom i ns, ∃ k q, path = k :: q ∧ i ≤ k := by
  induction ns generalizing i with
  | nil => simp [addressesFrom]
  | cons n ns ih =>
    obtain ⟨sorted, late⟩ := ih (i + 1) fun c member => inner c (List.mem_cons_of_mem n member)
    have own : (n.addresses.map (i :: ·)).Pairwise Precedes :=
      (inner n List.mem_cons_self).map _ fun _ _ before => .cons before
    refine ⟨List.pairwise_append.mpr ⟨own, sorted, ?_⟩, ?_⟩
    · intro path here later there
      obtain ⟨q, _, rfl⟩ := List.mem_map.mp here
      obtain ⟨k, r, rfl, above⟩ := late later there
      exact .rel above
    · intro path member
      rcases List.mem_append.mp member with here | there
      · obtain ⟨q, _, rfl⟩ := List.mem_map.mp here
        exact ⟨i, q, rfl, Nat.le_refl i⟩
      · obtain ⟨k, q, rfl, above⟩ := late path there
        exact ⟨k, q, rfl, Nat.le_of_succ_le above⟩

/-- The addresses stand in preorder. So none of them is listed twice. -/
theorem pairwise_addresses (n : Node) : n.addresses.Pairwise Precedes := by
  induction n using childwise with
  | step n ih =>
    cases n with
    | mk l cs =>
      obtain ⟨sorted, late⟩ := pairwise_addressesFrom 0 cs ih
      refine List.pairwise_cons.mpr ⟨?_, sorted⟩
      intro path member
      obtain ⟨k, q, rfl, _⟩ := late path member
      exact .nil

end SyntaxReport.Node
