/- Where the faults of a tree lie, and what its flags say about them. -/
import Mathlib.Data.List.Basic
import SyntaxReport.Diagnostic.Topmost
import SyntaxReport.Proofs.Tree.Address
import SyntaxReport.Tree.WellFormed

namespace SyntaxReport.Node

/-- A fault lies at this address. -/
def FaultAt (root : Node) (path : List Nat) : Prop :=
  (root.at? path).any (·.label.isFault) = true

instance (root : Node) (path : List Nat) : Decidable (root.FaultAt path) :=
  inferInstanceAs (Decidable (_ = true))

/-- A fault lies at this address, and none above it. -/
def TopmostFaultAt (root : Node) (path : List Nat) : Prop :=
  root.FaultAt path ∧ ∀ k < path.length, ¬ root.FaultAt (path.take k)

instance (root : Node) (path : List Nat) : Decidable (root.TopmostFaultAt path) :=
  inferInstanceAs (Decidable (_ ∧ _))

theorem faultAt_nil (n : Node) : n.FaultAt [] ↔ n.label.isFault = true := Iff.rfl

theorem faultAt_cons {n c : Node} {i : Nat} (child : n.children[i]? = some c)
    (path : List Nat) : n.FaultAt (i :: path) ↔ c.FaultAt path := by
  simp only [FaultAt, at?_cons, child, Option.bind_some]

theorem topmostFaultAt_nil (n : Node) : n.TopmostFaultAt [] ↔ n.label.isFault = true := by
  simp [TopmostFaultAt, faultAt_nil]

/-- Below a node that is no fault, the topmost faults are those of its children. -/
theorem topmostFaultAt_cons {n c : Node} {i : Nat} (child : n.children[i]? = some c)
    (path : List Nat) :
    n.TopmostFaultAt (i :: path) ↔ n.label.isFault = false ∧ c.TopmostFaultAt path := by
  constructor
  · rintro ⟨fault, clear⟩
    have top : ¬ n.FaultAt [] := clear 0 (Nat.succ_pos _)
    refine ⟨by simpa [faultAt_nil] using top, (faultAt_cons child path).mp fault, ?_⟩
    intro k less above
    exact clear (k + 1) (Nat.succ_lt_succ less) ((faultAt_cons child _).mpr above)
  · rintro ⟨top, fault, clear⟩
    refine ⟨(faultAt_cons child path).mpr fault, ?_⟩
    intro k less
    cases k with
    | zero => simp [faultAt_nil, top]
    | succ k =>
      rw [List.take_succ_cons, faultAt_cons child]
      exact clear k (Nat.lt_of_succ_lt_succ less)

theorem visitsAll_eq (covered : Bool) (ns : List Node) :
    visitsAll covered ns = ns.flatMap (visits covered) := by
  induction ns with
  | nil => rfl
  | cons n ns ih => rw [visitsAll, List.flatMap_cons, ih]

/-- Everything below a fault is visited as covered by one. -/
theorem covered_of_mem_visits {n : Node} {v : Node × Bool} (member : v ∈ n.visits true) :
    v.2 = true := by
  induction n using childwise with
  | step n ih =>
    cases n with
    | mk l cs =>
      rw [visits, Bool.true_or, visitsAll_eq, List.mem_cons, List.mem_flatMap] at member
      rcases member with rfl | ⟨c, child, below⟩
      · rfl
      · exact ih c child below

theorem topmostFaults_of_isFault {n : Node} (fault : n.label.isFault = true) :
    n.topmostFaults = [n] := by
  cases n with
  | mk l cs =>
    change l.isFault = true at fault
    have below {keep : Node × Bool → Bool} (drops : ∀ m, keep (m, true) = false) :
        (visitsAll true cs).filter keep = [] := by
      rw [visitsAll_eq, List.filter_eq_nil_iff]
      rintro ⟨m, covered⟩ member
      obtain ⟨c, _, inner⟩ := List.mem_flatMap.mp member
      cases covered_of_mem_visits inner
      exact ne_true_of_eq_false (drops m)
    rw [topmostFaults, visits, fault, Bool.or_true, List.filter_cons,
      below fun m => Bool.and_false m.label.isFault]
    simp [label, fault]

theorem topmostFaults_of_not_isFault {n : Node} (clear : n.label.isFault = false) :
    n.topmostFaults = n.children.flatMap topmostFaults := by
  cases n with
  | mk l cs =>
    change l.isFault = false at clear
    rw [topmostFaults, visits, clear, Bool.or_false, visitsAll_eq, List.filter_cons]
    simp only [label, clear, Bool.false_and, Bool.false_eq_true, if_false, List.filter_flatMap,
      List.map_flatMap, children]
    rfl

theorem flatMap_zipIdx {α : Type} (f : Node → List α) (cs : List Node) (i : Nat) :
    cs.flatMap f = (cs.zipIdx i).flatMap fun (c, _) => f c := by
  induction cs generalizing i with
  | nil => rfl
  | cons c cs ih => rw [List.zipIdx_cons, List.flatMap_cons, List.flatMap_cons, ih (i + 1)]

/-- The walk over every node lists the topmost faults in the order of their addresses. -/
theorem topmostFaults_eq (n : Node) :
    n.topmostFaults.map some = (n.addresses.filter (n.TopmostFaultAt ·)).map n.at? := by
  induction n using childwise with
  | step n ih =>
    rw [addresses_eq, List.filter_cons, List.filter_flatMap]
    cases fault : n.label.isFault with
    | true =>
      -- the root is above every address that leads into a child
      have below : ∀ x ∈ n.children.zipIdx,
          (x.1.addresses.map (x.2 :: ·)).filter (n.TopmostFaultAt ·) = [] := by
        intro x member
        have child := mem_zipIdx_children.mp member
        simp [List.filter_map, Function.comp_def, topmostFaultAt_cons child, fault]
      rw [topmostFaults_of_isFault fault, List.flatMap_eq_nil_iff.mpr below]
      simp [topmostFaultAt_nil, fault]
    | false =>
      have below : ∀ x ∈ n.children.zipIdx,
          ((x.1.addresses.map (x.2 :: ·)).filter (n.TopmostFaultAt ·)).map n.at? =
            x.1.topmostFaults.map some := by
        intro x member
        have child := mem_zipIdx_children.mp member
        rw [ih x.1 (List.mem_of_getElem? child)]
        simp [List.filter_map, Function.comp_def, topmostFaultAt_cons child, fault, child]
      rw [topmostFaults_of_not_isFault fault, flatMap_zipIdx topmostFaults n.children 0]
      simp only [topmostFaultAt_nil, fault, Bool.false_eq_true, decide_false, if_false,
        List.map_flatMap]
      exact (List.flatMap_congr below).symm

theorem containsFaultAny_eq (ns : List Node) :
    containsFaultAny ns = ns.any containsFault := by
  induction ns with
  | nil => rfl
  | cons n ns ih => rw [containsFaultAny, List.any_cons, ih]

theorem flaggedAll_iff {ns : List Node} : FlaggedAll ns ↔ ∀ n ∈ ns, n.Flagged := by
  induction ns with
  | nil => simp [FlaggedAll]
  | cons n ns ih => simp [FlaggedAll, ih]

theorem flagged_iff {n : Node} :
    n.Flagged ↔ n.label.hasFault = n.containsFault ∧ ∀ c ∈ n.children, c.Flagged := by
  cases n with
  | mk l cs => rw [Flagged, flaggedAll_iff, containsFault]; rfl

theorem Flagged.at? {n m : Node} {path : List Nat} (flagged : n.Flagged)
    (found : n.at? path = some m) : m.Flagged := by
  induction path generalizing n with
  | nil => exact Option.some.inj found ▸ flagged
  | cons i path ih =>
    obtain ⟨c, child, below⟩ := Option.bind_eq_some_iff.mp found
    exact ih ((flagged_iff.mp flagged).2 c (List.mem_of_getElem? child)) below

theorem topmostFaults_eq_nil_iff {n : Node} :
    n.topmostFaults = [] ↔ n.containsFault = false := by
  induction n using childwise with
  | step n ih =>
    have contains : n.containsFault = (n.label.isFault || n.children.any containsFault) := by
      cases n with
      | mk l cs => rw [containsFault, containsFaultAny_eq]; rfl
    cases fault : n.label.isFault with
    | true => simp [topmostFaults_of_isFault fault, contains, fault]
    | false =>
      rw [topmostFaults_of_not_isFault fault, List.flatMap_eq_nil_iff, contains, fault,
        Bool.false_or, List.any_eq_false]
      exact forall₂_congr fun c member => (ih c member).trans (by simp)

theorem not_precedes_above (above rest : List Nat) : ¬ Precedes (above ++ rest) above := by
  induction above with
  | nil =>
    intro before
    cases before
  | cons i above ih =>
    intro before
    cases before with
    | cons inner => exact ih inner
    | rel less => exact Nat.lt_irrefl i less

/-- The first fault in preorder. -/
def firstFault? (n : Node) : Option Node :=
  (n.addresses.find? (n.FaultAt ·)).bind n.at?

theorem mem_addresses_above {n : Node} {path : List Nat} (member : path ∈ n.addresses) (k : Nat) :
    path.take k ∈ n.addresses := by
  rw [mem_addresses] at member ⊢
  rw [← List.take_append_drop k path, at?_append] at member
  cases found : n.at? (path.take k) with
  | none => simp [found] at member
  | some m => rfl

/-- An address stands behind those above it, so the first fault has no fault above it. -/
theorem find?_topmostFaultAt (n : Node) :
    n.addresses.find? (n.TopmostFaultAt ·) = n.addresses.find? (n.FaultAt ·) := by
  cases first : n.addresses.find? (n.FaultAt ·) with
  | none =>
    refine List.find?_eq_none.mpr fun path member topmost => ?_
    exact List.find?_eq_none.mp first path member (decide_eq_true (of_decide_eq_true topmost).1)
  | some path =>
    obtain ⟨fault, before, behind, split, clear⟩ := List.find?_eq_some_iff_append.mp first
    have none_before : ∀ q ∈ before, ¬ n.FaultAt q := by
      intro q member
      simpa using clear q member
    have sorted := n.pairwise_addresses
    rw [split, List.pairwise_append, List.pairwise_cons] at sorted
    refine List.find?_eq_some_iff_append.mpr ⟨decide_eq_true ⟨of_decide_eq_true fault, ?_⟩,
      before, behind, split, fun q member => ?_⟩
    swap
    · simpa using fun topmost : n.TopmostFaultAt q => none_before q member topmost.1
    intro k less above
    have here : path ∈ n.addresses := by
      rw [split]
      exact List.mem_append_right _ List.mem_cons_self
    have member := mem_addresses_above here k
    rw [split] at member
    rcases List.mem_append.mp member with front | rest
    · exact none_before _ front above
    · rcases List.mem_cons.mp rest with same | later
      · have lengths := congrArg List.length same
        rw [List.length_take] at lengths
        omega
      · have order := sorted.2.1.1 _ later
        refine not_precedes_above (path.take k) (path.drop k) ?_
        rwa [List.take_append_drop]

theorem head?_topmostFaults (n : Node) : n.topmostFaults.head? = n.firstFault? := by
  have listed := congrArg List.head? n.topmostFaults_eq
  rw [List.head?_map, List.head?_map, List.head?_filter, find?_topmostFaultAt] at listed
  rw [firstFault?]
  cases first : n.addresses.find? (n.FaultAt ·) with
  | none =>
    rw [first] at listed
    simpa using listed
  | some path =>
    rw [first] at listed
    obtain ⟨m, head, same⟩ := Option.map_eq_some_iff.mp listed
    rw [head, Option.bind_some, same]

end SyntaxReport.Node
