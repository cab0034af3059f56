/- The identifiers that a pattern binds, by their addresses: through patterns in it of any depth,
labels left out. -/
import Mathlib.Data.List.Lex
import Mathlib.Data.List.Sort
import SyntaxReport.Proofs.Outline.Complete

namespace SyntaxReport

namespace Node

/-- The place of the identifier that a pattern marks as bound. -/
def markIndex? (n : Node) : Option Nat :=
  n.children.findIdx? (·.label.field = some .boundIdentifier)

/-- The address of an identifier that a pattern binds. Its younger siblings say whether an
identifier is a label. -/
inductive Binds (label : List Node → Bool) : Node → List Nat → Prop
  | marked {p : Node} {i : Nat} (first : p.markIndex? = some i) : Binds label p [i]
  | plain {p c : Node} {i : Nat} (unmarked : p.markIndex? = none)
      (child : p.children[i]? = some c) (named : c.label.named = true)
      (kind : c.kind = "simple_identifier")
      (free : label (p.children.drop (i + 1)) = false) : Binds label p [i]
  | inner {p c : Node} {i : Nat} {path : List Nat} (unmarked : p.markIndex? = none)
      (child : p.children[i]? = some c) (named : c.label.named = true)
      (kind : c.kind = "pattern") (below : Binds label c path) : Binds label p (i :: path)

/-- Whether an address is one of a bound identifier, decided from the pattern down. -/
def binds (label : List Node → Bool) : Node → List Nat → Bool
  | _, [] => false
  | p, [i] =>
    p.markIndex?.elim
      ((p.children[i]?).any fun c => c.label.named && decide (c.kind = "simple_identifier") &&
        !label (p.children.drop (i + 1)))
      fun j => decide (i = j)
  | p, i :: j :: path =>
    p.markIndex?.isNone && (p.children[i]?).any fun c => c.label.named &&
      decide (c.kind = "pattern") && binds label c (j :: path)

theorem not_binds_nil {label : List Node → Bool} {p : Node} : ¬ Binds label p [] := by
  intro bound
  cases bound

theorem binds_iff {label : List Node → Bool} {p : Node} {path : List Nat} :
    Binds label p path ↔ p.binds label path = true := by
  constructor
  · intro bound
    induction bound with
    | marked first => simp [binds, first]
    | plain unmarked child named kind free => simp [binds, unmarked, child, named, kind, free]
    | @inner p c i path unmarked child named kind below ih =>
      cases path with
      | nil => exact absurd below not_binds_nil
      | cons j path => simp [binds, unmarked, child, named, kind, ih]
  · intro bound
    induction p, path using binds.induct with
    | case1 p => cases bound
    | case2 p i =>
      rw [binds] at bound
      cases mark : p.markIndex? with
      | some j =>
        rw [mark, Option.elim_some, decide_eq_true_iff] at bound
        cases bound
        exact .marked mark
      | none =>
        rw [mark, Option.elim_none, Option.any_eq_true] at bound
        obtain ⟨c, child, facts⟩ := bound
        simp only [Bool.and_eq_true, decide_eq_true_eq, Bool.not_eq_true'] at facts
        exact .plain mark child facts.1.1 facts.1.2 facts.2
    | case3 p i j path ih =>
      rw [binds, Bool.and_eq_true, Option.isNone_iff_eq_none, Option.any_eq_true] at bound
      obtain ⟨unmarked, c, child, facts⟩ := bound
      simp only [Bool.and_eq_true, decide_eq_true_eq] at facts
      exact .inner unmarked child facts.1.1 facts.1.2 (ih c facts.2)

instance (label : List Node → Bool) (p : Node) (path : List Nat) :
    Decidable (Binds label p path) :=
  decidable_of_iff _ binds_iff.symm

/-- The addresses of the bound identifiers, in source order. -/
def bound (label : List Node → Bool) (p : Node) : List (List Nat) :=
  p.addresses.filter (Binds label p ·)

theorem mem_bound {label : List Node → Bool} {p : Node} {path : List Nat} :
    path ∈ p.bound label ↔ Binds label p path := by
  rw [bound, List.mem_filter, decide_eq_true_iff]
  refine and_iff_right_of_imp fun bound => mem_addresses.mpr ?_
  induction bound with
  | marked first =>
    obtain ⟨less, _⟩ := List.findIdx?_eq_some_iff_getElem.mp first
    rw [at?_singleton, List.getElem?_eq_getElem less]
    rfl
  | plain unmarked child named kind free =>
    rw [at?_singleton, child]
    rfl
  | inner unmarked child named kind below ih =>
    rw [at?_cons, child, Option.bind_some]
    exact ih

theorem pairwise_bound (label : List Node → Bool) (p : Node) :
    (p.bound label).Pairwise Precedes :=
  p.pairwise_addresses.filter _

/-- Where nothing is marked, an address leads to an identifier or into a pattern. -/
theorem binds_cons_iff {label : List Node → Bool} {p c : Node} {i : Nat} {path : List Nat}
    (unmarked : p.markIndex? = none) (child : p.children[i]? = some c) :
    Binds label p (i :: path) ↔ c.label.named = true ∧
      (c.kind = "pattern" ∧ Binds label c path ∨ path = [] ∧ c.kind = "simple_identifier" ∧
        label (p.children.drop (i + 1)) = false) := by
  constructor
  · intro bound
    cases bound with
    | marked first =>
      rw [unmarked] at first
      cases first
    | plain _ child' named kind free =>
      cases Option.some.inj (child.symm.trans child')
      exact ⟨named, .inr ⟨rfl, kind, free⟩⟩
    | inner _ child' named kind below =>
      cases Option.some.inj (child.symm.trans child')
      exact ⟨named, .inl ⟨kind, below⟩⟩
  · rintro ⟨named, ⟨kind, below⟩ | ⟨rfl, kind, free⟩⟩
    · exact .inner unmarked child named kind below
    · exact .plain unmarked child named kind free

theorem bound_marked {label : List Node → Bool} {p : Node} {i : Nat}
    (first : p.markIndex? = some i) : p.bound label = [[i]] := by
  have only : ∀ path, Binds label p path ↔ path = [i] := by
    intro path
    constructor
    · intro bound
      cases bound with
      | marked first' =>
        cases Option.some.inj (first.symm.trans first')
        rfl
      | plain unmarked =>
        rw [first] at unmarked
        cases unmarked
      | inner unmarked =>
        rw [first] at unmarked
        cases unmarked
    · rintro rfl
      exact .marked first
  have listed : ∀ path, path ∈ p.bound label ↔ path ∈ [[i]] := by
    intro path
    rw [mem_bound, only, List.mem_singleton]
  exact (p.pairwise_bound label).eq_of_mem_iff (List.pairwise_singleton _ _) listed

/-- What a child of a pattern without a mark binds, addressed from the child. -/
def partBound (label : List Node → Bool) (younger : List Node) (c : Node) : List (List Nat) :=
  if c.label.named = false then []
  else if c.kind = "pattern" then c.bound label
  else if c.kind = "simple_identifier" ∧ label younger = false then [[]]
  else []

theorem bound_unmarked {label : List Node → Bool} {p : Node} (unmarked : p.markIndex? = none) :
    p.bound label = p.children.zipIdx.flatMap fun (c, i) =>
      (c.partBound label (p.children.drop (i + 1))).map (i :: ·) := by
  rw [bound, addresses_eq, List.filter_cons, if_neg (by simp [not_binds_nil]), List.filter_flatMap]
  refine List.flatMap_congr fun (c, i) place => ?_
  have step : ∀ path, Binds label p (i :: path) ↔ c.label.named = true ∧
      (c.kind = "pattern" ∧ Binds label c path ∨ path = [] ∧ c.kind = "simple_identifier" ∧
        label (p.children.drop (i + 1)) = false) :=
    fun path => binds_cons_iff unmarked (mem_zipIdx_children.mp place)
  dsimp only
  rw [List.filter_map]
  congr 1
  unfold partBound
  split
  · next unnamed =>
    apply List.filter_eq_nil_iff.mpr
    intro path _
    simp [step, unnamed]
  · next named =>
    split
    · next kind =>
      apply List.filter_congr
      intro path _
      simp [step, named, kind]
    · next kind =>
      -- no pattern, so nothing below the child is bound
      have tail : (c.children.zipIdx.flatMap fun (d, k) => d.addresses.map (k :: ·)).filter
          ((fun path => decide (Binds label p path)) ∘ (i :: ·)) = [] := by
        apply List.filter_eq_nil_iff.mpr
        intro path member
        obtain ⟨_, _, inner⟩ := List.mem_flatMap.mp member
        obtain ⟨_, _, rfl⟩ := List.mem_map.mp inner
        simp [step, kind]
      rw [addresses_eq, List.filter_cons, tail]
      simp [step, named, kind]

/-- The text of the node at an address. -/
def textAt (source : Bytes) (p : Node) (path : List Nat) : List Char :=
  (p.at? path).elim [] (·.text source)

/-- The next sibling is a colon. -/
def beforeColon (younger : List Node) : Bool := decide (younger.head?.map kind = some ":")

end Node

namespace Declaration

theorem bindings_eq_elim (source : Bytes) (p : Node) :
    bindings source p = (p.childOf? .boundIdentifier).elim (bindingsAmong source p.children)
      fun c => [c.text source] := by
  cases p with
  | mk l parts =>
    rw [bindings, Node.childOf?, Node.children]
    cases parts.find? (·.label.field = some .boundIdentifier) with
    | none => rfl
    | some c => rfl

theorem bindings_marked {source : Bytes} {p : Node} {i : Nat} (first : p.markIndex? = some i) :
    bindings source p = [p.textAt source [i]] := by
  obtain ⟨c, child, found⟩ := Node.childOf?_of_findIdx? first
  rw [bindings_eq_elim, found, Node.textAt, Node.at?_singleton, child]
  rfl

theorem bindings_unmarked {source : Bytes} {p : Node} (unmarked : p.markIndex? = none) :
    bindings source p = bindingsAmong source p.children := by
  rw [bindings_eq_elim, Node.childOf?_of_findIdx?_none unmarked]
  rfl

/-- What a child of a pattern without a mark binds, if patterns bind what is bound in them. -/
theorem bindingsAmong_eq {source : Bytes} {cs front ns : List Node} (same : cs = front ++ ns)
    (inner : ∀ c ∈ ns,
      bindings source c = (c.bound Node.beforeColon).map (c.textAt source)) :
    bindingsAmong source ns = (ns.zipIdx front.length).flatMap fun (c, i) =>
      (c.partBound Node.beforeColon (cs.drop (i + 1))).map (c.textAt source) := by
  induction ns generalizing front with
  | nil => rfl
  | cons c ns ih =>
    have younger : cs.drop (front.length + 1) = ns := by
      rw [same, List.drop_append, List.drop_of_length_le (Nat.le_succ _)]
      simp
    have extended : cs = (front ++ [c]) ++ ns := by simp [same]
    have rest := ih extended fun d member => inner d (List.mem_cons_of_mem c member)
    rw [bindingsAmong, List.zipIdx_cons, List.flatMap_cons, rest, List.length_append,
      List.length_singleton]
    congr 1
    dsimp only
    rw [younger, Node.partBound]
    split
    · rfl
    · split
      · exact inner c List.mem_cons_self
      · simp only [Node.beforeColon, decide_eq_false_iff_not]
        split
        · rfl
        · rfl

/-- A pattern gives the texts of the identifiers that it binds. -/
theorem bindings_eq (source : Bytes) (p : Node) :
    bindings source p = (p.bound Node.beforeColon).map (p.textAt source) := by
  induction p using Node.childwise with
  | step p ih =>
    cases mark : p.markIndex? with
    | some i =>
      rw [bindings_marked mark, Node.bound_marked mark]
      rfl
    | none =>
      rw [bindings_unmarked mark, bindingsAmong_eq (List.nil_append _).symm ih,
        Node.bound_unmarked mark, List.map_flatMap]
      refine List.flatMap_congr fun (c, i) place => ?_
      have child := Node.mem_zipIdx_children.mp place
      rw [List.map_map]
      apply List.map_congr_left
      intro path _
      rw [Function.comp_apply, Node.textAt, Node.textAt, Node.at?_cons, child, Option.bind_some]

end Declaration
end SyntaxReport
