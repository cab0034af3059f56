/- The iteration over an outline as calls on a stack that grows at its end: it comes to a stop, and
it gives every symbol once, in preorder. What is asked of the symbols at any depth is answered from
this listing. -/
import SyntaxReport.Proofs.Outline.Iteration

namespace SyntaxReport

namespace Symbol

/-- A symbol stands among some symbols or somewhere below one of them. -/
inductive Among : List Symbol → Symbol → Prop
  | given {symbols : List Symbol} {s : Symbol} (member : s ∈ symbols) : Among symbols s
  | inside {symbols : List Symbol} {s t : Symbol} (member : t ∈ symbols)
      (deeper : Among t.children s) : Among symbols s

theorem eq_or_among_of_mem_preorder {s t : Symbol} (member : s ∈ t.preorder) :
    s = t ∨ Among t.children s := by
  induction t using memberwise with
  | step t ih =>
    rw [preorder_eq, preorderAll_eq] at member
    rcases List.mem_cons.mp member with same | later
    · exact .inl same
    · obtain ⟨u, child, below⟩ := List.mem_flatMap.mp later
      rcases ih u child below with rfl | deeper
      · exact .inr (.given child)
      · exact .inr (.inside child deeper)

theorem mem_preorderAll {symbols : List Symbol} {s : Symbol} :
    s ∈ preorderAll symbols ↔ Among symbols s := by
  constructor
  · intro member
    rw [preorderAll_eq] at member
    obtain ⟨t, top, below⟩ := List.mem_flatMap.mp member
    rcases eq_or_among_of_mem_preorder below with rfl | deeper
    · exact .given top
    · exact .inside top deeper
  · intro among
    induction among with
    | @given symbols s member =>
      rw [preorderAll_eq, List.mem_flatMap]
      refine ⟨s, member, ?_⟩
      rw [preorder_eq]
      exact List.mem_cons_self
    | @inside symbols s t member _ ih =>
      rw [preorderAll_eq, List.mem_flatMap]
      refine ⟨t, member, ?_⟩
      rw [preorder_eq]
      exact List.mem_cons_of_mem t ih

mutual

theorem length_preorder (s : Symbol) : s.preorder.length = s.size := by
  match s with
  | ⟨name, kind, visibility, lineStart, lineEnd, documentation, children⟩ =>
    rw [preorder, size, List.length_cons, length_preorderAll]

theorem length_preorderAll (symbols : List Symbol) :
    (preorderAll symbols).length = sizeAll symbols := by
  match symbols with
  | [] => rfl
  | s :: rest =>
    rw [preorderAll, sizeAll, List.length_append, length_preorder, length_preorderAll]

end

theorem sizeAll_eq_zero_iff {symbols : List Symbol} : sizeAll symbols = 0 ↔ symbols = [] := by
  cases symbols with
  | nil => exact iff_of_true rfl rfl
  | cons s rest =>
    have pos := s.size_eq
    rw [sizeAll]
    exact iff_of_false (by omega) (List.cons_ne_nil s rest)

end Symbol

open SyntaxReport.Symbol

/-- The symbols that are still to be given, the next one at the end. -/
structure Stack where
  items : Array Symbol

namespace Stack

/-- A stack that gives some symbols from the first to the last. -/
def ofList (symbols : List Symbol) : Stack := ⟨symbols.reverse.toArray⟩

/-- Takes the symbol from the end and puts its members there, the first of them last. -/
def pop? (stack : Stack) : Option (Symbol × Stack) :=
  stack.items.back?.map fun s => (s, ⟨stack.items.pop ++ s.children.reverse⟩)

/-- The calls up to the one that finds the stack empty give these symbols. -/
inductive Gives : Stack → List Symbol → Prop
  | stopped {stack : Stack} (empty : stack.pop? = none) : Gives stack []
  | gave {stack later : Stack} {s : Symbol} {rest : List Symbol}
      (popped : stack.pop? = some (s, later)) (next : Gives later rest) : Gives stack (s :: rest)

theorem pop?_ofList_nil : (ofList []).pop? = none := rfl

theorem pop?_ofList_cons (s : Symbol) (rest : List Symbol) :
    (ofList (s :: rest)).pop? = some (s, ofList (s.children ++ rest)) := by
  simp [pop?, ofList]

theorem gives_preorderAll (symbols : List Symbol) :
    (ofList symbols).Gives (preorderAll symbols) := by
  induction room : sizeAll symbols using Nat.strongRecOn generalizing symbols with
  | _ bound ih =>
    cases symbols with
    | nil => exact .stopped pop?_ofList_nil
    | cons s rest =>
      have less : sizeAll (s.children ++ rest) < bound := by
        rw [← room, sizeAll_append, sizeAll, size_eq]
        omega
      have later := ih _ less (s.children ++ rest) rfl
      rw [preorderAll_append] at later
      rw [preorderAll, preorder_eq]
      exact .gave (pop?_ofList_cons s rest) later

theorem Gives.unique {stack : Stack} {xs ys : List Symbol} (first : stack.Gives xs)
    (second : stack.Gives ys) : xs = ys := by
  induction first generalizing ys with
  | stopped empty =>
    cases second with
    | stopped => rfl
    | gave popped => exact absurd (empty.symm.trans popped) (Option.some_ne_none _).symm
  | gave popped _ ih =>
    cases second with
    | stopped empty => exact absurd (empty.symm.trans popped) (Option.some_ne_none _).symm
    | gave again next =>
      cases popped.symm.trans again
      exact congrArg _ (ih next)

theorem gives_ofList_iff {symbols list : List Symbol} :
    (ofList symbols).Gives list ↔ list = preorderAll symbols := by
  constructor
  · intro given
    exact given.unique (gives_preorderAll symbols)
  · rintro rfl
    exact gives_preorderAll symbols

end Stack

namespace Outline

theorem find?_eq_some_iff {o : Outline} {name : String} {s : Symbol} :
    o.find? name = some s ↔ s.name = name ∧ ∃ front behind,
      preorderAll o.symbols = front ++ s :: behind ∧ ∀ t ∈ front, t.name ≠ name := by
  rw [find?, toList_eq, List.find?_eq_some_iff_append]
  simp

theorem find?_eq_none_iff {o : Outline} {name : String} :
    o.find? name = none ↔ ∀ s, Among o.symbols s → s.name ≠ name := by
  rw [find?, toList_eq, List.find?_eq_none]
  simp only [mem_preorderAll, decide_eq_true_eq, ne_eq]

theorem size_eq (o : Outline) : o.size = sizeAll o.symbols := by
  rw [size, toList_eq, length_preorderAll]

/-- An iteration over an outline stops, and what it gives is the preorder of its symbols: calls on
a stack that grows at its end give the same. It gives exactly the symbols at any depth, and as
many as there are, none only where the outline is empty. The first of a name in preorder is found
by that name, and a name is not found only where no symbol has it. The symbols of a kind come in
preorder too. -/
theorem iteration_eq_preorder (o : Outline) :
    (∀ list, (Stack.ofList o.symbols).Gives list ↔ list = preorderAll o.symbols) ∧
    o.toList = preorderAll o.symbols ∧
    (∀ s, s ∈ o.toList ↔ Among o.symbols s) ∧
    o.size = sizeAll o.symbols ∧
    (o.size = 0 ↔ o.isEmpty = true) ∧
    (∀ name s, o.find? name = some s ↔ s.name = name ∧ ∃ front behind,
      preorderAll o.symbols = front ++ s :: behind ∧ ∀ t ∈ front, t.name ≠ name) ∧
    (∀ name, o.find? name = none ↔ ∀ s, Among o.symbols s → s.name ≠ name) ∧
    (∀ kind, o.ofKind kind = (preorderAll o.symbols).filter (·.kind = kind)) := by
  refine ⟨fun _ => Stack.gives_ofList_iff, o.toList_eq, ?_, o.size_eq, ?_,
    fun _ _ => find?_eq_some_iff, fun _ => find?_eq_none_iff, ?_⟩
  · intro s
    rw [toList_eq, mem_preorderAll]
  · rw [size_eq, sizeAll_eq_zero_iff, isEmpty, List.isEmpty_iff]
  · intro kind
    rw [ofKind, toList_eq]

end Outline
end SyntaxReport
