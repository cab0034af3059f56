/- The iteration over an outline lists its symbols in preorder. -/
import Mathlib.Data.List.Basic
import SyntaxReport.Outline.Basic

namespace SyntaxReport

namespace Symbol

/-- A property holds of every symbol once it passes from the members to the symbol. -/
theorem memberwise {P : Symbol → Prop} (step : ∀ s : Symbol, (∀ t ∈ s.children, P t) → P s)
    (s : Symbol) : P s := by
  refine Symbol.rec (motive_1 := P) (motive_2 := fun symbols => ∀ t ∈ symbols, P t) ?_ ?_ ?_ s
  · intro name kind visibility lineStart lineEnd documentation children ih
    exact step ⟨name, kind, visibility, lineStart, lineEnd, documentation, children⟩ ih
  · intro t member
    cases member
  · intro s symbols here later t member
    cases member with
    | head => exact here
    | tail _ member => exact later t member

mutual

/-- The symbol and everything below it in preorder, each with its depth. -/
def levels (depth : Nat) : Symbol → List (Nat × Symbol)
  | ⟨name, kind, visibility, lineStart, lineEnd, documentation, children⟩ =>
    (depth, ⟨name, kind, visibility, lineStart, lineEnd, documentation, children⟩) ::
      levelsAll (depth + 1) children

def levelsAll (depth : Nat) : List Symbol → List (Nat × Symbol)
  | [] => []
  | s :: rest => s.levels depth ++ levelsAll depth rest

end

theorem levels_eq (depth : Nat) (s : Symbol) :
    s.levels depth = (depth, s) :: levelsAll (depth + 1) s.children := by
  cases s with
  | mk => rfl

theorem preorder_eq (s : Symbol) : s.preorder = s :: preorderAll s.children := by
  cases s with
  | mk => rfl

theorem levelsAll_eq (depth : Nat) (symbols : List Symbol) :
    levelsAll depth symbols = symbols.flatMap (levels depth) := by
  induction symbols with
  | nil => rfl
  | cons s rest ih => rw [levelsAll, List.flatMap_cons, ih]

theorem preorderAll_eq (symbols : List Symbol) : preorderAll symbols = symbols.flatMap preorder := by
  induction symbols with
  | nil => rfl
  | cons s rest ih => rw [preorderAll, List.flatMap_cons, ih]

theorem preorderAll_append (xs ys : List Symbol) :
    preorderAll (xs ++ ys) = preorderAll xs ++ preorderAll ys := by
  induction xs with
  | nil => rfl
  | cons s rest ih => rw [List.cons_append, preorderAll, preorderAll, ih, List.append_assoc]

/-- A symbol without its members. -/
def bare (s : Symbol) : Symbol := { s with children := [] }

/-- The symbols and everything below them in preorder, each with its depth, without members. -/
def entries (depth : Nat) (symbols : List Symbol) : List (Nat × Symbol) :=
  (levelsAll depth symbols).map fun (k, s) => (k, s.bare)

theorem levelsAll_flatMap {α : Type} (depth : Nat) (xs : List α) (f : α → List Symbol) :
    levelsAll depth (xs.flatMap f) = xs.flatMap fun x => levelsAll depth (f x) := by
  simp only [levelsAll_eq, List.flatMap_assoc]

theorem levelsAll_of_leaves {depth : Nat} {symbols : List Symbol}
    (leaves : ∀ s ∈ symbols, s.children = []) :
    levelsAll depth symbols = symbols.map (depth, ·) := by
  induction symbols with
  | nil => rfl
  | cons s rest ih =>
    rw [levelsAll, levels_eq, leaves s List.mem_cons_self, levelsAll,
      ih fun t member => leaves t (List.mem_cons_of_mem s member)]
    rfl

mutual

theorem map_snd_levels (depth : Nat) (s : Symbol) :
    (s.levels depth).map Prod.snd = s.preorder := by
  match s with
  | ⟨name, kind, visibility, lineStart, lineEnd, documentation, children⟩ =>
    rw [levels, preorder, List.map_cons, map_snd_levelsAll]

theorem map_snd_levelsAll (depth : Nat) (symbols : List Symbol) :
    (levelsAll depth symbols).map Prod.snd = preorderAll symbols := by
  match symbols with
  | [] => rfl
  | s :: rest =>
    rw [levelsAll, preorderAll, List.map_append, map_snd_levels, map_snd_levelsAll]

end

end Symbol

namespace Outline

theorem Iterator.toList_eq (it : Iterator) : it.toList = Symbol.preorderAll it.stack := by
  induction it using Iterator.toList.induct with
  | case1 it stopped =>
    obtain ⟨stack⟩ := it
    cases stack with
    | nil =>
      rw [Iterator.toList]
      rfl
    | cons s rest => cases stopped
  | case2 it s later advanced ih =>
    obtain ⟨stack⟩ := it
    cases stack with
    | nil => cases advanced
    | cons t rest =>
      cases advanced
      rw [Iterator.toList]
      change s :: Iterator.toList ⟨s.children ++ rest⟩ = _
      rw [ih, Symbol.preorderAll_append, Symbol.preorderAll, Symbol.preorder_eq]
      rfl

theorem toList_eq (o : Outline) : o.toList = Symbol.preorderAll o.symbols :=
  Iterator.toList_eq ⟨o.symbols⟩

end Outline
end SyntaxReport
