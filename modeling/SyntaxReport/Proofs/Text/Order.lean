/- Positions grow with the offset, and add up over texts that follow one another. -/
import Mathlib.Order.Interval.Set.Basic
import SyntaxReport.Proofs.Text.Column

namespace SyntaxReport.Position

attribute [ext] Position

theorem le_iff {p q : Position} :
    p ≤ q ↔ p.row < q.row ∨ p.row = q.row ∧ p.column ≤ q.column := Iff.rfl

theorem lt_iff {p q : Position} :
    p < q ↔ p.row < q.row ∨ p.row = q.row ∧ p.column < q.column := Iff.rfl

instance : Preorder Position where
  le_refl p := .inr ⟨rfl, Nat.le_refl _⟩
  le_trans p q r first second := by
    rw [le_iff] at *
    omega
  lt_iff_le_not_ge p q := by
    rw [lt_iff, le_iff, le_iff]
    omega

theorem row_add (p q : Position) : (p + q).row = p.row + q.row := by
  change (p.add q).row = _
  unfold add
  split
  · next none => rw [none, Nat.add_zero]
  · rfl

/-- Only over a text of one row does the column go on. -/
theorem column_add (p q : Position) :
    (p + q).column = if q.row = 0 then p.column + q.column else q.column := by
  change (p.add q).column = _
  unfold add
  split <;> rfl

theorem add_advance (p q : Position) (b : UInt8) : p + q.advance b = (p + q).advance b := by
  unfold advance
  -- a line feed ends the row that `q` is in, and so it makes the sum one of several rows
  by_cases feed : b = 10
  · rw [if_pos feed, if_pos feed]
    ext
    · rw [row_add, row_add, Nat.add_assoc]
    · rw [column_add, if_neg (Nat.succ_ne_zero q.row)]
  · rw [if_neg feed, if_neg feed]
    ext
    · rw [row_add, row_add]
    · rw [column_add, column_add]
      split
      · rw [Nat.add_assoc]
      · rfl

/-- The end of two texts lies behind that of the first by the extent of the second. -/
theorem extent_append (xs ys : Bytes) : extent (xs ++ ys) = extent xs + extent ys := by
  induction ys using List.reverseRecOn with
  | nil => rw [List.append_nil]; rfl
  | append_singleton ys b ih =>
    rw [← List.append_assoc, extent_concat, extent_concat, ih, add_advance]

theorem lt_advance (p : Position) (b : UInt8) : p < p.advance b := by
  rw [lt_iff, advance]
  split
  · exact .inl (Nat.lt_succ_self _)
  · exact .inr ⟨rfl, Nat.lt_succ_self _⟩

theorem le_add (p q : Position) : p ≤ p + q := by
  rw [le_iff, row_add, column_add]
  split <;> omega

theorem lt_add_extent (p : Position) {bytes : Bytes} (some : bytes ≠ []) :
    p < p + extent bytes := by
  obtain ⟨front, b, rfl⟩ := (List.eq_nil_or_concat bytes).resolve_left some
  rw [List.concat_eq_append, extent_concat, add_advance]
  exact lt_of_le_of_lt (p.le_add (extent front)) (lt_advance _ b)

theorem ofOffset_add (bytes : Bytes) (i k : Nat) :
    ofOffset bytes (i + k) = ofOffset bytes i + extent ((bytes.drop i).take k) := by
  rw [ofOffset, List.take_add, extent_append]
  rfl

/-- A later offset has no earlier position, beyond the end of the bytes either. -/
theorem monotone_ofOffset (bytes : Bytes) : Monotone (ofOffset bytes) := by
  intro i j le
  obtain ⟨k, rfl⟩ := Nat.exists_eq_add_of_le le
  rw [ofOffset_add]
  exact le_add _ _

theorem row_mono (bytes : Bytes) {i j : Nat} (le : i ≤ j) :
    (ofOffset bytes i).row ≤ (ofOffset bytes j).row := by
  have order := monotone_ofOffset bytes le
  rw [le_iff] at order
  omega

/-- Up to the end of the bytes, a later offset has a later position. -/
theorem strictMonoOn_ofOffset (bytes : Bytes) :
    StrictMonoOn (ofOffset bytes) (Set.Iic bytes.length) := by
  intro i _ j within less
  obtain ⟨k, rfl⟩ := Nat.exists_eq_add_of_le (Nat.le_of_lt less)
  rw [ofOffset_add]
  refine lt_add_extent _ fun none => ?_
  have size := congrArg List.length none
  rw [List.length_take, List.length_drop, List.length_nil] at size
  have bound : i + k ≤ bytes.length := within
  omega

theorem reckon?_of_le {bytes : Bytes} {offset : Nat} (within : offset ≤ bytes.length) :
    reckon? bytes offset = some (ofOffset bytes offset) := by
  rw [reckon?_eq, if_pos within]

theorem reckon?_length (bytes : Bytes) : reckon? bytes bytes.length = some (extent bytes) := by
  rw [reckon?_of_le (Nat.le_refl _), ofOffset, List.take_length]

end SyntaxReport.Position
