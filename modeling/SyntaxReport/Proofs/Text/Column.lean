/- The column of an offset, counted back to the last line feed in front of it. -/
import Mathlib.Data.List.Induction
import SyntaxReport.Proofs.Text.Position

namespace SyntaxReport

/-- The difference of two counts, if it is a count. -/
def difference? (m n : Nat) : Option Nat := if n ≤ m then some (m - n) else none

theorem difference?_of_le {m n : Nat} (le : n ≤ m) : difference? m n = some (m - n) := if_pos le

namespace Position

/-- The index of the last line feed. -/
def lastFeed? : Bytes → Option Nat
  | [] => none
  | b :: rest =>
    match lastFeed? rest with
    | some i => some (i + 1)
    | none => if b = 10 then some 0 else none

/-- The column behind some bytes, if all differences that it takes are counts. -/
def column? (front : Bytes) : Option Nat :=
  match lastFeed? front with
  | none => some front.length
  | some feed => do difference? (← difference? front.length feed) 1

/-- The position of an offset, if there are so many bytes. -/
def reckon? (bytes : Bytes) (offset : Nat) : Option Position :=
  if offset ≤ bytes.length then do
    let front := bytes.take offset
    some ⟨front.count 10, ← column? front⟩
  else none

theorem lastFeed?_concat (front : Bytes) (b : UInt8) :
    lastFeed? (front ++ [b]) = if b = 10 then some front.length else lastFeed? front := by
  induction front with
  | nil => rfl
  | cons a front ih =>
    rw [List.cons_append, lastFeed?, ih, lastFeed?]
    by_cases feed : b = 10
    · rw [if_pos feed, if_pos feed]
      rfl
    · rw [if_neg feed, if_neg feed]

theorem lastFeed?_lt {front : Bytes} {feed : Nat} (found : lastFeed? front = some feed) :
    feed < front.length := by
  induction front using List.reverseRecOn with
  | nil => cases found
  | append_singleton front b ih =>
    rw [lastFeed?_concat] at found
    rw [List.length_append, List.length_singleton]
    split at found
    · cases found
      exact Nat.lt_succ_self _
    · exact Nat.lt_succ_of_lt (ih found)

theorem column?_of_none {front : Bytes} (none : lastFeed? front = none) :
    column? front = some front.length := by
  rw [column?, none]

theorem column?_of_some {front : Bytes} {feed : Nat} (found : lastFeed? front = some feed) :
    column? front = some (front.length - feed - 1) := by
  have less := lastFeed?_lt found
  rw [column?, found]
  dsimp only
  rw [difference?_of_le (Nat.le_of_lt less)]
  exact difference?_of_le (Nat.sub_pos_of_lt less)

theorem extent_concat (front : Bytes) (b : UInt8) :
    extent (front ++ [b]) = (extent front).advance b := by
  rw [extent, List.foldl_append]
  rfl

/-- No difference fails, and the column is the one that a walk over the bytes ends at. -/
theorem column?_eq (front : Bytes) : column? front = some (extent front).column := by
  induction front using List.reverseRecOn with
  | nil => rfl
  | append_singleton front b ih =>
    have last := lastFeed?_concat front b
    have longer : (front ++ [b]).length = front.length + 1 := by
      rw [List.length_append, List.length_singleton]
    rw [extent_concat, advance]
    by_cases feed : b = 10
    · rw [if_pos feed] at last ⊢
      rw [column?_of_some last, longer, Nat.add_sub_cancel_left]
    · rw [if_neg feed] at last ⊢
      cases found : lastFeed? front with
      | none =>
        rw [column?_of_none found] at ih
        rw [column?_of_none (last.trans found), longer, Option.some.inj ih]
      | some place =>
        have less := lastFeed?_lt found
        rw [column?_of_some found] at ih
        have column := Option.some.inj ih
        rw [column?_of_some (last.trans found), longer, Option.some.injEq]
        dsimp only
        omega

/-- A position can be reckoned up to the end of the bytes, and is the one that counts from their
start. -/
theorem reckon?_eq (bytes : Bytes) (offset : Nat) :
    reckon? bytes offset =
      if offset ≤ bytes.length then some (ofOffset bytes offset) else none := by
  rw [reckon?]
  split
  · have row := row_ofOffset bytes offset
    dsimp only
    rw [column?_eq, ← row]
    rfl
  · rfl

end Position
end SyntaxReport
