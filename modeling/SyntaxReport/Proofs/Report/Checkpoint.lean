/- A tally that is put away along a run and read back: nothing that is written of it later changes,
though its time may have been cut to what can be written. -/
import SyntaxReport.Proofs.Report.Form
import SyntaxReport.Proofs.Report.Tally

namespace SyntaxReport

open Form

namespace Duration

/-- The span, or the longest one that is written in full. -/
def cut (d : Duration) : Duration := ⟨min d.nanos (wordBound - 1)⟩

theorem cut_nanos_lt (d : Duration) : d.cut.nanos < wordBound := by
  have some_words : 0 < wordBound := by decide
  have limit : d.cut.nanos ≤ wordBound - 1 := Nat.min_le_right ..
  omega

theorem cut_eq_self_iff {d : Duration} : d.cut = d ↔ d.nanos ≤ wordBound - 1 := by
  constructor
  · intro same
    exact min_eq_left_iff.mp (congrArg Duration.nanos same)
  · intro short
    exact congrArg Duration.mk (Nat.min_eq_left short)

theorem write_cut (d : Duration) : write d.cut = write d :=
  congrArg Json.nat (Nat.min_eq_left (Nat.min_le_right ..))

/-- A sum is cut alike whether or not its parts were cut before. -/
theorem cut_add_congr {a b c d : Duration} (left : a.cut = b.cut) (right : c.cut = d.cut) :
    (a + c).cut = (b + d).cut := by
  have first : min a.nanos (wordBound - 1) = min b.nanos (wordBound - 1) :=
    congrArg Duration.nanos left
  have second : min c.nanos (wordBound - 1) = min d.nanos (wordBound - 1) :=
    congrArg Duration.nanos right
  apply congrArg Duration.mk
  change min (a.nanos + c.nanos) (wordBound - 1) = min (b.nanos + d.nanos) (wordBound - 1)
  omega

end Duration

namespace Tally

/-- The tally with its time cut. -/
def cut (t : Tally) : Tally := { t with time := t.time.cut }

theorem write_cut (t : Tally) : write t.cut = write t := by
  have shape (a : Tally) : write a = .obj (keys.zip a.values) := rfl
  rw [shape, shape]
  simp only [values, cut, Duration.write_cut]

theorem ofJson?_write_eq_cut (t : Tally) : ofJson? (write t) = some t.cut := by
  have fits : t.cut.Fits := t.time.cut_nanos_lt
  rw [← write_cut, ofJson?_write fits]

theorem cut_eq_self_iff {t : Tally} : t.cut = t ↔ t.time.nanos ≤ wordBound - 1 := by
  rw [← Duration.cut_eq_self_iff]
  constructor
  · intro same
    exact congrArg Tally.time same
  · intro same
    rw [cut, same]

/-- One tally stands in for another: the same is written of both, and its time is no longer. -/
structure StandsFor (a b : Tally) : Prop where
  cut : a.cut = b.cut
  time_le : a.time.nanos ≤ b.time.nanos

namespace StandsFor

variable {a b c d : Tally}

theorem refl (a : Tally) : StandsFor a a := ⟨rfl, Nat.le_refl _⟩

theorem write_eq (stands : StandsFor a b) : write a = write b := by
  rw [← a.write_cut, stands.cut, b.write_cut]

theorem counters (stands : StandsFor a b) : a = { b with time := a.time } := by
  have same := stands.cut
  simp only [Tally.cut, Tally.mk.injEq] at same
  obtain ⟨attempted, succeeded, failed, _, nodes, diagnostics⟩ := same
  rw [Tally.mk.injEq]
  exact ⟨attempted, succeeded, failed, rfl, nodes, diagnostics⟩

/-- What is read back stands for the tally too. -/
theorem reread (stands : StandsFor a b) : StandsFor a.cut b where
  cut := by
    rw [← stands.cut]
    exact cut_eq_self_iff.mpr (Nat.min_le_right ..)
  time_le := Nat.le_trans (Nat.min_le_left ..) stands.time_le

theorem add (left : StandsFor a b) (right : StandsFor c d) : StandsFor (a + c) (b + d) where
  cut := by
    have time := Duration.cut_add_congr (congrArg Tally.time left.cut)
      (congrArg Tally.time right.cut)
    rw [left.counters, right.counters]
    exact congrArg (fun time => { b + d with time }) time
  time_le := Nat.add_le_add left.time_le right.time_le

theorem apply (stands : StandsFor a b) (step : Step) : StandsFor (a.apply step) (b.apply step) := by
  cases step with
  | set value => exact .refl value
  | add other => exact stands.add (.refl other)
  | double => exact stands.add stands
  | reset => exact .refl zero

end StandsFor

/-- A run over some steps. After each step that says so, the tally gives way to what is read back
of it. -/
def resume? (t : Tally) : List (Step × Bool) → Option Tally
  | [] => some t
  | (step, putAway) :: rest => do
    let next ← if putAway then ofJson? (write (t.apply step)) else some (t.apply step)
    next.resume? rest

theorem exists_resume? {a b : Tally} (stands : StandsFor a b) (plan : List (Step × Bool)) :
    ∃ last, a.resume? plan = some last ∧
      StandsFor last ((plan.map Prod.fst).foldl Tally.apply b) := by
  induction plan generalizing a b with
  | nil => exact ⟨a, rfl, stands⟩
  | cons first rest ih =>
    obtain ⟨step, putAway⟩ := first
    have next := stands.apply step
    cases putAway with
    | false => exact ih next
    | true =>
      obtain ⟨last, reached, later⟩ := ih next.reread
      refine ⟨last, ?_, later⟩
      simp only [resume?, if_true, ofJson?_write_eq_cut]
      exact reached

/-- A tally may be put away and read back after any steps of a run: at every point the same is
written of it as without, also once its time is too long to be written in full. Its counters are
the same and its time is no longer, so no sum of times grows beyond one of the run without. A tally
comes back equal exactly while its time can be written in full. -/
theorem resumed_written_alike (t : Tally) (plan : List (Step × Bool)) :
    (∃ last, t.resume? plan = some last ∧
      write last = write ((plan.map Prod.fst).foldl Tally.apply t) ∧
      last = { (plan.map Prod.fst).foldl Tally.apply t with time := last.time } ∧
      last.time.nanos ≤ ((plan.map Prod.fst).foldl Tally.apply t).time.nanos) ∧
    ∀ a : Tally, ofJson? (write a) = some a ↔ a.time.nanos ≤ 2 ^ 64 - 1 := by
  constructor
  · obtain ⟨last, reached, stands⟩ := exists_resume? (.refl t) plan
    exact ⟨last, reached, stands.write_eq, stands.counters, stands.time_le⟩
  · intro a
    rw [ofJson?_write_eq_cut, Option.some_inj, cut_eq_self_iff]
    exact Iff.rfl

end Tally
end SyntaxReport
