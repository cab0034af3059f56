/- Tallies add up, in any order. -/
import Mathlib.Algebra.BigOperators.Group.List.Basic
import Mathlib.Data.UInt
import SyntaxReport.Report.Tally

namespace SyntaxReport

instance : Zero Duration := ⟨.zero⟩

instance : AddCommMonoid Duration where
  add_assoc a b c := congrArg Duration.mk (Nat.add_assoc a.nanos b.nanos c.nanos)
  zero_add a := congrArg Duration.mk (Nat.zero_add a.nanos)
  add_zero _ := rfl
  add_comm a b := congrArg Duration.mk (Nat.add_comm a.nanos b.nanos)
  nsmul := nsmulRec

namespace Tally

instance : Zero Tally := ⟨zero⟩

theorem zero_eq : (0 : Tally) = ⟨0, 0, 0, 0, 0, 0⟩ := rfl

theorem add_eq (a b : Tally) :
    a + b = ⟨a.attempted + b.attempted, a.succeeded + b.succeeded, a.failed + b.failed,
      a.time + b.time, a.nodes + b.nodes, a.diagnostics + b.diagnostics⟩ := rfl

@[simp] theorem attempted_add (a b : Tally) : (a + b).attempted = a.attempted + b.attempted := rfl

@[simp] theorem succeeded_add (a b : Tally) : (a + b).succeeded = a.succeeded + b.succeeded := rfl

@[simp] theorem failed_add (a b : Tally) : (a + b).failed = a.failed + b.failed := rfl

@[simp] theorem nodes_add (a b : Tally) : (a + b).nodes = a.nodes + b.nodes := rfl

@[simp] theorem diagnostics_add (a b : Tally) :
    (a + b).diagnostics = a.diagnostics + b.diagnostics := rfl

instance : AddCommMonoid Tally where
  add_assoc a b c := by simp only [add_eq, add_assoc]
  zero_add a := by simp only [zero_eq, add_eq, zero_add]
  add_zero a := by simp only [zero_eq, add_eq, add_zero]
  add_comm a b := by simp only [add_eq, add_comm]
  nsmul := nsmulRec

end Tally
end SyntaxReport
