/- Which unit of a program is reported to be linked with another grammar. -/
import SyntaxReport.Language.Linked

namespace SyntaxReport.LinkedUnits

/-- A program passes exactly if there is a grammar and every unit has it. Otherwise the first unit
that has another one is named, and the one in C++ only where that in C is right. -/
theorem check_eq_iff (u : LinkedUnits) :
    (u.check = .ok () ↔ u.own ≠ 0 ∧ u.inC = u.own ∧ u.inCpp = u.own) ∧
    (u.check = .error .absent ↔ u.own = 0) ∧
    ∀ unit, u.check = .error (.mismatch unit) ↔
      u.own ≠ 0 ∧ (unit = "C" ∧ u.inC ≠ u.own ∨
        unit = "C++" ∧ u.inC = u.own ∧ u.inCpp ≠ u.own) := by
  unfold check
  by_cases absent : u.own = 0
  · simp [absent]
  · by_cases inC : u.inC = u.own
    · by_cases inCpp : u.inCpp = u.own
      · simp [absent, inC, inCpp]
      · simpa [absent, inC, inCpp] using fun unit => eq_comm
    · simpa [absent, inC] using fun unit => eq_comm

/-- Units that pass share their grammar. -/
theorem agree_of_check {u : LinkedUnits} (passes : u.check = .ok ()) : u.agree = true := by
  obtain ⟨_, inC, inCpp⟩ := u.check_eq_iff.1.mp passes
  exact decide_eq_true (inC.trans inCpp.symm)

end SyntaxReport.LinkedUnits
