/- A batch report lists the outcomes of its files in order, reports and failures apart. -/
import SyntaxReport.Proofs.Report.Tally
import SyntaxReport.Report.Batch

namespace SyntaxReport

/-- The report without the time that it took. -/
def FileReport.untimed (f : FileReport) : FileReport := { f with time := .zero }

@[simp] theorem FileReport.untimed_untimed (f : FileReport) : f.untimed.untimed = f.untimed := rfl

namespace BatchReport

def untimed (b : BatchReport) : BatchReport where
  files := b.files.map FileReport.untimed
  failures := b.failures
  time := .zero

def failure? : Except (FilePath × String) FileReport → Option (FilePath × String)
  | .ok _ => none
  | .error failed => some failed

theorem foldl_add_eq (b : BatchReport) (outcomes : List (Except (FilePath × String) FileReport)) :
    outcomes.foldl add b =
      { files := b.files ++ outcomes.filterMap Except.toOption
        failures := b.failures ++ outcomes.filterMap failure?
        time := b.time + ((outcomes.filterMap Except.toOption).map (·.time)).sum } := by
  induction outcomes generalizing b with
  | nil => simp
  | cons outcome rest ih =>
    rw [List.foldl_cons, ih]
    cases outcome with
    | ok f => simp [add, List.filterMap_cons, Except.toOption, failure?, add_assoc]
    | error failed => simp [add, List.filterMap_cons, Except.toOption, failure?]

theorem ofOutcomes_eq (outcomes : List (Except (FilePath × String) FileReport)) :
    ofOutcomes outcomes =
      { files := outcomes.filterMap Except.toOption
        failures := outcomes.filterMap failure?
        time := ((outcomes.filterMap Except.toOption).map (·.time)).sum } := by
  rw [ofOutcomes, foldl_add_eq, empty, List.nil_append, List.nil_append]
  congr 1
  exact zero_add _

theorem toOption_map_untimed (outcome : Except (FilePath × String) FileReport) :
    (outcome.map FileReport.untimed).toOption = outcome.toOption.map FileReport.untimed := by
  cases outcome <;> rfl

theorem failure?_map_untimed (outcome : Except (FilePath × String) FileReport) :
    failure? (outcome.map FileReport.untimed) = failure? outcome := by
  cases outcome <;> rfl

/-- Batch reports tell times apart only by the times of their files. -/
theorem untimed_ofOutcomes (outcomes : List (Except (FilePath × String) FileReport)) :
    (ofOutcomes (outcomes.map (Except.map FileReport.untimed))).untimed =
      (ofOutcomes outcomes).untimed := by
  simp [ofOutcomes_eq, untimed, List.map_filterMap, List.filterMap_map, Function.comp_def,
    toOption_map_untimed, failure?_map_untimed]

end BatchReport
end SyntaxReport
