/- How long an engine takes shows in the times of the reports and nowhere else. -/
import SyntaxReport.Proofs.Report.Batch
import SyntaxReport.Report.Attempt

namespace SyntaxReport

/-- The engine that takes other times for its parses. -/
def Engine.timed (e : Engine) (elapsed : Parser → ParseRequest → Duration) : Engine :=
  { e with elapsed }

def Workspace.timed (w : Workspace) (elapsed : Parser → ParseRequest → Duration) : Workspace :=
  { w with engine := w.engine.timed elapsed }

namespace Options

theorem reportSource_of_some {o : Options} {e : Engine} {source : String} {tree : Node}
    (given : e.parse o.parser ⟨source, none⟩ = some tree) (path : String) :
    o.reportSource e source path =
      o.reportTree path source tree (e.elapsed o.parser ⟨source, none⟩) := by
  simp only [reportSource, Parser.parse, given]

theorem reportSource_of_none {o : Options} {e : Engine} {source : String}
    (given : e.parse o.parser ⟨source, none⟩ = none) (path : String) :
    o.reportSource e source path = .error (.timedOut path) := by
  simp only [reportSource, Parser.parse, given]

theorem reportTree_untimed (o : Options) (path source : String) (tree : Node)
    (time other : Duration) :
    (o.reportTree path source tree time).map FileReport.untimed =
      (o.reportTree path source tree other).map FileReport.untimed := by
  unfold reportTree
  cases o.rejectFaults && tree.label.hasFault <;> rfl

theorem reportSource_timed (o : Options) (e : Engine)
    (elapsed : Parser → ParseRequest → Duration) (source path : String) :
    (o.reportSource (e.timed elapsed) source path).map FileReport.untimed =
      (o.reportSource e source path).map FileReport.untimed := by
  cases given : e.parse o.parser ⟨source, none⟩ with
  | none =>
    have other : (e.timed elapsed).parse o.parser ⟨source, none⟩ = none := given
    rw [reportSource_of_none given, reportSource_of_none other]
  | some tree =>
    have other : (e.timed elapsed).parse o.parser ⟨source, none⟩ = some tree := given
    rw [reportSource_of_some given, reportSource_of_some other]
    exact o.reportTree_untimed path source tree _ _

end Options

namespace Attempt

def untimed (a : Attempt) : Attempt where
  path := a.path
  result := a.result.map FileReport.untimed
  time := .zero

theorem ofPath_timed (w : Workspace) (elapsed : Parser → ParseRequest → Duration) (o : Options)
    (path : String) : (ofPath (w.timed elapsed) o path).untimed = (ofPath w o path).untimed := by
  have same : o.readSource (w.timed elapsed).files path = o.readSource w.files path := rfl
  unfold ofPath
  rw [same]
  cases o.readSource w.files path with
  | error error => rfl
  | ok source =>
    simp only [untimed]
    rw [← o.reportSource_timed w.engine elapsed source path]
    rfl

theorem outcome_untimed (a : Attempt) :
    a.untimed.outcome = a.outcome.map FileReport.untimed := by
  obtain ⟨path, result, time⟩ := a
  cases result <;> rfl

/-- Attempts that differ in times alone are reported alike. -/
theorem untimed_report {as bs : List Attempt} (alike : as.map untimed = bs.map untimed) :
    (BatchReport.ofOutcomes (as.map outcome)).untimed =
      (BatchReport.ofOutcomes (bs.map outcome)).untimed := by
  have erased (cs : List Attempt) :
      (cs.map outcome).map (Except.map FileReport.untimed) = (cs.map untimed).map outcome := by
    simp [outcome_untimed]
  rw [← BatchReport.untimed_ofOutcomes (as.map outcome), erased, alike, ← erased,
    BatchReport.untimed_ofOutcomes]

end Attempt

namespace Tally

/-- The counters alone. -/
def untimed (t : Tally) : Tally := { t with time := .zero }

theorem untimed_add (a b : Tally) : (a + b).untimed = a.untimed + b.untimed := rfl

theorem untimed_sum (tallies : List Tally) :
    tallies.sum.untimed = (tallies.map untimed).sum := by
  induction tallies with
  | nil => rfl
  | cons t rest ih => rw [List.sum_cons, List.map_cons, List.sum_cons, untimed_add, ih]

theorem untimed_attempt (a : Attempt) : a.untimed.tally = a.tally.untimed := by
  obtain ⟨path, result, time⟩ := a
  cases result <;> rfl

/-- Attempts that differ in times alone are counted alike. -/
theorem untimed_attempts {as bs : List Attempt}
    (alike : as.map Attempt.untimed = bs.map Attempt.untimed) :
    (as.map Attempt.tally).sum.untimed = (bs.map Attempt.tally).sum.untimed := by
  have erased (cs : List Attempt) :
      (cs.map Attempt.tally).map untimed = (cs.map Attempt.untimed).map Attempt.tally := by
    simp [untimed_attempt]
  rw [untimed_sum, erased, alike, ← erased, ← untimed_sum]

end Tally
end SyntaxReport
