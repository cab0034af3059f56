/- A batch report holds the outcome of each of its files, in order. -/
import SyntaxReport.Proofs.Report.Account
import SyntaxReport.Proofs.Report.Attempt

namespace SyntaxReport

theorem Attempt.path_of_ok {w : Workspace} {o : Options} {path : String} {f : FileReport}
    (success : (ofPath w o path).result = .ok f) : f.path = .ofText path := by
  obtain ⟨_, _, _, _, _, reported⟩ := exists_of_ok success
  rw [(Options.eq_of_reportTree reported).2]

namespace Reporter

/-- What a reporter answers about one file, times aside. -/
def outcome (r : Reporter) (w : Workspace) (path : String) : Except ReportError FileReport :=
  (r.reportFile w path).1.map FileReport.untimed

/-- The path and the message of an outcome that is no report. -/
def failure? (path : String) : Except ReportError FileReport → Option (FilePath × String)
  | .ok _ => none
  | .error error => some (.ofText path, error.message)

theorem outcome_eq (r : Reporter) (w : Workspace) (path : String) :
    r.outcome w path = (Attempt.ofPath w r.options path).result.map FileReport.untimed := rfl

theorem outcome_timed (r : Reporter) (w : Workspace) (elapsed : Parser → ParseRequest → Duration)
    (path : String) : r.outcome (w.timed elapsed) path = r.outcome w path :=
  congrArg Attempt.result (Attempt.ofPath_timed w elapsed r.options path)

/-- A report in a batch is the outcome of its path. -/
theorem toOption_outcome (r : Reporter) (w : Workspace) (path : String) :
    (Attempt.ofPath w r.options path).outcome.toOption.map (fun f => (f.path, f.untimed)) =
      (r.outcome w path).toOption.map (.ofText path, ·) := by
  rw [outcome_eq, Attempt.outcome]
  cases given : (Attempt.ofPath w r.options path).result with
  | ok f =>
    have same := Attempt.path_of_ok given
    exact congrArg some (Prod.ext same rfl)
  | error error => rfl

/-- A failure in a batch is that of its path. -/
theorem failure?_outcome (r : Reporter) (w : Workspace) (path : String) :
    BatchReport.failure? (Attempt.ofPath w r.options path).outcome =
      failure? path (r.outcome w path) := by
  rw [outcome_eq, Attempt.outcome]
  cases (Attempt.ofPath w r.options path).result with
  | ok f => rfl
  | error error =>
    rw [Attempt.path_ofPath]
    rfl

/-- The reports are those of the paths that have one, each under its path, and the failures are
those of all the others. -/
structure Collects (r : Reporter) (w : Workspace) (paths : List String) (report : BatchReport) :
    Prop where
  files : report.files.map (fun f => (f.path, f.untimed)) =
    paths.filterMap fun path => (r.outcome w path).toOption.map (.ofText path, ·)
  failures : report.failures = paths.filterMap fun path => failure? path (r.outcome w path)
  size : report.size = paths.length

theorem collects_of_reportBatch {r : Reporter} {w : Workspace} {s : Schedule} {paths : List String}
    {report : BatchReport} (given : (r.reportBatch w s paths).1 = .ok report) :
    r.Collects w paths report := by
  have staffed : r.Staffed s := reportBatch_eq_ok_iff.mp ⟨report, given⟩
  rw [reportBatch_eq staffed] at given
  obtain rfl := Except.ok.inj given
  refine ⟨?_, ?_, ?_⟩
  · rw [BatchReport.ofOutcomes_eq, List.map_map, List.filterMap_map, List.map_filterMap]
    exact List.filterMap_congr fun path _ => r.toOption_outcome w path
  · rw [BatchReport.ofOutcomes_eq]
    dsimp only
    rw [List.map_map, List.filterMap_map]
    exact List.filterMap_congr fun path _ => r.failure?_outcome w path
  · rw [BatchReport.size_ofOutcomes, List.length_map, List.length_map]

theorem Collects.timed {r : Reporter} {w : Workspace} {paths : List String} {report : BatchReport}
    (collected : r.Collects w paths report) (elapsed : Parser → ParseRequest → Duration) :
    r.Collects (w.timed elapsed) paths report := by
  obtain ⟨files, failures, size⟩ := collected
  refine ⟨?_, ?_, size⟩
  · simpa only [outcome_timed] using files
  · simpa only [outcome_timed] using failures

/-- No outcome depends on the tally. -/
theorem Collects.of_tally {r : Reporter} {w : Workspace} {paths : List String}
    {report : BatchReport} {tally : Tally}
    (collected : Collects { r with tally } w paths report) : r.Collects w paths report :=
  ⟨collected.files, collected.failures, collected.size⟩

/-- The reports of two batches one after another are those of one batch over both. -/
theorem Collects.append {r : Reporter} {w : Workspace} {paths more : List String}
    {earlier later whole : BatchReport} (first : r.Collects w paths earlier)
    (second : r.Collects w more later) (both : r.Collects w (paths ++ more) whole) :
    whole.files.map FileReport.untimed =
        earlier.files.map FileReport.untimed ++ later.files.map FileReport.untimed ∧
      whole.failures = earlier.failures ++ later.failures := by
  constructor
  · have files := both.files
    rw [List.filterMap_append, ← first.files, ← second.files, ← List.map_append] at files
    have untimed := congrArg (List.map Prod.snd) files
    simpa [List.map_map, Function.comp_def] using untimed
  · rw [both.failures, List.filterMap_append, ← first.failures, ← second.failures]

/-- Without workers a batch of any files is answered by a report, and with workers it is exactly if
they can be had. The report holds the outcome of each file once and in order, whatever time the
files take to parse again. Two batches, the second by the reporter that the first one leaves, come
to the same as one batch over the paths of both. -/
theorem batch_holds_outcomes (r : Reporter) (w : Workspace) (s : Schedule) (paths : List String) :
    (r.options.parallel = false →
      ∃ report, (r.step w s (.batch paths)).1 = .batch (.ok report)) ∧
    (r.options.parallel = true →
      ((∃ report, (r.step w s (.batch paths)).1 = .batch (.ok report)) ↔
        s.refusal r.options.workers = none)) ∧
    ∀ report, (r.step w s (.batch paths)).1 = .batch (.ok report) →
      (∀ elapsed, r.Collects (w.timed elapsed) paths report) ∧
      ∀ elapsed t u more later whole,
        ((r.step w s (.batch paths)).2.step (w.timed elapsed) t (.batch more)).1 =
          .batch (.ok later) →
        (r.step (w.timed elapsed) u (.batch (paths ++ more))).1 = .batch (.ok whole) →
        whole.files.map FileReport.untimed =
          report.files.map FileReport.untimed ++ later.files.map FileReport.untimed ∧
        whole.failures = report.failures ++ later.failures := by
  have answered : (∃ report, (r.step w s (.batch paths)).1 = .batch (.ok report)) ↔
      r.Staffed s := by
    refine Iff.trans ?_ (reportBatch_eq_ok_iff : (∃ report, (r.reportBatch w s paths).1 = _) ↔ _)
    exact exists_congr fun report => ⟨Answer.batch.inj, congrArg Answer.batch⟩
  refine ⟨?_, ?_, ?_⟩
  · intro alone
    exact answered.mpr fun shared => Bool.noConfusion (alone.symm.trans shared)
  · intro shared
    exact answered.trans ⟨fun staffed => staffed shared, fun built _ => built⟩
  · intro report given
    have staffed : r.Staffed s := answered.mp ⟨report, given⟩
    have first : r.Collects w paths report := collects_of_reportBatch (Answer.batch.inj given)
    refine ⟨first.timed, ?_⟩
    intro elapsed t u more later whole after both
    have left : (r.step w s (.batch paths)).2 =
        { r with tally := (r.reportBatch w s paths).2.tally } := by
      rw [step, reportBatch_eq staffed]
    rw [left] at after
    have second := collects_of_reportBatch (Answer.batch.inj after)
    have together : r.Collects (w.timed elapsed) (paths ++ more) whole :=
      collects_of_reportBatch (Answer.batch.inj both)
    exact (first.timed elapsed).append second.of_tally together

/-- A file twice and a path to nothing, by two workers and then alone. -/
theorem batch_comments :
    (pairReporter.step commentWorkspace (pairSchedule (· + 1))
      (.batch ["a.swift", "b.swift", "a.swift"])).1 = .batch (.ok commentBatch) ∧
    pairReporter.Collects commentWorkspace ["a.swift", "b.swift", "a.swift"] commentBatch ∧
    ∃ report, ((pairReporter.sharing false).step commentWorkspace nobody
      (.batch ["a.swift", "b.swift", "a.swift"])).1 = .batch (.ok report) := by
  have given : (pairReporter.step commentWorkspace (pairSchedule (· + 1))
      (.batch ["a.swift", "b.swift", "a.swift"])).1 = .batch (.ok commentBatch) := by
    rw [step, reportBatch_comments rfl]
  obtain ⟨_, _, holds⟩ := batch_holds_outcomes pairReporter commentWorkspace (pairSchedule (· + 1))
    ["a.swift", "b.swift", "a.swift"]
  obtain ⟨alone, _⟩ := batch_holds_outcomes (pairReporter.sharing false) commentWorkspace nobody
    ["a.swift", "b.swift", "a.swift"]
  exact ⟨given, (holds commentBatch given).1 commentWorkspace.engine.elapsed, alone rfl⟩

end Reporter
end SyntaxReport
