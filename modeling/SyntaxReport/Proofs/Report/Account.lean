/- A reporter's tally accounts for exactly the attempts made since it was last reset. -/
import Mathlib.Data.List.DropRight
import SyntaxReport.Proofs.Report.Workers

namespace SyntaxReport

namespace Tally

/-- The counters stand for these reports and so many failures, as far as they can count. -/
structure Holds (t : Tally) (reports : List FileReport) (failures : Nat) : Prop where
  attempted : t.attempted = .ofNat (reports.length + failures)
  succeeded : t.succeeded = .ofNat reports.length
  failed : t.failed = .ofNat failures
  nodes : t.nodes = .ofNat (reports.map (·.nodeCount)).sum
  diagnostics : t.diagnostics = .ofNat (reports.map (·.diagnostics.length)).sum

theorem holds_zero : (0 : Tally).Holds [] 0 := ⟨rfl, rfl, rfl, rfl, rfl⟩

theorem Holds.add {t u : Tally} {earlier later : List FileReport} {m n : Nat}
    (left : t.Holds earlier m) (right : u.Holds later n) :
    (t + u).Holds (earlier ++ later) (m + n) := by
  have places : (earlier ++ later).length + (m + n) =
      earlier.length + m + (later.length + n) := by
    rw [List.length_append]
    omega
  refine ⟨?_, ?_, ?_, ?_, ?_⟩
  · rw [attempted_add, left.attempted, right.attempted, places, ← UInt64.ofNat_add]
  · rw [succeeded_add, left.succeeded, right.succeeded, List.length_append, UInt64.ofNat_add]
  · rw [failed_add, left.failed, right.failed, UInt64.ofNat_add]
  · rw [nodes_add, left.nodes, right.nodes, List.map_append, List.sum_append, UInt64.ofNat_add]
  · rw [diagnostics_add, left.diagnostics, right.diagnostics, List.map_append, List.sum_append,
      UInt64.ofNat_add]

theorem holds_of_ok {a : Attempt} {f : FileReport} (given : a.result = .ok f) :
    a.tally.Holds [f] 0 := by
  rw [Attempt.tally, given]
  exact ⟨rfl, rfl, rfl, rfl, rfl⟩

theorem holds_of_error {a : Attempt} {error : ReportError} (given : a.result = .error error) :
    a.tally.Holds [] 1 := by
  rw [Attempt.tally, given]
  exact ⟨rfl, rfl, rfl, rfl, rfl⟩

/-- The attempts of a batch are counted as its report lists them. -/
theorem holds_attempts (attempts : List Attempt) :
    (attempts.map Attempt.tally).sum.Holds
      (BatchReport.ofOutcomes (attempts.map Attempt.outcome)).files
      (BatchReport.ofOutcomes (attempts.map Attempt.outcome)).failures.length := by
  rw [BatchReport.ofOutcomes_eq]
  induction attempts with
  | nil => exact holds_zero
  | cons a rest ih =>
    rw [List.map_cons, List.map_cons, List.sum_cons]
    cases given : a.result with
    | ok f =>
      have outcome : a.outcome = .ok f := by rw [Attempt.outcome, given]
      have both := (holds_of_ok given).add ih
      rw [outcome]
      rwa [Nat.zero_add] at both
    | error error =>
      have outcome : a.outcome = .error (.ofText a.path, error.message) := by
        rw [Attempt.outcome, given]
      have both := (holds_of_error given).add ih
      rw [outcome]
      rwa [Nat.add_comm 1] at both

end Tally

theorem BatchReport.size_ofOutcomes (outcomes : List (Except (FilePath × String) FileReport)) :
    (ofOutcomes outcomes).size = outcomes.length := by
  rw [ofOutcomes_eq, size]
  induction outcomes with
  | nil => rfl
  | cons outcome rest ih =>
    rw [List.length_cons, ← ih]
    cases outcome with
    | ok f => exact Nat.succ_add ..
    | error failed => exact Nat.add_succ ..

namespace Reporter

/-- A step, with the files, the engine and the workers that it meets. -/
structure Turn where
  workspace : Workspace
  schedule : Schedule
  step : Step

/-- The answers to the steps of some turns, and the reporter behind them. -/
def play (r : Reporter) : List Turn → List Answer × Reporter
  | [] => ([], r)
  | t :: rest =>
    let (answer, after) := r.step t.workspace t.schedule t.step
    let (answers, last) := after.play rest
    (answer :: answers, last)

theorem run_eq_play (r : Reporter) (w : Workspace) (s : Schedule) (steps : List Step) :
    r.run w s steps = r.play (steps.map (⟨w, s, ·⟩)) := by
  induction steps generalizing r with
  | nil => rfl
  | cons next rest ih => simp only [run, List.map_cons, play, ih]

namespace Turn

def answer (t : Turn) (r : Reporter) : Answer := (r.step t.workspace t.schedule t.step).1

def after (t : Turn) (r : Reporter) : Reporter := (r.step t.workspace t.schedule t.step).2

/-- The files that a turn with this answer made attempts on, in order. A batch without its workers
and a search that failed made none. -/
def paths (t : Turn) (r : Reporter) (answer : Answer) : List String :=
  match t.step, answer with
  | .file path, _ => [path]
  | .batch paths, .batch (.ok _) => paths
  | .below path, .batch (.ok _) => (r.pathsBelow t.workspace path).toOption.getD []
  | _, _ => []

/-- The reports on files that the answer to a turn gives, if the turn made attempts on files. -/
def reports (t : Turn) (answer : Answer) : List FileReport :=
  match t.step, answer with
  | .file _, .file (.ok f) => [f]
  | .batch _, .batch (.ok report) | .below _, .batch (.ok report) => report.files
  | _, _ => []

/-- How many of the files that it made attempts on the answer to a turn gives no report on. -/
def failures (t : Turn) (answer : Answer) : Nat :=
  match t.step, answer with
  | .file _, .file (.error _) => 1
  | .batch _, .batch (.ok report) | .below _, .batch (.ok report) => report.failures.length
  | _, _ => 0

/-- The tally grows by a turn as the answer shows, and each attempt comes to a report or a failure. -/
structure Counted (t : Turn) (r : Reporter) (growth : Tally) : Prop where
  after : t.after r = { r with tally := r.tally + growth }
  holds : growth.Holds (t.reports (t.answer r)) (t.failures (t.answer r))
  paths : (t.paths r (t.answer r)).length = (t.reports (t.answer r)).length + t.failures (t.answer r)

theorem counted_of_query {t : Turn} {r : Reporter} (after : t.after r = r)
    (reports : t.reports (t.answer r) = []) (failures : t.failures (t.answer r) = 0)
    (paths : t.paths r (t.answer r) = []) : t.Counted r 0 := by
  refine ⟨?_, ?_, ?_⟩
  · rw [after, add_zero]
  · rw [reports, failures]
    exact Tally.holds_zero
  · rw [reports, failures, paths]
    rfl

theorem counted_file (r : Reporter) (w : Workspace) (s : Schedule) (path : String) :
    (Turn.mk w s (.file path)).Counted r (Attempt.ofPath w r.options path).tally := by
  cases given : (Attempt.ofPath w r.options path).result with
  | ok f =>
    have shown : (Turn.mk w s (.file path)).answer r = .file (.ok f) := congrArg Answer.file given
    refine ⟨rfl, ?_, ?_⟩
    · rw [shown]
      exact Tally.holds_of_ok given
    · rw [shown]
      rfl
  | error error =>
    have shown : (Turn.mk w s (.file path)).answer r = .file (.error error) :=
      congrArg Answer.file given
    refine ⟨rfl, ?_, ?_⟩
    · rw [shown]
      exact Tally.holds_of_error given
    · rw [shown]
      rfl

theorem counted_batch {t : Turn} {r : Reporter} {paths : List String}
    (staffed : r.Staffed t.schedule)
    (same : r.step t.workspace t.schedule t.step =
      (.batch (r.reportBatch t.workspace t.schedule paths).1,
        (r.reportBatch t.workspace t.schedule paths).2))
    (shown : ∀ report, t.paths r (.batch (.ok report)) = paths ∧
      t.reports (.batch (.ok report)) = report.files ∧
      t.failures (.batch (.ok report)) = report.failures.length) :
    t.Counted r ((paths.map (Attempt.ofPath t.workspace r.options)).map Attempt.tally).sum := by
  rw [reportBatch_eq staffed] at same
  have answered : t.answer r = .batch (.ok (.ofOutcomes
      ((paths.map (Attempt.ofPath t.workspace r.options)).map Attempt.outcome))) := by
    rw [answer, same]
  obtain ⟨tried, reports, failures⟩ := shown (.ofOutcomes
    ((paths.map (Attempt.ofPath t.workspace r.options)).map Attempt.outcome))
  refine ⟨?_, ?_, ?_⟩
  · rw [after, same]
  · rw [answered, reports, failures]
    exact Tally.holds_attempts _
  · rw [answered, tried, reports, failures]
    have size := BatchReport.size_ofOutcomes
      ((paths.map (Attempt.ofPath t.workspace r.options)).map Attempt.outcome)
    rw [List.length_map, List.length_map] at size
    exact size.symm

/-- A batch that failed shows nothing and has made no attempts. -/
theorem shown_of_failed {t : Turn} {r : Reporter} {error : ReportError}
    (answered : t.answer r = .batch (.error error)) :
    t.reports (.batch (.error error)) = [] ∧ t.failures (.batch (.error error)) = 0 ∧
      t.paths r (.batch (.error error)) = [] := by
  obtain ⟨w, s, next⟩ := t
  cases next with
  | batch paths => exact ⟨rfl, rfl, rfl⟩
  | below path => exact ⟨rfl, rfl, rfl⟩
  | _ => cases answered

theorem counted_of_failed {t : Turn} {r : Reporter} {error : ReportError}
    (answered : t.answer r = .batch (.error error)) (after : t.after r = r) : t.Counted r 0 := by
  have shown := shown_of_failed answered
  rw [← answered] at shown
  exact counted_of_query after shown.1 shown.2.1 shown.2.2

theorem exists_counted_batch {t : Turn} {r : Reporter} {paths : List String}
    (same : r.step t.workspace t.schedule t.step =
      (.batch (r.reportBatch t.workspace t.schedule paths).1,
        (r.reportBatch t.workspace t.schedule paths).2))
    (shown : ∀ report, t.paths r (.batch (.ok report)) = paths ∧
      t.reports (.batch (.ok report)) = report.files ∧
      t.failures (.batch (.ok report)) = report.failures.length) :
    ∃ growth, t.Counted r growth := by
  rcases r.staffed_or_refused t.schedule with staffed | ⟨reason, shared, refused⟩
  · exact ⟨_, counted_batch staffed same shown⟩
  · rw [reportBatch_of_refused shared refused] at same
    exact ⟨0, counted_of_failed (congrArg Prod.fst same) (congrArg Prod.snd same)⟩

theorem exists_counted (t : Turn) (r : Reporter) (kept : t.step ≠ .resetTally) :
    ∃ growth, t.Counted r growth := by
  obtain ⟨w, s, next⟩ := t
  cases next with
  | file path => exact ⟨_, counted_file r w s path⟩
  | batch paths => exact exists_counted_batch rfl fun _ => ⟨rfl, rfl, rfl⟩
  | below path =>
    cases found : r.pathsBelow w path with
    | error error =>
      have failed : r.reportBelow w s path = (.error error, r) := by rw [reportBelow, found]
      have answered := congrArg (fun given => Answer.batch given.1) failed
      exact ⟨0, counted_of_failed answered (congrArg Prod.snd failed)⟩
    | ok paths =>
      have same : r.step w s (.below path) =
          (.batch (r.reportBatch w s paths).1, (r.reportBatch w s paths).2) := by
        change (Answer.batch (r.reportBelow w s path).1, (r.reportBelow w s path).2) = _
        rw [reportBelow, found]
      refine exists_counted_batch same fun report => ⟨?_, rfl, rfl⟩
      change (r.pathsBelow w path).toOption.getD [] = paths
      rw [found]
      rfl
  | resetTally => exact absurd rfl kept
  | _ => exact ⟨0, counted_of_query rfl rfl rfl rfl⟩

end Turn

theorem play_concat (r : Reporter) (turns : List Turn) (t : Turn) :
    r.play (turns ++ [t]) =
      ((r.play turns).1 ++ [t.answer (r.play turns).2], t.after (r.play turns).2) := by
  induction turns generalizing r with
  | nil => rfl
  | cons first rest ih => simp only [List.cons_append, play, ih]

theorem length_play (r : Reporter) (turns : List Turn) :
    (r.play turns).1.length = turns.length := by
  induction turns generalizing r with
  | nil => rfl
  | cons first rest ih => simp only [play, List.length_cons, ih]

/-- The turns behind the last reset, with the answers to them. -/
def sinceReset (turns : List Turn) (answers : List Answer) : List (Turn × Answer) :=
  (turns.zip answers).rtakeWhile fun (t, _) => t.step ≠ .resetTally

theorem sinceReset_concat {turns : List Turn} {answers : List Answer}
    (same : turns.length = answers.length) (t : Turn) (answer : Answer) :
    sinceReset (turns ++ [t]) (answers ++ [answer]) =
      if t.step = .resetTally then [] else sinceReset turns answers ++ [(t, answer)] := by
  rw [sinceReset, List.zip_append same, List.zip_cons_cons, List.zip_nil_right,
    List.rtakeWhile_concat]
  by_cases reset : t.step = .resetTally
  · simp [reset]
  · simp [reset, sinceReset]

/-- The files that some turns made attempts on, as often as they did. -/
def filesTried (r : Reporter) (record : List (Turn × Answer)) : List String :=
  record.flatMap fun (t, answer) => t.paths r answer

/-- The reports on files that these attempts came to. -/
def reportsGiven (record : List (Turn × Answer)) : List FileReport :=
  record.flatMap fun (t, answer) => t.reports answer

def failuresMet (record : List (Turn × Answer)) : Nat :=
  (record.map fun (t, answer) => t.failures answer).sum

theorem reportsGiven_concat (record : List (Turn × Answer)) (t : Turn) (answer : Answer) :
    reportsGiven (record ++ [(t, answer)]) = reportsGiven record ++ t.reports answer := by
  simp [reportsGiven]

theorem failuresMet_concat (record : List (Turn × Answer)) (t : Turn) (answer : Answer) :
    failuresMet (record ++ [(t, answer)]) = failuresMet record + t.failures answer := by
  simp [failuresMet]

/-- What a tally has to do with the record of the turns since it was zero. -/
structure Accounts (r now : Reporter) (record : List (Turn × Answer)) : Prop where
  unchanged : now = { r with tally := now.tally }
  holds : now.tally.Holds (reportsGiven record) (failuresMet record)
  tried : (filesTried r record).length = (reportsGiven record).length + failuresMet record

theorem accounts_zero {r now : Reporter} (reset : now = { r with tally := .zero }) :
    Accounts r now [] := by
  subst reset
  exact ⟨rfl, Tally.holds_zero, rfl⟩

theorem Accounts.turn {r now : Reporter} {record : List (Turn × Answer)}
    (accounts : Accounts r now record) {t : Turn} (kept : t.step ≠ .resetTally) :
    Accounts r (t.after now) (record ++ [(t, t.answer now)]) := by
  obtain ⟨growth, counted⟩ := t.exists_counted now kept
  have files : filesTried r (record ++ [(t, t.answer now)]) =
      filesTried r record ++ t.paths now (t.answer now) := by
    rw [accounts.unchanged]
    simp [filesTried]
    rfl
  refine ⟨?_, ?_, ?_⟩
  · rw [counted.after, accounts.unchanged]
  · rw [counted.after, reportsGiven_concat, failuresMet_concat]
    exact accounts.holds.add counted.holds
  · have before := accounts.tried
    have here := counted.paths
    rw [reportsGiven_concat, failuresMet_concat, files, List.length_append, List.length_append]
    omega

/-- Every turn keeps the account, and a reset starts it anew. -/
theorem accounts_play {r : Reporter} (fresh : r.tally = .zero) (turns : List Turn) :
    Accounts r (r.play turns).2 (sinceReset turns (r.play turns).1) := by
  induction turns using List.reverseRecOn with
  | nil =>
    refine accounts_zero ?_
    rw [← fresh]
    rfl
  | append_singleton turns t ih =>
    rw [play_concat, sinceReset_concat (r.length_play turns).symm]
    split
    · next reset =>
      have zeroed : t.after (r.play turns).2 = { (r.play turns).2 with tally := .zero } := by
        rw [Turn.after, reset]
        rfl
      refine accounts_zero ?_
      rw [zeroed, ih.unchanged]
    · next kept => exact ih.turn kept

/-- The counters that a record asks for are within the range of a counter. -/
structure Countable (r : Reporter) (record : List (Turn × Answer)) : Prop where
  files : (filesTried r record).length < Form.wordBound
  nodes : ((reportsGiven record).map (·.nodeCount)).sum < Form.wordBound
  diagnostics : ((reportsGiven record).map (·.diagnostics.length)).sum < Form.wordBound

theorem Accounts.toNat {r now : Reporter} {record : List (Turn × Answer)}
    (accounts : Accounts r now record) (countable : Countable r record) :
    now.tally.attempted.toNat = (reportsGiven record).length + failuresMet record ∧
      now.tally.succeeded.toNat = (reportsGiven record).length ∧
      now.tally.failed.toNat = failuresMet record ∧
      now.tally.nodes.toNat = ((reportsGiven record).map (·.nodeCount)).sum ∧
      now.tally.diagnostics.toNat = ((reportsGiven record).map (·.diagnostics.length)).sum := by
  have files := countable.files
  rw [accounts.tried] at files
  have counters := accounts.holds
  refine ⟨?_, ?_, ?_, ?_, ?_⟩
  · rw [counters.attempted, UInt64.toNat_ofNat_of_lt' files]
  · rw [counters.succeeded, UInt64.toNat_ofNat_of_lt' (Nat.lt_of_le_of_lt (by omega) files)]
  · rw [counters.failed, UInt64.toNat_ofNat_of_lt' (Nat.lt_of_le_of_lt (by omega) files)]
  · rw [counters.nodes, UInt64.toNat_ofNat_of_lt' countable.nodes]
  · rw [counters.diagnostics, UInt64.toNat_ofNat_of_lt' countable.diagnostics]

/-- Steps that make no attempts on files and leave the tally. -/
def Step.asks : Step → Bool
  | .file _ | .batch _ | .below _ | .resetTally => false
  | _ => true

theorem Turn.after_of_asks {t : Turn} (asks : t.step.asks = true) (r : Reporter) :
    t.after r = r := by
  obtain ⟨w, s, next⟩ := t
  cases next with
  | file path => cases asks
  | batch paths => cases asks
  | below path => cases asks
  | resetTally => cases asks
  | _ => rfl

/-- A batch that failed leaves the reporter as it was. -/
theorem Turn.after_of_failed {t : Turn} {r : Reporter} {error : ReportError}
    (answered : t.answer r = .batch (.error error)) : t.after r = r := by
  obtain ⟨w, s, next⟩ := t
  cases next with
  | batch paths => exact reportBatch_of_error (Answer.batch.inj answered)
  | below path => exact reportBelow_of_error (Answer.batch.inj answered)
  | _ => cases answered

theorem Turn.shown_of_batch {t : Turn} {r : Reporter} {report : BatchReport}
    (answered : t.answer r = .batch (.ok report)) :
    t.reports (.batch (.ok report)) = report.files ∧
      t.failures (.batch (.ok report)) = report.failures.length := by
  obtain ⟨w, s, next⟩ := t
  cases next with
  | batch paths => exact ⟨rfl, rfl⟩
  | below path => exact ⟨rfl, rfl⟩
  | _ => cases answered

theorem sum_diagnostics (report : BatchReport) :
    (report.files.map (·.diagnostics.length)).sum = report.diagnosticCount := by
  rw [List.sum, List.foldr_map]
  rfl

/-- One tally is another and what a batch report counts. -/
structure GrownBy (before after : Tally) (report : BatchReport) : Prop where
  attempted : after.attempted.toNat = before.attempted.toNat + report.size
  succeeded : after.succeeded.toNat = before.succeeded.toNat + report.files.length
  failed : after.failed.toNat = before.failed.toNat + report.failures.length
  diagnostics : after.diagnostics.toNat = before.diagnostics.toNat + report.diagnosticCount

theorem Accounts.grownBy {r now : Reporter} {record : List (Turn × Answer)}
    (accounts : Accounts r now record) (countable : Countable r record) {t : Turn}
    {report : BatchReport} (answered : t.answer now = .batch (.ok report))
    (more : Countable r (record ++ [(t, .batch (.ok report))])) :
    GrownBy now.tally (t.after now).tally report := by
  have kept : t.step ≠ .resetTally := by
    intro reset
    rw [Turn.answer, reset] at answered
    cases answered
  have later := accounts.turn kept
  rw [answered] at later
  obtain ⟨attempted, succeeded, failed, _, diagnostics⟩ := accounts.toNat countable
  have counters := later.toNat more
  obtain ⟨reports, failures⟩ := Turn.shown_of_batch answered
  rw [reportsGiven_concat, failuresMet_concat, reports, failures, List.length_append] at counters
  obtain ⟨attempted', succeeded', failed', _, diagnostics'⟩ := counters
  refine ⟨?_, ?_, ?_, ?_⟩
  · rw [attempted', attempted, BatchReport.size]
    omega
  · rw [succeeded', succeeded]
  · rw [failed', failed]
  · rw [diagnostics', diagnostics, List.map_append, List.sum_append, sum_diagnostics]

/-- After any turns of a new reporter its tally accounts for the attempts since the last reset:
their number, their successes and failures, and the nodes and diagnostics of the reports that
they came to. A step that only asks changes nothing, nor does a batch that fails, and a batch with
a report adds what the report counts. -/
theorem tally_accounts {language : Option Language} {options : Options} {r now : Reporter}
    {turns : List Turn} {answers : List Answer} {recent : List (Turn × Answer)}
    (opened : ofOptions language options = .ok r) (ran : r.play turns = (answers, now))
    (since : sinceReset turns answers = recent) (countable : Countable r recent) :
    now.tally.attempted.toNat = now.tally.succeeded.toNat + now.tally.failed.toNat ∧
      now.tally.attempted.toNat = (filesTried r recent).length ∧
      now.tally.succeeded.toNat = (reportsGiven recent).length ∧
      now.tally.nodes.toNat = ((reportsGiven recent).map (·.nodeCount)).sum ∧
      now.tally.diagnostics.toNat = ((reportsGiven recent).map (·.diagnostics.length)).sum ∧
      (∀ t : Turn, t.step.asks = true → t.after now = now) ∧
      (∀ (t : Turn) (error : ReportError), t.answer now = .batch (.error error) →
        t.after now = now) ∧
      ∀ (t : Turn) (report : BatchReport), t.answer now = .batch (.ok report) →
        Countable r (recent ++ [(t, .batch (.ok report))]) →
        GrownBy now.tally (t.after now).tally report := by
  have fresh : r.tally = .zero := by
    unfold ofOptions at opened
    split at opened <;> cases opened
    rfl
  have accounts : Accounts r now recent := by
    have played := accounts_play fresh turns
    rwa [ran, since] at played
  obtain ⟨attempted, succeeded, failed, nodes, diagnostics⟩ := accounts.toNat countable
  refine ⟨by omega, by rw [attempted, accounts.tried], succeeded, nodes, diagnostics,
    fun t asks => t.after_of_asks asks now, fun t _ answered => t.after_of_failed answered,
    fun t report answered more => accounts.grownBy countable answered more⟩

section Comments

/-- A file, a reset, a batch with a path twice and a path to nothing, a batch without workers, and
a source text. -/
def commentTurns : List Turn := [
  ⟨commentWorkspace, nobody, .file "a.swift"⟩,
  ⟨commentWorkspace, nobody, .resetTally⟩,
  ⟨commentWorkspace, pairSchedule (· + 1), .batch ["a.swift", "b.swift", "a.swift"]⟩,
  ⟨commentWorkspace, nobody, .batch ["a.swift"]⟩,
  ⟨commentWorkspace, nobody, .source "// b" "b.swift"⟩]

def commentAnswers : List Answer := [
  .file (.ok (commentReport "a.swift")),
  .done,
  .batch (.ok commentBatch),
  .batch (.error (.noWorkers "Resource temporarily unavailable")),
  .file (.ok (commentReport "b.swift"))]

theorem play_commentTurns : pairReporter.play commentTurns =
    (commentAnswers, { pairReporter with tally := commentTally }) := by
  have file : pairReporter.reportFile commentWorkspace "a.swift" =
      (.ok (commentReport "a.swift"), { pairReporter with tally := ⟨1, 1, 0, .zero, 2, 0⟩ }) := by
    have options : pairReporter.options = pairOptions := rfl
    simp only [reportFile, attempt, options, ofPath_comment]
    rfl
  simp only [commentTurns, play, step, file]
  rw [reportBatch_comments rfl]
  rfl

theorem commentTurns_accounted :
    ofOptions (some .swift) pairOptions = .ok pairReporter ∧
      pairReporter.play commentTurns =
        (commentAnswers, { pairReporter with tally := commentTally }) ∧
      Countable pairReporter (sinceReset commentTurns commentAnswers) ∧
      filesTried pairReporter (sinceReset commentTurns commentAnswers) =
        ["a.swift", "b.swift", "a.swift"] ∧
      commentTally.attempted.toNat =
        (filesTried pairReporter (sinceReset commentTurns commentAnswers)).length ∧
      commentTally.nodes.toNat =
        ((reportsGiven (sinceReset commentTurns commentAnswers)).map (·.nodeCount)).sum := by
  have opened : ofOptions (some .swift) pairOptions = .ok pairReporter := rfl
  have countable : Countable pairReporter (sinceReset commentTurns commentAnswers) :=
    ⟨by decide, by decide, by decide⟩
  obtain ⟨_, attempted, _, nodes, _⟩ := tally_accounts opened play_commentTurns rfl countable
  exact ⟨opened, play_commentTurns, countable, rfl, attempted, nodes⟩

end Comments

end Reporter
end SyntaxReport
