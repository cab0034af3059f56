/- The JSON forms of options, reports and tallies are exact. -/
import SyntaxReport.Proofs.Diagnostic.Form
import SyntaxReport.Proofs.Outline.Form
import SyntaxReport.Report.Batch
import SyntaxReport.Report.Options

namespace SyntaxReport

open Form

theorem Duration.ofSeconds_seconds (n : Nat) : (ofSeconds n).seconds = n :=
  Nat.mul_div_cancel n (by decide)

namespace Options

/-- The numbers are within the range of those that are read, and the timeout is of whole
seconds. -/
structure Fits (o : Options) : Prop where
  maxFileSize : o.maxFileSize < wordBound
  timeout : ∀ d ∈ o.timeout, ∃ seconds < wordBound, d = .ofSeconds seconds
  workers : ∀ n ∈ o.workers, n < wordBound
  maxDiagnostics : o.maxDiagnostics < wordBound

def values (o : Options) : List Json :=
  [write o.maxFileSize, write (o.timeout.map Duration.seconds), write o.parallel,
    write o.workers, write o.rejectFaults, write o.includeOutline, write o.includeDocs,
    write o.maxDiagnostics]

theorem timeout_seconds {timeout : Option Duration}
    (h : ∀ d ∈ timeout, ∃ seconds < wordBound, d = .ofSeconds seconds) :
    (∀ n ∈ timeout.map Duration.seconds, n < wordBound) ∧
      (timeout.map Duration.seconds).map Duration.ofSeconds = timeout := by
  cases timeout with
  | none =>
    refine ⟨fun n member => ?_, rfl⟩
    cases member
  | some d =>
    obtain ⟨seconds, bound, rfl⟩ := h d rfl
    rw [Option.map_some, Duration.ofSeconds_seconds]
    refine ⟨fun n member => ?_, rfl⟩
    cases member
    exact bound

instance : Exact Options Fits := by
  refine .of_fields keys values (by decide) (fun _ => rfl) (fun _ => rfl) (fun _ _ => rfl)
    (fun _ => rfl)
    (fun o => ?settled) (fun o h => ?back) (fun fields o h => ?fits)
  case settled => simp [values]
  case back =>
    obtain ⟨bound, same⟩ := timeout_seconds h.timeout
    have timeout : required? (some (write (o.timeout.map Duration.seconds))) =
        some (o.timeout.map Duration.seconds) := required?_some bound
    have workers : optional? (some (write o.workers)) = some o.workers :=
      optional?_some h.workers
    simp only [values, List.map, timeout, workers, required?_some, h.maxFileSize,
      h.maxDiagnostics, Option.bind_eq_bind, Option.bind_some, same]
  case fits =>
    split at h
    · simp only [Option.bind_eq_bind, Option.bind_eq_some_iff, Option.some.injEq] at h
      obtain ⟨seconds, timeout, _, maxFileSize, _, _, _, workers, _, _, _, _, _, _, _,
        maxDiagnostics, rfl⟩ := h
      refine {
        maxFileSize := (fits_of_required? maxFileSize :)
        timeout := fun d member => ?_
        workers := (fits_of_optional? workers :)
        maxDiagnostics := (fits_of_required? maxDiagnostics :) }
      obtain ⟨n, given, rfl⟩ := Option.map_eq_some_iff.mp member
      exact ⟨n, (fits_of_required? timeout :) n given, rfl⟩
    · cases h

theorem byFields : ByFields Options keys ["parallel_workers"] := by
  refine .of_decode (by decide) (fun _ => rfl) fun key member less more missing given same => ?_
  cases List.mem_singleton.mp member
  simp only [keys, List.map, missing, given, same "max_file_size" (by decide),
    same "timeout_per_file" (by decide), same "parallel" (by decide),
    same "reject_syntax_errors" (by decide), same "include_outline" (by decide),
    same "include_docs" (by decide), same "max_diagnostics" (by decide)]
  rfl

end Options

namespace FileReport

structure Fits (f : FileReport) : Prop where
  path : f.path.IsText
  diagnostics : ∀ d ∈ f.diagnostics, d.Fits
  outline : f.outline.Fits
  nodeCount : f.nodeCount < wordBound
  time : f.time.nanos < wordBound
  lineCount : f.lineCount < wordBound
  byteCount : f.byteCount < wordBound

def values (f : FileReport) : List Json :=
  [write f.path, write f.hasFaults, write f.diagnostics, write f.outline, write f.nodeCount,
    write f.time, write f.lineCount, write f.byteCount]

instance : Exact FileReport Fits := by
  refine .of_fields keys values (by decide) (fun _ => rfl) (fun _ => rfl) (fun f h => ?writes)
    (fun _ => rfl)
    (fun f => ?settled) (fun f h => ?back) (fun fields f h => ?fits)
  case writes => exact Exact.writes f.path h.path
  case settled => simp [values]
  case back =>
    have diagnostics : required? (some (write f.diagnostics)) = some f.diagnostics :=
      required?_some h.diagnostics
    simp [values, h.path, diagnostics, h.outline, h.nodeCount, h.time, h.lineCount, h.byteCount]
  case fits =>
    split at h
    · simp only [Option.bind_eq_bind, Option.bind_eq_some_iff, Option.some.injEq] at h
      obtain ⟨_, path, _, _, _, diagnostics, _, outline, _, nodeCount, _, time, _, lineCount, _,
        byteCount, rfl⟩ := h
      exact {
        path := (fits_of_required? path :)
        diagnostics := (fits_of_required? diagnostics :)
        outline := (fits_of_required? outline :)
        nodeCount := (fits_of_required? nodeCount :)
        time := (fits_of_required? time :)
        lineCount := (fits_of_required? lineCount :)
        byteCount := (fits_of_required? byteCount :) }
    · cases h

/-- A report is written unless its path is no text, whatever else is in it. -/
theorem toJson?_eq_none_iff {f : FileReport} : toJson? f = none ↔ ¬ f.path.IsText := by
  change (if f.path.text?.isSome = true then some (write f) else none) = none ↔ _
  rw [FilePath.isText_iff]
  simp

theorem byFields : ByFields FileReport keys [] :=
  .of_required (by decide) fun _ => rfl

end FileReport

namespace BatchReport

structure Fits (b : BatchReport) : Prop where
  files : ∀ f ∈ b.files, f.Fits
  failures : ∀ failed ∈ b.failures, failed.1.IsText
  time : b.time.nanos < wordBound

def values (b : BatchReport) : List Json := [write b.files, write b.failures, write b.time]

theorem Fits.pairs {b : BatchReport} (h : b.Fits) :
    ∀ failed ∈ b.failures, failed.1.IsText ∧ True :=
  fun failed member => ⟨h.failures failed member, trivial⟩

instance : Exact BatchReport Fits := by
  refine .of_fields keys values (by decide) (fun _ => rfl) (fun _ => rfl) (fun b h => ?writes)
    (fun _ => rfl)
    (fun b => ?settled) (fun b h => ?back) (fun fields b h => ?fits)
  case writes =>
    change (writable b.files && writable b.failures) = true
    rw [Exact.writes b.files h.files, Exact.writes b.failures h.pairs]
    rfl
  case settled => simp [values]
  case back =>
    have files : required? (some (write b.files)) = some b.files := required?_some h.files
    have failures : required? (some (write b.failures)) = some b.failures :=
      required?_some h.pairs
    simp [values, files, failures, h.time]
  case fits =>
    split at h
    · simp only [Option.bind_eq_bind, Option.bind_eq_some_iff, Option.some.injEq] at h
      obtain ⟨_, files, _, failures, _, time, rfl⟩ := h
      have pairs := (fits_of_required? failures :)
      exact {
        files := (fits_of_required? files :)
        failures := fun failed member => (pairs failed member).1
        time := (fits_of_required? time :) }
    · cases h

theorem toJson?_eq_none_iff {b : BatchReport} : toJson? b = none ↔
    (∃ f ∈ b.files, ¬ f.path.IsText) ∨ ∃ failed ∈ b.failures, ¬ failed.1.IsText := by
  change (if (b.files.all (·.path.text?.isSome) &&
    b.failures.all fun failed => failed.1.text?.isSome && true) = true
      then some (write b) else none) = none ↔ _
  simp only [FilePath.isText_iff, ite_eq_right_iff, reduceCtorEq, imp_false, Bool.and_true,
    Bool.and_eq_true, List.all_eq_true, not_and_or, not_forall, exists_prop]

theorem byFields : ByFields BatchReport keys [] :=
  .of_required (by decide) fun _ => rfl

end BatchReport

namespace Tally

/-- The counters always fit. -/
def Fits (t : Tally) : Prop := t.time.nanos < wordBound

def values (t : Tally) : List Json :=
  [write t.attempted, write t.succeeded, write t.failed, write t.time, write t.nodes,
    write t.diagnostics]

instance : Exact Tally Fits := by
  refine .of_fields keys values (by decide) (fun _ => rfl) (fun _ => rfl) (fun _ _ => rfl)
    (fun _ => rfl)
    (fun t => ?settled) (fun t h => ?back) (fun fields t h => ?fits)
  case settled => simp [values]
  case back =>
    have time : required? (some (write t.time)) = some t.time := required?_some h
    simp [values, time]
  case fits =>
    split at h
    · simp only [Option.bind_eq_bind, Option.bind_eq_some_iff, Option.some.injEq] at h
      obtain ⟨_, _, _, _, _, _, _, time, _, _, _, _, rfl⟩ := h
      exact (fits_of_required? time :)
    · cases h

theorem byFields : ByFields Tally keys [] :=
  .of_required (by decide) fun _ => rfl

end Tally
end SyntaxReport
