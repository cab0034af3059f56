/- What an attempt on a file comes to, by what its path leads to and what the engine answers. -/
import SyntaxReport.Proofs.Report.Time
import SyntaxReport.Text.Utf8.Lemmas

namespace SyntaxReport

theorem bytesOf_ofList (chars : List Char) : bytesOf (String.ofList chars) = Utf8.encode chars := by
  rw [bytesOf, String.toList_ofList]

namespace Found

theorem text_eq_ok_iff {found : Found} {chars : List Char} :
    found.text = .ok chars ↔ found = .file (Utf8.encode chars) none := by
  cases found with
  | directory d => simp [text]
  | file content unread =>
    cases unread with
    | some cause => simp [text]
    | none =>
      simp only [text, file.injEq, and_true, ← Utf8.decode?_eq_some_iff]
      split <;> simp_all

/-- Bytes that no text has are those of no text. -/
theorem text_of_no_text {content : Bytes} (other : ∀ source, bytesOf source ≠ content) :
    (file content none).text = .error .notText := by
  rw [text]
  split
  · next chars decoded =>
    have same : bytesOf (String.ofList chars) = content := by
      rw [bytesOf_ofList, Utf8.decode?_eq_some_iff.mp decoded]
    exact absurd same (other (String.ofList chars))
  · rfl

end Found

/-- Errors of files that were not read, so that no engine was asked. -/
def ReportError.ofReading : ReportError → Bool
  | .unreadable .. | .tooLarge .. => true
  | _ => false

namespace Options

variable {o : Options} {files : FileSystem} {path : String}

theorem readSource_of_error {cause : ReadFailure} (leads : files.resolve path = .error cause) :
    o.readSource files path = .error (.unreadable path cause) := by
  rw [readSource, leads]

theorem readSource_of_large {found : Found} (leads : files.resolve path = .ok found)
    (large : o.maxFileSize < found.size) :
    o.readSource files path = .error (.tooLarge path found.size) := by
  rw [readSource, leads]
  exact if_pos large

theorem readSource_of_unread {found : Found} {cause : ReadFailure}
    (leads : files.resolve path = .ok found) (fits : found.size ≤ o.maxFileSize)
    (unread : found.text = .error cause) :
    o.readSource files path = .error (.unreadable path cause) := by
  rw [readSource, leads]
  dsimp only
  rw [if_neg (Nat.not_lt.mpr fits), unread]

theorem readSource_of_read {found : Found} {chars : List Char}
    (leads : files.resolve path = .ok found) (fits : found.size ≤ o.maxFileSize)
    (read : found.text = .ok chars) : o.readSource files path = .ok (String.ofList chars) := by
  rw [readSource, leads]
  dsimp only
  rw [if_neg (Nat.not_lt.mpr fits), read]

/-- All that the reading of a file can come to. The size is asked for before the text. -/
theorem readSource_cases (o : Options) (files : FileSystem) (path : String) :
    (∃ cause, files.resolve path = .error cause ∧
      o.readSource files path = .error (.unreadable path cause)) ∨
    (∃ found, files.resolve path = .ok found ∧ o.maxFileSize < found.size ∧
      o.readSource files path = .error (.tooLarge path found.size)) ∨
    (∃ found cause, files.resolve path = .ok found ∧ found.size ≤ o.maxFileSize ∧
      found.text = .error cause ∧ o.readSource files path = .error (.unreadable path cause)) ∨
    ∃ source, files.resolve path = .ok (.file (bytesOf source) none) ∧
      (bytesOf source).length ≤ o.maxFileSize ∧ o.readSource files path = .ok source := by
  cases leads : files.resolve path with
  | error cause => exact .inl ⟨cause, rfl, readSource_of_error leads⟩
  | ok found =>
    rcases Nat.lt_or_ge o.maxFileSize found.size with large | fits
    · exact .inr (.inl ⟨found, rfl, large, readSource_of_large leads large⟩)
    · cases read : found.text with
      | error cause =>
        exact .inr (.inr (.inl
          ⟨found, cause, rfl, fits, read, readSource_of_unread leads fits read⟩))
      | ok chars =>
        have text := readSource_of_read leads fits read
        obtain rfl := Found.text_eq_ok_iff.mp read
        rw [← bytesOf_ofList] at fits ⊢
        exact .inr (.inr (.inr ⟨String.ofList chars, rfl, fits, text⟩))

theorem readSource_eq_tooLarge_iff {p : String} {size : Nat} :
    o.readSource files path = .error (.tooLarge p size) ↔
      p = path ∧ ∃ found, files.resolve path = .ok found ∧ found.size = size ∧
        o.maxFileSize < size := by
  constructor
  · intro failed
    obtain ⟨_, _, read⟩ | ⟨found, leads, large, read⟩ | ⟨_, _, _, _, _, read⟩ | ⟨_, _, _, read⟩ :=
      o.readSource_cases files path
    all_goals cases read.symm.trans failed
    exact ⟨rfl, found, leads, rfl, large⟩
  · rintro ⟨rfl, found, leads, rfl, large⟩
    exact readSource_of_large leads large

theorem readSource_eq_unreadable_iff {p : String} {cause : ReadFailure} :
    o.readSource files path = .error (.unreadable p cause) ↔
      p = path ∧ (files.resolve path = .error cause ∨
        ∃ found, files.resolve path = .ok found ∧ found.size ≤ o.maxFileSize ∧
          found.text = .error cause) := by
  constructor
  · intro failed
    obtain ⟨_, leads, read⟩ | ⟨_, _, _, read⟩ | ⟨found, _, leads, fits, unread, read⟩ |
      ⟨_, _, _, read⟩ := o.readSource_cases files path
    all_goals cases read.symm.trans failed
    · exact ⟨rfl, .inl leads⟩
    · exact ⟨rfl, .inr ⟨found, leads, fits, unread⟩⟩
  · rintro ⟨rfl, leads | ⟨found, leads, fits, unread⟩⟩
    · exact readSource_of_error leads
    · exact readSource_of_unread leads fits unread

/-- The bytes of a text that was read are those of the file. -/
theorem resolve_of_readSource {source : String} (read : o.readSource files path = .ok source) :
    files.resolve path = .ok (.file (bytesOf source) none) ∧
      (bytesOf source).length ≤ o.maxFileSize := by
  obtain ⟨_, _, other⟩ | ⟨_, _, _, other⟩ | ⟨_, _, _, _, _, other⟩ | ⟨_, leads, fits, other⟩ :=
    o.readSource_cases files path
  all_goals cases other.symm.trans read
  exact ⟨leads, fits⟩

theorem ofReading_of_reportSource {e : Engine} {source : String} {error : ReportError}
    (failed : o.reportSource e source path = .error error) : error.ofReading = false := by
  cases given : e.parse o.parser ⟨source, none⟩ with
  | none =>
    rw [reportSource_of_none given] at failed
    cases failed
    rfl
  | some tree =>
    rw [reportSource_of_some given, reportTree] at failed
    split at failed
    · cases failed
      unfold rejection
      split <;> rfl
    · cases failed

/-- A report shows the tree of the text, its faults as far as they may be listed, and its outline
if that is asked for. -/
theorem eq_of_reportTree {source : String} {tree : Node} {time : Duration} {f : FileReport}
    (success : o.reportTree path source tree time = .ok f) :
    (o.rejectFaults = true → tree.label.hasFault = false) ∧
      f = {
        path := .ofText path
        hasFaults := tree.label.hasFault
        diagnostics := Diagnostic.below (bytesOf source) tree o.maxDiagnostics
        outline := o.outlineOf (bytesOf source) tree
        nodeCount := tree.size
        time
        lineCount := Text.lineCount source.toList
        byteCount := (bytesOf source).length } := by
  rw [reportTree] at success
  split at success
  · cases success
  · next accepted =>
    cases success
    refine ⟨?_, rfl⟩
    intro strict
    rwa [strict, Bool.true_and, Bool.not_eq_true] at accepted

end Options

namespace Attempt

variable {w : Workspace} {o : Options} {path : String}

@[simp] theorem path_ofPath (w : Workspace) (o : Options) (path : String) :
    (ofPath w o path).path = path := by
  unfold ofPath
  split <;> rfl

theorem result_of_unread {error : ReportError} (failed : o.readSource w.files path = .error error) :
    (ofPath w o path).result = .error error := by
  rw [ofPath, failed]

theorem result_of_read {source : String} (read : o.readSource w.files path = .ok source) :
    (ofPath w o path).result = o.reportSource w.engine source path := by
  rw [ofPath, read]

theorem result_eq_error_iff {error : ReportError} (reading : error.ofReading = true) :
    (ofPath w o path).result = .error error ↔ o.readSource w.files path = .error error := by
  cases read : o.readSource w.files path with
  | error other => rw [result_of_unread read, Except.error.injEq, Except.error.injEq]
  | ok source =>
    rw [result_of_read read]
    constructor
    · intro failed
      rw [Options.ofReading_of_reportSource failed] at reading
      cases reading
    · intro failed
      cases failed

/-- A report is made from the bytes of the file and the tree of its text. -/
theorem exists_of_ok {f : FileReport} (success : (ofPath w o path).result = .ok f) :
    ∃ source tree, w.files.resolve path = .ok (.file (bytesOf source) none) ∧
      (bytesOf source).length ≤ o.maxFileSize ∧
      w.engine.parse o.parser ⟨source, none⟩ = some tree ∧
      o.reportTree path source tree (w.engine.elapsed o.parser ⟨source, none⟩) = .ok f := by
  cases read : o.readSource w.files path with
  | error error =>
    rw [result_of_unread read] at success
    cases success
  | ok source =>
    obtain ⟨leads, fits⟩ := Options.resolve_of_readSource read
    rw [result_of_read read] at success
    cases given : w.engine.parse o.parser ⟨source, none⟩ with
    | none =>
      rw [Options.reportSource_of_none given] at success
      cases success
    | some tree =>
      rw [Options.reportSource_of_some given] at success
      exact ⟨source, tree, leads, fits, given, success⟩

end Attempt

end SyntaxReport
