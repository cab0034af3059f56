/- A report agrees with its file and its options, and an error about a file says what is wrong. -/
import SyntaxReport.Language.Swift
import SyntaxReport.Proofs.FileSystem.Stand
import SyntaxReport.Proofs.Outline.Documented
import SyntaxReport.Proofs.Report.Attempt
import SyntaxReport.Proofs.Report.Rejection
import SyntaxReport.Report.Reporter

namespace SyntaxReport

namespace Diagnostic

/-- No fault is listed only where there is none or where none may be listed. -/
theorem below_eq_nil_iff {root : Node} (flagged : root.Flagged) (source : Bytes) (limit : Nat) :
    below source root limit = [] ↔ limit = 0 ∨ root.label.hasFault = false := by
  rw [below_eq flagged, List.take_eq_nil_iff, all, List.map_eq_nil_iff,
    Node.topmostFaults_eq_nil_iff, (Node.flagged_iff.mp flagged).1]

theorem length_below_le {root : Node} (flagged : root.Flagged) (source : Bytes) (limit : Nat) :
    (below source root limit).length ≤ limit := by
  rw [below_eq flagged]
  exact List.length_take_le ..

end Diagnostic

namespace FileReport

/-- What a report has to do with the bytes of its file and the options that it was made with. -/
structure Coherent (f : FileReport) (o : Options) (content : Bytes) : Prop where
  byteCount : f.byteCount = content.length
  size : content.length ≤ o.maxFileSize
  listed : f.diagnostics.length ≤ o.maxDiagnostics
  faulty : f.diagnostics ≠ [] → f.hasFaults = true
  shown : f.hasFaults = true → 1 ≤ o.maxDiagnostics → f.diagnostics ≠ []
  accepted : o.rejectFaults = true → f.hasFaults = false
  outline : o.includeOutline = false → f.outline = ⟨[]⟩
  undocumented : o.includeDocs = false → ∀ s ∈ f.outline.toList, s.documentation = none

end FileReport

namespace Options

theorem outlineOf_of_excluded {o : Options} (excluded : o.includeOutline = false)
    (source : Bytes) (tree : Node) : o.outlineOf source tree = ⟨[]⟩ := by
  rw [outlineOf, excluded]
  rfl

theorem undocumented_outlineOf {o : Options} (plain : o.includeDocs = false) {source : Bytes}
    {tree : Node} {s : Symbol} (listed : s ∈ (o.outlineOf source tree).toList) :
    s.documentation = none := by
  rw [outlineOf, plain] at listed
  split at listed
  · exact Outline.documentation_of_mem_ofTree listed
  · rw [Outline.toList_eq] at listed
    cases listed

theorem coherent_of_reportTree {o : Options} {path source : String} {tree : Node}
    {time : Duration} {f : FileReport} (flagged : tree.Flagged)
    (fits : (bytesOf source).length ≤ o.maxFileSize)
    (success : o.reportTree path source tree time = .ok f) : f.Coherent o (bytesOf source) := by
  obtain ⟨accepted, rfl⟩ := eq_of_reportTree success
  have empty := Diagnostic.below_eq_nil_iff flagged (bytesOf source) o.maxDiagnostics
  refine {
    byteCount := rfl
    size := fits
    listed := Diagnostic.length_below_le flagged ..
    faulty := ?_
    shown := ?_
    accepted := accepted
    outline := fun excluded => outlineOf_of_excluded excluded ..
    undocumented := fun plain s listed => undocumented_outlineOf plain listed }
  · intro some
    by_contra clear
    exact some (empty.mpr (.inr (Bool.not_eq_true _ ▸ clear)))
  · intro faulty room none
    rcases empty.mp none with full | clear
    · omega
    · exact Bool.noConfusion (clear.symm.trans faulty)

end Options

namespace Reporter

/-- If the tree of its text has right flags, the report on a file is coherent with the bytes of the
file. The error that a file is too large stands for exactly the files and directories beyond the
limit, whatever they hold, and the error that it cannot be read for exactly the others that are
not there, are no file, cannot be read or hold no text. -/
theorem reportFile_coherent {r : Reporter} {w : Workspace} {path : String}
    (flagged : ∀ source tree, w.files.resolve path = .ok (.file (bytesOf source) none) →
      w.engine.parse r.options.parser ⟨source, none⟩ = some tree → tree.Flagged) :
    (∀ f, (r.reportFile w path).1 = .ok f →
      ∃ content, w.files.resolve path = .ok (.file content none) ∧ f.Coherent r.options content) ∧
    (∀ p size, (r.reportFile w path).1 = .error (.tooLarge p size) ↔
      p = path ∧ ∃ found, w.files.resolve path = .ok found ∧ found.size = size ∧
        r.options.maxFileSize < size) ∧
    (∀ p cause, (r.reportFile w path).1 = .error (.unreadable p cause) ↔
      p = path ∧ (w.files.resolve path = .error cause ∨
        ∃ found, w.files.resolve path = .ok found ∧ found.size ≤ r.options.maxFileSize ∧
          found.text = .error cause)) ∧
    (∀ content cause, w.files.resolve path = .ok (.file content (some cause)) →
      content.length ≤ r.options.maxFileSize →
      (r.reportFile w path).1 = .error (.unreadable path cause)) ∧
    (∀ content, w.files.resolve path = .ok (.file content none) →
      content.length ≤ r.options.maxFileSize → (∀ source, bytesOf source ≠ content) →
      (r.reportFile w path).1 = .error (.unreadable path .notText)) ∧
    ∀ d, w.files.resolve path = .ok (.directory d) → d.size ≤ r.options.maxFileSize →
      (r.reportFile w path).1 = .error (.unreadable path (d.unread.getD .isDirectory)) := by
  have attempt : (r.reportFile w path).1 = (Attempt.ofPath w r.options path).result := rfl
  rw [attempt]
  have unread {found : Found} {cause : ReadFailure} (leads : w.files.resolve path = .ok found)
      (fits : found.size ≤ r.options.maxFileSize) (failed : found.text = .error cause) :
      (Attempt.ofPath w r.options path).result = .error (.unreadable path cause) :=
    Attempt.result_of_unread (Options.readSource_of_unread leads fits failed)
  refine ⟨?_, ?_, ?_, ?_, ?_, ?_⟩
  · intro f success
    obtain ⟨source, tree, leads, fits, given, reported⟩ := Attempt.exists_of_ok success
    exact ⟨bytesOf source, leads,
      Options.coherent_of_reportTree (flagged source tree leads given) fits reported⟩
  · intro p size
    rw [Attempt.result_eq_error_iff rfl]
    exact Options.readSource_eq_tooLarge_iff
  · intro p cause
    rw [Attempt.result_eq_error_iff rfl]
    exact Options.readSource_eq_unreadable_iff
  · intro content cause leads fits
    exact unread leads fits rfl
  · intro content leads fits other
    exact unread leads fits (Found.text_of_no_text other)
  · intro d leads fits
    exact unread leads fits rfl

section Broken

/-- A file with a fault, one of bytes that are no text, a larger one of the same kind, one that may
not be read, and a directory. -/
def brokenDirectory : Directory where
  size := 64
  unread := none
  entries := [("a.swift", .file (bytesOf Options.brokenText) none),
    ("b.swift", .file (List.replicate 14 0xFF) none),
    ("c.swift", .file (List.replicate 15 0xFF) none),
    ("d.swift", .file [] (some (.other "Permission denied (os error 13)"))),
    ("e.swift", .directory ⟨9, none, []⟩)]

def brokenWorkspace : Workspace where
  files := ⟨brokenDirectory, [], .root⟩
  engine := Options.brokenEngine

/-- The largest file that may be read is as large as the faulty one. -/
def tightReporter : Reporter where
  language := .swift
  options := { Options.brief with maxFileSize := 14, maxDiagnostics := 1 }
  tally := .zero

theorem resolve_brokenWorkspace :
    brokenWorkspace.files.resolve "a.swift" = .ok (.file (bytesOf Options.brokenText) none) ∧
      brokenWorkspace.files.resolve "b.swift" = .ok (.file (List.replicate 14 0xFF) none) ∧
      brokenWorkspace.files.resolve "c.swift" = .ok (.file (List.replicate 15 0xFF) none) ∧
      brokenWorkspace.files.resolve "d.swift" =
        .ok (.file [] (some (.other "Permission denied (os error 13)"))) ∧
      brokenWorkspace.files.resolve "e.swift" = .ok (.directory ⟨9, none, []⟩) := by
  refine ⟨?_, ?_, ?_, ?_, ?_⟩ <;>
    exact FileSystem.resolve_of_proper (by decide) (by decide) (by decide)

theorem report_brokenWorkspace : ∃ f,
    (tightReporter.reportFile brokenWorkspace "a.swift").1 = .ok f ∧ f.hasFaults = true := by
  have read : tightReporter.options.readSource brokenWorkspace.files "a.swift" =
      .ok Options.brokenText := by
    have text := Found.text_eq_ok_iff.mpr (rfl : Found.file (bytesOf Options.brokenText) none = _)
    have read := Options.readSource_of_read resolve_brokenWorkspace.1
      (by decide : _ ≤ tightReporter.options.maxFileSize) text
    rwa [String.ofList_toList] at read
  have reported := Attempt.result_of_read read
  rw [Options.reportSource_of_some rfl] at reported
  exact ⟨_, reported, rfl⟩

theorem brokenWorkspace_coherent :
    (∀ source tree, brokenWorkspace.files.resolve "a.swift" = .ok (.file (bytesOf source) none) →
      brokenWorkspace.engine.parse tightReporter.options.parser ⟨source, none⟩ = some tree →
      tree.Flagged) ∧
    (∃ f, (tightReporter.reportFile brokenWorkspace "a.swift").1 = .ok f ∧ f.byteCount = 14 ∧
      f.hasFaults = true ∧ f.diagnostics.length = 1 ∧ f.outline = ⟨[]⟩) ∧
    (tightReporter.reportFile brokenWorkspace "b.swift").1 =
      .error (.unreadable "b.swift" .notText) ∧
    (tightReporter.reportFile brokenWorkspace "c.swift").1 = .error (.tooLarge "c.swift" 15) ∧
    (tightReporter.reportFile brokenWorkspace "d.swift").1 =
      .error (.unreadable "d.swift" (.other "Permission denied (os error 13)")) ∧
    (tightReporter.reportFile brokenWorkspace "e.swift").1 =
      .error (.unreadable "e.swift" .isDirectory) := by
  have flagged (path : String) : ∀ source tree,
      brokenWorkspace.files.resolve path = .ok (.file (bytesOf source) none) →
      brokenWorkspace.engine.parse tightReporter.options.parser ⟨source, none⟩ = some tree →
      tree.Flagged := by
    intro source tree _ given
    cases given
    simp [Diagnostic.brokenClass, Diagnostic.brokenBody, Node.Flagged, Node.FlaggedAll,
      Node.containsFaultAny, Node.containsFault, Label.isFault]
  obtain ⟨a, b, c, d, e⟩ := resolve_brokenWorkspace
  refine ⟨flagged "a.swift", ?_, ?_, ?_, ?_, ?_⟩
  · obtain ⟨f, success, faulty⟩ := report_brokenWorkspace
    obtain ⟨content, leads, coherent⟩ := (reportFile_coherent (flagged "a.swift")).1 f success
    cases a.symm.trans leads
    have some := List.length_pos_iff.mpr (coherent.shown faulty (by decide))
    have one : f.diagnostics.length ≤ 1 := coherent.listed
    exact ⟨f, success, coherent.byteCount, faulty, by omega, coherent.outline rfl⟩
  · obtain ⟨_, _, unreadable, _⟩ := reportFile_coherent (flagged "b.swift")
    exact (unreadable _ _).mpr ⟨rfl, .inr ⟨_, b, by decide, by decide⟩⟩
  · obtain ⟨_, tooLarge, _⟩ := reportFile_coherent (flagged "c.swift")
    exact (tooLarge _ _).mpr ⟨rfl, _, c, by decide, by decide⟩
  · obtain ⟨_, _, _, closed, _⟩ := reportFile_coherent (flagged "d.swift")
    exact closed _ _ d (by decide)
  · obtain ⟨_, _, _, _, _, directory⟩ := reportFile_coherent (flagged "e.swift")
    exact directory _ e (by decide)

end Broken

end Reporter
end SyntaxReport
