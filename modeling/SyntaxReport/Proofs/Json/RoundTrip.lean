/- Every type that has a JSON form is returned by it. -/
import SyntaxReport.Buffer.ChangedPart
import SyntaxReport.Language.Summary
import SyntaxReport.Proofs.Report.Form

namespace SyntaxReport

open Form

namespace ChangedPart

structure Fits (r : ChangedPart) : Prop where
  startByte : r.startByte < wordBound
  endByte : r.endByte < wordBound
  startLine : r.startLine < wordBound
  endLine : r.endLine < wordBound

def values (r : ChangedPart) : List Json :=
  [write r.startByte, write r.endByte, write r.startLine, write r.endLine]

instance : Exact ChangedPart Fits := by
  refine .of_fields keys values (by decide) (fun _ => rfl) (fun _ => rfl) (fun _ _ => rfl)
    (fun _ => rfl)
    (fun r => ?settled) (fun r h => ?back) (fun fields r h => ?fits)
  case settled => simp [values]
  case back => simp [values, h.startByte, h.endByte, h.startLine, h.endLine]
  case fits =>
    split at h
    · simp only [Option.bind_eq_bind, Option.bind_eq_some_iff, Option.some.injEq] at h
      obtain ⟨_, startByte, _, endByte, _, startLine, _, endLine, rfl⟩ := h
      exact {
        startByte := (fits_of_required? startByte :)
        endByte := (fits_of_required? endByte :)
        startLine := (fits_of_required? startLine :)
        endLine := (fits_of_required? endLine :) }
    · cases h

theorem byFields : ByFields ChangedPart keys [] :=
  .of_required (by decide) fun _ => rfl

end ChangedPart

namespace LanguageSummary

structure Fits (s : LanguageSummary) : Prop where
  version : s.version < wordBound
  kindCount : s.kindCount < wordBound
  fieldCount : s.fieldCount < wordBound

def values (s : LanguageSummary) : List Json :=
  [write s.name, write s.version, write s.kindCount, write s.fieldCount, write s.ruleNames,
    write s.fieldNames, write s.fileExtensions]

instance : Exact LanguageSummary Fits := by
  refine .of_fields keys values (by decide) (fun _ => rfl) (fun _ => rfl) (fun _ _ => rfl)
    (fun _ => rfl)
    (fun s => ?settled) (fun s h => ?back) (fun fields s h => ?fits)
  case settled => simp [values]
  case back =>
    have names (list : List String) : required? (some (write list)) = some list :=
      required?_some fun _ _ => trivial
    simp [values, names, h.version, h.kindCount, h.fieldCount]
  case fits =>
    split at h
    · simp only [Option.bind_eq_bind, Option.bind_eq_some_iff, Option.some.injEq] at h
      obtain ⟨_, _, _, version, _, kindCount, _, fieldCount, _, _, _, _, _, _, rfl⟩ := h
      exact {
        version := (fits_of_required? version :)
        kindCount := (fits_of_required? kindCount :)
        fieldCount := (fits_of_required? fieldCount :) }
    · cases h

theorem byFields : ByFields LanguageSummary keys [] :=
  .of_required (by decide) fun _ => rfl

end LanguageSummary

namespace Form

/-- Options, diagnostics, changed parts, outlines, reports, tallies and summaries are written and
returned by their JSON forms as far as their numbers and times fit, whatever is read fits, and
records and names are read in every layout. A report fits only if its paths are texts: with a path
that is none it has no JSON form from which it could be returned. -/
theorem all_round_trip :
    (RoundTrips Options Options.Fits ∧ ByFields Options Options.keys ["parallel_workers"]) ∧
    (RoundTrips Diagnostic Diagnostic.Fits ∧ ByFields Diagnostic Diagnostic.keys []) ∧
    (RoundTrips DiagnosticKind (fun _ => True) ∧ ByName DiagnosticKind) ∧
    (RoundTrips ChangedPart ChangedPart.Fits ∧ ByFields ChangedPart ChangedPart.keys []) ∧
    (RoundTrips SymbolKind (fun _ => True) ∧ ByName SymbolKind) ∧
    (RoundTrips Symbol Symbol.Fits ∧ ByFields Symbol Symbol.keys ["doc_comment"]) ∧
    (RoundTrips Outline Outline.Fits ∧ ByFields Outline Outline.keys []) ∧
    (RoundTrips FileReport FileReport.Fits ∧ ByFields FileReport FileReport.keys [] ∧
      ∀ f : FileReport, toJson? f = none ↔ ¬ f.path.IsText) ∧
    (RoundTrips BatchReport BatchReport.Fits ∧ ByFields BatchReport BatchReport.keys [] ∧
      ∀ b : BatchReport, toJson? b = none ↔
        (∃ f ∈ b.files, ¬ f.path.IsText) ∨ ∃ failed ∈ b.failures, ¬ failed.1.IsText) ∧
    (RoundTrips Tally Tally.Fits ∧ ByFields Tally Tally.keys []) ∧
    (RoundTrips LanguageSummary LanguageSummary.Fits ∧
      ByFields LanguageSummary LanguageSummary.keys []) :=
  ⟨⟨roundTrips, Options.byFields⟩, ⟨roundTrips, Diagnostic.byFields⟩,
    ⟨roundTrips, DiagnosticKind.byName⟩, ⟨roundTrips, ChangedPart.byFields⟩,
    ⟨roundTrips, SymbolKind.byName⟩, ⟨roundTrips, Symbol.byFields⟩,
    ⟨roundTrips, Outline.byFields⟩,
    ⟨roundTrips, FileReport.byFields, fun _ => FileReport.toJson?_eq_none_iff⟩,
    ⟨roundTrips, BatchReport.byFields, fun _ => BatchReport.toJson?_eq_none_iff⟩,
    ⟨roundTrips, Tally.byFields⟩,
    ⟨roundTrips, LanguageSummary.byFields⟩⟩

/-- A class in a class with a documented method, and the longest time that can be written. -/
def nestedReport : FileReport where
  path := .ofText "a.swift"
  hasFaults := true
  diagnostics := [⟨.missing, "missing `)`", 3, 20, 3, 20, 44, 44⟩]
  outline := ⟨[⟨"A", .classType, "internal", 1, 5, none, [
    ⟨"B", .classType, "public", 2, 4, none, [
      ⟨"run", .method, "internal", 3, 3, some "Starts.", []⟩]⟩]⟩]⟩
  nodeCount := 31
  time := ⟨wordBound - 1⟩
  lineCount := 5
  byteCount := 64

def nestedBatch : BatchReport :=
  ⟨[nestedReport], [(.ofText "b.swift", "Parsing b.swift exceeded timeout")], ⟨wordBound - 1⟩⟩

theorem nestedBatch_returned :
    nestedBatch.Fits ∧ (toJson? nestedBatch).bind ofJson? = some nestedBatch ∧
      Options.standard.Fits ∧ (toJson? Options.standard).bind ofJson? = some Options.standard := by
  have report : nestedReport.Fits := by
    refine ⟨⟨"a.swift", rfl⟩, ?_, Outline.fits_iff.mpr ?_, by decide, by decide, by decide,
      by decide⟩
    · intro d member
      cases List.mem_singleton.mp member
      exact ⟨by decide, by decide, by decide, by decide, by decide, by decide⟩
    · intro s member
      cases List.mem_singleton.mp member
      unfold Symbol.Fits
      decide
  have batch : nestedBatch.Fits := by
    refine ⟨fun f member => ?_, fun failed member => ?_, by decide⟩
    · cases List.mem_singleton.mp member
      exact report
    · cases List.mem_singleton.mp member
      exact ⟨"b.swift", rfl⟩
  have standard : Options.standard.Fits := by
    refine ⟨by decide, fun d member => ?_, fun n member => ?_, by decide⟩
    · cases member
      exact ⟨30, by decide, rfl⟩
    · cases member
  obtain ⟨options, _, _, _, _, _, _, _, batches, _, _⟩ := all_round_trip
  exact ⟨batch, batches.1.returned nestedBatch batch, standard,
    options.1.returned Options.standard standard⟩

end Form
end SyntaxReport
