/- The JSON form of a diagnostic is exact. -/
import SyntaxReport.Diagnostic.Form
import SyntaxReport.Proofs.Json.Exact

namespace SyntaxReport

open Form

namespace DiagnosticKind

theorem ofName?_name (kind : DiagnosticKind) : ofName? kind.name = some kind := by
  cases kind <;> rfl

instance : Exact DiagnosticKind fun _ => True :=
  Exact.of_names name ofName? (fun _ => rfl) (fun _ => rfl) (fun _ => rfl) ofName?_name

theorem byName : ByName DiagnosticKind := .of_variant fun _ => rfl

end DiagnosticKind

namespace Diagnostic

/-- The numbers of a diagnostic are within the range of those that are read. -/
structure Fits (d : Diagnostic) : Prop where
  line : d.line < wordBound
  column : d.column < wordBound
  endLine : d.endLine < wordBound
  endColumn : d.endColumn < wordBound
  startByte : d.startByte < wordBound
  endByte : d.endByte < wordBound

def values (d : Diagnostic) : List Json :=
  [write d.kind, write d.message, write d.line, write d.column, write d.endLine,
    write d.endColumn, write d.startByte, write d.endByte]

instance : Exact Diagnostic Fits := by
  refine .of_fields keys values (by decide) (fun _ => rfl) (fun _ => rfl) (fun _ _ => rfl)
    (fun _ => rfl)
    (fun d => ?settled) (fun d h => ?back) (fun fields d h => ?fits)
  case settled => simp [values]
  case back =>
    simp [values, h.line, h.column, h.endLine, h.endColumn, h.startByte, h.endByte]
  case fits =>
    split at h
    · simp only [Option.bind_eq_bind, Option.bind_eq_some_iff, Option.some.injEq] at h
      obtain ⟨_, _, _, _, _, line, _, column, _, endLine, _, endColumn, _, startByte, _, endByte,
        rfl⟩ := h
      -- the range of a field is that of its type, so it is not to be guessed from the goal
      exact {
        line := (fits_of_required? line :)
        column := (fits_of_required? column :)
        endLine := (fits_of_required? endLine :)
        endColumn := (fits_of_required? endColumn :)
        startByte := (fits_of_required? startByte :)
        endByte := (fits_of_required? endByte :) }
    · cases h

theorem byFields : ByFields Diagnostic keys [] :=
  .of_required (by decide) fun _ => rfl

end Diagnostic
end SyntaxReport
