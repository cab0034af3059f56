/- The first line of a text that is not blank. -/
import SyntaxReport.Proofs.Text.Line
import SyntaxReport.Proofs.Text.Trim

namespace SyntaxReport.Text

/-- What ends a line is blank, so a text is blank if its lines are. -/
theorem HasLines.blank_iff {text : List Char} {parts : List (List Char)} (has : HasLines text parts) :
    Blank text ↔ ∀ line ∈ parts, Blank line := by
  have feed : isBlank '\n' = true := by decide
  have ret : isBlank '\r' = true := by decide
  induction has with
  | nil => simp [Blank]
  | last filled feedless => exact List.forall_mem_singleton.symm
  | @feed line rest more feedless single later ih =>
    rw [blank_append_iff, blank_cons_iff, and_iff_right feed, List.forall_mem_cons]
    exact and_congr_right fun _ => ih
  | @pair line rest more feedless later ih =>
    rw [blank_append_iff, blank_cons_iff, blank_cons_iff, and_iff_right ret, and_iff_right feed,
      List.forall_mem_cons]
    exact and_congr_right fun _ => ih

/-- The first line of a text that is not blank, without the blanks at its ends. -/
def Headline (text core : List Char) : Prop :=
  ∃ earlier line later, HasLines text (earlier ++ line :: later) ∧
    (∀ before ∈ earlier, Blank before) ∧ ¬ Blank line ∧ Trimmed line core

theorem not_isEmpty_trim_iff {line : List Char} :
    (!(trim line).isEmpty) = true ↔ ¬ Blank line := by
  rw [← trim_eq_nil_iff, ← List.isEmpty_iff, Bool.not_eq_true', Bool.not_eq_true]

theorem find?_lines_eq_some_iff {text core : List Char} :
    ((lines text).map trim).find? (!·.isEmpty) = some core ↔ Headline text core := by
  rw [List.find?_map, Option.map_eq_some_iff]
  constructor
  · rintro ⟨line, found, same⟩
    obtain ⟨solid, earlier, later, parts, skipped⟩ := List.find?_eq_some_iff_append.mp found
    refine ⟨earlier, line, later, hasLines_iff.mpr parts, ?_, not_isEmpty_trim_iff.mp solid,
      trimmed_iff.mpr same⟩
    intro before member
    have empty : (!!(trim before).isEmpty) = true := skipped before member
    rw [Bool.not_not] at empty
    exact trim_eq_nil_iff.mp (List.isEmpty_iff.mp empty)
  · rintro ⟨earlier, line, later, parts, blank, solid, trimmed⟩
    refine ⟨line, List.find?_eq_some_iff_append.mpr ⟨not_isEmpty_trim_iff.mpr solid, earlier,
      later, parts.lines_eq, ?_⟩, trimmed.trim_eq⟩
    intro before member
    have none_left := trim_eq_nil_iff.mpr (blank before member)
    simp [none_left]

theorem find?_lines_eq_none_iff {text : List Char} :
    ((lines text).map trim).find? (!·.isEmpty) = none ↔ Blank text := by
  rw [(hasLines_lines text).blank_iff, List.find?_eq_none, List.forall_mem_map]
  refine forall₂_congr fun line _ => ?_
  rw [not_isEmpty_trim_iff, Decidable.not_not]

namespace Headline

theorem ne_nil {text core : List Char} (headline : Headline text core) : core ≠ [] := by
  rintro rfl
  obtain ⟨_, line, _, _, _, solid, trimmed⟩ := headline
  exact solid (trim_eq_nil_iff.mp trimmed.trim_eq)

theorem isInfix {text core : List Char} (headline : Headline text core) : core <:+: text := by
  obtain ⟨earlier, line, later, parts, _, _, trimmed⟩ := headline
  have member : line ∈ earlier ++ line :: later := List.mem_append_right earlier List.mem_cons_self
  exact trimmed.isInfix.trans (parts.isInfix line member)

theorem feedless {text core : List Char} (headline : Headline text core) : '\n' ∉ core := by
  obtain ⟨earlier, line, later, parts, _, _, trimmed⟩ := headline
  have member : line ∈ earlier ++ line :: later := List.mem_append_right earlier List.mem_cons_self
  exact fun feed => parts.feedless line member (trimmed.isInfix.mem feed)

theorem opens {text core : List Char} (headline : Headline text core) :
    ∀ c ∈ core.head?, isBlank c = false := by
  obtain ⟨_, _, _, _, _, _, trimmed⟩ := headline
  exact trimmed.opens

end Headline

end SyntaxReport.Text
