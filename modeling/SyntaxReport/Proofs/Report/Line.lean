/- The lines that a report names are lines of its text, or the empty one behind the last. -/
import SyntaxReport.Proofs.Outline.Origin
import SyntaxReport.Proofs.Report.Attempt
import SyntaxReport.Proofs.Report.Origin
import SyntaxReport.Proofs.Text.Position

namespace SyntaxReport

/-- A line of a report, counted from one, and the offset that it stands for in a text of so many
lines. -/
structure LineOf (source : String) (count offset line : Nat) : Prop where
  row : line = (Position.ofOffset (bytesOf source) offset).row + 1
  first : 1 ≤ line
  last : line ≤ count + 1
  /-- Behind the last line lies only the end of a text that ends it. -/
  behind : line = count + 1 ↔ offset = (bytesOf source).length ∧ Text.Ended source.toList

theorem LineOf.ofOffset {source : String} {offset : Nat}
    (within : offset ≤ (bytesOf source).length) :
    LineOf source (Text.lineCount source.toList) offset
      ((Position.ofOffset (bytesOf source) offset).row + 1) where
  row := rfl
  first := Nat.succ_pos _
  last := Nat.succ_le_succ (Position.row_le_lineCount source.toList offset)
  behind := Nat.succ_inj.trans (Position.row_eq_lineCount_iff within)

namespace Options

theorem exists_of_mem_outlineOf {o : Options} {source : Bytes} {tree : Node} {s : Symbol}
    (member : s ∈ (o.outlineOf source tree).toList) :
    ∃ place n, tree.Visible source place ∧ tree.at? place = some n ∧
      s.bare ∈ n.ownSymbols source o.includeDocs (decide (1 < place.length))
        (tree.elder place) := by
  unfold outlineOf at member
  split at member
  · exact Outline.exists_of_mem_ofTree member
  · rw [Outline.toList_eq] at member
    cases member

/-- The lines of the diagnostics of a report, and those of its symbols at every depth, lie between
the first line and the one behind the last, which only the end of an ended text reaches. -/
theorem lines_within_count {o : Options} {e : Engine} {source path : String} {tree : Node}
    {f : FileReport} (given : e.parse o.parser ⟨source, none⟩ = some tree)
    (within : tree.Within (bytesOf source).length)
    (success : o.reportSource e source path = .ok f) :
    (∀ d ∈ f.diagnostics, ∃ place n, tree.at? place = some n ∧
      d = .ofFault (bytesOf source) n ∧
      LineOf source f.lineCount n.label.start d.line ∧
      LineOf source f.lineCount n.label.stop d.endLine) ∧
    ∀ s ∈ f.outline.toList, ∃ place n, tree.Visible (bytesOf source) place ∧
      tree.at? place = some n ∧
      s.bare ∈ n.ownSymbols (bytesOf source) o.includeDocs (decide (1 < place.length))
        (tree.elder place) ∧
      LineOf source f.lineCount n.label.start s.lineStart ∧
      LineOf source f.lineCount n.label.stop s.lineEnd := by
  rw [reportSource_of_some given] at success
  obtain ⟨_, rfl⟩ := eq_of_reportTree success
  constructor
  · intro d member
    obtain ⟨n, ⟨place, found⟩, rfl⟩ := Diagnostic.exists_of_mem_below member
    obtain ⟨start, stop⟩ := within n ⟨place, found⟩
    obtain ⟨line, endLine⟩ := Diagnostic.lines_ofFault (bytesOf source) n
    refine ⟨place, n, found, rfl, ?_, ?_⟩
    · rw [line]
      exact .ofOffset start
    · rw [endLine]
      exact .ofOffset stop
  · intro s member
    obtain ⟨place, n, visible, found, own⟩ := exists_of_mem_outlineOf member
    obtain ⟨start, stop⟩ := within n ⟨place, found⟩
    obtain ⟨lineStart, lineEnd⟩ := Node.lines_of_mem_ownSymbols own
    change s.lineStart = _ at lineStart
    change s.lineEnd = _ at lineEnd
    refine ⟨place, n, visible, found, own, ?_, ?_⟩
    · rw [lineStart]
      exact .ofOffset start
    · rw [lineEnd]
      exact .ofOffset stop

/-- A class that is not closed before its text ends. -/
def openClass : Node :=
  .mk ⟨"source_file", true, false, false, true, none, 0, 18⟩ [
    .mk ⟨"class_declaration", true, false, false, true, none, 0, 18⟩ [
      .mk ⟨"class", false, false, false, false, some .declarationKind, 0, 5⟩ [],
      .mk ⟨"type_identifier", true, false, false, false, some .name, 6, 7⟩ [],
      .mk ⟨"class_body", true, false, false, true, some .body, 8, 18⟩ [
        .mk ⟨"\x7b", false, false, false, false, none, 8, 9⟩ [],
        .mk ⟨"property_declaration", true, false, false, false, none, 12, 17⟩ [
          .mk ⟨"pattern", true, false, false, false, some .name, 16, 17⟩ []],
        .mk ⟨"\x7d", false, false, true, true, none, 18, 18⟩ []]]]

def openEngine : Engine where
  parse _ _ := some openClass
  changes _ _ _ := []
  elapsed _ _ := .zero

def openText : String := "class A \x7b\n  var b\n"

theorem diagnostics_openClass : Diagnostic.below (bytesOf openText) openClass 100 =
    [⟨.missing, "missing `\x7d`", 3, 1, 3, 1, 18, 18⟩] := by
  have flagged : openClass.Flagged := by
    simp [openClass, Node.Flagged, Node.FlaggedAll, Node.containsFaultAny, Node.containsFault,
      Label.isFault]
  rw [Diagnostic.below_eq flagged]
  rfl

theorem outline_openClass :
    ((Outline.ofTree (bytesOf openText) openClass true).toList.map fun s =>
      (s.name, s.lineStart, s.lineEnd)) = [("A", 1, 3), ("b", 2, 2)] := by
  rw [Outline.toList_eq]
  decide +kernel

/-- The text has two lines. The missing bracket and the end of the class lie behind them. -/
theorem lines_openClass :
    openEngine.parse standard.parser ⟨openText, none⟩ = some openClass ∧
      openClass.Within (bytesOf openText).length ∧
      ∃ f, standard.reportSource openEngine openText "a.swift" = .ok f ∧ f.lineCount = 2 ∧
        (∃ d ∈ f.diagnostics, d.line = 3 ∧
          ∃ place n, openClass.at? place = some n ∧ LineOf openText 2 n.label.start d.line) ∧
        ∃ s ∈ f.outline.toList, s.lineEnd = 3 ∧
          ∃ place n, openClass.at? place = some n ∧ LineOf openText 2 n.label.stop s.lineEnd := by
  have given : openEngine.parse standard.parser ⟨openText, none⟩ = some openClass := rfl
  have within : openClass.Within (bytesOf openText).length := by
    have size : (bytesOf openText).length = 18 := by decide
    simp [openClass, Node.within_mk, size]
  have success := reportSource_of_some given "a.swift"
  obtain ⟨diagnostics, symbols⟩ := lines_within_count given within success
  refine ⟨given, within, _, success, by decide, ?_, ?_⟩
  · have listed : (⟨.missing, "missing `\x7d`", 3, 1, 3, 1, 18, 18⟩ : Diagnostic) ∈
        Diagnostic.below (bytesOf openText) openClass 100 := by
      rw [diagnostics_openClass]
      exact List.mem_singleton_self _
    obtain ⟨place, n, found, _, line, _⟩ := diagnostics _ listed
    exact ⟨_, listed, rfl, place, n, found, line⟩
  · have named : ("A", 1, 3) ∈ (Outline.ofTree (bytesOf openText) openClass true).toList.map
        fun s => (s.name, s.lineStart, s.lineEnd) := by
      rw [outline_openClass]
      exact List.mem_cons_self
    obtain ⟨s, listed, lines⟩ := List.mem_map.mp named
    have last : s.lineEnd = 3 := congrArg (·.2.2) lines
    obtain ⟨place, n, _, found, _, _, line⟩ := symbols s listed
    exact ⟨s, listed, last, place, n, found, line⟩

end Options
end SyntaxReport
