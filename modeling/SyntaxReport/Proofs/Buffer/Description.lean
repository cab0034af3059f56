/- What the engine is told of an edit holds of the text before it and of the text after it. -/
import SyntaxReport.Proofs.Buffer.Splice
import SyntaxReport.Proofs.Report.Line
import SyntaxReport.Proofs.Text.Order

namespace SyntaxReport

namespace TextEdit

/-- A change says by offsets and by positions where `old` became `new`. -/
structure Describes (change : TextEdit) (old added new : Bytes) (start oldEnd : Nat) :
    Prop where
  text : new = old.take start ++ added ++ old.drop oldEnd
  offsets : change.start = start ∧ change.oldEnd = oldEnd ∧ change.newEnd = start + added.length
  /-- The edit starts at one position, whichever of the texts it is reckoned in. -/
  opens : Position.reckon? old start = some change.startPosition ∧
    Position.reckon? new start = some change.startPosition
  closes : Position.reckon? old oldEnd = some change.oldEndPosition ∧
    Position.reckon? new (start + added.length) = some change.newEndPosition
  /-- The old end lies behind the start by what was removed. -/
  overRemoved : ∃ size,
    Position.reckon? ((old.drop start).take (oldEnd - start)) (oldEnd - start) = some size ∧
      change.oldEndPosition = change.startPosition + size
  /-- The new end lies behind the start by what was added. -/
  overAdded : ∃ size, Position.reckon? added added.length = some size ∧
    change.newEndPosition = change.startPosition + size

theorem describes_ofCut (cut : Text.Cut) (added : List Char) :
    (ofCut cut added).Describes (Utf8.encode (cut.fill cut.removed)) (Utf8.encode added)
      (Utf8.encode (cut.fill added)) (Text.width cut.before)
      (Text.width cut.before + Text.width cut.removed) := by
  have oldSize := cut.length_fill cut.removed
  have newSize := cut.length_fill added
  have addedSize := Utf8.length_encode added
  have removedSize := Utf8.length_encode cut.removed
  -- up to the start the two texts have the same bytes
  have started : Position.ofOffset (Utf8.encode (cut.fill added)) (Text.width cut.before) =
      Position.ofOffset (Utf8.encode (cut.fill cut.removed)) (Text.width cut.before) := by
    rw [Position.ofOffset, Position.ofOffset, cut.take_fill, cut.take_fill]
  have removed := Position.ofOffset_add (Utf8.encode (cut.fill cut.removed))
    (Text.width cut.before) (Text.width cut.removed)
  have filled := Position.ofOffset_add (Utf8.encode (cut.fill added))
    (Text.width cut.before) (Text.width added)
  rw [cut.middle_fill] at removed filled
  constructor
  · rw [cut.take_fill, cut.drop_fill, cut.encode_fill]
  · exact ⟨rfl, rfl, by rw [addedSize]; rfl⟩
  · rw [Position.reckon?_of_le (by omega), Position.reckon?_of_le (by omega), started]
    exact ⟨rfl, rfl⟩
  · rw [Position.reckon?_of_le (by omega), Position.reckon?_of_le (by omega), addedSize]
    exact ⟨rfl, rfl⟩
  · refine ⟨_, ?_, removed⟩
    rw [Nat.add_sub_cancel_left, cut.middle_fill, ← removedSize]
    exact Position.reckon?_length _
  · refine ⟨_, Position.reckon?_length _, ?_⟩
    rw [started] at filled
    exact filled

end TextEdit

namespace Buffer

/-- The engine is told of an edit by positions that hold of both texts and differ by the extents of
what was removed and of what was added. In any text a position determines its offset, a later
offset has a later position, and diagnostics show the same positions, counted from one. -/
theorem edits_described (b : Buffer) (start oldEnd : Nat) (added : String)
    (admitted : TextEdit.Admitted (bytesOf b.source) start oldEnd) :
    (∃ (source : String) (change : TextEdit),
      change.Describes (bytesOf b.source) (bytesOf added) (bytesOf source) start oldEnd ∧
      ∀ e, b.splice e start oldEnd added =
        (e.parse b.parser ⟨source, some (b.tree, change)⟩).elim
          (.error (b.gaveUp "Failed to reparse"), { b with parser := b.parser.reset })
          fun tree => (.ok ((e.changes b.tree change tree).map ChangedPart.ofTreeRange),
            { b with source, tree, parser := b.parser.reset })) ∧
    (∀ (bytes : Bytes) (i j : Nat), i ≤ bytes.length → j ≤ bytes.length → ∃ p q,
      Position.reckon? bytes i = some p ∧ Position.reckon? bytes j = some q ∧
      (p < q ↔ i < j) ∧ (p = q ↔ i = j)) ∧
    ∀ (bytes : Bytes) (root : Node) (limit : Nat), ∀ d ∈ Diagnostic.below bytes root limit,
      d.startByte ≤ bytes.length → ∃ p, Position.reckon? bytes d.startByte = some p ∧
        d.line = p.row + 1 ∧ d.column = p.column + 1 := by
  refine ⟨?_, ?_, ?_⟩
  · obtain ⟨cut, found⟩ := Text.Cut.exists_at?_iff.mpr (TextEdit.admitted_iff.mp admitted)
    obtain ⟨same, rfl, rfl⟩ := Text.Cut.at?_eq_some_iff.mp found
    refine ⟨_, _, ?_, fun e => splice_of_cut found e added⟩
    rw [bytesOf_ofList, bytesOf, same]
    exact TextEdit.describes_ofCut cut added.toList
  · intro bytes i j hi hj
    have strict := Position.strictMonoOn_ofOffset bytes
    exact ⟨_, _, Position.reckon?_of_le hi, Position.reckon?_of_le hj,
      strict.lt_iff_lt hi hj, strict.injOn.eq_iff hi hj⟩
  · intro bytes root limit d member within
    obtain ⟨n, _, rfl⟩ := Diagnostic.exists_of_mem_below member
    refine ⟨_, Position.reckon?_of_le within, ?_⟩
    obtain ⟨_, _, same⟩ := Diagnostic.exists_ofRange bytes n
    rw [same]
    exact ⟨rfl, rfl⟩

/-- A letter and a line break go, and a line break and an arrow of three bytes come. -/
theorem described_accentBuffer :
    TextEdit.Admitted (bytesOf accentBuffer.source) 1 4 ∧
      (∃ (source : String) (change : TextEdit),
        change.Describes (bytesOf accentBuffer.source) (bytesOf "x\n→") (bytesOf source) 1 4 ∧
        change.startPosition = ⟨0, 1⟩ ∧ change.oldEndPosition = ⟨1, 0⟩ ∧
        change.newEndPosition = ⟨1, 3⟩) ∧
      (∃ p q, Position.reckon? (bytesOf accentBuffer.source) 3 = some p ∧
        Position.reckon? (bytesOf accentBuffer.source) 4 = some q ∧ p < q) ∧
      ∃ d ∈ Diagnostic.below (bytesOf Options.openText) Options.openClass 100,
        ∃ p, Position.reckon? (bytesOf Options.openText) d.startByte = some p ∧
          d.line = p.row + 1 ∧ d.column = p.column + 1 := by
  have admitted : TextEdit.Admitted (bytesOf accentBuffer.source) 1 4 :=
    ⟨by decide, by decide, by decide, by decide⟩
  obtain ⟨⟨source, change, described, _⟩, positions, diagnostics⟩ :=
    edits_described accentBuffer 1 4 "x\n→" admitted
  have opens : change.startPosition = ⟨0, 1⟩ := by
    refine Option.some.inj (described.opens.1.symm.trans ?_)
    decide
  obtain ⟨removed, gone, oldEnd⟩ := described.overRemoved
  obtain ⟨added, come, newEnd⟩ := described.overAdded
  obtain rfl : removed = ⟨1, 0⟩ := Option.some.inj (gone.symm.trans (by decide))
  obtain rfl : added = ⟨1, 3⟩ := Option.some.inj (come.symm.trans (by decide))
  rw [opens] at oldEnd newEnd
  obtain ⟨p, q, first, second, order, _⟩ :=
    positions (bytesOf accentBuffer.source) 3 4 (by decide) (by decide)
  have listed : (⟨.missing, "missing `\x7d`", 3, 1, 3, 1, 18, 18⟩ : Diagnostic) ∈
      Diagnostic.below (bytesOf Options.openText) Options.openClass 100 := by
    rw [Options.diagnostics_openClass]
    exact List.mem_singleton_self _
  exact ⟨admitted, ⟨source, change, described, opens, oldEnd, newEnd⟩,
    ⟨p, q, first, second, order.mpr (by decide)⟩,
    _, listed, diagnostics _ _ 100 _ listed (by decide)⟩

end Buffer
end SyntaxReport
