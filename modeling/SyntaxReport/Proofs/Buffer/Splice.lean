/- An edit replaces exactly the bytes of its range, and nothing that it reckons with can fail. -/
import SyntaxReport.Proofs.Buffer.Session
import SyntaxReport.Proofs.Report.Attempt
import SyntaxReport.Proofs.Text.Column

namespace SyntaxReport

namespace Utf8

/-- A text has fewer bytes than this. -/
def storage : Nat := 2 ^ 63

/-- The size of two parts together, if a text can have it. -/
def sum? (m n : Nat) : Option Nat := if m + n < storage then some (m + n) else none

/-- The bytes in front of an offset, which has to be a boundary. -/
def before? (bytes : Bytes) (offset : Nat) : Option Bytes :=
  if IsBoundary bytes offset then some (bytes.take offset) else none

/-- The bytes from an offset on, which has to be a boundary. -/
def behind? (bytes : Bytes) (offset : Nat) : Option Bytes :=
  if IsBoundary bytes offset then some (bytes.drop offset) else none

theorem sum?_of_lt {m n : Nat} (less : m + n < storage) : sum? m n = some (m + n) := if_pos less

theorem before?_of_isBoundary {bytes : Bytes} {offset : Nat} (boundary : IsBoundary bytes offset) :
    before? bytes offset = some (bytes.take offset) := if_pos boundary

theorem behind?_of_isBoundary {bytes : Bytes} {offset : Nat} (boundary : IsBoundary bytes offset) :
    behind? bytes offset = some (bytes.drop offset) := if_pos boundary

end Utf8

namespace TextEdit

/-- A range of bytes that an edit may replace: in order, within the text, and between characters. -/
structure Admitted (bytes : Bytes) (start oldEnd : Nat) : Prop where
  ordered : start ≤ oldEnd
  within : oldEnd ≤ bytes.length
  opens : Utf8.IsBoundary bytes start
  closes : Utf8.IsBoundary bytes oldEnd

theorem admitted_iff {text : List Char} {start oldEnd : Nat} :
    Admitted (Utf8.encode text) start oldEnd ↔ Text.Replaceable text start oldEnd := by
  rw [Text.Replaceable, ← Utf8.length_encode, Text.isBoundary_iff, Text.isBoundary_iff]
  constructor
  · rintro ⟨ordered, within, opens, closes⟩
    exact ⟨ordered, within, opens, closes⟩
  · rintro ⟨ordered, within, opens, closes⟩
    exact ⟨ordered, within, opens, closes⟩

/-- What an edit comes to in bytes: the room that the new text is given, the new text, and what the
engine is told of. -/
structure Reckoning where
  room : Nat
  source : Bytes
  change : TextEdit

/-- An edit by steps that can fail: differences below zero, sizes that no text has, and cuts inside
a character or beyond the end. -/
def reckon? (old added : Bytes) (start oldEnd : Nat) : Option Reckoning := do
  let removed ← difference? oldEnd start
  let kept ← difference? old.length removed
  let room ← Utf8.sum? kept added.length
  let source := (← Utf8.before? old start) ++ added ++ (← Utf8.behind? old oldEnd)
  let newEnd ← Utf8.sum? start added.length
  some {
    room
    source
    change := {
      start
      oldEnd
      newEnd
      startPosition := ← Position.reckon? old start
      oldEndPosition := ← Position.reckon? old oldEnd
      newEndPosition := ← Position.reckon? source newEnd } }

end TextEdit

namespace Text.Cut

theorem encode_fill (cut : Cut) (added : List Char) :
    Utf8.encode (cut.fill added) =
      Utf8.encode cut.before ++ Utf8.encode added ++ Utf8.encode cut.behind := by
  rw [fill, Utf8.encode_append, Utf8.encode_append]

/-- The ends of what is filled in are boundaries. -/
theorem isBoundary_fill (cut : Cut) (added : List Char) :
    Utf8.IsBoundary (Utf8.encode (cut.fill added)) (width cut.before) ∧
      Utf8.IsBoundary (Utf8.encode (cut.fill added)) (width cut.before + width added) := by
  rw [← isBoundary_iff, ← isBoundary_iff]
  constructor
  · exact ⟨cut.before, added ++ cut.behind, List.append_assoc .., rfl⟩
  · exact ⟨cut.before ++ added, cut.behind, rfl, width_append ..⟩

theorem take_fill (cut : Cut) (added : List Char) :
    (Utf8.encode (cut.fill added)).take (width cut.before) = Utf8.encode cut.before := by
  rw [encode_fill, List.append_assoc]
  exact List.take_left' (Utf8.length_encode _)

theorem drop_fill (cut : Cut) (added : List Char) :
    (Utf8.encode (cut.fill added)).drop (width cut.before + width added) =
      Utf8.encode cut.behind := by
  rw [encode_fill]
  refine List.drop_left' ?_
  rw [List.length_append, Utf8.length_encode, Utf8.length_encode]

/-- What is filled in stands right behind what is in front of the cut. -/
theorem middle_fill (cut : Cut) (added : List Char) :
    ((Utf8.encode (cut.fill added)).drop (width cut.before)).take (width added) =
      Utf8.encode added := by
  rw [encode_fill, List.append_assoc, List.drop_left' (Utf8.length_encode _)]
  exact List.take_left' (Utf8.length_encode _)

theorem length_fill (cut : Cut) (added : List Char) :
    (Utf8.encode (cut.fill added)).length =
      width cut.before + width added + width cut.behind := by
  rw [Utf8.length_encode, fill, width_append, width_append]

end Text.Cut

namespace TextEdit

/-- No step of the edit of a text fails where the new text can be stored, and it comes to the cut
filled with what is added. -/
theorem reckon?_ofCut (cut : Text.Cut) (added : List Char)
    (fits : (Utf8.encode (cut.fill added)).length < Utf8.storage) :
    reckon? (Utf8.encode (cut.fill cut.removed)) (Utf8.encode added) (Text.width cut.before)
        (Text.width cut.before + Text.width cut.removed) =
      some ⟨(Utf8.encode (cut.fill added)).length, Utf8.encode (cut.fill added),
        .ofCut cut added⟩ := by
  have size := cut.length_fill added
  have oldSize := cut.length_fill cut.removed
  have addedSize := Utf8.length_encode added
  obtain ⟨opens, closes⟩ := cut.isBoundary_fill cut.removed
  have removed : difference? (Text.width cut.before + Text.width cut.removed)
      (Text.width cut.before) = some (Text.width cut.removed) := by
    rw [difference?_of_le (Nat.le_add_right _ _), Nat.add_sub_cancel_left]
  have kept : difference? (Utf8.encode (cut.fill cut.removed)).length (Text.width cut.removed) =
      some (Text.width cut.before + Text.width cut.behind) := by
    rw [difference?_of_le (by omega), Option.some.injEq]
    omega
  have room : Utf8.sum? (Text.width cut.before + Text.width cut.behind)
      (Utf8.encode added).length = some (Utf8.encode (cut.fill added)).length := by
    rw [Utf8.sum?_of_lt (by omega), Option.some.injEq]
    omega
  have front := Utf8.before?_of_isBoundary opens
  have rest := Utf8.behind?_of_isBoundary closes
  rw [cut.take_fill] at front
  rw [cut.drop_fill] at rest
  have newEnd : Utf8.sum? (Text.width cut.before) (Utf8.encode added).length =
      some (Text.width cut.before + Text.width added) := by
    rw [Utf8.sum?_of_lt (by omega), addedSize]
  -- the three places that the engine is told of lie within their texts
  have startPosition := Position.reckon?_eq (Utf8.encode (cut.fill cut.removed))
    (Text.width cut.before)
  have oldEndPosition := Position.reckon?_eq (Utf8.encode (cut.fill cut.removed))
    (Text.width cut.before + Text.width cut.removed)
  have newEndPosition := Position.reckon?_eq (Utf8.encode (cut.fill added))
    (Text.width cut.before + Text.width added)
  rw [if_pos (by omega)] at startPosition oldEndPosition newEndPosition
  simp only [reckon?, removed, kept, room, front, rest, newEnd, ← cut.encode_fill added,
    startPosition, oldEndPosition, newEndPosition, Option.bind_eq_bind, Option.bind_some]
  rfl

/-- A source is another one with some bytes in place of a range, and a change tells where. -/
structure Spliced (old added : Bytes) (start oldEnd : Nat) (source : String) (change : TextEdit) :
    Prop where
  bytes : bytesOf source = old.take start ++ added ++ old.drop oldEnd
  /-- The bytes put together are those of a text. -/
  text : Utf8.decode? (old.take start ++ added ++ old.drop oldEnd) = some source.toList
  length : (bytesOf source).length = old.length - (oldEnd - start) + added.length
  opens : Utf8.IsBoundary (bytesOf source) start
  closes : Utf8.IsBoundary (bytesOf source) (start + added.length)
  /-- No step on the way fails, unless the text is too large to be stored. -/
  safe : (bytesOf source).length < Utf8.storage →
    reckon? old added start oldEnd = some ⟨(bytesOf source).length, bytesOf source, change⟩

theorem spliced_ofCut {text : String} {cut : Text.Cut} (same : text.toList = cut.fill cut.removed)
    (added : String) :
    Spliced (bytesOf text) (bytesOf added) (Text.width cut.before)
      (Text.width cut.before + Text.width cut.removed) (String.ofList (cut.fill added.toList))
      (.ofCut cut added.toList) := by
  have old : bytesOf text = Utf8.encode (cut.fill cut.removed) := by rw [bytesOf, same]
  have new := bytesOf_ofList (cut.fill added.toList)
  have parts : (bytesOf text).take (Text.width cut.before) ++ bytesOf added ++
      (bytesOf text).drop (Text.width cut.before + Text.width cut.removed) =
        Utf8.encode (cut.fill added.toList) := by
    rw [old, cut.take_fill, cut.drop_fill, cut.encode_fill]
    rfl
  have size := cut.length_fill added.toList
  have oldSize := cut.length_fill cut.removed
  have addedSize : (bytesOf added).length = Text.width added.toList := Utf8.length_encode _
  obtain ⟨opens, closes⟩ := cut.isBoundary_fill added.toList
  refine {
    bytes := new.trans parts.symm
    text := ?_
    length := ?_
    opens := ?_
    closes := ?_
    safe := ?_ }
  · rw [parts, Utf8.decode?_encode, String.toList_ofList]
  · rw [new, old, addedSize]
    omega
  · rwa [new]
  · rwa [new, addedSize]
  · rw [new, old]
    exact reckon?_ofCut cut added.toList

end TextEdit

namespace Buffer

theorem gaveUp_ne_invalidEdit (b : Buffer) (reason : String) (start oldEnd length : Nat) :
    b.gaveUp reason ≠ .invalidEdit start oldEnd length := by
  unfold gaveUp
  split <;> exact fun same => by cases same

/-- What the splice of a range comes to that a text can be cut at. -/
theorem exists_spliced {b : Buffer} {start oldEnd : Nat}
    (admitted : TextEdit.Admitted (bytesOf b.source) start oldEnd) (e : Engine) (added : String) :
    ∃ source change,
      TextEdit.Spliced (bytesOf b.source) (bytesOf added) start oldEnd source change ∧
      ((∃ tree, e.parse b.parser ⟨source, some (b.tree, change)⟩ = some tree ∧
          b.splice e start oldEnd added =
            (.ok ((e.changes b.tree change tree).map ChangedPart.ofTreeRange),
              { b with source, tree, parser := b.parser.reset })) ∨
        e.parse b.parser ⟨source, some (b.tree, change)⟩ = none ∧
          b.splice e start oldEnd added =
            (.error (b.gaveUp "Failed to reparse"), { b with parser := b.parser.reset })) := by
  obtain ⟨cut, found⟩ := Text.Cut.exists_at?_iff.mpr (TextEdit.admitted_iff.mp admitted)
  obtain ⟨same, rfl, rfl⟩ := Text.Cut.at?_eq_some_iff.mp found
  have spliced := splice_of_cut found e added
  refine ⟨_, _, TextEdit.spliced_ofCut same added, ?_⟩
  cases given : e.parse b.parser ⟨String.ofList (cut.fill added.toList),
      some (b.tree, TextEdit.ofCut cut added.toList)⟩ with
  | none =>
    rw [given] at spliced
    exact .inr ⟨rfl, spliced⟩
  | some tree =>
    rw [given] at spliced
    exact .inl ⟨tree, rfl, spliced⟩

/-- An edit is refused exactly over a range that is out of order, beyond the end, or cut inside a
character. Any other puts exactly the bytes of the added text in place of those of the range, and
no step of it fails. Where the engine then gives up, the source stays as it was. -/
theorem splice_exact (b : Buffer) (e : Engine) (start oldEnd : Nat) (added : String) :
    ((∃ s t n, (b.splice e start oldEnd added).1 = .error (.invalidEdit s t n)) ↔
      ¬ TextEdit.Admitted (bytesOf b.source) start oldEnd) ∧
    (¬ TextEdit.Admitted (bytesOf b.source) start oldEnd →
      b.splice e start oldEnd added =
        (.error (.invalidEdit start oldEnd (bytesOf b.source).length), b)) ∧
    (TextEdit.Admitted (bytesOf b.source) start oldEnd → ∃ source change,
      TextEdit.Spliced (bytesOf b.source) (bytesOf added) start oldEnd source change ∧
      ((∃ tree, e.parse b.parser ⟨source, some (b.tree, change)⟩ = some tree ∧
          b.splice e start oldEnd added =
            (.ok ((e.changes b.tree change tree).map ChangedPart.ofTreeRange),
              { b with source, tree, parser := b.parser.reset })) ∨
        e.parse b.parser ⟨source, some (b.tree, change)⟩ = none ∧
          b.splice e start oldEnd added =
            (.error (b.gaveUp "Failed to reparse"), { b with parser := b.parser.reset }))) := by
  have refused (unfit : ¬ TextEdit.Admitted (bytesOf b.source) start oldEnd) :
      b.splice e start oldEnd added =
        (.error (.invalidEdit start oldEnd (bytesOf b.source).length), b) := by
    have length : (bytesOf b.source).length = Text.width b.source.toList := Utf8.length_encode _
    rw [length]
    exact splice_of_unfit (mt TextEdit.admitted_iff.mpr unfit) e added
  refine ⟨⟨?_, fun unfit => ?_⟩, refused, fun admitted => exists_spliced admitted e added⟩
  · rintro ⟨s, t, n, failed⟩ admitted
    obtain ⟨_, _, _, ⟨_, _, done⟩ | ⟨_, done⟩⟩ := exists_spliced admitted e added
    · rw [done] at failed
      cases failed
    · rw [done] at failed
      exact b.gaveUp_ne_invalidEdit _ _ _ _ (Except.error.inj failed)
  · exact ⟨_, _, _, congrArg Prod.fst (refused unfit)⟩

def accentBuffer : Buffer := ⟨"a.swift", "aé\nb", commentTree "aé\nb", .new 0⟩

/-- The accented letter can be replaced as a whole, but not the second of its bytes. -/
theorem splice_accentBuffer :
    TextEdit.Admitted (bytesOf accentBuffer.source) 1 3 ∧
      ¬ TextEdit.Admitted (bytesOf accentBuffer.source) 2 3 ∧
      accentBuffer.splice hurried 2 3 "→" = (.error (.invalidEdit 2 3 5), accentBuffer) ∧
      (accentBuffer.splice hurried 1 3 "→").2.source = "a→\nb" ∧
      ∃ change,
        TextEdit.Spliced (bytesOf accentBuffer.source) (bytesOf "→") 1 3 "a→\nb" change := by
  have admitted : TextEdit.Admitted (bytesOf accentBuffer.source) 1 3 :=
    ⟨by decide, by decide, by decide, by decide⟩
  have inside : ¬ TextEdit.Admitted (bytesOf accentBuffer.source) 2 3 := fun unfit =>
    absurd unfit.opens (by decide)
  have refused := (splice_exact accentBuffer hurried 2 3 "→").2.1 inside
  obtain ⟨source, change, spliced, done⟩ := (splice_exact accentBuffer hurried 1 3 "→").2.2 admitted
  have chars : some "a→\nb".toList = some source.toList := spliced.text
  obtain rfl : "a→\nb" = source := String.toList_inj.mp (Option.some.inj chars)
  refine ⟨admitted, inside, refused, ?_, change, spliced⟩
  rcases done with ⟨tree, _, done⟩ | ⟨gaveUp, _⟩
  · rw [done]
  · cases gaveUp

end Buffer
end SyntaxReport
