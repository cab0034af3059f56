/- Replacements in ranges that do not overlap can be made in either order. -/
import SyntaxReport.Proofs.Buffer.Undo

namespace SyntaxReport

namespace Replacement

/-- A replacement in a later range, as it reads once `first` is made. -/
def behind (r first : Replacement) : Replacement where
  start := r.start + (bytesOf first.added).length - (first.oldEnd - first.start)
  oldEnd := r.oldEnd + (bytesOf first.added).length - (first.oldEnd - first.start)
  added := r.added

/-- A source cut at two ranges, the first of which ends no later than the second starts. -/
structure Parted (source : String) (first second : Replacement) where
  front : List Char
  lost : List Char
  gap : List Char
  gone : List Char
  rear : List Char
  text : source.toList = front ++ lost ++ gap ++ gone ++ rear
  firstStart : Text.width front = first.start
  firstEnd : first.start + Text.width lost = first.oldEnd
  secondStart : first.oldEnd + Text.width gap = second.start
  secondEnd : second.start + Text.width gone = second.oldEnd

theorem exists_parts {r : Replacement} {source : String} (fit : (r.make? source).isSome) :
    ∃ before lost rest, source.toList = before ++ lost ++ rest ∧
      Text.width before = r.start ∧ r.start + Text.width lost = r.oldEnd := by
  obtain ⟨_, made⟩ := Option.isSome_iff_exists.mp fit
  obtain ⟨cut, same, atStart, atEnd, _⟩ := make?_eq_some_iff.mp made
  exact ⟨cut.before, cut.removed, cut.behind, same, atStart, atEnd⟩

theorem make?_of_parts {r : Replacement} {source : String} {before lost rest : List Char}
    (same : source.toList = before ++ lost ++ rest) (atStart : Text.width before = r.start)
    (atEnd : r.start + Text.width lost = r.oldEnd) :
    r.make? source = some (String.ofList (before ++ r.added.toList ++ rest)) :=
  make?_eq_some_iff.mpr ⟨⟨before, lost, rest⟩, same, atStart, atEnd, String.toList_ofList⟩

theorem exists_parted {first second : Replacement} {source : String}
    (one : (first.make? source).isSome) (two : (second.make? source).isSome)
    (apart : first.oldEnd ≤ second.start) : Nonempty (Parted source first second) := by
  obtain ⟨front, lost, rest, text, firstStart, firstEnd⟩ := exists_parts one
  obtain ⟨before, gone, rear, same, secondStart, secondEnd⟩ := exists_parts two
  have joined : front ++ lost ++ rest = before ++ (gone ++ rear) := by
    rw [← text, same, List.append_assoc]
  rcases List.append_eq_append_iff.mp joined with ⟨gap, rfl, _⟩ | ⟨extra, ends, _⟩
  · refine ⟨⟨front, lost, gap, gone, rear, same, firstStart, firstEnd, ?_, secondEnd⟩⟩
    rw [Text.width_append, Text.width_append] at secondStart
    omega
  · -- the second range starts right at the end of the first
    have wide := congrArg Text.width ends
    rw [Text.width_append, Text.width_append] at wide
    have none : extra = [] := Text.eq_nil_of_width (by omega)
    rw [none, List.append_nil] at ends
    refine ⟨⟨front, lost, [], gone, rear, ?_, firstStart, firstEnd, ?_, secondEnd⟩⟩
    · rw [List.append_nil, ends, same]
    · rw [Text.width]
      omega

namespace Parted

variable {source : String} {first second : Replacement} (p : Parted source first second)

/-- The source with both replacements made. -/
def result : String :=
  String.ofList (p.front ++ first.added.toList ++ p.gap ++ second.added.toList ++ p.rear)

theorem width_lost : Text.width (p.front ++ p.lost) = first.oldEnd := by
  rw [Text.width_append, p.firstStart, p.firstEnd]

theorem width_gap : Text.width (p.front ++ p.lost ++ p.gap) = second.start := by
  rw [Text.width_append, p.width_lost, p.secondStart]

theorem makeAll?_second_first : makeAll? [second, first] source = some p.result := by
  have later := make?_of_parts p.text p.width_gap p.secondEnd
  have earlier : first.make?
      (String.ofList (p.front ++ p.lost ++ p.gap ++ second.added.toList ++ p.rear)) =
        some (String.ofList
          (p.front ++ first.added.toList ++ (p.gap ++ second.added.toList ++ p.rear))) := by
    refine make?_of_parts ?_ p.firstStart p.firstEnd
    simp only [String.toList_ofList, List.append_assoc]
  refine makeAll?_cons_eq_some_iff.mpr ⟨_, later, makeAll?_cons_eq_some_iff.mpr ⟨_, earlier, ?_⟩⟩
  simp only [makeAll?, List.foldlM_nil, result, List.append_assoc]
  rfl

theorem makeAll?_first_second :
    makeAll? [first, second.behind first] source = some p.result := by
  have earlier : first.make? source =
      some (String.ofList (p.front ++ first.added.toList ++ (p.gap ++ p.gone ++ p.rear))) := by
    refine make?_of_parts ?_ p.firstStart p.firstEnd
    rw [p.text]
    simp only [List.append_assoc]
  -- the later range has moved by the growth of the first, and is cut at the same characters
  have firstStart := p.firstStart
  have firstEnd := p.firstEnd
  have secondStart := p.secondStart
  have secondEnd := p.secondEnd
  have added := length_bytesOf first.added
  have later : (second.behind first).make?
      (String.ofList (p.front ++ first.added.toList ++ (p.gap ++ p.gone ++ p.rear))) =
        some p.result := by
    have text : (String.ofList
        (p.front ++ first.added.toList ++ (p.gap ++ p.gone ++ p.rear))).toList =
          p.front ++ first.added.toList ++ p.gap ++ p.gone ++ p.rear := by
      simp only [String.toList_ofList, List.append_assoc]
    refine make?_of_parts text ?_ ?_
    · rw [Text.width_append, Text.width_append, behind]
      dsimp only
      omega
    · rw [behind]
      dsimp only
      omega
  exact makeAll?_cons_eq_some_iff.mpr
    ⟨_, earlier, makeAll?_cons_eq_some_iff.mpr ⟨_, later, rfl⟩⟩

theorem bytesOf_result : bytesOf p.result =
    (bytesOf source).take first.start ++ bytesOf first.added ++
      ((bytesOf source).drop first.oldEnd).take (second.start - first.oldEnd) ++
      bytesOf second.added ++ (bytesOf source).drop second.oldEnd := by
  have head : (bytesOf source).take first.start = Utf8.encode p.front := by
    have cut := Text.Cut.take_fill ⟨p.front, p.lost, p.gap ++ p.gone ++ p.rear⟩ p.lost
    rw [bytesOf, p.text, ← p.firstStart, ← cut]
    simp only [Text.Cut.fill, List.append_assoc]
  have middle : ((bytesOf source).drop first.oldEnd).take (second.start - first.oldEnd) =
      Utf8.encode p.gap := by
    have cut := Text.Cut.middle_fill ⟨p.front ++ p.lost, p.gap, p.gone ++ p.rear⟩ p.gap
    have size : second.start - first.oldEnd = Text.width p.gap := by
      rw [← p.secondStart, Nat.add_sub_cancel_left]
    rw [bytesOf, p.text, ← cut, size, ← p.width_lost]
    simp only [Text.Cut.fill, List.append_assoc]
  have tail : (bytesOf source).drop second.oldEnd = Utf8.encode p.rear := by
    have cut := Text.Cut.drop_fill ⟨p.front ++ p.lost ++ p.gap, p.gone, p.rear⟩ p.gone
    have offset : second.oldEnd = Text.width (p.front ++ p.lost ++ p.gap) + Text.width p.gone := by
      rw [p.width_gap, p.secondEnd]
    rw [bytesOf, p.text, ← cut, offset]
    simp only [Text.Cut.fill, List.append_assoc]
  rw [head, middle, tail, result, bytesOf_ofList]
  simp only [Utf8.encode_append]
  rfl

end Parted
end Replacement

namespace Buffer

/-- Two edits whose ranges do not overlap are both accepted in either order, where the later range
moves by the growth of the earlier text if that is edited first. Both orders lead to the source with
both edits made, and in a session of faithful engines to the same buffer. -/
theorem disjoint_replacements_commute {b : Buffer} {first second : Replacement}
    (one : b.Accepts first) (two : b.Accepts second) (apart : first.oldEnd ≤ second.start) :
    b.AcceptsAll [second, first] ∧ b.AcceptsAll [first, second.behind first] ∧
    ∀ e₁ e₂ e₃ e₄ left right, b.Made [(e₁, second), (e₂, first)] left →
      b.Made [(e₃, first), (e₄, second.behind first)] right →
      left.source = right.source ∧
      bytesOf left.source =
        (bytesOf b.source).take first.start ++ bytesOf first.added ++
          ((bytesOf b.source).drop first.oldEnd).take (second.start - first.oldEnd) ++
          bytesOf second.added ++ (bytesOf b.source).drop second.oldEnd ∧
      ∀ treeOf, Reached treeOf b → (∀ e ∈ [e₁, e₂, e₃, e₄], e.Faithful treeOf) →
        left = right ∧ left.Alike right := by
  obtain ⟨p⟩ := Replacement.exists_parted (accepts_iff.mp one) (accepts_iff.mp two) apart
  refine ⟨acceptsAll_of_makeAll? p.makeAll?_second_first,
    acceptsAll_of_makeAll? p.makeAll?_first_second, ?_⟩
  intro e₁ e₂ e₃ e₄ left right toLeft toRight
  have atLeft := toLeft.source_eq rfl p.makeAll?_second_first
  have atRight := toRight.source_eq rfl p.makeAll?_first_second
  have same := atLeft.trans atRight.symm
  refine ⟨same, by rw [atLeft, p.bytesOf_result], fun treeOf reached faithful => ?_⟩
  refine reached.same_of_made toLeft toRight ?_ same
  simpa using faithful

def accentLetter : Replacement := ⟨1, 3, "→→"⟩

/-- The line break right behind the accented letter. -/
def lineBreak : Replacement := ⟨3, 4, ""⟩

/-- Between the ranges there is nothing, and the second moves by four bytes. -/
theorem accentBuffer_commutes :
    accentBuffer.Accepts accentLetter ∧ accentBuffer.Accepts lineBreak ∧
      accentLetter.oldEnd ≤ lineBreak.start ∧ lineBreak.behind accentLetter = ⟨7, 8, ""⟩ ∧
      accentBuffer.AcceptsAll [accentLetter, ⟨7, 8, ""⟩] ∧
      ∃ left right,
        accentBuffer.Made [(hurried, lineBreak), (hurried, accentLetter)] left ∧
        accentBuffer.Made [(hurried, accentLetter), (hurried, ⟨7, 8, ""⟩)] right ∧
        left.source = "a→→b" ∧ left = right := by
  have one : accentBuffer.Accepts accentLetter := accepts_iff.mpr (by decide)
  have two : accentBuffer.Accepts lineBreak := accepts_iff.mpr (by decide)
  have apart : accentLetter.oldEnd ≤ lineBreak.start := by decide
  have moved : lineBreak.behind accentLetter = ⟨7, 8, ""⟩ := by decide
  have joined : accentBuffer.splice hurried 3 4 "" = (.ok [], accented "aéb") := rfl
  have lettered : (accented "aéb").splice hurried 1 3 "→→" = (.ok [], accented "a→→b") := rfl
  have lettered' : accentBuffer.splice hurried 1 3 "→→" = (.ok [], accented "a→→\nb") := rfl
  have joined' : (accented "a→→\nb").splice hurried 7 8 "" = (.ok [], accented "a→→b") := rfl
  have backward : accentBuffer.Made [(hurried, lineBreak), (hurried, accentLetter)]
      (accented "a→→b") := .cons joined (.cons lettered (.nil _))
  have forward : accentBuffer.Made [(hurried, accentLetter), (hurried, ⟨7, 8, ""⟩)]
      (accented "a→→b") := .cons lettered' (.cons joined' (.nil _))
  obtain ⟨_, accepted, agree⟩ := disjoint_replacements_commute one two apart
  rw [moved] at accepted agree
  obtain ⟨_, _, whole⟩ := agree hurried hurried hurried hurried _ _ backward forward
  have faithful : ∀ e ∈ [hurried, hurried, hurried, hurried], e.Faithful commentTree := by
    intro e member
    obtain rfl : e = hurried := by simpa using member
    exact hurried_faithful
  exact ⟨one, two, apart, moved, accepted, _, _, backward, forward, rfl,
    (whole commentTree reached_accentBuffer faithful).1⟩

end Buffer
end SyntaxReport
