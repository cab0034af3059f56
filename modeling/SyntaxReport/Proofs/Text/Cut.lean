/- Which byte ranges cut a text, and what the cut is made of. -/
import SyntaxReport.Text.Splice

namespace SyntaxReport.Text

theorem width_append (xs ys : List Char) : width (xs ++ ys) = width xs + width ys := by
  induction xs with
  | nil => exact (Nat.zero_add _).symm
  | cons c xs ih => rw [List.cons_append, width, width, ih, Nat.add_assoc]

theorem eq_nil_of_width {text : List Char} (h : width text = 0) : text = [] := by
  cases text with
  | nil => rfl
  | cons c text =>
    have positive := c.utf8Size_pos
    rw [width] at h
    omega

theorem splitAt?_zero_iff {text before behind : List Char} :
    splitAt? 0 text = some (before, behind) ↔ text = before ++ behind ∧ width before = 0 := by
  have whole : splitAt? 0 text = some ([], text) := by cases text <;> rfl
  rw [whole]
  constructor
  · intro h
    cases h
    exact ⟨rfl, rfl⟩
  · rintro ⟨same, h⟩
    cases eq_nil_of_width h
    rw [same]
    rfl

theorem splitAt?_eq_some_iff {n : Nat} {text before behind : List Char} :
    splitAt? n text = some (before, behind) ↔
      text = before ++ behind ∧ width before = n := by
  induction text generalizing n before with
  | nil =>
    cases n with
    | zero => exact splitAt?_zero_iff
    | succ n =>
      refine ⟨fun h => (by cases h), ?_⟩
      rintro ⟨same, h⟩
      rw [(List.append_eq_nil_iff.mp same.symm).1] at h
      cases h
  | cons c text ih =>
    cases n with
    | zero => exact splitAt?_zero_iff
    | succ n =>
      have positive := c.utf8Size_pos
      rw [splitAt?]
      constructor
      · intro h
        split at h
        · next fits =>
          obtain ⟨⟨front, rest⟩, inner, same⟩ := Option.map_eq_some_iff.mp h
          cases same
          obtain ⟨rfl, less⟩ := ih.mp inner
          exact ⟨rfl, by rw [width]; omega⟩
        · cases h
      · rintro ⟨same, h⟩
        cases before with
        | nil => cases h
        | cons d front =>
          cases same
          rw [width] at h
          have inner := ih.mpr ⟨rfl, show width front = n + 1 - c.utf8Size by omega⟩
          rw [if_pos (by omega), inner]
          rfl

/-- A range that an edit may replace: in order, within the text, and between characters. -/
def Replaceable (text : List Char) (start stop : Nat) : Prop :=
  start ≤ stop ∧ stop ≤ width text ∧ IsBoundary text start ∧ IsBoundary text stop

namespace Cut

theorem at?_eq_some_iff {text : List Char} {start stop : Nat} {cut : Cut} :
    at? text start stop = some cut ↔
      text = cut.fill cut.removed ∧ width cut.before = start ∧
        start + width cut.removed = stop := by
  obtain ⟨before, removed, behind⟩ := cut
  unfold at? fill
  constructor
  · intro h
    split at h
    · next le =>
      simp only [Option.bind_eq_bind, Option.bind_eq_some_iff, Prod.exists,
        splitAt?_eq_some_iff] at h
      obtain ⟨b, rest, ⟨rfl, atStart⟩, r, e, ⟨rfl, atStop⟩, same⟩ := h
      cases same
      refine ⟨(List.append_assoc _ _ _).symm, atStart, ?_⟩
      change start + width removed = stop
      omega
    · cases h
  · rintro ⟨rfl, rfl, rfl⟩
    have first := splitAt?_eq_some_iff.mpr
      ⟨List.append_assoc before removed behind, rfl⟩
    have second : splitAt? (width before + width removed - width before) (removed ++ behind) =
        some (removed, behind) :=
      splitAt?_eq_some_iff.mpr ⟨rfl, (Nat.add_sub_cancel_left _ _).symm⟩
    rw [if_pos (Nat.le_add_right _ _), first]
    simp only [Option.bind_eq_bind, Option.bind_some, second]

/-- The replaceable ranges are those that cut the text. -/
theorem exists_at?_iff {text : List Char} {start stop : Nat} :
    (∃ cut, at? text start stop = some cut) ↔ Replaceable text start stop := by
  constructor
  · rintro ⟨cut, h⟩
    obtain ⟨rfl, atStart, atStop⟩ := at?_eq_some_iff.mp h
    refine ⟨by omega, ?_, ?_, ?_⟩
    · rw [fill, width_append, width_append]
      omega
    · exact ⟨cut.before, cut.removed ++ cut.behind, List.append_assoc _ _ _, atStart⟩
    · exact ⟨cut.before ++ cut.removed, cut.behind, rfl, by rw [width_append]; omega⟩
  · rintro ⟨le, _, ⟨before, rest, rfl, atStart⟩, front, behind, same, atStop⟩
    -- the part before the later offset goes on from that before the earlier one
    rcases List.append_eq_append_iff.mp same with ⟨removed, rfl, rfl⟩ | ⟨extra, rfl, rfl⟩
    · rw [width_append] at atStop
      refine ⟨⟨before, removed, behind⟩, at?_eq_some_iff.mpr ⟨?_, atStart, ?_⟩⟩
      · exact (List.append_assoc _ _ _).symm
      · change start + width removed = stop
        omega
    · rw [width_append] at atStart
      have none_between : extra = [] := eq_nil_of_width (by omega)
      subst none_between
      refine ⟨⟨front, [], rest⟩, at?_eq_some_iff.mpr ⟨?_, ?_, ?_⟩⟩
      · simp [fill]
      · change width front = start
        rw [width] at atStart
        omega
      · change start + 0 = stop
        rw [width] at atStart
        omega

theorem at?_eq_none_iff {text : List Char} {start stop : Nat} :
    at? text start stop = none ↔ ¬ Replaceable text start stop := by
  rw [← exists_at?_iff, ← Option.isSome_iff_exists, Option.not_isSome_iff_eq_none]

end Cut
end SyntaxReport.Text
