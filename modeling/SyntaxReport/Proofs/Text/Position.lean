/- The rows of a text: how many lines it has, and on which of them an offset lies. -/
import SyntaxReport.Proofs.Text.Line
import SyntaxReport.Proofs.Text.Sequence
import SyntaxReport.Text.Position

namespace SyntaxReport

theorem Utf8.count_encode (text : List Char) : (encode text).count 10 = text.count '\n' := by
  induction text with
  | nil => rfl
  | cons c text ih =>
    obtain ⟨opening, rest, sequence⟩ := exists_sequence c
    have none_later : rest.count 10 = 0 := by
      refine List.count_eq_zero.mpr fun member => ?_
      cases sequence.goesOn 10 member
    rw [encode_cons, sequence.bytes, List.count_append, List.count_cons, none_later, ih,
      List.count_cons, Nat.zero_add, Nat.add_comm]
    simp only [beq_iff_eq, sequence.feed]

namespace Text

/-- A text with nothing behind its last line feed. -/
def Ended (text : List Char) : Prop := text = [] ∨ text.getLast? = some '\n'

instance (text : List Char) : Decidable (Ended text) := inferInstanceAs (Decidable (_ ∨ _))

theorem ended_append_feed_iff (front rest : List Char) :
    Ended (front ++ '\n' :: rest) ↔ Ended rest := by
  cases rest with
  | nil => simp [Ended]
  | cons d rest => simp [Ended]

theorem HasLines.length_eq {text : List Char} {parts : List (List Char)}
    (has : HasLines text parts) :
    parts.length = text.count '\n' + if Ended text then 0 else 1 := by
  induction has with
  | nil => rfl
  | @last line filled feedless =>
    have open_line : ¬ Ended line := by
      rintro (empty | feed)
      · exact filled empty
      · exact feedless (List.mem_of_getLast? feed)
    rw [List.count_eq_zero.mpr feedless, if_neg open_line]
    rfl
  | @feed line rest more feedless single later ih =>
    rw [List.length_cons, ih, List.count_append, List.count_eq_zero.mpr feedless,
      List.count_cons_self]
    simp only [ended_append_feed_iff]
    omega
  | @pair line rest more feedless later ih =>
    have other : ('\r' : Char) ≠ '\n' := by decide
    have ended := ended_append_feed_iff (line ++ ['\r']) rest
    rw [List.append_assoc, List.singleton_append] at ended
    rw [List.length_cons, ih, List.count_append, List.count_eq_zero.mpr feedless,
      List.count_cons_of_ne other, List.count_cons_self]
    simp only [ended]
    omega

/-- Each line feed ends a line, and what stands behind the last one is a line if it is not empty. -/
theorem lineCount_eq (text : List Char) :
    lineCount text = text.count '\n' + if Ended text then 0 else 1 :=
  (hasLines_lines text).length_eq

end Text

namespace Position

theorem row_foldl (p : Position) (bytes : Bytes) :
    (bytes.foldl advance p).row = p.row + bytes.count 10 := by
  induction bytes generalizing p with
  | nil => rfl
  | cons b bytes ih =>
    rw [List.foldl_cons, ih, List.count_cons]
    by_cases feed : b = 10
    · simp only [advance, feed, beq_self_eq_true, if_true]
      omega
    · simp only [advance, if_neg feed, beq_iff_eq, Nat.add_zero]

/-- The row of an offset is the number of line feeds in front of it. -/
theorem row_ofOffset (bytes : Bytes) (offset : Nat) :
    (ofOffset bytes offset).row = (bytes.take offset).count 10 := by
  rw [ofOffset, extent, row_foldl, Nat.zero_add]

theorem row_le_lineCount (text : List Char) (offset : Nat) :
    (ofOffset (Utf8.encode text) offset).row ≤ Text.lineCount text := by
  have feeds := (List.take_sublist offset (Utf8.encode text)).count_le 10
  rw [row_ofOffset, Text.lineCount_eq, ← Utf8.count_encode]
  exact Nat.le_add_right_of_le feeds

/-- The last line feed is in front of no offset but the end. -/
theorem count_take_lt {front : Bytes} {offset : Nat} (inner : offset ≤ front.length) :
    ((front ++ [10]).take offset).count 10 < (front ++ [10]).count 10 := by
  have fewer := (List.take_sublist offset front).count_le 10
  rw [List.take_append_of_le_length inner, List.count_append, List.count_singleton_self]
  exact Nat.lt_succ_of_le fewer

/-- Only the end of a text lies behind its last line, and only if that line is ended. -/
theorem row_eq_lineCount_iff {text : List Char} {offset : Nat}
    (within : offset ≤ (Utf8.encode text).length) :
    (ofOffset (Utf8.encode text) offset).row = Text.lineCount text ↔
      offset = (Utf8.encode text).length ∧ Text.Ended text := by
  have feeds := (List.take_sublist offset (Utf8.encode text)).count_le 10
  rw [row_ofOffset, Text.lineCount_eq, ← Utf8.count_encode]
  constructor
  · intro all
    have ended : Text.Ended text := by
      refine Decidable.byContradiction fun open_line => ?_
      rw [if_neg open_line] at all
      omega
    rw [if_pos ended] at all
    refine ⟨?_, ended⟩
    rcases ended with rfl | last
    · exact Nat.le_zero.mp within
    · obtain ⟨front, rfl⟩ := List.getLast?_eq_some_iff.mp last
      have bytes : Utf8.encode (front ++ ['\n']) = Utf8.encode front ++ [10] :=
        Utf8.encode_append front ['\n']
      rw [bytes] at within all ⊢
      rw [List.length_append, List.length_singleton] at within ⊢
      refine Decidable.byContradiction fun earlier => ?_
      exact Nat.ne_of_lt (count_take_lt (by omega)) all
  · rintro ⟨rfl, ended⟩
    rw [List.take_length, if_pos ended, Nat.add_zero]

end Position
end SyntaxReport
