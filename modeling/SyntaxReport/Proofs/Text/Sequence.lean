/- A text in bytes is one sequence after another, so its boundaries show in the bytes alone. -/
import SyntaxReport.Proofs.Text.Cut
import SyntaxReport.Text.Utf8.Lemmas

namespace SyntaxReport

namespace Utf8

/-- A byte that goes on with the sequence of a character. -/
def continues (b : UInt8) : Bool := b.toNat / 64 = 2

/-- An end of some bytes, or a place in front of a byte that opens a sequence. -/
def IsBoundary (bytes : Bytes) (offset : Nat) : Prop :=
  offset = 0 ∨ offset = bytes.length ∨ (bytes[offset]?).any (!continues ·) = true

instance (bytes : Bytes) (offset : Nat) : Decidable (IsBoundary bytes offset) :=
  inferInstanceAs (Decidable (_ ∨ _ ∨ _ = true))

theorem utf8Size_eq (c : Char) :
    c.utf8Size = if c.toNat < 0x80 then 1 else if c.toNat < 0x800 then 2
      else if c.toNat < 0x10000 then 3 else 4 := by
  have value : c.val.toNat = c.toNat := rfl
  unfold Char.utf8Size
  simp only [UInt32.le_iff_toNat_le, UInt32.toNat_ofNatLT, value]
  repeat' split
  all_goals omega

theorem continues_continuation (n : Nat) : continues (continuation n) = true := by
  have value : (continuation n).toNat = 0x80 + n % 64 := toNat_ofNat (by omega)
  rw [continues, value, decide_eq_true_iff]
  omega

/-- A byte that opens a sequence, by its value. -/
theorem continues_ofNat {n : Nat} (h : n < 256) (opens : n < 0x80 ∨ 0xC0 ≤ n) :
    continues (UInt8.ofNat n) = false := by
  rw [continues, toNat_ofNat h, decide_eq_false_iff_not]
  omega

/-- The bytes of a character: one that opens the sequence, and those that go on with it. -/
structure Sequence (c : Char) (opening : UInt8) (rest : Bytes) : Prop where
  bytes : encodeChar c = opening :: rest
  opens : continues opening = false
  goesOn : ∀ b ∈ rest, continues b = true
  size : rest.length + 1 = c.utf8Size
  /-- Only a line feed has the byte of one. -/
  feed : opening = 10 ↔ c = '\n'

theorem ofNat_eq_feed_iff {n : Nat} (less : n < 256) : UInt8.ofNat n = 10 ↔ n = 10 := by
  rw [← UInt8.toNat_inj, toNat_ofNat less]
  rfl

theorem eq_feed_iff (c : Char) : c = '\n' ↔ c.toNat = 10 := Char.toNat_inj.symm

/-- The sequence of a character that takes more than one byte. -/
theorem sequence_of_many {c : Char} (n : Nat) (rest : List Nat)
    (bytes : encodeChar c = .ofNat n :: rest.map continuation) (less : n < 256) (high : 0xC0 ≤ n)
    (large : 0x80 ≤ c.toNat) (size : rest.length + 1 = c.utf8Size) :
    Sequence c (.ofNat n) (rest.map continuation) where
  bytes := bytes
  opens := continues_ofNat less (.inr high)
  goesOn := by
    intro b member
    obtain ⟨m, _, rfl⟩ := List.mem_map.mp member
    exact continues_continuation m
  size := by rwa [List.length_map]
  feed := by
    rw [ofNat_eq_feed_iff less, eq_feed_iff]
    omega

theorem exists_sequence (c : Char) : ∃ opening rest, Sequence c opening rest := by
  have top := toNat_lt c
  have size := utf8Size_eq c
  rcases Nat.lt_or_ge c.toNat 0x80 with one | more
  · rw [if_pos one] at size
    refine ⟨.ofNat c.toNat, [], ?_, continues_ofNat (by omega) (.inl one), by simp, size.symm, ?_⟩
    · rw [encodeChar, if_pos one]
    · rw [ofNat_eq_feed_iff (by omega), eq_feed_iff]
  · rw [if_neg (by omega)] at size
    rcases Nat.lt_or_ge c.toNat 0x800 with two | more'
    · rw [if_pos two] at size
      refine ⟨_, _, sequence_of_many (0xC0 + c.toNat / 64) [c.toNat] ?_ (by omega) (by omega) more
        size.symm⟩
      rw [encodeChar, if_neg (by omega), if_pos two]
      rfl
    · rw [if_neg (by omega)] at size
      rcases Nat.lt_or_ge c.toNat 0x10000 with three | four
      · rw [if_pos three] at size
        refine ⟨_, _, sequence_of_many (0xE0 + c.toNat / 4096) [c.toNat / 64, c.toNat] ?_
          (by omega) (by omega) more size.symm⟩
        rw [encodeChar, if_neg (by omega), if_neg (by omega), if_pos three]
        rfl
      · rw [if_neg (by omega)] at size
        refine ⟨_, _, sequence_of_many (0xF0 + c.toNat / 262144)
          [c.toNat / 4096, c.toNat / 64, c.toNat] ?_ (by omega) (by omega) more size.symm⟩
        rw [encodeChar, if_neg (by omega), if_neg (by omega), if_neg (by omega)]
        rfl

theorem encode_append (xs ys : List Char) : encode (xs ++ ys) = encode xs ++ encode ys :=
  List.flatMap_append

theorem encode_cons (c : Char) (text : List Char) :
    encode (c :: text) = encodeChar c ++ encode text := rfl

theorem length_encode (text : List Char) : (encode text).length = Text.width text := by
  induction text with
  | nil => rfl
  | cons c text ih =>
    obtain ⟨opening, rest, sequence⟩ := exists_sequence c
    have size := sequence.size
    rw [encode_cons, List.length_append, ih, sequence.bytes, List.length_cons, Text.width, size]

theorem encode_injective {xs ys : List Char} (same : encode xs = encode ys) : xs = ys := by
  have decoded := congrArg decode? same
  rw [decode?_encode, decode?_encode] at decoded
  exact Option.some.inj decoded

theorem encode_isInfix {xs ys : List Char} (inner : xs <:+: ys) : encode xs <:+: encode ys := by
  obtain ⟨front, rear, rfl⟩ := inner
  rw [encode_append, encode_append]
  exact ⟨encode front, encode rear, rfl⟩

theorem encode_ne_nil {text : List Char} (filled : text ≠ []) : encode text ≠ [] := by
  intro empty
  have size := length_encode text
  rw [empty] at size
  exact filled (Text.eq_nil_of_width size.symm)

theorem isBoundary_zero (bytes : Bytes) : IsBoundary bytes 0 := .inl rfl

theorem Sequence.not_isBoundary {c : Char} {opening : UInt8} {rest : Bytes}
    (sequence : Sequence c opening rest) (behind : Bytes) {k : Nat} (inner : k < rest.length) :
    ¬ IsBoundary (opening :: (rest ++ behind)) (k + 1) := by
  have goesOn : continues rest[k] = true := sequence.goesOn _ (List.getElem_mem inner)
  rintro (none | last | opens)
  · cases none
  · rw [List.length_cons, List.length_append] at last
    omega
  · rw [List.getElem?_cons_succ, List.getElem?_append_left inner, List.getElem?_eq_getElem inner]
      at opens
    simp [goesOn] at opens

/-- The bytes of a text end right away or go on with a byte that opens a sequence. -/
theorem ends_or_opens (text : List Char) :
    0 = (encode text).length ∨ ((encode text)[0]?).any (!continues ·) = true := by
  cases text with
  | nil => exact .inl rfl
  | cons d text =>
    obtain ⟨_, _, next⟩ := exists_sequence d
    right
    rw [encode_cons, next.bytes]
    simp [next.opens]

theorem isBoundary_behind_iff (opening : UInt8) (rest : Bytes) (text : List Char) (m : Nat) :
    IsBoundary (opening :: (rest ++ encode text)) (rest.length + m + 1) ↔
      IsBoundary (encode text) m := by
  have place : (opening :: (rest ++ encode text))[rest.length + m + 1]? = (encode text)[m]? := by
    rw [List.getElem?_cons_succ, List.getElem?_append_right (Nat.le_add_right _ _),
      Nat.add_sub_cancel_left]
  have last : rest.length + m + 1 = (opening :: (rest ++ encode text)).length ↔
      m = (encode text).length := by
    rw [List.length_cons, List.length_append]
    omega
  rw [IsBoundary, IsBoundary, place, last]
  constructor
  · rintro (none | boundary)
    · cases none
    · exact .inr boundary
  · rintro (rfl | boundary)
    · exact .inr (ends_or_opens text)
    · exact .inr boundary

/-- Inside the first character there is no boundary, and behind it are those of the rest. -/
theorem isBoundary_encode_cons (c : Char) (text : List Char) (n : Nat) :
    IsBoundary (encode (c :: text)) n ↔
      n = 0 ∨ c.utf8Size ≤ n ∧ IsBoundary (encode text) (n - c.utf8Size) := by
  obtain ⟨opening, rest, sequence⟩ := exists_sequence c
  have size := sequence.size
  cases n with
  | zero => simp [isBoundary_zero]
  | succ k =>
    have bytes : encode (c :: text) = opening :: (rest ++ encode text) := by
      rw [encode_cons, sequence.bytes]
      rfl
    rw [bytes]
    rcases Nat.lt_or_ge k rest.length with inner | outer
    · exact iff_of_false (sequence.not_isBoundary _ inner) (by omega)
    · obtain ⟨m, rfl⟩ : ∃ m, k = rest.length + m := Nat.exists_eq_add_of_le outer
      have less : rest.length + m + 1 - c.utf8Size = m := by omega
      rw [isBoundary_behind_iff, less]
      constructor
      · exact fun boundary => .inr ⟨by omega, boundary⟩
      · rintro (none | ⟨_, boundary⟩)
        · cases none
        · exact boundary

end Utf8

namespace Text

theorem isBoundary_cons_iff (c : Char) (text : List Char) (n : Nat) :
    IsBoundary (c :: text) n ↔ n = 0 ∨ c.utf8Size ≤ n ∧ IsBoundary text (n - c.utf8Size) := by
  constructor
  · rintro ⟨before, behind, same, wide⟩
    cases before with
    | nil => exact .inl wide.symm
    | cons d before =>
      obtain ⟨rfl, rest⟩ := List.cons.inj same
      rw [width] at wide
      exact .inr ⟨by omega, before, behind, rest, by omega⟩
  · rintro (rfl | ⟨fits, before, behind, rfl, wide⟩)
    · exact ⟨[], c :: text, rfl, rfl⟩
    · exact ⟨c :: before, behind, rfl, by rw [width]; omega⟩

/-- The boundaries of a text are those of its bytes. -/
theorem isBoundary_iff (text : List Char) (n : Nat) :
    IsBoundary text n ↔ Utf8.IsBoundary (Utf8.encode text) n := by
  induction text generalizing n with
  | nil =>
    constructor
    · rintro ⟨before, behind, same, wide⟩
      rw [(List.append_eq_nil_iff.mp same.symm).1] at wide
      exact .inl wide.symm
    · rintro (start | last | opens)
      · exact ⟨[], [], rfl, start.symm⟩
      · exact ⟨[], [], rfl, last.symm⟩
      · cases opens
  | cons c text ih => rw [isBoundary_cons_iff, Utf8.isBoundary_encode_cons, ih]

end Text
end SyntaxReport
