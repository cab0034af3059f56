/- UTF-8 loses nothing and admits nothing else: bytes decode to a text exactly if they are the
bytes of that text. -/
import SyntaxReport.Text.Utf8

namespace SyntaxReport.Utf8

theorem toNat_ofNat {n : Nat} (h : n < 256) : (UInt8.ofNat n).toNat = n := by
  rw [UInt8.toNat_ofNat']
  omega

theorem payload?_continuation (n : Nat) : payload? (continuation n) = some (n % 64) := by
  have same : (continuation n).toNat = 0x80 + n % 64 := toNat_ofNat (by omega)
  have high : (continuation n).toNat / 64 = 2 := by omega
  have low : (continuation n).toNat % 64 = n % 64 := by omega
  simp [payload?, high, low]

theorem scalar?_toNat (c : Char) {least : Nat} (h : least ≤ c.toNat) :
    scalar? least c.toNat = some c := by
  have valid : c.toNat.isValidChar := c.valid
  simp [scalar?, h, valid]

theorem toNat_lt (c : Char) : c.toNat < 0x110000 := by
  have valid : c.toNat.isValidChar := c.valid
  rcases valid with h | h <;> omega

theorem two?_encoded {c : Char} (large : 0x80 ≤ c.toNat) (small : c.toNat < 0x800) :
    two? (UInt8.ofNat (0xC0 + c.toNat / 64)) (continuation c.toNat) = some c := by
  have whole : (0xC0 + c.toNat / 64) % 32 * 64 + c.toNat % 64 = c.toNat := by omega
  simp only [two?, toNat_ofNat (show 0xC0 + c.toNat / 64 < 256 by omega), payload?_continuation]
  rw [if_pos (by omega)]
  simp [whole, scalar?_toNat c large]

theorem three?_encoded {c : Char} (large : 0x800 ≤ c.toNat) (small : c.toNat < 0x10000) :
    three? (UInt8.ofNat (0xE0 + c.toNat / 4096)) (continuation (c.toNat / 64))
      (continuation c.toNat) = some c := by
  have whole : ((0xE0 + c.toNat / 4096) % 16 * 64 + c.toNat / 64 % 64) * 64 + c.toNat % 64 =
      c.toNat := by omega
  simp only [three?, toNat_ofNat (show 0xE0 + c.toNat / 4096 < 256 by omega),
    payload?_continuation]
  rw [if_pos (by omega)]
  simp [whole, scalar?_toNat c large]

theorem four?_encoded {c : Char} (large : 0x10000 ≤ c.toNat) :
    four? (UInt8.ofNat (0xF0 + c.toNat / 262144)) (continuation (c.toNat / 4096))
      (continuation (c.toNat / 64)) (continuation c.toNat) = some c := by
  have top := toNat_lt c
  have whole : (((0xF0 + c.toNat / 262144) % 8 * 64 + c.toNat / 4096 % 64) * 64 +
      c.toNat / 64 % 64) * 64 + c.toNat % 64 = c.toNat := by omega
  simp only [four?, toNat_ofNat (show 0xF0 + c.toNat / 262144 < 256 by omega),
    payload?_continuation]
  rw [if_pos (by omega)]
  simp [whole, scalar?_toNat c large]

theorem decode?_encodeChar_append (c : Char) (rest : Bytes) :
    decode? (encodeChar c ++ rest) = (decode? rest).map (c :: ·) := by
  have top := toNat_lt c
  unfold encodeChar
  dsimp only
  split
  · next small =>
    have lead := toNat_ofNat (show c.toNat < 256 by omega)
    rw [List.singleton_append, decode?.eq_def]
    simp [lead, small]
  · split
    · next large small =>
      have lead := toNat_ofNat (show 0xC0 + c.toNat / 64 < 256 by omega)
      rw [List.cons_append, decode?.eq_def]
      simp only [List.cons_append, List.nil_append, lead,
        two?_encoded (Nat.le_of_not_lt large) small]
      rw [if_neg (by omega), if_pos (by omega)]
      rfl
    · split
      · next larger large small =>
        have lead := toNat_ofNat (show 0xE0 + c.toNat / 4096 < 256 by omega)
        rw [List.cons_append, decode?.eq_def]
        simp only [List.cons_append, List.nil_append, lead,
          three?_encoded (Nat.le_of_not_lt large) small]
        rw [if_neg (by omega), if_neg (by omega), if_pos (by omega)]
        rfl
      · next larger large small =>
        have lead := toNat_ofNat (show 0xF0 + c.toNat / 262144 < 256 by omega)
        rw [List.cons_append, decode?.eq_def]
        simp only [List.cons_append, List.nil_append, lead,
          four?_encoded (Nat.le_of_not_lt small)]
        rw [if_neg (by omega), if_neg (by omega), if_neg (by omega)]
        rfl

/-- A text is what its bytes decode to. -/
theorem decode?_encode (text : List Char) : decode? (encode text) = some text := by
  induction text with
  | nil => rfl
  | cons c rest ih =>
    have step := decode?_encodeChar_append c (encode rest)
    rw [ih] at step
    simpa [encode] using step

theorem continuation_eq {b : UInt8} {n x : Nat} (h : payload? b = some x) (low : n % 64 = x) :
    continuation n = b := by
  unfold payload? at h
  split at h
  · next high =>
    obtain rfl : b.toNat % 64 = x := by simpa using h
    apply UInt8.toNat_inj.mp
    rw [continuation, toNat_ofNat (by omega)]
    omega
  · contradiction

theorem payload?_lt {b : UInt8} {x : Nat} (h : payload? b = some x) : x < 64 := by
  unfold payload? at h
  split at h
  · obtain rfl : b.toNat % 64 = x := by simpa using h
    omega
  · contradiction

theorem toNat_of_scalar? {least n : Nat} {c : Char} (h : scalar? least n = some c) :
    c.toNat = n ∧ least ≤ n := by
  unfold scalar? at h
  split at h
  · next ok =>
    obtain rfl : Char.ofNat n = c := by simpa using h
    exact ⟨by rw [Char.ofNat, dif_pos ok.2]; rfl, ok.1⟩
  · contradiction

theorem encodeChar_of_two? {a b : UInt8} {c : Char} (h : two? a b = some c) :
    encodeChar c = [a, b] := by
  unfold two? at h
  split at h
  · next lead =>
    cases tail : payload? b with
    | none => simp [tail] at h
    | some x =>
      obtain ⟨value, least⟩ := toNat_of_scalar? (by simpa [tail] using h)
      have six := payload?_lt tail
      have first : UInt8.ofNat (0xC0 + c.toNat / 64) = a := by
        apply UInt8.toNat_inj.mp
        rw [toNat_ofNat (by omega)]
        omega
      unfold encodeChar
      dsimp only
      rw [if_neg (by omega), if_pos (by omega), first,
        continuation_eq tail (by omega)]
  · contradiction

theorem encodeChar_of_three? {a b d : UInt8} {c : Char} (h : three? a b d = some c) :
    encodeChar c = [a, b, d] := by
  unfold three? at h
  split at h
  · next lead =>
    cases second : payload? b with
    | none => simp [second] at h
    | some x =>
      cases third : payload? d with
      | none => simp [second, third] at h
      | some y =>
        obtain ⟨value, least⟩ := toNat_of_scalar? (by simpa [second, third] using h)
        have six := payload?_lt second
        have also := payload?_lt third
        have first : UInt8.ofNat (0xE0 + c.toNat / 4096) = a := by
          apply UInt8.toNat_inj.mp
          rw [toNat_ofNat (by omega)]
          omega
        unfold encodeChar
        dsimp only
        rw [if_neg (by omega), if_neg (by omega), if_pos (by omega), first,
          continuation_eq second (by omega), continuation_eq third (by omega)]
  · contradiction

theorem encodeChar_of_four? {a b d e : UInt8} {c : Char} (h : four? a b d e = some c) :
    encodeChar c = [a, b, d, e] := by
  unfold four? at h
  split at h
  · next lead =>
    cases second : payload? b with
    | none => simp [second] at h
    | some x =>
      cases third : payload? d with
      | none => simp [second, third] at h
      | some y =>
        cases fourth : payload? e with
        | none => simp [second, third, fourth] at h
        | some z =>
          obtain ⟨value, least⟩ :=
            toNat_of_scalar? (by simpa [second, third, fourth] using h)
          have six := payload?_lt second
          have also := payload?_lt third
          have last := payload?_lt fourth
          have first : UInt8.ofNat (0xF0 + c.toNat / 262144) = a := by
            apply UInt8.toNat_inj.mp
            rw [toNat_ofNat (by omega)]
            omega
          unfold encodeChar
          dsimp only
          rw [if_neg (by omega), if_neg (by omega), if_neg (by omega), first,
            continuation_eq second (by omega), continuation_eq third (by omega),
            continuation_eq fourth (by omega)]
  · contradiction

theorem encodeChar_of_lt {a : UInt8} (h : a.toNat < 0x80) :
    encodeChar (Char.ofNat a.toNat) = [a] := by
  have value : (Char.ofNat a.toNat).toNat = a.toNat :=
    have ok : scalar? 0 a.toNat = some (Char.ofNat a.toNat) := by
      simp [scalar?, Nat.isValidChar, show a.toNat < 0xD800 by omega]
    (toNat_of_scalar? ok).1
  unfold encodeChar
  dsimp only
  rw [if_pos (by omega), value, UInt8.ofNat_toNat]

/-- Bytes are those of the text that they decode to. -/
theorem eq_encode_of_decode? {bytes : Bytes} {text : List Char} (h : decode? bytes = some text) :
    bytes = encode text := by
  fun_induction decode? bytes generalizing text with
  | case1 =>
    obtain rfl : [] = text := by simpa using h
    rfl
  | case2 a s small ih =>
    obtain ⟨rest, found, rfl⟩ := Option.map_eq_some_iff.mp h
    simp [encode, encodeChar_of_lt small, ih found]
  | case3 a large => contradiction
  | case4 a large b s small ih =>
    obtain ⟨c, first, later⟩ := Option.bind_eq_some_iff.mp h
    obtain ⟨rest, found, rfl⟩ := Option.map_eq_some_iff.mp later
    simp [encode, encodeChar_of_two? first, ih found]
  | case5 => contradiction
  | case6 a _ b _ d s _ ih =>
    obtain ⟨c, first, later⟩ := Option.bind_eq_some_iff.mp h
    obtain ⟨rest, found, rfl⟩ := Option.map_eq_some_iff.mp later
    simp [encode, encodeChar_of_three? first, ih found]
  | case7 => contradiction
  | case8 a _ b _ d _ e s ih =>
    obtain ⟨c, first, later⟩ := Option.bind_eq_some_iff.mp h
    obtain ⟨rest, found, rfl⟩ := Option.map_eq_some_iff.mp later
    simp [encode, encodeChar_of_four? first, ih found]

/-- Bytes decode to a text exactly if they are its bytes. -/
theorem decode?_eq_some_iff {bytes : Bytes} {text : List Char} :
    decode? bytes = some text ↔ bytes = encode text :=
  ⟨eq_encode_of_decode?, fun h => h ▸ decode?_encode text⟩
end SyntaxReport.Utf8
