/- The time per success, where the lower 32 bits of the count stand for the count. -/
import SyntaxReport.Proofs.Report.Tally

namespace SyntaxReport.Tally

/-- The time per success, rounded down, and zero if there is none. -/
def mean (t : Tally) : Duration :=
  if t.succeeded = 0 then .zero else ⟨t.time.nanos / t.succeeded.toNat⟩

/-- The number of parts that the time is split into. -/
def parts (t : Tally) : Nat := t.succeeded.toNat % 2 ^ 32

theorem toUInt32_succeeded_eq_zero_iff (t : Tally) : t.succeeded.toUInt32 = 0 ↔ t.parts = 0 := by
  rw [← UInt32.toNat_inj, UInt64.toNat_toUInt32]
  rfl

theorem succeeded_eq_zero_iff (t : Tally) : t.succeeded = 0 ↔ t.succeeded.toNat = 0 := by
  rw [← UInt64.toNat_inj]
  rfl

theorem meanTime_of_none {t : Tally} (none : t.succeeded = 0) : t.meanTime = .ok .zero := by
  rw [meanTime, if_pos none]

theorem meanTime_of_no_parts {t : Tally} (some : t.succeeded ≠ 0) (no_parts : t.parts = 0) :
    t.meanTime = .error .divisionByZero := by
  rw [meanTime, if_neg some, Duration.div?, if_pos (t.toUInt32_succeeded_eq_zero_iff.mpr no_parts)]

theorem meanTime_of_parts {t : Tally} (parts : 0 < t.parts) :
    t.meanTime = .ok ⟨t.time.nanos / t.parts⟩ := by
  have divisor : t.succeeded.toUInt32 ≠ 0 := fun zero =>
    Nat.ne_of_gt parts (t.toUInt32_succeeded_eq_zero_iff.mp zero)
  have some : t.succeeded ≠ 0 := fun zero => divisor (zero ▸ rfl)
  rw [meanTime, if_neg some, Duration.div?, if_neg divisor, UInt64.toNat_toUInt32]
  rfl

/-- A count beyond 32 bits is more than twice its lower 32 bits. So the two quotients agree only
where both are zero. -/
theorem div_eq_div_iff_lt {nanos count parts : Nat} (some : 0 < parts) (low : parts < 2 ^ 32)
    (high : parts + 2 ^ 32 ≤ count) : nanos / parts = nanos / count ↔ nanos < parts := by
  constructor
  · intro same
    refine Nat.lt_of_not_le fun large => ?_
    have one : 1 ≤ nanos / parts := Nat.div_pos large some
    have fits : nanos / parts * count ≤ nanos := same ▸ Nat.div_mul_le_self nanos count
    have past : nanos < parts * (nanos / parts + 1) := Nat.lt_mul_div_succ nanos some
    have twice : parts * (nanos / parts + 1) ≤ nanos / parts * count := calc
      parts * (nanos / parts + 1) ≤ parts * (nanos / parts * 2) :=
        Nat.mul_le_mul_left parts (by omega)
      _ = nanos / parts * (parts * 2) := Nat.mul_left_comm ..
      _ ≤ nanos / parts * count := Nat.mul_le_mul_left _ (by omega)
    omega
  · intro small
    rw [Nat.div_eq_of_lt small, Nat.div_eq_of_lt (by omega)]

/-- The time per success is right for every count of 32 bits. For a larger one it is right only
where the time is so short that the lower 32 bits do not matter either, and it fails where they are
zero. -/
theorem meanTime_eq_mean_iff (t : Tally) :
    (t.meanTime = .ok t.mean ↔ t.succeeded.toNat < 2 ^ 32 ∨ t.time.nanos < t.parts) ∧
      (t.meanTime = .error .divisionByZero ↔ t.succeeded ≠ 0 ∧ t.parts = 0) ∧
      (0 < t.parts → t.meanTime = .ok ⟨t.time.nanos / t.parts⟩) := by
  have lower : t.parts = t.succeeded.toNat % 2 ^ 32 := rfl
  refine ⟨?_, ?_, meanTime_of_parts⟩
  · by_cases none : t.succeeded = 0
    · have zero := t.succeeded_eq_zero_iff.mp none
      rw [meanTime_of_none none, mean, if_pos none]
      exact iff_of_true rfl (.inl (by omega))
    · have some := mt t.succeeded_eq_zero_iff.mpr none
      rcases Nat.eq_zero_or_pos t.parts with no_parts | parts
      · rw [meanTime_of_no_parts none no_parts]
        exact iff_of_false (fun failed => by cases failed) (by omega)
      · rw [meanTime_of_parts parts, mean, if_neg none, Except.ok.injEq, Duration.mk.injEq]
        rcases Nat.lt_or_ge t.succeeded.toNat (2 ^ 32) with few | many
        · rw [lower, Nat.mod_eq_of_lt few]
          exact iff_of_true rfl (.inl few)
        · rw [div_eq_div_iff_lt parts (by omega) (by omega)]
          omega
  · constructor
    · intro failed
      have no_parts : t.parts = 0 := by
        refine Nat.eq_zero_of_not_pos fun parts => ?_
        rw [meanTime_of_parts parts] at failed
        cases failed
      refine ⟨fun none => ?_, no_parts⟩
      rw [meanTime_of_none none] at failed
      cases failed
    · rintro ⟨some, no_parts⟩
      exact meanTime_of_no_parts some no_parts

theorem succeeded_doubled (t : Tally) (n : Nat) :
    ((List.replicate n Step.double).foldl apply t).succeeded.toNat =
      t.succeeded.toNat * 2 ^ n % 2 ^ 64 := by
  induction n generalizing t with
  | zero =>
    have bound := t.succeeded.toNat_lt
    rw [List.replicate_zero, List.foldl_nil, pow_zero, mul_one, Nat.mod_eq_of_lt bound]
  | succ n ih =>
    have twice : (t.apply .double).succeeded.toNat = t.succeeded.toNat * 2 % 2 ^ 64 := by
      rw [apply, succeeded_add, UInt64.toNat_add, mul_two]
    rw [List.replicate_succ, List.foldl_cons, ih, twice, Nat.mod_mul_mod, mul_assoc,
      ← pow_succ' 2 n]

/-- However small the counters are, the failure is 32 doublings away from any right mean. -/
theorem meanTime_doubled {t : Tally} (parts : 0 < t.parts) :
    ((List.replicate 32 Step.double).foldl apply t).meanTime = .error .divisionByZero := by
  have lower : t.parts = t.succeeded.toNat % 2 ^ 32 := rfl
  have count := t.succeeded_doubled 32
  refine meanTime_of_no_parts (fun none => ?_) ?_
  · rw [succeeded_eq_zero_iff, count] at none
    omega
  · rw [Tally.parts, count]
    omega

/-- One success in a nanosecond, doubled 32 times. -/
def manyTally : Tally := ⟨4294967296, 4294967296, 0, ⟨4294967296⟩, 0, 0⟩

/-- Each success took a nanosecond, and yet there is no time per success. -/
theorem meanTime_manyTally :
    (Step.set ⟨1, 1, 0, ⟨1⟩, 0, 0⟩ :: List.replicate 32 Step.double).foldl apply .zero =
        manyTally ∧
      manyTally.succeeded ≠ 0 ∧ manyTally.mean = ⟨1⟩ ∧
      manyTally.meanTime = .error .divisionByZero ∧
      ¬ ∀ t : Tally, t.succeeded ≠ 0 → t.meanTime = .ok t.mean := by
  have reached : (Step.set ⟨1, 1, 0, ⟨1⟩, 0, 0⟩ :: List.replicate 32 Step.double).foldl apply
      .zero = manyTally := by
    decide
  have failed : manyTally.meanTime = .error .divisionByZero := by
    rw [← reached, List.foldl_cons]
    exact meanTime_doubled (by decide)
  refine ⟨reached, by decide, by decide, failed, fun right => ?_⟩
  have wrong := right manyTally (by decide)
  rw [failed] at wrong
  cases wrong

end SyntaxReport.Tally
