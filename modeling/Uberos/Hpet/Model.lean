import Mathlib.Algebra.Group.Nat.Defs
/-!
# The time of the HPET

`now` and `now64` of `drivers/x86/timer/Hpet.cpp`, on the main counter as
it is read. `now64` is compiled in one of two ways, by whether there is an
integer of 128 bits.
-/

namespace Uberos

/-- What the driver holds of a device, and its main counter. -/
structure Hpet where
  is64bit : Bool
  clockPeriod : BitVec 32
  mainCounter : BitVec 64

namespace Hpet

variable (hpet : Hpet) (has128Bit : Bool)

/-- `mainCounter._32bit`, the low word of the union. -/
def mainCounter32 : BitVec 32 := hpet.mainCounter.setWidth 32

/-- `mainCounter._64bit`. -/
def mainCounter64 : BitVec 64 := hpet.mainCounter

/-- `now`. -/
def now : BitVec 32 :=
  (hpet.mainCounter32.setWidth 64 * hpet.clockPeriod.setWidth 64 / 1000000000#64).setWidth 32

/-- The counter as `now64` reads it. -/
def ticks : BitVec 64 :=
  if hpet.is64bit then hpet.mainCounter64 else hpet.mainCounter32.setWidth 64

/-- `now64` with `HAS_128BIT`. -/
def now64Wide : BitVec 64 :=
  (hpet.ticks.setWidth 128 * hpet.clockPeriod.setWidth 128 / 1000000000#128).setWidth 64

/-- `now64` without. -/
def now64Split : BitVec 64 :=
  if hpet.is64bit then
    let ticks := hpet.mainCounter64
    ticks / 1000000000#64 * hpet.clockPeriod.setWidth 64
      + ticks % 1000000000#64 * hpet.clockPeriod.setWidth 64 / 1000000000#64
  else
    hpet.mainCounter32.setWidth 64 * hpet.clockPeriod.setWidth 64 / 1000000000#64

/-- `now64`. -/
def now64 : BitVec 64 := if has128Bit then hpet.now64Wide else hpet.now64Split

/-- An operation of `now64` leaves the width it is carried out in. -/
def overflows : Bool :=
  let period := hpet.clockPeriod.setWidth 64
  if has128Bit then
    (hpet.ticks.setWidth 128).umulOverflow (hpet.clockPeriod.setWidth 128)
  else if hpet.is64bit then
    (hpet.mainCounter64 / 1000000000#64).umulOverflow period
      || (hpet.mainCounter64 % 1000000000#64).umulOverflow period
      || (hpet.mainCounter64 / 1000000000#64 * period).uaddOverflow
        (hpet.mainCounter64 % 1000000000#64 * period / 1000000000#64)
  else
    (hpet.mainCounter32.setWidth 64).umulOverflow period

/-- The time at the counter, in the microseconds of a period in femtoseconds. -/
def time : ℕ := hpet.ticks.toNat * hpet.clockPeriod.toNat / 10 ^ 9

/-- **The time is exact**: `now64` is the time, with nothing lost on the
way, where that fits, and `now` is its low word. -/
def Exact : Prop :=
  ∀ has128Bit,
    (hpet.time < 2 ^ 64 →
      (hpet.now64 has128Bit).toNat = hpet.time ∧ hpet.overflows has128Bit = false) ∧
    hpet.now = (hpet.now64 has128Bit).setWidth 32

/-!
## The exactness of the time

Either way `now64` is compiled, it is the time. `now` has the low word of
the counter only, so it is the low word of the time as long as what lies
above it there is a whole number of words of time.
-/

/-! ## What is computed -/

/-- A word by a period fits in twice its width. -/
private theorem mul_period_lt {n w : ℕ} (hn : n < 2 ^ w) :
    n * hpet.clockPeriod.toNat < 2 ^ (w + 32) := by
  have hp : hpet.clockPeriod.toNat < 2 ^ 32 := hpet.clockPeriod.isLt
  calc n * hpet.clockPeriod.toNat
      ≤ n * 2 ^ 32 := Nat.mul_le_mul_left n (Nat.le_of_lt hp)
    _ < 2 ^ w * 2 ^ 32 := Nat.mul_lt_mul_of_pos_right hn (by decide)
    _ = 2 ^ (w + 32) := (Nat.pow_add 2 w 32).symm

@[simp]
theorem toNat_period64 : (hpet.clockPeriod.setWidth 64).toNat = hpet.clockPeriod.toNat := by
  have hp : hpet.clockPeriod.toNat < 2 ^ 32 := hpet.clockPeriod.isLt
  rw [BitVec.toNat_setWidth, Nat.mod_eq_of_lt (by omega)]

@[simp]
theorem toNat_mainCounter32 : hpet.mainCounter32.toNat = hpet.mainCounter.toNat % 2 ^ 32 :=
  BitVec.toNat_setWidth 32 hpet.mainCounter

@[simp]
theorem toNat_low64 :
    (hpet.mainCounter32.setWidth 64).toNat = hpet.mainCounter.toNat % 2 ^ 32 := by
  have hlow : hpet.mainCounter.toNat % 2 ^ 32 < 2 ^ 64 := by omega
  rw [BitVec.toNat_setWidth, toNat_mainCounter32, Nat.mod_eq_of_lt hlow]

/-- The low word by the period, as 64 bits hold it. -/
theorem toNat_low_time :
    (hpet.mainCounter32.setWidth 64 * hpet.clockPeriod.setWidth 64 / 1000000000#64).toNat
      = hpet.mainCounter.toNat % 2 ^ 32 * hpet.clockPeriod.toNat / 10 ^ 9 := by
  have hlow : hpet.mainCounter.toNat % 2 ^ 32 < 2 ^ 32 := Nat.mod_lt _ (by decide)
  have hlt := hpet.mul_period_lt hlow
  rw [BitVec.toNat_udiv, BitVec.toNat_mul, toNat_low64, toNat_period64, Nat.mod_eq_of_lt hlt]
  rfl

/-- **`now`**, of the low word. -/
theorem toNat_now :
    hpet.now.toNat
      = hpet.mainCounter.toNat % 2 ^ 32 * hpet.clockPeriod.toNat / 10 ^ 9 % 2 ^ 32 := by
  rw [now, BitVec.toNat_setWidth, toNat_low_time]

/-- A quotient of a product, by its two parts. -/
theorem mul_div_parts (ticks period : ℕ) :
    ticks * period / 10 ^ 9
      = ticks / 10 ^ 9 * period + ticks % 10 ^ 9 * period / 10 ^ 9 := by
  have hparts : ticks * period
      = ticks % 10 ^ 9 * period + 10 ^ 9 * (ticks / 10 ^ 9 * period) := by
    calc ticks * period
        = (10 ^ 9 * (ticks / 10 ^ 9) + ticks % 10 ^ 9) * period := by
          rw [Nat.div_add_mod]
      _ = ticks % 10 ^ 9 * period + 10 ^ 9 * (ticks / 10 ^ 9 * period) := by
          rw [Nat.add_mul, Nat.mul_assoc, Nat.add_comm]
  rw [hparts, Nat.add_mul_div_left _ _ (by decide), Nat.add_comm]

/-- The remainder's part of the split, which fits whatever the period. -/
theorem toNat_rest_time :
    (hpet.mainCounter64 % 1000000000#64 * hpet.clockPeriod.setWidth 64 / 1000000000#64).toNat
      = hpet.mainCounter.toNat % 10 ^ 9 * hpet.clockPeriod.toNat / 10 ^ 9 := by
  have hrest : hpet.mainCounter.toNat % 10 ^ 9 < 2 ^ 32 := by omega
  have hlt := hpet.mul_period_lt hrest
  rw [BitVec.toNat_udiv, BitVec.toNat_mul, BitVec.toNat_umod, toNat_period64]
  exact congrArg (· / 10 ^ 9) (Nat.mod_eq_of_lt hlt)

/-- **`now64` is the time**, in the words it has room for. -/
theorem toNat_now64 : (hpet.now64 has128Bit).toNat = hpet.time % 2 ^ 64 := by
  cases has128Bit with
  | true =>
    have hlt := hpet.mul_period_lt hpet.ticks.isLt
    have hp : hpet.clockPeriod.toNat < 2 ^ 32 := hpet.clockPeriod.isLt
    have ht : hpet.ticks.toNat < 2 ^ 64 := hpet.ticks.isLt
    rw [now64, if_pos rfl, now64Wide, BitVec.toNat_setWidth, BitVec.toNat_udiv,
      BitVec.toNat_mul, BitVec.toNat_setWidth, BitVec.toNat_setWidth,
      Nat.mod_eq_of_lt (a := hpet.ticks.toNat) (by omega),
      Nat.mod_eq_of_lt (a := hpet.clockPeriod.toNat) (by omega),
      Nat.mod_eq_of_lt (Nat.lt_trans hlt (by decide))]
    rfl
  | false =>
    rw [now64, if_neg (by decide), now64Split]
    by_cases h64 : hpet.is64bit = true
    · rw [if_pos h64, time, ticks, if_pos h64, mul_div_parts]
      rw [BitVec.toNat_add, toNat_rest_time, BitVec.toNat_mul, BitVec.toNat_udiv,
        toNat_period64, Nat.mod_add_mod]
      rfl
    · have htime : hpet.time
          = hpet.mainCounter.toNat % 2 ^ 32 * hpet.clockPeriod.toNat / 10 ^ 9 := by
        rw [time, ticks, if_neg h64, toNat_low64]
      rw [if_neg h64, toNat_low_time, ← htime, Nat.mod_eq_of_lt]
      rw [htime, ← toNat_low_time]
      exact BitVec.isLt _

/-! ## What is lost -/

/-- **Nothing is lost on the way** to a time that fits. -/
theorem overflows_eq_false (hfits : hpet.time < 2 ^ 64) : hpet.overflows has128Bit = false := by
  cases has128Bit with
  | true =>
    have hlt := hpet.mul_period_lt hpet.ticks.isLt
    have hp : hpet.clockPeriod.toNat < 2 ^ 32 := hpet.clockPeriod.isLt
    have ht : hpet.ticks.toNat < 2 ^ 64 := hpet.ticks.isLt
    rw [overflows, if_pos rfl, BitVec.umulOverflow, decide_eq_false_iff_not, Nat.not_le,
      BitVec.toNat_setWidth, BitVec.toNat_setWidth,
      Nat.mod_eq_of_lt (a := hpet.ticks.toNat) (by omega),
      Nat.mod_eq_of_lt (a := hpet.clockPeriod.toNat) (by omega)]
    exact Nat.lt_trans hlt (by decide)
  | false =>
    rw [overflows, if_neg (by decide)]
    by_cases h64 : hpet.is64bit = true
    · have hparts := mul_div_parts hpet.mainCounter.toNat hpet.clockPeriod.toNat
      have htime : hpet.time = hpet.mainCounter.toNat * hpet.clockPeriod.toNat / 10 ^ 9 := by
        rw [time, ticks, if_pos h64, mainCounter64]
      have hrest : hpet.mainCounter.toNat % 10 ^ 9 < 2 ^ 32 := by omega
      have hrestLt := hpet.mul_period_lt hrest
      -- the whole part is no more than the time, and neither is the sum
      have hwhole : hpet.mainCounter.toNat / 10 ^ 9 * hpet.clockPeriod.toNat < 2 ^ 64 := by
        omega
      have hdiv : (hpet.mainCounter64 / 1000000000#64).toNat
          = hpet.mainCounter.toNat / 10 ^ 9 := BitVec.toNat_udiv
      have hmod : (hpet.mainCounter64 % 1000000000#64).toNat
          = hpet.mainCounter.toNat % 10 ^ 9 := BitVec.toNat_umod
      rw [if_pos h64, Bool.or_eq_false_iff, Bool.or_eq_false_iff]
      refine ⟨⟨?_, ?_⟩, ?_⟩
      · rw [BitVec.umulOverflow, decide_eq_false_iff_not, Nat.not_le, hdiv, toNat_period64]
        exact hwhole
      · rw [BitVec.umulOverflow, decide_eq_false_iff_not, Nat.not_le, hmod, toNat_period64]
        exact hrestLt
      · rw [BitVec.uaddOverflow, decide_eq_false_iff_not, Nat.not_le, toNat_rest_time,
          BitVec.toNat_mul, hdiv, toNat_period64, Nat.mod_eq_of_lt hwhole]
        omega
    · have hlow : hpet.mainCounter.toNat % 2 ^ 32 < 2 ^ 32 := Nat.mod_lt _ (by decide)
      rw [if_neg h64, BitVec.umulOverflow, decide_eq_false_iff_not, Nat.not_le, toNat_low64,
        toNat_period64]
      exact hpet.mul_period_lt hlow

/-! ## The low word of the time -/

/-- Times of two counters that differ by whole words are alike in their
low word, if what the words come to is whole. -/
theorem low_time_iff (high low period : ℕ) :
    low * period / 10 ^ 9 % 2 ^ 32 = (high * 2 ^ 32 + low) * period / 10 ^ 9 % 2 ^ 32
      ↔ 10 ^ 9 ∣ high * period := by
  have hsplit : (high * 2 ^ 32 + low) * period = high * period * 2 ^ 32 + low * period := by
    rw [Nat.add_mul, Nat.mul_right_comm]
  rw [hsplit]
  constructor
  · intro heq
    -- the two differ by less than one microsecond and by a multiple of 2^32 femtoseconds
    omega
  · rintro ⟨whole, hwhole⟩
    rw [hwhole]
    omega

/-- `now` is the low word of `now64` as long as the counter's words come
to whole words of time. -/
theorem now_eq_iff :
    hpet.now = (hpet.now64 has128Bit).setWidth 32 ↔
      hpet.is64bit = false ∨
        10 ^ 9 ∣ hpet.mainCounter.toNat / 2 ^ 32 * hpet.clockPeriod.toNat := by
  have hmod (n : ℕ) : n % 2 ^ 64 % 2 ^ 32 = n % 2 ^ 32 := by omega
  rw [← BitVec.toNat_inj, toNat_now, BitVec.toNat_setWidth, toNat_now64, hmod, time, ticks]
  by_cases h64 : hpet.is64bit = true
  · have hcounter : hpet.mainCounter.toNat
        = hpet.mainCounter.toNat / 2 ^ 32 * 2 ^ 32 + hpet.mainCounter.toNat % 2 ^ 32 :=
      (Nat.div_add_mod' _ _).symm
    have hiff := low_time_iff (hpet.mainCounter.toNat / 2 ^ 32)
      (hpet.mainCounter.toNat % 2 ^ 32) hpet.clockPeriod.toNat
    rw [← hcounter] at hiff
    rw [if_pos h64, mainCounter64, hiff, h64]
    simp only [Bool.true_eq_false, false_or]
  · rw [if_neg h64, toNat_low64]
    simp only [Bool.not_eq_true] at h64
    simp only [h64, true_or]

/-- **The time is exact as long as the low word is enough**: on a device
of 32 bits, or where the words of the counter above the low one come to
whole words of time. -/
theorem exact_iff :
    hpet.Exact ↔
      hpet.is64bit = false ∨
        10 ^ 9 ∣ hpet.mainCounter.toNat / 2 ^ 32 * hpet.clockPeriod.toNat := by
  constructor
  · intro hexact
    exact (hpet.now_eq_iff true).mp (hexact true).2
  · intro hlow has128Bit
    refine ⟨?_, (hpet.now_eq_iff has128Bit).mpr hlow⟩
    intro hfits
    refine ⟨?_, hpet.overflows_eq_false has128Bit hfits⟩
    rw [toNat_now64, Nat.mod_eq_of_lt hfits]

/-- The low word of a counter at 2^32 is none, so `now` starts again. -/
theorem not_exact_wrapped : ¬ (⟨true, 69841279, 4294967296⟩ : Hpet).Exact := by
  intro hexact
  exact absurd (hexact true).2 (by decide)

end Hpet

end Uberos
