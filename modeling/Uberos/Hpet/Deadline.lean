import Mathlib.Algebra.Order.Floor.Div
import Mathlib.Data.Nat.ModEq
import Uberos.Hpet.Model
/-!
# The deadlines of the HPET

`set_timer` of `drivers/x86/timer/Hpet.cpp`. The deadline is reckoned in
microseconds, by `now64`, and written as it is to the comparator, which
the device compares with its counter of ticks. The two agree only where
the ticks that make up the difference come to whole turns of the counter.
-/

namespace Uberos

namespace Hpet

/-! ## The timers -/

/-- `Registers::Timer`, so far as `set_timer` writes it. -/
structure TimerRegisters where
  comparator : BitVec 64
  enableInterrupts : Bool

variable {Callback Data : Type*}

/-- The device with its timers, and what the driver holds of each. There
are as many as five bits count. -/
structure Timers (Callback Data : Type*) where
  hpet : Hpet
  clockCount : BitVec 32
  clockCount_le : clockCount.toNat ≤ 32
  timer : Vector TimerRegisters 32
  clock : Vector (Option (Callback × Data)) 32
  log : List String

namespace Timers

variable (t : Timers Callback Data) (has128Bit : Bool) (index : BitVec 8) (usecs : BitVec 32)
variable (callback : Callback) (data : Data)

/-- An index below the count is one of an array. -/
theorem index_lt (h : index.toNat < t.clockCount.toNat) : index.toNat < 32 :=
  Nat.lt_of_lt_of_le h t.clockCount_le

/-- What `set_timer` prints of an index that is not a timer's. -/
def invalidTimer : String :=
  s!"Invalid timer timer id specified ({index.toNat}) - This device has {t.clockCount.toNat} timers"

/-- The time that `set_timer` reckons: `now64()+max(1u, usecs)`. -/
def deadline : BitVec 64 :=
  t.hpet.now64 has128Bit + (if usecs ≤ 1#32 then 1#32 else usecs).setWidth 64

/-- The comparator of a timer as the time is written to it: the whole
union, or its low word. -/
def writeComparator (comparator time : BitVec 64) : BitVec 64 :=
  if t.hpet.is64bit then time else comparator.extractLsb' 32 32 ++ time.setWidth 32

/-- `set_timer`. -/
def setTimer : Timers Callback Data :=
  if h : index.toNat < t.clockCount.toNat then
    let registers := t.timer.get ⟨index.toNat, t.index_lt index h⟩
    { t with
      clock := t.clock.set index.toNat (some (callback, data)) (t.index_lt index h)
      timer := t.timer.set index.toNat
        { comparator := t.writeComparator registers.comparator (t.deadline has128Bit usecs)
          enableInterrupts := true } (t.index_lt index h) }
  else { t with log := t.log ++ [t.invalidTimer index] }

/-- A timer's comparator, in the bits that the counter is compared with. -/
def comparatorOf (i : Fin 32) : ℕ :=
  if t.hpet.is64bit then (t.timer.get i).comparator.toNat
  else ((t.timer.get i).comparator.setWidth 32).toNat

end Timers

/-! ## What a timer is to be set to -/

variable (hpet : Hpet) (usecs : BitVec 32)

/-- The bits of the counter. -/
def counterWidth : ℕ := if hpet.is64bit then 64 else 32

/-- The microseconds at a count of ticks, by the conversion of `now64`. -/
def timeAt (count : ℕ) : ℕ := count * hpet.clockPeriod.toNat / 10 ^ 9

/-- The time in microseconds that a timer is to wait for. -/
def dueTime : ℕ := hpet.time + max 1 usecs.toNat

/-- **A comparator is set to the deadline**: it is, in the counter's
width, the least count by which as many microseconds have passed. -/
def IsDeadline (comparator : ℕ) : Prop :=
  ∃ count, IsLeast {count | hpet.dueTime usecs ≤ hpet.timeAt count} count ∧
    comparator = count % 2 ^ hpet.counterWidth

/-- **The ticks come to the microseconds**: a tick is a microsecond, or
those that a shorter tick takes more than one a microsecond, or a longer
tick fewer, are whole turns of the counter at the deadline. -/
def TicksAsMicroseconds : Prop :=
  let period := hpet.clockPeriod.toNat
  period = 10 ^ 9 ∨
    (0 < period ∧ period < 10 ^ 9 ∧
      2 ^ hpet.counterWidth ∣ (10 ^ 9 - period) * hpet.dueTime usecs ⌈/⌉ period) ∨
    (10 ^ 9 < period ∧
      2 ^ hpet.counterWidth ∣ (period - 10 ^ 9) * hpet.dueTime usecs / period)

variable {hpet usecs}

/-! ## The least count of a time -/

/-- Something is to be waited for, whatever is asked. -/
theorem dueTime_pos : 0 < hpet.dueTime usecs := by
  have hone : 1 ≤ max 1 usecs.toNat := Nat.le_max_left 1 usecs.toNat
  rw [dueTime]
  omega

/-- **The least count of a time** is the time in femtoseconds, rounded up
to whole periods. -/
theorem isLeast_ceilDiv (hperiod : 0 < hpet.clockPeriod.toNat) (time : ℕ) :
    IsLeast {count | time ≤ hpet.timeAt count} (10 ^ 9 * time ⌈/⌉ hpet.clockPeriod.toNat) := by
  have hle (count : ℕ) : time ≤ hpet.timeAt count ↔
      10 ^ 9 * time ⌈/⌉ hpet.clockPeriod.toNat ≤ count := by
    rw [timeAt, Nat.le_div_iff_mul_le (by decide), ceilDiv_le_iff_le_mul hperiod,
      Nat.mul_comm time, Nat.mul_comm count]
  exact ⟨(hle _).mpr (Nat.le_refl _), fun count hcount => (hle count).mp hcount⟩

/-- A counter that stands still never comes to a deadline. -/
theorem not_isDeadline_of_stopped (hperiod : hpet.clockPeriod.toNat = 0) (comparator : ℕ) :
    ¬hpet.IsDeadline usecs comparator := by
  rintro ⟨count, ⟨hcount, -⟩, -⟩
  have hzero : hpet.timeAt count = 0 := by rw [timeAt, hperiod, Nat.mul_zero, Nat.zero_div]
  have hdue : hpet.dueTime usecs ≤ hpet.timeAt count := hcount
  have hpos : 0 < hpet.dueTime usecs := dueTime_pos
  omega

/-- With a period there is one deadline. -/
theorem isDeadline_iff (hperiod : 0 < hpet.clockPeriod.toNat) (comparator : ℕ) :
    hpet.IsDeadline usecs comparator ↔
      comparator =
        (10 ^ 9 * hpet.dueTime usecs ⌈/⌉ hpet.clockPeriod.toNat) % 2 ^ hpet.counterWidth := by
  have hleast := isLeast_ceilDiv hperiod (hpet.dueTime usecs)
  constructor
  · rintro ⟨count, hcount, heq⟩
    rw [heq, hcount.unique hleast]
  · intro heq
    exact ⟨_, hleast, heq⟩

/-! ## Ticks and microseconds -/

variable {period time width : ℕ}

/-- Of a shorter tick there are more than one a microsecond. -/
theorem ceilDiv_of_lt (hpos : 0 < period) (hlt : period < 10 ^ 9) :
    10 ^ 9 * time ⌈/⌉ period = time + ((10 ^ 9 - period) * time ⌈/⌉ period) := by
  have hsplit : 10 ^ 9 * time = period * time + (10 ^ 9 - period) * time := by
    rw [← Nat.add_mul, Nat.add_sub_cancel' (Nat.le_of_lt hlt)]
  have hround : period * time + (10 ^ 9 - period) * time + period - 1
      = period * time + ((10 ^ 9 - period) * time + period - 1) := by
    omega
  rw [hsplit, Nat.ceilDiv_eq_add_pred_div, Nat.ceilDiv_eq_add_pred_div, hround,
    Nat.mul_add_div hpos]

/-- Of a longer tick there are fewer. -/
theorem ceilDiv_of_gt (time : ℕ) (hgt : 10 ^ 9 < period) :
    time = (10 ^ 9 * time ⌈/⌉ period) + (period - 10 ^ 9) * time / period := by
  have hpos : 0 < period := by omega
  have hsplit : period * time = 10 ^ 9 * time + (period - 10 ^ 9) * time := by
    rw [← Nat.add_mul, Nat.add_sub_cancel' (Nat.le_of_lt hgt)]
  have hrest := Nat.div_add_mod ((period - 10 ^ 9) * time) period
  have hlt := Nat.mod_lt ((period - 10 ^ 9) * time) hpos
  -- what is short of the time is whole periods and a part of one, which rounds up to nothing
  have hle : (period - 10 ^ 9) * time / period ≤ time := by
    have hmul : (period - 10 ^ 9) * time ≤ period * time := by omega
    calc (period - 10 ^ 9) * time / period ≤ period * time / period := Nat.div_le_div_right hmul
      _ = time := Nat.mul_div_cancel_left time hpos
  have hwhole : period * (time - (period - 10 ^ 9) * time / period)
      = period * time - period * ((period - 10 ^ 9) * time / period) := Nat.mul_sub _ _ _
  have hmulLe := Nat.mul_le_mul_left period hle
  have hround : 10 ^ 9 * time + period - 1
      = period * (time - (period - 10 ^ 9) * time / period)
        + (period - 1 - (period - 10 ^ 9) * time % period) := by
    omega
  rw [Nat.ceilDiv_eq_add_pred_div, hround, Nat.mul_add_div hpos,
    Nat.div_eq_of_lt (a := period - 1 - _) (by omega)]
  omega

/-- A time and its ticks are one number to a counter just where what lies
between them is whole turns of it. -/
theorem mod_eq_add_mod_iff (time width excess : ℕ) :
    time % width = (time + excess) % width ↔ width ∣ excess := by
  have hsub : time + excess - time = excess := Nat.add_sub_cancel_left time excess
  have hiff := Nat.modEq_iff_dvd' (n := width) (Nat.le_add_right time excess)
  rw [hsub] at hiff
  exact hiff

/-- **The microseconds are the deadline** just where the ticks come to
them. -/
theorem isDeadline_dueTime_iff :
    hpet.IsDeadline usecs (hpet.dueTime usecs % 2 ^ hpet.counterWidth) ↔
      hpet.TicksAsMicroseconds usecs := by
  rcases Nat.eq_zero_or_pos hpet.clockPeriod.toNat with hzero | hpos
  · refine iff_of_false (not_isDeadline_of_stopped hzero _) ?_
    rintro (heq | ⟨hpos, -⟩ | ⟨hgt, -⟩)
    all_goals omega
  · rw [isDeadline_iff hpos, TicksAsMicroseconds]
    rcases Nat.lt_trichotomy hpet.clockPeriod.toNat (10 ^ 9) with hlt | heq | hgt
    · rw [ceilDiv_of_lt hpos hlt, mod_eq_add_mod_iff]
      constructor
      · intro hturns
        exact Or.inr (Or.inl ⟨hpos, hlt, hturns⟩)
      · rintro (heq | ⟨-, -, hturns⟩ | ⟨hgt, -⟩)
        · omega
        · exact hturns
        · omega
    · have hticks : 10 ^ 9 * hpet.dueTime usecs ⌈/⌉ hpet.clockPeriod.toNat
          = hpet.dueTime usecs := by
        rw [heq, Nat.ceilDiv_eq_add_pred_div]
        omega
      rw [hticks]
      exact iff_of_true rfl (Or.inl heq)
    · have hticks := ceilDiv_of_gt (hpet.dueTime usecs) hgt
      have hmod : hpet.dueTime usecs % 2 ^ hpet.counterWidth
            = (10 ^ 9 * hpet.dueTime usecs ⌈/⌉ hpet.clockPeriod.toNat) % 2 ^ hpet.counterWidth ↔
          2 ^ hpet.counterWidth
            ∣ (hpet.clockPeriod.toNat - 10 ^ 9) * hpet.dueTime usecs / hpet.clockPeriod.toNat := by
        rw [← mod_eq_add_mod_iff (10 ^ 9 * hpet.dueTime usecs ⌈/⌉ hpet.clockPeriod.toNat)
          (2 ^ hpet.counterWidth), ← hticks, eq_comm]
      rw [hmod]
      constructor
      · intro hturns
        exact Or.inr (Or.inr ⟨hgt, hturns⟩)
      · rintro (heq | ⟨-, hlt, -⟩ | ⟨-, hturns⟩)
        · omega
        · omega
        · exact hturns

/-! ## What is written -/

namespace Timers

variable {t : Timers Callback Data} {index : BitVec 8}
variable (has128Bit : Bool) (callback : Callback) (data : Data)

/-- What is waited for, as a word of the comparator's. -/
theorem toNat_deadline :
    (t.deadline has128Bit usecs).toNat = t.hpet.dueTime usecs % 2 ^ 64 := by
  have husecs : usecs.toNat < 2 ^ 32 := usecs.isLt
  have hmax : ((if usecs ≤ 1#32 then 1#32 else usecs).setWidth 64).toNat
      = max 1 usecs.toNat := by
    rw [BitVec.toNat_setWidth]
    split
    · next hle =>
      have hle' : usecs.toNat ≤ 1 := hle
      rw [Nat.max_eq_left hle']
      rfl
    · next hle =>
      have hlt : 1 < usecs.toNat := Nat.lt_of_not_le hle
      rw [Nat.max_eq_right (Nat.le_of_lt hlt), Nat.mod_eq_of_lt (by omega)]
  rw [deadline, BitVec.toNat_add, toNat_now64, hmax, dueTime, Nat.mod_add_mod]

/-- The timer at an index is what it is set to. -/
theorem get_set {α : Type*} (timers : Vector α 32) (i : ℕ) (hi : i < 32) (timer : α) :
    (timers.set i timer hi).get ⟨i, hi⟩ = timer := Vector.getElem_set_self hi

/-- **The microseconds are written as they are**, in the bits that the
counter is compared with. -/
theorem comparatorOf_setTimer (h : index.toNat < t.clockCount.toNat) :
    (t.setTimer has128Bit index usecs callback data).comparatorOf ⟨index.toNat, t.index_lt index h⟩
      = t.hpet.dueTime usecs % 2 ^ t.hpet.counterWidth := by
  have hset : t.setTimer has128Bit index usecs callback data = _ := dif_pos h
  rw [hset, comparatorOf, counterWidth]
  simp only [get_set, writeComparator]
  by_cases h64 : t.hpet.is64bit = true
  · rw [if_pos h64, if_pos h64, if_pos h64, toNat_deadline]
  · have hlow (n : ℕ) : n % 2 ^ 64 % 2 ^ 32 = n % 2 ^ 32 := by omega
    rw [if_neg h64, if_neg h64, if_neg h64, BitVec.setWidth_append_eq_right,
      BitVec.toNat_setWidth, toNat_deadline, hlow]

/-- **A timer is set to its deadline just where the ticks come to the
microseconds.** -/
theorem setTimer_isDeadline_iff (h : index.toNat < t.clockCount.toNat) :
    t.hpet.IsDeadline usecs
        ((t.setTimer has128Bit index usecs callback data).comparatorOf
          ⟨index.toNat, t.index_lt index h⟩) ↔
      t.hpet.TicksAsMicroseconds usecs := by
  rw [comparatorOf_setTimer has128Bit callback data h]
  exact isDeadline_dueTime_iff

/-- **A shorter tick sets the timer early**: what is written is less than
the count of the deadline. -/
theorem lt_of_isLeast {count : ℕ} (h : index.toNat < t.clockCount.toNat)
    (hperiod : t.hpet.clockPeriod.toNat < 10 ^ 9)
    (hcount : IsLeast {count | t.hpet.dueTime usecs ≤ t.hpet.timeAt count} count) :
    (t.setTimer has128Bit index usecs callback data).comparatorOf
      ⟨index.toNat, t.index_lt index h⟩ < count := by
  have hdue : t.hpet.dueTime usecs ≤ t.hpet.timeAt count := hcount.1
  have hpos : 0 < t.hpet.dueTime usecs := dueTime_pos
  have hmod := Nat.mod_le (t.hpet.dueTime usecs) (2 ^ t.hpet.counterWidth)
  have hcountPos : 0 < count := by
    refine Nat.pos_of_ne_zero fun hzero => ?_
    have hnone : t.hpet.timeAt count = 0 := by rw [timeAt, hzero, Nat.zero_mul, Nat.zero_div]
    omega
  have hlt : t.hpet.timeAt count < count := by
    rw [timeAt, Nat.div_lt_iff_lt_mul (by decide)]
    exact Nat.mul_lt_mul_of_pos_left hperiod hcountPos
  rw [comparatorOf_setTimer has128Bit callback data h]
  omega

/-! ## Two devices -/

/-- Three timers are within the 32. -/
theorem three_le : (3#32).toNat ≤ 32 := by decide

/-- A device of 64 bits as it is started, by its period. -/
def started (clockPeriod : BitVec 32) : Timers Unit Unit where
  hpet := { is64bit := true, clockPeriod, mainCounter := 0#64 }
  clockCount := 3#32
  clockCount_le := three_le
  timer := Vector.replicate 32 { comparator := 0#64, enableInterrupts := false }
  clock := Vector.replicate 32 none
  log := []

/-- A tick of a microsecond is set to its deadline. -/
theorem setTimer_microsecond :
    (1#8).toNat < (started 1000000000#32).clockCount.toNat ∧
    (started 1000000000#32).hpet.IsDeadline 1000#32
      (((started 1000000000#32).setTimer true 1#8 1000#32 () ()).comparatorOf 1) := by
  have hindex : (1#8).toNat < (started 1000000000#32).clockCount.toNat := by decide
  exact ⟨hindex, (setTimer_isDeadline_iff true () () hindex).mpr (Or.inl rfl)⟩

/-- A tick of 70 nanoseconds is not: a millisecond on is 1000 ticks on. -/
theorem not_setTimer_millisecond :
    ¬(started 69841279#32).hpet.IsDeadline 1000#32
      (((started 69841279#32).setTimer true 1#8 1000#32 () ()).comparatorOf 1) := by
  have hindex : (1#8).toNat < (started 69841279#32).clockCount.toNat := by decide
  have hset : ((started 69841279#32).setTimer true 1#8 1000#32 () ()).comparatorOf 1
      = (started 69841279#32).hpet.dueTime 1000#32 % 2 ^ (started 69841279#32).hpet.counterWidth :=
    comparatorOf_setTimer true () () hindex
  rw [hset, isDeadline_dueTime_iff]
  rintro (heq | ⟨-, -, hturns⟩ | ⟨hgt, -⟩)
  · revert heq
    decide
  · revert hturns
    decide
  · revert hgt
    decide

end Timers

end Hpet

end Uberos
