import Mathlib.Data.Int.Notation
import Mathlib.Tactic.Common
/-!
# Fixed-point numbers

`Fixed` of `common/maths/Fixed.hpp` with a divisor of 256, of signed
values that do not overflow. A division by zero has no result. `round`
goes away from zero, the others up or down.
-/

namespace Uberos

/-- `maths::Fixed`, by its value. -/
@[ext]
structure Fixed where
  value : ℤ
  deriving DecidableEq, Repr

namespace Fixed

variable (f op : Fixed) (a b : ℤ)

def whole : Fixed := ⟨a * 256⟩

/-- `divide` of two numbers. -/
def divide : Option Fixed := if b = 0 then none else some ⟨(a * 256).tdiv b⟩

def round : ℤ := (f.value + 255 * f.value.sign).tdiv 256

def roundDown : ℤ := (f.value - if 0 ≤ f.value then 0 else 255).tdiv 256

def roundUp : ℤ := (f.value + if 0 ≤ f.value then 255 else 0).tdiv 256

def multiply : Fixed := ⟨f.value * a⟩

def add : Fixed := ⟨f.value + a * 256⟩

def subtract : Fixed := ⟨f.value - a * 256⟩

/-- `multiply` by another. -/
def multiplyFixed : Fixed := ⟨(f.value * op.value).tdiv 256⟩

/-- `divide` by another. -/
def divideFixed : Option Fixed :=
  if op.value = 0 then none else some ⟨(f.value * 256).tdiv op.value⟩

/-- `add` of another. -/
def addFixed : Fixed := ⟨f.value + op.value⟩

/-- `subtract` of another. -/
def subtractFixed : Fixed := ⟨f.value - op.value⟩

variable {f a b}

/-! ## Rounding -/

theorem roundDown_eq : f.roundDown = f.value / 256 := by
  rw [roundDown]
  split
  · next h => rw [Int.sub_zero, Int.tdiv_eq_ediv_of_nonneg h]
  · next h =>
    have hneg := Int.neg_tdiv (f.value - 255) 256
    rw [Int.tdiv_eq_ediv_of_nonneg (by omega)] at hneg
    omega

theorem roundUp_eq : f.roundUp = (f.value + 255) / 256 := by
  rw [roundUp]
  split
  · rw [Int.tdiv_eq_ediv_of_nonneg (by omega)]
  · next h =>
    have hneg := Int.neg_tdiv f.value 256
    rw [Int.tdiv_eq_ediv_of_nonneg (by omega)] at hneg
    rw [Int.add_zero]
    omega

/-- **What is rounded goes away from zero.** -/
theorem round_eq : f.round = if 0 ≤ f.value then (f.value + 255) / 256 else f.value / 256 := by
  rw [round]
  split
  · next h =>
    rcases Int.lt_or_eq_of_le h with hpos | hzero
    · rw [Int.sign_eq_one_of_pos hpos, Int.tdiv_eq_ediv_of_nonneg (by omega)]
      omega
    · rw [← hzero]
      rfl
  · next h =>
    have hneg := Int.neg_tdiv (f.value + 255 * f.value.sign) 256
    rw [Int.sign_eq_neg_one_of_neg (by omega)] at hneg ⊢
    rw [Int.tdiv_eq_ediv_of_nonneg (by omega)] at hneg
    omega

/-! ## Moving by a whole -/

@[simp] theorem value_whole : (whole a).value = a * 256 := rfl

@[simp] theorem value_add : (f.add a).value = f.value + a * 256 := rfl

@[simp] theorem value_addFixed : (f.addFixed op).value = f.value + op.value := rfl

@[simp] theorem value_subtractFixed : (f.subtractFixed op).value = f.value - op.value := rfl

theorem whole_add : (whole a).add b = whole (a + b) := by
  ext
  rw [value_add, value_whole, value_whole]
  omega

theorem roundDown_add : (f.add a).roundDown = f.roundDown + a := by
  rw [roundDown_eq, roundDown_eq, value_add]
  omega

theorem roundUp_add : (f.add a).roundUp = f.roundUp + a := by
  rw [roundUp_eq, roundUp_eq, value_add]
  omega

theorem roundUp_whole : (whole a).roundUp = a := by
  rw [roundUp_eq, value_whole]
  omega

/-- Of what is whole nothing is rounded. -/
theorem round_whole : (whole a).round = a := by
  rw [round_eq, value_whole]
  split
  · omega
  · omega

/-- **Away from zero is up beyond a bound** that is not negative: so is
what is moved by a whole. -/
theorem max_round_add (ha : 0 ≤ a) (hb : 0 ≤ b) :
    max (b + a) (f.add a).round = max b f.round + a := by
  rw [round_eq, round_eq, value_add]
  split
  · split
    · omega
    · omega
  · split
    · omega
    · omega

end Fixed

end Uberos
