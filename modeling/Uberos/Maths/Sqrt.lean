import Mathlib.Algebra.Group.Nat.Defs
import Mathlib.Tactic.Linarith
/-!
# The integer square root

The template `sqrt` of `common/maths.hpp`, for the unsigned types. What is
narrower than an `int` is added as one, and what is not wraps around. The
loop ends since its result goes down with each turn.
-/

namespace Uberos

namespace Maths

/-- The unsigned types. -/
inductive Unsigned
  | U8
  | U16
  | U32
  | U64
  | U128
  deriving DecidableEq, Repr

namespace Unsigned

def bits : Unsigned → ℕ
  | U8 => 8
  | U16 => 16
  | U32 => 32
  | U64 => 64
  | U128 => 128

/-- A value of the type, of a number. -/
def narrow (type : Unsigned) (n : ℕ) : ℕ := n % 2 ^ type.bits

/-- `a+b`, of an `int` or of the type. -/
def add (type : Unsigned) (a b : ℕ) : ℕ := if type.bits < 32 then a + b else type.narrow (a + b)

end Unsigned

/-- The loop, with the next `y`. It has no result where it divides by zero. -/
def sqrtLoop (type : Unsigned) (x result y : ℕ) : Option ℕ :=
  if y < result then
    if y = 0 then none
    else sqrtLoop type x y (type.narrow (type.add y (x / y) / 2))
  else some result
termination_by result

/-- **`sqrt(x)`.** -/
def sqrt (type : Unsigned) (x : Fin (2 ^ type.bits)) : Option ℕ :=
  sqrtLoop type x x (type.narrow (type.add x 1 / 2))

/-! ## What it is for -/

/-- The greatest number whose square is at most `x`. -/
def IsRoot (x r : ℕ) : Prop := r * r ≤ x ∧ ∀ r', r' * r' ≤ x → r' ≤ r

/-- **The root is found**, and nothing is divided by zero. -/
def FindsRoot (type : Unsigned) (x : Fin (2 ^ type.bits)) : Prop :=
  ∃ r, sqrt type x = some r ∧ IsRoot x r

/-- **The type is narrower than an `int`, or the number is not its
greatest.** -/
def HasNext (type : Unsigned) (x : ℕ) : Prop := type.bits < 32 ∨ x + 1 < 2 ^ type.bits

variable {type : Unsigned} {x r y : ℕ}

/-! ## Newton's step -/

/-- Four times a product is no more than the square of the sum. -/
theorem four_mul_le (a b : ℕ) : 4 * (a * b) ≤ (a + b) * (a + b) := by
  rcases Nat.le_total a b with h | h
  · obtain ⟨d, rfl⟩ := Nat.exists_eq_add_of_le h
    nlinarith
  · obtain ⟨d, rfl⟩ := Nat.exists_eq_add_of_le h
    nlinarith

/-- **The step does not go below the root.** -/
theorem lt_next (hr : 0 < r) : x < ((r + x / r) / 2 + 1) * ((r + x / r) / 2 + 1) := by
  have hquotient : x < r * (x / r + 1) := Nat.lt_mul_div_succ x hr
  have hmean := four_mul_le r (x / r + 1)
  have hhalf : r + (x / r + 1) ≤ 2 * ((r + x / r) / 2 + 1) := by omega
  have hsquare := Nat.mul_le_mul hhalf hhalf
  nlinarith

/-- **Where it does not go down, it is at the root.** -/
theorem mul_self_le (hr : 0 < r) (h : r ≤ (r + x / r) / 2) : r * r ≤ x := by
  have hquotient : r ≤ x / r := by omega
  exact (Nat.le_div_iff_mul_le hr).1 hquotient

theorem isRoot_of_le_of_lt (hle : r * r ≤ x) (hlt : x < (r + 1) * (r + 1)) : IsRoot x r := by
  refine ⟨hle, fun r' hr' => Nat.le_of_not_lt fun hmore => ?_⟩
  have hsquare := Nat.mul_le_mul (Nat.succ_le_of_lt hmore) (Nat.succ_le_of_lt hmore)
  exact Nat.lt_irrefl x (Nat.lt_of_lt_of_le hlt (Nat.le_trans hsquare hr'))

/-- A divisor and its quotient are together at most one more. -/
theorem add_div_le (hr : 0 < r) (hle : r ≤ x) : r + x / r ≤ x + 1 := by
  have hproduct : r * (x / r) ≤ x := Nat.mul_div_le x r
  have hpos : 0 < x / r := Nat.div_pos hle hr
  obtain ⟨a, rfl⟩ := Nat.exists_eq_succ_of_ne_zero hr.ne'
  obtain ⟨b, hb⟩ := Nat.exists_eq_succ_of_ne_zero hpos.ne'
  rw [hb] at hproduct ⊢
  rw [Nat.succ_mul, Nat.mul_succ] at hproduct
  omega

/-! ## The loop -/

/-- A sum of no more than the next number does not wrap. -/
theorem narrow_add {a b : ℕ} (hnext : HasNext type x) (hx : x < 2 ^ type.bits)
    (hle : a + b ≤ x + 1) : type.narrow (type.add a b / 2) = (a + b) / 2 := by
  have hpos : 2 ≤ 2 ^ type.bits := by cases type <;> decide
  have hadd : type.add a b = a + b := by
    rw [Unsigned.add]
    split
    · rfl
    · rename_i hwide
      have hroom := hnext.resolve_left hwide
      exact Nat.mod_eq_of_lt (by omega)
  rw [hadd, Unsigned.narrow, Nat.mod_eq_of_lt (by omega)]

/-- **From above the root, the loop gets to it**, in so many turns at most as
it is above zero. -/
theorem exists_sqrtLoop (hnext : HasNext type x) (hx : x < 2 ^ type.bits) (hr : 0 < r)
    (hle : r ≤ x) (hlt : x < (r + 1) * (r + 1)) :
    ∃ root, sqrtLoop type x r ((r + x / r) / 2) = some root ∧ IsRoot x root := by
  induction r using Nat.strong_induction_on with
  | _ r ih =>
    rw [sqrtLoop]
    split
    · rename_i hdown
      have hpos : 0 < x / r := Nat.div_pos hle hr
      have hy : 0 < (r + x / r) / 2 := by omega
      rw [if_neg hy.ne', narrow_add hnext hx (add_div_le hy (by omega))]
      exact ih _ hdown hy (by omega) (lt_next hr)
    · rename_i hstop
      exact ⟨r, rfl, isRoot_of_le_of_lt (mul_self_le hr (Nat.le_of_not_lt hstop)) hlt⟩

/-- **The root is found where the next number is one of the type.** -/
theorem findsRoot_of_hasNext (x : Fin (2 ^ type.bits)) (hnext : HasNext type x) :
    FindsRoot type x := by
  have hfirst : type.narrow (type.add x.val 1 / 2) = (x.val + 1) / 2 :=
    narrow_add hnext x.isLt (Nat.le_refl _)
  rw [FindsRoot, sqrt, hfirst]
  rcases Nat.eq_zero_or_pos x.val with hzero | hpos
  · rw [hzero, sqrtLoop]
    exact ⟨0, rfl, isRoot_of_le_of_lt (Nat.le_refl 0) (Nat.zero_lt_one)⟩
  · have hself : x.val / x.val = 1 := Nat.div_self hpos
    have hlt : x.val < (x.val + 1) * (x.val + 1) :=
      Nat.lt_of_lt_of_le (Nat.lt_succ_self _) (Nat.le_mul_of_pos_left _ (Nat.succ_pos _))
    have hfound := exists_sqrtLoop hnext x.isLt hpos (Nat.le_refl _) hlt
    rwa [hself] at hfound

/-- **At the greatest number the first `y` is zero**, and is divided by. -/
theorem sqrt_eq_none (x : Fin (2 ^ type.bits)) (h : ¬HasNext type x) : sqrt type x = none := by
  rw [HasNext, not_or] at h
  have hgreatest : x.val + 1 = 2 ^ type.bits :=
    Nat.le_antisymm x.isLt (Nat.le_of_not_lt h.2)
  have hpos : 1 < 2 ^ type.bits := by cases type <;> decide
  have hzero : type.narrow (type.add x.val 1 / 2) = 0 := by
    rw [Unsigned.add, if_neg h.1, Unsigned.narrow, Unsigned.narrow, hgreatest, Nat.mod_self]
    rfl
  rw [sqrt, hzero, sqrtLoop, if_pos (by omega), if_pos rfl]

/-! ## The result -/

/-- **The root is found exactly where adding one does not wrap.** -/
theorem findsRoot_iff (type : Unsigned) (x : Fin (2 ^ type.bits)) :
    FindsRoot type x ↔ HasNext type x := by
  refine ⟨fun ⟨r, hr, _⟩ => ?_, findsRoot_of_hasNext x⟩
  by_contra hnot
  rw [sqrt_eq_none x hnot] at hr
  cases hr

/-- **The greatest U32** divides by zero. -/
theorem not_findsRoot_max : ¬FindsRoot .U32 ⟨2 ^ 32 - 1, by decide⟩ := by
  rintro ⟨r, hr, -⟩
  rw [sqrt_eq_none] at hr
  · cases hr
  · rw [HasNext]
    decide

end Maths

end Uberos
