import Mathlib.Algebra.Group.Nat.Defs
import Mathlib.Algebra.Ring.Int.Defs
import Mathlib.Tactic.Common
/-!
# Parts of a word

What is masked, cut out and put together of a word of any width, as numbers.
-/

namespace Library

variable {w k n : ℕ} {x y : BitVec w}

/-- A part that is masked out. -/
theorem toNat_ushiftRight_and (x : BitVec w) (k : ℕ) (hn : n ≤ w) :
    ((x >>> k) &&& BitVec.ofNat w (2 ^ n - 1)).toNat = x.toNat / 2 ^ k % 2 ^ n := by
  have hpos : 0 < 2 ^ n := Nat.two_pow_pos n
  have hle : 2 ^ n ≤ 2 ^ w := Nat.pow_le_pow_right (by decide) hn
  rw [BitVec.toNat_and, BitVec.toNat_ushiftRight, BitVec.toNat_ofNat,
    Nat.mod_eq_of_lt (by omega), Nat.and_two_pow_sub_one_eq_mod, Nat.shiftRight_eq_div_pow]

/-- A part that is cut out. -/
theorem toNat_setWidth_ushiftRight (x : BitVec w) (k n : ℕ) :
    ((x >>> k).setWidth n).toNat = x.toNat / 2 ^ k % 2 ^ n := by
  rw [BitVec.toNat_setWidth, BitVec.toNat_ushiftRight, Nat.shiftRight_eq_div_pow]

/-- A part that there is room for above. -/
theorem toNat_shiftLeft_of_lt (hx : x.toNat < 2 ^ n) (hn : n + k ≤ w) :
    (x <<< k).toNat = x.toNat * 2 ^ k := by
  have hlt : x.toNat * 2 ^ k < 2 ^ w := calc
    x.toNat * 2 ^ k < 2 ^ n * 2 ^ k := Nat.mul_lt_mul_of_pos_right hx (Nat.two_pow_pos k)
    _ = 2 ^ (n + k) := (Nat.pow_add 2 n k).symm
    _ ≤ 2 ^ w := Nat.pow_le_pow_right (by decide) hn
  rw [BitVec.toNat_shiftLeft, Nat.shiftLeft_eq, Nat.mod_eq_of_lt hlt]

/-- **Parts that do not overlap are their sum.** -/
theorem toNat_or_of_dvd (hx : x.toNat < 2 ^ k) (hy : 2 ^ k ∣ y.toNat) :
    (x ||| y).toNat = x.toNat + y.toNat := by
  obtain ⟨a, ha⟩ := hy
  rw [BitVec.toNat_or, ha, Nat.or_comm, ← Nat.two_pow_add_eq_or_of_lt hx, Nat.add_comm]

/-- A mask further up is one on what is shifted down. -/
theorem and_shiftLeft (x mask : BitVec w) (k : ℕ) :
    x &&& mask <<< k = ((x >>> k) &&& mask) <<< k := by
  rw [BitVec.shiftLeft_and_distrib, BitVec.shiftLeft_ushiftRight, BitVec.and_assoc,
    ← BitVec.shiftLeft_and_distrib, BitVec.allOnes_and]

end Library

/-!
## Signed numbers of 32 bits

Sums and differences of bit vectors that are read as signed, as unsigned,
or one as the other.
-/

namespace Library

namespace Signed

theorem slt_iff (v w : BitVec 32) : v.slt w ↔ v.toInt < w.toInt := by
  rw [BitVec.slt_eq_decide, decide_eq_true_eq]

theorem sle_iff (v w : BitVec 32) : v.sle w ↔ v.toInt ≤ w.toInt := by
  rw [BitVec.sle_eq_decide, decide_eq_true_eq]

theorem slt_zero_iff (v : BitVec 32) : v.slt 0 ↔ v.toInt < 0 := slt_iff v 0

theorem zero_slt_iff (v : BitVec 32) : (0 : BitVec 32).slt v ↔ 0 < v.toInt := slt_iff 0 v

/-- A difference wraps at most once. -/
theorem toInt_sub (x y : BitVec 32) :
    (x - y).toInt = x.toInt - y.toInt ∧ -2 ^ 31 ≤ x.toInt - y.toInt ∧ x.toInt - y.toInt < 2 ^ 31 ∨
      (x - y).toInt = x.toInt - y.toInt - 2 ^ 32 ∧ 2 ^ 31 ≤ x.toInt - y.toInt ∨
      (x - y).toInt = x.toInt - y.toInt + 2 ^ 32 ∧ x.toInt - y.toInt < -2 ^ 31 := by
  have hsub := BitVec.toInt_eq_toNat_cond (x - y)
  rw [BitVec.toNat_sub] at hsub
  rw [hsub, BitVec.toInt_eq_toNat_cond x, BitVec.toInt_eq_toNat_cond y]
  have hx := x.isLt
  have hy := y.isLt
  generalize x.toNat = m at *
  generalize y.toNat = n at *
  split <;> split <;> split <;> omega

/-- A difference is a number of 32 bits. -/
theorem toNat_sub_toInt (v w : BitVec 32) : ((w - v).toNat : ℤ) = (w.toNat - v.toInt) % 2 ^ 32 := by
  have hv := v.isLt
  have hw := w.isLt
  rw [BitVec.toNat_sub, BitVec.toInt_eq_toNat_cond]
  split <;> omega

/-- So is a sum. -/
theorem toNat_add_toInt (v w : BitVec 32) : ((v + w).toNat : ℤ) = (v.toInt + w.toNat) % 2 ^ 32 := by
  have hv := v.isLt
  have hw := w.isLt
  rw [BitVec.toNat_add, BitVec.toInt_eq_toNat_cond]
  split <;> omega

/-- A signed number and so much less, if that does not wrap. -/
theorem toInt_sub_toNat {v w : BitVec 32} (hleast : -2 ^ 31 ≤ v.toInt - w.toNat)
    (hmost : v.toInt - w.toNat < 2 ^ 31) : (v - w).toInt = v.toInt - w.toNat := by
  have hsub := BitVec.toInt_eq_toNat_cond (v - w)
  have hv := BitVec.toInt_eq_toNat_cond v
  have hlt := v.isLt
  have hlt' := w.isLt
  rw [BitVec.toNat_sub] at hsub
  split at hsub <;> split at hv <;> omega

/-- A size is a difference, if it is not negative. -/
theorem toNat_size {v w : BitVec 32} (h : v.toInt ≤ w.toInt) :
    (w - v).toNat = (w.toInt - v.toInt).toNat := by
  have hsub := toNat_sub_toInt v w
  have hv := BitVec.le_toInt v
  have hw : w.toInt < 2 ^ 31 := BitVec.toInt_lt
  have hw' := BitVec.toInt_eq_toNat_cond w
  have hlt := w.isLt
  split at hw' <;> omega

/-- And if it is one of signed numbers, one less than the other. -/
theorem toNat_sub_of_slt {v w : BitVec 32} (h : v.slt w) :
    ((w - v).toNat : ℤ) = w.toInt - v.toInt := by
  rw [slt_iff] at h
  have hsub := toNat_sub_toInt v w
  have hv := BitVec.le_toInt v
  have hw : w.toInt < 2 ^ 31 := BitVec.toInt_lt
  have hw' := BitVec.toInt_eq_toNat_cond w
  have hlt := w.isLt
  split at hw' <;> omega

end Signed

end Library
