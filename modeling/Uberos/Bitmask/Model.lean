import Mathlib.Algebra.Group.Nat.Defs
import Mathlib.Data.Fintype.Defs
import Mathlib.Logic.Function.Basic
import Uberos.Library.First
/-!
# The bitmasks

`common/Bitmask.hpp`. A search of the wider masks tests with a shift of an
`int`, of which the language says nothing once it is as wide; what it
gives then is a parameter.
-/

namespace Uberos

/-- What a search returns: the index at which it ended, or `~0`. -/
def Bitmask.answer : Option ℕ → BitVec 8
  | some i => BitVec.ofNat 8 i
  | none => ~~~0#8

/-! ## 32 bits -/

/-- `Bitmask32::get`. -/
def Bitmask32.get (mask : BitVec 32) (bit : ℕ) : Bool := (mask &&& (1#32 <<< bit)) ≠ 0

/-- `Bitmask32::set`, which writes the mask it declares and not the field
of that name. -/
def Bitmask32.set (field : BitVec 32) (bit : ℕ) (value : Bool) : BitVec 32 :=
  let mask : BitVec 64 := 1#64 <<< bit
  let _mask := mask &&& ~~~mask ||| (if value then mask else 0)
  field

namespace Bitmask32

variable (mask : BitVec 32)

/-- `clear`. -/
def clear (_mask : BitVec 32) : BitVec 32 := 0

/-- `has_any`. -/
def hasAny : Bool := decide (mask ≠ 0)

/-- `mask&1<<i`, of an `int` as wide as the mask. -/
def isTrue (i : ℕ) : Bool := decide (mask &&& 1#32 <<< i ≠ 0)

/-- `get_first_false`. -/
def getFirstFalse : BitVec 8 :=
  Bitmask.answer ((List.range 32).find? fun i => !isTrue mask i)

/-- `get_first_true`. -/
def getFirstTrue : BitVec 8 := Bitmask.answer ((List.range 32).find? (isTrue mask))

end Bitmask32

/-! ## 256 bits -/

/-- `Bitmask256`. -/
abbrev Bitmask256 := Fin 4 → BitVec 64

namespace Bitmask256

/-- `bit/64`. -/
def bucket (bit : BitVec 8) : Fin 4 := ⟨bit.toNat / 64, by omega⟩

/-- `(U64)1<<(bit%64)`. -/
def bucketMask (bit : BitVec 8) : BitVec 64 := 1#64 <<< (bit.toNat % 64)

/-- A mask as it is constructed. -/
def empty : Bitmask256 := fun _ => 0

/-- `get`. -/
def get (mask : Bitmask256) (bit : BitVec 8) : Bool :=
  decide (mask (bucket bit) &&& bucketMask bit ≠ 0)

/-- `set`. -/
def set (mask : Bitmask256) (bit : BitVec 8) (value : Bool) : Bitmask256 :=
  Function.update mask (bucket bit)
    (mask (bucket bit) &&& ~~~bucketMask bit ||| if value then bucketMask bit else 0)

/-- `clear`. -/
def clear (_mask : Bitmask256) : Bitmask256 := empty

/-- `has_any`. -/
def hasAny (mask : Bitmask256) : Bool :=
  decide (mask 0 ≠ 0) || decide (mask 1 ≠ 0) || decide (mask 2 ≠ 0) || decide (mask 3 ≠ 0)

/-- `1<<i2`, an `int`, where the shift is less than its width or not. -/
def intBit (beyond : ℕ → BitVec 32) (i2 : ℕ) : BitVec 32 :=
  if i2 < 32 then 1#32 <<< i2 else beyond i2

/-- `!(mask[i]&1<<i2)`, where the `int` is extended by its sign. -/
def isFalse (beyond : ℕ → BitVec 32) (bits : BitVec 64) (i2 : ℕ) : Bool :=
  decide (bits &&& (intBit beyond i2).signExtend 64 = 0)

/-- `get_first_false`. -/
def getFirstFalse (beyond : ℕ → BitVec 32) (mask : Bitmask256) : BitVec 8 :=
  match [0, 1, 2, 3].findSome? fun i : Fin 4 =>
    ((List.range 64).find? (isFalse beyond (mask i))).map fun i2 => 64 * i.val + i2
  with
  | some bit => BitVec.ofNat 8 bit
  | none => ~~~0#8

/-- `get_first_true`. -/
def getFirstTrue (beyond : ℕ → BitVec 32) (mask : Bitmask256) : BitVec 8 :=
  Bitmask.answer <| [0, 1, 2, 3].findSome? fun i : Fin 4 =>
    ((List.range 64).find? fun i2 => !isFalse beyond (mask i) i2).map fun i2 => 64 * i.val + i2

/-- The first 64 bits. -/
abbrev low (mask : Bitmask256) : BitVec 64 := mask 0

end Bitmask256

/-! ## 64 bits -/

namespace Bitmask64

variable (mask : BitVec 64)

/-- `get`. -/
def get (bit : ℕ) : Bool := decide (mask &&& 1#64 <<< bit ≠ 0)

/-- `set`, which writes the mask it declares as that of 32 bits does. -/
def set (field : BitVec 64) (bit : ℕ) (value : Bool) : BitVec 64 :=
  let mask : BitVec 64 := 1#64 <<< bit
  let _mask := mask &&& ~~~mask ||| (if value then mask else 0)
  field

/-- `clear`. -/
def clear (_mask : BitVec 64) : BitVec 64 := 0

/-- `has_any`. -/
def hasAny : Bool := decide (mask ≠ 0)

/-- `get_first_false`, with the test of a bucket of 256 bits. -/
def getFirstFalse (beyond : ℕ → BitVec 32) : BitVec 8 :=
  Bitmask.answer ((List.range 64).find? (Bitmask256.isFalse beyond mask))

/-- `get_first_true`. -/
def getFirstTrue (beyond : ℕ → BitVec 32) : BitVec 8 :=
  Bitmask.answer ((List.range 64).find? fun i => !Bitmask256.isFalse beyond mask i)

end Bitmask64

/-! ## The methods the widths share -/

namespace Bitmask

/-- The methods of a mask of any width, with what a shift that is too wide
gives. -/
structure Methods (Mask : Type) where
  width : ℕ
  get : Mask → BitVec 8 → Bool
  set : Mask → BitVec 8 → Bool → Mask
  clear : Mask → Mask
  hasAny : Mask → Bool
  getFirstFalse : (ℕ → BitVec 32) → Mask → BitVec 8
  getFirstTrue : (ℕ → BitVec 32) → Mask → BitVec 8

/-- `Bitmask32`, whose searches shift by less than 32. -/
abbrev methods32 : Methods (BitVec 32) where
  width := 32
  get mask bit := Bitmask32.get mask bit.toNat
  set mask bit value := Bitmask32.set mask bit.toNat value
  clear := Bitmask32.clear
  hasAny := Bitmask32.hasAny
  getFirstFalse _ := Bitmask32.getFirstFalse
  getFirstTrue _ := Bitmask32.getFirstTrue

/-- `Bitmask64`. -/
abbrev methods64 : Methods (BitVec 64) where
  width := 64
  get mask bit := Bitmask64.get mask bit.toNat
  set mask bit value := Bitmask64.set mask bit.toNat value
  clear := Bitmask64.clear
  hasAny := Bitmask64.hasAny
  getFirstFalse beyond mask := Bitmask64.getFirstFalse mask beyond
  getFirstTrue beyond mask := Bitmask64.getFirstTrue mask beyond

/-- `Bitmask256`. -/
abbrev methods256 : Methods Bitmask256 where
  width := 256
  get := Bitmask256.get
  set := Bitmask256.set
  clear := Bitmask256.clear
  hasAny := Bitmask256.hasAny
  getFirstFalse := Bitmask256.getFirstFalse
  getFirstTrue := Bitmask256.getFirstTrue

end Bitmask

/-!
## The searches of the bitmasks

Bit 31 of an `int` is its sign, so that the test of it is one of all the
bits from there up, and whatever the tests after it say. A search for a
bit that is set has an answer by then; one for a bit that is not may go on
to where the language says nothing.
-/

open Library

/-- **A shifted one tests its bit.** -/
theorem and_one_shiftLeft_ne_zero {w i : ℕ} (bits : BitVec w) (hi : i < w) :
    bits &&& 1#w <<< i ≠ 0 ↔ bits.getLsbD i = true := by
  have hbit : (1#w <<< i).getLsbD i = true := by
    rw [BitVec.getLsbD_shiftLeft]
    simp [hi]
    omega
  constructor
  · intro hne
    by_contra hfalse
    refine hne (BitVec.eq_of_getLsbD_eq fun j hj => ?_)
    rw [BitVec.getLsbD_and, BitVec.getLsbD_shiftLeft, BitVec.getLsbD_one]
    rcases Nat.lt_trichotomy j i with hlt | rfl | hlt
    · simp [hlt]
    · simpa using fun h => absurd h hfalse
    · have hne : j - i ≠ 0 := by omega
      simp [hne]
  · intro htrue hzero
    have hget := congrArg (fun b : BitVec w => b.getLsbD i) hzero
    simp [htrue, hbit] at hget

namespace Bitmask32

variable {mask : BitVec 32} {i : ℕ}

theorem isTrue_iff (hi : i < 32) : isTrue mask i = true ↔ mask.getLsbD i = true := by
  rw [isTrue, decide_eq_true_eq]
  exact and_one_shiftLeft_ne_zero mask hi

end Bitmask32

namespace Bitmask256

variable {beyond : ℕ → BitVec 32} {bits : BitVec 64} {i k : ℕ}

/-! ## The tests of a bucket -/

/-- **Below the sign an `int` tests its bit.** -/
theorem isFalse_low (hi : i < 31) : isFalse beyond bits i = !bits.getLsbD i := by
  have hext : (intBit beyond i).signExtend 64 = 1#64 <<< i := by
    rw [intBit, if_pos (by omega)]
    refine BitVec.eq_of_getLsbD_eq fun j hj => ?_
    rw [BitVec.getLsbD_signExtend, BitVec.msb_shiftLeft, BitVec.getMsbD_one]
    simp only [BitVec.getLsbD_shiftLeft, BitVec.getLsbD_one]
    by_cases hlt : j < 32
    · simp [hlt, hj]
    · have hne : j - i ≠ 0 := by omega
      simp [hlt, hne]
      omega
  have hiff := and_one_shiftLeft_ne_zero bits (show i < 64 by omega)
  rw [isFalse, hext]
  cases hbit : bits.getLsbD i with
  | true => simpa [hbit] using hiff
  | false => simpa [hbit] using hiff

/-- **The sign tests the bits from its own up.** -/
theorem isFalse_sign :
    isFalse beyond bits 31 = true ↔ ∀ j, 31 ≤ j → bits.getLsbD j = false := by
  have hext : (intBit beyond 31).signExtend 64 = 0xffffffff80000000#64 := by
    rw [intBit, if_pos (by decide)]
    decide
  have hbit : ∀ j, (0xffffffff80000000#64).getLsbD j = decide (31 ≤ j ∧ j < 64) := by
    have hlt : ∀ j < 64, (0xffffffff80000000#64).getLsbD j = decide (31 ≤ j ∧ j < 64) := by
      decide
    intro j
    rcases Nat.lt_or_ge j 64 with hj | hj
    · exact hlt j hj
    · rw [BitVec.getLsbD_of_ge _ j hj, eq_comm, decide_eq_false_iff_not]
      omega
  rw [isFalse, decide_eq_true_eq, hext]
  constructor
  · intro hzero j hj
    rcases Nat.lt_or_ge j 64 with hlt | hge
    · have hget := congrArg (fun b : BitVec 64 => b.getLsbD j) hzero
      have hone := hbit j
      rw [decide_eq_true ⟨hj, hlt⟩] at hone
      rw [BitVec.getLsbD_and, hone, Bool.and_true] at hget
      exact hget.trans BitVec.getLsbD_zero
    · exact BitVec.getLsbD_of_ge bits j hge
  · intro hupper
    refine BitVec.eq_of_getLsbD_eq fun j _ => ?_
    have hzero : (0 : BitVec 64).getLsbD j = false := BitVec.getLsbD_zero
    rw [BitVec.getLsbD_and, hbit, hzero]
    by_cases hj : 31 ≤ j
    · rw [hupper j hj, Bool.false_and]
    · simp [hj]

/-- Of an empty bucket every test is passed. -/
theorem isFalse_zero : isFalse beyond 0 i = true := by
  rw [isFalse, decide_eq_true_eq]
  exact BitVec.zero_and

/-! ## What is found in a bucket -/

variable (beyond)

/-- **The first set bit of a bucket is found as far as the sign**, and at
the sign otherwise. -/
theorem find_true_of_first (hk : bits.getLsbD k = true)
    (hbefore : ∀ j < k, bits.getLsbD j = false) :
    ((List.range 64).find? fun i => !isFalse beyond bits i) = some (min k 31) := by
  have hlow : ∀ j < min k 31, (!isFalse beyond bits j) = false := by
    intro j hj
    rw [isFalse_low (by omega), hbefore j (by omega)]
    rfl
  refine find?_range_of_first (by omega) ?_ hlow
  rcases Nat.lt_or_ge k 31 with hlt | hge
  · rw [Nat.min_eq_left (by omega), isFalse_low hlt, hk]
    rfl
  · rw [Nat.min_eq_right hge, Bool.not_eq_true', ← Bool.not_eq_true, isFalse_sign]
    intro hupper
    exact absurd hk (by rw [hupper k hge]; decide)

/-- Nothing is found in an empty one. -/
theorem find_true_zero : ((List.range 64).find? fun i => !isFalse beyond 0 i) = none := by
  refine find?_range_of_none fun j _ => ?_
  rw [isFalse_zero, Bool.not_true]

/-- **An open bit below the sign is found.** -/
theorem find_false_low (hi : i < 31) (hopen : bits.getLsbD i = false)
    (hbefore : ∀ j < i, bits.getLsbD j = true) :
    (List.range 64).find? (isFalse beyond bits) = some i := by
  refine find?_range_of_first (by omega) ?_ fun j hj => ?_
  · rw [isFalse_low hi, hopen]
    rfl
  · rw [isFalse_low (by omega), hbefore j hj]
    rfl

/-- **The bit of the sign is found where all above it are open too.** -/
theorem find_false_sign (hlower : ∀ j < 31, bits.getLsbD j = true)
    (hupper : ∀ j, 31 ≤ j → bits.getLsbD j = false) :
    (List.range 64).find? (isFalse beyond bits) = some 31 := by
  refine find?_range_of_first (by decide) (isFalse_sign.2 hupper) fun j hj => ?_
  rw [isFalse_low hj, hlower j hj]
  rfl

/-- Nothing is found before 32 if a bit from the sign up is set. -/
theorem isFalse_of_full (hlower : ∀ j < 31, bits.getLsbD j = true) (hk : 31 ≤ k)
    (hset : bits.getLsbD k = true) : ∀ j < 32, isFalse beyond bits j = false := by
  intro j hj
  rcases Nat.lt_or_ge j 31 with hlt | hge
  · rw [isFalse_low hlt, hlower j hlt]
    rfl
  · obtain rfl : j = 31 := by omega
    rw [← Bool.not_eq_true, isFalse_sign]
    intro hupper
    exact absurd hset (by rw [hupper k hk]; decide)

/-- **Then a shift that gives nothing has 32 found**, -/
theorem find_false_nothing (hlower : ∀ j < 31, bits.getLsbD j = true) (hk : 31 ≤ k)
    (hset : bits.getLsbD k = true) :
    (List.range 64).find? (isFalse (fun _ => 0) bits) = some 32 := by
  refine find?_range_of_first (by decide) ?_ (isFalse_of_full _ hlower hk hset)
  rw [isFalse, intBit, if_neg (by decide), decide_eq_true_eq]
  exact BitVec.and_zero

/-- **and one that gives all ones nothing.** -/
theorem find_false_ones (hlower : ∀ j < 31, bits.getLsbD j = true) (hk : 31 ≤ k)
    (hset : bits.getLsbD k = true) :
    (List.range 64).find? (isFalse (fun _ => BitVec.allOnes 32) bits) = none := by
  refine find?_range_of_none fun j _ => ?_
  rcases Nat.lt_or_ge j 32 with hlt | hge
  · exact isFalse_of_full _ hlower hk hset j hlt
  · have hext : (BitVec.allOnes 32).signExtend 64 = BitVec.allOnes 64 := by decide
    rw [isFalse, intBit, if_neg (by omega), hext, BitVec.and_allOnes, decide_eq_false_iff_not]
    intro hzero
    exact absurd hset (by rw [hzero]; simp)

/-! ## What is found in the four -/

/-- **A search of the buckets ends in the first that has an answer.** -/
theorem findSome_of_first (search : Fin 4 → Option ℕ) (bucket : Fin 4) {found : ℕ}
    (hfound : search bucket = some found) (hbefore : ∀ j < bucket, search j = none) :
    [0, 1, 2, 3].findSome? search = some found := by
  match bucket with
  | 0 => simp [hfound]
  | 1 => simp [hfound, hbefore 0 (by decide)]
  | 2 => simp [hfound, hbefore 0 (by decide), hbefore 1 (by decide)]
  | 3 => simp [hfound, hbefore 0 (by decide), hbefore 1 (by decide), hbefore 2 (by decide)]

end Bitmask256

end Uberos
