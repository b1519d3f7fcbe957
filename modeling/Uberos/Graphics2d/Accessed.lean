import Mathlib.Algebra.Group.Nat.Defs
import Uberos.Graphics2d.Pixels
/-!
# The bytes a buffer accesses

What `set` and `get` may write and read of memory for the pixels of a buffer,
and how many rows from its address on have all of it.
-/

namespace Uberos

open Library

namespace Graphics2d

namespace Buffer

/-! ## What it is for -/

/-- **A byte that is accessed**: one that `set` changes, of a run in a row of the
buffer, or one that what `get` gets of a pixel of the buffer depends on. -/
inductive Accesses (b : Buffer) (a : ℕ) : Prop
  | set (has128Bit : Bool) (memory memory' : Memory) (x y colour length : BitVec 32)
      (hx : x < b.width) (hy : y < b.height) (hlength : x.toNat + length.toNat ≤ b.width.toNat)
      (hset : b.set has128Bit memory x y colour length = some memory')
      (hchanged : memory' a ≠ memory a)
  | get (memory : Memory) (byte : BitVec 8) (x y : BitVec 32)
      (hx : x < b.width) (hy : y < b.height)
      (hdepends : b.get (Function.update memory a byte) x y ≠ b.get memory x y)

/-! ## Rows -/

variable {b : Buffer} {x y length : BitVec 32} {a : ℕ}

/-- No run of a row goes beyond the last one. -/
theorem place_add_le (hstride : b.width.toNat * b.format.size ≤ b.stride.toNat)
    (hy : y < b.height) (hlength : x.toNat + length.toNat ≤ b.width.toNat) :
    b.place x y + length.toNat * b.format.size ≤ b.height.toNat * b.stride.toNat := by
  have hrow := row_le hstride hlength
  have hnext := row_lt (b := b) (BitVec.lt_def.1 hy)
  rw [Nat.add_mul] at hrow
  rw [place]
  omega

/-- A pixel is a run of one. -/
theorem place_add_size_le (hstride : b.width.toNat * b.format.size ≤ b.stride.toNat)
    (hx : x < b.width) (hy : y < b.height) :
    b.place x y + b.format.size ≤ b.height.toNat * b.stride.toNat := by
  have hrun : x.toNat + (1#32).toNat ≤ b.width.toNat := BitVec.lt_def.1 hx
  have hone := place_add_le hstride hy hrun
  rwa [BitVec.toNat_one (by decide), Nat.one_mul] at hone

/-! ## What is accessed -/

/-- **What is accessed is in the rows of the buffer**, if 32 bits count them. -/
theorem Accesses.in_rows (ha : b.Accesses a)
    (hstride : b.width.toNat * b.format.size ≤ b.stride.toNat)
    (hrows : b.height.toNat * b.stride.toNat < 2 ^ 32) :
    b.address ≤ a ∧ a < b.address + b.height.toNat * b.stride.toNat := by
  cases ha with
  | set has128Bit memory memory' x y colour length hx hy hlength hset hchanged =>
    have hpixel := place_add_size_le hstride hx hy
    have hrun := place_add_le hstride hy hlength
    rw [fill_place memory colour hx hy (by omega), Option.some.injEq] at hset
    -- what is outside of the run stays
    by_contra houtside
    refine hchanged ?_
    rw [← hset]
    refine fill_of_outside ?_
    rw [length_encode]
    omega
  | get memory byte x y hx hy hdepends =>
    have hpixel := place_add_size_le hstride hx hy
    have hreach : reach b.format < b.format.size := by
      cases b.format with
      | grey8 | rgb565 | rgb8 | rgba8 => decide
    rw [get_eq hx hy (by omega), get_eq hx hy (by omega)] at hdepends
    -- no byte of the pixel is another one
    by_contra houtside
    refine hdepends (decode_congr fun k hk => ?_)
    exact Function.update_of_ne (by omega) _ _

/-- **The first byte of a pixel is accessed.** -/
theorem accesses_offset (hx : x < b.width) (hy : y < b.height) :
    b.Accesses (b.address + (b.offset x y (.ofNat 32 b.format.size)).toNat) := by
  have hlength : 0 < (encode b.format b.order 0).length := by
    rw [length_encode]
    cases b.format with
    | grey8 | rgb565 | rgb8 | rgba8 => decide
  have hrun : x.toNat + (1#32).toNat ≤ b.width.toNat := BitVec.lt_def.1 hx
  -- every byte is another one than the first that is stored
  refine .set false (fun _ => (encode b.format b.order 0)[0] + 1) _ x y 0 1 hx hy hrun
    (set_eq hx hy) ?_
  have hfirst := fill_at (fun _ => (encode b.format b.order 0)[0] + 1)
    (b.address + (b.offset x y (.ofNat 32 b.format.size)).toNat) (Nat.one_pos : 0 < 1)
    hlength
  rw [Nat.zero_mul, Nat.add_zero] at hfirst
  have hone : (1 : BitVec 32).toNat = 1 := rfl
  rw [hone, hfirst]
  bv_omega

/-- **As many rows as the buffer is wide hold what is accessed** exactly where
there are no more than those. -/
theorem accesses_square_iff (hstride : b.width.toNat * b.format.size ≤ b.stride.toNat)
    (hsquare : b.stride.toNat * b.width.toNat < 2 ^ 32) :
    (∀ a, b.Accesses a → b.address ≤ a ∧ a < b.address + b.stride.toNat * b.width.toNat) ↔
      b.width = 0 ∨ b.height ≤ b.width := by
  constructor
  · intro hin
    by_contra hhigh
    rw [not_or, BitVec.not_le] at hhigh
    obtain ⟨hwide, hhigh⟩ := hhigh
    have hx : 0 < b.width := by bv_omega
    -- the first pixel of the row behind those
    have hplace : b.place 0 b.width = b.stride.toNat * b.width.toNat := by
      have hzero : (0 : BitVec 32).toNat = 0 := rfl
      rw [place, hzero, Nat.zero_mul, Nat.add_zero, Nat.mul_comm]
    have hsize : (BitVec.ofNat 32 b.format.size).toNat = b.format.size := by
      cases b.format <;> rfl
    have hpixel := (hin _ (accesses_offset hx hhigh)).2
    rw [toNat_offset _ hsize (by omega), hplace] at hpixel
    exact Nat.lt_irrefl _ hpixel
  · intro hrows a ha
    have hwide : b.width ≠ 0 := by
      intro hzero
      cases ha with
      | set has128Bit memory memory' x y colour length hx hy hlength hset hchanged =>
        rw [hzero] at hx
        exact absurd hx BitVec.not_lt_zero
      | get memory byte x y hx hy hdepends =>
        rw [hzero] at hx
        exact absurd hx BitVec.not_lt_zero
    have hle := Nat.mul_le_mul_right b.stride.toNat (BitVec.le_def.1 (hrows.resolve_left hwide))
    rw [Nat.mul_comm b.width.toNat] at hle
    obtain ⟨hfrom, hto⟩ := ha.in_rows hstride (by omega)
    exact ⟨hfrom, by omega⟩

end Buffer

end Graphics2d

end Uberos
