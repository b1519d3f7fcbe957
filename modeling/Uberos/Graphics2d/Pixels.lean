import Mathlib.Algebra.Group.Nat.Defs
import Uberos.Graphics2d.Encoding
import Uberos.Library.Words
/-!
# Pixels that are read back

A run that is set is read back as what its format keeps of the colour, and
nothing else changes, if the bytes are in order and no offset wraps.
-/

namespace Uberos

open Library

namespace Graphics2d

namespace Buffer

/-! ## What it is for -/

variable (b : Buffer) (has128Bit : Bool) (x y length : BitVec 32)

/-- Where a pixel is, from the first on. -/
def place : ℕ := y.toNat * b.stride.toNat + x.toNat * b.format.size

/-- A pixel is of a run. -/
def InRun (x' y' : BitVec 32) : Prop :=
  y' = y ∧ x ≤ x' ∧ x'.toNat < x.toNat + length.toNat

/-- **Pixels are read back**: each of a run that is set is of the colour, as
far as the format keeps it, any other is as it was, and so is each byte
outside the run; and to set a pixel to what it is changes nothing. -/
structure ReadsBack : Prop where
  run : ∀ memory x y colour length, x < b.width → y < b.height →
    x.toNat + length.toNat ≤ b.width.toNat →
      ∃ memory', b.set has128Bit memory x y colour length = some memory' ∧
        (∀ x' y', InRun x y length x' y' → b.get memory' x' y' = reduce b.format colour) ∧
        (∀ x' y', ¬InRun x y length x' y' → b.get memory' x' y' = b.get memory x' y') ∧
        ∀ a, a < b.address + b.place x y ∨
          b.address + b.place x y + length.toNat * b.format.size ≤ a → memory' a = memory a
  identity : ∀ memory x y, x < b.width → y < b.height →
    b.set has128Bit memory x y (b.get memory x y) 1 = some memory

/-- How far on `get` computes an offset of a pixel: up to its last byte, or
of a `U16` to its first. -/
def reach : BufferFormat → ℕ
  | .grey8 => 0
  | .rgb565 => 0
  | .rgb8 => 2
  | .rgba8 => 3

/-- **A buffer is readable** that has no pixels, or has them in order and
none so far on that an offset wraps. -/
def Readable : Prop :=
  b.width = 0 ∨ b.height = 0 ∨
    InOrder b.format b.order ∧ b.place (b.width - 1) (b.height - 1) + reach b.format < 2 ^ 32

instance : Decidable b.Readable := inferInstanceAs (Decidable (_ ∨ _ ∨ _))

/-! ## A pixel of a buffer -/

variable {b has128Bit x y length} {memory : Memory} {colour : BitVec 32}

/-- No pixel is outside that is in range. -/
theorem not_outside (hx : x < b.width) (hy : y < b.height) : ¬b.Outside x y := by
  rintro (h | h)
  · exact BitVec.not_le.mpr hx h
  · exact BitVec.not_le.mpr hy h

theorem outside_of_not (h : ¬(x < b.width ∧ y < b.height)) : b.Outside x y := by
  by_contra hinside
  rw [Outside, not_or, ge_iff_le, ge_iff_le, BitVec.not_le, BitVec.not_le] at hinside
  exact h hinside

/-- The offset of a pixel is where it is, if it does not wrap. -/
theorem toNat_offset (size : BitVec 32) (hsize : size.toNat = b.format.size)
    (h : b.place x y < 2 ^ 32) : (b.offset x y size).toNat = b.place x y := by
  rw [place] at h ⊢
  rw [offset, BitVec.toNat_add, BitVec.toNat_mul, BitVec.toNat_mul, ← Nat.add_mod, hsize,
    Nat.mod_eq_of_lt h]

theorem toNat_offset_add (size k : BitVec 32) (hsize : size.toNat = b.format.size)
    (h : b.place x y + k.toNat < 2 ^ 32) :
    (b.offset x y size + k).toNat = b.place x y + k.toNat := by
  rw [BitVec.toNat_add, toNat_offset size hsize (by omega), Nat.mod_eq_of_lt h]

/-- **A pixel is set by the bytes of its colour.** -/
theorem set_eq (hx : x < b.width) (hy : y < b.height) :
    b.set has128Bit memory x y colour length
      = some (fill memory (encode b.format b.order colour)
          (b.address + (b.offset x y (.ofNat 32 b.format.size)).toNat) length.toNat) := by
  have hinside := not_outside hx hy
  have hrun (size : BitVec 32) (bytes : List (BitVec 8)) :
      b.setRun memory x y length size bytes
        = fill memory bytes (b.address + (b.offset x y size).toNat) length.toNat := if_neg hinside
  -- no address has a bit of the comparison
  have hword (value : BitVec 32) : b.setWord has128Bit memory x y length value
      = some (fill memory (bytes32 value) (b.address + (b.offset x y 4).toNat) length.toNat) := by
    rw [setWord]
    refine (if_neg hinside).trans (if_neg ?_)
    rintro ⟨-, hbit⟩
    exact hbit (Nat.and_zero b.address)
  rw [set, if_neg hinside]
  split
  · next hformat => rw [setGrey8, hrun, hformat]; rfl
  · next hformat horder => rw [setRgb565, hrun, hformat, horder]; rfl
  · next hformat horder => rw [setBgr565, hrun, hformat, horder]; rfl
  · next hformat horder => rw [setRgb8, hrun, hformat, horder]; rfl
  · next hformat horder => rw [setBgr8, hrun, hformat, horder]; rfl
  · next hformat horder => rw [setRgba8, hword, hformat, horder]; rfl
  · next hformat horder => rw [setBgra8, hword, hformat, horder]; rfl

/-- Outside of a buffer a pixel is black, whatever is in memory. -/
theorem get_of_outside (h : b.Outside x y) : b.get memory x y = 0 := by
  rw [get]
  split
  · exact if_pos h
  · exact if_pos h
  · exact if_pos h
  · exact if_pos h
  · exact if_pos h
  · exact if_pos h
  · exact if_pos h

/-- A negative coordinate is outside as an unsigned one, -/
theorem outside_of_slt (hwidth : b.width.toNat ≤ 2 ^ 31) (hheight : b.height.toNat ≤ 2 ^ 31)
    (h : x.slt 0 ∨ y.slt 0) : b.Outside x y := by
  have hlarge {z : BitVec 32} (hz : z.slt 0) : 2 ^ 31 ≤ z.toNat := by
    rw [Signed.slt_zero_iff, BitVec.toInt_eq_toNat_cond] at hz
    omega
  rcases h with hx | hy
  · exact Or.inl (Nat.le_trans hwidth (hlarge hx))
  · exact Or.inr (Nat.le_trans hheight (hlarge hy))

/-- so a pixel is set alike of an `I32` and of a `U32`, -/
theorem setSigned_eq (hwidth : b.width.toNat ≤ 2 ^ 31) (hheight : b.height.toNat ≤ 2 ^ 31) :
    b.setSigned has128Bit memory x y colour length = b.set has128Bit memory x y colour length := by
  rw [setSigned]
  split
  · next h => exact (if_pos (outside_of_slt hwidth hheight h)).symm
  · rfl

/-- and got. -/
theorem getSigned_eq (hwidth : b.width.toNat ≤ 2 ^ 31) (hheight : b.height.toNat ≤ 2 ^ 31) :
    b.getSigned memory x y = b.get memory x y := by
  rw [getSigned]
  split
  · next h => exact (get_of_outside (outside_of_slt hwidth hheight h)).symm
  · rfl

/-- A byte that `get` reads of a pixel. -/
theorem byteAt_eq (memory : Memory) (size k : BitVec 32) (hsize : size.toNat = b.format.size)
    (h : b.place x y + k.toNat < 2 ^ 32) :
    b.byteAt memory (b.offset x y size + k) = memory (b.address + b.place x y + k.toNat) := by
  rw [byteAt, toNat_offset_add size k hsize h, Nat.add_assoc]

/-- **A pixel is got from its bytes**, if no offset wraps. -/
theorem get_eq (hx : x < b.width) (hy : y < b.height)
    (h : b.place x y + reach b.format < 2 ^ 32) :
    b.get memory x y
      = decode b.format b.order (fun k => memory (b.address + b.place x y + k)) := by
  have hinside := not_outside hx hy
  rw [get]
  split
  · next hformat =>
    have hoffset := toNat_offset 1 (by rw [hformat]; rfl) (Nat.lt_of_add_right_lt h)
    rw [getGrey8, if_neg hinside, byteAt, hoffset, hformat]
    rfl
  · next hformat horder =>
    have hoffset := toNat_offset 2 (by rw [hformat]; rfl) (Nat.lt_of_add_right_lt h)
    rw [getRgb565, if_neg hinside, hoffset, hformat, horder]
    rfl
  · next hformat horder =>
    have hoffset := toNat_offset 2 (by rw [hformat]; rfl) (Nat.lt_of_add_right_lt h)
    rw [getBgr565, if_neg hinside, hoffset, hformat, horder]
    rfl
  · next hformat horder =>
    rw [hformat, reach] at h
    have hbyte (k : BitVec 32) (hk : k.toNat ≤ 2) :=
      byteAt_eq memory 3 k (by rw [hformat]; rfl)
        (Nat.lt_of_le_of_lt (Nat.add_le_add_left hk _) h)
    rw [getRgb8, if_neg hinside]
    dsimp only
    rw [hbyte 0 (by decide), hbyte 1 (by decide), hbyte 2 (by decide), hformat, horder]
    rfl
  · next hformat horder =>
    rw [hformat, reach] at h
    have hbyte (k : BitVec 32) (hk : k.toNat ≤ 2) :=
      byteAt_eq memory 3 k (by rw [hformat]; rfl)
        (Nat.lt_of_le_of_lt (Nat.add_le_add_left hk _) h)
    rw [getBgr8, if_neg hinside]
    dsimp only
    rw [hbyte 0 (by decide), hbyte 1 (by decide), hbyte 2 (by decide), hformat, horder]
    rfl
  · next hformat horder =>
    rw [hformat, reach] at h
    have hbyte (k : BitVec 32) (hk : k.toNat ≤ 3) :=
      byteAt_eq memory 4 k (by rw [hformat]; rfl)
        (Nat.lt_of_le_of_lt (Nat.add_le_add_left hk _) h)
    rw [getRgba8, if_neg hinside]
    dsimp only
    rw [hbyte 0 (by decide), hbyte 1 (by decide), hbyte 2 (by decide), hbyte 3 (by decide), hformat,
      horder]
    rfl
  · next hformat horder =>
    rw [hformat, reach] at h
    have hbyte (k : BitVec 32) (hk : k.toNat ≤ 3) :=
      byteAt_eq memory 4 k (by rw [hformat]; rfl)
        (Nat.lt_of_le_of_lt (Nat.add_le_add_left hk _) h)
    rw [getBgra8, if_neg hinside]
    dsimp only
    rw [hbyte 0 (by decide), hbyte 1 (by decide), hbyte 2 (by decide), hbyte 3 (by decide), hformat,
      horder]
    rfl

/-- A colour is of as many bytes as a pixel has. -/
theorem decode_congr {format : BufferFormat} {order : BufferFormatOrder} {bytes bytes' : ℕ → BitVec 8}
    (h : ∀ k < format.size, bytes k = bytes' k) :
    decode format order bytes = decode format order bytes' := by
  cases format with
  | grey8 => rw [decode, decode, h 0 (by decide)]
  | rgb565 =>
    have hword : word16 bytes = word16 bytes' := by
      rw [word16, word16, h 0 (by decide), h 1 (by decide)]
    cases order with
    | argb => rw [decode, decode, hword]
    | bgra => rw [decode, decode, hword]
  | rgb8 =>
    cases order with
    | argb => rw [decode, decode, h 0 (by decide), h 1 (by decide), h 2 (by decide)]
    | bgra => rw [decode, decode, h 0 (by decide), h 1 (by decide), h 2 (by decide)]
  | rgba8 =>
    cases order with
    | argb =>
      rw [decode, decode, h 0 (by decide), h 1 (by decide), h 2 (by decide), h 3 (by decide)]
    | bgra =>
      rw [decode, decode, h 0 (by decide), h 1 (by decide), h 2 (by decide), h 3 (by decide)]

/-! ## Where pixels are -/

/-- A row has room for its pixels. -/
theorem row_le (hstride : b.width.toNat * b.format.size ≤ b.stride.toNat) {n : ℕ}
    (hn : n ≤ b.width.toNat) : n * b.format.size ≤ b.stride.toNat :=
  Nat.le_trans (Nat.mul_le_mul_right _ hn) hstride

/-- What is in a row is before the next. -/
theorem row_lt {n m : ℕ} (h : n < m) : n * b.stride.toNat + b.stride.toNat ≤ m * b.stride.toNat := by
  rw [← Nat.succ_mul]
  exact Nat.mul_le_mul_right _ h

/-- **A pixel that is not of a run has none of its bytes.** -/
theorem apart_of_not_inRun (hstride : b.width.toNat * b.format.size ≤ b.stride.toNat)
    {x' y' : BitVec 32} (hx' : x' < b.width) (hlength : x.toNat + length.toNat ≤ b.width.toNat)
    (h : ¬InRun x y length x' y') :
    b.place x' y' + b.format.size ≤ b.place x y ∨
      b.place x y + length.toNat * b.format.size ≤ b.place x' y' := by
  have hnext : (x'.toNat + 1) * b.format.size = x'.toNat * b.format.size + b.format.size :=
    Nat.succ_mul _ _
  have hend : (x.toNat + length.toNat) * b.format.size
      = x.toNat * b.format.size + length.toNat * b.format.size := Nat.add_mul _ _ _
  have hroom := row_le hstride hlength
  have hroom' := row_le hstride (BitVec.lt_def.mp hx')
  rw [Nat.succ_mul] at hroom'
  rw [place, place]
  rcases Nat.lt_trichotomy y'.toNat y.toNat with hlt | heq | hgt
  · have hrow := row_lt (b := b) hlt
    omega
  · have hy : y' = y := BitVec.eq_of_toNat_eq heq
    subst hy
    by_cases hbefore : x ≤ x'
    · have hle : x.toNat + length.toNat ≤ x'.toNat := by
        by_contra hlt
        exact h ⟨rfl, hbefore, Nat.lt_of_not_le hlt⟩
      have hmul := Nat.mul_le_mul_right b.format.size hle
      omega
    · have hmul := Nat.mul_le_mul_right b.format.size (BitVec.lt_def.mp (BitVec.not_le.mp hbefore))
      rw [Nat.succ_mul] at hmul
      omega
  · have hrow := row_lt (b := b) hgt
    omega

/-- A pixel of a run is so many on from the first. -/
theorem place_of_inRun {x' y' : BitVec 32} (h : InRun x y length x' y') :
    ∃ turn < length.toNat, b.place x' y' = b.place x y + turn * b.format.size := by
  obtain ⟨rfl, hle, hlt⟩ := h
  rw [BitVec.le_def] at hle
  refine ⟨x'.toNat - x.toNat, by omega, ?_⟩
  rw [place, place, Nat.add_assoc, ← Nat.add_mul, Nat.add_sub_cancel' hle]

/-- No pixel is further on than the last. -/
theorem place_le (hx : x < b.width) (hy : y < b.height) :
    b.place x y ≤ b.place (b.width - 1) (b.height - 1) := by
  have hwidth : x.toNat ≤ (b.width - 1).toNat := by bv_omega
  have hheight : y.toNat ≤ (b.height - 1).toNat := by bv_omega
  exact Nat.add_le_add (Nat.mul_le_mul_right _ hheight) (Nat.mul_le_mul_right _ hwidth)

/-! ## What is read back -/

/-- The bytes of a run. -/
theorem fill_place (memory : Memory) (colour : BitVec 32) (hx : x < b.width) (hy : y < b.height)
    (h : b.place x y < 2 ^ 32) :
    b.set has128Bit memory x y colour length
      = some (fill memory (encode b.format b.order colour) (b.address + b.place x y)
          length.toNat) := by
  have hsize : (BitVec.ofNat 32 b.format.size).toNat = b.format.size := by
    cases b.format <;> rfl
  rw [set_eq hx hy, toNat_offset _ hsize h]

/-- Each pixel of a run has the bytes of the colour. -/
theorem decode_fill (format : BufferFormat) (order : BufferFormatOrder) (memory : Memory)
    (colour : BitVec 32) (data : ℕ) {length turn : ℕ} (hturn : turn < length) :
    decode format order (fun k =>
        fill memory (encode format order colour) data length (data + turn * format.size + k))
      = decode format order (fun k => (encode format order colour).getD k 0) := by
  refine decode_congr fun k hk => ?_
  have hlt : k < (encode format order colour).length := by
    rw [length_encode]
    exact hk
  have hcell := fill_at memory data hturn hlt
  rw [length_encode] at hcell
  rw [hcell, List.getD_eq_getElem?_getD, List.getElem?_eq_getElem hlt, Option.getD_some]

/-- **Pixels are read back** of a buffer in which they are in order and no
offset wraps. -/
theorem readsBack_of_inOrder (hstride : b.width.toNat * b.format.size ≤ b.stride.toNat)
    (horder : InOrder b.format b.order)
    (hfar : b.place (b.width - 1) (b.height - 1) + reach b.format < 2 ^ 32) :
    b.ReadsBack has128Bit := by
  have hplace {x y : BitVec 32} (hx : x < b.width) (hy : y < b.height) :
      b.place x y + reach b.format < 2 ^ 32 :=
    Nat.lt_of_le_of_lt (Nat.add_le_add_right (place_le hx hy) _) hfar
  constructor
  · intro memory x y colour length hx hy hlength
    refine ⟨_, fill_place memory colour hx hy (Nat.lt_of_add_right_lt (hplace hx hy)), ?_, ?_, ?_⟩
    · intro x' y' hrun
      have hx' : x' < b.width := by
        have hlt := hrun.2.2
        rw [BitVec.lt_def]
        omega
      have hy' : y' < b.height := by
        rw [hrun.1]
        exact hy
      obtain ⟨turn, hturn, heq⟩ := place_of_inRun hrun
      rw [get_eq hx' hy' (hplace hx' hy'), heq, ← Nat.add_assoc, decode_fill _ _ memory colour _ hturn,
        decode_encode colour horder]
    · intro x' y' hrun
      by_cases hin : x' < b.width ∧ y' < b.height
      · rw [get_eq hin.1 hin.2 (hplace hin.1 hin.2), get_eq hin.1 hin.2 (hplace hin.1 hin.2)]
        refine decode_congr fun k hk => fill_of_outside ?_
        have hapart := apart_of_not_inRun (y := y) hstride hin.1 hlength hrun
        rw [length_encode]
        omega
      · rw [get_of_outside (outside_of_not hin), get_of_outside (outside_of_not hin)]
    · intro a ha
      refine fill_of_outside ?_
      rw [length_encode]
      exact ha
  · intro memory x y hx hy
    rw [fill_place memory _ hx hy (Nat.lt_of_add_right_lt (hplace hx hy)),
      get_eq hx hy (hplace hx hy)]
    have hbytes := encode_decode (fun k => memory (b.address + b.place x y + k)) horder
    refine congrArg some (store_eq_self fun k hk => ?_)
    simp only [hbytes, List.getElem_map, List.getElem_range]

/-! ## What is not -/

/-- The first pixel's bytes are at the address. -/
theorem place_zero : b.place 0 0 = 0 := by
  have hzero : (0 : BitVec 32).toNat = 0 := rfl
  rw [place, hzero, Nat.zero_mul, Nat.zero_mul]

/-- One pixel of a buffer that has any is a run. -/
theorem one_le (hx : x < b.width) : x.toNat + (1 : BitVec 32).toNat ≤ b.width.toNat :=
  BitVec.lt_def.mp hx

/-- **With the bytes out of order blue is read back as red.** -/
theorem inOrder_of_readsBack (h : b.ReadsBack has128Bit) (hwidth : 0 < b.width)
    (hheight : 0 < b.height) : InOrder b.format b.order := by
  rintro ⟨hformat, horder⟩
  obtain ⟨memory', hset, hrun, -⟩ := h.run (fun _ => 0) 0 0 1 1 hwidth hheight (one_le hwidth)
  have hplace : b.place 0 0 < 2 ^ 32 := by rw [place_zero]; decide
  have hfar : b.place 0 0 + reach b.format < 2 ^ 32 := by rw [place_zero, hformat]; decide
  have hget := hrun 0 0 ⟨rfl, BitVec.le_refl 0, by decide⟩
  rw [fill_place _ _ hwidth hheight hplace, Option.some.injEq] at hset
  have hfill := decode_fill b.format b.order (fun _ => 0) 1
    (b.address + b.place 0 0) (Nat.zero_lt_one)
  rw [Nat.zero_mul, Nat.add_zero] at hfill
  rw [get_eq hwidth hheight hfar, ← hset] at hget
  have hdecode := hfill.symm.trans hget
  rw [hformat, horder] at hdecode
  exact absurd hdecode (by decide)

/-- All ones are kept as ones. -/
theorem encode_ones (format : BufferFormat) (order : BufferFormatOrder) :
    encode format order 0xffffffff = List.replicate format.size 0xff := by
  cases format <;> cases order <;> decide

/-- An offset wraps at `2 ^ 32`. -/
theorem toNat_offset_mod (size : BitVec 32) (hsize : size.toNat = b.format.size) :
    (b.offset x y size).toNat = b.place x y % 2 ^ 32 := by
  rw [place, offset, BitVec.toNat_add, BitVec.toNat_mul, BitVec.toNat_mul, ← Nat.add_mod, hsize]

theorem size_toNat : (BitVec.ofNat 32 b.format.size).toNat = b.format.size := by
  cases b.format <;> rfl

/-- A pixel that is set is not before where it is. -/
theorem place_lt_of_readsBack (h : b.ReadsBack has128Bit) (hx : x < b.width) (hy : y < b.height) :
    b.place x y < 2 ^ 32 := by
  by_contra hnot
  obtain ⟨memory', hset, -, -, houtside⟩ := h.run (fun _ => 0) x y 0xffffffff 1 hx hy (one_le hx)
  have hoff := toNat_offset_mod (x := x) (y := y) _ (size_toNat (b := b))
  have hlt := Nat.mod_lt (b.place x y) (Nat.two_pow_pos 32)
  rw [set_eq hx hy, hoff, encode_ones, Option.some.injEq] at hset
  have hpos : 0 < b.format.size := by cases b.format <;> decide
  have hout := houtside (b.address + b.place x y % 2 ^ 32) (Or.inl (by omega))
  have hcell : 0 < (List.replicate b.format.size (0xff : BitVec 8)).length := by
    rw [List.length_replicate]
    exact hpos
  have hin := fill_at (fun _ => 0) (b.address + b.place x y % 2 ^ 32) Nat.zero_lt_one hcell
  rw [Nat.zero_mul, Nat.add_zero, List.getElem_replicate] at hin
  rw [← hset] at hout
  exact absurd (hin.symm.trans hout) (by decide)

/-- **The last pixel is as far on as offsets go.** One that is further is set
before the run, and one that begins there is got from before it. -/
theorem far_of_readsBack (h : b.ReadsBack has128Bit) (horder : InOrder b.format b.order)
    (hx : x < b.width) (hy : y < b.height) : b.place x y + reach b.format < 2 ^ 32 := by
  have hplace := place_lt_of_readsBack h hx hy
  by_contra hnot
  obtain ⟨memory', hset, hrun, -⟩ := h.run (fun _ => 0) x y 0xffffffff 1 hx hy (one_le hx)
  have hget := hrun x y ⟨rfl, BitVec.le_refl x, Nat.lt_succ_self _⟩
  rw [fill_place _ _ hx hy hplace, Option.some.injEq] at hset
  -- the last byte is read before the first of all
  have hlast (size k : BitVec 32) (hsize : size.toNat = b.format.size)
      (hk : k.toNat = reach b.format) : b.byteAt memory' (b.offset x y size + k) = 0 := by
    have hklt := k.isLt
    rw [byteAt, ← hset, BitVec.toNat_add, toNat_offset size hsize hplace]
    refine fill_of_outside (Or.inl ?_)
    omega
  have hinside := not_outside hx hy
  rw [get] at hget
  split at hget
  · next hformat => rw [hformat, reach] at hnot; exact hnot hplace
  · next hformat _ => rw [hformat, reach] at hnot; exact hnot hplace
  · next hformat _ => rw [hformat, reach] at hnot; exact hnot hplace
  · next hformat _ =>
    have hbyte := hlast 3 2 (by rw [hformat]; rfl) (by rw [hformat]; rfl)
    rw [getRgb8, if_neg hinside] at hget
    dsimp only at hget
    rw [hbyte, hformat] at hget
    have hbit := congrArg (BitVec.getLsbD · 0) hget
    simp [reduce] at hbit
  · next hformat _ =>
    have hbyte := hlast 3 2 (by rw [hformat]; rfl) (by rw [hformat]; rfl)
    rw [getBgr8, if_neg hinside] at hget
    dsimp only at hget
    rw [hbyte, hformat] at hget
    have hbit := congrArg (BitVec.getLsbD · 16) hget
    simp [reduce] at hbit
  · next hformat horder' => exact horder ⟨hformat, horder'⟩
  · next hformat _ =>
    have hbyte := hlast 4 3 (by rw [hformat]; rfl) (by rw [hformat]; rfl)
    rw [getBgra8, if_neg hinside] at hget
    dsimp only at hget
    rw [hbyte, hformat] at hget
    have hbit := congrArg (BitVec.getLsbD · 24) hget
    simp [reduce] at hbit

/-! ## The result -/

/-- **Pixels are read back exactly of a buffer that is readable.** -/
theorem readsBack_iff (b : Buffer) (has128Bit : Bool)
    (hstride : b.width.toNat * b.format.size ≤ b.stride.toNat) :
    b.ReadsBack has128Bit ↔ b.Readable := by
  by_cases hempty : b.width = 0 ∨ b.height = 0
  · refine iff_of_true ⟨?_, ?_⟩ (hempty.imp_right Or.inl)
    · intro memory x y colour length hx hy
      rcases hempty with hwidth | hheight
      · rw [hwidth] at hx
        exact absurd hx BitVec.not_lt_zero
      · rw [hheight] at hy
        exact absurd hy BitVec.not_lt_zero
    · intro memory x y hx hy
      rcases hempty with hwidth | hheight
      · rw [hwidth] at hx
        exact absurd hx BitVec.not_lt_zero
      · rw [hheight] at hy
        exact absurd hy BitVec.not_lt_zero
  · rw [not_or] at hempty
    have hwidth : 0 < b.width := (BitVec.pos_iff_ne_zero _).mpr hempty.1
    have hheight : 0 < b.height := (BitVec.pos_iff_ne_zero _).mpr hempty.2
    constructor
    · intro h
      have horder := inOrder_of_readsBack h hwidth hheight
      refine Or.inr (Or.inr ⟨horder, far_of_readsBack h horder ?_ ?_⟩)
      · bv_omega
      · bv_omega
    · rintro (h | h | h)
      · exact absurd h hempty.1
      · exact absurd h hempty.2
      · exact readsBack_of_inOrder hstride h.1 h.2

/-- Two pixels in three bytes each. -/
def twoPixels : Buffer := ⟨.rgb8, .argb, 16, 8, 2, 1⟩

theorem readsBack_twoPixels : twoPixels.ReadsBack false :=
  (readsBack_iff twoPixels false (by decide)).mpr (by decide)

/-- One pixel, out of order. -/
def onePixel : Buffer := ⟨.rgba8, .argb, 16, 4, 1, 1⟩

/-- Blue is not read back of it. -/
theorem not_readsBack_onePixel :
    onePixel.width.toNat * onePixel.format.size ≤ onePixel.stride.toNat ∧
      ¬onePixel.ReadsBack false := by
  refine ⟨by decide, fun h => ?_⟩
  exact inOrder_of_readsBack h (by decide) (by decide) ⟨rfl, rfl⟩

end Buffer

end Graphics2d

end Uberos
