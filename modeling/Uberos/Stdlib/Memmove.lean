import Mathlib.Algebra.Group.Nat.Defs
import Mathlib.Logic.Function.Iterate
import Uberos.Library.Stores
import Uberos.Stdlib.Memcpy
/-!
# `memmove`, by its pointers

The function of `common/stdlib.cpp` where access has to be aligned, over an
address space of `w` bits: two pointers that go down from the ends of the
ranges or up from their starts, and wrap around as pointers do. What it leaves
is what `Stdlib.memmove` says of cells that are counted.
-/

namespace Uberos

open Library

namespace Stdlib

variable {w : ℕ} {β : Type}

/-- The memory, and the pointers `d` and `s` of a loop. -/
structure Moving (w : ℕ) (β : Type) where
  memory : BitVec w → β
  d : BitVec w
  s : BitVec w

namespace Moving

/-- `*--d = *--s` -/
def back (m : Moving w β) : Moving w β where
  memory := Function.update m.memory (m.d - 1#w) (m.memory (m.s - 1#w))
  d := m.d - 1#w
  s := m.s - 1#w

/-- `*d++ = *s++` -/
def forth (m : Moving w β) : Moving w β where
  memory := Function.update m.memory m.d (m.memory m.s)
  d := m.d + 1#w
  s := m.s + 1#w

/-- `while(bytes--)` -/
def loop (turn : Moving w β → Moving w β) (m : Moving w β) (bytes : BitVec w) : Moving w β :=
  turn^[bytes.toNat] m

end Moving

/-- **`memmove(dest, src, bytes)`**: the memory then, and what it returns. -/
def memmoveBytes (memory : BitVec w → β) (dest src bytes : BitVec w) :
    (BitVec w → β) × BitVec w :=
  if dest ≥ src then ((Moving.loop .back ⟨memory, dest + bytes, src + bytes⟩ bytes).memory, dest)
  else ((Moving.loop .forth ⟨memory, dest, src⟩ bytes).memory, dest)

/-! ## What it is for -/

/-- So many bytes on end, of which the last may be the last there is. -/
structure Range (bytes : BitVec w) where
  start : BitVec w
  fits : start.toNat + bytes.toNat ≤ 2 ^ w

namespace Range

variable {bytes : BitVec w} (range : Range bytes)

/-- A byte of the range. -/
def byte (i : ℕ) : BitVec w := range.start + BitVec.ofNat w i

/-- An address of the range. -/
def Holds (a : BitVec w) : Prop :=
  range.start.toNat ≤ a.toNat ∧ a.toNat < range.start.toNat + bytes.toNat

variable {range} {i : ℕ}

theorem toNat_byte (hi : i < bytes.toNat) : (range.byte i).toNat = range.start.toNat + i := by
  have hfits := range.fits
  have hsize := bytes.isLt
  rw [byte, BitVec.toNat_add, BitVec.toNat_ofNat, Nat.mod_eq_of_lt (by omega : i < 2 ^ w),
    Nat.mod_eq_of_lt (by omega)]

theorem holds_byte (hi : i < bytes.toNat) : range.Holds (range.byte i) := by
  rw [Holds, toNat_byte hi]
  omega

end Range

/-! ## A loop as one write after another -/

/-- What is read for the byte at `key`: the one so far from it. -/
def readAt (distance : BitVec w) (memory : BitVec w → β) (key : BitVec w) : β :=
  memory (key + distance)

/-- Upwards from a byte on. -/
def upwards (start : BitVec w) (count : ℕ) : List (BitVec w) :=
  (List.range count).map fun i => start + BitVec.ofNat w i

theorem upwards_succ (start : BitVec w) (count : ℕ) :
    upwards start (count + 1) = start :: upwards (start + 1#w) count := by
  rw [upwards, upwards, List.range_succ_eq_map, List.map_cons, List.map_map]
  congr 1
  · exact BitVec.add_zero start
  · refine List.map_congr_left fun i _ => ?_
    rw [Function.comp_apply, Nat.succ_eq_add_one, BitVec.ofNat_add]
    grind

theorem upwards_last (start : BitVec w) (count : ℕ) :
    upwards start (count + 1) = upwards start count ++ [start + BitVec.ofNat w count] := by
  rw [upwards, List.range_succ, List.map_append]
  rfl

/-- **The loop upwards** writes the bytes in their order. -/
theorem memory_forth (m : Moving w β) (count : ℕ) : (Moving.forth^[count] m).memory =
    inPlace (readAt (m.s - m.d)) m.memory (upwards m.d count) := by
  induction count generalizing m with
  | zero => rfl
  | succ count ih =>
    have hread : m.d + (m.s - m.d) = m.s := by grind
    have hdistance : m.s + 1#w - (m.d + 1#w) = m.s - m.d := by grind
    rw [Function.iterate_succ_apply, ih, upwards_succ, inPlace, readAt, hread]
    simp only [Moving.forth, hdistance]

/-- **The loop downwards** writes them in the other, from the last. -/
theorem memory_back (m : Moving w β) (start : BitVec w) (count : ℕ)
    (hd : m.d = start + BitVec.ofNat w count) : (Moving.back^[count] m).memory =
    inPlace (readAt (m.s - m.d)) m.memory (upwards start count).reverse := by
  induction count generalizing m with
  | zero => rfl
  | succ count ih =>
    rw [BitVec.ofNat_add] at hd
    have hlast : m.d - 1#w = start + BitVec.ofNat w count := by grind
    have hread : m.d - 1#w + (m.s - m.d) = m.s - 1#w := by grind
    have hdistance : m.s - 1#w - (m.d - 1#w) = m.s - m.d := by grind
    rw [Function.iterate_succ_apply, ih _ hlast, upwards_last, List.reverse_concat, inPlace,
      readAt, ← hlast, hread]
    simp only [Moving.back, hdistance]

/-! ## None is written before it is read -/

variable {bytes : BitVec w} {dest src : Range bytes} {i j : ℕ}

/-- The byte that is read for one of the range. -/
theorem byte_add_distance (dest src : Range bytes) (i : ℕ) :
    dest.byte i + (src.start - dest.start) = src.byte i := by
  rw [Range.byte, Range.byte]
  grind

/-- A write of one byte leaves the other's source alone, if they are different bytes. -/
theorem readAt_update (memory : BitVec w → β) (x : β) (hi : i < bytes.toNat) (hj : j < bytes.toNat)
    (hne : src.start.toNat + j ≠ dest.start.toNat + i) :
    readAt (src.start - dest.start) (Function.update memory (dest.byte i) x) (dest.byte j) =
      readAt (src.start - dest.start) memory (dest.byte j) := by
  rw [readAt, readAt, byte_add_distance]
  refine Function.update_of_ne (fun heq => hne ?_) _ _
  rw [← Range.toNat_byte hj, ← Range.toNat_byte hi, heq]

theorem byte_ne (range : Range bytes) (hi : i < bytes.toNat) (hj : j < bytes.toNat)
    (hne : i ≠ j) : range.byte i ≠ range.byte j := by
  intro heq
  have hsame := congrArg BitVec.toNat heq
  rw [Range.toNat_byte hi, Range.toNat_byte hj] at hsame
  omega

/-- The bytes of a range, upwards. -/
theorem mem_upwards {range : Range bytes} {a : BitVec w} :
    a ∈ upwards range.start bytes.toNat ↔ ∃ i < bytes.toNat, range.byte i = a := by
  rw [upwards, List.mem_map]
  exact exists_congr fun i => and_congr_left' List.mem_range

theorem mem_upwards_iff_holds {range : Range bytes} {a : BitVec w} :
    a ∈ upwards range.start bytes.toNat ↔ range.Holds a := by
  rw [mem_upwards]
  constructor
  · rintro ⟨i, hi, rfl⟩
    exact Range.holds_byte hi
  · rintro ⟨hfrom, hto⟩
    refine ⟨a.toNat - range.start.toNat, by omega, ?_⟩
    apply BitVec.eq_of_toNat_eq
    rw [Range.toNat_byte (by omega)]
    omega

/-- Upwards, where the range moves down. -/
theorem pairwise_upwards (h : dest.start.toNat < src.start.toNat) :
    (upwards dest.start bytes.toNat).Pairwise fun key later => key ≠ later ∧
      ∀ (memory : BitVec w → β) x, readAt (src.start - dest.start) (Function.update memory key x)
        later = readAt (src.start - dest.start) memory later := by
  rw [upwards, List.pairwise_map]
  refine List.Pairwise.imp_of_mem ?_ List.pairwise_lt_range
  intro i j hi hj hlt
  rw [List.mem_range] at hi hj
  exact ⟨byte_ne dest hi hj (Nat.ne_of_lt hlt), fun memory x =>
    readAt_update memory x hi hj (by omega)⟩

/-- Downwards, where it moves up, or stays. -/
theorem pairwise_downwards (h : src.start.toNat ≤ dest.start.toNat) :
    (upwards dest.start bytes.toNat).reverse.Pairwise fun key later => key ≠ later ∧
      ∀ (memory : BitVec w → β) x, readAt (src.start - dest.start) (Function.update memory key x)
        later = readAt (src.start - dest.start) memory later := by
  rw [List.pairwise_reverse, upwards, List.pairwise_map]
  refine List.Pairwise.imp_of_mem ?_ List.pairwise_lt_range
  intro i j hi hj hlt
  rw [List.mem_range] at hi hj
  exact ⟨byte_ne dest hj hi (Nat.ne_of_gt hlt), fun memory x =>
    readAt_update memory x hj hi (by omega)⟩

/-! ## The result -/

theorem memmoveBytes_of_le (memory : BitVec w → β) (h : src.start.toNat ≤ dest.start.toNat) :
    (memmoveBytes memory dest.start src.start bytes).1 =
      inPlace (readAt (src.start - dest.start)) memory
        (upwards dest.start bytes.toNat).reverse := by
  have hdistance : src.start + bytes - (dest.start + bytes) = src.start - dest.start := by grind
  have hend : dest.start + bytes = dest.start + BitVec.ofNat w bytes.toNat := by
    rw [BitVec.ofNat_toNat, BitVec.setWidth_eq]
  rw [memmoveBytes, if_pos (BitVec.le_def.2 h), Moving.loop, memory_back _ dest.start _ hend,
    hdistance]

theorem memmoveBytes_of_lt (memory : BitVec w → β) (h : dest.start.toNat < src.start.toNat) :
    (memmoveBytes memory dest.start src.start bytes).1 =
      inPlace (readAt (src.start - dest.start)) memory (upwards dest.start bytes.toNat) := by
  have hnot : ¬dest.start ≥ src.start := fun hle => Nat.not_le.2 h (BitVec.le_def.1 hle)
  rw [memmoveBytes, if_neg hnot, Moving.loop, memory_forth]

/-- The destination has what the source had. -/
theorem memmoveBytes_byte (memory : BitVec w → β) (hi : i < bytes.toNat) :
    (memmoveBytes memory dest.start src.start bytes).1 (dest.byte i) = memory (src.byte i) := by
  have hread : readAt (src.start - dest.start) memory (dest.byte i) = memory (src.byte i) := by
    rw [readAt, byte_add_distance]
  have hmem : dest.byte i ∈ upwards dest.start bytes.toNat := mem_upwards.2 ⟨i, hi, rfl⟩
  rcases Nat.lt_or_ge dest.start.toNat src.start.toNat with hdown | hup
  · rw [memmoveBytes_of_lt memory hdown, inPlace_of_mem (pairwise_upwards hdown) hmem, hread]
  · rw [memmoveBytes_of_le memory hup,
      inPlace_of_mem (pairwise_downwards hup) (List.mem_reverse.2 hmem), hread]

/-- No other byte changes. -/
theorem memmoveBytes_of_not_holds (memory : BitVec w → β) {a : BitVec w} (ha : ¬dest.Holds a) :
    (memmoveBytes memory dest.start src.start bytes).1 a = memory a := by
  have hnot : a ∉ upwards dest.start bytes.toNat := fun hmem => ha (mem_upwards_iff_holds.1 hmem)
  rcases Nat.lt_or_ge dest.start.toNat src.start.toNat with hdown | hup
  · rw [memmoveBytes_of_lt memory hdown]
    exact inPlace_of_not_mem hnot
  · rw [memmoveBytes_of_le memory hup]
    exact inPlace_of_not_mem fun hmem => hnot (List.mem_reverse.1 hmem)

/-- **A range is moved over any other of its length**, however the two lie:
the destination has what the source had, and no other byte changes. -/
theorem memmove_range (memory : BitVec w → β) (dest src : Range bytes) :
    (∀ i < bytes.toNat, (memmoveBytes memory dest.start src.start bytes).1 (dest.byte i) =
      memory (src.byte i)) ∧
    ∀ a, ¬dest.Holds a → (memmoveBytes memory dest.start src.start bytes).1 a = memory a :=
  ⟨fun _ hi => memmoveBytes_byte memory hi, fun _ ha => memmoveBytes_of_not_holds memory ha⟩

/-! ## Over cells -/

/-- The memory, its bytes counted. -/
def cellsOf (memory : BitVec w → β) : Cells β := fun a =>
  if a < 2 ^ w then some (memory (BitVec.ofNat w a)) else none

theorem cellsOf_toNat (memory : BitVec w → β) (a : BitVec w) :
    cellsOf memory a.toNat = some (memory a) := by
  rw [cellsOf, if_pos a.isLt, BitVec.ofNat_toNat, BitVec.setWidth_eq]

/-- **The pointers move what the counted cells say.** -/
theorem cellsOf_memmoveBytes (config : Config) (memory : BitVec w → β) (dest src : Range bytes) :
    cellsOf (memmoveBytes memory dest.start src.start bytes).1 =
      memmove config (cellsOf memory) dest.start.toNat src.start.toNat bytes.toNat := by
  funext a
  rw [memmove_eq]
  rcases Nat.lt_or_ge a (2 ^ w) with ha | ha
  · obtain ⟨a, rfl⟩ : ∃ b : BitVec w, a = b.toNat := ⟨BitVec.ofNat w a, by
      rw [BitVec.toNat_ofNat, Nat.mod_eq_of_lt ha]⟩
    rw [cellsOf_toNat]
    by_cases hrange : dest.Holds a
    · obtain ⟨i, hi, rfl⟩ := mem_upwards.1 (mem_upwards_iff_holds.2 hrange)
      rw [memmoveBytes_byte memory hi, Cells.moved_at (j := (src.byte i).toNat) hrange.1 hrange.2
        (by rw [Range.toNat_byte hi, Range.toNat_byte hi]; omega), cellsOf_toNat]
    · rw [memmoveBytes_of_not_holds memory hrange, ← cellsOf_toNat]
      rw [Range.Holds, not_and_or, Nat.not_le, Nat.not_lt] at hrange
      rcases hrange with hbefore | hbehind
      · exact (Cells.moved_of_lt hbefore).symm
      · exact (Cells.moved_of_le hbehind).symm
  · -- there is no such byte, nor in the destination
    have hfits := dest.fits
    rw [Cells.moved_of_le (by omega), cellsOf, cellsOf, if_neg (Nat.not_lt.2 ha),
      if_neg (Nat.not_lt.2 ha)]

end Stdlib

end Uberos
