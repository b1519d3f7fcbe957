import Mathlib.Algebra.Group.Nat.Defs
import Uberos.Library.Cells
import Mathlib.Algebra.GroupWithZero.Nat
import Uberos.Library.Stores
import Uberos.Target
/-!
# Copying memory

`memcpy`, `memmove` and what they are made of, of `common/stdlib.cpp`,
for each of the ways in which it is configured. Where access need not be
aligned both are one routine of a vendored library, which copies as if all
bytes were read before any is written.
-/

namespace Uberos

open Library

namespace Stdlib

variable {α : Type}

/-- `common/config.h`. -/
structure Config where
  /-- `HAS_128BIT` -/
  has128Bit : Bool
  /-- `HAS_UNALIGNED_ACCESS` -/
  hasUnalignedAccess : Bool
  deriving DecidableEq

/-- The bytes of a `U128`, or else of a `U64`. -/
def Config.word (config : Config) : ℕ := if config.has128Bit then 16 else 8

/-- A word at a time is read and written. -/
def moveWords (word : ℕ) (cells : Cells α) (d s : ℕ) : ℕ → Cells α
  | 0 => cells
  | words + 1 => moveWords word (cells.moved cells d s word) (d + word) (s + word) words

variable (config : Config) (cells : Cells α) (dest src bytes : ℕ)

/-- `memcpy_forwards_aligned`. The test of the addresses compares first:
`s&15==d&15` is of the bits of `s` and of `15==d`. -/
def memcpyForwardsAligned : Cells α :=
  let word := config.word
  if bytes ≥ word ∧ src &&& (word - 1 == dest).toNat &&& (word - 1) ≠ 0 then
    let head := (word - src % word) % word
    let cells := cells.moveForwards dest src head
    let words := (bytes - head) / word
    let cells := moveWords word cells (dest + head) (src + head) words
    cells.moveForwards (dest + head + words * word) (src + head + words * word)
      (bytes - head - words * word)
  else cells.moveForwards dest src bytes

/-- `memcpy_backwards_aligned` -/
def memcpyBackwardsAligned : Cells α := cells.moveBackwards dest src bytes

/-- `memcpy_aligned` -/
def memcpyAligned : Cells α :=
  if dest = src then cells else memcpyForwardsAligned config cells dest src bytes

/-- **`memcpy`.** -/
def memcpy : Cells α :=
  if config.hasUnalignedAccess then cells.moved cells dest src bytes
  else memcpyAligned config cells dest src bytes

/-- **`memmove`.** -/
def memmove : Cells α :=
  if config.hasUnalignedAccess then cells.moved cells dest src bytes
  else if dest ≥ src then cells.moveBackwards dest src bytes
  else cells.moveForwards dest src bytes

variable {config cells dest src bytes}

theorem Config.word_pos : 0 < config.word := by
  rw [word]
  split
  · decide
  · decide

/-! ## Ranges that may overlap one way -/

theorem moveWords_eq (word : ℕ) (cells : Cells α) {d s : ℕ} (h : d ≤ s) (words : ℕ) :
    moveWords word cells d s words = cells.moved cells d s (words * word) := by
  induction words generalizing cells d s with
  | zero =>
    rw [Nat.zero_mul, Cells.moved_zero]
    rfl
  | succ words ih =>
    rw [moveWords, ih _ (by omega), Cells.moved_moved cells h, Nat.succ_mul, Nat.add_comm word]

/-- **A range is copied down over itself**, a word at a time or not. -/
theorem memcpyForwardsAligned_eq (h : dest ≤ src) :
    memcpyForwardsAligned config cells dest src bytes = cells.moved cells dest src bytes := by
  rw [memcpyForwardsAligned]
  dsimp only
  split
  · next hwide =>
    have hword := Nat.mod_lt (config.word - src % config.word) config.word_pos
    generalize (config.word - src % config.word) % config.word = head at hword ⊢
    rw [Cells.moveForwards_eq cells h, moveWords_eq _ _ (by omega), Cells.moved_moved cells h]
    have hwords := Nat.div_mul_le_self (bytes - head) config.word
    generalize (bytes - head) / config.word * config.word = middle at hwords ⊢
    have hrest : head + middle + (bytes - head - middle) = bytes := by omega
    rw [Cells.moveForwards_eq _ (by omega), Nat.add_assoc dest, Nat.add_assoc src,
      Cells.moved_moved cells h, hrest]
  · exact Cells.moveForwards_eq cells h bytes

/-! ## Ranges that overlap in any way -/

theorem draws_moveWords (word : ℕ) (cells : Cells α) (d s words : ℕ) :
    cells.Draws (moveWords word cells d s words) d s (words * word) := by
  induction words generalizing cells d s with
  | zero =>
    rw [Nat.zero_mul]
    exact Cells.draws_refl cells d s 0
  | succ words ih =>
    have hfirst := cells.draws_moved d s word
    have hothers := ih (cells.moved cells d s word) (d + word) (s + word)
    have hcount : (words + 1) * word = words * word + word := Nat.succ_mul words word
    rw [moveWords]
    exact (hfirst.mono (by omega) (by omega) (by omega) (by omega)).trans
      (hothers.mono (by omega) (by omega) (by omega) (by omega))

theorem draws_memcpyForwardsAligned (config : Config) (cells : Cells α) (dest src bytes : ℕ) :
    cells.Draws (memcpyForwardsAligned config cells dest src bytes) dest src bytes := by
  rw [memcpyForwardsAligned]
  dsimp only
  split
  · next hwide =>
    have hword := Nat.mod_lt (config.word - src % config.word) config.word_pos
    generalize (config.word - src % config.word) % config.word = head at hword ⊢
    have hwords := Nat.div_mul_le_self (bytes - head) config.word
    have hfirst := cells.draws_moveForwards dest src head
    have hmiddle := draws_moveWords config.word (cells.moveForwards dest src head) (dest + head)
      (src + head) ((bytes - head) / config.word)
    refine ((hfirst.mono (by omega) (by omega) (by omega) (by omega)).trans
      (hmiddle.mono (by omega) (by omega) (by omega) (by omega))).trans ?_
    exact (Cells.draws_moveForwards _ _ _ _).mono (by omega) (by omega) (by omega) (by omega)
  · exact cells.draws_moveForwards dest src bytes

/-! ## `memcpy` and `memmove` -/

/-- **`memcpy` down is as if all bytes were read first.** -/
theorem memcpy_eq (h : dest ≤ src) :
    memcpy config cells dest src bytes = cells.moved cells dest src bytes := by
  rw [memcpy]
  split
  · rfl
  · rw [memcpyAligned]
    split
    · next hsame =>
      funext i
      rw [Cells.moved, hsame]
      split
      · next hrange => rw [Nat.add_sub_cancel' hrange.1]
      · rfl
    · exact memcpyForwardsAligned_eq h

/-- **`memmove` always is.** -/
theorem memmove_eq : memmove config cells dest src bytes = cells.moved cells dest src bytes := by
  rw [memmove]
  split
  · rfl
  · split
    · next hback => exact Cells.moveBackwards_eq cells hback bytes
    · next hforth => exact Cells.moveForwards_eq cells (by omega) bytes

theorem draws_memcpy (config : Config) (cells : Cells α) (dest src bytes : ℕ) :
    cells.Draws (memcpy config cells dest src bytes) dest src bytes := by
  rw [memcpy]
  split
  · exact cells.draws_moved dest src bytes
  · rw [memcpyAligned]
    split
    · exact cells.draws_refl dest src bytes
    · exact draws_memcpyForwardsAligned config cells dest src bytes

theorem draws_memmove (config : Config) (cells : Cells α) (dest src bytes : ℕ) :
    cells.Draws (memmove config cells dest src bytes) dest src bytes := by
  rw [memmove_eq]
  exact cells.draws_moved dest src bytes

end Stdlib

end Uberos

/-!
## The copy that aligns

`memory_copy_forwards<align>` of `common/stdlib.hpp`. Its loops and switches
go by the pointers and the size alone, and are the accesses they make, by
their widths in bytes.
-/

namespace Uberos

open Library

namespace Stdlib

variable {w : ℕ}

/-- What the switch over `8-align_dest` copies: the cases fall through, up to
the one of four bytes. -/
def prologue : ℕ → List ℕ
  | 7 => [1, 1, 1, 4]
  | 6 => [1, 1, 4]
  | 5 => [1, 4]
  | 4 => [4]
  | 3 => [1, 1, 1]
  | 2 => [1, 1]
  | 1 => [1]
  | _ => []

/-- What the last switch copies. -/
def epilogue : ℕ → List ℕ
  | 3 => [1, 1, 1]
  | 2 => [1, 1]
  | 1 => [1]
  | _ => []

/-- The loop over `_8s`, and what is left after it. -/
def blocks (size : ℕ) : List ℕ :=
  let eights := size / 8
  let size := size - eights * 8
  List.replicate eights 8 ++ if size ≥ 4 then 4 :: epilogue (size - 4) else epilogue size

/-- **`memory_copy_forwards<align>`**, by what it accesses. -/
def memoryCopyForwards (align : Bool) (dest src size : BitVec w) : List ℕ :=
  if align then
    let alignDest := min size.toNat (dest.toNat % 8)
    let alignSrc := min size.toNat (src.toNat % 8)
    if alignDest ≠ alignSrc then List.replicate size.toNat 1
    else if alignDest ≠ 0 then
      let alignDest := 8 - alignDest
      prologue (8 - alignDest) ++ blocks (size - BitVec.ofNat w alignDest).toNat
    else blocks size.toNat
  else blocks size.toNat

/-! ## What it is for -/

/-- **The two pointers are as far from an address that eight divides**: by
nothing, or by four, as far as the size goes. -/
def CopiesWhole (align : Bool) (dest src size : BitVec w) : Prop :=
  align = true → min size.toNat (dest.toNat % 8) = min size.toNat (src.toNat % 8) →
    min size.toNat (dest.toNat % 8) = 0 ∨ min size.toNat (dest.toNat % 8) = 4

variable {dest src size : BitVec w} {n : ℕ}

/-! ## The sizes -/

theorem sum_epilogue (h : n < 4) : (epilogue n).sum = n := by
  match n, h with
  | 0, _ => rfl
  | 1, _ => rfl
  | 2, _ => rfl
  | 3, _ => rfl

/-- What is copied without aligning is the size. -/
theorem sum_blocks (size : ℕ) : (blocks size).sum = size := by
  rw [blocks, List.sum_append, List.sum_replicate_nat]
  split
  · rw [List.sum_cons, sum_epilogue (by omega)]
    omega
  · rw [sum_epilogue (by omega)]
    omega

/-- The prologue copies what the pointer is past an address that eight
divides, and not what it is short of the next. -/
theorem sum_prologue (hpos : 0 < n) (h : n < 8) : (prologue (8 - (8 - n))).sum = n := by
  rw [Nat.sub_sub_self (Nat.le_of_lt h)]
  match n, hpos, h with
  | 1, _, _ => rfl
  | 2, _, _ => rfl
  | 3, _, _ => rfl
  | 4, _, _ => rfl
  | 5, _, _ => rfl
  | 6, _, _ => rfl
  | 7, _, _ => rfl

/-- The size is less by the other of the two, and wraps. -/
theorem sum_aligned_iff (hw : 4 ≤ w) (hpos : 0 < n) (hn : n < 8) (hsize : n ≤ size.toNat) :
    n + (size - BitVec.ofNat w (8 - n)).toNat = size.toNat ↔ n = 4 := by
  have hpow : 2 ^ 4 ≤ 2 ^ w := Nat.pow_le_pow_right (by decide) hw
  have hlt := size.isLt
  rw [BitVec.toNat_sub, BitVec.toNat_ofNat, Nat.mod_eq_of_lt (by omega : 8 - n < 2 ^ w)]
  generalize size.toNat = s at hlt hsize
  rcases Nat.lt_or_ge s (8 - n) with hwraps | hle
  · rw [Nat.mod_eq_of_lt (by omega)]
    omega
  · have hwrap : 2 ^ w - (8 - n) + s = s - (8 - n) + 2 ^ w := by omega
    rw [hwrap, Nat.add_mod_right, Nat.mod_eq_of_lt (by omega)]
    omega

/-- **The accesses have the size of the range** in these cases only. -/
theorem sum_memoryCopyForwards_iff (align : Bool) (hw : 4 ≤ w) :
    (memoryCopyForwards align dest src size).sum = size.toNat ↔
      CopiesWhole align dest src size := by
  rw [memoryCopyForwards, CopiesWhole]
  cases align with
  | false =>
    rw [if_neg Bool.false_ne_true, sum_blocks]
    exact iff_of_true rfl fun h => absurd h Bool.false_ne_true
  | true =>
    rw [if_pos rfl]
    dsimp only
    have hdest : min size.toNat (dest.toNat % 8) < 8 :=
      Nat.lt_of_le_of_lt (Nat.min_le_right _ _) (Nat.mod_lt _ (by decide))
    have hle : min size.toNat (dest.toNat % 8) ≤ size.toNat := Nat.min_le_left _ _
    generalize min size.toNat (dest.toNat % 8) = alignDest at hdest hle
    generalize min size.toNat (src.toNat % 8) = alignSrc
    split
    · rename_i hne
      rw [sum_replicate_one]
      exact iff_of_true rfl fun _ heq => absurd heq hne
    · rename_i heq
      rw [not_not] at heq
      split
      · rename_i hne
        have hpos : 0 < alignDest := Nat.pos_of_ne_zero hne
        rw [List.sum_append, sum_blocks, sum_prologue hpos hdest,
          sum_aligned_iff hw hpos hdest hle]
        exact ⟨fun h _ _ => Or.inr h, fun h => (h rfl heq).resolve_left hne⟩
      · rename_i hzero
        rw [not_not] at hzero
        rw [sum_blocks]
        exact iff_of_true rfl fun _ _ => Or.inl hzero

/-! ## The result -/

theorem nontrivial_byte : Nontrivial UInt8 := ⟨0, 1, by decide⟩

/-- **A range is copied exactly where the pointers are aligned to eight or to
four alike, or not alike at all.** -/
theorem copiesExactly_memoryCopyForwards_iff (T : Target) (align : Bool)
    (dest src size : BitVec (8 * T.wordBytes)) (hapart : Apart dest src size.toNat) :
    CopiesExactly UInt8 dest src size.toNat (memoryCopyForwards align dest src size) ↔
      CopiesWhole align dest src size := by
  have hbyte := nontrivial_byte
  have hw : 4 ≤ 8 * T.wordBytes := by rcases T.wordBytes_eq with h | h <;> omega
  rw [copiesExactly_iff hapart size.isLt, sum_memoryCopyForwards_iff align hw]

/-- Sixteen bytes, from one address to the next that is as far from eight. -/
theorem apart_sixteen : Apart (0x1000#32) (0x1010#32) 16 := by
  intro a hdest hsrc
  simp only [InRange] at hdest hsrc
  bv_omega

theorem copiesExactly_memoryCopyForwards_iff_sixteen :
    Apart (0x1000#32) (0x1010#32) 16 ∧
      (CopiesExactly UInt8 (0x1000#32) (0x1010#32) 16
          (memoryCopyForwards true (0x1000#32) (0x1010#32) 16) ↔
        CopiesWhole true (0x1000#32) (0x1010#32) (16 : BitVec 32)) :=
  ⟨apart_sixteen, copiesExactly_memoryCopyForwards_iff .x86_32 true _ _ 16 apart_sixteen⟩

/-- **One byte past eight, of sixteen bytes ten are copied.** -/
theorem not_copiesExactly : ¬∀ (T : Target) (align : Bool)
    (dest src size : BitVec (8 * T.wordBytes)), Apart dest src size.toNat →
      CopiesExactly UInt8 dest src size.toNat (memoryCopyForwards align dest src size) := by
  intro h
  have hbyte := nontrivial_byte
  have hapart : Apart (0x1001#32) (0x1011#32) 16 := by
    intro a hdest hsrc
    simp only [InRange] at hdest hsrc
    bv_omega
  have hcopied := h .x86_32 true (0x1001#32) (0x1011#32) 16 hapart
  have hsum := hcopied.le_sum hapart (by decide)
  exact absurd hsum (by decide)

end Stdlib

end Uberos
