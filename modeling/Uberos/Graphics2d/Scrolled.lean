import Uberos.Graphics2d.Drawing
import Uberos.Library.Words
/-!
# Buffers that are scrolled

Upwards a row is moved over those that have been read, and sideways within
itself. Downwards the row that the first comes to is left out: the loop ends
before it.
-/

namespace Uberos

open Library Library.Signed Stdlib

namespace Graphics2d

variable {config : Config} {cells : Cells (BitVec 8)} {call : Call} {calls : List Call} {a s : ℕ}

/-! ## What calls write -/

/-- A call changes its range only, and to what was in the source's. -/
theorem Call.draws_run (config : Config) (cells : Cells (BitVec 8)) (call : Call) :
    cells.Draws (call.run config cells) call.dest call.src call.bytes := by
  rw [run]
  split
  · exact draws_memmove config cells _ _ _
  · exact cells.draws_moveBackwards _ _ _
  · exact draws_memcpyForwardsAligned config cells _ _ _
  · exact draws_memcpy config cells _ _ _

variable (config cells) in
/-- What no call writes stays as it is. -/
theorem foldl_run_of_outside (h : ∀ call ∈ calls, a < call.dest ∨ call.dest + call.bytes ≤ a) :
    calls.foldl (Call.run config) cells a = cells a := by
  induction calls generalizing cells with
  | nil => rfl
  | cons call calls ih =>
    rw [List.forall_mem_cons] at h
    rw [List.foldl_cons, ih _ h.2, (call.draws_run config cells).outside a h.1]

variable (config) in
/-- What no call reads is nowhere else. -/
theorem foldl_run_eq_none (h : ∀ call ∈ calls, s < call.src ∨ call.src + call.bytes ≤ s)
    (hcells : ∀ a, a ≠ s → cells a = none) (ha : a ≠ s) :
    calls.foldl (Call.run config) cells a = none := by
  induction calls generalizing cells with
  | nil => exact hcells a ha
  | cons call calls ih =>
    rw [List.forall_mem_cons] at h
    refine ih h.2 fun i hi => ?_
    rcases (call.draws_run config cells).drawn i with hsame | ⟨j, hj, hj', hsame⟩
    · exact hsame.trans (hcells i hi)
    · exact hsame.trans (hcells j (by omega))

/-! ## The numbers of a scroll -/

namespace Buffer

variable {b : Buffer} {scrollX scrollY : BitVec 32}

/-- `maths::abs` is of what it is as a signed number. -/
theorem toNat_abs (x : BitVec 32) : (abs x).toNat = x.toInt.natAbs := by
  rw [abs]
  split
  · next hneg =>
    rw [slt_zero_iff, BitVec.toInt_eq_toNat_cond] at hneg
    rw [BitVec.toNat_neg, BitVec.toInt_eq_toNat_cond]
    have hlt := x.isLt
    omega
  · next hneg =>
    rw [slt_zero_iff, BitVec.toInt_eq_toNat_cond] at hneg
    rw [BitVec.toInt_eq_toNat_cond]
    have hlt := x.isLt
    omega

theorem inRange_iff :
    b.InRange scrollX scrollY ↔ ¬(abs scrollX ≥ b.width ∨ abs scrollY ≥ b.height) := by
  rw [InRange, ← toNat_abs, ← toNat_abs, not_or, ge_iff_le, ge_iff_le, BitVec.not_le,
    BitVec.not_le, BitVec.lt_def, BitVec.lt_def]

/-- How far to the right a row is moved, in bytes, -/
def right (b : Buffer) (scrollX : BitVec 32) : ℕ := scrollX.toInt.toNat * b.format.size

/-- and how far to the left. -/
def left (b : Buffer) (scrollX : BitVec 32) : ℕ := (-scrollX.toInt).toNat * b.format.size

/-- A pixel's bytes so many times do not wrap in a row. -/
theorem toNat_mul_size {n : BitVec 32} (h : n.toNat * b.format.size ≤ b.stride.toNat) :
    (n * BitVec.ofNat 32 b.format.size).toNat = n.toNat * b.format.size := by
  have hlt := b.stride.isLt
  rw [BitVec.toNat_mul, size_toNat, Nat.mod_eq_of_lt (by omega)]

/-- An offset wraps at `2 ^ 32`. -/
theorem toNat_rowOffset (y x : BitVec 32) :
    (y * b.stride + x).toNat = (y.toNat * b.stride.toNat + x.toNat) % 2 ^ 32 := by
  rw [BitVec.toNat_add, BitVec.toNat_mul, ← Nat.add_mod_mod, Nat.mod_add_mod, Nat.add_mod_mod]

/-- A row is moved by less than its pixels take. -/
theorem right_add_left : b.right scrollX + b.left scrollX
    = scrollX.toInt.natAbs * b.format.size := by
  have habs : scrollX.toInt.toNat + (-scrollX.toInt).toNat = scrollX.toInt.natAbs := by omega
  rw [right, left, ← Nat.add_mul, habs]

theorem right_add_left_lt (hstride : b.width.toNat * b.format.size ≤ b.stride.toNat)
    (hrange : b.InRange scrollX scrollY) :
    b.right scrollX + b.left scrollX + b.format.size ≤ b.stride.toNat := by
  have hmul := Nat.mul_le_mul_right b.format.size hrange.1
  rw [Nat.succ_mul] at hmul
  rw [right_add_left]
  omega

variable (config) in
/-- **The calls of a scroll**, for their rows, with what they are made of. -/
theorem scrollCalls_eq (hstride : b.width.toNat * b.format.size ≤ b.stride.toNat)
    (hrange : b.InRange scrollX scrollY) (hne : ¬(scrollX = 0 ∧ scrollY = 0)) :
    ∃ x1 x2 width mover, x1.toNat = b.right scrollX ∧ x2.toNat = b.left scrollX ∧
      width.toNat = b.stride.toNat - (b.right scrollX + b.left scrollX) ∧
      (mover = .memmove ∨ mover = .memcpyBackwardsAligned ∧ b.left scrollX = 0 ∨
        mover = .memcpyForwardsAligned ∧ b.right scrollX = 0) ∧
      b.scrollCalls config scrollX scrollY =
        if scrollY = 0 then
          (rowsUp (b.height + scrollY)).map fun y => b.rowCall mover y y x1 x2 width
        else if (0 : BitVec 32).slt scrollY then
          (rowsDown scrollY (b.height - 1).toNat).map fun y =>
            b.rowCall .memcpy y (y - scrollY) x1 x2 b.stride
        else
          (rowsUp (b.height + scrollY)).map fun y =>
            b.rowCall .memcpy y (y - scrollY) x1 x2 b.stride := by
  have hroom := right_add_left_lt hstride hrange
  have habs := toNat_abs scrollX
  have hmul : (abs scrollX * BitVec.ofNat 32 b.format.size).toNat
      = b.right scrollX + b.left scrollX := by
    rw [right_add_left, ← habs]
    refine toNat_mul_size ?_
    rw [habs, ← right_add_left]
    omega
  have hwidth : (b.stride - abs scrollX * BitVec.ofNat 32 b.format.size).toNat
      = b.stride.toNat - (b.right scrollX + b.left scrollX) := by
    rw [BitVec.toNat_sub_of_le (by rw [BitVec.le_def]; omega), hmul]
  rw [scrollCalls, if_neg hne, if_neg (inRange_iff.mp hrange)]
  dsimp only
  by_cases hneg : scrollX.slt 0
  · have hright : b.right scrollX = 0 := by
      have hlt := (slt_zero_iff scrollX).mp hneg
      rw [right, Int.toNat_of_nonpos (by omega), Nat.zero_mul]
    have habs' : abs scrollX = -scrollX := if_pos hneg
    have hnot : ¬(0 : BitVec 32).slt scrollX := by
      rw [zero_slt_iff]
      have hlt := (slt_zero_iff scrollX).mp hneg
      omega
    rw [habs'] at hmul hwidth
    rw [if_pos hneg, if_pos hneg, if_pos hneg, if_neg hnot]
    have hsum : b.stride + scrollX * BitVec.ofNat 32 b.format.size
        = b.stride - -scrollX * BitVec.ofNat 32 b.format.size := by
      rw [BitVec.sub_eq_add_neg, BitVec.neg_mul, BitVec.neg_neg]
    rw [hsum]
    refine ⟨0, _, _, _, hright.symm, hmul.trans (by omega), hwidth, ?_, rfl⟩
    split
    · exact Or.inl rfl
    · exact Or.inr (Or.inr ⟨rfl, hright⟩)
  · have hleft : b.left scrollX = 0 := by
      rw [slt_zero_iff] at hneg
      rw [left, Int.toNat_of_nonpos (by omega), Nat.zero_mul]
    have habs' : abs scrollX = scrollX := if_neg hneg
    rw [habs'] at hmul hwidth
    rw [if_neg hneg, if_neg hneg, if_neg hneg]
    by_cases hpos : (0 : BitVec 32).slt scrollX
    · rw [if_pos hpos]
      refine ⟨_, 0, _, _, hmul.trans (by omega), hleft.symm, hwidth, ?_, rfl⟩
      split
      · exact Or.inl rfl
      · exact Or.inr (Or.inl ⟨rfl, hleft⟩)
    · have hright : b.right scrollX = 0 := by
        rw [zero_slt_iff] at hpos
        rw [right, Int.toNat_of_nonpos (by omega), Nat.zero_mul]
      rw [if_neg hpos]
      refine ⟨_, 0, _, _, hmul.trans (by omega), hleft.symm, hwidth, ?_, rfl⟩
      split
      · exact Or.inl rfl
      · exact Or.inr (Or.inr ⟨rfl, hright⟩)

/-- Up from the first row, those that are left. -/
theorem toNat_height_add (hrange : b.InRange scrollX scrollY) (h : scrollY.toInt ≤ 0) :
    (b.height + scrollY).toNat = b.height.toNat - scrollY.toInt.natAbs := by
  have hlt := hrange.2
  rw [BitVec.toInt_eq_toNat_cond] at h hlt ⊢
  have hheight := b.height.isLt
  have hscroll := scrollY.isLt
  rw [BitVec.toNat_add]
  split at h
  · have hzero : scrollY.toNat = 0 := by omega
    rw [if_pos (by omega), hzero]
    omega
  · rw [if_neg (by omega)] at hlt ⊢
    omega

/-- A row's source is as far from it as the scroll goes. -/
theorem toNat_sub_scroll (y scrollY : BitVec 32) (hle : scrollY.toInt ≤ y.toNat)
    (hlt : (y.toNat : ℤ) - scrollY.toInt < 2 ^ 32) :
    ((y - scrollY).toNat : ℤ) = y.toNat - scrollY.toInt := by
  rw [BitVec.toInt_eq_toNat_cond] at hle hlt ⊢
  have hy := y.isLt
  have hscroll := scrollY.isLt
  rw [BitVec.toNat_sub]
  split at hle
  · rw [if_pos (by omega)] at hlt ⊢
    omega
  · rw [if_neg (by omega)] at hlt ⊢
    omega

theorem rowCall_dest (mover : Mover) (y source x1 x2 bytes : BitVec 32) :
    (b.rowCall mover y source x1 x2 bytes).dest
      = b.address + (y.toNat * b.stride.toNat + x1.toNat) % 2 ^ 32 :=
  congrArg (b.address + ·) (toNat_rowOffset y x1)

theorem rowCall_src (mover : Mover) (y source x1 x2 bytes : BitVec 32) :
    (b.rowCall mover y source x1 x2 bytes).src
      = b.address + (source.toNat * b.stride.toNat + x2.toNat) % 2 ^ 32 :=
  congrArg (b.address + ·) (toNat_rowOffset source x2)

/-- **A call is for a row that has a source**, and downwards for none up to
the first of them. -/
theorem mem_scrollCalls (hstride : b.width.toNat * b.format.size ≤ b.stride.toNat)
    (hrange : b.InRange scrollX scrollY) (hne : ¬(scrollX = 0 ∧ scrollY = 0))
    (hcall : call ∈ b.scrollCalls config scrollX scrollY) :
    ∃ y' : ℕ, call.row < b.height ∧ y' < b.height.toNat ∧
      (call.row.toNat : ℤ) = y' + scrollY.toInt ∧
      (0 < scrollY.toInt → scrollY.toInt < call.row.toNat) ∧
      call.dest = b.address
        + (call.row.toNat * b.stride.toNat + b.right scrollX) % 2 ^ 32 ∧
      call.src = b.address + (y' * b.stride.toNat + b.left scrollX) % 2 ^ 32 ∧
      call.bytes ≤ b.stride.toNat ∧
      (scrollY.toInt = 0 → call.bytes + b.right scrollX ≤ b.stride.toNat) := by
  obtain ⟨x1, x2, width, mover, hx1, hx2, hwidth, -, heq⟩ :=
    scrollCalls_eq config hstride hrange hne
  have hheight := b.height.isLt
  have hless := hrange.2
  have hmade (mover : Mover) (y source bytes : BitVec 32) (hy : y.toNat < b.height.toNat)
      (hsource : source.toNat < b.height.toNat) (hrow : (y.toNat : ℤ) = source.toNat + scrollY.toInt)
      (hdown : 0 < scrollY.toInt → scrollY.toInt < y.toNat)
      (hbytes : bytes.toNat ≤ b.stride.toNat)
      (hlevel : scrollY.toInt = 0 → bytes.toNat + b.right scrollX ≤ b.stride.toNat)
      (hmem : b.rowCall mover y source x1 x2 bytes = call) :
      ∃ y' : ℕ, call.row < b.height ∧ y' < b.height.toNat ∧
        (call.row.toNat : ℤ) = y' + scrollY.toInt ∧
        (0 < scrollY.toInt → scrollY.toInt < call.row.toNat) ∧
        call.dest = b.address
          + (call.row.toNat * b.stride.toNat + b.right scrollX) % 2 ^ 32 ∧
        call.src = b.address + (y' * b.stride.toNat + b.left scrollX) % 2 ^ 32 ∧
        call.bytes ≤ b.stride.toNat ∧
        (scrollY.toInt = 0 → call.bytes + b.right scrollX ≤ b.stride.toNat) := by
    rw [← hmem, rowCall_dest, rowCall_src, hx1, hx2]
    exact ⟨source.toNat, hy, hsource, hrow, hdown, rfl, rfl, hbytes, hlevel⟩
  have hroom := right_add_left_lt hstride hrange
  rw [heq] at hcall
  split at hcall
  · next hlevel =>
    rw [List.mem_map] at hcall
    obtain ⟨y, hy, hmem⟩ := hcall
    have hzero : scrollY.toInt = 0 := by rw [hlevel]; rfl
    rw [mem_rowsUp, toNat_height_add hrange (by omega)] at hy
    exact hmade _ y y width (by omega) (by omega) (by omega) (by omega) (by omega) (by omega) hmem
  · split at hcall
    · next hdown =>
      rw [zero_slt_iff] at hdown
      rw [List.mem_map] at hcall
      obtain ⟨y, hy, hmem⟩ := hcall
      obtain ⟨hlast, hfirst⟩ := mem_rowsDown (b.height - 1).isLt hy
      have hpos : 0 < b.height.toNat := by omega
      have hone : (b.height - 1).toNat = b.height.toNat - 1 := by bv_omega
      have hscroll : (scrollY.toNat : ℤ) = scrollY.toInt := by
        rw [BitVec.toInt_eq_toNat_cond] at hdown ⊢
        have hlt := scrollY.isLt
        split at hdown
        · rw [if_pos (by omega)]
        · omega
      rw [BitVec.lt_def] at hlast
      have hsource := toNat_sub_scroll y scrollY (by omega) (by omega)
      exact hmade _ y _ b.stride (by omega) (by omega) (by omega) (by omega) (Nat.le_refl _)
        (by omega) hmem
    · next hlevel hup =>
      rw [zero_slt_iff] at hup
      have hzero : (0 : BitVec 32).toInt = 0 := rfl
      have hup' : scrollY.toInt ≠ 0 := fun h => hlevel (BitVec.eq_of_toInt_eq (h.trans hzero.symm))
      rw [List.mem_map] at hcall
      obtain ⟨y, hy, hmem⟩ := hcall
      rw [mem_rowsUp, toNat_height_add hrange (by omega)] at hy
      have hsource := toNat_sub_scroll y scrollY (by omega) (by omega)
      exact hmade _ y _ b.stride (by omega) (by omega) (by omega) (by omega) (Nat.le_refl _)
        (by omega) hmem

/-! ## Rows too far on -/

/-- No call for a row up to one covers it where its offset has wrapped. -/
theorem lt_of_covered {n m o bytes stride : ℕ} (hle : m ≤ n) (hstride : stride < 2 ^ 32)
    (hbytes : bytes ≤ stride) (hfrom : (m * stride + o) % 2 ^ 32 ≤ n * stride + o)
    (hto : n * stride + o < (m * stride + o) % 2 ^ 32 + bytes) :
    n * stride + o < 2 ^ 32 := by
  rcases Nat.lt_or_eq_of_le hle with hlt | rfl
  · have hrow := Nat.mul_le_mul_right stride hlt
    have hmod := Nat.mod_le (m * stride + o) (2 ^ 32)
    rw [Nat.succ_mul] at hrow
    omega
  · generalize m * stride + o = place at hfrom hto ⊢
    omega

/-- What is moved is not where it was. -/
theorem moved_apart (hstride : b.width.toNat * b.format.size ≤ b.stride.toNat)
    (hrange : b.InRange scrollX scrollY) (hne : ¬(scrollX = 0 ∧ scrollY = 0)) {n m : ℕ}
    (hrow : (n : ℤ) = m + scrollY.toInt) :
    n * b.stride.toNat + b.right scrollX ≠ m * b.stride.toNat + b.left scrollX := by
  have hroom := right_add_left_lt hstride hrange
  have hsize : 0 < b.format.size := by cases b.format <;> decide
  have hzero : (0 : BitVec 32).toInt = 0 := rfl
  rcases Nat.lt_trichotomy n m with hlt | rfl | hgt
  · have hnext := Nat.mul_le_mul_right b.stride.toNat hlt
    rw [Nat.succ_mul] at hnext
    omega
  · have hlevel : scrollY = 0 := BitVec.eq_of_toInt_eq (by omega)
    have hmoved : scrollX.toInt ≠ 0 := fun hnone =>
      hne ⟨BitVec.eq_of_toInt_eq (hnone.trans hzero.symm), hlevel⟩
    have hpos := Nat.mul_pos (Int.natAbs_pos.mpr hmoved) hsize
    rw [← right_add_left] at hpos
    rcases Int.lt_or_gt_of_ne hmoved with hneg | hpos'
    · have hright : b.right scrollX = 0 := by
        rw [right, Int.toNat_of_nonpos (by omega), Nat.zero_mul]
      omega
    · have hleft : b.left scrollX = 0 := by
        rw [left, Int.toNat_of_nonpos (by omega), Nat.zero_mul]
      omega
  · have hnext := Nat.mul_le_mul_right b.stride.toNat hgt
    rw [Nat.succ_mul] at hnext
    omega

/-- **The first byte that is moved in a row is written, and its source is read.** -/
theorem covered_of_scrolls (hstride : b.width.toNat * b.format.size ≤ b.stride.toNat)
    (hrange : b.InRange scrollX scrollY) (hne : ¬(scrollX = 0 ∧ scrollY = 0))
    (h : b.Scrolls config scrollX scrollY) {n m : ℕ} (hn : n < b.height.toNat)
    (hm : m < b.height.toNat) (hrow : (n : ℤ) = m + scrollY.toInt) :
    (∃ call ∈ b.scrollCalls config scrollX scrollY,
        call.dest ≤ b.address + (n * b.stride.toNat + b.right scrollX) ∧
        b.address + (n * b.stride.toNat + b.right scrollX) < call.dest + call.bytes) ∧
      ∃ call ∈ b.scrollCalls config scrollX scrollY,
        call.src ≤ b.address + (m * b.stride.toNat + b.left scrollX) ∧
        b.address + (m * b.stride.toNat + b.left scrollX) < call.src + call.bytes := by
  have hsize : 0 < b.format.size := by cases b.format <;> decide
  have hheight := b.height.isLt
  have hwidth := b.width.isLt
  have hless := hrange.1
  have hplaces := moved_apart hstride hrange hne hrow
  have hnumber {k : ℕ} (hk : k < 2 ^ 32) : (BitVec.ofNat 32 k).toNat = k := by
    rw [BitVec.toNat_ofNat, Nat.mod_eq_of_lt hk]
  have hx := hnumber (k := scrollX.toInt.toNat) (by omega)
  have hx' := hnumber (k := (-scrollX.toInt).toNat) (by omega)
  have hy := hnumber (k := n) (by omega)
  have hy' := hnumber (k := m) (by omega)
  -- only the source of one byte has been written
  let cells : Cells (BitVec 8) :=
    Function.update (fun _ => none) (b.address + (m * b.stride.toNat + b.left scrollX)) (some 0)
  have hnone (a : ℕ) (ha : a ≠ b.address + (m * b.stride.toNat + b.left scrollX)) :
      cells a = none := Function.update_of_ne ha _ _
  have hmoved := h.moves hrange cells (.ofNat 32 scrollX.toInt.toNat) (.ofNat 32 n)
    (.ofNat 32 (-scrollX.toInt).toNat) (.ofNat 32 m) (by rw [BitVec.lt_def]; omega)
    (by rw [BitVec.lt_def]; omega) (by rw [BitVec.lt_def]; omega) (by rw [BitVec.lt_def]; omega)
    (by omega) (by omega) 0 hsize
  rw [place, place, hx, hx', hy, hy', Nat.add_zero, Nat.add_zero] at hmoved
  have hwritten : b.scroll config scrollX scrollY cells
      (b.address + (n * b.stride.toNat + b.right scrollX)) = some 0 :=
    hmoved.trans (Function.update_self _ _ _)
  constructor
  · by_contra hnot
    simp only [not_exists, not_and, Nat.not_lt] at hnot
    have hstill := foldl_run_of_outside config cells (fun call hcall =>
      (Nat.lt_or_ge _ _).imp_right (hnot call hcall))
    have hempty := hstill.symm.trans hwritten
    rw [hnone _ (by omega)] at hempty
    exact absurd hempty (by decide)
  · by_contra hnot
    simp only [not_exists, not_and, Nat.not_lt] at hnot
    have hempty := foldl_run_eq_none config (fun call hcall =>
      (Nat.lt_or_ge _ _).imp_right (hnot call hcall)) hnone (a :=
        b.address + (n * b.stride.toNat + b.right scrollX)) (by omega)
    exact absurd (hempty.symm.trans hwritten) (by decide)

/-- **A buffer that scrolls as it should is scrolled up or sideways, and no
offset of its wraps.** -/
theorem scrollable_of_scrolls (hstride : b.width.toNat * b.format.size ≤ b.stride.toNat)
    (h : b.Scrolls config scrollX scrollY) : b.Scrollable scrollX scrollY := by
  by_cases hne : scrollX = 0 ∧ scrollY = 0
  · exact Or.inl hne
  by_cases hrange : b.InRange scrollX scrollY
  · have hless := hrange.2
    have hlt := b.stride.isLt
    -- the last row that is moved to, and the last that is moved
    have hdest {n m : ℕ} (hn : n < b.height.toNat) (hm : m < b.height.toNat)
        (hrow : (n : ℤ) = m + scrollY.toInt)
        (hlast : n + 1 = b.height.toNat ∨ m + 1 = b.height.toNat) :
        n * b.stride.toNat + b.right scrollX < 2 ^ 32 := by
      obtain ⟨⟨call, hcall, hfrom, hto⟩, -⟩ := covered_of_scrolls hstride hrange hne h hn hm hrow
      obtain ⟨y', hy, hy', hcallrow, -, hd, -, hbytes, -⟩ := mem_scrollCalls hstride hrange hne hcall
      rw [BitVec.lt_def] at hy
      rw [hd] at hfrom hto
      exact lt_of_covered (m := call.row.toNat) (by omega) hlt hbytes (by omega) (by omega)
    rcases Int.lt_or_le 0 scrollY.toInt with hdown | hup
    · have hfar := hdest (n := b.height.toNat - 1)
        (m := b.height.toNat - 1 - scrollY.toInt.natAbs) (by omega) (by omega) (by omega)
        (Or.inl (by omega))
      -- the first row that is moved to is not
      obtain ⟨⟨call, hcall, hfrom, -⟩, -⟩ := covered_of_scrolls hstride hrange hne h
        (n := scrollY.toInt.natAbs) (m := 0) (by omega) (by omega) (by omega)
      obtain ⟨y', hy, -, -, hlast, hd, -⟩ := mem_scrollCalls hstride hrange hne hcall
      have hlast' := hlast hdown
      rw [BitVec.lt_def] at hy
      have hbelow := Nat.mul_le_mul_right b.stride.toNat
        (show scrollY.toInt.natAbs + 1 ≤ call.row.toNat by omega)
      have habove := Nat.mul_le_mul_right b.stride.toNat
        (show call.row.toNat ≤ b.height.toNat - 1 by omega)
      have hroom := right_add_left_lt hstride hrange
      have hsize : 0 < b.format.size := by cases b.format <;> decide
      rw [Nat.succ_mul] at hbelow
      rw [hd, Nat.mod_eq_of_lt (by omega)] at hfrom
      omega
    · have hfar := hdest (n := b.height.toNat - 1 - scrollY.toInt.natAbs)
        (m := b.height.toNat - 1) (by omega) (by omega) (by omega) (Or.inr (by omega))
      obtain ⟨-, call, hcall, hfrom, hto⟩ := covered_of_scrolls hstride hrange hne h
        (n := b.height.toNat - 1 - scrollY.toInt.natAbs) (m := b.height.toNat - 1) (by omega)
        (by omega) (by omega)
      obtain ⟨y', -, hy', -, -, -, hs, hbytes, -⟩ := mem_scrollCalls hstride hrange hne hcall
      rw [hs] at hfrom hto
      have hsrc := lt_of_covered (m := y') (n := b.height.toNat - 1) (o := b.left scrollX)
        (by omega) hlt hbytes (by omega) (by omega)
      exact Or.inr (Or.inr ⟨hup, hsrc, hfar⟩)
  · exact Or.inr (Or.inl hrange)

/-! ## Rows that are moved -/

/-- **Row after row is moved up, as if all were at once.** -/
theorem foldl_up {x1 x2 : BitVec 32} (hx1 : x1.toNat = b.right scrollX)
    (hx2 : x2.toNat = b.left scrollX) (hroom : b.right scrollX ≤ b.stride.toNat)
    (hup : scrollY.toInt < 0) (hrange : b.InRange scrollX scrollY)
    (hsrc : (b.height.toNat - 1) * b.stride.toNat + b.left scrollX < 2 ^ 32)
    (hdest : (b.height.toNat - 1 - scrollY.toInt.natAbs) * b.stride.toNat + b.right scrollX < 2 ^ 32)
    {n : ℕ} (hn : n ≤ b.height.toNat - scrollY.toInt.natAbs) :
    (((List.range n).map (BitVec.ofNat 32)).map fun y =>
        b.rowCall .memcpy y (y - scrollY) x1 x2 b.stride).foldl (Call.run config) cells
      = cells.moved cells (b.address + b.right scrollX)
          (b.address + scrollY.toInt.natAbs * b.stride.toNat + b.left scrollX)
          (n * b.stride.toNat) := by
  have hheight := b.height.isLt
  have hless := hrange.2
  have hup' := Nat.mul_le_mul_right b.stride.toNat (show 1 ≤ scrollY.toInt.natAbs by omega)
  induction n with
  | zero =>
    rw [Nat.zero_mul, Cells.moved_zero]
    rfl
  | succ n ih =>
    have hrow : (BitVec.ofNat 32 n).toNat = n := by
      rw [BitVec.toNat_ofNat, Nat.mod_eq_of_lt (by omega)]
    have hsource := toNat_sub_scroll (.ofNat 32 n) scrollY (by omega) (by omega)
    have hsource' : (BitVec.ofNat 32 n - scrollY).toNat = n + scrollY.toInt.natAbs := by omega
    have hlast := Nat.mul_le_mul_right b.stride.toNat
      (show n ≤ b.height.toNat - 1 - scrollY.toInt.natAbs by omega)
    have hlast' := Nat.mul_le_mul_right b.stride.toNat
      (show n + scrollY.toInt.natAbs ≤ b.height.toNat - 1 by omega)
    have hd := rowCall_dest .memcpy (.ofNat 32 n) (.ofNat 32 n - scrollY) x1 x2 b.stride (b := b)
    have hs := rowCall_src .memcpy (.ofNat 32 n) (.ofNat 32 n - scrollY) x1 x2 b.stride (b := b)
    rw [hrow, hx1, Nat.mod_eq_of_lt (by omega)] at hd
    rw [hsource', hx2, Nat.mod_eq_of_lt (by omega), Nat.add_mul] at hs
    rw [List.range_succ, List.map_append, List.map_append, List.foldl_append, ih (by omega)]
    have hcall : Call.run config
        (cells.moved cells (b.address + b.right scrollX)
          (b.address + scrollY.toInt.natAbs * b.stride.toNat + b.left scrollX) (n * b.stride.toNat))
        (b.rowCall .memcpy (.ofNat 32 n) (.ofNat 32 n - scrollY) x1 x2 b.stride)
      = cells.moved cells (b.address + b.right scrollX)
          (b.address + scrollY.toInt.natAbs * b.stride.toNat + b.left scrollX)
          (n * b.stride.toNat + b.stride.toNat) := by
      have hd' : b.address + (n * b.stride.toNat + b.right scrollX)
          = b.address + b.right scrollX + n * b.stride.toNat := by omega
      have hs' : b.address + (n * b.stride.toNat + scrollY.toInt.natAbs * b.stride.toNat
            + b.left scrollX)
          = b.address + scrollY.toInt.natAbs * b.stride.toNat + b.left scrollX
            + n * b.stride.toNat := by omega
      rw [Call.run]
      refine (memcpy_eq (by omega)).trans ?_
      rw [hd, hs, hd', hs']
      exact Cells.moved_moved cells (by omega) _ _
    rw [Nat.succ_mul]
    exact hcall

variable (config cells) in
/-- **Row after row is moved within itself.** -/
theorem foldl_level {mover : Mover} {x1 x2 width : BitVec 32} (hx1 : x1.toNat = b.right scrollX)
    (hx2 : x2.toNat = b.left scrollX)
    (hwidth : width.toNat = b.stride.toNat - (b.right scrollX + b.left scrollX))
    (hroom : b.right scrollX + b.left scrollX ≤ b.stride.toNat)
    (hmover : mover = .memmove ∨ mover = .memcpyBackwardsAligned ∧ b.left scrollX = 0 ∨
      mover = .memcpyForwardsAligned ∧ b.right scrollX = 0)
    (hfar : (b.height.toNat - 1) * b.stride.toNat + (b.right scrollX + b.left scrollX) < 2 ^ 32)
    {n : ℕ} (hn : n ≤ b.height.toNat) :
    (∀ a, b.address + n * b.stride.toNat ≤ a →
      (((List.range n).map (BitVec.ofNat 32)).map fun y =>
        b.rowCall mover y y x1 x2 width).foldl (Call.run config) cells a = cells a) ∧
    ∀ y < n, ∀ i < b.stride.toNat - (b.right scrollX + b.left scrollX),
      (((List.range n).map (BitVec.ofNat 32)).map fun y =>
        b.rowCall mover y y x1 x2 width).foldl (Call.run config) cells
          (b.address + y * b.stride.toNat + b.right scrollX + i)
        = cells (b.address + y * b.stride.toNat + b.left scrollX + i) := by
  have hheight := b.height.isLt
  induction n with
  | zero => exact ⟨fun _ _ => rfl, fun y hy => absurd hy (Nat.not_lt_zero y)⟩
  | succ n ih =>
    obtain ⟨hlater, hearlier⟩ := ih (by omega)
    have hrow : (BitVec.ofNat 32 n).toNat = n := by
      rw [BitVec.toNat_ofNat, Nat.mod_eq_of_lt (by omega)]
    have hlast := Nat.mul_le_mul_right b.stride.toNat (show n ≤ b.height.toNat - 1 by omega)
    have hd := rowCall_dest mover (.ofNat 32 n) (.ofNat 32 n) x1 x2 width (b := b)
    have hs := rowCall_src mover (.ofNat 32 n) (.ofNat 32 n) x1 x2 width (b := b)
    rw [hrow, hx1, Nat.mod_eq_of_lt (by omega)] at hd
    rw [hrow, hx2, Nat.mod_eq_of_lt (by omega)] at hs
    rw [List.range_succ, List.map_append, List.map_append, List.foldl_append]
    generalize (((List.range n).map (BitVec.ofNat 32)).map fun y =>
      b.rowCall mover y y x1 x2 width).foldl (Call.run config) cells = cells' at hlater hearlier ⊢
    have hcall : Call.run config cells' (b.rowCall mover (.ofNat 32 n) (.ofNat 32 n) x1 x2 width)
        = cells'.moved cells' (b.address + (n * b.stride.toNat + b.right scrollX))
            (b.address + (n * b.stride.toNat + b.left scrollX)) width.toNat := by
      rw [← hd, ← hs]
      rcases hmover with rfl | ⟨rfl, hleft⟩ | ⟨rfl, hright⟩
      · exact memmove_eq
      · exact Cells.moveBackwards_eq cells' (by omega) _
      · exact memcpyForwardsAligned_eq (by omega)
    have hcell (a : ℕ) : (([n].map (BitVec.ofNat 32)).map fun y =>
          b.rowCall mover y y x1 x2 width).foldl (Call.run config) cells' a
        = cells'.moved cells' (b.address + (n * b.stride.toNat + b.right scrollX))
            (b.address + (n * b.stride.toNat + b.left scrollX)) width.toNat a := congrFun hcall a
    have hnext : (n + 1) * b.stride.toNat = n * b.stride.toNat + b.stride.toNat := Nat.succ_mul _ _
    constructor
    · intro a ha
      rw [hcell, Cells.moved_of_le (by omega), hlater a (by omega)]
    · intro y hy i hi
      rw [hcell]
      rcases Nat.lt_or_eq_of_le (Nat.le_of_lt_succ hy) with hbefore | rfl
      · have hrows := Nat.mul_le_mul_right b.stride.toNat hbefore
        rw [Nat.succ_mul] at hrows
        rw [Cells.moved_of_lt (by omega), hearlier y hbefore i hi]
      · rw [Cells.moved_at (j := b.address + y * b.stride.toNat + b.left scrollX + i) (by omega)
          (by omega) (by omega), hlater _ (by omega)]

/-- A row is moved one way only. -/
theorem right_or_left (b : Buffer) (scrollX : BitVec 32) :
    b.right scrollX = 0 ∨ b.left scrollX = 0 := by
  rcases Int.le_total scrollX.toInt 0 with hneg | hpos
  · refine Or.inl ?_
    rw [right, Int.toNat_of_nonpos hneg, Nat.zero_mul]
  · refine Or.inr ?_
    rw [left, Int.toNat_of_nonpos (by omega), Nat.zero_mul]

/-- A pixel and its source are as far apart in their rows. -/
theorem column_add {x x' : ℕ} (h : (x : ℤ) = x' + scrollX.toInt) :
    x * b.format.size + b.left scrollX = x' * b.format.size + b.right scrollX := by
  have hadd : x + (-scrollX.toInt).toNat = x' + scrollX.toInt.toNat := by omega
  rw [left, right, ← Nat.add_mul, ← Nat.add_mul, hadd]

/-- **Upwards and sideways each pixel is moved**, -/
theorem scroll_at (hstride : b.width.toNat * b.format.size ≤ b.stride.toNat)
    (hrange : b.InRange scrollX scrollY) (hne : ¬(scrollX = 0 ∧ scrollY = 0))
    (hup : scrollY.toInt ≤ 0)
    (hsrc : (b.height.toNat - 1) * b.stride.toNat + b.left scrollX < 2 ^ 32)
    (hdest : (b.height.toNat - 1 - scrollY.toInt.natAbs) * b.stride.toNat + b.right scrollX < 2 ^ 32)
    {x y x' y' : BitVec 32} (hx : x < b.width) (hx' : x' < b.width) (hy' : y' < b.height)
    (hcolumn : (x.toNat : ℤ) = x'.toNat + scrollX.toInt)
    (hrow : (y.toNat : ℤ) = y'.toNat + scrollY.toInt) {k : ℕ} (hk : k < b.format.size) :
    b.scroll config scrollX scrollY cells (b.address + b.place x y + k)
      = cells (b.address + b.place x' y' + k) := by
  obtain ⟨x1, x2, width, mover, hx1, hx2, hwidth, hmover, heq⟩ :=
    scrollCalls_eq config hstride hrange hne
  have hroom := right_add_left_lt hstride hrange
  have hcolumns := column_add (b := b) hcolumn
  have hoff := right_or_left b scrollX
  have hin := Nat.mul_le_mul_right b.format.size (BitVec.lt_def.mp hx)
  have hin' := Nat.mul_le_mul_right b.format.size (BitVec.lt_def.mp hx')
  have hless := hrange.2
  have hzero : (0 : BitVec 32).toInt = 0 := rfl
  rw [Nat.succ_mul] at hin hin'
  rw [BitVec.lt_def] at hy'
  rw [scroll, heq, place, place]
  by_cases hlevel : scrollY = 0
  · have hY : scrollY.toInt = 0 := by rw [hlevel]; rfl
    have hrows : y'.toNat = y.toNat := by omega
    rw [hY, Int.natAbs_zero, Nat.sub_zero] at hdest
    rw [if_pos hlevel, rowsUp, toNat_height_add hrange hup, hY, Int.natAbs_zero, Nat.sub_zero, hrows]
    obtain ⟨-, hmoved⟩ := foldl_level config cells hx1 hx2 hwidth (by omega)
      hmover (by omega) (Nat.le_refl _)
    have hcell := hmoved y.toNat (by omega) (x.toNat * b.format.size + k - b.right scrollX) (by omega)
    have hto : b.address + y.toNat * b.stride.toNat + b.right scrollX
          + (x.toNat * b.format.size + k - b.right scrollX)
        = b.address + (y.toNat * b.stride.toNat + x.toNat * b.format.size) + k := by omega
    have hfrom : b.address + y.toNat * b.stride.toNat + b.left scrollX
          + (x.toNat * b.format.size + k - b.right scrollX)
        = b.address + (y.toNat * b.stride.toNat + x'.toNat * b.format.size) + k := by omega
    rw [hto, hfrom] at hcell
    exact hcell
  · have hY : scrollY.toInt ≠ 0 := fun h => hlevel (BitVec.eq_of_toInt_eq (h.trans hzero.symm))
    have hdown : ¬(0 : BitVec 32).slt scrollY := by
      rw [zero_slt_iff]
      omega
    have hrows : y'.toNat = y.toNat + scrollY.toInt.natAbs := by omega
    have hlast := Nat.mul_le_mul_right b.stride.toNat
      (show y.toNat + 1 ≤ b.height.toNat - scrollY.toInt.natAbs by omega)
    rw [Nat.succ_mul] at hlast
    rw [if_neg hlevel, if_neg hdown, rowsUp, toNat_height_add hrange hup,
      foldl_up hx1 hx2 (by omega) (by omega) hrange hsrc hdest (Nat.le_refl _), hrows, Nat.add_mul]
    exact Cells.moved_at (by omega) (by omega) (by omega)

/-- and nothing else is written. -/
theorem writes_of_up (hstride : b.width.toNat * b.format.size ≤ b.stride.toNat)
    (hrange : b.InRange scrollX scrollY) (hne : ¬(scrollX = 0 ∧ scrollY = 0))
    (hup : scrollY.toInt ≤ 0)
    (hdest : (b.height.toNat - 1 - scrollY.toInt.natAbs) * b.stride.toNat + b.right scrollX < 2 ^ 32)
    (hcall : call ∈ b.scrollCalls config scrollX scrollY) (hfrom : call.dest ≤ a)
    (hto : a < call.dest + call.bytes) :
    (b.address ≤ a ∧ a < b.address + b.height.toNat * b.stride.toNat) ∧
      ∀ row, b.Padding row a → row = call.row := by
  obtain ⟨y', hy, hy', hrow, -, hd, -, hbytes, hlevel⟩ := mem_scrollCalls hstride hrange hne hcall
  have hroom := right_add_left_lt hstride hrange
  have hless := hrange.2
  have hpixels := Nat.mul_le_mul_right b.format.size (Nat.le_of_lt hrange.1)
  rw [← right_add_left] at hpixels
  rw [BitVec.lt_def] at hy
  have hlast := Nat.mul_le_mul_right b.stride.toNat
    (show call.row.toNat ≤ b.height.toNat - 1 - scrollY.toInt.natAbs by omega)
  rw [Nat.mod_eq_of_lt (by omega)] at hd
  have hrows := Nat.mul_le_mul_right b.stride.toNat hy
  rw [Nat.succ_mul] at hrows
  refine ⟨⟨by omega, ?_⟩, fun row hpadding => ?_⟩
  · by_cases hY : scrollY.toInt = 0
    · have hlevel' := hlevel hY
      omega
    · -- there is a row behind
      have hbehind := Nat.mul_le_mul_right b.stride.toNat
        (show call.row.toNat + 1 + 1 ≤ b.height.toNat by omega)
      rw [Nat.succ_mul, Nat.succ_mul] at hbehind
      omega
  · obtain ⟨-, hpad, hpad'⟩ := hpadding
    refine BitVec.eq_of_toNat_eq ?_
    rcases Nat.lt_trichotomy row.toNat call.row.toNat with hlt | heq | hgt
    · have hbefore := Nat.mul_le_mul_right b.stride.toNat hlt
      rw [Nat.succ_mul] at hbefore
      omega
    · exact heq
    · have hbehind := Nat.mul_le_mul_right b.stride.toNat hgt
      rw [Nat.succ_mul] at hbehind
      omega

/-! ## The result -/

/-- **A buffer scrolls as it should exactly up and sideways**, where no
offset wraps. -/
theorem scrolls_iff (b : Buffer) (config : Config) (scrollX scrollY : BitVec 32)
    (hstride : b.width.toNat * b.format.size ≤ b.stride.toNat) :
    b.Scrolls config scrollX scrollY ↔ b.Scrollable scrollX scrollY := by
  refine ⟨scrollable_of_scrolls hstride, fun h => ?_⟩
  have hstill : (scrollX = 0 ∧ scrollY = 0) ∨ ¬b.InRange scrollX scrollY →
      b.scrollCalls config scrollX scrollY = [] := by
    rintro (hnone | hrange)
    · exact if_pos hnone
    · rw [inRange_iff, not_not] at hrange
      rw [scrollCalls, if_pos hrange, ite_self]
  constructor
  · intro hrange cells x y x' y' hx hy hx' hy' hcolumn hrow k hk
    by_cases hne : scrollX = 0 ∧ scrollY = 0
    · have hzero : (0 : BitVec 32).toInt = 0 := rfl
      rw [hne.1, hzero] at hcolumn
      rw [hne.2, hzero] at hrow
      have hx : x = x' := BitVec.eq_of_toNat_eq (by omega)
      have hy : y = y' := BitVec.eq_of_toNat_eq (by omega)
      rw [scroll, hstill (Or.inl hne), hx, hy]
      rfl
    · rcases h with hnone | hnot | ⟨hup, hsrc, hdest⟩
      · exact absurd hnone hne
      · exact absurd hrange hnot
      · exact scroll_at hstride hrange hne hup hsrc hdest hx hx' hy' hcolumn hrow hk
  · intro hrange call hcall a hfrom hto
    by_cases hne : scrollX = 0 ∧ scrollY = 0
    · rw [hstill (Or.inl hne)] at hcall
      exact absurd hcall List.not_mem_nil
    · rcases h with hnone | hnot | ⟨hup, -, hdest⟩
      · exact absurd hnone hne
      · exact absurd hrange hnot
      · exact writes_of_up hstride hrange hne hup hdest hcall hfrom hto
  · intro hnot cells
    rw [scroll, hstill hnot]
    rfl

/-- Two rows of two pixels. -/
def twoRows : Buffer := ⟨.grey8, .argb, 16, 2, 2, 2⟩

/-- They are scrolled up and to the right. -/
theorem scrolls_twoRows : twoRows.Scrolls ⟨false, false⟩ 1 (-1) :=
  (scrolls_iff twoRows ⟨false, false⟩ 1 (-1) (by decide)).mpr (by decide)

/-- Down they are not. -/
theorem not_scrolls_twoRows :
    twoRows.width.toNat * twoRows.format.size ≤ twoRows.stride.toNat ∧
      ¬twoRows.Scrolls ⟨false, false⟩ 0 1 := by
  have hwide : twoRows.width.toNat * twoRows.format.size ≤ twoRows.stride.toNat := by decide
  exact ⟨hwide, fun h => absurd (scrollable_of_scrolls hwide h) (by decide)⟩

end Buffer

end Graphics2d

end Uberos
