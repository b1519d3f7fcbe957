import Uberos.Graphics2d.Pixels
import Uberos.Graphics2d.Drawing
import Uberos.Library.Words
/-!
# Rectangles that are filled

A row is one run. It is clipped on the right only: one that begins to the
left of the buffer has a start that wraps, and `set` rejects it whole.
-/

namespace Uberos

open Library Library.Signed

namespace Graphics2d

/-! ## What it is for -/

/-- How much a corner cuts off a row. -/
def Corner.cutAt (corner : Option Corner) (i : ℕ) : ℕ :=
  ((corner.elim [] Corner.rows).getD i 0).toNat

namespace Corners

variable (corners : Corners) (height i : ℕ)

/-- How much the corners cut off a row on the left, -/
def leftCut : ℕ := max (Corner.cutAt corners.topLeft i) (Corner.cutAt corners.bottomLeft (height - 1 - i))

/-- and on the right. -/
def rightCut : ℕ :=
  max (Corner.cutAt corners.topRight i) (Corner.cutAt corners.bottomRight (height - 1 - i))

end Corners

namespace Buffer

variable (b : Buffer) (has128Bit : Bool) (x1 y1 x2 y2 colour : BitVec 32) (corners : Corners)
  (px py : ℕ)

/-- Where what is left of a row by its corners begins, -/
def rowFrom : ℤ :=
  x1.toInt + corners.leftCut (y2.toInt - y1.toInt).toNat (py - y1.toInt).toNat

/-- and where it ends in the buffer. -/
def rowTo : ℤ :=
  min (x2.toInt - corners.rightCut (y2.toInt - y1.toInt).toNat (py - y1.toInt).toNat) b.width.toNat

/-- **A pixel is of the buffer and of the rectangle**, and not cut off. -/
structure InRounded : Prop where
  row : py < b.height.toNat
  top : y1.toInt ≤ py
  bottom : py < y2.toInt
  left : rowFrom x1 y1 y2 corners py ≤ px
  right : px < b.rowTo y1 x2 y2 corners py

/-- A pixel is of a run that `set` takes. -/
def Plotted : Prop :=
  ∃ y ∈ rowsUp (b.clippedHeight y1 (y2 - y1)),
    ∃ run ∈ b.rowRun x1 (x2 - x1) (y2 - y1) corners y,
      ¬b.Outside run.1 (y1 + y) ∧ py = (y1 + y).toNat ∧ run.1.toNat ≤ px ∧
        px < run.1.toNat + run.2.toNat

/-- **A rectangle is filled**: exactly the pixels of it that are in the
buffer and not cut off are of a run that is set; and where pixels are read
back they are of the colour, and no other is changed. -/
structure FillsRounded : Prop where
  plotted : ∀ px py, b.Plotted x1 y1 x2 y2 corners px py ↔ b.InRounded x1 y1 x2 y2 corners px py
  drawn : b.ReadsBack has128Bit → ∀ memory, ∃ memory',
    b.drawRectOf has128Bit memory colour corners x1 y1 x2 y2 = some memory' ∧
      (∀ x y, b.InRounded x1 y1 x2 y2 corners x.toNat y.toNat →
        b.get memory' x y = reduce b.format colour) ∧
      ∀ x y, ¬b.InRounded x1 y1 x2 y2 corners x.toNat y.toNat →
        b.get memory' x y = b.get memory x y

/-- A row of the buffer has pixels to be filled. -/
def RowWanted : Prop :=
  y1.toInt ≤ py ∧ py < y2.toInt ∧
    max 0 (rowFrom x1 y1 y2 corners py) < b.rowTo y1 x2 y2 corners py

instance : Decidable (b.RowWanted x1 y1 x2 y2 corners py) :=
  inferInstanceAs (Decidable (_ ∧ _ ∧ _))

/-- A row of the buffer is visited, and `set` takes its run. -/
def RowTaken : Prop :=
  let y := BitVec.ofNat 32 py - y1
  let left := rowLeft (y2 - y1) corners y
  y < b.clippedHeight y1 (y2 - y1) ∧
    left.slt (minI (x1 + rowRight (x2 - x1) (y2 - y1) corners y) b.width - x1) ∧ x1 + left < b.width

instance : Decidable (b.RowTaken x1 y1 x2 y2 corners py) :=
  inferInstanceAs (Decidable (_ ∧ _ ∧ _))

/-- **A row fits**: if there are pixels to be filled it begins in the buffer,
and no width or height in it is more than an `I32` holds; and if there are
not it is not taken. -/
def RowFits : Prop :=
  if b.RowWanted x1 y1 x2 y2 corners py then
    0 ≤ rowFrom x1 y1 y2 corners py ∧ b.width.toNat < 2 ^ 31 ∧
      (b.rowTo y1 x2 y2 corners py - x1.toInt < 2 ^ 31 ∨
        2 ^ 31 ≤ rowFrom x1 y1 y2 corners py - x1.toInt) ∧
      if b.height.toNat < 2 ^ 31 then min y2.toInt b.height.toNat - y1.toInt < 2 ^ 31
      else b.height.toNat - 2 ^ 31 < y1.toInt
  else ¬b.RowTaken x1 y1 x2 y2 corners py

instance : Decidable (b.RowFits x1 y1 x2 y2 corners py) :=
  inferInstanceAs (Decidable (ite _ _ _))

end Buffer

/-! ## The corners -/

namespace Corner

variable {y : BitVec 32}

/-- The loop counts the rows. -/
theorem radiusFrom_eq {rows : List (BitVec 32)} (h : ∀ row ∈ rows, row ≠ ~~~0)
    (radius : BitVec 32) :
    radiusFrom (rows ++ [~~~0]) radius = radius + BitVec.ofNat 32 rows.length := by
  induction rows generalizing radius with
  | nil =>
    rw [List.nil_append, radiusFrom, if_neg (not_not.mpr rfl)]
    exact (BitVec.add_zero radius).symm
  | cons row rows ih =>
    rw [List.forall_mem_cons] at h
    rw [List.cons_append, radiusFrom, if_pos h.1, ih h.2, List.length_cons, BitVec.add_assoc,
      Nat.add_comm, BitVec.ofNat_add]
    rfl

theorem toNat_radius (corner : Corner) : (radius (some corner)).toNat = corner.rows.length := by
  have hzero : (0 : BitVec 32).toNat = 0 := rfl
  have hlength := corner.length_lt
  rw [radius, radiusFrom_eq corner.terminated, BitVec.toNat_add, BitVec.toNat_ofNat, hzero]
  omega

/-- **A row is cut off by what is in the table.** -/
theorem toNat_cut (corner : Option Corner) (y : BitVec 32) :
    (cut corner y).toNat = cutAt corner y.toNat := by
  cases corner with
  | none => rfl
  | some corner =>
    have hradius := toNat_radius corner
    rw [cut, cutAt]
    split
    · next hin =>
      rw [BitVec.lt_def, hradius] at hin
      rw [List.getD_eq_getElem?_getD, List.getElem?_append_left hin, Option.elim,
        List.getD_eq_getElem?_getD]
    · next hout =>
      rw [BitVec.lt_def, hradius, Nat.not_lt] at hout
      rw [Option.elim, List.getD_eq_getElem?_getD, List.getElem?_eq_none hout]
      rfl

end Corner

/-! ## Signed bounds -/

theorem toNat_maxU (x y : BitVec 32) : (maxU x y).toNat = max x.toNat y.toNat := by
  rw [maxU]
  split
  · next h => exact (Nat.max_eq_left h).symm
  · next h => exact (Nat.max_eq_right (Nat.le_of_not_le h)).symm

theorem toInt_minI (x y : BitVec 32) : (minI x y).toInt = min x.toInt y.toInt := by
  rw [minI]
  split
  · next h =>
    rw [slt_iff] at h
    exact (Int.min_eq_left (Int.le_of_lt h)).symm
  · next h =>
    rw [slt_iff] at h
    exact (Int.min_eq_right (Int.not_lt.mp h)).symm

theorem toInt_maxI (x y : BitVec 32) : (maxI x y).toInt = max x.toInt y.toInt := by
  rw [maxI]
  split
  · next h =>
    rw [sle_iff] at h
    exact (Int.max_eq_left h).symm
  · next h =>
    rw [sle_iff] at h
    exact (Int.max_eq_right (Int.le_of_lt (Int.not_le.mp h))).symm

namespace Buffer

variable {b : Buffer} {has128Bit : Bool} {x1 y1 x2 y2 colour : BitVec 32} {corners : Corners}
  {px py : ℕ}

/-- A row of the rectangle, counted from the top. -/
theorem toNat_row (htop : y1.toInt ≤ py) (hbottom : py < y2.toInt) :
    (BitVec.ofNat 32 py - y1).toNat = (py - y1.toInt).toNat := by
  have hy1 := BitVec.le_toInt y1
  have hy2 : y2.toInt < 2 ^ 31 := BitVec.toInt_lt
  have hsub := toNat_sub_toInt y1 (.ofNat 32 py)
  rw [BitVec.toNat_ofNat] at hsub
  omega

/-- And from the bottom. -/
theorem toNat_row_bottom (htop : y1.toInt ≤ py) (hbottom : py < y2.toInt) :
    (y2 - y1 - 1 - (BitVec.ofNat 32 py - y1)).toNat
      = (y2.toInt - y1.toInt).toNat - 1 - (py - y1.toInt).toNat := by
  have hrow := toNat_row htop hbottom
  have hsize := toNat_size (v := y1) (w := y2) (by omega)
  generalize y2 - y1 = height at hsize ⊢
  generalize BitVec.ofNat 32 py - y1 = y at hrow ⊢
  have hy := y.isLt
  have hheight := height.isLt
  have hone : (1 : BitVec 32).toNat = 1 := rfl
  rw [BitVec.toNat_sub, BitVec.toNat_sub, hone]
  omega

variable (corners) in
theorem toNat_rowLeft (htop : y1.toInt ≤ py) (hbottom : py < y2.toInt) :
    (rowLeft (y2 - y1) corners (BitVec.ofNat 32 py - y1)).toNat
      = corners.leftCut (y2.toInt - y1.toInt).toNat (py - y1.toInt).toNat := by
  rw [rowLeft, toNat_maxU, Corner.toNat_cut, Corner.toNat_cut, toNat_row htop hbottom,
    toNat_row_bottom htop hbottom]
  rfl

variable (x1 x2 corners) in
/-- The right end of a row is so much before the rectangle's. -/
theorem add_rowRight (htop : y1.toInt ≤ py) (hbottom : py < y2.toInt) :
    ∃ cut, x1 + rowRight (x2 - x1) (y2 - y1) corners (BitVec.ofNat 32 py - y1) = x2 - cut ∧
      cut.toNat = corners.rightCut (y2.toInt - y1.toInt).toNat (py - y1.toInt).toNat := by
  refine ⟨maxU (Corner.cut corners.topRight (BitVec.ofNat 32 py - y1))
    (Corner.cut corners.bottomRight (y2 - y1 - 1 - (BitVec.ofNat 32 py - y1))), ?_, ?_⟩
  · rw [rowRight]
    bv_omega
  · rw [toNat_maxU, Corner.toNat_cut, Corner.toNat_cut, toNat_row htop hbottom,
      toNat_row_bottom htop hbottom]
    rfl

/-! ## Rows that have pixels to be filled -/

/-- **Such a row is visited** unless a height is more than an `I32` holds. -/
theorem visited_row_iff (hrow : py < b.height.toNat) (htop : y1.toInt ≤ py)
    (hbottom : py < y2.toInt) :
    BitVec.ofNat 32 py - y1 < b.clippedHeight y1 (y2 - y1) ↔
      if b.height.toNat < 2 ^ 31 then min y2.toInt b.height.toNat - y1.toInt < 2 ^ 31
      else b.height.toNat - 2 ^ 31 < y1.toInt := by
  have hend : y1 + (y2 - y1) = y2 := by bv_omega
  have hmax := toInt_maxI 0 (minI y2 b.height - y1)
  have hmin := toInt_minI y2 b.height
  have hsub := toInt_sub (minI y2 b.height) y1
  have hheight := BitVec.toInt_eq_toNat_cond b.height
  have hy := toNat_row htop hbottom
  have hy1 := BitVec.le_toInt y1
  have hy2 : y2.toInt < 2 ^ 31 := BitVec.toInt_lt
  have hzero : (0 : BitVec 32).toInt = 0 := rfl
  rw [clippedHeight, hend, BitVec.lt_def, hy]
  generalize minI y2 b.height - y1 = difference at hmax hsub
  have hclipped := BitVec.toInt_eq_toNat_cond (maxI 0 difference)
  generalize maxI 0 difference = clipped at hmax hclipped ⊢
  have hlt := clipped.isLt
  have hbound := b.height.isLt
  rw [hzero] at hmax
  rw [hmin] at hsub
  have hcount : (clipped.toNat : ℤ) = max 0 difference.toInt := by
    split at hclipped <;> omega
  by_cases hsmall : b.height.toNat < 2 ^ 31
  · rw [if_pos (by omega)] at hheight
    rw [if_pos hsmall]
    rcases hsub with ⟨hsub, hleast, hmost⟩ | ⟨hsub, hmost⟩ | ⟨hsub, hleast⟩
    · omega
    · omega
    · omega
  · rw [if_neg (by omega)] at hheight
    rw [if_neg hsmall]
    rcases hsub with ⟨hsub, hleast, hmost⟩ | ⟨hsub, hmost⟩ | ⟨hsub, hleast⟩
    · omega
    · omega
    · omega

/-- The run of a row in integers: its bounds are as they should be if no
difference wraps, or the start wraps along with it. -/
theorem run_bounds_iff {left right run width width' x cut finish first : ℤ}
    (hcut : 0 ≤ cut ∧ cut < 2 ^ 32) (hx : -2 ^ 31 ≤ x ∧ x < 2 ^ 31)
    (hwidth : 0 ≤ width ∧ width < 2 ^ 32)
    (hwidth' : width' = if width < 2 ^ 31 then width else width - 2 ^ 32)
    (hleft : left = if cut < 2 ^ 31 then cut else cut - 2 ^ 32) (hfinish : finish < 2 ^ 31)
    (hright : right = min finish width' - x ∧ -2 ^ 31 ≤ min finish width' - x ∧
          min finish width' - x < 2 ^ 31 ∨
        right = min finish width' - x - 2 ^ 32 ∧ 2 ^ 31 ≤ min finish width' - x ∨
        right = min finish width' - x + 2 ^ 32 ∧ min finish width' - x < -2 ^ 31)
    (hfirst : first = (x + cut) % 2 ^ 32) (hrun : left < right → run = right - left)
    (hwanted : max 0 (x + cut) < min finish width) :
    (left < right ∧ first < width) ∧ first = max 0 (x + cut) ∧ first + run = min finish width ↔
      0 ≤ x + cut ∧ width < 2 ^ 31 ∧ (min finish width - x < 2 ^ 31 ∨ 2 ^ 31 ≤ cut) := by
  by_cases hsmall : width < 2 ^ 31
  · rw [if_pos hsmall] at hwidth'
    subst hwidth'
    generalize hend : min finish width' = last at *
    by_cases hin : 0 ≤ x + cut
    · have hfirst' : first = x + cut := by omega
      have hstart : max 0 (x + cut) = x + cut := by omega
      rw [hstart] at hwanted ⊢
      -- the end wraps from `2 ^ 31` on, and a cut as large wraps along with it
      by_cases hfew : cut < 2 ^ 31
      · rw [if_pos hfew] at hleft
        rcases hright with ⟨hright, hleast, hmost⟩ | ⟨hright, hmost⟩ | ⟨hright, hleast⟩
        · exact iff_of_true (by omega) (by omega)
        · exact iff_of_false (by omega) (by omega)
        · omega
      · rw [if_neg hfew] at hleft
        rcases hright with ⟨hright, hleast, hmost⟩ | ⟨hright, hmost⟩ | ⟨hright, hleast⟩
        · exact iff_of_true (by omega) (by omega)
        · exact iff_of_true (by omega) (by omega)
        · omega
    · -- the start wraps, and is behind the buffer
      have hfirst' : first = x + cut + 2 ^ 32 := by omega
      omega
  · rw [if_neg hsmall] at hwidth'
    refine iff_of_false (fun h => ?_) (fun h => hsmall h.2.1)
    obtain ⟨⟨hless, hbefore⟩, hstart, hlast⟩ := h
    have hrun' := hrun hless
    split at hleft <;> omega

/-- Where the run of a row begins, -/
def takenFrom (x1 y1 y2 : BitVec 32) (corners : Corners) (py : ℕ) : ℕ :=
  (x1 + rowLeft (y2 - y1) corners (BitVec.ofNat 32 py - y1)).toNat

/-- and how long it is. -/
def takenCount (b : Buffer) (x1 y1 x2 y2 : BitVec 32) (corners : Corners) (py : ℕ) : ℕ :=
  let y := BitVec.ofNat 32 py - y1
  (minI (x1 + rowRight (x2 - x1) (y2 - y1) corners y) b.width - x1
    - rowLeft (y2 - y1) corners y).toNat

theorem takenCount_pos (h : b.RowTaken x1 y1 x2 y2 corners py) :
    0 < b.takenCount x1 y1 x2 y2 corners py := by
  have hsub := toNat_sub_of_slt h.2.1
  have hless := h.2.1
  rw [slt_iff] at hless
  rw [takenCount]
  omega

/-- **A row that has pixels to be filled is filled** if it fits. -/
theorem taken_row_iff (hrow : py < b.height.toNat) (h : b.RowWanted x1 y1 x2 y2 corners py) :
    b.RowTaken x1 y1 x2 y2 corners py ∧
        (takenFrom x1 y1 y2 corners py : ℤ) = max 0 (rowFrom x1 y1 y2 corners py) ∧
        (takenFrom x1 y1 y2 corners py + b.takenCount x1 y1 x2 y2 corners py : ℤ)
          = b.rowTo y1 x2 y2 corners py ↔
      b.RowFits x1 y1 x2 y2 corners py := by
  obtain ⟨htop, hbottom, hpixels⟩ := h
  have hleft := toNat_rowLeft corners htop hbottom
  obtain ⟨cut, hright, hcut⟩ := add_rowRight x1 x2 corners htop hbottom
  rw [RowFits, if_pos ⟨htop, hbottom, hpixels⟩, ← visited_row_iff hrow htop hbottom, RowTaken,
    takenFrom, takenCount, hright]
  rw [rowFrom, rowTo, ← hleft, ← hcut] at hpixels ⊢
  generalize rowLeft (y2 - y1) corners (BitVec.ofNat 32 py - y1) = left at *
  -- before it is clipped the right end is where it should be
  have hx2 : x2.toInt < 2 ^ 31 := BitVec.toInt_lt
  have hfinish := toInt_sub_toNat (v := x2) (w := cut) (by omega) (by omega)
  have hx1 : x1.toInt < 2 ^ 31 := BitVec.toInt_lt
  have hwrap := toInt_sub (minI (x2 - cut) b.width) x1
  rw [toInt_minI, hfinish] at hwrap
  have hfirst := toNat_add_toInt x1 left
  have hsigned (v : BitVec 32) : v.toInt
      = if (v.toNat : ℤ) < 2 ^ 31 then (v.toNat : ℤ) else v.toNat - 2 ^ 32 := by
    rw [BitVec.toInt_eq_toNat_cond]
    split <;> split <;> omega
  have hbounds := run_bounds_iff ⟨by omega, by omega⟩ ⟨BitVec.le_toInt x1, hx1⟩
    ⟨by omega, by omega⟩ (hsigned b.width) (hsigned left) (by omega) hwrap hfirst
    (fun hless => toNat_sub_of_slt ((slt_iff _ _).mpr hless)) hpixels
  rw [slt_iff, BitVec.lt_def]
  constructor
  · rintro ⟨⟨hvisited, hless, hin⟩, hstart, hend⟩
    obtain ⟨hinside, hsmall, hfits⟩ := hbounds.mp ⟨⟨hless, by omega⟩, hstart, hend⟩
    exact ⟨hinside, by omega, by omega, hvisited⟩
  · rintro ⟨hinside, hsmall, hfits, hvisited⟩
    obtain ⟨⟨hless, hin⟩, hstart, hend⟩ := hbounds.mpr ⟨hinside, by omega, by omega⟩
    exact ⟨⟨hvisited, hless, Int.ofNat_lt.mp hin⟩, hstart, hend⟩

/-! ## Pixels, row by row -/

theorem mem_rowRun {startX width height y : BitVec 32} {run : BitVec 32 × BitVec 32} :
    run ∈ b.rowRun startX width height corners y ↔
      (rowLeft height corners y).slt
          (minI (startX + rowRight width height corners y) b.width - startX) ∧
        run = (startX + rowLeft height corners y,
          minI (startX + rowRight width height corners y) b.width - startX
            - rowLeft height corners y) := by
  rw [rowRun, Option.mem_def]
  split
  · next h =>
    rw [Option.some.injEq]
    exact ⟨fun heq => ⟨h, heq.symm⟩, fun hrun => hrun.2.symm⟩
  · next h => exact ⟨fun hnone => absurd hnone (by simp), fun hrun => absurd hrun.1 h⟩

/-- **What is set of a row is its run**, if it is taken. -/
theorem plotted_iff :
    b.Plotted x1 y1 x2 y2 corners px py ↔
      py < b.height.toNat ∧ b.RowTaken x1 y1 x2 y2 corners py ∧
        takenFrom x1 y1 y2 corners py ≤ px ∧
          px < takenFrom x1 y1 y2 corners py + b.takenCount x1 y1 x2 y2 corners py := by
  constructor
  · rintro ⟨y, hy, run, hrun, hinside, rfl, hfrom, hto⟩
    obtain ⟨hless, rfl⟩ := mem_rowRun.mp hrun
    have hsame : BitVec.ofNat 32 (y1 + y).toNat - y1 = y := by
      rw [BitVec.ofNat_toNat, BitVec.setWidth_eq]
      bv_omega
    rw [mem_rowsUp] at hy
    rw [Outside, not_or, ge_iff_le, ge_iff_le, BitVec.not_le, BitVec.not_le] at hinside
    rw [RowTaken, takenFrom, takenCount, hsame]
    exact ⟨hinside.2, ⟨hy, hless, hinside.1⟩, hfrom, hto⟩
  · rintro ⟨hrow, ⟨hy, hless, hin⟩, hfrom, hto⟩
    have hheight := b.height.isLt
    have hplace : y1 + (BitVec.ofNat 32 py - y1) = BitVec.ofNat 32 py := by bv_omega
    have hpy : (BitVec.ofNat 32 py).toNat = py := by
      rw [BitVec.toNat_ofNat, Nat.mod_eq_of_lt (by omega)]
    refine ⟨_, mem_rowsUp.mpr hy, _, mem_rowRun.mpr ⟨hless, rfl⟩, ?_, ?_, hfrom, hto⟩
    · rw [Outside, not_or, ge_iff_le, ge_iff_le, BitVec.not_le, BitVec.not_le, hplace]
      refine ⟨hin, ?_⟩
      rw [BitVec.lt_def, hpy]
      exact hrow
    · rw [hplace, hpy]

/-- And what is to be filled of it is what its corners leave. -/
theorem inRounded_iff :
    b.InRounded x1 y1 x2 y2 corners px py ↔
      py < b.height.toNat ∧ (y1.toInt ≤ py ∧ py < y2.toInt) ∧
        max 0 (rowFrom x1 y1 y2 corners py) ≤ px ∧ px < b.rowTo y1 x2 y2 corners py := by
  constructor
  · rintro ⟨hrow, htop, hbottom, hleft, hright⟩
    exact ⟨hrow, ⟨htop, hbottom⟩, by omega, hright⟩
  · rintro ⟨hrow, ⟨htop, hbottom⟩, hleft, hright⟩
    exact ⟨hrow, htop, hbottom, by omega, hright⟩

/-- Two runs of natural numbers are the same if both are empty or they have
the same bounds. -/
theorem run_iff {P : Prop} (Q : Prop) (first : ℕ) {count : ℕ} {start : ℤ} (finish : ℤ)
    (hcount : P → 0 < count) (hstart : 0 ≤ start) :
    (∀ i : ℕ, P ∧ first ≤ i ∧ i < first + count ↔ Q ∧ start ≤ i ∧ i < finish) ↔
      (Q ∧ start < finish → P ∧ (first : ℤ) = start ∧ (first + count : ℤ) = finish) ∧
        (¬(Q ∧ start < finish) → ¬P) := by
  constructor
  · intro h
    constructor
    · intro hsome
      obtain ⟨hP, hfrom, -⟩ := (h start.toNat).mpr ⟨hsome.1, by omega, by omega⟩
      obtain ⟨-, -, hto⟩ := (h (finish - 1).toNat).mpr ⟨hsome.1, by omega, by omega⟩
      have hpos := hcount hP
      obtain ⟨-, hfrom', -⟩ := (h first).mp ⟨hP, by omega, by omega⟩
      obtain ⟨-, -, hto'⟩ := (h (first + count - 1)).mp ⟨hP, by omega, by omega⟩
      exact ⟨hP, by omega, by omega⟩
    · intro hnone hP
      have hpos := hcount hP
      obtain ⟨hQ, hfrom, hto⟩ := (h first).mp ⟨hP, by omega, by omega⟩
      exact hnone ⟨hQ, by omega⟩
  · rintro ⟨hsome, hnone⟩ i
    constructor
    · rintro ⟨hP, hfrom, hto⟩
      by_cases hwanted : Q ∧ start < finish
      · obtain ⟨-, hfirst, hlast⟩ := hsome hwanted
        exact ⟨hwanted.1, by omega, by omega⟩
      · exact absurd hP (hnone hwanted)
    · rintro ⟨hQ, hfrom, hto⟩
      obtain ⟨hP, hfirst, hlast⟩ := hsome ⟨hQ, by omega⟩
      exact ⟨hP, by omega, by omega⟩

/-- **What is set is what is to be filled exactly where each row fits.** -/
theorem plotted_iff_inRounded :
    (∀ px py, b.Plotted x1 y1 x2 y2 corners px py ↔ b.InRounded x1 y1 x2 y2 corners px py) ↔
      ∀ py < b.height.toNat, b.RowFits x1 y1 x2 y2 corners py := by
  have hrow (py : ℕ) (hpy : py < b.height.toNat) :
      (∀ px, b.Plotted x1 y1 x2 y2 corners px py ↔ b.InRounded x1 y1 x2 y2 corners px py) ↔
        b.RowFits x1 y1 x2 y2 corners py := by
    have hruns := run_iff (y1.toInt ≤ py ∧ py < y2.toInt) (takenFrom x1 y1 y2 corners py)
      (b.rowTo y1 x2 y2 corners py)
      (fun h : b.RowTaken x1 y1 x2 y2 corners py => takenCount_pos h)
      (Int.le_max_left 0 (rowFrom x1 y1 y2 corners py))
    simp only [plotted_iff, inRounded_iff, hpy, true_and]
    refine hruns.trans ?_
    by_cases hwanted : b.RowWanted x1 y1 x2 y2 corners py
    · have htaken := taken_row_iff hpy hwanted
      have hwanted' := and_assoc.mpr hwanted
      exact ⟨fun h => htaken.mp (h.1 hwanted'),
        fun h => ⟨fun _ => htaken.mpr h, fun hnot => absurd hwanted' hnot⟩⟩
    · have hwanted' : ¬((y1.toInt ≤ py ∧ py < y2.toInt) ∧
          max 0 (rowFrom x1 y1 y2 corners py) < b.rowTo y1 x2 y2 corners py) :=
        fun h => hwanted (and_assoc.mp h)
      rw [RowFits, if_neg hwanted]
      exact ⟨fun h => h.2 hwanted', fun h => ⟨fun hin => absurd hin hwanted', fun _ => h⟩⟩
  constructor
  · intro h py hpy
    exact (hrow py hpy).mp fun px => h px py
  · intro h px py
    by_cases hpy : py < b.height.toNat
    · exact (hrow py hpy).mpr (h py hpy) px
    · rw [plotted_iff, inRounded_iff]
      exact iff_of_false (fun hin => hpy hin.1) (fun hin => hpy hin.1)

/-! ## What is drawn -/

variable {startX startY width height : BitVec 32}

/-- A pixel is of a row's run, if `set` takes it. -/
def InRow (b : Buffer) (startX startY width height : BitVec 32) (corners : Corners)
    (y x' y' : BitVec 32) : Prop :=
  ∃ run ∈ b.rowRun startX width height corners y,
    ¬b.Outside run.1 (startY + y) ∧ InRun run.1 (startY + y) run.2 x' y'

/-- A row whose run ends in the buffer is drawn. -/
theorem drawRow_eq (hread : b.ReadsBack has128Bit) {y : BitVec 32}
    (hin : ∀ run ∈ b.rowRun startX width height corners y, ¬b.Outside run.1 (startY + y) →
      run.1.toNat + run.2.toNat ≤ b.width.toNat) (memory : Memory) :
    ∃ memory', b.drawRow has128Bit memory startX startY width height colour corners y = some memory' ∧
      (∀ x' y', b.InRow startX startY width height corners y x' y' →
        b.get memory' x' y' = reduce b.format colour) ∧
      ∀ x' y', ¬b.InRow startX startY width height corners y x' y' →
        b.get memory' x' y' = b.get memory x' y' := by
  unfold drawRow InRow
  cases hrun : b.rowRun startX width height corners y with
  | none =>
    refine ⟨memory, rfl, fun x' y' h => ?_, fun _ _ _ => rfl⟩
    obtain ⟨run, hmem, -⟩ := h
    exact absurd hmem (Option.not_mem_none run)
  | some run =>
    have hmem : run ∈ some run := rfl
    by_cases houtside : b.Outside run.1 (startY + y)
    · refine ⟨memory, if_pos houtside, fun x' y' h => ?_, fun _ _ _ => rfl⟩
      obtain ⟨run', hmem', hinside, -⟩ := h
      obtain rfl := Option.some.inj hmem'
      exact absurd houtside hinside
    · have hinside := houtside
      rw [Outside, not_or, ge_iff_le, ge_iff_le, BitVec.not_le, BitVec.not_le] at hinside
      obtain ⟨memory', hset, hdrawn, hkept, -⟩ := hread.run memory run.1 (startY + y) colour run.2
        hinside.1 hinside.2 (hin run hrun houtside)
      refine ⟨memory', hset, fun x' y' h => ?_, fun x' y' h => ?_⟩
      · obtain ⟨run', hmem', -, hin'⟩ := h
        obtain rfl := Option.some.inj hmem'
        exact hdrawn x' y' hin'
      · exact hkept x' y' fun hin' => h ⟨run, hmem, houtside, hin'⟩

variable (colour) in
/-- **Rows whose runs end in the buffer are drawn.** -/
theorem foldlM_drawRow (hread : b.ReadsBack has128Bit) {rows : List (BitVec 32)}
    (hin : ∀ y ∈ rows, ∀ run ∈ b.rowRun startX width height corners y,
      ¬b.Outside run.1 (startY + y) → run.1.toNat + run.2.toNat ≤ b.width.toNat)
    (memory : Memory) :
    ∃ memory', rows.foldlM (fun memory y =>
          b.drawRow has128Bit memory startX startY width height colour corners y) memory
          = some memory' ∧
      (∀ x' y', (∃ y ∈ rows, b.InRow startX startY width height corners y x' y') →
        b.get memory' x' y' = reduce b.format colour) ∧
      ∀ x' y', (¬∃ y ∈ rows, b.InRow startX startY width height corners y x' y') →
        b.get memory' x' y' = b.get memory x' y' := by
  induction rows generalizing memory with
  | nil =>
    refine ⟨memory, rfl, fun x' y' h => ?_, fun _ _ _ => rfl⟩
    obtain ⟨y, hy, -⟩ := h
    exact absurd hy List.not_mem_nil
  | cons y rows ih =>
    obtain ⟨memory₁, hset, hdrawn, hkept⟩ := drawRow_eq hread (hin y List.mem_cons_self) memory
    obtain ⟨memory', hfold, hdrawn', hkept'⟩ :=
      ih (fun y' hy' => hin y' (List.mem_cons_of_mem _ hy')) memory₁
    refine ⟨memory', ?_, ?_, ?_⟩
    · rw [List.foldlM_cons]
      exact (congrArg (· >>= _) hset).trans hfold
    · rintro x' y' ⟨y'', hy'', hrow⟩
      by_cases hlater : ∃ y ∈ rows, b.InRow startX startY width height corners y x' y'
      · exact hdrawn' x' y' hlater
      · rw [hkept' x' y' hlater]
        rcases List.mem_cons.mp hy'' with rfl | hy''
        · exact hdrawn x' y' hrow
        · exact absurd ⟨y'', hy'', hrow⟩ hlater
    · intro x' y' h
      have hlater : ¬∃ y ∈ rows, b.InRow startX startY width height corners y x' y' := by
        rintro ⟨y'', hy'', hrow⟩
        exact h ⟨y'', List.mem_cons_of_mem _ hy'', hrow⟩
      rw [hkept' x' y' hlater]
      exact hkept x' y' fun hrow => h ⟨y, List.mem_cons_self, hrow⟩

/-- What is plotted is of a row's run. -/
theorem plotted_iff_inRow {x y : BitVec 32} :
    b.Plotted x1 y1 x2 y2 corners x.toNat y.toNat ↔
      ∃ y' ∈ rowsUp (b.clippedHeight y1 (y2 - y1)),
        b.InRow x1 y1 (x2 - x1) (y2 - y1) corners y' x y := by
  constructor
  · rintro ⟨y', hy', run, hrun, hinside, hrow, hfrom, hto⟩
    exact ⟨y', hy', run, hrun, hinside, BitVec.eq_of_toNat_eq hrow, hfrom, hto⟩
  · rintro ⟨y', hy', run, hrun, hinside, hrow, hfrom, hto⟩
    exact ⟨y', hy', run, hrun, hinside, congrArg BitVec.toNat hrow, hfrom, hto⟩

/-! ## The result -/

/-- **A rectangle is filled exactly where each row of the buffer fits.** -/
theorem fillsRounded_iff (b : Buffer) (has128Bit : Bool) (x1 y1 x2 y2 colour : BitVec 32)
    (corners : Corners) :
    b.FillsRounded has128Bit x1 y1 x2 y2 colour corners ↔
      ∀ py < b.height.toNat, b.RowFits x1 y1 x2 y2 corners py := by
  refine ⟨fun h => plotted_iff_inRounded.mp h.plotted, fun h => ?_⟩
  have hplotted := plotted_iff_inRounded.mpr h
  refine ⟨hplotted, fun hread memory => ?_⟩
  have hin (y : BitVec 32) (hy : y ∈ rowsUp (b.clippedHeight y1 (y2 - y1)))
      (run : BitVec 32 × BitVec 32) (hrun : run ∈ b.rowRun x1 (x2 - x1) (y2 - y1) corners y)
      (hinside : ¬b.Outside run.1 (y1 + y)) : run.1.toNat + run.2.toNat ≤ b.width.toNat := by
    -- its last pixel is to be filled
    have hpos : 0 < run.2.toNat := by
      obtain ⟨hless, rfl⟩ := mem_rowRun.mp hrun
      have hsub := toNat_sub_of_slt hless
      rw [slt_iff] at hless
      dsimp only
      omega
    have hlast := (hplotted (run.1.toNat + run.2.toNat - 1) _).mp
      ⟨y, hy, run, hrun, hinside, rfl, by omega, by omega⟩
    have hright := hlast.right
    rw [rowTo] at hright
    omega
  obtain ⟨memory', hfold, hdrawn, hkept⟩ := foldlM_drawRow colour hread hin memory
  refine ⟨memory', hfold, fun x y hfill => ?_, fun x y hfill => ?_⟩
  · exact hdrawn x y (plotted_iff_inRow.mp ((hplotted _ _).mpr hfill))
  · exact hkept x y fun hrow => hfill ((hplotted _ _).mp (plotted_iff_inRow.mpr hrow))

/-- A row that is visited is one of the rectangle, if its heights are what an
`I32` holds. -/
theorem inside_of_visited (hheight : b.height.toNat < 2 ^ 31) (hy : y1.toInt ≤ y2.toInt)
    (hy' : y2.toInt - y1.toInt < 2 ^ 31) (hrow : py < b.height.toNat)
    (hvisited : BitVec.ofNat 32 py - y1 < b.clippedHeight y1 (y2 - y1)) :
    y1.toInt ≤ py ∧ py < y2.toInt := by
  have hend : y1 + (y2 - y1) = y2 := by bv_omega
  have hmax := toInt_maxI 0 (minI y2 b.height - y1)
  have hsub := toInt_sub (minI y2 b.height) y1
  have hheight' := BitVec.toInt_eq_toNat_cond b.height
  have hy1 := BitVec.le_toInt y1
  have hy2 : y2.toInt < 2 ^ 31 := BitVec.toInt_lt
  have hcount := toNat_sub_toInt y1 (.ofNat 32 py)
  have hzero : (0 : BitVec 32).toInt = 0 := rfl
  have hpy : (BitVec.ofNat 32 py).toNat = py := by
    rw [BitVec.toNat_ofNat, Nat.mod_eq_of_lt (by omega)]
  rw [if_pos (by omega)] at hheight'
  rw [toInt_minI, hheight'] at hsub
  rw [hpy] at hcount
  rw [clippedHeight, hend, BitVec.lt_def] at hvisited
  generalize minI y2 b.height - y1 = difference at hmax hsub hvisited
  have hclipped := BitVec.toInt_eq_toNat_cond (maxI 0 difference)
  generalize maxI 0 difference = clipped at hmax hclipped hvisited
  have hlt := clipped.isLt
  have hy1' : y1.toInt < 2 ^ 31 := BitVec.toInt_lt
  generalize (BitVec.ofNat 32 py - y1).toNat = y at hcount hvisited
  rw [hzero] at hmax
  split at hclipped <;> omega

/-- **Of sizes that an `I32` holds** it is the rows that begin to the left of
the buffer that do not fit. -/
theorem rowFits_iff_of_lt (hwidth : b.width.toNat < 2 ^ 31) (hheight : b.height.toNat < 2 ^ 31)
    (hx : x1.toInt ≤ x2.toInt) (hx' : x2.toInt - x1.toInt < 2 ^ 31) (hy : y1.toInt ≤ y2.toInt)
    (hy' : y2.toInt - y1.toInt < 2 ^ 31)
    (hleft : ∀ i, corners.leftCut (y2.toInt - y1.toInt).toNat i ≤ x2.toInt - x1.toInt)
    (hright : ∀ i, corners.rightCut (y2.toInt - y1.toInt).toNat i ≤ x2.toInt - x1.toInt)
    (hrow : py < b.height.toNat) :
    b.RowFits x1 y1 x2 y2 corners py ↔
      (b.RowWanted x1 y1 x2 y2 corners py → 0 ≤ rowFrom x1 y1 y2 corners py) := by
  have hx1 := BitVec.le_toInt x1
  have hy1 := BitVec.le_toInt y1
  have hcut := hright (py - y1.toInt).toNat
  by_cases hwanted : b.RowWanted x1 y1 x2 y2 corners py
  · rw [RowFits, if_pos hwanted, if_pos hheight]
    refine ⟨fun h _ => h.1, fun h => ⟨h hwanted, hwidth, Or.inl ?_, ?_⟩⟩
    · rw [rowTo]
      omega
    · omega
  · rw [RowFits, if_neg hwanted]
    refine iff_of_true (fun htaken => hwanted ?_) (fun h => absurd h hwanted)
    obtain ⟨hvisited, hless, hin⟩ := htaken
    have hinside : y1.toInt ≤ py ∧ py < y2.toInt := inside_of_visited hheight hy hy' hrow hvisited
    have hcutl := hleft (py - y1.toInt).toNat
    have hL := toNat_rowLeft corners hinside.1 hinside.2
    obtain ⟨cut, hR, hcutr⟩ := add_rowRight x1 x2 corners hinside.1 hinside.2
    rw [hR, slt_iff] at hless
    refine ⟨hinside.1, hinside.2, ?_⟩
    rw [rowFrom, rowTo, ← hL, ← hcutr]
    rw [← hL] at hcutl
    rw [← hcutr] at hcut
    generalize rowLeft (y2 - y1) corners (BitVec.ofNat 32 py - y1) = left at *
    have hx2 : x2.toInt < 2 ^ 31 := BitVec.toInt_lt
    have hfinish := toInt_sub_toNat (v := x2) (w := cut) (by omega) (by omega)
    have hsub := toInt_sub (minI (x2 - cut) b.width) x1
    have hwidth' := BitVec.toInt_eq_toNat_cond b.width
    rw [if_pos (by omega)] at hwidth'
    rw [toInt_minI, hfinish, hwidth'] at hsub
    have hfirst := toNat_add_toInt x1 left
    have hleft' := BitVec.toInt_eq_toNat_cond left
    rw [BitVec.lt_def] at hin
    rw [if_pos (by omega)] at hleft'
    generalize minI (x2 - cut) b.width - x1 = right at *
    generalize (x1 + left).toNat = first at *
    omega

/-- Two pixels by one. -/
def sideBySide : Buffer := ⟨.grey8, .argb, 16, 2, 2, 1⟩

/-- A rectangle that begins to the left of them is not filled. -/
theorem not_fillsRounded_left :
    ¬sideBySide.FillsRounded false (-1) 0 1 1 0 ⟨none, none, none, none⟩ :=
  fun h => absurd (plotted_iff_inRounded.mp h.plotted 0 (by decide)) (by decide)

end Buffer

end Graphics2d

end Uberos
