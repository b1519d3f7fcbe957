import Mathlib.Algebra.Group.Nat.Defs
import Uberos.Library.Words
import Uberos.Library.Stores
/-!
# Scrolling the console

`Textmode::scroll_region` of `drivers/Textmode.cpp`, which moves the cells of a
region in place: from the side that they are moved to, so that each is read
before it is written over.
-/

namespace Uberos

open Library Library.Signed

namespace Textmode

/-- What `get_char`, `get_char_foreground` and `get_char_background` read. -/
structure Cell where
  char : BitVec 8
  foreground : BitVec 32
  background : BitVec 32
  deriving DecidableEq, Repr

/-- The cells, by row and column. -/
abbrev Screen := BitVec 32 × BitVec 32 → Cell

/-- `for(I32 i=dir>=0?start:finish-1;dir>=0?i<finish:i>=start;i+=dir)` -/
def scan (start finish : BitVec 32) (upwards : Bool) : List (BitVec 32) :=
  let indices := (List.range (finish.toInt - start.toInt).toNat).map fun k =>
    start + BitVec.ofNat 32 k
  if upwards then indices else indices.reverse

/-- The arguments of `scroll_region`. -/
structure ScrollRegion where
  startRow : BitVec 32
  startCol : BitVec 32
  rows : BitVec 32
  cols : BitVec 32
  scrollRows : BitVec 32
  scrollCols : BitVec 32
  fill : Cell

namespace ScrollRegion

variable (call : ScrollRegion)

def endRow : BitVec 32 := call.startRow + call.rows

def endCol : BitVec 32 := call.startCol + call.cols

/-- What `set_char` is called with for a cell. -/
def value (screen : Screen) (cell : BitVec 32 × BitVec 32) : Cell :=
  let oldRow := cell.1 - call.scrollRows
  let oldCol := cell.2 - call.scrollCols
  if oldCol.slt call.startCol ∨ oldRow.slt call.startRow ∨ call.endCol.sle oldCol ∨
      call.endRow.sle oldRow then call.fill
  else screen (oldRow, oldCol)

/-- The cells, in the order of the loops. -/
def cells : List (BitVec 32 × BitVec 32) :=
  (scan call.startRow call.endRow (call.scrollRows.sle 0)).flatMap fun row =>
    (scan call.startCol call.endCol (call.scrollCols.sle 0)).map fun col => (row, col)

/-- **`scroll_region`.** -/
def scrollRegion (screen : Screen) : Screen := inPlace call.value screen call.cells

end ScrollRegion

/-- `scroll`, of the whole screen. -/
def scroll (rows cols scrollRows scrollCols : BitVec 32) (fill : Cell) (screen : Screen) : Screen :=
  (ScrollRegion.mk 0 0 rows cols scrollRows scrollCols fill).scrollRegion screen

namespace ScrollRegion

variable (call : ScrollRegion)

/-! ## What it is for -/

/-- The region is inside a screen of less than `2 ^ 31` rows and columns. -/
structure Inside (screenRows screenCols : ℕ) : Prop where
  rows_le : call.startRow.toNat + call.rows.toNat ≤ screenRows
  cols_le : call.startCol.toNat + call.cols.toNat ≤ screenCols
  screenRows_lt : screenRows < 2 ^ 31
  screenCols_lt : screenCols < 2 ^ 31

/-- A cell, by row and column, is of the region. -/
def Holds (row col : ℤ) : Prop :=
  (call.startRow.toNat ≤ row ∧ row < call.startRow.toNat + call.rows.toNat) ∧
    call.startCol.toNat ≤ col ∧ col < call.startCol.toNat + call.cols.toNat

/-- **A scroll moves the cells of its region**, and blanks those that nothing
is moved to. -/
structure Scrolls (screen : Screen) : Prop where
  moves : ∀ row col oldRow oldCol : BitVec 32, call.Holds row.toNat col.toNat →
    call.Holds oldRow.toNat oldCol.toNat →
    (oldRow.toNat : ℤ) = row.toNat - call.scrollRows.toInt →
    (oldCol.toNat : ℤ) = col.toNat - call.scrollCols.toInt →
    call.scrollRegion screen (row, col) = screen (oldRow, oldCol)
  fills : ∀ row col : BitVec 32, call.Holds row.toNat col.toNat →
    ¬call.Holds (row.toNat - call.scrollRows.toInt) (col.toNat - call.scrollCols.toInt) →
    call.scrollRegion screen (row, col) = call.fill
  keeps : ∀ row col : BitVec 32, ¬call.Holds row.toNat col.toNat →
    call.scrollRegion screen (row, col) = screen (row, col)

end ScrollRegion

/-! ## The loops -/

variable {start count i j shift : BitVec 32} {upwards : Bool} {m n : ℕ}

/-- A range of numbers below `2 ^ 31` has an end that is not negative. -/
theorem toInt_finish (h : start.toNat + count.toNat < 2 ^ 31) :
    start.toInt = start.toNat ∧ (start + count).toInt = start.toNat + count.toNat := by
  have hadd : (start + count).toNat = start.toNat + count.toNat := by
    rw [BitVec.toNat_add, Nat.mod_eq_of_lt (by omega)]
  constructor
  · rw [BitVec.toInt_eq_toNat_cond, if_pos (by omega)]
  · rw [BitVec.toInt_eq_toNat_cond, hadd, if_pos (by omega)]
    omega

theorem length_range_scan (h : start.toNat + count.toNat < 2 ^ 31) :
    ((start + count).toInt - start.toInt).toNat = count.toNat := by
  have hfinish := toInt_finish h
  omega

theorem toNat_index {k : ℕ} (h : start.toNat + count.toNat < 2 ^ 31) (hk : k < count.toNat) :
    (start + BitVec.ofNat 32 k).toNat = start.toNat + k := by
  rw [BitVec.toNat_add, BitVec.toNat_ofNat, Nat.add_mod_mod, Nat.mod_eq_of_lt (by omega)]

variable (i upwards) in
/-- A scan is of all of its range. -/
theorem mem_scan (h : start.toNat + count.toNat < 2 ^ 31) :
    i ∈ scan start (start + count) upwards ↔
      start.toNat ≤ i.toNat ∧ i.toNat < start.toNat + count.toNat := by
  have hindices : i ∈ (List.range count.toNat).map (fun k => start + BitVec.ofNat 32 k) ↔
      start.toNat ≤ i.toNat ∧ i.toNat < start.toNat + count.toNat := by
    rw [List.mem_map]
    constructor
    · rintro ⟨k, hk, rfl⟩
      rw [toNat_index h (List.mem_range.mp hk)]
      have hlt := List.mem_range.mp hk
      omega
    · rintro ⟨hfrom, hto⟩
      have hk : i.toNat - start.toNat < count.toNat := by omega
      refine ⟨i.toNat - start.toNat, List.mem_range.mpr hk, BitVec.eq_of_toNat_eq ?_⟩
      rw [toNat_index h hk]
      omega
  rw [scan, length_range_scan h]
  cases upwards
  · exact List.mem_reverse.trans hindices
  · exact hindices

/-- It goes one way. -/
theorem pairwise_scan (h : start.toNat + count.toNat < 2 ^ 31) :
    (scan start (start + count) upwards).Pairwise fun i j =>
      if upwards then i.toNat < j.toNat else j.toNat < i.toNat := by
  have hindices : ((List.range count.toNat).map fun k => start + BitVec.ofNat 32 k).Pairwise
      fun i j => i.toNat < j.toNat := by
    rw [List.pairwise_map]
    refine List.Pairwise.imp_of_mem (fun hk hl hlt => ?_) List.pairwise_lt_range
    rw [toNat_index h (List.mem_range.mp hk), toNat_index h (List.mem_range.mp hl)]
    omega
  rw [scan, length_range_scan h]
  cases upwards
  · exact List.pairwise_reverse.mpr hindices
  · exact hindices

/-- What an index is moved from is in its range or not, as numbers are. -/
theorem moved_iff (h : start.toNat + count.toNat < 2 ^ 31) (hi : i.toNat < 2 ^ 31) :
    (¬(i - shift).slt start ∧ ¬(start + count).sle (i - shift)) ↔
      (start.toNat : ℤ) ≤ i.toNat - shift.toInt ∧
        (i.toNat : ℤ) - shift.toInt < start.toNat + count.toNat := by
  have hfinish := toInt_finish h
  have hint : i.toInt = i.toNat := by rw [BitVec.toInt_eq_toNat_cond, if_pos (by omega)]
  have hlt : shift.toInt < 2 ^ 31 := BitVec.toInt_lt
  have hge := BitVec.le_toInt shift
  rw [slt_iff, sle_iff, hfinish.1, hfinish.2]
  -- a difference that wraps is negative, and none that does not is as large
  rcases toInt_sub i shift with ⟨hsub, -, -⟩ | ⟨hsub, hlarge⟩ | ⟨hsub, hsmall⟩
  · omega
  · omega
  · omega

/-- It is that index. -/
theorem eq_sub_of_toNat (h : (j.toNat : ℤ) = i.toNat - shift.toInt) : i - shift = j := by
  have hsub := toNat_sub_toInt shift i
  have hlt := j.isLt
  exact BitVec.eq_of_toNat_eq (by omega)

/-- **Nothing is moved from an index that comes before it.** -/
theorem pairwise_scan_unread (h : start.toNat + count.toNat < 2 ^ 31) :
    (scan start (start + count) (shift.sle 0)).Pairwise fun i j =>
      i ≠ j ∧ (¬(j - shift).slt start ∧ ¬(start + count).sle (j - shift) → j - shift ≠ i) := by
  refine List.Pairwise.imp_of_mem (fun {i j} _ hj hlt => ?_) (pairwise_scan h)
  have hj' := (mem_scan j _ h).mp hj
  have hzero : shift.sle 0 ↔ shift.toInt ≤ 0 := sle_iff shift 0
  have hne : i.toNat ≠ j.toNat := by split at hlt <;> omega
  refine ⟨fun heq => hne (congrArg BitVec.toNat heq), fun hmoved heq => ?_⟩
  rw [moved_iff h (by omega)] at hmoved
  have hsub := toNat_sub_toInt shift j
  rw [heq, Int.emod_eq_of_lt (by omega) (by omega)] at hsub
  split at hlt
  · next hup =>
    have hle := hzero.mp hup
    omega
  · next hdown =>
    have hgt : ¬shift.toInt ≤ 0 := fun hle => hdown (hzero.mpr hle)
    omega

/-! ## The cells -/

namespace ScrollRegion

variable {call : ScrollRegion} {screen : Screen} {row col oldRow oldCol : BitVec 32}

/-- What a cell is moved from is in the region. -/
theorem value_of_moved
    (hrow : ¬(row - call.scrollRows).slt call.startRow ∧ ¬call.endRow.sle (row - call.scrollRows))
    (hcol : ¬(col - call.scrollCols).slt call.startCol ∧ ¬call.endCol.sle (col - call.scrollCols)) :
    call.value screen (row, col) = screen (row - call.scrollRows, col - call.scrollCols) :=
  if_neg (by
    rintro (h | h | h | h)
    · exact hcol.1 h
    · exact hrow.1 h
    · exact hcol.2 h
    · exact hrow.2 h)

theorem value_of_not_moved
    (h : ¬((¬(row - call.scrollRows).slt call.startRow ∧ ¬call.endRow.sle (row - call.scrollRows)) ∧
      ¬(col - call.scrollCols).slt call.startCol ∧ ¬call.endCol.sle (col - call.scrollCols))) :
    call.value screen (row, col) = call.fill := by
  refine if_pos ?_
  by_contra hnot
  rw [not_or, not_or, not_or] at hnot
  exact h ⟨⟨hnot.2.1, hnot.2.2.2⟩, hnot.1, hnot.2.2.1⟩

/-- A cell that nothing is moved from is not read. -/
theorem value_update {key : BitVec 32 × BitVec 32} {x : Cell}
    (h : (¬(row - call.scrollRows).slt call.startRow ∧ ¬call.endRow.sle (row - call.scrollRows)) →
      (¬(col - call.scrollCols).slt call.startCol ∧ ¬call.endCol.sle (col - call.scrollCols)) →
        (row - call.scrollRows, col - call.scrollCols) ≠ key) :
    call.value (Function.update screen key x) (row, col) = call.value screen (row, col) := by
  by_cases hmoved :
      (¬(row - call.scrollRows).slt call.startRow ∧ ¬call.endRow.sle (row - call.scrollRows)) ∧
        ¬(col - call.scrollCols).slt call.startCol ∧ ¬call.endCol.sle (col - call.scrollCols)
  · rw [value_of_moved hmoved.1 hmoved.2, value_of_moved hmoved.1 hmoved.2,
      Function.update_of_ne (h hmoved.1 hmoved.2)]
  · rw [value_of_not_moved hmoved, value_of_not_moved hmoved]

variable {screenRows screenCols : ℕ}

theorem mem_cells (h : call.Inside screenRows screenCols) :
    (row, col) ∈ call.cells ↔ call.Holds row.toNat col.toNat := by
  have hrows := mem_scan row (call.scrollRows.sle 0)
    (Nat.lt_of_le_of_lt h.rows_le h.screenRows_lt)
  have hcols := mem_scan col (call.scrollCols.sle 0)
    (Nat.lt_of_le_of_lt h.cols_le h.screenCols_lt)
  rw [cells, List.mem_flatMap]
  unfold Holds
  constructor
  · rintro ⟨r, hr, hmem⟩
    obtain ⟨c, hc, heq⟩ := List.mem_map.mp hmem
    obtain ⟨rfl, rfl⟩ := Prod.mk.inj heq
    have hr' := hrows.mp hr
    have hc' := hcols.mp hc
    omega
  · intro hholds
    exact ⟨row, hrows.mpr (by omega), List.mem_map.mpr ⟨col, hcols.mpr (by omega), rfl⟩⟩

/-- **No cell is read after it has been written over.** -/
theorem pairwise_cells (h : call.Inside screenRows screenCols) :
    call.cells.Pairwise fun key later => key ≠ later ∧
      ∀ screen x, call.value (Function.update screen key x) later = call.value screen later := by
  refine List.pairwise_flatMap.mpr ⟨fun row _ => ?_, ?_⟩
  · refine List.pairwise_map.mpr ((pairwise_scan_unread
      (Nat.lt_of_le_of_lt h.cols_le h.screenCols_lt)).imp fun {col later} hcols => ?_)
    refine ⟨fun heq => hcols.1 (Prod.mk.inj heq).2,
      fun screen x => value_update fun _ hmoved heq => ?_⟩
    exact hcols.2 hmoved (Prod.mk.inj heq).2
  · refine (pairwise_scan_unread (Nat.lt_of_le_of_lt h.rows_le h.screenRows_lt)).imp
      fun {row later} hrows key hkey cell hcell => ?_
    obtain ⟨col, -, rfl⟩ := List.mem_map.mp hkey
    obtain ⟨col', -, rfl⟩ := List.mem_map.mp hcell
    refine ⟨fun heq => hrows.1 (Prod.mk.inj heq).1,
      fun screen x => value_update fun hmoved _ heq => ?_⟩
    exact hrows.2 hmoved (Prod.mk.inj heq).1

/-- **A region that is scrolled in place** is as if it were scrolled at once. -/
theorem scrolls_of_inside (screen : Screen) (h : call.Inside screenRows screenCols) :
    call.Scrolls screen := by
  have hrows := Nat.lt_of_le_of_lt h.rows_le h.screenRows_lt
  have hcols := Nat.lt_of_le_of_lt h.cols_le h.screenCols_lt
  have hcell (row col : BitVec 32) (hholds : call.Holds row.toNat col.toNat) :
      call.scrollRegion screen (row, col) = call.value screen (row, col) :=
    inPlace_of_mem (pairwise_cells h) ((mem_cells h).mpr hholds)
  have hmoved (row col : BitVec 32) (hholds : call.Holds row.toNat col.toNat) :
      ((¬(row - call.scrollRows).slt call.startRow ∧ ¬call.endRow.sle (row - call.scrollRows)) ∧
        ¬(col - call.scrollCols).slt call.startCol ∧ ¬call.endCol.sle (col - call.scrollCols)) ↔
      call.Holds (row.toNat - call.scrollRows.toInt) (col.toNat - call.scrollCols.toInt) := by
    obtain ⟨⟨-, hrow⟩, -, hcol⟩ := hholds
    exact and_congr (moved_iff hrows (by omega)) (moved_iff hcols (by omega))
  refine ⟨fun row col oldRow oldCol hholds hold hrow hcol => ?_, fun row col hholds hnot => ?_,
    fun row col hnot => ?_⟩
  · rw [hrow, hcol] at hold
    obtain ⟨hmovedRow, hmovedCol⟩ := (hmoved row col hholds).mpr hold
    rw [hcell row col hholds, value_of_moved hmovedRow hmovedCol, eq_sub_of_toNat hrow,
      eq_sub_of_toNat hcol]
  · rw [hcell row col hholds, value_of_not_moved fun hm => hnot ((hmoved row col hholds).mp hm)]
  · exact inPlace_of_not_mem fun hmem => hnot ((mem_cells h).mp hmem)

/-- A screen of characters by their column. -/
def columns : Screen := fun cell => ⟨cell.2.setWidth 8, 7, 0⟩

/-- One to the right and two down, in a region at the end of a screen. -/
theorem scrolls_diagonal : (ScrollRegion.mk 20 70 5 10 2 1 ⟨32, 7, 0⟩).Scrolls columns :=
  scrolls_of_inside columns
    (show Inside _ 25 80 from ⟨by decide, by decide, by decide, by decide⟩)

end ScrollRegion

end Textmode

end Uberos
