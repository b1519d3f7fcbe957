import Uberos.DisplayManager.Background
import Uberos.Graphics2d.Buffer
import Uberos.Library.Stores
/-!
# Blitting a display

`_update_display_area_solid` and `__update_display_solid_area`, which copy
the bytes of a display's pixels to the framebuffers. A copy is a pair of
offsets from the `address` of either buffer. Coordinates and offsets do
not wrap, but for those that are made unsigned.
-/

namespace Uberos

open Library ShapedDisplay

/-- `graphics2d::Buffer`, with its bytes by offset. -/
structure Buffer where
  format : BufferFormat
  stride : ℕ
  bytes : ℤ → UInt8

/-- A framebuffer with a buffer. A row of the buffer has the pixels of a
row of the area. -/
structure ScreenBuffer where
  area : Rect
  buffer : Buffer
  rows : (area.x2 - area.x1) * buffer.format.size ≤ buffer.stride

/-- Bytes are copied to it. -/
def ScreenBuffer.copy (f : ScreenBuffer) (source : Buffer) (copies : List (ℤ × ℤ)) :
    ScreenBuffer :=
  { f with buffer.bytes := perform source.bytes copies f.buffer.bytes }

/-- A display with the buffer of its pixels. Its size is that of a
`U32`. -/
structure BufferedDisplay (Colour : Type) extends ShapedDisplay Colour where
  viewBuffer : Buffer
  width_lt : toDisplay.getWidth < 4294967296
  height_lt : toDisplay.getHeight < 4294967296

namespace BufferedDisplay

variable {Colour : Type} (d : BufferedDisplay Colour) (above : List (ShapedDisplay Colour))
variable (displayRect : Rect)

/-- What is updated of the display, for a framebuffer there. -/
def blitRect (area : Rect) : Rect :=
  (((displayRect.intersect d.solidArea).offset d.x d.y).intersect area).offset (-d.x) (-d.y)

/-- What the displays above take up of a row of the display. -/
def aboveAreas (y : ℤ) : List (ℤ × ℤ) :=
  (rowAreas above (d.y + y)).map fun area => (area.1 - d.x, area.2 - d.x)

/-- Where a row starts. -/
def rowStart (rect : Rect) (y : ℤ) : ℤ := max rect.x1 (d.getLeftMargin y)

/-- Where a row ends. -/
def rowEnd (rect : Rect) (y : ℤ) : ℤ := min rect.x2 (d.getWidth - d.getRightMargin y)

/-- The runs of a row. -/
def blitRuns (rect : Rect) (y : ℤ) : List (ℤ × ℤ) :=
  scanRow displayNext (d.aboveAreas above y) (d.rowEnd rect y)
    (d.rowEnd rect y - d.rowStart rect y).toNat (d.rowStart rect y)

/-- Where a pixel of the display is in a framebuffer. -/
def targetOffset (f : ScreenBuffer) (x y : ℤ) : ℤ :=
  (d.y + y - f.area.y1) * f.buffer.stride + (d.x + x - f.area.x1) * f.buffer.format.size

/-- What is copied of a run: all at once if it is not scaled, and byte by
byte if it is. -/
def runCopies (f : ScreenBuffer) (y startX endX : ℤ) : List (ℤ × ℤ) :=
  let bpp := f.buffer.format.size
  let target := d.targetOffset f startX y
  if d.scale = 1 then
    let source := y % 4294967296 * d.viewBuffer.stride + startX * bpp
    (List.range ((endX - startX) * bpp).toNat).map fun (i : ℕ) => (target + i, source + i)
  else
    let source := y % 4294967296 / d.scale * d.viewBuffer.stride
    (List.range (endX - startX).toNat).flatMap fun (i : ℕ) =>
      let sourceData := source + (startX + i) % 4294967296 / d.scale * bpp
      (List.range bpp).map fun (k : ℕ) => (target + (i * bpp + k), sourceData + k)

/-- What `__update_display_solid_area` copies to a framebuffer. -/
def copies (f : ScreenBuffer) : List (ℤ × ℤ) :=
  let rect := d.blitRect displayRect f.area
  (List.range (rect.y2 - rect.y1).toNat).flatMap fun (row : ℕ) =>
    let y := rect.y1 + row
    (d.blitRuns above rect y).flatMap fun run => d.runCopies f y run.1 run.2

/-- `__update_display_solid_area`. A framebuffer may have no buffer. -/
def updateDisplaySolidArea (framebuffers : List (Option ScreenBuffer)) :
    List (Option ScreenBuffer) :=
  framebuffers.map (Option.map fun f => f.copy d.viewBuffer (d.copies above displayRect f))

/-- `_update_display_area_solid`, which knows four scales. -/
def updateDisplayAreaSolid (framebuffers : List (Option ScreenBuffer)) :
    List (Option ScreenBuffer) :=
  if d.isVisible = false then framebuffers
  else if 1 ≤ d.scale ∧ d.scale ≤ 4 then
    d.updateDisplaySolidArea above displayRect framebuffers
  else framebuffers

end BufferedDisplay

/-!
## What a blit copies

Every byte that `__update_display_solid_area` copies is of a pixel of a
run, from its place in the display's buffer to its place in the
framebuffer's. Which pixels those are, against the ones that are to be
copied.
-/

open Library ShapedDisplay

namespace BufferedDisplay

variable {Colour : Type} {d : BufferedDisplay Colour} {above : List (ShapedDisplay Colour)}
variable {displayRect : Rect} {f : ScreenBuffer} {x y x' y' startX endX : ℤ} {k k' : ℕ}

section

variable (d above displayRect f)

/-- **The places of the display that no display above covers**, of its
solid area, the rectangle, its margins and the framebuffer. -/
def IsUncovered (x y : ℤ) : Prop :=
  (displayRect.contains x y ∧ d.solidArea.contains x y) ∧ f.area.contains (d.x + x) (d.y + y) ∧
    (d.getLeftMargin y ≤ x ∧ x < d.getWidth - d.getRightMargin y) ∧
    ¬ ∃ other ∈ above, other.Covers (d.x + x) (d.y + y)

/-- **The pixels that are to be copied**: those of them that are in a row
of the display. -/
def IsBlitted (x y : ℤ) : Prop :=
  d.IsUncovered above displayRect f x y ∧ 0 ≤ y ∧ y < d.getHeight

/-- Where a pixel is in the display's buffer. -/
def sourceOffset (x y : ℤ) : ℤ :=
  y / d.scale * d.viewBuffer.stride + x / d.scale * d.viewBuffer.format.size

/-- What is copied to a framebuffer, with a visible display. -/
def solidCopies : List (ℤ × ℤ) :=
  if 1 ≤ d.scale ∧ d.scale ≤ 4 then d.copies above displayRect f else []

/-- **The bytes of these pixels** are copied, and no others. -/
structure CopiesExactly (f' : ScreenBuffer) : Prop where
  copies : ∀ target source, (target, source) ∈ d.solidCopies above displayRect f ↔
    ∃ x y, ∃ k < f.buffer.format.size, d.IsBlitted above displayRect f x y ∧
      target = d.targetOffset f x y + k ∧ source = d.sourceOffset x y + k
  on : ∀ x y, ∀ k < f.buffer.format.size, d.IsBlitted above displayRect f x y →
    f'.buffer.bytes (d.targetOffset f x y + k) = d.viewBuffer.bytes (d.sourceOffset x y + k)
  off : ∀ a, (∀ x y, ∀ k < f.buffer.format.size, d.IsBlitted above displayRect f x y →
    a ≠ d.targetOffset f x y + k) → f'.buffer.bytes a = f.buffer.bytes a

/-- **A visible display is blitted exactly**, to each framebuffer. -/
def BlitsExactly (framebuffers : List (Option ScreenBuffer)) : Prop :=
  d.isVisible = true → List.Forall₂ (Option.Rel fun f f' => d.CopiesExactly above displayRect f f')
    framebuffers (d.updateDisplayAreaSolid above displayRect framebuffers)

/-- **A place that is lost**: the scan of its row ends before it. -/
def LosesPixel (x y : ℤ) : Prop :=
  let rect := d.blitRect displayRect f.area
  DisplayManager.DisplayLoses (d.aboveAreas above y) (d.rowEnd rect y) x
    (d.rowEnd rect y - d.rowStart rect y).toNat (d.rowStart rect y)

/-- **What is done right** at a place: in the display it is not lost, and
its pixel is found in the display's buffer by the framebuffer's format;
outside of it nothing is copied. -/
def CopiesRight (x y : ℤ) : Prop :=
  if 0 ≤ y ∧ y < d.getHeight then
    (1 ≤ d.scale ∧ d.scale ≤ 4) ∧ ¬ d.LosesPixel above displayRect f x y ∧
      (f.buffer.format.size = d.viewBuffer.format.size ∨ x / d.scale = 0)
  else ¬ (1 ≤ d.scale ∧ d.scale ≤ 4) ∨ d.LosesPixel above displayRect f x y

end

instance (x y : ℤ) : Decidable (d.IsUncovered above displayRect f x y) :=
  inferInstanceAs (Decidable ((_ ∧ _) ∧ _ ∧ (_ ∧ _) ∧ _))

instance (x y : ℤ) : Decidable (d.LosesPixel above displayRect f x y) :=
  inferInstanceAs (Decidable (DisplayManager.DisplayLoses _ _ _ _ _))

/-! ## Rows -/

/-- A run of a row is cut to the rectangle and the margins. -/
theorem rowStart_le {rect : Rect} :
    (d.rowStart rect y ≤ x ∧ x < d.rowEnd rect y) ↔
      (rect.x1 ≤ x ∧ x < rect.x2) ∧ d.getLeftMargin y ≤ x ∧ x < d.getWidth - d.getRightMargin y := by
  rw [rowStart, rowEnd, Int.max_le, Int.lt_min]
  omega

theorem taken_aboveAreas : DisplayManager.Taken (d.aboveAreas above y) x ↔
    ∃ other ∈ above, other.Covers (d.x + x) (d.y + y) := by
  rw [← taken_rowAreas]
  constructor
  · rintro ⟨area, harea, hx⟩
    obtain ⟨area, hmem, rfl⟩ := List.mem_map.1 harea
    exact ⟨area, hmem, by dsimp only at hx; omega⟩
  · rintro ⟨area, hmem, hx⟩
    exact ⟨_, List.mem_map.2 ⟨area, hmem, rfl⟩, by dsimp only; omega⟩

/-- **The runs have the uncovered places that are not lost.** -/
theorem painted_blitRuns :
    ((d.blitRect displayRect f.area).y1 ≤ y ∧ y < (d.blitRect displayRect f.area).y2) ∧
        DisplayManager.Painted (d.blitRuns above (d.blitRect displayRect f.area) y) x ↔
      d.IsUncovered above displayRect f x y ∧ ¬ d.LosesPixel above displayRect f x y := by
  have hclip : (d.blitRect displayRect f.area).contains x y ↔
      (displayRect.contains x y ∧ d.solidArea.contains x y) ∧
        f.area.contains (d.x + x) (d.y + y) := by
    rw [blitRect, Rect.contains_clip, Int.add_comm x, Int.add_comm y]
  rw [IsUncovered, LosesPixel, ← and_assoc, ← hclip, ← taken_aboveAreas, blitRuns,
    DisplayManager.painted_display_iff (Nat.le_refl _), rowStart_le, Rect.contains]
  constructor
  · rintro ⟨hy, ⟨⟨hx, hmargin⟩, hfree⟩, hkept⟩
    exact ⟨⟨⟨hx.1, hx.2, hy⟩, hmargin, hfree⟩, hkept⟩
  · rintro ⟨⟨⟨h1, h2, hy⟩, hmargin, hfree⟩, hkept⟩
    exact ⟨hy, ⟨⟨⟨h1, h2⟩, hmargin⟩, hfree⟩, hkept⟩

/-- **Nothing is lost where each display above has something of the
row**, if it has the row at all. -/
theorem not_losesPixel (hplace : d.IsUncovered above displayRect f x y)
    (hwide : ∀ other ∈ above, other.isVisible = true → other.HasRow (d.y + y) →
      other.left (d.y + y) < other.right (d.y + y)) : ¬ d.LosesPixel above displayRect f x y := by
  have hin : (d.blitRect displayRect f.area).contains x y := by
    rw [blitRect, Rect.contains_clip, Int.add_comm x, Int.add_comm y]
    exact ⟨hplace.1, hplace.2.1⟩
  refine DisplayManager.not_displayLoses ?_ (rowStart_le.2 ⟨⟨hin.1, hin.2.1⟩, hplace.2.2.1⟩).2
  intro area harea
  obtain ⟨area, hmem, rfl⟩ := List.mem_map.1 harea
  obtain ⟨other, hother, ⟨hvisible, hrow⟩, rfl⟩ := mem_rowAreas.1 hmem
  have hlt := hwide other hother hvisible hrow
  dsimp only
  omega

/-! ## Bytes -/

/-- The bytes of so many pixels. -/
theorem exists_lt_mul {n bpp : ℕ} {P : ℕ → Prop} :
    (∃ i < n * bpp, P i) ↔ ∃ j < n, ∃ k < bpp, P (j * bpp + k) := by
  constructor
  · rintro ⟨i, hi, h⟩
    have hbpp : 0 < bpp := Nat.pos_of_mul_pos_left (Nat.zero_lt_of_lt hi)
    refine ⟨i / bpp, (Nat.div_lt_iff_lt_mul hbpp).2 hi, i % bpp, Nat.mod_lt i hbpp, ?_⟩
    rw [Nat.div_add_mod']
    exact h
  · rintro ⟨j, hj, k, hk, h⟩
    refine ⟨j * bpp + k, ?_, h⟩
    calc j * bpp + k < j * bpp + bpp := Nat.add_lt_add_left hk _
      _ = (j + 1) * bpp := (Nat.succ_mul j bpp).symm
      _ ≤ n * bpp := Nat.mul_le_mul_right bpp hj

/-- A pixel is so far from the start of its run. -/
theorem targetOffset_add (j : ℤ) : d.targetOffset f (startX + j) y =
    d.targetOffset f startX y + j * f.buffer.format.size := by
  rw [targetOffset, targetOffset, Int.add_assoc, ← Int.add_assoc d.x,
    show d.x + startX + j - f.area.x1 = d.x + startX - f.area.x1 + j by omega,
    Int.add_mul (d.x + startX - f.area.x1)]

/-- The pixels of a run, by how far on they are. -/
theorem exists_run_iff {P : ℤ → Prop} : (∃ j < (endX - startX).toNat, P (startX + (j : ℤ))) ↔
    ∃ x, (startX ≤ x ∧ x < endX) ∧ P x := by
  constructor
  · rintro ⟨j, hj, h⟩
    exact ⟨startX + j, by omega, h⟩
  · rintro ⟨x, hx, h⟩
    refine ⟨(x - startX).toNat, by omega, ?_⟩
    rwa [show startX + ((x - startX).toNat : ℤ) = x by omega]

theorem toNat_mul_natCast (m : ℤ) (n : ℕ) : (m * n).toNat = m.toNat * n := by
  rcases Int.le_total 0 m with hle | hle
  · rw [Int.toNat_mul hle (Int.natCast_nonneg n), Int.toNat_natCast]
  · rw [Int.toNat_of_nonpos hle, Nat.zero_mul, Int.toNat_of_nonpos]
    exact Int.mul_nonpos_of_nonpos_of_nonneg hle (Int.natCast_nonneg n)

/-- **What is copied of a run** is each byte of its pixels. -/
theorem mem_runCopies {target source : ℤ}
    (hrun : startX < endX → 0 ≤ startX ∧ endX ≤ 4294967296) :
    (target, source) ∈ d.runCopies f y startX endX ↔
      ∃ x, (startX ≤ x ∧ x < endX) ∧ ∃ k < f.buffer.format.size,
        target = d.targetOffset f x y + k ∧
        source = y % 4294967296 / d.scale * d.viewBuffer.stride +
          x / d.scale * f.buffer.format.size + k := by
  rw [← exists_run_iff, runCopies]
  dsimp only
  split
  · rename_i hscale
    have hbytes (i : ℕ) : ((d.targetOffset f startX y + i, y % 4294967296 * d.viewBuffer.stride +
        startX * f.buffer.format.size + i) = (target, source)) ↔
        target = d.targetOffset f startX y + i ∧ source = y % 4294967296 * d.viewBuffer.stride +
          startX * f.buffer.format.size + i := by
      rw [Prod.mk.injEq, eq_comm, @eq_comm _ _ source]
    simp only [List.mem_map, List.mem_range, toNat_mul_natCast, hbytes, exists_lt_mul]
    refine exists_congr fun j => and_congr_right fun _ => exists_congr fun k =>
      and_congr_right fun _ => ?_
    rw [targetOffset_add, hscale, Int.natCast_one, Int.ediv_one, Int.ediv_one, Int.add_mul,
      Int.natCast_add, Int.natCast_mul]
    refine and_congr ?_ ?_
    · rw [Int.add_assoc]
    · rw [Int.add_assoc, Int.add_assoc, Int.add_assoc]
  · simp only [List.mem_flatMap, List.mem_map, List.mem_range, Prod.mk.injEq]
    refine exists_congr fun j => and_congr_right fun hj => exists_congr fun k =>
      and_congr_right fun _ => ?_
    have hx : (startX + (j : ℤ)) % 4294967296 = startX + j :=
      Int.emod_eq_of_lt (by omega) (by omega)
    rw [targetOffset_add, hx, eq_comm, @eq_comm _ _ source, Int.add_assoc,
      Int.add_assoc]

/-- A place and what is left of it are read off a sum. -/
theorem eq_of_mul_add {m a a' r r' : ℤ} (hr : 0 ≤ r ∧ r < m) (hr' : 0 ≤ r' ∧ r' < m)
    (h : a * m + r = a' * m + r') : a = a' ∧ r = r' := by
  have hm : 0 < m := hr.1.trans_lt hr.2
  have hleft : (a * m + r) / m = a ∧ (a * m + r) % m = r :=
    (Int.ediv_emod_unique hm).2 ⟨by rw [Int.mul_comm, Int.add_comm], hr⟩
  have hright : (a' * m + r') / m = a' ∧ (a' * m + r') % m = r' :=
    (Int.ediv_emod_unique hm).2 ⟨by rw [Int.mul_comm, Int.add_comm], hr'⟩
  rw [h] at hleft
  exact ⟨hleft.1.symm.trans hright.1, hleft.2.symm.trans hright.2⟩

/-- **A byte of a framebuffer is of one pixel.** -/
theorem targetOffset_inj (hin : f.area.contains (d.x + x) (d.y + y))
    (hin' : f.area.contains (d.x + x') (d.y + y')) (hk : k < f.buffer.format.size)
    (hk' : k' < f.buffer.format.size)
    (h : d.targetOffset f x y + k = d.targetOffset f x' y' + k') : x = x' ∧ y = y' ∧ k = k' := by
  have hrow : ∀ {x k}, f.area.x1 ≤ d.x + x ∧ d.x + x < f.area.x2 → k < f.buffer.format.size →
      0 ≤ (d.x + x - f.area.x1) * f.buffer.format.size + (k : ℤ) ∧
        (d.x + x - f.area.x1) * f.buffer.format.size + k < f.buffer.stride := by
    intro x k hx hk
    have hfits := f.rows
    have hpast : (d.x + x - f.area.x1 + 1) * (f.buffer.format.size : ℤ) ≤
        (f.area.x2 - f.area.x1) * f.buffer.format.size :=
      Int.mul_le_mul_of_nonneg_right (by omega) (Int.natCast_nonneg _)
    have hpos : 0 ≤ (d.x + x - f.area.x1) * (f.buffer.format.size : ℤ) :=
      Int.mul_nonneg (by omega) (Int.natCast_nonneg _)
    rw [Int.add_mul, Int.one_mul] at hpast
    omega
  rw [targetOffset, targetOffset, Int.add_assoc, Int.add_assoc] at h
  obtain ⟨hy, hrest⟩ := eq_of_mul_add (hrow ⟨hin.1, hin.2.1⟩ hk) (hrow ⟨hin'.1, hin'.2.1⟩ hk') h
  obtain ⟨hx, hbyte⟩ := eq_of_mul_add (by omega) (by omega) hrest
  omega

/-! ## Framebuffers -/

/-- **What is copied to a framebuffer**: the bytes of the uncovered places
that are not lost. -/
theorem mem_copies {target source : ℤ} : (target, source) ∈ d.copies above displayRect f ↔
    ∃ x y, (d.IsUncovered above displayRect f x y ∧ ¬ d.LosesPixel above displayRect f x y) ∧
      ∃ k < f.buffer.format.size, target = d.targetOffset f x y + k ∧
        source = y % 4294967296 / d.scale * d.viewBuffer.stride +
          x / d.scale * f.buffer.format.size + k := by
  have hrun : ∀ {y run}, run ∈ d.blitRuns above (d.blitRect displayRect f.area) y →
      run.1 < run.2 → 0 ≤ run.1 ∧ run.2 ≤ 4294967296 := by
    intro y run hrun hlt
    have hfirst := (DisplayManager.not_taken_of_painted ⟨run, hrun, le_refl _, hlt⟩).1.1
    have hlast := (DisplayManager.not_taken_of_painted
      (x := run.2 - 1) ⟨run, hrun, by omega, by omega⟩).1.2
    have hleft := d.margin_range d.topLeftCorner d.bottomLeftCorner y
    have hright := d.margin_range d.topRightCorner d.bottomRightCorner y
    have hwidth := d.width_lt
    rw [rowStart, getLeftMargin] at hfirst
    rw [rowEnd, getRightMargin] at hlast
    omega
  simp only [← painted_blitRuns, copies, List.mem_flatMap, List.mem_range]
  constructor
  · rintro ⟨row, hrow, run, hmem, hcopy⟩
    obtain ⟨x, hx, h⟩ := (mem_runCopies (hrun hmem)).1 hcopy
    exact ⟨x, (d.blitRect displayRect f.area).y1 + row, ⟨by omega, run, hmem, hx⟩, h⟩
  · rintro ⟨x, y, ⟨hy, run, hmem, hx⟩, h⟩
    have hrow : (d.blitRect displayRect f.area).y1 +
        ((y - (d.blitRect displayRect f.area).y1).toNat : ℤ) = y := by omega
    refine ⟨(y - (d.blitRect displayRect f.area).y1).toNat, by omega, run, ?_, ?_⟩
    · rw [hrow]
      exact hmem
    · rw [hrow]
      exact (mem_runCopies (hrun hmem)).2 ⟨x, hx, h⟩

/-- In the display, rows are not made unsigned to another. -/
theorem row_emod (hy : 0 ≤ y ∧ y < d.getHeight) : y % 4294967296 = y :=
  Int.emod_eq_of_lt hy.1 (hy.2.trans d.height_lt)

/-- In the display, a pixel is where the framebuffer's format has it, if
that has as many bytes or the pixel is in the first column. -/
theorem sourceOffset_eq_iff (hy : 0 ≤ y ∧ y < d.getHeight) :
    d.sourceOffset x y + k = y % 4294967296 / d.scale * d.viewBuffer.stride +
        x / d.scale * f.buffer.format.size + k ↔
      f.buffer.format.size = d.viewBuffer.format.size ∨ x / d.scale = 0 := by
  rw [sourceOffset, row_emod hy, Int.add_left_inj, Int.add_right_inj]
  constructor
  · intro h
    by_cases hx : x / (d.scale : ℤ) = 0
    · exact Or.inr hx
    · exact Or.inl (Int.natCast_inj.1 (Int.eq_of_mul_eq_mul_left hx h)).symm
  · rintro (h | h)
    · rw [h]
    · rw [h, Int.zero_mul, Int.zero_mul]

theorem mem_solidCopies {target source : ℤ} :
    (target, source) ∈ d.solidCopies above displayRect f ↔
      (1 ≤ d.scale ∧ d.scale ≤ 4) ∧ (target, source) ∈ d.copies above displayRect f := by
  rw [solidCopies]
  split
  · rename_i hscale
    exact (and_iff_right hscale).symm
  · rename_i hscale
    exact iff_of_false List.not_mem_nil fun h => hscale h.1

/-- **Where it is done right, just the bytes of the pixels that are to be
copied are.** -/
theorem mem_solidCopies_of_right {target source : ℤ}
    (h : ∀ x y, d.IsUncovered above displayRect f x y → d.CopiesRight above displayRect f x y) :
    (target, source) ∈ d.solidCopies above displayRect f ↔
      ∃ x y, ∃ k < f.buffer.format.size, d.IsBlitted above displayRect f x y ∧
        target = d.targetOffset f x y + k ∧ source = d.sourceOffset x y + k := by
  rw [mem_solidCopies, mem_copies]
  constructor
  · rintro ⟨hscale, x, y, ⟨hplace, hkept⟩, k, hk, htarget, hsource⟩
    have hright := h x y hplace
    rw [CopiesRight] at hright
    split at hright
    · rename_i hy
      refine ⟨x, y, k, hk, ⟨hplace, hy⟩, htarget, hsource.trans ?_⟩
      exact ((sourceOffset_eq_iff hy).2 hright.2.2).symm
    · exact absurd hkept (not_not.2 (hright.resolve_left (not_not.2 hscale)))
  · rintro ⟨x, y, k, hk, ⟨hplace, hy⟩, htarget, hsource⟩
    have hright := h x y hplace
    rw [CopiesRight, if_pos hy] at hright
    refine ⟨hright.1, x, y, ⟨hplace, hright.2.1⟩, k, hk, htarget, hsource.trans ?_⟩
    exact (sourceOffset_eq_iff hy).2 hright.2.2

/-- **The bytes of a framebuffer are copied exactly just where that is
done right** at each place that is not covered. -/
theorem copiesExactly_iff : d.CopiesExactly above displayRect f
      (f.copy d.viewBuffer (d.solidCopies above displayRect f)) ↔
    ∀ x y, d.IsUncovered above displayRect f x y → d.CopiesRight above displayRect f x y := by
  have hpos : 0 < f.buffer.format.size := by cases f.buffer.format <;> decide
  constructor
  · intro h x y hplace
    rw [CopiesRight]
    split
    · rename_i hy
      obtain ⟨hscale, hcopy⟩ := mem_solidCopies.1
        ((h.copies _ _).2 ⟨x, y, 0, hpos, ⟨hplace, hy⟩, rfl, rfl⟩)
      obtain ⟨x', y', ⟨hplace', hkept⟩, k, hk, htarget, hsource⟩ := mem_copies.1 hcopy
      obtain ⟨rfl, rfl, rfl⟩ := targetOffset_inj hplace.2.1 hplace'.2.1 hpos hk htarget
      exact ⟨hscale, hkept, (sourceOffset_eq_iff hy).1 hsource⟩
    · rename_i hy
      by_contra hcon
      rw [not_or, not_not] at hcon
      obtain ⟨x', y', k, hk, hplace', htarget, -⟩ := (h.copies _ _).1
        (mem_solidCopies.2 ⟨hcon.1, mem_copies.2 ⟨x, y, ⟨hplace, hcon.2⟩, 0, hpos, rfl, rfl⟩⟩)
      obtain ⟨rfl, rfl, -⟩ := targetOffset_inj hplace.2.1 hplace'.1.2.1 hpos hk htarget
      exact hy hplace'.2
  · intro h
    refine ⟨fun _ _ => mem_solidCopies_of_right h, fun x y k hk hplace => ?_, fun a hnone => ?_⟩
    · refine perform_of_mem ((mem_solidCopies_of_right h).2 ⟨x, y, k, hk, hplace, rfl, rfl⟩) ?_
      intro source hsource
      obtain ⟨x', y', k', hk', hplace', htarget, rfl⟩ := (mem_solidCopies_of_right h).1 hsource
      obtain ⟨rfl, rfl, rfl⟩ := targetOffset_inj hplace.1.2.1 hplace'.1.2.1 hk hk' htarget
      rfl
    · refine perform_of_forall_not_mem fun source hsource => ?_
      obtain ⟨x, y, k, hk, hplace, htarget, -⟩ := (mem_solidCopies_of_right h).1 hsource
      exact hnone x y k hk hplace htarget

/-- What a visible display's update does to the framebuffers. -/
theorem updateDisplayAreaSolid_eq (hvisible : d.isVisible = true)
    {framebuffers : List (Option ScreenBuffer)} :
    d.updateDisplayAreaSolid above displayRect framebuffers = framebuffers.map
      (Option.map fun f => f.copy d.viewBuffer (d.solidCopies above displayRect f)) := by
  rw [updateDisplayAreaSolid, if_neg (by rw [hvisible]; exact Bool.noConfusion)]
  split
  · rename_i hscale
    simp only [updateDisplaySolidArea, solidCopies, if_pos hscale]
  · rename_i hscale
    have hsame : (fun f : ScreenBuffer => f.copy d.viewBuffer (d.solidCopies above displayRect f)) =
        id := by
      funext f
      rw [solidCopies, if_neg hscale]
      rfl
    rw [hsame, Option.map_id, List.map_id]

/-! ## A display that has nothing of a row -/

/-- A display in the first row, its pixels a byte each. -/
def line : BufferedDisplay Unit where
  x := 0
  y := 0
  layer := 0
  scale := 1
  width := 4
  height := 1
  buffer := fun _ _ => ()
  isVisible := true
  solidArea := ⟨0, 0, 4, 1⟩
  topLeftCorner := fun _ => 0
  topRightCorner := fun _ => 0
  bottomLeftCorner := fun _ => 0
  bottomRightCorner := fun _ => 0
  viewBuffer := ⟨.grey8, 4, fun _ => 0⟩
  width_lt := by decide
  height_lt := by decide

/-- Another of two pixels, with its corners taken off. -/
def corners : ShapedDisplay Unit where
  x := 1
  y := 0
  layer := 0
  scale := 1
  width := 2
  height := 1
  buffer := fun _ _ => ()
  isVisible := true
  solidArea := ⟨0, 0, 2, 1⟩
  topLeftCorner := fun _ => 1
  topRightCorner := fun _ => 1
  bottomLeftCorner := fun _ => 1
  bottomRightCorner := fun _ => 1

end BufferedDisplay

end Uberos
