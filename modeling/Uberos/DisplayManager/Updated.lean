import Uberos.DisplayManager.Transparency
import Uberos.Graphics2d.Encoding
/-!
# Updating an area

`_update_area` of all displays, on a framebuffer whose pixels are `U32`s of
the order `bgra`: the background where no display is, the solid areas of
the displays from the bottom up, and what is transparent. Each pixel is set
by one of the three at least, if none of them loses it, and those that set
it agree.
-/

namespace Uberos

open Library

/-- A pixel over one that lets nothing through. -/
def PackedPixel.over (p q : PackedPixel) : PackedPixel where
  colour c := .ofNat 8 ((q.colour c).toNat * p.a.toNat / 255 + (p.colour c).toNat)
  a := 0

namespace BufferedDisplay

variable (d : BufferedDisplay PackedPixel)

/-- A place is within it. -/
def HasPixel (x y : ℤ) : Prop := (0 ≤ x ∧ x < d.getWidth) ∧ 0 ≤ y ∧ y < d.getHeight

/-- **The display's pixels are good**: they are in its buffer, their colours
are multiplied already, and its solid area is within it and lets nothing
through. -/
structure IsPictured : Prop where
  size : d.viewBuffer.format.size = 4
  bytes : ∀ x y, d.HasPixel x y → ∀ k < 4, d.viewBuffer.bytes (d.sourceOffset x y + (k : ℕ)) =
    valueByte ((d.source x y).value .bgra) k
  premultiplied : ∀ x y, d.HasPixel x y →
    ∀ c, ((d.source x y).colour c).toNat ≤ 255 - (d.source x y).a.toNat
  within : ∀ x y, d.solidArea.contains x y → d.HasPixel x y
  solid : ∀ x y, d.solidArea.contains x y → (d.source x y).a = 0

/-- What it covers is within it. -/
theorem hasPixel_of_covers {x y : ℤ} (h : d.Covers x y) : d.HasPixel (x - d.x) (y - d.y) := by
  obtain ⟨-, ⟨hy1, hy2⟩, hleft, hright⟩ := h
  have hx1 := d.x_le_left y
  have hx2 := d.right_le y
  exact ⟨⟨by omega, by omega⟩, by omega, by omega⟩

end BufferedDisplay

namespace OrderedScreen

section

variable (f : OrderedScreen) (display : ℕ → BufferedDisplay PackedPixel) (n : ℕ)
variable (sampleBackgroundStripAt : ℤ → BitVec 32) (screenRect : Rect) (x y : ℤ)

/-- The shapes of the displays. -/
def shapes (i : ℕ) : ShapedDisplay PackedPixel := (display i).toShapedDisplay

/-- The displays above one, from the bottom up. -/
def displaysAbove (i : ℕ) : List (ShapedDisplay PackedPixel) :=
  (List.range' (i + 1) (n - (i + 1))).map (shapes display)

/-- `set` of a run of pixels, as `set_bgra8` does it. -/
def setRun (bytes : ℤ → UInt8) (colour : BitVec 32) (run : ℤ × ℤ) : ℤ → UInt8 :=
  storeFrom bytes (f.address run.1 y)
    ((List.replicate (run.2 - run.1).toNat (Graphics2d.Buffer.bgra8 colour)).flatMap valueBytes)

/-- `_update_background_area`. -/
def updateBackgroundArea (bytes : ℤ → UInt8) : ℤ → UInt8 :=
  let rect := f.part screenRect
  (List.range (rect.y2 - rect.y1).toNat).foldl (fun bytes (row : ℕ) =>
    let y := rect.y1 + row
    (backgroundRuns ((List.range n).map (shapes display)) rect y).foldl
      (fun bytes run => f.setRun y bytes (sampleBackgroundStripAt y) run) bytes) bytes

/-- What is updated of a display, in its own coordinates. -/
def displayPart (i : ℕ) : Rect :=
  (screenRect.offset (-(display i).x) (-(display i).y)).intersect (display i).solidArea

/-- `_update_display_area_solid`, where the display is visible. -/
def updateDisplay (bytes : ℤ → UInt8) (i : ℕ) : ℤ → UInt8 :=
  let d := display i
  if d.isVisible = false then bytes
  else perform d.viewBuffer.bytes
    (d.solidCopies (displaysAbove display n i) (displayPart display screenRect i) f.toScreenBuffer)
    bytes

/-- `_update_area_solid`. -/
def updateAreaSolid : OrderedScreen :=
  f.withBytes ((List.range n).foldl (f.updateDisplay display n screenRect)
    (f.updateBackgroundArea display n sampleBackgroundStripAt screenRect f.buffer.bytes))

/-- `_update_area`. -/
def updateArea : Option OrderedScreen :=
  (f.updateAreaSolid display n sampleBackgroundStripAt screenRect).updateAreaTransparency
    (shapes display) n (fun _ y => sampleBackgroundStripAt y) screenRect

end

end OrderedScreen

/-! ## What it is for -/

section

variable (f : OrderedScreen) (display : ℕ → BufferedDisplay PackedPixel) (n : ℕ)
variable (sampleBackgroundStripAt : ℤ → BitVec 32) (screenRect : Rect) (x y : ℤ)

/-- **What is to be seen at a place**: the background, or the topmost
display over what is below it. -/
def seenAt : BitVec 32 :=
  match topmostAt (OrderedScreen.shapes display) x y n with
  | none => sampleBackgroundStripAt y
  | some i =>
    (((display i).read x y).over (calculateBlendingAt (sampleBackgroundStripAt y) x y
      (displaysBelow (OrderedScreen.shapes display) i))).value .bgra

/-- **The place is updated**: the background's scan does not lose it, or
that of the topmost display does not, which is solid there, or it is in a
strip. -/
def OrderedScreen.IsUpdated : Prop :=
  match topmostAt (OrderedScreen.shapes display) x y n with
  | none =>
    ¬ LosesBackground ((List.range n).map (OrderedScreen.shapes display)) screenRect f.area x y
  | some i =>
    let d := display i
    d.IsSolidAt x y ∧ (1 ≤ d.scale ∧ d.scale ≤ 4) ∧
        ¬ d.LosesPixel (OrderedScreen.displaysAbove display n i)
          (OrderedScreen.displayPart display screenRect i) f.toScreenBuffer (x - d.x) (y - d.y) ∨
      InStrip (rectSections (OrderedScreen.shapes display) n (f.part screenRect) y) x

/-- **An area is updated exactly**, whatever there was: all its pixels show
what is to be seen, and no other byte is changed. -/
def OrderedScreen.UpdatesExactly : Prop :=
  ∀ bytes, ∃ f', (f.withBytes bytes).updateArea display n sampleBackgroundStripAt screenRect =
      some f' ∧
    f.SetsPixels bytes f'.buffer.bytes (fun x y => screenRect.contains x y ∧ f.area.contains x y)
      (seenAt display n sampleBackgroundStripAt)

end

/-! ## Blending -/

/-- **`blend_colours` puts a pixel over another.** -/
theorem blendColours_value {p q : PackedPixel} (hq : q.a = 0)
    (hp : ∀ c, (p.colour c).toNat ≤ 255 - p.a.toNat) :
    blendColours (q.value .bgra) (p.value .bgra) = (p.over q).value .bgra := by
  have hpart : ∀ c : Channel, (q.value .bgra >>> c.shift &&& 0xff#32) * (p.value .bgra >>> 24) /
      255#32 + (p.value .bgra >>> c.shift &&& 0xff#32) = ((p.over q).colour c).setWidth 32 := by
    intro c
    have ha : p.a.toNat < 256 := p.a.isLt
    have hqc : (q.colour c).toNat < 256 := (q.colour c).isLt
    have hpc := hp c
    have hle : (q.colour c).toNat * p.a.toNat / 255 ≤ p.a.toNat :=
      Nat.div_le_of_le_mul (Nat.mul_le_mul_right _ (by omega))
    refine BitVec.eq_of_toNat_eq ?_
    rw [toNat_blendPart _ _ _ (by rw [toNat_and_byte]; exact byteAt_lt _ _)
      (by rw [toNat_value_shift]; exact ha) (by rw [toNat_and_byte]; exact byteAt_lt _ _),
      toNat_and_byte, toNat_and_byte, toNat_value_shift, byteAt_value, byteAt_value,
      BitVec.toNat_setWidth, PackedPixel.over, BitVec.toNat_ofNat, Nat.mod_eq_of_lt (by omega),
      Nat.mod_eq_of_lt (by omega)]
  have htop : q.value .bgra >>> 24 = 0#32 := by
    refine BitVec.eq_of_toNat_eq ?_
    rw [toNat_value_shift, hq]
    rfl
  have hzero : (0#32 * (p.value .bgra >>> 24) / 255#32) = (0#8).setWidth 32 := by
    rw [BitVec.zero_mul]
    rfl
  have hb := hpart .b
  have hg := hpart .g
  have hr := hpart .r
  simp only [Channel.shift] at hb hg hr
  rw [blendColours, htop]
  rw [hb, hg, hr, hzero]
  rfl

/-- A pixel that lets nothing through is as it is. -/
theorem PackedPixel.over_of_a {p : PackedPixel} (hp : p.a = 0) (q : PackedPixel) :
    p.over q = p := by
  obtain ⟨colour, a⟩ := p
  obtain rfl : a = 0 := hp
  have hcolour : (fun c => BitVec.ofNat 8 ((q.colour c).toNat * (0#8).toNat / 255 +
      (colour c).toNat)) = colour := by
    funext c
    rw [BitVec.toNat_ofNat, Nat.zero_mod, Nat.mul_zero, Nat.zero_div, Nat.zero_add,
      BitVec.ofNat_toNat, BitVec.setWidth_eq]
  exact congrArg (PackedPixel.mk · 0) hcolour

section

open OrderedScreen

variable {f : OrderedScreen} {display : ℕ → BufferedDisplay PackedPixel} {n i : ℕ}
variable {sampleBackgroundStripAt : ℤ → BitVec 32} {screenRect : Rect} {x y : ℤ}
variable {bytes : ℤ → UInt8}

theorem seenAt_of_none (h : topmostAt (shapes display) x y n = none) :
    seenAt display n sampleBackgroundStripAt x y = sampleBackgroundStripAt y := by
  rw [seenAt, h]

theorem IsTopmost.seenAt_eq (h : IsTopmost (shapes display) n x y i) :
    seenAt display n sampleBackgroundStripAt x y = (((display i).read x y).over
      (calculateBlendingAt (sampleBackgroundStripAt y) x y
        (displaysBelow (shapes display) i))).value .bgra := by
  rw [seenAt, topmostAt_eq_some.2 h]

/-- **What is drawn of the topmost display is what is to be seen.** -/
theorem IsTopmost.blendedAt_eq (h : IsTopmost (shapes display) n x y i)
    (hpictured : (display i).IsPictured) :
    blendedAt (shapes display) (fun _ y => sampleBackgroundStripAt y) .bgra i x y =
      seenAt display n sampleBackgroundStripAt x y := by
  have hsample : (shapes display i).sampleAt x y = (display i).read x y := if_pos h.covers
  rw [h.seenAt_eq, blendedAt, hsample]
  split
  · rename_i hopaque
    have ha : ((display i).read x y).a = 0 := by
      refine BitVec.eq_of_toNat_eq ?_
      rw [← toNat_value_shift, hopaque]
      rfl
    rw [PackedPixel.over_of_a ha]
  · exact blendColours_value rfl
      (hpictured.premultiplied _ _ ((display i).hasPixel_of_covers h.covers))

namespace OrderedScreen

theorem SetsPixels.foldl {ι : Type} {items : List ι} {P : ι → ℤ → ℤ → Prop}
    {value : ℤ → ℤ → BitVec 32} {draw : (ℤ → UInt8) → ι → ℤ → UInt8} (bytes : ℤ → UInt8)
    (hsize : f.buffer.format.size = 4)
    (hdraw : ∀ item ∈ items, ∀ bytes, f.SetsPixels bytes (draw bytes item) (P item) value)
    (hP : ∀ item ∈ items, ∀ x y, P item x y → f.area.contains x y) :
    f.SetsPixels bytes (items.foldl draw bytes) (fun x y => ∃ item ∈ items, P item x y) value := by
  obtain ⟨bytes', hfound, hset⟩ := SetsPixels.foldlM bytes hsize
    (fun item hitem bytes => ⟨_, rfl, hdraw item hitem bytes⟩) hP
  have hpure : items.foldlM (fun bytes item => some (draw bytes item)) bytes =
      some (items.foldl draw bytes) := List.foldlM_pure
  rw [hpure] at hfound
  exact Option.some.inj hfound ▸ hset

/-! ## The background -/

theorem setsPixels_setRun {run : ℤ × ℤ} (hrun : ∀ x, run.1 ≤ x → x < run.2 →
      ∀ i < n, ¬ (shapes display i).Covers x y) :
    f.SetsPixels bytes (f.setRun y bytes (sampleBackgroundStripAt y) run)
      (fun x y' => y' = y ∧ run.1 ≤ x ∧ x < run.2)
      (seenAt display n sampleBackgroundStripAt) := by
  refine setsPixels_storeFrom List.length_replicate fun x h1 h2 => ?_
  rw [List.getElem?_replicate_of_lt (by omega), Graphics2d.bgra8_eq,
    seenAt_of_none (topmostAt_eq_none.2 (hrun x h1 h2))]

/-- **The background's places** that are not lost are set. -/
theorem setsPixels_updateBackgroundArea (bytes : ℤ → UInt8) (hsize : f.buffer.format.size = 4) :
    f.SetsPixels bytes
      (f.updateBackgroundArea display n sampleBackgroundStripAt screenRect bytes)
      (SetsBackground ((List.range n).map (shapes display)) screenRect f.area)
      (seenAt display n sampleBackgroundStripAt) := by
  obtain ⟨rect, hrect⟩ : ∃ rect, screenRect.intersect f.area = rect := ⟨_, rfl⟩
  have hpainted : ∀ {x y}, DisplayManager.Painted
      (backgroundRuns ((List.range n).map (shapes display)) rect y) x →
      (rect.x1 ≤ x ∧ x < rect.x2) ∧ ∀ i < n, ¬ (shapes display i).Covers x y := by
    intro x y hpaint
    obtain ⟨hx, hfree⟩ := DisplayManager.not_taken_of_painted hpaint
    refine ⟨hx, fun i hi hcovers => hfree (ShapedDisplay.taken_rowAreas.2 ?_)⟩
    exact ⟨_, List.mem_map_of_mem (List.mem_range.2 hi), hcovers⟩
  have hin : ∀ {x y}, (rect.y1 ≤ y ∧ y < rect.y2) → DisplayManager.Painted
      (backgroundRuns ((List.range n).map (shapes display)) rect y) x → f.area.contains x y := by
    intro x y hy hpaint
    have hx := (hpainted hpaint).1
    have hplace : (screenRect.intersect f.area).contains x y := by
      rw [hrect]
      exact ⟨hx.1, hx.2, hy⟩
    exact (Rect.contains_intersect.1 hplace).2
  -- a row: each of its runs
  have hrow : ∀ row ∈ List.range (rect.y2 - rect.y1).toNat, ∀ bytes, f.SetsPixels bytes
      ((backgroundRuns ((List.range n).map (shapes display)) rect (rect.y1 + (row : ℕ))).foldl
        (fun bytes run => f.setRun (rect.y1 + (row : ℕ)) bytes
          (sampleBackgroundStripAt (rect.y1 + (row : ℕ))) run) bytes)
      (fun x y => ∃ run ∈ backgroundRuns ((List.range n).map (shapes display)) rect
        (rect.y1 + (row : ℕ)), y = rect.y1 + (row : ℕ) ∧ run.1 ≤ x ∧ x < run.2)
      (seenAt display n sampleBackgroundStripAt) := by
    intro row hmem bytes
    rw [List.mem_range] at hmem
    refine SetsPixels.foldl bytes hsize (fun run hrun bytes => ?_) ?_
    · exact setsPixels_setRun fun x h1 h2 => (hpainted ⟨run, hrun, h1, h2⟩).2
    · rintro run hrun x y ⟨rfl, hx⟩
      exact hin ⟨by omega, by omega⟩ ⟨run, hrun, hx⟩
  rw [updateBackgroundArea, part, hrect]
  refine (SetsPixels.foldl bytes hsize hrow ?_).congr (fun x y => ?_) fun _ _ _ => rfl
  · rintro row hmem x y ⟨run, hrun, rfl, hx⟩
    rw [List.mem_range] at hmem
    exact hin ⟨by omega, by omega⟩ ⟨run, hrun, hx⟩
  · rw [SetsBackground, hrect]
    constructor
    · rintro ⟨row, hmem, run, hrun, rfl, hx⟩
      rw [List.mem_range] at hmem
      exact ⟨⟨by omega, by omega⟩, run, hrun, hx⟩
    · rintro ⟨hy, run, hrun, hx⟩
      have hplace : rect.y1 + ((y - rect.y1).toNat : ℤ) = y := by omega
      refine ⟨(y - rect.y1).toNat, List.mem_range.2 (by omega), run, ?_, hplace.symm, hx⟩
      rw [hplace]
      exact hrun

/-! ## The solid areas -/

/-- **The places that are uncovered are those where the display is the
topmost**, and solid. -/
theorem isUncovered_iff (hi : i < n) (hvisible : (display i).isVisible = true)
    (hpictured : (display i).IsPictured) :
    (display i).IsUncovered (displaysAbove display n i) (displayPart display screenRect i)
        f.toScreenBuffer (x - (display i).x) (y - (display i).y) ↔
      (screenRect.contains x y ∧ f.area.contains x y) ∧
        IsTopmost (shapes display) n x y i ∧ (display i).IsSolidAt x y := by
  have hx : (display i).x + (x - (display i).x) = x := by omega
  have hy : (display i).y + (y - (display i).y) = y := by omega
  have hback : ∀ a b : ℤ, a - b - -b = a := by omega
  have habove : (∃ other ∈ displaysAbove display n i, other.Covers x y) ↔
      ∃ j < n, i < j ∧ (shapes display j).Covers x y := by
    constructor
    · rintro ⟨other, hother, hcovers⟩
      obtain ⟨j, hj, rfl⟩ := List.mem_map.1 hother
      rw [List.mem_range'_1] at hj
      exact ⟨j, by omega, by omega, hcovers⟩
    · rintro ⟨j, hj, hlt, hcovers⟩
      exact ⟨_, List.mem_map_of_mem (List.mem_range'_1.2 ⟨by omega, by omega⟩), hcovers⟩
  rw [BufferedDisplay.IsUncovered, hx, hy, habove, displayPart, Rect.contains_intersect,
    Rect.contains_offset, hback, hback]
  constructor
  · rintro ⟨⟨⟨hscreen, hsolid⟩, -⟩, harea, hmargins, hfree⟩
    obtain ⟨-, hrow⟩ := hpictured.within _ _ hsolid
    refine ⟨⟨hscreen, harea⟩, ⟨hi, ⟨hvisible, ?_, ?_, ?_⟩, ?_⟩, hsolid⟩
    · show (display i).HasRow y
      exact ⟨by omega, by omega⟩
    · rw [shapes, ShapedDisplay.left]
      omega
    · rw [shapes, ShapedDisplay.right]
      omega
    · exact fun j hj hlt hcovers => hfree ⟨j, hj, hlt, hcovers⟩
  · rintro ⟨⟨hscreen, harea⟩, htop, hsolid⟩
    obtain ⟨-, -, hleft, hright⟩ := htop.covers
    rw [shapes, ShapedDisplay.left] at hleft
    rw [shapes, ShapedDisplay.right] at hright
    refine ⟨⟨⟨hscreen, hsolid⟩, hsolid⟩, harea, ⟨by omega, by omega⟩, ?_⟩
    rintro ⟨j, hj, hlt, hcovers⟩
    exact htop.top j hj hlt hcovers

/-- The places that are copied of a display. -/
def IsCopied (f : OrderedScreen) (display : ℕ → BufferedDisplay PackedPixel) (n : ℕ)
    (screenRect : Rect) (i : ℕ) (x y : ℤ) : Prop :=
  let d := display i
  (d.isVisible = true ∧ 1 ≤ d.scale ∧ d.scale ≤ 4) ∧
    d.IsUncovered (displaysAbove display n i) (displayPart display screenRect i) f.toScreenBuffer
      (x - d.x) (y - d.y) ∧
    ¬ d.LosesPixel (displaysAbove display n i) (displayPart display screenRect i) f.toScreenBuffer
      (x - d.x) (y - d.y)

theorem setsPixels_updateDisplay (hsize : f.buffer.format.size = 4) (hi : i < n)
    (hpictured : (display i).IsPictured) :
    f.SetsPixels bytes (f.updateDisplay display n screenRect bytes i)
      (f.IsCopied display n screenRect i) (seenAt display n sampleBackgroundStripAt) := by
  rw [updateDisplay]
  split
  · rename_i hhidden
    exact .refl fun x y h => by rw [IsCopied, hhidden] at h; exact Bool.noConfusion h.1.1
  rename_i hvisible
  rw [Bool.not_eq_false] at hvisible
  -- what is copied is of these places, each byte from that of the pixel
  have hcopies : ∀ {target source}, (target, source) ∈ (display i).solidCopies
      (displaysAbove display n i) (displayPart display screenRect i) f.toScreenBuffer ↔
      ∃ x y, f.IsCopied display n screenRect i x y ∧ ∃ k < 4, target = f.address x y + (k : ℕ) ∧
        source = (display i).sourceOffset (x - (display i).x) (y - (display i).y) + (k : ℕ) := by
    intro target source
    rw [BufferedDisplay.mem_solidCopies, BufferedDisplay.mem_copies]
    have hformat : f.buffer.format.size = (display i).viewBuffer.format.size :=
      hsize.trans hpictured.size.symm
    have haddress : ∀ x y, (display i).targetOffset f.toScreenBuffer x y =
        f.address ((display i).x + x) ((display i).y + y) := by
      intro x y
      rw [BufferedDisplay.targetOffset, hsize, address]
      rfl
    constructor
    · rintro ⟨hscale, x, y, ⟨hplace, hkept⟩, k, hk, htarget, hsource⟩
      have hx : (display i).x + x - (display i).x = x := by omega
      have hy : (display i).y + y - (display i).y = y := by omega
      rw [hsize] at hk
      refine ⟨(display i).x + x, (display i).y + y, ⟨⟨hvisible, hscale⟩, ?_, ?_⟩, k, hk, ?_, ?_⟩
      · rw [hx, hy]
        exact hplace
      · rw [hx, hy]
        exact hkept
      · rw [htarget, haddress]
      · rw [hx, hy, hsource]
        exact ((BufferedDisplay.sourceOffset_eq_iff
          (hpictured.within x y hplace.1.2).2).2 (Or.inl hformat)).symm
    · rintro ⟨x, y, ⟨⟨-, hscale⟩, hplace, hkept⟩, k, hk, htarget, hsource⟩
      refine ⟨hscale, x - (display i).x, y - (display i).y, ⟨hplace, hkept⟩, k, ?_, ?_, ?_⟩
      · rw [hsize]
        exact hk
      · rw [htarget, haddress, show (display i).x + (x - (display i).x) = x by omega,
          show (display i).y + (y - (display i).y) = y by omega]
      · rw [hsource]
        exact (BufferedDisplay.sourceOffset_eq_iff
          (hpictured.within _ _ hplace.1.2).2).2 (Or.inl hformat)
  have htopmost : ∀ {x y}, f.IsCopied display n screenRect i x y →
      (screenRect.contains x y ∧ f.area.contains x y) ∧
        IsTopmost (shapes display) n x y i ∧ (display i).IsSolidAt x y :=
    fun h => (isUncovered_iff hi hvisible hpictured).1 h.2.1
  constructor
  · intro x y hplace k hk
    obtain ⟨⟨-, harea⟩, htop, hsolid⟩ := htopmost hplace
    rw [perform_of_mem (hcopies.2 ⟨x, y, hplace, k, hk, rfl, rfl⟩) ?_]
    · have ha : ((display i).read x y).a = 0 := hpictured.solid _ _ hsolid
      rw [hpictured.bytes _ _ (hpictured.within _ _ hsolid) k hk, htop.seenAt_eq,
        PackedPixel.over_of_a ha]
      rfl
    · intro source hsource
      obtain ⟨x', y', hplace', k', hk', htarget, rfl⟩ := hcopies.1 hsource
      obtain ⟨rfl, rfl, rfl⟩ :=
        address_inj hsize harea (htopmost hplace').1.2 hk hk' htarget
      rfl
  · intro a hnone
    refine perform_of_forall_not_mem fun source hsource => ?_
    obtain ⟨x, y, hplace, k, hk, htarget, -⟩ := hcopies.1 hsource
    exact hnone x y hplace k hk htarget

/-! ## An area -/

/-- The places that are set when an area is updated. -/
def IsSet (f : OrderedScreen) (display : ℕ → BufferedDisplay PackedPixel) (n : ℕ)
    (screenRect : Rect) (x y : ℤ) : Prop :=
  (SetsBackground ((List.range n).map (shapes display)) screenRect f.area x y ∨
    ∃ i ∈ List.range n, f.IsCopied display n screenRect i x y) ∨
  ((f.part screenRect).y1 ≤ y ∧ y < (f.part screenRect).y2) ∧
    InStrip (rectSections (shapes display) n (f.part screenRect) y) x

theorem contains_of_isSet (hpictured : ∀ i < n, (display i).IsPictured)
    (h : f.IsSet display n screenRect x y) :
    screenRect.contains x y ∧ f.area.contains x y := by
  rcases h with (hbackground | ⟨i, hi, hcopied⟩) | ⟨hy, hstrip⟩
  · exact (setsBackground_iff.1 hbackground).1.1
  · rw [List.mem_range] at hi
    exact ((isUncovered_iff hi hcopied.1.1 (hpictured i hi)).1 hcopied.2.1).1
  · exact (contains_part f screenRect).1 (contains_of_inStrip hy hstrip)

/-- **They are set to what is to be seen there**, and no other byte is. -/
theorem exists_updateArea (hsize : f.buffer.format.size = 4) (horder : f.order = .bgra)
    (hpictured : ∀ i < n, (display i).IsPictured) :
    ∃ f', f.updateArea display n sampleBackgroundStripAt screenRect = some f' ∧
      f.SetsPixels f.buffer.bytes f'.buffer.bytes (f.IsSet display n screenRect)
        (seenAt display n sampleBackgroundStripAt) := by
  have hcopied : ∀ i ∈ List.range n, ∀ bytes, f.SetsPixels bytes
      (f.updateDisplay display n screenRect bytes i) (f.IsCopied display n screenRect i)
      (seenAt display n sampleBackgroundStripAt) := by
    intro i hi bytes
    rw [List.mem_range] at hi
    exact setsPixels_updateDisplay hsize hi (hpictured i hi)
  have hin : ∀ x y, f.IsSet display n screenRect x y → f.area.contains x y :=
    fun x y h => (contains_of_isSet hpictured h).2
  have hbackground : f.SetsPixels f.buffer.bytes
      (f.updateBackgroundArea display n sampleBackgroundStripAt screenRect f.buffer.bytes) _ _ :=
    setsPixels_updateBackgroundArea f.buffer.bytes hsize
  have hdisplays := SetsPixels.foldl
    (f.updateBackgroundArea display n sampleBackgroundStripAt screenRect f.buffer.bytes) hsize
    hcopied fun i hi x y h => hin x y (Or.inl (Or.inr ⟨i, hi, h⟩))
  have hsolid := hbackground.trans hsize hdisplays
    (fun x y h => hin x y (Or.inl (Or.inl h))) fun x y h => hin x y (Or.inl (Or.inr h))
  obtain ⟨f', hfound, hstrips⟩ := exists_updateAreaTransparency f (shapes display) n
    (fun _ y => sampleBackgroundStripAt y) screenRect hsize ((List.range n).foldl
      (f.updateDisplay display n screenRect)
      (f.updateBackgroundArea display n sampleBackgroundStripAt screenRect f.buffer.bytes))
  refine ⟨f', hfound, hsolid.trans hsize (hstrips.congr (fun _ _ => Iff.rfl) fun x y h => ?_)
    (fun x y h => hin x y (Or.inl h)) fun x y h => hin x y (Or.inr h)⟩
  -- a strip is of the topmost display
  obtain ⟨a, ha, -, h1, h2⟩ := h.2
  have hsections := isSectioned_rectSections (shapes display) n (f.part screenRect) y
  have htop := hsections.topmost a ha x h1 h2
  rw [htop.shownAt_eq, horder, htop.blendedAt_eq (hpictured _ htop.lt)]

/-- **The places that are set are those that are updated.** -/
theorem isSet_iff (hpictured : ∀ i < n, (display i).IsPictured)
    (hplace : screenRect.contains x y ∧ f.area.contains x y) :
    f.IsSet display n screenRect x y ↔ f.IsUpdated display n screenRect x y := by
  have hpart := (contains_part f screenRect).2 hplace
  have hstrip : ∀ {sections}, IsSectioned (shapes display) n y (f.part screenRect).x2
      (f.part screenRect).x1 sections → InStrip sections x →
      ∃ i, IsTopmost (shapes display) n x y i := by
    rintro sections hsections ⟨a, ha, -, h1, h2⟩
    exact ⟨_, hsections.topmost a ha x h1 h2⟩
  have hcopied : ∀ {i}, i ∈ List.range n → f.IsCopied display n screenRect i x y →
      IsTopmost (shapes display) n x y i ∧ (display i).IsSolidAt x y := by
    intro i hi h
    rw [List.mem_range] at hi
    exact ((isUncovered_iff hi h.1.1 (hpictured i hi)).1 h.2.1).2
  have hbare : SetsBackground ((List.range n).map (shapes display)) screenRect f.area x y ↔
      topmostAt (shapes display) x y n = none ∧
      ¬ LosesBackground ((List.range n).map (shapes display)) screenRect f.area x y := by
    rw [setsBackground_iff, IsBackground, and_iff_right hplace, topmostAt_eq_none]
    refine and_congr_left fun _ => ?_
    constructor
    · exact fun h i hi hcovers => h ⟨_, List.mem_map_of_mem (List.mem_range.2 hi), hcovers⟩
    · rintro h ⟨d, hd, hcovers⟩
      obtain ⟨i, hi, rfl⟩ := List.mem_map.1 hd
      exact h i (List.mem_range.1 hi) hcovers
  rw [IsSet, IsUpdated, hbare]
  cases htopmost : topmostAt (shapes display) x y n with
  | none =>
    have hnone : ∀ {i}, ¬ IsTopmost (shapes display) n x y i := by
      intro i htop
      rw [topmostAt_eq_some.2 htop] at htopmost
      cases htopmost
    constructor
    · rintro ((⟨-, hkept⟩ | ⟨i, hi, h⟩) | ⟨-, h⟩)
      · exact hkept
      · exact absurd (hcopied hi h).1 hnone
      · obtain ⟨i, htop⟩ := hstrip (isSectioned_rectSections _ _ _ _) h
        exact absurd htop hnone
    · exact fun hkept => Or.inl (Or.inl ⟨rfl, hkept⟩)
  | some i =>
    have htop := topmostAt_eq_some.1 htopmost
    constructor
    · rintro ((⟨hnone, -⟩ | ⟨j, hj, h⟩) | ⟨-, h⟩)
      · cases hnone
      · obtain ⟨htop', hsolid⟩ := hcopied hj h
        obtain rfl := Option.some.inj (htopmost.symm.trans (topmostAt_eq_some.2 htop'))
        exact Or.inl ⟨hsolid, h.1.2, h.2.2⟩
      · exact Or.inr h
    · rintro (⟨hsolid, hscale, hkept⟩ | h)
      · refine Or.inl (Or.inr ⟨i, List.mem_range.2 htop.lt, ⟨htop.covers.1, hscale⟩, ?_, hkept⟩)
        exact (isUncovered_iff htop.lt htop.covers.1 (hpictured i htop.lt)).2 ⟨hplace, htop, hsolid⟩
      · exact Or.inr ⟨hpart.2.2, h⟩

/-- **An area is updated exactly where each of its places is.** -/
theorem updatesExactly_iff (hsize : f.buffer.format.size = 4) (horder : f.order = .bgra)
    (hpictured : ∀ i < n, (display i).IsPictured) :
    f.UpdatesExactly display n sampleBackgroundStripAt screenRect ↔
      ∀ x y, screenRect.contains x y → f.area.contains x y →
        f.IsUpdated display n screenRect x y := by
  have hupdate : ∀ bytes, ∃ f', (f.withBytes bytes).updateArea display n sampleBackgroundStripAt
      screenRect = some f' ∧ f.SetsPixels bytes f'.buffer.bytes (f.IsSet display n screenRect)
        (seenAt display n sampleBackgroundStripAt) := by
    intro bytes
    obtain ⟨f', hfound, hset⟩ := exists_updateArea (f := f.withBytes bytes) hsize horder hpictured
    exact ⟨f', hfound, hset.on, hset.off⟩
  constructor
  · intro h x y hscreen harea
    refine (isSet_iff hpictured ⟨hscreen, harea⟩).1 ?_
    have hboth : ∀ bytes, ∃ bytes', f.SetsPixels bytes bytes' (f.IsSet display n screenRect)
        (seenAt display n sampleBackgroundStripAt) ∧ f.SetsPixels bytes bytes'
          (fun x y => screenRect.contains x y ∧ f.area.contains x y)
          (seenAt display n sampleBackgroundStripAt) := by
      intro bytes
      obtain ⟨f', hfound, hset⟩ := hupdate bytes
      obtain ⟨f'', hfound', hset'⟩ := h bytes
      obtain rfl := Option.some.inj (hfound.symm.trans hfound')
      exact ⟨_, hset, hset'⟩
    exact (SetsPixels.iff_of_always hsize hboth
      (fun x y hplace => (contains_of_isSet hpictured hplace).2)
      (fun x y hplace => hplace.2) x y).2 ⟨hscreen, harea⟩
  · intro h bytes
    obtain ⟨f', hfound, hset⟩ := hupdate bytes
    refine ⟨f', hfound, hset.congr (fun x y => ?_) fun _ _ _ => rfl⟩
    constructor
    · exact contains_of_isSet hpictured
    · exact fun hplace => (isSet_iff hpictured hplace).2 (h x y hplace.1 hplace.2)

end OrderedScreen

end

/-! ## A tile -/

/-- A display of one pixel. -/
def tile : BufferedDisplay PackedPixel where
  x := 0
  y := 0
  layer := 0
  scale := 1
  width := 1
  height := 1
  buffer := fun _ _ => .zero
  isVisible := true
  solidArea := ⟨0, 0, 1, 1⟩
  topLeftCorner := fun _ => 0
  topRightCorner := fun _ => 0
  bottomLeftCorner := fun _ => 0
  bottomRightCorner := fun _ => 0
  viewBuffer := ⟨.rgba8, 4, fun _ => 0⟩
  width_lt := by decide
  height_lt := by decide

theorem isPictured_tile : tile.IsPictured where
  size := rfl
  bytes := by
    have hzero : ∀ k < 4, valueByte (PackedPixel.zero.value .bgra) k = 0 := by decide
    intro x y _ k hk
    exact (hzero k hk).symm
  premultiplied := fun _ _ _ _ => Nat.zero_le _
  within := fun _ _ ⟨h1, h2, h3, h4⟩ => ⟨⟨h1, h2⟩, h3, h4⟩
  solid := fun _ _ _ => rfl

/-- **Beside the display the background is to be seen.** -/
theorem updatesExactly_tile :
    OrderedScreen.UpdatesExactly ⟨⟨⟨0, 0, 2, 1⟩, ⟨.rgba8, 8, fun _ => 0⟩, by decide⟩, .bgra⟩
      (fun _ => tile) 1 (fun _ => 0x3c92b3) ⟨0, 0, 2, 1⟩ := by
  refine (OrderedScreen.updatesExactly_iff rfl rfl fun _ _ => isPictured_tile).2 ?_
  rintro x y ⟨h1, h2, h3, h4⟩ -
  dsimp only at h1 h2 h3 h4
  obtain rfl : y = 0 := by omega
  obtain rfl | rfl : x = 0 ∨ x = 1 := by omega
  · have htop : topmostAt (OrderedScreen.shapes fun _ => tile) 0 0 1 = some 0 := by decide
    rw [OrderedScreen.IsUpdated, htop]
    exact Or.inl ⟨by decide, by decide, by decide +kernel⟩
  · have htop : topmostAt (OrderedScreen.shapes fun _ => tile) 1 0 1 = none := by decide
    rw [OrderedScreen.IsUpdated, htop]
    decide +kernel

end Uberos
