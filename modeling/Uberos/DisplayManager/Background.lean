import Mathlib.Data.List.Forall2
import Uberos.DisplayManager.Scan
import Uberos.DisplayManager.Paint
import Uberos.DisplayManager.Model
/-!
# Repainting the background

`_update_background_area` over displays of any shape: which pixels of a
framebuffer it sets, against those of the rectangle that no display
covers.
-/

namespace Uberos

open Framebuffer

variable {Colour : Type}

/-! ## A row -/

namespace ShapedDisplay

/-- What visible displays, in their order, take up of a row. -/
def rowAreas (displays : List (ShapedDisplay Colour)) (y : ℤ) : List (ℤ × ℤ) :=
  displays.filterMap fun d =>
    if d.isVisible ∧ d.HasRow y then some (d.left y, d.right y) else none

theorem mem_rowAreas {displays : List (ShapedDisplay Colour)} {y : ℤ} {area : ℤ × ℤ} :
    area ∈ rowAreas displays y ↔
      ∃ d ∈ displays, (d.isVisible = true ∧ d.HasRow y) ∧ (d.left y, d.right y) = area := by
  rw [rowAreas, List.mem_filterMap]
  refine exists_congr fun d => and_congr_right fun _ => ?_
  rw [Option.ite_none_right_eq_some, Option.some.injEq]

/-- A place is taken up where a display covers it. -/
theorem taken_rowAreas {displays : List (ShapedDisplay Colour)} {x y : ℤ} :
    DisplayManager.Taken (rowAreas displays y) x ↔ ∃ d ∈ displays, d.Covers x y := by
  constructor
  · rintro ⟨area, harea, hx⟩
    obtain ⟨d, hd, ⟨hvisible, hrow⟩, rfl⟩ := mem_rowAreas.1 harea
    exact ⟨d, hd, hvisible, hrow, hx⟩
  · rintro ⟨d, hd, hvisible, hrow, hx⟩
    exact ⟨_, mem_rowAreas.2 ⟨d, hd, ⟨hvisible, hrow⟩, rfl⟩, hx⟩

theorem rowAreas_le {displays : List (ShapedDisplay Colour)} {y : ℤ} {area : ℤ × ℤ}
    (h : area ∈ rowAreas displays y) : area.1 ≤ area.2 := by
  obtain ⟨d, -, -, rfl⟩ := mem_rowAreas.1 h
  exact d.left_le_right y

end ShapedDisplay

open ShapedDisplay

/-! ## Framebuffers -/

section

variable (displays : List (ShapedDisplay Colour)) (screenRect : Rect)

/-- The runs of a row. -/
def backgroundRuns (rect : Rect) (y : ℤ) : List (ℤ × ℤ) :=
  scanRow backgroundNext (rowAreas displays y) rect.x2 (rect.x2 - rect.x1).toNat rect.x1

/-- What is done to a framebuffer with a buffer. The colour is that of the
background strip at the row. -/
def updateBackground (sampleBackgroundStripAt : ℤ → Colour) (f : Framebuffer Colour) :
    Framebuffer Colour :=
  let rect := screenRect.intersect f.area
  f.paint 0 0 rect.y1 rect.y2 (backgroundRuns displays rect) fun _ y => sampleBackgroundStripAt y

/-- `_update_background_area`. A framebuffer may have no buffer. -/
def updateBackgroundArea (sampleBackgroundStripAt : ℤ → Colour)
    (framebuffers : List (Option (Framebuffer Colour))) : List (Option (Framebuffer Colour)) :=
  framebuffers.map (Option.map (updateBackground displays screenRect sampleBackgroundStripAt))

/-- **The pixels that are set** of a framebuffer, in the calls of
`buffer->set`. -/
def SetsBackground (area : Rect) (x y : ℤ) : Prop :=
  let rect := screenRect.intersect area
  (rect.y1 ≤ y ∧ y < rect.y2) ∧ DisplayManager.Painted (backgroundRuns displays rect y) x

/-- **The pixels that are to be set**: those of the rectangle that no
visible display covers in their row. -/
def IsBackground (area : Rect) (x y : ℤ) : Prop :=
  (screenRect.contains x y ∧ area.contains x y) ∧ ¬ ∃ d ∈ displays, d.Covers x y

/-- **The background is repainted exactly**: those are the pixels that are
set of each framebuffer, they have the background's colour then, and the
others what they had. -/
def RepaintsExactly (sampleBackgroundStripAt : ℤ → Colour)
    (framebuffers : List (Option (Framebuffer Colour))) : Prop :=
  List.Forall₂ (Option.Rel fun f f' =>
      (∀ x y, SetsBackground displays screenRect f.area x y ↔
        IsBackground displays screenRect f.area x y) ∧
      IsSet f f' (IsBackground displays screenRect f.area) fun _ y => sampleBackgroundStripAt y)
    framebuffers (updateBackgroundArea displays screenRect sampleBackgroundStripAt framebuffers)

/-- **A pixel that is lost**: the scan of its row passes over it, or ends
before it. -/
def LosesBackground (area : Rect) (x y : ℤ) : Prop :=
  let rect := screenRect.intersect area
  DisplayManager.BackgroundLoses (rowAreas displays y) rect.x2 x (rect.x2 - rect.x1).toNat rect.x1

instance (area : Rect) (x y : ℤ) : Decidable (LosesBackground displays screenRect area x y) :=
  inferInstanceAs (Decidable (DisplayManager.BackgroundLoses _ _ _ _ _))

instance (area : Rect) (x y : ℤ) : Decidable (IsBackground displays screenRect area x y) :=
  inferInstanceAs (Decidable (_ ∧ _))

end

variable {displays : List (ShapedDisplay Colour)} {screenRect area : Rect}
variable {sampleBackgroundStripAt : ℤ → Colour}

/-! ## What is set -/

/-- The pixels that are set have the background's colour, and the others
what they had. -/
theorem isSet_updateBackground (f : Framebuffer Colour) :
    IsSet f (updateBackground displays screenRect sampleBackgroundStripAt f)
      (SetsBackground displays screenRect f.area) fun _ y => sampleBackgroundStripAt y := by
  have hpaint := isSet_paint f 0 0 (screenRect.intersect f.area).y1
    (screenRect.intersect f.area).y2 (backgroundRuns displays (screenRect.intersect f.area))
    fun _ y => sampleBackgroundStripAt y
  simp only [Int.sub_zero] at hpaint
  exact hpaint

/-- **What is set is what is to be and is not lost.** -/
theorem setsBackground_iff {x y : ℤ} : SetsBackground displays screenRect area x y ↔
    IsBackground displays screenRect area x y ∧ ¬ LosesBackground displays screenRect area x y := by
  rw [SetsBackground, IsBackground, LosesBackground, ← Rect.contains_intersect, ← taken_rowAreas]
  rw [backgroundRuns, DisplayManager.painted_background_iff (fun _ => rowAreas_le) (Nat.le_refl _),
    Rect.contains]
  constructor
  · rintro ⟨hy, ⟨hx, hfree⟩, hkept⟩
    exact ⟨⟨⟨hx.1, hx.2, hy⟩, hfree⟩, hkept⟩
  · rintro ⟨⟨⟨h1, h2, hy⟩, hfree⟩, hkept⟩
    exact ⟨hy, ⟨⟨h1, h2⟩, hfree⟩, hkept⟩

/-! ## A gap that is lost -/

/-- A display of one pixel in the first row. -/
def dot (x : ℤ) : ShapedDisplay Bool where
  x := x
  y := 0
  layer := 0
  scale := 1
  width := 1
  height := 1
  buffer := fun _ _ => true
  isVisible := true
  solidArea := ⟨0, 0, 1, 1⟩
  topLeftCorner := fun _ => 0
  topRightCorner := fun _ => 0
  bottomLeftCorner := fun _ => 0
  bottomRightCorner := fun _ => 0

end Uberos
