import Mathlib.Data.List.FinRange
import Uberos.Library.Run
/-!
# The display manager

What `drivers/DisplayManager.cpp` paints when displays are shown, hidden,
moved and restacked, with updates. The displays are opaque: their solid
area is all of them, they have no corner margins, and the sections that
`_update_area_transparency` looks for there are none of. Coordinates do
not wrap. Framebuffers without a buffer are skipped everywhere and left
out; the pixels of the others are by screen position.
-/

namespace Uberos

/-- `graphics2d::Rect`. -/
structure Rect where
  x1 : ℤ
  y1 : ℤ
  x2 : ℤ
  y2 : ℤ
  deriving DecidableEq, Repr

namespace Rect

variable (r s : Rect) (x y : ℤ)

def offset : Rect := ⟨r.x1 + x, r.y1 + y, r.x2 + x, r.y2 + y⟩

/-- `intersect`. A side that comes to nothing becomes zero. -/
def intersect : Rect :=
  let x1 := max r.x1 s.x1
  let y1 := max r.y1 s.y1
  let x2 := min r.x2 s.x2
  let y2 := min r.y2 s.y2
  ⟨if x2 ≤ x1 then 0 else x1, if y2 ≤ y1 then 0 else y1,
    if x2 ≤ x1 then 0 else x2, if y2 ≤ y1 then 0 else y2⟩

def contains : Prop := r.x1 ≤ x ∧ x < r.x2 ∧ r.y1 ≤ y ∧ y < r.y2

instance : Decidable (r.contains x y) := inferInstanceAs (Decidable (_ ∧ _))

def isNonzero : Bool := r.x1 ≠ 0 || r.y1 ≠ 0 || r.x2 ≠ 0 || r.y2 ≠ 0

/-- `include`. -/
def extend : Rect :=
  if r.isNonzero then ⟨min r.x1 s.x1, min r.y1 s.y1, max r.x2 s.x2, max r.y2 s.y2⟩ else s

end Rect

/-- `DisplayManager::Display`. The size is that of its buffer, of which
each pixel is shown `scale` times in either direction. -/
structure Display (Colour : Type) where
  x : ℤ
  y : ℤ
  layer : ℕ
  scale : ℕ
  width : ℕ
  height : ℕ
  buffer : ℕ → ℕ → Colour
  isVisible : Bool

namespace Display

variable {Colour : Type} (d : Display Colour)

def getWidth : ℤ := d.width * d.scale

def getHeight : ℤ := d.height * d.scale

/-- Where it is on the screen. -/
def area : Rect := ⟨d.x, d.y, d.x + d.getWidth, d.y + d.getHeight⟩

/-- `solidArea`, within the display. -/
def solidArea : Rect := ⟨0, 0, d.getWidth, d.getHeight⟩

/-- The source pixel at a place within the display. -/
def source (x y : ℤ) : Colour := d.buffer (x / d.scale).toNat (y / d.scale).toNat

end Display

/-- A framebuffer. -/
structure Framebuffer (Colour : Type) where
  area : Rect
  pixels : ℤ → ℤ → Colour

namespace Framebuffer

variable {Colour : Type} (f : Framebuffer Colour)

/-- Pixels of a row are set, from `x1` up to `x2`. -/
def set (x1 x2 y : ℤ) (colour : ℤ → Colour) : Framebuffer Colour :=
  { f with pixels := fun x y' => if y' = y ∧ x1 ≤ x ∧ x < x2 then colour x else f.pixels x y' }

/-- The rows from `y1` up to `y2` are painted, in each the runs of it, at
an offset. -/
def paint (dx dy y1 y2 : ℤ) (runs : ℤ → List (ℤ × ℤ)) (colour : ℤ → ℤ → Colour) :
    Framebuffer Colour :=
  (List.range (y2 - y1).toNat).foldl (fun f (row : ℕ) =>
    let y := y1 + row
    (runs y).foldl (fun f run => f.set (dx + run.1) (dx + run.2) (dy + y)
      fun x => colour (x - dx) y) f) f

end Framebuffer

/-! ## Scanning a row -/

/-- The variables of a turn of the `while` in either scan. -/
structure Turn where
  startX : ℤ
  endX : ℤ
  nextX : ℤ
  deriving DecidableEq, Repr

/-- The next start, as `_update_background_area` has it. -/
def backgroundNext (t : Turn) (areaX2 : ℤ) : ℤ := max t.nextX areaX2

/-- The next start, as `__update_display_solid_area` has it: at a gap
before what was found already, there. -/
def displayNext (t : Turn) (areaX2 : ℤ) : ℤ :=
  if areaX2 < t.endX then areaX2 else max t.nextX areaX2

/-- The `for` over the displays in the way. -/
def scanTurn (next : Turn → ℤ → ℤ) : List (ℤ × ℤ) → Turn → Turn
  | [], t => t
  | (areaX1, areaX2) :: rest, t =>
    if areaX1 ≤ t.startX then
      -- nothing is left before the end: the loop breaks
      if max t.startX areaX2 ≥ t.endX then { t with startX := max t.startX areaX2 }
      else scanTurn next rest { t with startX := max t.startX areaX2 }
    else if areaX1 < t.endX then
      -- what is drawn ends where this display starts
      scanTurn next rest { t with endX := areaX1, nextX := next t areaX2 }
    else scanTurn next rest t

/-- The `while` of a row up to `x2`: the runs it paints. A turn that is
followed by another moves the start to the right. -/
def scanRow (next : Turn → ℤ → ℤ) (areas : List (ℤ × ℤ)) (x2 : ℤ) : ℕ → ℤ → List (ℤ × ℤ)
  | 0, _ => []
  | fuel + 1, startX =>
    if startX < x2 then
      let t := scanTurn next areas ⟨startX, x2, startX⟩
      (if t.endX > t.startX then [(t.startX, t.endX)] else []) ++
        if t.nextX > t.endX then scanRow next areas x2 fuel t.nextX else []
    else []

/-! ## The manager -/

/-- The displays with their order from the bottom, the framebuffers, and
`_sample_background_at`. -/
structure DisplayManager (n : ℕ) (Colour : Type) where
  display : Fin n → Display Colour
  displays : List (Fin n)
  framebuffers : List (Framebuffer Colour)
  totalArea : Rect
  sampleBackgroundAt : ℤ → ℤ → Colour

namespace DisplayManager

variable {n : ℕ} {Colour : Type} (m : DisplayManager n Colour)

/-- The displays after one in the list. -/
def above (i : Fin n) : List (Fin n) := (m.displays.dropWhile (· ≠ i)).tail

/-- What visible displays, in their order, take up of a row. -/
def rowAreas (displays : List (Fin n)) (y : ℤ) : List (ℤ × ℤ) :=
  displays.filterMap fun i =>
    let d := m.display i
    if d.isVisible ∧ d.y ≤ y ∧ y < d.y + d.getHeight then some (d.x, d.x + d.getWidth) else none

/-! ## Painting -/

/-- The runs `_update_background_area` paints of a row. -/
def backgroundRuns (rect : Rect) (y : ℤ) : List (ℤ × ℤ) :=
  scanRow backgroundNext (m.rowAreas m.displays y) rect.x2 (rect.x2 - rect.x1).toNat rect.x1

/-- `_update_background_area`. -/
def updateBackgroundArea (screenRect : Rect) : DisplayManager n Colour :=
  { m with framebuffers := m.framebuffers.map fun f =>
      let rect := screenRect.intersect f.area
      f.paint 0 0 rect.y1 rect.y2 (m.backgroundRuns rect) m.sampleBackgroundAt }

/-- The runs `__update_display_solid_area` paints of a row, both within
the display. -/
def displayRuns (i : Fin n) (rect : Rect) (y : ℤ) : List (ℤ × ℤ) :=
  let d := m.display i
  let startX := max rect.x1 0
  let x2 := min rect.x2 d.getWidth
  let areas := (m.rowAreas (m.above i) (d.y + y)).map fun area => (area.1 - d.x, area.2 - d.x)
  scanRow displayNext areas x2 (x2 - startX).toNat startX

/-- `__update_display_solid_area`. -/
def updateDisplaySolidArea (i : Fin n) (displayRect : Rect) : DisplayManager n Colour :=
  let d := m.display i
  { m with framebuffers := m.framebuffers.map fun f =>
      let rect := (((displayRect.intersect d.solidArea).offset d.x d.y).intersect f.area).offset
        (-d.x) (-d.y)
      f.paint d.x d.y rect.y1 rect.y2 (m.displayRuns i rect) d.source }

/-- `_update_display_area_solid`, which knows four scales. -/
def updateDisplayAreaSolid (i : Fin n) (rect : Rect) : DisplayManager n Colour :=
  if (m.display i).isVisible = false then m
  else if 1 ≤ (m.display i).scale ∧ (m.display i).scale ≤ 4 then m.updateDisplaySolidArea i rect
  else m

/-- `_update_display_solid`. -/
def updateDisplaySolid (i : Fin n) : DisplayManager n Colour :=
  m.updateDisplayAreaSolid i (m.display i).solidArea

/-- `_update_area_solid`, up to a display of the list. -/
def updateAreaSolid (rect : Rect) (below : Fin n) : DisplayManager n Colour :=
  (m.displays.takeWhile (· ≠ below)).foldl (fun m i =>
    let d := m.display i
    if d.isVisible = false then m
    else m.updateDisplayAreaSolid i ((rect.offset (-d.x) (-d.y)).intersect d.solidArea))
    (m.updateBackgroundArea rect)

/-! ## Showing, hiding and moving -/

def setDisplay (i : Fin n) (d : Display Colour) : DisplayManager n Colour :=
  { m with display := Function.update m.display i d }

/-- `_show_display`. -/
def showDisplay (i : Fin n) : DisplayManager n Colour :=
  if (m.display i).isVisible then m
  else (m.setDisplay i { m.display i with isVisible := true }).updateDisplaySolid i

/-- `_hide_display`. -/
def hideDisplay (i : Fin n) : DisplayManager n Colour :=
  if (m.display i).isVisible = false then m
  else
    (m.setDisplay i { m.display i with isVisible := false }).updateAreaSolid (m.display i).area i

/-- The parts of the old area that `_move_display_to` updates: above the
new one, below it, to its left and to its right. -/
def uncovered (totalArea oldRect area : Rect) : List Rect :=
  (if area.y1 > totalArea.y1 then
    [oldRect.intersect ⟨totalArea.x1, totalArea.y1, totalArea.x2, area.y1⟩] else []) ++
  (if area.y2 < totalArea.y2 then
    [oldRect.intersect ⟨totalArea.x1, area.y2, totalArea.x2, totalArea.y2⟩] else []) ++
  (if area.x1 > totalArea.x1 then
    [oldRect.intersect ⟨totalArea.x1, area.y1, area.x1, area.y2⟩] else []) ++
  (if area.x2 < totalArea.x2 then
    [oldRect.intersect ⟨area.x2, area.y1, totalArea.x2, area.y2⟩] else [])

/-- `_move_display_to`. -/
def moveDisplayTo (i : Fin n) (x y : ℤ) : DisplayManager n Colour :=
  let d := m.display i
  let moved := { d with x := x, y := y }
  if d.x = x ∧ d.y = y then m
  else if d.isVisible = false then m.setDisplay i moved
  else
    -- the parts are each updated up to the display, with the display at its new place
    let cleared := (uncovered m.totalArea d.area moved.area).foldl
      (fun m rect => m.updateAreaSolid rect i) (m.setDisplay i moved)
    (cleared.updateAreaSolid moved.area i).updateDisplayAreaSolid i
      ((moved.area.offset (-x) (-y)).intersect moved.solidArea)

/-! ## Restacking -/

/-- `insert_after` of the list. -/
def insertAfter (other item : Fin n) : List (Fin n) → List (Fin n)
  | [] => []
  | first :: rest =>
    if first = other then first :: item :: rest else first :: insertAfter other item rest

/-- `insert_before` of the list. -/
def insertBefore (other item : Fin n) : List (Fin n) → List (Fin n)
  | [] => []
  | first :: rest =>
    if first = other then item :: first :: rest else first :: insertBefore other item rest

/-- The place of a display among others by its layer: on top of those of
its layer. -/
def insertByLayer (display : Fin n → Display Colour) (i : Fin n) (others : List (Fin n)) :
    List (Fin n) :=
  match others.reverse.find? fun other => (display other).layer ≤ (display i).layer with
  | some other => insertAfter other i others
  | none => i :: others

/-- The list without a display, its layer set, and the display put back. -/
def restack (i : Fin n) (layer : ℕ) (insert : List (Fin n) → List (Fin n)) :
    DisplayManager n Colour :=
  { m.setDisplay i { m.display i with layer := layer } with
    displays := insert (m.displays.erase i) }

/-- `_place_above`. By itself a display must not be placed: there the list
of the source is linked in a circle, which this one is not. -/
def placeAbove (i other : Fin n) : DisplayManager n Colour :=
  (m.restack i (m.display other).layer (insertAfter other i)).updateDisplaySolid i

/-- `_place_below`. The same goes for it. -/
def placeBelow (i other : Fin n) : DisplayManager n Colour :=
  (m.restack i (m.display other).layer (insertBefore other i)).updateDisplaySolid i

/-- `_is_display_top`. -/
def isDisplayTop (i : Fin n) : Bool :=
  match (m.above i).head? with
  | none => true
  | some next => (m.display next).layer > (m.display i).layer

/-- `_raise_display`. -/
def raiseDisplay (i : Fin n) : DisplayManager n Colour :=
  if m.isDisplayTop i then m
  else (m.restack i (m.display i).layer (insertByLayer m.display i)).updateDisplaySolid i

/-- The place `_set_display_layer` finds: below all of the layer. -/
def insertUnderLayer (display : Fin n → Display Colour) (layer : ℕ) (i : Fin n)
    (others : List (Fin n)) : List (Fin n) :=
  match others.find? fun other => (display other).layer ≥ layer with
  | some other => insertBefore other i others
  | none => others ++ [i]

/-- `_set_display_layer`. -/
def setDisplayLayer (i : Fin n) (layer : ℕ) : DisplayManager n Colour :=
  if (m.display i).layer = layer then m
  else (m.restack i layer (insertUnderLayer m.display layer i)).updateDisplaySolid i

/-! ## Steps -/

/-- `_update_framebuffer_positions`: one to the right of the other. -/
def framebufferAreas : ℤ → List (ℕ × ℕ) → List Rect
  | _, [] => []
  | x, (width, height) :: rest => ⟨x, 0, x + width, height⟩ :: framebufferAreas (x + width) rest

/-- Displays as they are created, one after another, over framebuffers of
these sizes that show the background. -/
def new (display : Fin n → Display Colour) (sizes : List (ℕ × ℕ))
    (sampleBackgroundAt : ℤ → ℤ → Colour) : DisplayManager n Colour where
  display i := { display i with isVisible := false }
  displays := (List.finRange n).foldl (fun displays i => insertByLayer display i displays) []
  framebuffers := (framebufferAreas 0 sizes).map fun area => ⟨area, sampleBackgroundAt⟩
  totalArea := (framebufferAreas 0 sizes).foldl Rect.extend ⟨0, 0, 0, 0⟩
  sampleBackgroundAt := sampleBackgroundAt

/-- What can happen next. -/
inductive Op (n : ℕ)
  | showDisplay (i : Fin n)
  | hideDisplay (i : Fin n)
  | moveTo (i : Fin n) (x y : ℤ)
  | raise (i : Fin n)
  | placeAbove (i other : Fin n)
  | placeBelow (i other : Fin n)
  | setLayer (i : Fin n) (layer : ℕ)
  deriving DecidableEq, Repr

/-- One step. -/
def step (m : DisplayManager n Colour) : Op n → DisplayManager n Colour
  | .showDisplay i => m.showDisplay i
  | .hideDisplay i => m.hideDisplay i
  | .moveTo i x y => m.moveDisplayTo i x y
  | .raise i => m.raiseDisplay i
  | .placeAbove i other => m.placeAbove i other
  | .placeBelow i other => m.placeBelow i other
  | .setLayer i layer => m.setDisplayLayer i layer

end DisplayManager

end Uberos

/-!
## Displays of any shape

A `DisplayManager::Display` with a solid area and with corners, which take
margins off the rows at its top and its bottom. Coordinates do not wrap,
but for those that are made unsigned.
-/

namespace Uberos

/-- `DisplayManager::Display`, of any shape. -/
structure ShapedDisplay (Colour : Type) extends Display Colour where
  solidArea : Rect
  topLeftCorner : ℕ → ℕ
  topRightCorner : ℕ → ℕ
  bottomLeftCorner : ℕ → ℕ
  bottomRightCorner : ℕ → ℕ

namespace ShapedDisplay

variable {Colour : Type} (d : ShapedDisplay Colour)

/-- The margin of a row by the corners of its side. The row is a `U32`. -/
def margin (topCorner bottomCorner : ℕ → ℕ) (y : ℤ) : ℤ :=
  let y := y % 4294967296
  if y < 16 ∧ y ≤ d.height / 2 then min (topCorner y.toNat : ℤ) (d.getWidth / 2)
  else
    let bottom := (d.getHeight - 1 - y) % 4294967296
    if bottom < 16 then min (bottomCorner bottom.toNat : ℤ) (d.getWidth / 2) else 0

/-- `get_left_margin`. -/
def getLeftMargin : ℤ → ℤ := d.margin d.topLeftCorner d.bottomLeftCorner

/-- `get_right_margin`. -/
def getRightMargin : ℤ → ℤ := d.margin d.topRightCorner d.bottomRightCorner

/-- Where it starts in a row of the screen. -/
def left (y : ℤ) : ℤ := d.x + d.getLeftMargin (y - d.y)

/-- Where it ends in a row of the screen. -/
def right (y : ℤ) : ℤ := d.x + d.getWidth - d.getRightMargin (y - d.y)

/-- It has a row of the screen. -/
def HasRow (y : ℤ) : Prop := d.y ≤ y ∧ y < d.y + d.getHeight

instance (y : ℤ) : Decidable (d.HasRow y) := inferInstanceAs (Decidable (_ ∧ _))

/-- **It covers a place of the screen**, if it is visible. -/
def Covers (x y : ℤ) : Prop := d.isVisible = true ∧ d.HasRow y ∧ d.left y ≤ x ∧ x < d.right y

instance (x y : ℤ) : Decidable (d.Covers x y) := inferInstanceAs (Decidable (_ ∧ _))

/-- A margin takes no more than half of a row. -/
theorem margin_range (topCorner bottomCorner : ℕ → ℕ) (y : ℤ) :
    0 ≤ d.margin topCorner bottomCorner y ∧
      d.margin topCorner bottomCorner y ≤ d.getWidth / 2 := by
  have hwidth : 0 ≤ d.getWidth :=
    Int.mul_nonneg (Int.natCast_nonneg d.width) (Int.natCast_nonneg d.scale)
  rw [margin]
  dsimp only
  split
  · omega
  · split
    · omega
    · omega

/-- **What the margins leave of a row is not less than nothing.** -/
theorem left_le_right (y : ℤ) : d.left y ≤ d.right y := by
  have hleft := d.margin_range d.topLeftCorner d.bottomLeftCorner (y - d.y)
  have hright := d.margin_range d.topRightCorner d.bottomRightCorner (y - d.y)
  rw [left, right, getLeftMargin, getRightMargin]
  omega

theorem x_le_left (y : ℤ) : d.x ≤ d.left y := by
  have hleft := d.margin_range d.topLeftCorner d.bottomLeftCorner (y - d.y)
  rw [left, getLeftMargin]
  omega

theorem right_le (y : ℤ) : d.right y ≤ d.x + d.getWidth := by
  have hright := d.margin_range d.topRightCorner d.bottomRightCorner (y - d.y)
  rw [right, getRightMargin]
  omega

end ShapedDisplay

end Uberos
