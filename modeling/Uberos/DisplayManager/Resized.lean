import Mathlib.Data.List.Forall2
import Uberos.DisplayManager.Composed
/-!
# Resizing a display

`_resize_display_to` and `_move_and_resize_display_to` give a display a new
buffer, in which there is nothing yet, and update what it leaves of its old
place up to it. The updates have all that is left of it, and nothing else, so
what matters is what they lose. The display is opaque after as it was before,
its solid area all of its new size.
-/

namespace Uberos

namespace DisplayManager

open Framebuffer

variable {n : ℕ} {Colour : Type} {m m' : DisplayManager n Colour} {i : Fin n}
variable {x y : ℤ} {rect area : Rect}

/-! ## The calls -/

section

variable (m : DisplayManager n Colour) (i : Fin n)

/-- Areas updated up to a display, one after another. -/
def updateAreas (rects : List Rect) : DisplayManager n Colour :=
  rects.foldl (fun m rect => m.updateAreaSolid rect i) m

/-- What `_resize_display_to` updates of the old area: what is to the right
of the new one, and what is below it. -/
def shrunk (d resized : Display Colour) (width height : ℕ) : List Rect :=
  (if width < d.getWidth then
    [⟨d.x + resized.getWidth, d.y, d.x + d.getWidth, d.y + d.getHeight⟩] else []) ++
  (if height < d.getHeight then
    [⟨d.x, d.y + resized.getHeight, d.x + d.getWidth, d.y + d.getHeight⟩] else [])

/-- `_resize_display_to`. Nothing is put in the new buffer. -/
def resizeDisplayTo (width height : ℕ) (buffer : ℕ → ℕ → Colour) : DisplayManager n Colour :=
  let width := max 16 width
  let height := max 16 height
  let d := m.display i
  let resized := { d with width := width, height := height, buffer := buffer }
  if d.getWidth = width ∧ d.getHeight = height then m
  else if d.isVisible = false then m.setDisplay i resized
  else (m.setDisplay i resized).updateAreas i (shrunk d resized width height)

/-- `_move_display_to`, where `update` is not set. -/
def moveDisplayOnlyTo (x y : ℤ) : DisplayManager n Colour :=
  let d := m.display i
  let moved := { d with x := x, y := y }
  if d.x = x ∧ d.y = y then m
  else if d.isVisible = false then m.setDisplay i moved
  else (m.setDisplay i moved).updateAreas i (uncovered m.totalArea d.area moved.area)

/-- `_move_and_resize_display_to`. The sides of the area are not negative.
What is uncovered is told by the area, whatever the scale. -/
def moveAndResizeDisplayTo (area : Rect) (buffer : ℕ → ℕ → Colour) : DisplayManager n Colour :=
  let newWidth := (area.x2 - area.x1).toNat
  let newHeight := (area.y2 - area.y1).toNat
  let d := m.display i
  let resized :=
    { d with x := area.x1, y := area.y1, width := newWidth, height := newHeight, buffer := buffer }
  if newWidth = d.width ∧ newHeight = d.height then m.moveDisplayOnlyTo i area.x1 area.y1
  else if area.x1 = d.x ∧ area.y1 = d.y then m.resizeDisplayTo i newWidth newHeight buffer
  else if d.isVisible = false then m.setDisplay i resized
  else (m.setDisplay i resized).updateAreas i (uncovered m.totalArea d.area area)

end

/-- A call that resizes a display. -/
inductive ResizeCall
  | resizeTo (width height : ℕ)
  | moveAndResizeTo (area : Rect)

/-- What it does, with what is in the new buffer. -/
def resize (m : DisplayManager n Colour) (i : Fin n) (buffer : ℕ → ℕ → Colour) :
    ResizeCall → DisplayManager n Colour
  | .resizeTo width height => m.resizeDisplayTo i width height buffer
  | .moveAndResizeTo area => m.moveAndResizeDisplayTo i area buffer

/-! ## What it is for -/

/-- **What a display has left is repainted**: each pixel of its old area and
not of its new one is that of the topmost visible display there, or the
background's, and none has changed but in the old area. -/
def RepaintsLeft (i : Fin n) (m m' : DisplayManager n Colour) : Prop :=
  List.Forall₂ (fun f f' => f'.area = f.area ∧ ∀ x y, f.area.contains x y →
      ((m.display i).area.contains x y → ¬ (m'.display i).area.contains x y →
        f'.pixels x y = m'.compose x y) ∧
      (¬ (m.display i).area.contains x y → f'.pixels x y = f.pixels x y))
    m.framebuffers m'.framebuffers

/-! ## What a call comes to -/

/-- **A change of a display**: the display after it, and areas to be
updated. They are in the old area, and have all that is left of it. -/
structure Change (totalArea : Rect) (d : Display Colour) where
  display : Display Colour
  updated : List Rect
  within : ∀ rect ∈ updated, ∀ x y, rect.contains x y → d.area.contains x y
  cleared : ∀ x y, d.area.contains x y → totalArea.contains x y → ¬ display.area.contains x y →
    ∃ rect ∈ updated, rect.contains x y

/-- The parts of the old area are in it. -/
theorem contains_of_mem_uncovered {totalArea oldRect : Rect}
    (h : rect ∈ uncovered totalArea oldRect area) (hrect : rect.contains x y) :
    oldRect.contains x y := by
  have hpart : ∃ part : Rect, rect = oldRect.intersect part := by
    simp only [uncovered, List.mem_append, List.mem_ite_nil_right, List.mem_singleton] at h
    rcases h with ((⟨-, h⟩ | ⟨-, h⟩) | ⟨-, h⟩) | ⟨-, h⟩
    · exact ⟨_, h⟩
    · exact ⟨_, h⟩
    · exact ⟨_, h⟩
    · exact ⟨_, h⟩
  obtain ⟨part, rfl⟩ := hpart
  exact (Rect.contains_intersect.1 hrect).1

/-- So are what is to its right and what is below it. -/
theorem contains_of_mem_shrunk {d resized : Display Colour} {width height : ℕ}
    (h : rect ∈ shrunk d resized width height) (hrect : rect.contains x y) :
    d.area.contains x y := by
  have hwidth : 0 ≤ resized.getWidth :=
    Int.mul_nonneg (Int.natCast_nonneg _) (Int.natCast_nonneg _)
  have hheight : 0 ≤ resized.getHeight :=
    Int.mul_nonneg (Int.natCast_nonneg _) (Int.natCast_nonneg _)
  simp only [shrunk, List.mem_append, List.mem_ite_nil_right, List.mem_singleton] at h
  rcases h with ⟨-, rfl⟩ | ⟨-, rfl⟩
  · simp only [Rect.contains, Display.area] at hrect ⊢
    omega
  · simp only [Rect.contains, Display.area] at hrect ⊢
    omega

/-- A side of a display is no shorter on the screen than in its buffer,
where there is any of it. -/
theorem le_scaled {d : Display Colour} (side : ℕ) (h : d.area.contains x y) :
    (side : ℤ) ≤ side * d.scale := by
  have hscale : d.scale ≠ 0 := by
    intro hzero
    simp only [Rect.contains, Display.area, Display.getWidth, hzero] at h
    omega
  rw [← Int.natCast_mul]
  exact Int.ofNat_le.2 (Nat.le_mul_of_pos_right side (Nat.pos_of_ne_zero hscale))

/-- **They have all that is left** of a display that stays where it is. -/
theorem exists_shrunk {d : Display Colour} {width height : ℕ} {buffer : ℕ → ℕ → Colour}
    (hold : d.area.contains x y)
    (hnew : ¬ { d with width := width, height := height, buffer := buffer : Display Colour
      }.area.contains x y) :
    ∃ rect ∈ shrunk d { d with width := width, height := height, buffer := buffer } width height,
      rect.contains x y := by
  have hwidth : (width : ℤ) ≤ width * d.scale := le_scaled width hold
  have hheight : (height : ℤ) ≤ height * d.scale := le_scaled height hold
  simp only [Rect.contains, Display.area] at hold hnew
  by_cases hright : d.x + width * d.scale ≤ x
  · refine ⟨⟨d.x + width * d.scale, d.y, d.x + d.getWidth, d.y + d.getHeight⟩, ?_, hright, ?_⟩
    · have hless : width < d.getWidth := by omega
      exact List.mem_append_left _ (List.mem_ite_nil_right.2 ⟨hless, List.mem_cons_self⟩)
    · exact ⟨hold.2.1, hold.2.2⟩
  · have hbelow : d.y + height * d.scale ≤ y := by
      rw [Display.getWidth, Display.getHeight] at hnew
      dsimp only at hnew
      omega
    refine ⟨⟨d.x, d.y + height * d.scale, d.x + d.getWidth, d.y + d.getHeight⟩, ?_, hold.1, ?_⟩
    · have hless : height < d.getHeight := by omega
      exact List.mem_append_right _ (List.mem_ite_nil_right.2 ⟨hless, List.mem_cons_self⟩)
    · exact ⟨hold.2.1, hbelow, hold.2.2.2⟩

/-- A display given the size of an area is where the area is. -/
theorem contains_of_area {d : Display Colour} {buffer : ℕ → ℕ → Colour} (hold : d.area.contains x y)
    (hcontains : area.contains x y) :
    { d with x := area.x1, y := area.y1, width := (area.x2 - area.x1).toNat
             height := (area.y2 - area.y1).toNat, buffer := buffer : Display Colour
      }.area.contains x y := by
  have hwidth := le_scaled (area.x2 - area.x1).toNat hold
  have hheight := le_scaled (area.y2 - area.y1).toNat hold
  obtain ⟨hx1, hx2, hy1, hy2⟩ := hcontains
  rw [Int.toNat_of_nonneg (by omega)] at hwidth hheight
  simp only [Rect.contains, Display.area, Display.getWidth, Display.getHeight]
  rw [Int.toNat_of_nonneg (by omega), Int.toNat_of_nonneg (by omega)]
  omega

namespace Change

variable {totalArea : Rect} (d : Display Colour) (buffer : ℕ → ℕ → Colour)

/-- It stays as it is. -/
def unchanged : Change totalArea d where
  display := d
  updated := []
  within := by simp
  cleared _ _ hold _ hnew := absurd hold hnew

/-- By `_resize_display_to`. -/
def resized (width height : ℕ) : Change totalArea d where
  display := { d with width := width, height := height, buffer := buffer }
  updated := shrunk d { d with width := width, height := height, buffer := buffer } width height
  within _ hmem _ _ hrect := contains_of_mem_shrunk hmem hrect
  cleared _ _ hold _ hnew := exists_shrunk hold hnew

/-- By `_move_display_to`. -/
def moved (x y : ℤ) : Change totalArea d where
  display := { d with x := x, y := y }
  updated := uncovered totalArea d.area { d with x := x, y := y }.area
  within _ hmem _ _ hrect := contains_of_mem_uncovered hmem hrect
  cleared _ _ hold htotal hnew := exists_uncovered hold htotal hnew

/-- By `_move_and_resize_display_to`. -/
def movedAndResized (area : Rect) : Change totalArea d where
  display :=
    { d with x := area.x1, y := area.y1, width := (area.x2 - area.x1).toNat
             height := (area.y2 - area.y1).toNat, buffer := buffer }
  updated := uncovered totalArea d.area area
  within _ hmem _ _ hrect := contains_of_mem_uncovered hmem hrect
  cleared _ _ hold htotal hnew := exists_uncovered hold htotal fun hcontains =>
    hnew (contains_of_area hold hcontains)

/-- A resize, unless the size on the screen is as given. -/
def resizeTo (width height : ℕ) : Change totalArea d :=
  if d.getWidth = (max 16 width : ℕ) ∧ d.getHeight = (max 16 height : ℕ) then unchanged d
  else resized d buffer (max 16 width) (max 16 height)

/-- **What a call comes to.** -/
def ofCall : ResizeCall → Change totalArea d
  | .resizeTo width height => resizeTo d buffer width height
  | .moveAndResizeTo area =>
    let newWidth := (area.x2 - area.x1).toNat
    let newHeight := (area.y2 - area.y1).toNat
    if newWidth = d.width ∧ newHeight = d.height then
      if d.x = area.x1 ∧ d.y = area.y1 then unchanged d else moved d area.x1 area.y1
    else if area.x1 = d.x ∧ area.y1 = d.y then resizeTo d buffer newWidth newHeight
    else movedAndResized d buffer area

end Change

/-- A change of a display that is made, and what it leaves updated. -/
def change (m : DisplayManager n Colour) (i : Fin n) (c : Change m.totalArea (m.display i)) :
    DisplayManager n Colour :=
  (m.setDisplay i c.display).updateAreas i c.updated

theorem change_unchanged : m.change i (Change.unchanged (m.display i)) = m := by
  rw [change, Change.unchanged, setDisplay, Function.update_eq_self]
  rfl

theorem resizeDisplayTo_eq (hvisible : (m.display i).isVisible = true)
    (buffer : ℕ → ℕ → Colour) (width height : ℕ) : m.resizeDisplayTo i width height buffer =
      m.change i (Change.resizeTo (m.display i) buffer width height) := by
  rw [resizeDisplayTo, Change.resizeTo]
  split
  · exact change_unchanged.symm
  · rw [if_neg (by simp [hvisible])]
    rfl

/-- **A call on a visible display makes the change it comes to.** -/
theorem resize_eq (hvisible : (m.display i).isVisible = true) (buffer : ℕ → ℕ → Colour)
    (call : ResizeCall) :
    m.resize i buffer call = m.change i (Change.ofCall (m.display i) buffer call) := by
  cases call with
  | resizeTo width height => exact resizeDisplayTo_eq hvisible buffer width height
  | moveAndResizeTo area =>
    rw [resize, moveAndResizeDisplayTo, Change.ofCall]
    split
    · rw [moveDisplayOnlyTo]
      split
      · exact change_unchanged.symm
      · rw [if_neg (by simp [hvisible])]
        rfl
    · split
      · exact resizeDisplayTo_eq hvisible buffer _ _
      · rw [if_neg (by simp [hvisible])]
        rfl

/-! ## The result -/

/-- **A place of a framebuffer is lost** to the updates of areas: it is in
some, and lost to each it is in. -/
def Lost (m : DisplayManager n Colour) (rects : List Rect) (area : Rect) (x y : ℤ) : Prop :=
  (∃ rect ∈ rects, rect.contains x y) ∧
    ∀ rect ∈ rects, rect.contains x y → m.UpdateLoses rect area x y

instance (rects : List Rect) : Decidable (m.Lost rects area x y) :=
  inferInstanceAs (Decidable (_ ∧ _))

/-- **A change that loses nothing** of the old area that is not in the new
one, where a pixel should be another than it was. -/
def Keeps (m : DisplayManager n Colour) (i : Fin n) (c : Change m.totalArea (m.display i)) :
    Prop :=
  let m' := m.setDisplay i c.display
  ∀ f ∈ m.framebuffers, f.area.All fun x y =>
    (m.display i).area.contains x y → ¬ c.display.area.contains x y →
      m'.compose x y ≠ m.compose x y → ¬ m'.Lost c.updated f.area x y

instance [DecidableEq Colour] (c : Change m.totalArea (m.display i)) : Decidable (m.Keeps i c) :=
  inferInstanceAs (Decidable (∀ f ∈ m.framebuffers, f.area.All _))

/-- What should be at a place changes only where the display was topmost. -/
theorem topmost_of_compose_ne {d : Display Colour} (h : m.Stacked)
    (hnew : ¬ d.area.contains x y)
    (hchanged : (m.setDisplay i d).compose x y ≠ m.compose x y) :
    m.topmost x y = some i ∧ (m.setDisplay i d).topmost x y ≠ some i := by
  have hnot : (m.setDisplay i d).topmost x y ≠ some i := by
    intro htop
    have hcovers := (h.setDisplay.topmost_eq_some.1 htop).1.2
    rw [setDisplay_display_self] at hcovers
    exact hnew hcovers
  refine ⟨?_, hnot⟩
  by_contra htop
  exact hchanged ((allBut_setDisplay m i d).compose h htop hnot)

/-- What a change sets. -/
theorem sets_change (h : m.Stacked) (c : Change m.totalArea (m.display i)) :
    Sets (m.setDisplay i c.display) (m.change i c) fun area x y =>
      ∃ rect ∈ c.updated, (m.setDisplay i c.display).AreaSet i rect area x y :=
  sets_updateAreas h.setDisplay i c.updated

/-- **A pixel that is left is right after a change** unless it is lost, and
should be another than it was. -/
theorem pixel_right_iff {f f' : Framebuffer Colour} (hstacked : m.Stacked)
    (c : Change m.totalArea (m.display i))
    (hset : IsSet f f' (fun x y => ∃ rect ∈ c.updated,
      (m.setDisplay i c.display).AreaSet i rect f.area x y) (m.setDisplay i c.display).compose)
    (hbefore : f.pixels x y = m.compose x y) (hcontains : f.area.contains x y)
    (htotal : m.totalArea.contains x y) (hold : (m.display i).area.contains x y)
    (hnew : ¬ c.display.area.contains x y) :
    f'.pixels x y = (m.setDisplay i c.display).compose x y ↔
      ((m.setDisplay i c.display).compose x y ≠ m.compose x y →
        ¬ (m.setDisplay i c.display).Lost c.updated f.area x y) := by
  constructor
  · rintro hright hchanged ⟨-, hlost⟩
    by_cases hin : ∃ rect ∈ c.updated, (m.setDisplay i c.display).AreaSet i rect f.area x y
    · obtain ⟨rect, hmem, ⟨hrect, -⟩, -, hkept⟩ := hin
      exact hkept (hlost rect hmem hrect)
    · rw [hset.off x y hin, hbefore] at hright
      exact hchanged hright.symm
  · intro hkept
    by_cases hchanged : (m.setDisplay i c.display).compose x y = m.compose x y
    · by_cases hin : ∃ rect ∈ c.updated, (m.setDisplay i c.display).AreaSet i rect f.area x y
      · exact hset.on x y hin
      · rw [hset.off x y hin, hbefore, hchanged]
    · obtain ⟨htop, htop'⟩ := topmost_of_compose_ne hstacked hnew hchanged
      have hunder := hstacked.topmost_uncovered (allBut_setDisplay m i c.display) rfl htop htop'
      -- an update has the place, as they have all that is left
      have hkeeping : ∃ rect ∈ c.updated, rect.contains x y ∧
          ¬ (m.setDisplay i c.display).UpdateLoses rect f.area x y := by
        by_contra hnone
        refine hkept hchanged ⟨c.cleared x y hold htotal hnew, fun rect hmem hrect => ?_⟩
        by_contra hloses
        exact hnone ⟨rect, hmem, hrect, hloses⟩
      obtain ⟨rect, hmem, hrect, hkeeps⟩ := hkeeping
      exact hset.on x y ⟨rect, hmem, ⟨hrect, hcontains⟩, hunder, hkeeps⟩

/-- **Resizing repaints what it leaves** just where its updates lose nothing
of it: where no scan of a row passes over a gap between a display and one
found before it further to the right, or stops at a display that has
nothing of the row, and what is under has a scale that is known. No other
pixel changes in any case. -/
theorem repaintsLeft_iff (hcomposed : m.Composed) (hstacked : m.Stacked)
    (hinside : ∀ f ∈ m.framebuffers, ∀ x y, f.area.contains x y → m.totalArea.contains x y)
    (hvisible : (m.display i).isVisible = true) (buffer : ℕ → ℕ → Colour) (call : ResizeCall) :
    RepaintsLeft i m (m.resize i buffer call) ↔
      m.Keeps i (Change.ofCall (m.display i) buffer call) := by
  rw [resize_eq hvisible]
  generalize Change.ofCall (m.display i) buffer call = c
  have hsets := sets_change hstacked c
  have hdisplay : (m.change i c).display i = c.display := by
    rw [hsets.display, setDisplay_display_self]
  have hcompose := hsets.compose
  obtain ⟨-, repaint, hmap, hset⟩ := hsets
  rw [RepaintsLeft, hmap, hdisplay, hcompose, List.forall₂_map_right_iff]
  change List.Forall₂ _ m.framebuffers m.framebuffers ↔ _
  rw [List.forall₂_same]
  refine forall₂_congr fun f hf => ?_
  rw [and_iff_right (hset f).area, Rect.all_iff]
  refine forall_congr' fun x => forall_congr' fun y => forall_congr' fun hcontains => ?_
  have houtside : ¬ (m.display i).area.contains x y → (repaint f).pixels x y = f.pixels x y := by
    intro hout
    refine (hset f).off x y ?_
    rintro ⟨rect, hmem, ⟨hrect, -⟩, -⟩
    exact hout (c.within rect hmem x y hrect)
  rw [and_iff_left houtside]
  refine forall_congr' fun hold => forall_congr' fun hnew => ?_
  exact pixel_right_iff hstacked c (hset f) (hcomposed f hf x y hcontains) hcontains
    (hinside f hf x y hcontains) hold hnew

/-! ## Settled screens -/

/-- Displays in their order over framebuffers that show what they should. -/
def settled (display : Fin n → Display Colour) (areas : List Rect)
    (sampleBackgroundAt : ℤ → ℤ → Colour) : DisplayManager n Colour :=
  let m : DisplayManager n Colour :=
    ⟨display, List.finRange n, [], areas.foldl Rect.extend ⟨0, 0, 0, 0⟩, sampleBackgroundAt⟩
  { m with framebuffers := areas.map fun area => ⟨area, m.compose⟩ }

section

variable (display : Fin n → Display Colour) (areas : List Rect)
variable (sampleBackgroundAt : ℤ → ℤ → Colour)

theorem composed_settled : (settled display areas sampleBackgroundAt).Composed := by
  intro f hf x y _
  obtain ⟨area, -, rfl⟩ := List.mem_map.1 hf
  rfl

theorem stacked_settled : (settled display areas sampleBackgroundAt).Stacked :=
  ⟨List.nodup_finRange n, List.mem_finRange⟩

theorem inside_settled : ∀ f ∈ (settled display areas sampleBackgroundAt).framebuffers,
    ∀ x y, f.area.contains x y →
      (settled display areas sampleBackgroundAt).totalArea.contains x y := by
  intro f hf x y hcontains
  obtain ⟨area, harea, rfl⟩ := List.mem_map.1 hf
  exact contains_foldl_extend (Or.inr ⟨area, harea, hcontains⟩)

end

/-- A display with one under it, made smaller, and moved as well. -/
theorem repaintsLeft_iff_tiles :
    let m := settled [{ tile 0 0 1 2 10 9 1 with isVisible := true },
      { tile 4 0 1 1 20 20 2 with isVisible := true }].get [⟨0, 0, 30, 20⟩] fun _ _ => 0
    RepaintsLeft 1 m (m.resize 1 (fun _ _ => 3) (.resizeTo 16 16)) ∧
      RepaintsLeft 1 m (m.resize 1 (fun _ _ => 3) (.moveAndResizeTo ⟨12, 3, 28, 21⟩)) :=
  ⟨(repaintsLeft_iff (composed_settled _ _ _) (stacked_settled _ _ _) (inside_settled _ _ _) rfl _
      _).2 (by decide +kernel),
    (repaintsLeft_iff (composed_settled _ _ _) (stacked_settled _ _ _) (inside_settled _ _ _) rfl _
      _).2 (by decide +kernel)⟩

/-- **A gap between two displays, of which the one on the left is the
higher, keeps what was seen in it** of a display that is made smaller, moved
or not. -/
theorem not_repaintsLeft_gap :
    let m := settled [{ tile 0 0 1 1 36 16 1 with isVisible := true },
      { tile 28 0 1 1 8 16 2 with isVisible := true },
      { tile 20 0 1 1 4 16 3 with isVisible := true }].get [⟨0, 0, 40, 20⟩] fun _ _ => 0
    (m.Composed ∧ m.Stacked) ∧
      ¬ RepaintsLeft 0 m (m.resize 0 (fun _ _ => 4) (.resizeTo 16 16)) ∧
      ¬ RepaintsLeft 0 m (m.resize 0 (fun _ _ => 4) (.moveAndResizeTo ⟨-4, 0, 12, 16⟩)) := by
  refine ⟨⟨composed_settled _ _ _, stacked_settled _ _ _⟩, ?_, ?_⟩
  · intro h
    cases h with
    | cons hfirst _ =>
      have hpixel := (hfirst.2 24 0 (by decide)).1 (by decide) (by decide)
      exact absurd hpixel (by decide +kernel)
  · intro h
    cases h with
    | cons hfirst _ =>
      have hpixel := (hfirst.2 24 0 (by decide)).1 (by decide) (by decide)
      exact absurd hpixel (by decide +kernel)

end DisplayManager

end Uberos
