import Mathlib.Data.List.Infix
import Mathlib.Tactic.Ring
import Uberos.DesktopManager.Docked
/-!
# Dragging

What `on_mouse_event` of `drivers/DesktopManager.cpp` does with a window
that its mouse holds, as the mouse moves: by an edge or a corner it is
resized, and else it is moved, docked where the cursor comes to a side,
and restored where the cursor leaves it. Where a window is dragged to does
not depend on the way there.

What `resizeRequested` is answered with is left out, and the title bar,
which the theme says the place of, is a parameter.
-/

namespace Uberos

open Library

namespace DesktopManager

/-- `GrabType`. -/
inductive GrabType
  | move
  | sizeN
  | sizeNw
  | sizeNe
  | sizeS
  | sizeSw
  | sizeSe
  | sizeW
  | sizeE
  deriving DecidableEq, Repr

namespace GrabType

variable (type : GrabType)

/-- `isLeft`. -/
def isLeft : Bool := type = .sizeNw || type = .sizeW || type = .sizeSw

/-- `isRight`. -/
def isRight : Bool := type = .sizeNe || type = .sizeE || type = .sizeSe

/-- `isTop`. -/
def isTop : Bool := type = .sizeNw || type = .sizeN || type = .sizeNe

/-- `isBottom`. -/
def isBottom : Bool := type = .sizeSw || type = .sizeS || type = .sizeSe

/-- `isLeft?-1:isRight?+1:0`. -/
def across : ℤ := if type.isLeft then -1 else if type.isRight then 1 else 0

/-- `isTop?-1:isBottom?+1:0`. -/
def down : ℤ := if type.isTop then -1 else if type.isBottom then 1 else 0

end GrabType

/-- `GrabbedWindow`. -/
structure GrabbedWindow (Id : Type) where
  grabType : GrabType
  window : Id
  grabOffsetX : ℤ
  grabOffsetY : ℤ
  startX : ℤ
  startY : ℤ
  active : Bool

/-- A `Cursor` that holds a window, and the windows. -/
structure Drag (Id : Type) where
  x : ℤ
  y : ℤ
  grabbedWindow : GrabbedWindow Id
  desktop : Desktop Id

namespace Drag

variable {Id : Type} [DecidableEq Id]

/-- `edgeSnapDistance`. -/
def edgeSnapDistance : ℤ := 16

/-- `activationDistance`. -/
def activationDistance : ℕ := 10

/-- `grab_window`. -/
def grab (x y : ℤ) (s : Desktop Id) (id : Id) (type : GrabType) : Drag Id where
  x := x
  y := y
  desktop := s
  grabbedWindow :=
    { grabType := type
      window := id
      grabOffsetX :=
        if type = .move then (s.window id).getX - x else (s.window id).getWidth - x * type.across
      grabOffsetY :=
        if type = .move then (s.window id).getY - y else (s.window id).getHeight - y * type.down
      startX := x
      startY := y
      active := type ≠ .move }

variable (screen : Screen Id) (titlebarArea : Window → Rect) (calls : ℕ) (d : Drag Id)

/-- The window that is held. -/
def window : Window := d.desktop.window d.grabbedWindow.window

/-- `regrab_window_move`, once the windows have changed. -/
def regrabWindowMove (s : Desktop Id) : Drag Id :=
  let titlebarArea := titlebarArea (s.window d.grabbedWindow.window)
  { d with
    desktop := s
    grabbedWindow :=
      { d.grabbedWindow with
        startX := d.x
        startY := d.y
        grabOffsetX :=
          clamp d.grabbedWindow.grabOffsetX (-titlebarArea.x2 + 8) (-titlebarArea.x1 - 8)
        grabOffsetY :=
          clamp d.grabbedWindow.grabOffsetY (-titlebarArea.y2 + 8) (-titlebarArea.y1 - 8) } }

/-- Whether the cursor leaves the side that the window is docked at. -/
def leaves : Bool :=
  match d.window.dockedType with
  | .top => d.y ≥ d.grabbedWindow.startY + edgeSnapDistance
  | .bottom => d.y ≤ d.grabbedWindow.startY - edgeSnapDistance
  | .left => d.x ≥ d.grabbedWindow.startX + edgeSnapDistance
  | .right => d.x ≤ d.grabbedWindow.startX - edgeSnapDistance
  | .full => d.y ≥ d.desktop.windowArea.y1 + edgeSnapDistance

/-- The side that the cursor comes to. -/
def snapsTo (windowArea : Rect) (x y : ℤ) : Option DockedType :=
  if x < (windowArea.x1 + windowArea.x2).tdiv 2 ∧ x < windowArea.x1 + edgeSnapDistance then
    some .left
  else if x ≥ windowArea.x2 - edgeSnapDistance then some .right
  else if y < (windowArea.y1 + windowArea.y2).tdiv 2 ∧ y < windowArea.y1 + edgeSnapDistance then
    some .top
  else if y ≥ windowArea.y2 - edgeSnapDistance then some .bottom
  else none

/-- What is done in a move grab. -/
def moveWindow : Option (Drag Id) :=
  match d.window.state with
  | .minimised => some d
  | .docked =>
    if d.leaves then
      (screen.restore calls d.grabbedWindow.window d.desktop).map (d.regrabWindowMove titlebarArea)
    else some d
  | .floating =>
    match snapsTo d.desktop.windowArea d.x d.y with
    | some type =>
      (screen.dock calls d.grabbedWindow.window type d.desktop).map
        (d.regrabWindowMove titlebarArea)
    | none =>
      some { d with
        desktop := d.desktop.modify d.grabbedWindow.window fun w =>
          w.moveTo screen (d.x + d.grabbedWindow.grabOffsetX) (d.y + d.grabbedWindow.grabOffsetY) }

/-- `newWidth`. -/
def newWidth : ℤ :=
  d.window.clampWidth <|
    max 0 (d.grabbedWindow.grabOffsetX + d.x * d.grabbedWindow.grabType.across)

/-- `newHeight`. -/
def newHeight : ℤ :=
  d.window.clampHeight <|
    max 0 (d.grabbedWindow.grabOffsetY + d.y * d.grabbedWindow.grabType.down)

/-- What is done to the window in a size grab. -/
def resized (w : Window) : Window × Bool :=
  w.moveAndResizeTo screen
    (w.getX - if d.grabbedWindow.grabType.isLeft then d.newWidth - w.getWidth else 0)
    (w.getY - if d.grabbedWindow.grabType.isTop then d.newHeight - w.getHeight else 0)
    d.newWidth d.newHeight

/-- What is done in a size grab. -/
def sizeWindow : Option (Drag Id) :=
  (d.desktop.change (screen.updateWindowArea calls none) d.grabbedWindow.window
    (d.resized screen)).map fun s => { d with desktop := s }

/-- Where the cursor goes. -/
def goTo (x y : ℤ) : Drag Id :=
  { d with
    x := x
    y := y
    grabbedWindow :=
      { d.grabbedWindow with
        active := d.grabbedWindow.active ||
          (x - d.grabbedWindow.startX).natAbs + (y - d.grabbedWindow.startY).natAbs ≥
            activationDistance } }

/-- A cursor that moves stays on the screen. -/
def cursorMoved (cursor motion : ℤ × ℤ) : ℤ × ℤ :=
  (clamp (cursor.1 + motion.1) 0 (screen.width - 1),
    clamp (cursor.2 + motion.2) 0 (screen.height - 1))

/-- `on_mouse_event`, of a mouse that has moved, with so many calls. -/
def mouseMoved (d : Drag Id) (event : (ℤ × ℤ) × ℕ) : Option (Drag Id) :=
  let cursor := cursorMoved screen (d.x, d.y) event.1
  let d := d.goTo cursor.1 cursor.2
  if d.grabbedWindow.active then
    match d.grabbedWindow.grabType with
    | .move => d.moveWindow screen titlebarArea event.2
    | _ => d.sizeWindow screen event.2
  else some d

/-! ## What it is for -/

/-- **Where a window is that is dragged by an edge or a corner**: that side
goes with the cursor, as far as the limits let it, and the other stays. -/
def dragged (w : Window) (type : GrabType) (dx dy : ℤ) : Rect :=
  let width := w.clampWidth (max 0 (w.getWidth + type.across * dx))
  let height := w.clampHeight (max 0 (w.getHeight + type.down * dy))
  let x := if type.isLeft then w.rect.x2 - width else w.rect.x1
  let y := if type.isTop then w.rect.y2 - height else w.rect.y1
  ⟨x, y, x + width, y + height⟩

/-- Where one is that is moved: with the cursor, as far as the screen lets
it. -/
def carried (screen : Screen Id) (w : Window) (dx dy : ℤ) : Rect :=
  let x := clamp (w.getX + dx) (-w.width + 10) (screen.width - 10)
  let y := clamp (w.getY + dy) 0 (screen.height - 10)
  ⟨x, y, x + w.getWidth, y + w.getHeight⟩

/-- Where the cursor comes to. -/
def cursorAt (screen : Screen Id) (cursor : ℤ × ℤ) (events : List ((ℤ × ℤ) × ℕ)) : ℤ × ℤ :=
  events.foldl (fun cursor event => cursorMoved screen cursor event.1) cursor

/-- A window whose size is within its limits, which are of sixteen pixels
or more. -/
structure Limited (w : Window) : Prop where
  minWidth : 16 ≤ w.minSize.x
  minHeight : 16 ≤ w.minSize.y
  maxWidth : w.minSize.x ≤ w.maxSize.x
  maxHeight : w.minSize.y ≤ w.maxSize.y
  width : w.clampWidth w.getWidth = w.getWidth
  height : w.clampHeight w.getHeight = w.getHeight

variable {screen titlebarArea calls d} {w : Window} {a : Rect} {s s' : Desktop Id} {id : Id}
variable {type : GrabType} {x y dx dy : ℤ}

instance (r a : Rect) : Decidable (Inside r a) :=
  inferInstanceAs (Decidable (_ ∧ _ ∧ _ ∧ _))

/-! ## One window -/

theorem le_clampWidth (h : Limited w) (width : ℤ) : 16 ≤ w.clampWidth width := by
  have hmin := h.minWidth
  have hmax := h.maxWidth
  unfold Window.clampWidth clamp
  omega

theorem le_clampHeight (h : Limited w) (height : ℤ) : 16 ≤ w.clampHeight height := by
  have hmin := h.minHeight
  have hmax := h.maxHeight
  unfold Window.clampHeight clamp
  omega

theorem Limited.of_moved {w' : Window} (h : Limited w) (hmoved : Moved w w')
    (hwidth : w.clampWidth w'.getWidth = w'.getWidth)
    (hheight : w.clampHeight w'.getHeight = w'.getHeight) : Limited w' := by
  have hmin : w'.minSize = w.minSize := by
    obtain ⟨x, y, width, height, isAutomaticPlacement, rfl⟩ := hmoved
    rfl
  have hmax : w'.maxSize = w.maxSize := hmoved.maxSize
  exact ⟨hmin ▸ h.minWidth, hmin ▸ h.minHeight, hmin ▸ hmax ▸ h.maxWidth,
    hmin ▸ hmax ▸ h.maxHeight, hmoved.clampWidth.trans hwidth, hmoved.clampHeight.trans hheight⟩

omit [DecidableEq Id] in
/-- A window that is moved to where it is stays there. -/
theorem rect_moveTo_self : (w.moveTo screen w.getX w.getY).rect = w.rect := by
  unfold Window.moveTo
  dsimp only
  rw [if_pos ⟨rfl, rfl⟩]
  rfl

omit [DecidableEq Id] in
/-- **A window that is resized at one end keeps the other.** -/
theorem rect_sized {width height : ℤ} (hwidth : w.clampWidth width = width)
    (hheight : w.clampHeight height = height) (hwidth' : 16 ≤ width) (hheight' : 16 ≤ height)
    (left top : Bool) :
    (w.moveAndResizeTo screen (w.getX - if left then width - w.getWidth else 0)
        (w.getY - if top then height - w.getHeight else 0) width height).1.rect =
      ⟨w.getX - if left then width - w.getWidth else 0,
        w.getY - if top then height - w.getHeight else 0,
        (w.getX - if left then width - w.getWidth else 0) + width,
        (w.getY - if top then height - w.getHeight else 0) + height⟩ := by
  have hplaced : ({ w with isAutomaticPlacement := false } : Window).clampWidth width = width ∧
      ({ w with isAutomaticPlacement := false } : Window).clampHeight height = height :=
    ⟨hwidth, hheight⟩
  unfold Window.moveAndResizeTo
  dsimp only
  rw [hplaced.1, hplaced.2]
  split
  · rename_i hsame
    obtain ⟨hsameWidth, hsameHeight⟩ := hsame
    have hsameWidth : width = w.getWidth := hsameWidth
    have hsameHeight : height = w.getHeight := hsameHeight
    rw [hsameWidth, hsameHeight, Int.sub_self, Int.sub_self, ite_self, ite_self, Int.sub_zero,
      Int.sub_zero]
    exact rect_moveTo_self (w := { w with isAutomaticPlacement := false })
  · rename_i hsame
    generalize (w.getX - if left then width - w.getWidth else 0) = x
    generalize (w.getY - if top then height - w.getHeight else 0) = y
    unfold Window.moveAndResizeDisplay
    split
    · rename_i hsize
      refine absurd ?_ hsame
      simp only [Rect.width, Rect.height] at hsize
      simp only [Window.getWidth, Window.getHeight]
      omega
    · split
      · rename_i hplace
        simp only [Window.resizeDisplay, Window.rect, Window.getX, Window.getY, Window.getWidth,
          Window.getHeight, Rect.width, Rect.height, Rect.mk.injEq] at hplace ⊢
        omega
      · simp only [Window.rect, Window.getX, Window.getY, Window.getWidth, Window.getHeight,
          Rect.width, Rect.height, Rect.mk.injEq]
        omega

omit [DecidableEq Id] in
/-- **A window within the window area stays where it is** as it is fitted
to it. -/
theorem rect_refit (h : Limited w) (hinside : Inside w.rect a) :
    (screen.refit a w).1.rect = w.rect := by
  obtain ⟨hx1, hx2, hy1, hy2⟩ := hinside
  have hfit : Screen.fit a w = w.rect := by
    unfold Screen.fit
    rw [fitAxis_eq hx1 hx2, fitAxis_eq hy1 hy2]
  unfold Screen.refit
  dsimp only
  rw [hfit, width_rect, height_rect]
  have hsized := @rect_sized Id screen w _ _ h.width h.height
    (h.width ▸ le_clampWidth h _) (h.height ▸ le_clampHeight h _) false false
  simp only [Bool.false_eq_true, if_false, Int.sub_zero] at hsized
  exact hsized

/-- **So it does while the window area is worked out.** -/
theorem rect_updateWindowArea (h : Limited (s.window id))
    (hinside : (s.window id).state = .floating →
      Inside (s.window id).rect (screen.windowAreaOf none s.window))
    (hcall : screen.updateWindowArea calls none s = some s') :
    (s'.window id).rect = (s.window id).rect := by
  refine (updateWindowArea_invariant
    (Q := fun t => Keeps s.window t.window ∧ (t.window id).rect = (s.window id).rect)
    (P := fun t => (Keeps s.window t.window ∧ (t.window id).rect = (s.window id).rect) ∧
      t.windowArea = screen.windowAreaOf none s.window) (fun _ => And.left) ?_ ?_
    ⟨.refl _, rfl⟩ hcall).1.2
  · rintro t exclude' hexclude ⟨hkeeps, ht⟩
    have hnone : exclude' = none := hexclude.elim (fun h => h) fun h => h
    subst hnone
    exact ⟨⟨hkeeps, ht⟩, windowAreaOf_keeps hkeeps⟩
  · rintro t other ⟨⟨hkeeps, ht⟩, harea⟩ hfloating
    refine ⟨⟨hkeeps.update hfloating moved_refit, ?_⟩, harea⟩
    by_cases hid : id = other
    · subst hid
      have hmoved := hkeeps.moved id
      have hstate : (s.window id).state = .floating := hmoved.state.symm.trans hfloating
      have hwidth : (t.window id).getWidth = (s.window id).getWidth := by
        rw [← width_rect, ht, width_rect]
      have hheight : (t.window id).getHeight = (s.window id).getHeight := by
        rw [← height_rect, ht, height_rect]
      have hlimited : Limited (t.window id) :=
        h.of_moved hmoved (by rw [hwidth]; exact h.width) (by rw [hheight]; exact h.height)
      rw [Desktop.window_modify, harea, rect_refit hlimited (by rw [ht]; exact hinside hstate)]
      exact ht
    · rw [Desktop.window_modify_of_ne hid]
      exact ht

/-! ## By an edge -/

omit [DecidableEq Id] in
theorem newWidth_eq (hwidth : d.window.clampWidth = w.clampWidth)
    (hoffset : d.grabbedWindow.grabOffsetX = w.getWidth - x * d.grabbedWindow.grabType.across) :
    d.newWidth =
      w.clampWidth (max 0 (w.getWidth + d.grabbedWindow.grabType.across * (d.x - x))) := by
  rw [newWidth, hwidth, hoffset]
  congr 2
  ring

omit [DecidableEq Id] in
theorem newHeight_eq (hheight : d.window.clampHeight = w.clampHeight)
    (hoffset : d.grabbedWindow.grabOffsetY = w.getHeight - y * d.grabbedWindow.grabType.down) :
    d.newHeight =
      w.clampHeight (max 0 (w.getHeight + d.grabbedWindow.grabType.down * (d.y - y))) := by
  rw [newHeight, hheight, hoffset]
  congr 2
  ring

/-- The end that a dragged window keeps. -/
theorem dragged_keeps : (type.isLeft = true → (dragged w type dx dy).x2 = w.rect.x2) ∧
    (type.isLeft = false → (dragged w type dx dy).x1 = w.rect.x1) ∧
    (type.isTop = true → (dragged w type dx dy).y2 = w.rect.y2) ∧
    (type.isTop = false → (dragged w type dx dy).y1 = w.rect.y1) := by
  refine ⟨fun h => ?_, fun h => ?_, fun h => ?_, fun h => ?_⟩
  · simp only [dragged, h, if_true, Int.sub_add_cancel]
  · simp only [dragged, h, Bool.false_eq_true, if_false]
  · simp only [dragged, h, if_true, Int.sub_add_cancel]
  · simp only [dragged, h, Bool.false_eq_true, if_false]

/-- It is of a size that its limits let it be. -/
theorem clamp_dragged : w.clampWidth (dragged w type dx dy).width = (dragged w type dx dy).width ∧
    w.clampHeight (dragged w type dx dy).height = (dragged w type dx dy).height := by
  simp only [dragged, Rect.width, Rect.height, add_sub_cancel_left, clampWidth_clampWidth,
    clampHeight_clampHeight, and_self]

/-- At first it is where it was. -/
theorem dragged_zero (h : Limited w) : dragged w type 0 0 = w.rect := by
  have hwidth : w.clampWidth (max 0 (w.getWidth + type.across * 0)) = w.getWidth := by
    have hle : 0 ≤ w.getWidth := by
      have := le_clampWidth h w.getWidth
      rw [h.width] at this
      omega
    rw [Int.mul_zero, Int.add_zero, max_eq_right hle, h.width]
  have hheight : w.clampHeight (max 0 (w.getHeight + type.down * 0)) = w.getHeight := by
    have hle : 0 ≤ w.getHeight := by
      have := le_clampHeight h w.getHeight
      rw [h.height] at this
      omega
    rw [Int.mul_zero, Int.add_zero, max_eq_right hle, h.height]
  unfold dragged
  rw [hwidth, hheight]
  simp only [Window.rect, Int.add_sub_cancel, ite_self]

/-- What a drag of a window by an edge keeps. -/
structure Dragged (screen : Screen Id) (s : Desktop Id) (x y : ℤ) (id : Id) (type : GrabType)
    (d : Drag Id) : Prop where
  grabbed : d.grabbedWindow = (grab x y s id type).grabbedWindow
  moved : Moved (s.window id) (d.desktop.window id)
  keeps : (s.window id).state = .floating → Keeps s.window d.desktop.window
  rect : (d.desktop.window id).rect = dragged (s.window id) type (d.x - x) (d.y - y)

/-- A size grab goes on as a size grab. -/
theorem mouseMoved_of_size {event : (ℤ × ℤ) × ℕ} {cursor : ℤ × ℤ}
    (hcursor : cursorMoved screen (d.x, d.y) event.1 = cursor)
    (hactive : d.grabbedWindow.active = true) (htype : d.grabbedWindow.grabType ≠ .move) :
    d.mouseMoved screen titlebarArea event =
      { d with x := cursor.1, y := cursor.2 }.sizeWindow screen event.2 := by
  have hgoTo : d.goTo cursor.1 cursor.2 = { d with x := cursor.1, y := cursor.2 } := by
    rw [goTo, hactive, Bool.true_or, ← hactive]
  rw [mouseMoved, hcursor, hgoTo, if_pos hactive]
  split
  · next hmove => exact absurd hmove htype
  · rfl

/-- A window that has changed stays where it then is. -/
theorem rect_change {f : Window → Window × Bool} (h : Limited (f (s.window id)).1)
    (hinside : (f (s.window id)).1.state = .floating → Inside (f (s.window id)).1.rect
      (screen.windowAreaOf none (s.modify id fun w => (f w).1).window))
    (hcall : s.change (screen.updateWindowArea calls none) id f = some s') :
    (s'.window id).rect = (f (s.window id)).1.rect ∧
      Keeps (s.modify id fun w => (f w).1).window s'.window := by
  have hself : (s.modify id fun w => (f w).1).window id = (f (s.window id)).1 :=
    Desktop.window_modify
  unfold Desktop.change at hcall
  dsimp only at hcall
  split at hcall
  · refine ⟨?_, (updateWindowArea_none hcall).1⟩
    rw [← hself] at h hinside ⊢
    exact rect_updateWindowArea h hinside hcall
  · cases hcall
    exact ⟨by rw [hself], .refl _⟩

omit [DecidableEq Id] in
/-- The window as it is resized. -/
theorem rect_resized (hgrabbed : d.grabbedWindow = (grab x y s id type).grabbedWindow)
    (htype : type ≠ .move) (hlimited : Limited (s.window id))
    (hmoved : Moved (s.window id) (d.desktop.window id))
    (hrect : (d.desktop.window id).rect = dragged (s.window id) type dx dy) :
    Limited (d.resized screen (d.desktop.window id)).1 ∧
      (d.resized screen (d.desktop.window id)).1.rect =
        dragged (s.window id) type (d.x - x) (d.y - y) := by
  have hwindow : d.window = d.desktop.window id := by
    rw [window, hgrabbed]
    rfl
  have htype' : d.grabbedWindow.grabType = type := by
    rw [hgrabbed]
    rfl
  have hoffsetX : d.grabbedWindow.grabOffsetX =
      (s.window id).getWidth - x * d.grabbedWindow.grabType.across := by
    rw [htype', hgrabbed]
    exact if_neg htype
  have hoffsetY : d.grabbedWindow.grabOffsetY =
      (s.window id).getHeight - y * d.grabbedWindow.grabType.down := by
    rw [htype', hgrabbed]
    exact if_neg htype
  have hclampWidth : (d.desktop.window id).clampWidth = (s.window id).clampWidth :=
    funext fun _ => hmoved.clampWidth
  have hclampHeight : (d.desktop.window id).clampHeight = (s.window id).clampHeight :=
    funext fun _ => hmoved.clampHeight
  have hwidth := newWidth_eq (by rw [hwindow, hclampWidth]) hoffsetX
  have hheight := newHeight_eq (by rw [hwindow, hclampHeight]) hoffsetY
  rw [htype'] at hwidth hheight
  have hkeepsWidth : (s.window id).clampWidth d.newWidth = d.newWidth := by
    rw [hwidth, clampWidth_clampWidth]
  have hkeepsHeight : (s.window id).clampHeight d.newHeight = d.newHeight := by
    rw [hheight, clampHeight_clampHeight]
  have hle : 16 ≤ d.newWidth := hwidth ▸ le_clampWidth hlimited _
  have hle' : 16 ≤ d.newHeight := hheight ▸ le_clampHeight hlimited _
  have hsized := @rect_sized Id screen (d.desktop.window id) _ _
    (by rw [hclampWidth]; exact hkeepsWidth) (by rw [hclampHeight]; exact hkeepsHeight) hle hle'
    type.isLeft type.isTop
  obtain ⟨hright, hleft, hbottom, htop⟩ :=
    @dragged_keeps (s.window id) type dx dy
  rw [← hrect] at hright hleft hbottom htop
  have hplace : (d.resized screen (d.desktop.window id)).1.rect =
      dragged (s.window id) type (d.x - x) (d.y - y) := by
    rw [resized, htype', hsized, dragged, ← hwidth, ← hheight]
    have hx : (d.desktop.window id).getX -
        (if type.isLeft = true then d.newWidth - (d.desktop.window id).getWidth else 0) =
        if type.isLeft = true then (s.window id).rect.x2 - d.newWidth
        else (s.window id).rect.x1 := by
      cases hside : type.isLeft with
      | true =>
        rw [if_pos rfl, if_pos rfl, ← hright hside]
        simp only [Window.rect]
        omega
      | false =>
        rw [if_neg Bool.false_ne_true, if_neg Bool.false_ne_true, ← hleft hside]
        exact Int.sub_zero _
    have hy : (d.desktop.window id).getY -
        (if type.isTop = true then d.newHeight - (d.desktop.window id).getHeight else 0) =
        if type.isTop = true then (s.window id).rect.y2 - d.newHeight
        else (s.window id).rect.y1 := by
      cases hside : type.isTop with
      | true =>
        rw [if_pos rfl, if_pos rfl, ← hbottom hside]
        simp only [Window.rect]
        omega
      | false =>
        rw [if_neg Bool.false_ne_true, if_neg Bool.false_ne_true, ← htop hside]
        exact Int.sub_zero _
    rw [hx, hy]
  refine ⟨hlimited.of_moved (hmoved.trans moved_moveAndResizeTo) ?_ ?_, hplace⟩
  · rw [← width_rect, hplace]
    exact clamp_dragged.1
  · rw [← height_rect, hplace]
    exact clamp_dragged.2

/-- **One event.** -/
theorem Dragged.mouseMoved (h : Dragged screen s x y id type d) (htype : type ≠ .move)
    (hlimited : Limited (s.window id)) {event : (ℤ × ℤ) × ℕ} {cursor : ℤ × ℤ} {d' : Drag Id}
    (hcursor : cursorMoved screen (d.x, d.y) event.1 = cursor)
    (hinside : (s.window id).state = .floating →
      Inside (dragged (s.window id) type (cursor.1 - x) (cursor.2 - y))
        (screen.windowAreaOf none s.window))
    (hcall : d.mouseMoved screen titlebarArea event = some d') :
    Dragged screen s x y id type d' ∧ (d'.x, d'.y) = cursor := by
  obtain ⟨hgrabbed, hmoved, hkeeps, hrect⟩ := h
  have hactive : d.grabbedWindow.active = true := by
    rw [hgrabbed]
    exact decide_eq_true htype
  rw [mouseMoved_of_size hcursor hactive (by rw [hgrabbed]; exact htype), sizeWindow,
    Option.map_eq_some_iff] at hcall
  obtain ⟨s', hchange, rfl⟩ := hcall
  have hid : d.grabbedWindow.window = id := by
    rw [hgrabbed]
    rfl
  generalize hD : ({ d with x := cursor.1, y := cursor.2 } : Drag Id) = D at hchange
  have hgrabbedD : D.grabbedWindow = (grab x y s id type).grabbedWindow := by
    rw [← hD]
    exact hgrabbed
  have hdesktop : D.desktop = d.desktop := by rw [← hD]
  have hplaceD : D.x = cursor.1 ∧ D.y = cursor.2 := by rw [← hD]; exact ⟨rfl, rfl⟩
  have hidD : D.grabbedWindow.window = id := by rw [hgrabbedD]; rfl
  rw [hidD] at hchange
  rw [← hdesktop] at hmoved hrect hkeeps
  obtain ⟨hlimited', hplace⟩ :=
    @rect_resized Id screen D s id type x y _ _ hgrabbedD htype hlimited hmoved hrect
  rw [hplaceD.1, hplaceD.2] at hplace
  have hmoved' : Moved (s.window id) (D.resized screen (D.desktop.window id)).1 :=
    hmoved.trans moved_moveAndResizeTo
  -- a floating window is all that has changed so far
  have hkeeps' : (s.window id).state = .floating →
      Keeps s.window (D.desktop.modify id fun w => (D.resized screen w).1).window :=
    fun hfloating => (hkeeps hfloating).update (hmoved.state.trans hfloating) moved_moveAndResizeTo
  obtain ⟨hstays, hrest⟩ := rect_change hlimited' (fun hfloating => by
    have hstate := hmoved'.state.symm.trans hfloating
    rw [windowAreaOf_keeps (hkeeps' hstate), hplace]
    exact hinside hstate) hchange
  refine ⟨⟨hgrabbedD, ?_, fun hfloating => (hkeeps' hfloating).trans hrest, ?_⟩,
    Prod.ext hplaceD.1 hplaceD.2⟩
  · have hself := hrest.moved id
    rw [Desktop.window_modify] at hself
    exact hmoved'.trans hself
  · rw [hplaceD.1, hplaceD.2]
    exact hstays.trans hplace

/-! ## By the title bar -/

/-- A place that the screen lets a window be at. -/
structure Placed (screen : Screen Id) (w : Window) : Prop where
  x : clamp w.getX (-w.width + 10) (screen.width - 10) = w.getX
  y : clamp w.getY 0 (screen.height - 10) = w.getY

omit [DecidableEq Id] in
/-- From such a place a window goes where the screen lets it. -/
theorem rect_moveTo_of_placed (h : Placed screen w) (x y : ℤ) :
    (w.moveTo screen x y).rect =
      ⟨clamp x (-w.width + 10) (screen.width - 10), clamp y 0 (screen.height - 10),
        clamp x (-w.width + 10) (screen.width - 10) + w.getWidth,
        clamp y 0 (screen.height - 10) + w.getHeight⟩ := by
  unfold Window.moveTo
  dsimp only
  split
  · rename_i hsame
    have hx : x = w.getX := hsame.1
    have hy : y = w.getY := hsame.2
    rw [hx, hy, h.x, h.y]
    rfl
  · simp only [Window.rect, Window.getX, Window.getY, Window.getWidth, Window.getHeight,
      Int.sub_add_cancel]

omit [DecidableEq Id] in
theorem carried_zero (h : Placed screen w) : carried screen w 0 0 = w.rect := by
  unfold carried
  dsimp only
  rw [Int.add_zero, Int.add_zero, h.x, h.y]
  rfl

theorem clamp_clamp_self {z lo hi : ℤ} : clamp (clamp z lo hi) lo hi = clamp z lo hi := by
  unfold clamp
  omega

omit [DecidableEq Id] in
theorem extent_moveTo : (w.moveTo screen x y).width = w.width ∧
    (w.moveTo screen x y).height = w.height := by
  unfold Window.moveTo
  dsimp only
  split
  · exact ⟨rfl, rfl⟩
  · exact ⟨rfl, rfl⟩

/-- A window that has moved only is of the size that it was. -/
theorem size_of_moved {w' : Window} (hmoved : Moved w w')
    (hextent : w'.width = w.width ∧ w'.height = w.height) :
    w'.getWidth = w.getWidth ∧ w'.getHeight = w.getHeight := by
  obtain ⟨hwidth, hheight⟩ := hextent
  obtain ⟨x, y, width, height, isAutomaticPlacement, rfl⟩ := hmoved
  dsimp only at hwidth hheight
  subst hwidth hheight
  exact ⟨rfl, rfl⟩

/-- What a drag of a window by its title bar keeps. -/
structure Carried (screen : Screen Id) (s : Desktop Id) (cursor : ℤ × ℤ) (id : Id)
    (past : List ((ℤ × ℤ) × ℕ)) (d : Drag Id) : Prop where
  place : (d.x, d.y) = cursorAt screen cursor past
  grabbed : ∃ active, d.grabbedWindow =
    { (grab cursor.1 cursor.2 s id .move).grabbedWindow with active := active }
  area : d.desktop.windowArea = s.windowArea
  moved : Moved (s.window id) (d.desktop.window id)
  size : (d.desktop.window id).width = (s.window id).width ∧
    (d.desktop.window id).height = (s.window id).height
  active : d.grabbedWindow.active = true ↔ ∃ first, first <+: past ∧ activationDistance ≤
    ((cursorAt screen cursor first).1 - cursor.1).natAbs +
      ((cursorAt screen cursor first).2 - cursor.2).natAbs
  rect_of_active : d.grabbedWindow.active = true → (d.desktop.window id).rect =
    carried screen (s.window id) (d.x - cursor.1) (d.y - cursor.2)
  rect_of_not : d.grabbedWindow.active = false → (d.desktop.window id).rect = (s.window id).rect

theorem snaps_none {t : Drag Id} (hstate : t.window.state = .floating)
    (hclear : snapsTo t.desktop.windowArea t.x t.y = none) :
    t.moveWindow screen titlebarArea calls = some { t with
      desktop := t.desktop.modify t.grabbedWindow.window fun w =>
        w.moveTo screen (t.x + t.grabbedWindow.grabOffsetX)
          (t.y + t.grabbedWindow.grabOffsetY) } := by
  rw [moveWindow, hstate]
  dsimp only
  rw [hclear]

omit [DecidableEq Id] in
/-- The window may be where it is, at first or after. -/
theorem Carried.placed {cursor : ℤ × ℤ} {past : List ((ℤ × ℤ) × ℕ)}
    (h : Carried screen s cursor id past d) (hplaced : Placed screen (s.window id)) :
    Placed screen (d.desktop.window id) := by
  have hrect : ∃ dx dy, (d.desktop.window id).rect = carried screen (s.window id) dx dy := by
    cases hactive : d.grabbedWindow.active with
    | true => exact ⟨_, _, h.rect_of_active hactive⟩
    | false => exact ⟨0, 0, (h.rect_of_not hactive).trans (carried_zero hplaced).symm⟩
  obtain ⟨dx, dy, hrect⟩ := hrect
  have hx : (d.desktop.window id).getX =
      clamp ((s.window id).getX + dx) (-(s.window id).width + 10) (screen.width - 10) :=
    congrArg Rect.x1 hrect
  have hy : (d.desktop.window id).getY = clamp ((s.window id).getY + dy) 0 (screen.height - 10) :=
    congrArg Rect.y1 hrect
  exact ⟨by rw [hx, h.size.1, clamp_clamp_self], by rw [hy, clamp_clamp_self]⟩

/-- **One event.** -/
theorem Carried.mouseMoved {cursor : ℤ × ℤ} {past : List ((ℤ × ℤ) × ℕ)}
    (h : Carried screen s cursor id past d) (hstate : (s.window id).state = .floating)
    (hplaced : Placed screen (s.window id)) {event : (ℤ × ℤ) × ℕ} {d' : Drag Id}
    (hclear : snapsTo s.windowArea (cursorAt screen cursor (past ++ [event])).1
      (cursorAt screen cursor (past ++ [event])).2 = none)
    (hcall : d.mouseMoved screen titlebarArea event = some d') :
    Carried screen s cursor id (past ++ [event]) d' := by
  have hcursor : cursorMoved screen (d.x, d.y) event.1 =
      cursorAt screen cursor (past ++ [event]) := by
    rw [h.place, cursorAt, cursorAt, List.foldl_append]
    rfl
  have hplacedNow := h.placed hplaced
  have hstateNow : (d.desktop.window id).state = .floating := h.moved.state.trans hstate
  rw [Drag.mouseMoved, hcursor] at hcall
  generalize hnow : cursorAt screen cursor (past ++ [event]) = now at hclear hcall
  -- whether it has gone far enough by now
  have hfar : (d.goTo now.1 now.2).grabbedWindow.active = true ↔
      ∃ first, first <+: past ++ [event] ∧ activationDistance ≤
        ((cursorAt screen cursor first).1 - cursor.1).natAbs +
          ((cursorAt screen cursor first).2 - cursor.2).natAbs := by
    have hstart : d.grabbedWindow.startX = cursor.1 ∧ d.grabbedWindow.startY = cursor.2 := by
      obtain ⟨active, hgrabbed⟩ := h.grabbed
      rw [hgrabbed]
      exact ⟨rfl, rfl⟩
    rw [goTo]
    dsimp only
    rw [Bool.or_eq_true, h.active, hstart.1, hstart.2, decide_eq_true_iff]
    constructor
    · rintro (⟨first, hfirst, hdistance⟩ | hdistance)
      · exact ⟨first, hfirst.trans (List.prefix_append past [event]), hdistance⟩
      · exact ⟨past ++ [event], List.prefix_refl _, by rw [hnow]; exact hdistance⟩
    · rintro ⟨first, hfirst, hdistance⟩
      rw [List.prefix_concat_iff] at hfirst
      rcases hfirst with rfl | hfirst
      · rw [hnow] at hdistance
        exact Or.inr hdistance
      · exact Or.inl ⟨first, hfirst, hdistance⟩
  have hgrabbed : ∃ active, (d.goTo now.1 now.2).grabbedWindow =
      { (grab cursor.1 cursor.2 s id .move).grabbedWindow with active := active } := by
    obtain ⟨active, hgrabbed⟩ := h.grabbed
    rw [goTo]
    dsimp only
    rw [hgrabbed]
    exact ⟨_, rfl⟩
  have hplace : ((d.goTo now.1 now.2).x, (d.goTo now.1 now.2).y) =
      cursorAt screen cursor (past ++ [event]) := hnow.symm
  have hdesktop : (d.goTo now.1 now.2).desktop = d.desktop := rfl
  have hx : (d.goTo now.1 now.2).x = now.1 := rfl
  have hy : (d.goTo now.1 now.2).y = now.2 := rfl
  have hbefore : (d.goTo now.1 now.2).grabbedWindow.active = false →
      d.grabbedWindow.active = false := by
    intro hactive
    rw [goTo] at hactive
    exact (Bool.or_eq_false_iff.1 hactive).1
  generalize d.goTo now.1 now.2 = D at hcall hfar hgrabbed hplace hdesktop hx hy hbefore
  split at hcall
  · next hactive =>
    obtain ⟨active, hgrabbed'⟩ := hgrabbed
    have htype : D.grabbedWindow.grabType = .move := by rw [hgrabbed']; rfl
    have hid : D.grabbedWindow.window = id := by rw [hgrabbed']; rfl
    have hoffset : D.grabbedWindow.grabOffsetX = (s.window id).getX - cursor.1 ∧
        D.grabbedWindow.grabOffsetY = (s.window id).getY - cursor.2 := by
      rw [hgrabbed']
      exact ⟨rfl, rfl⟩
    rw [htype] at hcall
    dsimp only at hcall
    rw [snaps_none (by rw [Drag.window, hid, hdesktop]; exact hstateNow)
      (by rw [hdesktop, h.area, hx, hy]; exact hclear)] at hcall
    cases hcall
    have hmoved : Moved (d.desktop.window id) ((d.desktop.window id).moveTo screen
        (D.x + D.grabbedWindow.grabOffsetX) (D.y + D.grabbedWindow.grabOffsetY)) := moved_moveTo
    refine ⟨hplace, ⟨active, hgrabbed'⟩, ?_, ?_, ?_, hfar, fun _ => ?_, fun hnot => ?_⟩
    · rw [hdesktop]
      exact h.area
    · dsimp only
      rw [hid, hdesktop, Desktop.window_modify]
      exact h.moved.trans hmoved
    · dsimp only
      rw [hid, hdesktop, Desktop.window_modify, extent_moveTo.1, extent_moveTo.2]
      exact h.size
    · dsimp only
      have hsize := size_of_moved h.moved h.size
      have hmoveX : D.x + ((s.window id).getX - cursor.1) =
          (s.window id).getX + (D.x - cursor.1) := by omega
      have hmoveY : D.y + ((s.window id).getY - cursor.2) =
          (s.window id).getY + (D.y - cursor.2) := by omega
      rw [hid, hdesktop, Desktop.window_modify, rect_moveTo_of_placed hplacedNow, hoffset.1,
        hoffset.2, hsize.1, hsize.2, h.size.1, hmoveX, hmoveY]
      rfl
    · exact absurd hactive (by rw [hnot]; exact Bool.false_ne_true)
  · next hactive =>
    cases hcall
    have hactive : d'.grabbedWindow.active = false := Bool.eq_false_iff.2 hactive
    refine ⟨hplace, hgrabbed, ?_, ?_, ?_, hfar, fun htrue => ?_, fun _ => ?_⟩
    · rw [hdesktop]
      exact h.area
    · rw [hdesktop]
      exact h.moved
    · rw [hdesktop]
      exact h.size
    · rw [hactive] at htrue
      exact absurd htrue Bool.false_ne_true
    · rw [hdesktop]
      exact h.rect_of_not (hbefore hactive)

/-! ## The result -/

/-- **Where a window is dragged to by an edge or a corner depends only on
where the cursor comes to**: that side goes with the cursor as far as the
limits let it, and the other stays, whichever way the cursor goes, as long
as a floating window stays within the window area. -/
theorem dragged_run {cursor : ℤ × ℤ} {events : List ((ℤ × ℤ) × ℕ)} {d' : Drag Id}
    (htype : type ≠ .move) (hlimited : Limited (s.window id))
    (hinside : (s.window id).state = .floating → ∀ past, past <+: events →
      Inside (dragged (s.window id) type ((cursorAt screen cursor past).1 - cursor.1)
        ((cursorAt screen cursor past).2 - cursor.2)) (screen.windowAreaOf none s.window))
    (hrun : events.foldlM (mouseMoved screen titlebarArea) (grab cursor.1 cursor.2 s id type) =
      some d') :
    (d'.desktop.window id).rect = dragged (s.window id) type
      ((cursorAt screen cursor events).1 - cursor.1)
      ((cursorAt screen cursor events).2 - cursor.2) := by
  have hend := foldlM_invariant (fun past d => Dragged screen s cursor.1 cursor.2 id type d ∧
    (d.x, d.y) = cursorAt screen cursor past) ?_ ?_ hrun
  · obtain ⟨hdragged, hplace⟩ := hend
    rw [← hplace]
    exact hdragged.rect
  · refine ⟨⟨rfl, .refl _, fun _ => .refl _, ?_⟩, rfl⟩
    show (s.window id).rect = dragged (s.window id) type (cursor.1 - cursor.1) (cursor.2 - cursor.2)
    rw [Int.sub_self, Int.sub_self, dragged_zero hlimited]
  · rintro past event rest d d'' hevents ⟨hdragged, hplace⟩ hcall
    have hcursor : cursorMoved screen (d.x, d.y) event.1 =
        cursorAt screen cursor (past ++ [event]) := by
      rw [hplace, cursorAt, cursorAt, List.foldl_append]
      rfl
    refine hdragged.mouseMoved htype hlimited hcursor (fun hfloating => ?_) hcall
    exact hinside hfloating _ ⟨rest, by rw [hevents, List.append_assoc]; rfl⟩

/-- A window that is made smaller by its left edge, and then larger. -/
theorem dragged_run_left :
    (([((40, 3), 4), ((-60, 0), 4)].foldlM (mouseMoved threeWindows fun _ => ⟨0, 0, 0, 0⟩)
        (grab 102 200 floatingWindows 0 .sizeW)).map fun d => (d.desktop.window 0).rect) =
      some ⟨84, 120, 396, 296⟩ := by
  obtain ⟨d', hrun⟩ := Option.isSome_iff_exists.1 (show ([((40, 3), 4), ((-60, 0), 4)].foldlM
    (mouseMoved threeWindows fun _ => ⟨0, 0, 0, 0⟩)
    (grab 102 200 floatingWindows 0 .sizeW)).isSome by decide +kernel)
  rw [hrun]
  refine congrArg some ((@dragged_run _ _ threeWindows _ _ _ _ (102, 200) _ _ (by decide)
    ?_ ?_ hrun).trans
    (by decide))
  · exact ⟨by decide, by decide, by decide, by decide, by decide, by decide⟩
  · intro _ past hpast
    rw [← List.mem_inits] at hpast
    revert past
    decide

/-- **Where a window is moved to depends only on where the cursor comes
to**, once the cursor has been ten pixels away from where it was, as long
as it keeps from the sides. Before that the window stays. -/
theorem carried_run {cursor : ℤ × ℤ} {events : List ((ℤ × ℤ) × ℕ)} {d' : Drag Id}
    (hstate : (s.window id).state = .floating) (hplaced : Placed screen (s.window id))
    (hclear : ∀ past, past <+: events → snapsTo s.windowArea (cursorAt screen cursor past).1
      (cursorAt screen cursor past).2 = none)
    (hrun : events.foldlM (mouseMoved screen titlebarArea) (grab cursor.1 cursor.2 s id .move) =
      some d') :
    ((∃ past, past <+: events ∧ activationDistance ≤
        ((cursorAt screen cursor past).1 - cursor.1).natAbs +
          ((cursorAt screen cursor past).2 - cursor.2).natAbs) →
      (d'.desktop.window id).rect = carried screen (s.window id)
        ((cursorAt screen cursor events).1 - cursor.1)
        ((cursorAt screen cursor events).2 - cursor.2)) ∧
    ((∀ past, past <+: events → ((cursorAt screen cursor past).1 - cursor.1).natAbs +
        ((cursorAt screen cursor past).2 - cursor.2).natAbs < activationDistance) →
      (d'.desktop.window id).rect = (s.window id).rect) := by
  have hend := foldlM_invariant (fun past d => Carried screen s cursor id past d) ?_ ?_ hrun
  · refine ⟨fun hfar => ?_, fun hnear => ?_⟩
    · rw [← hend.place]
      exact hend.rect_of_active (hend.active.2 hfar)
    · refine hend.rect_of_not (Bool.eq_false_iff.2 fun hactive => ?_)
      obtain ⟨past, hpast, hfar⟩ := hend.active.1 hactive
      exact absurd (hnear past hpast) (Nat.not_lt.2 hfar)
  · refine ⟨rfl, ⟨false, rfl⟩, rfl, .refl _, ⟨rfl, rfl⟩, iff_of_false Bool.false_ne_true ?_,
      fun htrue => absurd htrue Bool.false_ne_true, fun _ => rfl⟩
    rintro ⟨past, hpast, hfar⟩
    rw [List.prefix_nil.1 hpast] at hfar
    simp [cursorAt, activationDistance] at hfar
  · rintro past event rest d d'' hevents hcarried hcall
    exact hcarried.mouseMoved hstate hplaced
      (hclear _ ⟨rest, by rw [hevents, List.append_assoc]; rfl⟩) hcall

/-- One that is carried over the screen and back by a little. -/
theorem carried_run_back :
    (([((200, 100), 4), ((-30, 0), 4)].foldlM (mouseMoved threeWindows fun _ => ⟨0, 0, 0, 0⟩)
        (grab 150 110 floatingWindows 0 .move)).map fun d => (d.desktop.window 0).rect) =
      some ⟨274, 220, 566, 396⟩ := by
  obtain ⟨d', hrun⟩ := Option.isSome_iff_exists.1 (show ([((200, 100), 4), ((-30, 0), 4)].foldlM
    (mouseMoved threeWindows fun _ => ⟨0, 0, 0, 0⟩)
    (grab 150 110 floatingWindows 0 .move)).isSome by decide +kernel)
  rw [hrun]
  refine congrArg some (((@carried_run _ _ threeWindows _ _ _ (150, 110) _ _ rfl ?_ ?_ hrun).1
    ?_).trans
    (by decide))
  · exact ⟨by decide, by decide⟩
  · intro past hpast
    rw [← List.mem_inits] at hpast
    revert past
    decide
  · exact ⟨_, List.prefix_refl _, by decide⟩

end Drag

end DesktopManager

end Uberos
