import Mathlib.Logic.Function.Basic
import Uberos.DisplayManager.Model
/-!
# The desktop manager

Docking of `drivers/DesktopManager.cpp`: `dock`, `restore`, `minimise`,
`show` and `hide` of a window, and what these do to the others and to
`windowArea`. A window that is resized has the window area worked out
anew, which resizes the floating ones, and so on: the functions that call
each other so take a number of calls, and give nothing where it runs out.
Coordinates do not wrap. What is drawn, and who has the focus, is left
out, and where a window goes that is placed automatically, which the theme
has a say in, is a parameter.
-/

namespace Uberos

namespace Rect

variable (r : Rect)

/-- `width`. -/
def width : ℤ := r.x2 - r.x1

/-- `height`. -/
def height : ℤ := r.y2 - r.y1

end Rect

namespace DesktopManager

/-- `Window::State`. -/
inductive State
  | floating
  | docked
  | minimised
  deriving DecidableEq, Repr

/-- `Window::DockedType`. -/
inductive DockedType
  | top
  | bottom
  | left
  | right
  | full
  deriving DecidableEq, Repr

/-- `IVec2`. -/
structure IVec2 where
  x : ℤ
  y : ℤ
  deriving DecidableEq, Repr

/-- `Window`, and of its `graphicsDisplay` the place, the size of the
buffer and whether it is visible. -/
structure Window where
  x : ℤ
  y : ℤ
  width : ℤ
  height : ℤ
  isVisible : Bool
  leftMargin : ℕ
  topMargin : ℕ
  rightMargin : ℕ
  bottomMargin : ℕ
  minSize : IVec2
  maxSize : IVec2
  maxDockedWidth : ℤ
  maxDockedHeight : ℤ
  state : State
  dockedType : DockedType
  defaultFloatingRect : Rect
  isAutomaticPlacement : Bool
  deriving DecidableEq, Repr

/-- The size of `displayManager`, an `I32` either way, and `windows`,
which every window is in. -/
structure Screen (Id : Type) where
  width : ℤ
  height : ℤ
  windows : List Id
  width_nonneg : 0 ≤ width
  height_nonneg : 0 ≤ height
  width_le : width ≤ 0x7fffffff
  height_le : height ≤ 0x7fffffff
  nodup : windows.Nodup
  mem_windows : ∀ id, id ∈ windows

/-- `get_total_area`. -/
def Screen.totalArea {Id : Type} (screen : Screen Id) : Rect := ⟨0, 0, screen.width, screen.height⟩

/-- `maths::clamp`. -/
def clamp (x a b : ℤ) : ℤ := min (max x a) b

namespace Window

variable {Id : Type} (screen : Screen Id) (w : Window)

/-- `get_x`. -/
def getX : ℤ := w.x + w.leftMargin

/-- `get_y`. -/
def getY : ℤ := w.y + w.topMargin

/-- `get_width`. -/
def getWidth : ℤ := w.width - w.leftMargin - w.rightMargin

/-- `get_height`. -/
def getHeight : ℤ := w.height - w.topMargin - w.bottomMargin

/-- Where it is. -/
def rect : Rect := ⟨w.getX, w.getY, w.getX + w.getWidth, w.getY + w.getHeight⟩

/-- A width, within the limits. -/
def clampWidth (width : ℤ) : ℤ := clamp width w.minSize.x w.maxSize.x

/-- A height. -/
def clampHeight (height : ℤ) : ℤ := clamp height w.minSize.y w.maxSize.y

/-- `move_to`. -/
def moveTo (x y : ℤ) : Window :=
  let w := { w with isAutomaticPlacement := false }
  if x = w.getX ∧ y = w.getY then w
  else
    let margin := 10
    let x := clamp x (-w.width + margin) (screen.width - margin)
    let y := clamp y 0 (screen.height - margin)
    { w with x := x - w.leftMargin, y := y - w.topMargin }

/-- `_resize_display_to`. -/
def resizeDisplay (width height : ℤ) : Window :=
  { w with width := max 16 width, height := max 16 height }

/-- `_move_and_resize_display_to`. -/
def moveAndResizeDisplay (area : Rect) : Window :=
  if area.width = w.width ∧ area.height = w.height then { w with x := area.x1, y := area.y1 }
  else if area.x1 = w.x ∧ area.y1 = w.y then w.resizeDisplay area.width area.height
  else { w with x := area.x1, y := area.y1, width := area.width, height := area.height }

/-- `resize_to`, and whether it comes to `_on_graphicsDisplay_resized`. -/
def resizeTo (width height : ℤ) : Window × Bool :=
  let width := w.clampWidth width
  let height := w.clampHeight height
  let resized :=
    w.resizeDisplay (w.leftMargin + width + w.rightMargin) (w.topMargin + height + w.bottomMargin)
  (resized, !decide (resized.getWidth = w.getWidth ∧ resized.getHeight = w.getHeight))

/-- `move_and_resize_to`, and the same. -/
def moveAndResizeTo (x y width height : ℤ) : Window × Bool :=
  let w := { w with isAutomaticPlacement := false }
  let width := w.clampWidth width
  let height := w.clampHeight height
  if width = w.getWidth ∧ height = w.getHeight then (w.moveTo screen x y, false)
  else
    (w.moveAndResizeDisplay
      ⟨x - w.leftMargin, y - w.topMargin, x + width + w.rightMargin, y + height + w.bottomMargin⟩,
      true)

end Window

/-- The windows, and `windowArea`. -/
structure Desktop (Id : Type) where
  window : Id → Window
  windowArea : Rect

namespace Desktop

variable {Id : Type} [DecidableEq Id] (s : Desktop Id)

/-- A window changes. -/
def modify (id : Id) (f : Window → Window) : Desktop Id :=
  { s with window := Function.update s.window id (f (s.window id)) }

theorem window_modify {s : Desktop Id} {id : Id} {f : Window → Window} :
    (s.modify id f).window id = f (s.window id) :=
  Function.update_self _ _ _

theorem window_modify_of_ne {s : Desktop Id} {id j : Id} {f : Window → Window} (h : j ≠ id) :
    (s.modify id f).window j = s.window j :=
  Function.update_of_ne h _ _

/-- It changes, and goes on to what follows if it has been resized. -/
def change (resized : Desktop Id → Option (Desktop Id)) (id : Id) (f : Window → Window × Bool) :
    Option (Desktop Id) :=
  let s' := s.modify id fun w => (f w).1
  if (f (s.window id)).2 then resized s' else some s'

end Desktop

namespace Screen

variable {Id : Type} [DecidableEq Id] (screen : Screen Id)

/-! ## The window area -/

/-- What a docked window leaves of an area. -/
def reserve (area : Rect) (w : Window) : Rect :=
  match w.dockedType with
  | .top => area.intersect ⟨0, w.getY + w.getHeight, screen.width, screen.height⟩
  | .bottom => area.intersect ⟨0, 0, screen.width, w.getY⟩
  | .left => area.intersect ⟨w.getX + w.getWidth, 0, screen.width, screen.height⟩
  | .right => area.intersect ⟨0, 0, w.getX, screen.height⟩
  | .full => area

/-- `windowArea`, as `_update_window_area` works it out. -/
def windowAreaOf (exclude : Option Id) (window : Id → Window) : Rect :=
  screen.windows.foldl (fun area id =>
    if some id = exclude then area
    else if (window id).isVisible ∧ (window id).state = .docked then
      screen.reserve area (window id)
    else area) screen.totalArea

/-- One direction of the area a floating window is given: the ends of the
window area, and its own. -/
def fitAxis (lo hi x1 x2 : ℤ) : ℤ × ℤ :=
  if x2 - x1 ≥ hi - lo then (lo, hi)
  else
    let margin := (hi - lo - (x2 - x1)) / 2
    if x1 < lo then
      let nudge := min (hi - x2 - margin) ((lo - x1) * 2)
      (x1 + nudge, x2 + nudge)
    else if x2 > hi then
      let nudge := max (margin - (x1 - lo)) ((hi - x2) * 2)
      (x1 + nudge, x2 + nudge)
    else (x1, x2)

/-- The area a floating window is given. -/
def fit (windowArea : Rect) (w : Window) : Rect :=
  let (x1, x2) := fitAxis windowArea.x1 windowArea.x2 w.rect.x1 w.rect.x2
  let (y1, y2) := fitAxis windowArea.y1 windowArea.y2 w.rect.y1 w.rect.y2
  ⟨x1, y1, x2, y2⟩

/-- A floating window is moved and resized to it. -/
def refit (windowArea : Rect) (w : Window) : Window × Bool :=
  let area := fit windowArea w
  w.moveAndResizeTo screen area.x1 area.y1 area.width area.height

/-- `_update_window_area`, with so many calls left. -/
def updateWindowArea : ℕ → Option Id → Desktop Id → Option (Desktop Id)
  | 0, _, _ => none
  | calls + 1, exclude, s =>
    screen.windows.foldlM (fun s id =>
      if some id = exclude then some s
      else if (s.window id).state = .floating then
        s.change (updateWindowArea calls none) id (screen.refit s.windowArea)
      else some s) { s with windowArea := screen.windowAreaOf exclude s.window }

/-! ## Docking -/

/-- `_enable_docked_window`. -/
def enableDockedWindow (calls : ℕ) (s : Desktop Id) : Option (Desktop Id) :=
  screen.updateWindowArea calls none s

/-- What becomes of a docked window when another is gone. -/
def closeUp (gone w : Window) : Window × Bool :=
  match gone.dockedType with
  | .left =>
    match w.dockedType with
    | .top | .bottom | .full =>
      if w.getX ≥ gone.getX + gone.getWidth then
        w.moveAndResizeTo screen (w.getX - gone.getWidth) w.getY (w.getWidth + gone.getWidth)
          w.getHeight
      else (w, false)
    | .left =>
      if w.getX ≥ gone.getX + gone.getWidth then
        (w.moveTo screen (w.getX - gone.getWidth) w.getY, false)
      else (w, false)
    | .right => (w, false)
  | .right =>
    match w.dockedType with
    | .top | .bottom | .full =>
      if w.getX + w.getWidth ≤ gone.getX then
        w.resizeTo (w.getWidth + gone.getWidth) w.getHeight
      else (w, false)
    | .left => (w, false)
    | .right =>
      if w.getX + w.getWidth ≤ gone.getX then
        (w.moveTo screen (w.getX + gone.getWidth) w.getY, false)
      else (w, false)
  | .top =>
    match w.dockedType with
    | .left | .right | .full =>
      if w.getY ≥ gone.getY + gone.getHeight then
        w.moveAndResizeTo screen w.getX (w.getY - gone.getHeight) w.getWidth
          (w.getHeight + gone.getHeight)
      else (w, false)
    | .top =>
      if w.getY ≥ gone.getY + gone.getHeight then
        (w.moveTo screen w.getX (w.getY - gone.getHeight), false)
      else (w, false)
    | .bottom => (w, false)
  | .bottom =>
    match w.dockedType with
    | .left | .right | .full =>
      if w.getY + w.getHeight ≤ gone.getY then
        w.resizeTo w.getWidth (w.getHeight + gone.getHeight)
      else (w, false)
    | .top => (w, false)
    | .bottom =>
      if w.getY + w.getHeight ≤ gone.getY then
        (w.moveTo screen w.getX (w.getY + gone.getHeight), false)
      else (w, false)
  | .full => (w, false)

/-- `_disable_docked_window`. -/
def disableDockedWindow (calls : ℕ) (id : Id) (s : Desktop Id) : Option (Desktop Id) := do
  let s ← screen.windows.foldlM (fun s other =>
    if (s.window other).state = .docked then
      s.change (screen.updateWindowArea calls none) other (screen.closeUp (s.window id))
    else some s) s
  screen.updateWindowArea calls (some id) s

/-- The height of a window that is docked at the top or the bottom. -/
def dockedHeight (windowArea : Rect) (w : Window) : ℤ :=
  max 16 (min (windowArea.height / 2 - 4) w.maxDockedHeight)

/-- The width of one that is docked at a side. -/
def dockedWidth (windowArea : Rect) (w : Window) : ℤ :=
  max 16 (min (windowArea.width / 2 - 4) w.maxDockedWidth)

/-- What `dock` moves and resizes a window to. -/
def dockedRect (windowArea : Rect) (w : Window) : DockedType → Rect
  | .top =>
    ⟨windowArea.x1, windowArea.y1, windowArea.x1 + windowArea.width,
      windowArea.y1 + dockedHeight windowArea w⟩
  | .bottom =>
    ⟨windowArea.x1, windowArea.y2 - dockedHeight windowArea w, windowArea.x1 + windowArea.width,
      windowArea.y2⟩
  | .left =>
    ⟨windowArea.x1, windowArea.y1, windowArea.x1 + dockedWidth windowArea w,
      windowArea.y1 + windowArea.height⟩
  | .right =>
    ⟨windowArea.x2 - dockedWidth windowArea w, windowArea.y1, windowArea.x2,
      windowArea.y1 + windowArea.height⟩
  | .full => windowArea

/-- The limit that `dock` lifts. -/
def liftLimit (type : DockedType) (w : Window) : Window :=
  { w with
    maxSize :=
      match type with
      | .top | .bottom => { w.maxSize with x := 0x7fffffff }
      | .left | .right => { w.maxSize with y := 0x7fffffff }
      | .full => ⟨0x7fffffff, 0x7fffffff⟩ }

/-- A window is moved and resized to where it is docked. -/
def moveToDock (windowArea : Rect) (type : DockedType) (w : Window) : Window × Bool :=
  let w := liftLimit type w
  let area := dockedRect windowArea w type
  w.moveAndResizeTo screen area.x1 area.y1 area.width area.height

/-- `dock`. -/
def dock (calls : ℕ) (id : Id) (type : DockedType) (s : Desktop Id) : Option (Desktop Id) :=
  if (s.window id).state = .docked ∧ (s.window id).dockedType = type then some s
  else do
    let s ←
      match (s.window id).state with
      | .docked => screen.disableDockedWindow calls id s
      | .floating => some <| s.modify id fun w => { w with defaultFloatingRect := w.rect }
      | .minimised =>
        some <| s.modify id fun w => { w with isVisible := true, defaultFloatingRect := w.rect }
    let s := s.modify id fun w => { w with state := .docked, dockedType := type }
    let s ← s.change (screen.updateWindowArea calls none) id (screen.moveToDock s.windowArea type)
    screen.enableDockedWindow calls s

/-- A window is moved and resized to where it floated. -/
def moveToFloat (w : Window) : Window × Bool :=
  w.moveAndResizeTo screen w.defaultFloatingRect.x1 w.defaultFloatingRect.y1
    w.defaultFloatingRect.width w.defaultFloatingRect.height

/-- `minimise`. -/
def minimise (calls : ℕ) (id : Id) (s : Desktop Id) : Option (Desktop Id) :=
  match (s.window id).state with
  | .docked => do
    let s ← screen.disableDockedWindow calls id s
    let s := s.modify id fun w => { w with isVisible := false }
    let s ← s.change (screen.updateWindowArea calls none) id screen.moveToFloat
    some <| s.modify id fun w => { w with state := .minimised }
  | .floating => some <| s.modify id fun w => { w with isVisible := false, state := .minimised }
  | .minimised => some s

/-- `restore`. -/
def restore (calls : ℕ) (id : Id) (s : Desktop Id) : Option (Desktop Id) :=
  match (s.window id).state with
  | .docked => do
    let s := s.modify id fun w => { w with state := .floating }
    let s ← screen.disableDockedWindow calls id s
    s.change (screen.updateWindowArea calls none) id screen.moveToFloat
  | .floating => some s
  | .minimised => some <| s.modify id fun w => { w with state := .floating, isVisible := true }

/-- `_autoposition_window`, which finds a place. -/
def autoposition (place : Desktop Id → Id → IVec2) (id : Id) (s : Desktop Id) : Desktop Id :=
  s.modify id fun w =>
    { w.moveTo screen (place s id).x (place s id).y with isAutomaticPlacement := true }

/-- `show`. -/
def «show» (place : Desktop Id → Id → IVec2) (calls : ℕ) (id : Id) (s : Desktop Id) :
    Option (Desktop Id) :=
  if (s.window id).isVisible then some s
  else
    let s := if (s.window id).isAutomaticPlacement then screen.autoposition place id s else s
    let s := s.modify id fun w => { w with isVisible := true }
    if (s.window id).state = .docked then screen.enableDockedWindow calls s else some s

/-- `hide`. -/
def hide (calls : ℕ) (id : Id) (s : Desktop Id) : Option (Desktop Id) :=
  if ¬ (s.window id).isVisible then some s
  else
    let s := s.modify id fun w => { w with isVisible := false }
    if (s.window id).state = .docked then screen.disableDockedWindow calls id s else some s

end Screen

/-! ## Steps -/

/-- What can be asked of a window. -/
inductive Op (Id : Type)
  | dock (id : Id) (type : DockedType)
  | restore (id : Id)
  | minimise (id : Id)
  | «show» (id : Id)
  | hide (id : Id)
  deriving DecidableEq, Repr

variable {Id : Type} [DecidableEq Id]

/-- One of these, with so many calls. -/
def perform (screen : Screen Id) (place : Desktop Id → Id → IVec2) (calls : ℕ) :
    Op Id → Desktop Id → Option (Desktop Id)
  | .dock id type => screen.dock calls id type
  | .restore id => screen.restore calls id
  | .minimise id => screen.minimise calls id
  | .show id => screen.show place calls id
  | .hide id => screen.hide calls id

end DesktopManager

end Uberos
