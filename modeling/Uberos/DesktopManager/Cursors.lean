import Mathlib.Logic.Function.Basic
import Mathlib.Data.List.Basic
import Uberos.Library.Run
/-!
# Mice, the windows they hold, and the focus

`Cursor` of `drivers/DesktopManager.cpp` and what grabs and releases a
window with it: `grab_window`, `release_window`, `_add_mouse`,
`_remove_mouse`, and of `on_mouse_event` and `on_keyboard_event` what
concerns the grabs and `focusedWindow`. A cursor points to the window that
it holds, and the window to the cursor. The cursors are in a
`ListUnordered`, which moves them: all of them when it grows, and the last
one when another is removed.

Which window is under a mouse is an input, and so is whether it is on top.
Where the windows go is left out.
-/

namespace Uberos

open Library

namespace Cursors

set_option linter.unusedSectionVars false

variable {W M : Type} [DecidableEq W] [DecidableEq M]

/-- A `Cursor*`: which of the arrays that the list has had, and where in
it. -/
structure Address where
  array : ℕ
  index : ℕ
  deriving DecidableEq, Repr

/-- `Cursor`: its mouse, and `grabbedWindow.window`. -/
structure Cursor (W M : Type) where
  mouse : Option M := none
  grabbedWindow : Option W := none

/-- `cursors`, with what is past its end; of every window
`draggingCursor`, `_draw_focused` and whether it is minimised; `windows`
and `focusedWindow`. -/
structure Desk (W M : Type) where
  array : ℕ := 0
  allocated : ℕ := 0
  length : ℕ := 0
  data : ℕ → Cursor W M := fun _ => {}
  draggingCursor : W → Option Address := fun _ => none
  windows : List W := []
  focusedWindow : Option W := none
  drawFocused : W → Bool := fun _ => false
  isMinimised : W → Bool := fun _ => false
  /-- An array has been read that is deleted. -/
  isDangling : Bool := false

/-- What can happen next. -/
inductive Op (W M : Type)
  | addMouse (mouse : M)
  | removeMouse (mouse : M)
  | pressed (mouse : M) (button : ℕ) (cursorWindow : Option W) (isTop : Bool)
  | released (mouse : M) (button : ℕ)
  | escapePressed
  | createWindow (window : W)
  | focus (window : W)
  | minimise (window : W)
  /-- `Window::restore` or `Window::dock`. -/
  | restore (window : W)

/-- No mouse comes or goes. -/
def Op.KeepsMice : Op W M → Prop
  | .addMouse _ | .removeMouse _ => False
  | _ => True

namespace Desk

variable (s : Desk W M)

/-! ## `ListUnordered` -/

/-- `resize`, which leaves the old array. -/
def resize (newSize : ℕ) : Desk W M :=
  let newSize := max (max s.length 1) newSize
  if newSize = s.allocated then s
  else
    { s with
      array := s.array + 1
      allocated := newSize
      data := fun index => if index < s.length then s.data index else {} }

/-- `push`. -/
def push (item : Cursor W M) : Desk W M :=
  let s := if s.length + 1 ≥ s.allocated then s.resize (s.length + 1 + s.length / 2) else s
  { s with data := Function.update s.data s.length item, length := s.length + 1 }

/-- `remove`, which puts the last in its place. -/
def remove (index : ℕ) : Desk W M :=
  let length := s.length - 1
  { s with
    length := length
    data := if index < length then Function.update s.data index (s.data length) else s.data }

/-- `_find_cursor`. -/
def findCursor (mouse : M) : Option ℕ :=
  (List.range s.length).find? fun index => (s.data index).mouse = some mouse

/-! ## The focus -/

/-- `update_focused_window`. -/
def updateFocusedWindow : Desk W M :=
  { s with
    drawFocused := s.windows.foldl (fun drawFocused window =>
      let isFocused := decide (s.focusedWindow = some window)
      if isFocused ≠ drawFocused window then Function.update drawFocused window isFocused
      else drawFocused) s.drawFocused }

/-- `focusedWindow` is set, and drawn. -/
def setFocused (window : Option W) : Desk W M :=
  { s with focusedWindow := window }.updateFocusedWindow

/-- `Window::restore`. -/
def restore (window : W) : Desk W M :=
  { s with isMinimised := Function.update s.isMinimised window false }

/-- `Window::raise`. -/
def raise (window : W) : Desk W M := if s.isMinimised window then s.restore window else s

/-- `Window::focus`. -/
def focus (window : W) : Desk W M :=
  if s.focusedWindow = some window then s
  else ({ s with focusedWindow := some window }.raise window).updateFocusedWindow

/-- `Window::minimise`. -/
def minimise (window : W) : Desk W M :=
  if s.isMinimised window then s
  else
    let s := { s with isMinimised := Function.update s.isMinimised window true }
    if s.focusedWindow = some window then s.setFocused none else s

/-- `create_standard_window` and `create_custom_window`, of a window that
is new. -/
def createWindow (window : W) : Desk W M :=
  { s with
    windows := s.windows ++ [window]
    isMinimised := Function.update s.isMinimised window false }.setFocused (some window)

/-! ## Grabs -/

/-- `release_window` of a cursor, wherever it is said to be. -/
def releaseWindow (cursor : Address) : Desk W M :=
  if cursor.array ≠ s.array then { s with isDangling := true }
  else
    match (s.data cursor.index).grabbedWindow with
    | none => s
    | some window =>
      if s.draggingCursor window ≠ some cursor then s
      else
        { s with
          draggingCursor := Function.update s.draggingCursor window none
          data := Function.update s.data cursor.index
            { s.data cursor.index with grabbedWindow := none } }

/-- What `grab_window` does first: another cursor that has the window
releases it. -/
def releaseOther (cursor : Address) (window : W) : Desk W M :=
  match s.draggingCursor window with
  | some other => if other ≠ cursor then s.releaseWindow other else s
  | none => s

/-- The two point to each other. -/
def link (cursor : Address) (window : W) : Desk W M :=
  { s with
    data := Function.update s.data cursor.index
      { s.data cursor.index with grabbedWindow := some window }
    draggingCursor := Function.update s.draggingCursor window (some cursor) }

/-- `grab_window`. -/
def grabWindow (cursor : Address) (window : W) (isTop : Bool) : Desk W M :=
  let s := (s.releaseOther cursor window).link cursor window
  if isTop then s else (s.raise window).setFocused (some window)

/-! ## Events -/

/-- `_add_mouse`. -/
def addMouse (mouse : M) : Desk W M := s.push { mouse := some mouse }

/-- `_remove_mouse`. -/
def removeMouse (mouse : M) : Desk W M :=
  match s.findCursor mouse with
  | none => s
  | some index => s.remove index

/-- What a press does before it grabs anything. -/
def focusPressed (cursorWindow : Option W) : Desk W M :=
  match cursorWindow with
  | some window => (s.raise window).setFocused (some window)
  | none => s.setFocused none

/-- `on_mouse_event`, of a button that is pressed. -/
def pressed (mouse : M) (button : ℕ) (cursorWindow : Option W) (isTop : Bool) : Desk W M :=
  match s.findCursor mouse with
  | none => s
  | some index =>
    let s := s.focusPressed cursorWindow
    match cursorWindow with
    | none => s
    | some window =>
      if button = 0 ∧ (s.data index).grabbedWindow = none then
        s.grabWindow ⟨s.array, index⟩ window isTop
      else s

/-- `on_mouse_event`, of one that is released. -/
def released (mouse : M) (button : ℕ) : Desk W M :=
  match s.findCursor mouse with
  | none => s
  | some index =>
    if button = 0 ∧ (s.data index).grabbedWindow ≠ none then s.releaseWindow ⟨s.array, index⟩
    else s

/-- `on_keyboard_event`, of the escape key. -/
def escapePressed : Desk W M :=
  if s.focusedWindow = none then s
  else (List.range s.length).foldl (fun t index => t.releaseWindow ⟨s.array, index⟩) s

/-- One step. -/
def step (s : Desk W M) : Op W M → Desk W M
  | .addMouse mouse => s.addMouse mouse
  | .removeMouse mouse => s.removeMouse mouse
  | .pressed mouse button cursorWindow isTop => s.pressed mouse button cursorWindow isTop
  | .released mouse button => s.released mouse button
  | .escapePressed => s.escapePressed
  | .createWindow window => s.createWindow window
  | .focus window => s.focus window
  | .minimise window => s.minimise window
  | .restore window => s.restore window

/-! ## What it is for -/

/-- **Cursors and windows point to each other.** -/
structure Agree : Prop where
  window_to_cursor : ∀ window cursor, s.draggingCursor window = some cursor →
    cursor.array = s.array ∧ cursor.index < s.length ∧
      (s.data cursor.index).grabbedWindow = some window
  cursor_to_window : ∀ index < s.length, ∀ window,
    (s.data index).grabbedWindow = some window → s.draggingCursor window = some ⟨s.array, index⟩
  not_dangling : s.isDangling = false

/-- The cursors that a step moves or removes hold nothing. -/
def EmptyHanded (s : Desk W M) : Op W M → Prop
  | .addMouse _ =>
    s.length + 1 ≥ s.allocated → s.length + 1 + s.length / 2 ≠ s.allocated →
      ∀ index < s.length, (s.data index).grabbedWindow = none
  | .removeMouse mouse =>
    ∀ index ∈ s.findCursor mouse,
      (s.data index).grabbedWindow = none ∧ (s.data (s.length - 1)).grabbedWindow = none
  | _ => True

instance (s : Desk W M) (op : Op W M) : Decidable (s.EmptyHanded op) :=
  match op with
  | .addMouse _ => inferInstanceAs (Decidable (_ → _ → ∀ index < s.length, _ = none))
  | .removeMouse _ => inferInstanceAs (Decidable (∀ index ∈ _, _ = none ∧ _ = none))
  | .pressed .. | .released .. | .escapePressed | .createWindow _ | .focus _ | .minimise _
  | .restore _ => isTrue trivial

/-- The window that is drawn as focused is the one that has the focus, and
it is not minimised. -/
structure Focused : Prop where
  drawn : ∀ window ∈ s.windows, s.drawFocused window = decide (s.focusedWindow = some window)
  not_minimised : ∀ window, s.focusedWindow = some window → s.isMinimised window = false

variable {s t : Desk W M} {mouse : M} {window : W} {index : ℕ} {cursor : Address} {isTop : Bool}
variable {op : Op W M} {ops : List (Op W M)}

/-! ## What is not touched -/

/-- Of the state what the grabs are about. -/
def links (s : Desk W M) : ℕ × ℕ × (ℕ → Cursor W M) × (W → Option Address) × Bool :=
  (s.array, s.length, s.data, s.draggingCursor, s.isDangling)

/-- And what the focus is about. -/
def focusing (s : Desk W M) : List W × Option W × (W → Bool) × (W → Bool) :=
  (s.windows, s.focusedWindow, s.drawFocused, s.isMinimised)

@[simp] theorem links_setFocused (window : Option W) : (s.setFocused window).links = s.links := rfl

@[simp] theorem links_restore : (s.restore window).links = s.links := rfl

@[simp] theorem links_createWindow : (s.createWindow window).links = s.links := rfl

@[simp] theorem links_raise : (s.raise window).links = s.links := by
  rw [raise]
  split
  · rfl
  · rfl

@[simp] theorem links_focus : (s.focus window).links = s.links := by
  rw [focus]
  split
  · rfl
  · exact links_raise

@[simp] theorem links_minimise : (s.minimise window).links = s.links := by
  rw [minimise]
  split
  · rfl
  · dsimp only
    split
    · rfl
    · rfl

@[simp] theorem links_focusPressed (cursorWindow : Option W) :
    (s.focusPressed cursorWindow).links = s.links := by
  cases cursorWindow with
  | none => rfl
  | some window => exact links_raise

@[simp] theorem focusing_releaseWindow (cursor : Address) :
    (s.releaseWindow cursor).focusing = s.focusing := by
  rw [releaseWindow]
  split
  · rfl
  split
  · rfl
  split
  · rfl
  · rfl

@[simp] theorem focusing_releaseOther (cursor : Address) :
    (s.releaseOther cursor window).focusing = s.focusing := by
  rw [releaseOther]
  split
  · split
    · exact focusing_releaseWindow _
    · rfl
  · rfl

@[simp] theorem focusing_addMouse : (s.addMouse mouse).focusing = s.focusing := by
  rw [addMouse, push]
  split
  · rw [resize]
    split
    · rfl
    · rfl
  · rfl

@[simp] theorem focusing_removeMouse : (s.removeMouse mouse).focusing = s.focusing := by
  rw [removeMouse]
  split
  · rfl
  · rfl

theorem focusing_escapePressed : s.escapePressed.focusing = s.focusing := by
  rw [escapePressed]
  split
  · rfl
  · exact run_keeps focusing (fun t index => focusing_releaseWindow _) s _

theorem Agree.of_links (h : s.Agree) (hlinks : t.links = s.links) : t.Agree := by
  simp only [links, Prod.mk.injEq] at hlinks
  obtain ⟨harray, hlength, hdata, hdragging, hdangling⟩ := hlinks
  exact ⟨by rw [harray, hlength, hdata, hdragging]; exact h.window_to_cursor,
    by rw [harray, hlength, hdata, hdragging]; exact h.cursor_to_window,
    hdangling.trans h.not_dangling⟩

theorem length_of_links (hlinks : t.links = s.links) : t.length = s.length := by
  simp only [links, Prod.mk.injEq] at hlinks
  exact hlinks.2.1

theorem Focused.of_focusing (h : s.Focused) (hfocusing : t.focusing = s.focusing) : t.Focused := by
  simp only [focusing, Prod.mk.injEq] at hfocusing
  obtain ⟨hwindows, hfocused, hdrawn, hminimised⟩ := hfocusing
  exact ⟨by rw [hwindows, hfocused, hdrawn]; exact h.drawn,
    by rw [hfocused, hminimised]; exact h.not_minimised⟩

theorem lt_of_findCursor (hfind : s.findCursor mouse = some index) : index < s.length :=
  List.mem_range.1 (List.mem_of_find?_eq_some hfind)

/-! ## Releasing and grabbing -/

/-- A cursor that the window points back to lets it go. -/
theorem releaseWindow_of_agree (h : s.Agree) (hindex : index < s.length)
    (hgrabbed : (s.data index).grabbedWindow = some window) :
    s.releaseWindow ⟨s.array, index⟩ =
      { s with
        draggingCursor := Function.update s.draggingCursor window none
        data := Function.update s.data index { s.data index with grabbedWindow := none } } := by
  have hback := h.cursor_to_window index hindex window hgrabbed
  rw [releaseWindow, if_neg (not_not_intro rfl), hgrabbed]
  exact if_neg (not_not_intro hback)

theorem releaseWindow_of_empty (hempty : (s.data index).grabbedWindow = none) :
    s.releaseWindow ⟨s.array, index⟩ = s := by
  rw [releaseWindow, if_neg (not_not_intro rfl), hempty]

theorem Agree.releaseWindow (h : s.Agree) (hindex : index < s.length) :
    (s.releaseWindow ⟨s.array, index⟩).Agree := by
  cases hgrabbed : (s.data index).grabbedWindow with
  | none => rwa [releaseWindow_of_empty hgrabbed]
  | some window =>
    rw [releaseWindow_of_agree h hindex hgrabbed]
    have hback := h.cursor_to_window index hindex window hgrabbed
    refine ⟨fun other cursor hother => ?_, fun i hi other hother => ?_, h.not_dangling⟩
    · dsimp only at hother ⊢
      rcases eq_or_ne other window with rfl | hne
      · simp at hother
      · rw [Function.update_of_ne hne] at hother
        obtain ⟨harray, hlt, hdata⟩ := h.window_to_cursor other cursor hother
        have hi : cursor.index ≠ index := by
          rintro hi
          rw [hi, hgrabbed] at hdata
          exact hne (Option.some.inj hdata).symm
        rw [Function.update_of_ne hi]
        exact ⟨harray, hlt, hdata⟩
    · dsimp only at hi hother ⊢
      rcases eq_or_ne i index with rfl | hne
      · simp at hother
      · rw [Function.update_of_ne hne] at hother
        have hother' := h.cursor_to_window i hi other hother
        have hwindow : other ≠ window := by
          rintro rfl
          rw [hback] at hother'
          simp only [Option.some.injEq, Address.mk.injEq, true_and] at hother'
          exact hne hother'.symm
        rw [Function.update_of_ne hwindow]
        exact hother'

/-- What holds of the state where a cursor that holds nothing is to grab a
window. -/
structure Free (s : Desk W M) (index : ℕ) (window : W) : Prop extends s.Agree where
  lt : index < s.length
  empty : (s.data index).grabbedWindow = none
  free : s.draggingCursor window = none

theorem Agree.releaseOther (h : s.Agree) (hindex : index < s.length)
    (hempty : (s.data index).grabbedWindow = none) (window : W) :
    (s.releaseOther ⟨s.array, index⟩ window).Free index window ∧
      (s.releaseOther ⟨s.array, index⟩ window).array = s.array := by
  rw [Desk.releaseOther]
  cases hdragging : s.draggingCursor window with
  | none => exact ⟨⟨h, hindex, hempty, hdragging⟩, rfl⟩
  | some other =>
    obtain ⟨harray, hlt, hdata⟩ := h.window_to_cursor window other hdragging
    have hne : index ≠ other.index := by
      rintro rfl
      rw [hempty] at hdata
      exact absurd hdata (by simp)
    have hother : other = ⟨s.array, other.index⟩ := by rw [← harray]
    have hagree : (s.releaseWindow other).Agree := by
      rw [hother]
      exact h.releaseWindow hlt
    have hdiffers : other ≠ ⟨s.array, index⟩ := by
      rintro rfl
      exact hne rfl
    dsimp only
    rw [if_pos hdiffers]
    rw [hother, releaseWindow_of_agree h hlt hdata] at hagree ⊢
    refine ⟨⟨hagree, hindex, ?_, Function.update_self _ _ _⟩, rfl⟩
    dsimp only
    rwa [Function.update_of_ne hne]

theorem Free.link (h : s.Free index window) : (s.link ⟨s.array, index⟩ window).Agree := by
  refine ⟨fun other cursor hother => ?_, fun i hi other hother => ?_, h.not_dangling⟩
  · simp only [Desk.link] at hother ⊢
    rcases eq_or_ne other window with rfl | hne
    · rw [Function.update_self] at hother
      obtain rfl := Option.some.inj hother
      exact ⟨rfl, h.lt, by rw [Function.update_self]⟩
    · rw [Function.update_of_ne hne] at hother
      obtain ⟨harray, hlt, hdata⟩ := h.window_to_cursor other cursor hother
      have hi : cursor.index ≠ index := by
        intro hi
        rw [hi, h.empty] at hdata
        exact absurd hdata (by simp)
      rw [Function.update_of_ne hi]
      exact ⟨harray, hlt, hdata⟩
  · simp only [Desk.link] at hi hother ⊢
    rcases eq_or_ne i index with rfl | hne
    · rw [Function.update_self] at hother
      obtain rfl := Option.some.inj hother
      exact Function.update_self _ _ _
    · rw [Function.update_of_ne hne] at hother
      have hother' := h.cursor_to_window i hi other hother
      have hwindow : other ≠ window := by
        rintro rfl
        rw [h.free] at hother'
        exact absurd hother' (by simp)
      rw [Function.update_of_ne hwindow]
      exact hother'

/-- **A grab leaves what it takes with one cursor only.** -/
theorem Agree.grabWindow (h : s.Agree) (hindex : index < s.length)
    (hempty : (s.data index).grabbedWindow = none) (window : W) (isTop : Bool) :
    (s.grabWindow ⟨s.array, index⟩ window isTop).Agree := by
  obtain ⟨hfree, harray⟩ := h.releaseOther hindex hempty window
  have hlink := hfree.link
  rw [harray] at hlink
  rw [Desk.grabWindow]
  split
  · exact hlink
  · exact hlink.of_links ((links_setFocused _).trans links_raise)

theorem Agree.pressed (h : s.Agree) (mouse : M) (button : ℕ) (cursorWindow : Option W)
    (isTop : Bool) : (s.pressed mouse button cursorWindow isTop).Agree := by
  have hfocus := h.of_links (links_focusPressed cursorWindow)
  have hlength : (s.focusPressed cursorWindow).length = s.length :=
    length_of_links (links_focusPressed cursorWindow)
  rw [Desk.pressed]
  split
  · exact h
  · next index hfind =>
    dsimp only
    split
    · exact hfocus
    · split
      · next hgrab =>
        exact hfocus.grabWindow (by rw [hlength]; exact lt_of_findCursor hfind) hgrab.2 _ isTop
      · exact hfocus

theorem Agree.released (h : s.Agree) (mouse : M) (button : ℕ) :
    (s.released mouse button).Agree := by
  rw [Desk.released]
  split
  · exact h
  · next index hfind =>
    split
    · exact h.releaseWindow (lt_of_findCursor hfind)
    · exact h

theorem place_releaseWindow : (s.releaseWindow cursor).array = s.array ∧
    (s.releaseWindow cursor).length = s.length := by
  rw [releaseWindow]
  split
  · exact ⟨rfl, rfl⟩
  split
  · exact ⟨rfl, rfl⟩
  split
  · exact ⟨rfl, rfl⟩
  · exact ⟨rfl, rfl⟩

theorem Agree.escapePressed (h : s.Agree) : s.escapePressed.Agree := by
  rw [Desk.escapePressed]
  split
  · exact h
  · have hrun : ∀ indices : List ℕ, (∀ index ∈ indices, index < s.length) →
        ∀ t : Desk W M, t.Agree →
        t.array = s.array → t.length = s.length →
        (indices.foldl (fun t index => t.releaseWindow ⟨s.array, index⟩) t).Agree := by
      intro indices
      induction indices with
      | nil => exact fun _ t ht _ _ => ht
      | cons index indices ih =>
        intro hlt t ht harray hlength
        have hindex : index < t.length := hlength ▸ hlt index List.mem_cons_self
        have hplace := @place_releaseWindow W M _ _ t ⟨s.array, index⟩
        have hreleased := ht.releaseWindow hindex
        rw [harray] at hreleased
        exact ih (fun i hi => hlt i (List.mem_cons_of_mem _ hi)) _ hreleased
          (hplace.1.trans harray) (hplace.2.trans hlength)
    exact hrun _ (fun index => List.mem_range.1) s h rfl rfl

/-! ## Mice that come and go -/

theorem addMouse_of_room (hroom : s.length + 1 ≥ s.allocated →
    s.length + 1 + s.length / 2 = s.allocated) :
    (s.addMouse mouse).links = (s.array, s.length + 1,
      Function.update s.data s.length { mouse := some mouse }, s.draggingCursor, s.isDangling) := by
  rw [addMouse, push]
  split
  · next hfull =>
    have hsize : max (max s.length 1) (s.length + 1 + s.length / 2) = s.allocated := by
      rw [← hroom hfull]
      omega
    rw [resize, if_pos hsize]
    rfl
  · rfl

theorem addMouse_of_full (hfull : s.length + 1 ≥ s.allocated)
    (hsize : s.length + 1 + s.length / 2 ≠ s.allocated) :
    (s.addMouse mouse).links = (s.array + 1, s.length + 1,
      Function.update (fun index => if index < s.length then s.data index else {}) s.length
        { mouse := some mouse }, s.draggingCursor, s.isDangling) := by
  have hnew : max (max s.length 1) (s.length + 1 + s.length / 2) ≠ s.allocated := by
    intro heq
    apply hsize
    rw [← heq]
    omega
  rw [addMouse, push, if_pos hfull, resize, if_neg hnew]
  rfl

/-- **A mouse that comes** leaves the rest as they are where there is room
for it, or nothing is held. -/
theorem Agree.addMouse_iff (h : s.Agree) :
    (s.addMouse mouse).Agree ↔ s.EmptyHanded (.addMouse mouse) := by
  by_cases hroom : s.length + 1 ≥ s.allocated → s.length + 1 + s.length / 2 = s.allocated
  · refine iff_of_true ?_ fun hfull hsize => absurd (hroom hfull) hsize
    have hlinks := @addMouse_of_room W M _ _ s mouse hroom
    simp only [links, Prod.mk.injEq] at hlinks
    obtain ⟨harray, hlength, hdata, hdragging, hdangling⟩ := hlinks
    refine ⟨fun window cursor hwindow => ?_, fun index hindex window hgrabbed => ?_,
      hdangling.trans h.not_dangling⟩
    · rw [hdragging] at hwindow
      obtain ⟨hsame, hlt, hgrabbed⟩ := h.window_to_cursor window cursor hwindow
      rw [harray, hlength, hdata, Function.update_of_ne hlt.ne]
      exact ⟨hsame, hlt.trans (Nat.lt_succ_self _), hgrabbed⟩
    · rw [hdata] at hgrabbed
      rw [hlength] at hindex
      rw [hdragging, harray]
      rcases Nat.lt_succ_iff_lt_or_eq.1 hindex with hlt | rfl
      · rw [Function.update_of_ne hlt.ne] at hgrabbed
        exact h.cursor_to_window index hlt window hgrabbed
      · rw [Function.update_self] at hgrabbed
        exact absurd hgrabbed (by simp)
  · have hfull : s.length + 1 ≥ s.allocated := by
      by_contra hnot
      exact hroom fun hge => absurd hge hnot
    have hsize : s.length + 1 + s.length / 2 ≠ s.allocated := fun heq => hroom fun _ => heq
    have hlinks := @addMouse_of_full W M _ _ s mouse hfull hsize
    simp only [links, Prod.mk.injEq] at hlinks
    obtain ⟨harray, hlength, hdata, hdragging, hdangling⟩ := hlinks
    have hold : ∀ index < s.length, (s.addMouse mouse).data index = s.data index := by
      intro index hlt
      rw [hdata, Function.update_of_ne hlt.ne, if_pos hlt]
    constructor
    · intro hagree _ _ index hlt
      by_contra hholds
      obtain ⟨window, hgrabbed⟩ := Option.ne_none_iff_exists'.1 hholds
      have hbefore := h.cursor_to_window index hlt window hgrabbed
      have hafter := hagree.cursor_to_window index (by omega) window (by rwa [hold index hlt])
      rw [hdragging, hbefore, harray] at hafter
      simp at hafter
    · intro hempty
      have hnone : ∀ window, s.draggingCursor window = none := by
        intro window
        by_contra hholds
        obtain ⟨cursor, hwindow⟩ := Option.ne_none_iff_exists'.1 hholds
        obtain ⟨-, hlt, hgrabbed⟩ := h.window_to_cursor window cursor hwindow
        rw [hempty hfull hsize _ hlt] at hgrabbed
        exact absurd hgrabbed (by simp)
      refine ⟨fun window cursor hwindow => ?_, fun index hindex window hgrabbed => ?_,
        hdangling.trans h.not_dangling⟩
      · rw [hdragging, hnone] at hwindow
        exact absurd hwindow (by simp)
      · rw [hlength] at hindex
        rcases Nat.lt_succ_iff_lt_or_eq.1 hindex with hlt | rfl
        · rw [hold index hlt, hempty hfull hsize index hlt] at hgrabbed
          exact absurd hgrabbed (by simp)
        · rw [hdata, Function.update_self] at hgrabbed
          exact absurd hgrabbed (by simp)

theorem removeMouse_of_find (hfind : s.findCursor mouse = some index) :
    s.removeMouse mouse = s.remove index := by
  rw [removeMouse, hfind]

/-- A cursor before the last, after one is removed. -/
theorem data_remove {i : ℕ} (hi : i < s.length - 1) : (s.remove index).data i =
    if i = index then s.data (s.length - 1) else s.data i := by
  rw [remove]
  dsimp only
  split
  · split
    · next heq => rw [heq, Function.update_self]
    · next hne => rw [Function.update_of_ne hne]
  · rw [if_neg (by omega)]

/-- **A mouse that goes** leaves the rest as they are where neither its
cursor nor the last one holds anything. -/
theorem Agree.removeMouse_iff (h : s.Agree) :
    (s.removeMouse mouse).Agree ↔ s.EmptyHanded (.removeMouse mouse) := by
  cases hfind : s.findCursor mouse with
  | none =>
    refine iff_of_true ?_ fun index hindex => ?_
    · rwa [removeMouse, hfind]
    · rw [hfind] at hindex
      exact absurd hindex (by simp)
  | some index =>
    have hlt := lt_of_findCursor hfind
    rw [removeMouse_of_find hfind]
    simp only [EmptyHanded, hfind, Option.mem_some_iff, forall_eq']
    constructor
    · intro hagree
      have hnone : ∀ i < s.length, i = index ∨ i = s.length - 1 →
          (s.data i).grabbedWindow = none := by
        intro i hi hwhich
        by_contra hholds
        obtain ⟨window, hgrabbed⟩ := Option.ne_none_iff_exists'.1 hholds
        have hbefore := h.cursor_to_window i hi window hgrabbed
        obtain ⟨-, hi', hafter⟩ := hagree.window_to_cursor window _ hbefore
        have hi'' : i < s.length - 1 := hi'
        obtain rfl := hwhich.resolve_right hi''.ne
        rw [data_remove hi'', if_pos rfl] at hafter
        have hlast := h.cursor_to_window (s.length - 1) (by omega) window hafter
        rw [hbefore] at hlast
        simp only [Option.some.injEq, Address.mk.injEq, true_and] at hlast
        exact hi''.ne hlast
      exact ⟨hnone index hlt (Or.inl rfl), hnone _ (by omega) (Or.inr rfl)⟩
    · rintro ⟨hself, hlast⟩
      refine ⟨fun window cursor hwindow => ?_, fun i hi window hgrabbed => ?_, h.not_dangling⟩
      · obtain ⟨harray, hcursor, hgrabbed⟩ := h.window_to_cursor window cursor hwindow
        have hne : cursor.index ≠ index := by
          intro heq
          rw [heq, hself] at hgrabbed
          exact absurd hgrabbed (by simp)
        have hbefore : cursor.index < s.length - 1 := by
          by_contra hnot
          rw [show cursor.index = s.length - 1 by omega, hlast] at hgrabbed
          exact absurd hgrabbed (by simp)
        rw [data_remove hbefore, if_neg hne]
        exact ⟨harray, hbefore, hgrabbed⟩
      · have hi' : i < s.length - 1 := hi
        rw [data_remove hi'] at hgrabbed
        split at hgrabbed
        · rw [hlast] at hgrabbed
          exact absurd hgrabbed (by simp)
        · exact h.cursor_to_window i (by omega) window hgrabbed

/-- **One step.** -/
theorem Agree.step_iff (h : s.Agree) (op : Op W M) : (s.step op).Agree ↔ s.EmptyHanded op := by
  cases op with
  | addMouse mouse => exact h.addMouse_iff
  | removeMouse mouse => exact h.removeMouse_iff
  | pressed mouse button cursorWindow isTop =>
    exact iff_of_true (h.pressed mouse button cursorWindow isTop) trivial
  | released mouse button => exact iff_of_true (h.released mouse button) trivial
  | escapePressed => exact iff_of_true h.escapePressed trivial
  | createWindow window => exact iff_of_true (h.of_links links_createWindow) trivial
  | focus window => exact iff_of_true (h.of_links links_focus) trivial
  | minimise window => exact iff_of_true (h.of_links links_minimise) trivial
  | restore window => exact iff_of_true (h.of_links links_restore) trivial

/-! ## The focus -/

/-- What the loop over the windows leaves. -/
theorem foldl_drawFocused (isFocused : W → Bool) (windows : List W) (drawFocused : W → Bool) :
    windows.foldl (fun drawFocused window =>
        if isFocused window ≠ drawFocused window then
          Function.update drawFocused window (isFocused window)
        else drawFocused) drawFocused =
      fun window => if window ∈ windows then isFocused window else drawFocused window := by
  induction windows generalizing drawFocused with
  | nil => simp
  | cons first windows ih =>
    rw [List.foldl_cons, ih]
    funext window
    by_cases hmem : window ∈ windows
    · rw [if_pos hmem, if_pos (List.mem_cons_of_mem _ hmem)]
    · rw [if_neg hmem]
      rcases eq_or_ne window first with rfl | hne
      · rw [if_pos List.mem_cons_self]
        split
        · exact Function.update_self _ _ _
        · next hsame => exact (not_not.1 hsame).symm
      · have hnot : window ∉ first :: windows := by
          rw [List.mem_cons]
          exact not_or.2 ⟨hne, hmem⟩
        rw [if_neg hnot]
        split
        · exact Function.update_of_ne hne _ _
        · rfl

theorem drawn_updateFocusedWindow (hwindow : window ∈ s.windows) :
    s.updateFocusedWindow.drawFocused window = decide (s.focusedWindow = some window) := by
  rw [updateFocusedWindow]
  dsimp only
  rw [foldl_drawFocused fun window => decide (s.focusedWindow = some window)]
  exact if_pos hwindow

/-- A window is given the focus that is not minimised. -/
theorem focused_setFocused {focused : Option W}
    (hopen : ∀ window, focused = some window → s.isMinimised window = false) :
    (s.setFocused focused).Focused :=
  ⟨fun _ hwindow => drawn_updateFocusedWindow hwindow, hopen⟩

theorem isMinimised_raise : (s.raise window).isMinimised window = false := by
  rw [raise]
  split
  · exact Function.update_self _ _ _
  · next hopen => exact Bool.eq_false_iff.2 hopen

theorem focused_raise : ((s.raise window).setFocused (some window)).Focused := by
  refine focused_setFocused fun other hother => ?_
  rw [← Option.some.inj hother]
  exact isMinimised_raise

theorem Focused.restore (h : s.Focused) (window : W) : (s.restore window).Focused := by
  refine ⟨h.drawn, fun other hother => ?_⟩
  rcases eq_or_ne other window with rfl | hne
  · exact Function.update_self _ _ _
  · exact (Function.update_of_ne hne _ _).trans (h.not_minimised other hother)

theorem focused_createWindow : (s.createWindow window).Focused := by
  refine focused_setFocused fun other hother => ?_
  rw [← Option.some.inj hother]
  exact Function.update_self _ _ _

theorem Focused.focus (h : s.Focused) (window : W) : (s.focus window).Focused := by
  rw [Desk.focus]
  split
  · exact h
  · have hraised : ({ s with focusedWindow := some window }.raise window).focusedWindow =
        some window := by
      rw [raise]
      split
      · rfl
      · rfl
    refine ⟨fun _ hwindow => drawn_updateFocusedWindow hwindow, fun other hother => ?_⟩
    have hsame : other = window := Option.some.inj (hother.symm.trans hraised)
    rw [hsame]
    exact isMinimised_raise

theorem Focused.minimise (h : s.Focused) (window : W) : (s.minimise window).Focused := by
  rw [Desk.minimise]
  split
  · exact h
  · dsimp only
    split
    · exact focused_setFocused fun _ hnone => absurd hnone (by simp)
    · next hother =>
      refine ⟨h.drawn, fun other hfocused => ?_⟩
      have hne : other ≠ window := by
        rintro rfl
        exact hother hfocused
      exact (Function.update_of_ne hne _ _).trans (h.not_minimised other hfocused)

theorem focused_focusPressed (cursorWindow : Option W) : (s.focusPressed cursorWindow).Focused := by
  cases cursorWindow with
  | none => exact focused_setFocused fun _ hnone => absurd hnone (by simp)
  | some window => exact focused_raise

theorem Focused.grabWindow (h : s.Focused) (cursor : Address) (window : W) (isTop : Bool) :
    (s.grabWindow cursor window isTop).Focused := by
  rw [Desk.grabWindow]
  split
  · exact h.of_focusing (focusing_releaseOther cursor)
  · exact focused_raise

theorem Focused.pressed (h : s.Focused) (mouse : M) (button : ℕ) (cursorWindow : Option W)
    (isTop : Bool) : (s.pressed mouse button cursorWindow isTop).Focused := by
  have hfocus := focused_focusPressed (s := s) cursorWindow
  rw [Desk.pressed]
  split
  · exact h
  · dsimp only
    split
    · exact hfocus
    · split
      · exact hfocus.grabWindow _ _ isTop
      · exact hfocus

theorem Focused.released (h : s.Focused) (mouse : M) (button : ℕ) :
    (s.released mouse button).Focused := by
  rw [Desk.released]
  split
  · exact h
  · split
    · exact h.of_focusing (focusing_releaseWindow _)
    · exact h

/-- **One step.** -/
theorem Focused.step (h : s.Focused) (op : Op W M) : (s.step op).Focused := by
  cases op with
  | addMouse mouse => exact h.of_focusing focusing_addMouse
  | removeMouse mouse => exact h.of_focusing focusing_removeMouse
  | pressed mouse button cursorWindow isTop => exact h.pressed mouse button cursorWindow isTop
  | released mouse button => exact h.released mouse button
  | escapePressed => exact h.of_focusing focusing_escapePressed
  | createWindow window => exact focused_createWindow
  | focus window => exact h.focus window
  | minimise window => exact h.minimise window
  | restore window => exact h.restore window

/-! ## A cursor that is stuck -/

/-- It holds a window that does not point back to it. -/
structure Stuck (s : Desk W M) (index : ℕ) (window : W) : Prop where
  holds : (s.data index).grabbedWindow = some window
  not_back : s.draggingCursor window ≠ some ⟨s.array, index⟩

theorem Stuck.of_links (h : s.Stuck index window) (hlinks : t.links = s.links) :
    t.Stuck index window := by
  simp only [links, Prod.mk.injEq] at hlinks
  obtain ⟨harray, -, hdata, hdragging, -⟩ := hlinks
  exact ⟨by rw [hdata]; exact h.holds, by rw [hdragging, harray]; exact h.not_back⟩

/-- **No release lets it go**, be it its own or that of another. -/
theorem Stuck.releaseWindow (h : s.Stuck index window) (cursor : Address) :
    (s.releaseWindow cursor).Stuck index window := by
  rw [Desk.releaseWindow]
  split
  · exact ⟨h.holds, h.not_back⟩
  · next harray =>
    have harray := not_not.1 harray
    split
    · exact h
    · next other hother =>
      split
      · exact h
      · next hback =>
        have hback := not_not.1 hback
        have hne : index ≠ cursor.index := by
          rintro rfl
          rw [h.holds] at hother
          obtain rfl := Option.some.inj hother
          apply h.not_back
          rw [hback, ← harray]
        refine ⟨?_, ?_⟩
        · dsimp only
          rw [Function.update_of_ne hne]
          exact h.holds
        · dsimp only
          rcases eq_or_ne window other with rfl | hwindow
          · rw [Function.update_self]
            exact Option.some_ne_none _ ∘ Eq.symm
          · rw [Function.update_of_ne hwindow]
            exact h.not_back

theorem Stuck.grabWindow (h : s.Stuck index window) {i : ℕ} (hne : index ≠ i) (other : W)
    (isTop : Bool) : (s.grabWindow ⟨s.array, i⟩ other isTop).Stuck index window := by
  have hreleased : (s.releaseOther ⟨s.array, i⟩ other).Stuck index window ∧
      (s.releaseOther ⟨s.array, i⟩ other).array = s.array := by
    rw [releaseOther]
    split
    · split
      · exact ⟨h.releaseWindow _, place_releaseWindow.1⟩
      · exact ⟨h, rfl⟩
    · exact ⟨h, rfl⟩
  obtain ⟨hreleased, harray⟩ := hreleased
  have hlink :
      ((s.releaseOther ⟨s.array, i⟩ other).link ⟨s.array, i⟩ other).Stuck index window := by
    refine ⟨?_, ?_⟩
    · rw [link]
      dsimp only
      rw [Function.update_of_ne hne]
      exact hreleased.holds
    · rw [link]
      dsimp only
      rcases eq_or_ne window other with rfl | hwindow
      · rw [Function.update_self, harray]
        simpa using hne.symm
      · rw [Function.update_of_ne hwindow]
        exact hreleased.not_back
  rw [Desk.grabWindow]
  split
  · exact hlink
  · exact hlink.of_links ((links_setFocused _).trans links_raise)

/-- **One step.** -/
theorem Stuck.step (h : s.Stuck index window) (op : Op W M) (hop : op.KeepsMice) :
    (s.step op).Stuck index window := by
  cases op with
  | addMouse mouse => exact hop.elim
  | removeMouse mouse => exact hop.elim
  | pressed mouse button cursorWindow isTop =>
    have hfocus := h.of_links (links_focusPressed cursorWindow)
    rw [Desk.step, pressed]
    split
    · exact h
    · next i _ =>
      dsimp only
      split
      · exact hfocus
      · split
        · next hgrab =>
          refine hfocus.grabWindow ?_ _ isTop
          rintro rfl
          rw [hfocus.holds] at hgrab
          exact absurd hgrab.2 (by simp)
        · exact hfocus
  | released mouse button =>
    rw [Desk.step, released]
    split
    · exact h
    · split
      · exact h.releaseWindow _
      · exact h
  | escapePressed =>
    rw [Desk.step, escapePressed]
    split
    · exact h
    · exact run_invariant (I := fun t : Desk W M => t.Stuck index window) along_true h
        fun t i ht _ => ht.releaseWindow _
  | createWindow window => exact h.of_links links_createWindow
  | focus window => exact h.of_links links_focus
  | minimise window => exact h.of_links links_minimise
  | restore window => exact h.of_links links_restore

theorem agree_start : ({} : Desk W M).Agree :=
  ⟨fun _ _ hnone => absurd hnone (by simp), fun _ hlt => absurd hlt (Nat.not_lt_zero _), rfl⟩

/-! ## The result -/

/-- **The mouse that is last when another is removed keeps the window that
it holds**, whatever is pressed and released, until a mouse comes or
goes. -/
theorem held_by_moved (h : s.Agree) (hfind : s.findCursor mouse = some index)
    (hlast : index < s.length - 1)
    (hgrabbed : (s.data (s.length - 1)).grabbedWindow = some window)
    (hops : ∀ op ∈ ops, op.KeepsMice) :
    Throughout step (fun t => (t.data index).grabbedWindow = some window) (s.removeMouse mouse)
      ops := by
  have hstuck : (s.removeMouse mouse).Stuck index window := by
    rw [removeMouse_of_find hfind]
    refine ⟨by rw [data_remove hlast, if_pos rfl]; exact hgrabbed, ?_⟩
    have hback := h.cursor_to_window (s.length - 1) (by omega) window hgrabbed
    intro hself
    have hsame : some (⟨s.array, s.length - 1⟩ : Address) = some ⟨s.array, index⟩ :=
      hback.symm.trans hself
    simp only [Option.some.injEq, Address.mk.injEq, true_and] at hsame
    exact hlast.ne hsame.symm
  exact throughout_of_invariant (I := fun t : Desk W M => t.Stuck index window)
    (along_iff_forall.2 hops) hstuck (fun t op ht hop => ht.step op hop) fun t ht => ht.holds

/-- Two mice, the second of which holds a window. -/
def twoMice : Desk ℕ ℕ :=
  run step {} [.addMouse 0, .addMouse 1, .createWindow 7, .pressed 1 0 (some 7) true]

theorem held_by_moved_twoMice :
    (twoMice.findCursor 0 = some 0 ∧ 0 < twoMice.length - 1 ∧
        (twoMice.data (twoMice.length - 1)).grabbedWindow = some 7) ∧
      Throughout step (fun t => (t.data 0).grabbedWindow = some 7) (twoMice.removeMouse 0)
        [.released 1 0, .escapePressed, .pressed 1 0 none true, .released 1 0] := by
  have hempty : Along step EmptyHanded ({} : Desk ℕ ℕ)
      [.addMouse 0, .addMouse 1, .createWindow 7, .pressed 1 0 (some 7) true] :=
    ⟨by decide, by decide, trivial, trivial, trivial⟩
  have hagree : twoMice.Agree :=
    run_invariant hempty agree_start fun _ op h hop => (h.step_iff op).2 hop
  have hfind : twoMice.findCursor 0 = some 0 := by decide
  have hlast : 0 < twoMice.length - 1 := by decide
  have hgrabbed : (twoMice.data (twoMice.length - 1)).grabbedWindow = some 7 := by decide
  refine ⟨⟨hfind, hlast, hgrabbed⟩, held_by_moved hagree hfind hlast hgrabbed ?_⟩
  simp [Op.KeepsMice]

end Desk

end Cursors

end Uberos
