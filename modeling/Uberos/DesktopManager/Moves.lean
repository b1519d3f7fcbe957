import Uberos.DesktopManager.Strips
/-!
# Where windows go

What `move_to`, `resize_to` and `move_and_resize_to` make of a window. A
window of sixteen pixels or more that is asked to a place on the screen,
at a size within its limits, gets there; so a docked window closes up to
where its strip does when another is gone.
-/

namespace Uberos

namespace DesktopManager

variable {Id : Type} {screen : Screen Id} {w w' gone : Window} {x y width height : ℤ}

theorem width_rect : w.rect.width = w.getWidth := by
  simp only [Window.rect, Rect.width]
  omega

theorem height_rect : w.rect.height = w.getHeight := by
  simp only [Window.rect, Rect.height]
  omega

/-! ## What moves -/

/-- A window that has been moved, resized, or neither. -/
def Moved (w w' : Window) : Prop :=
  ∃ x y width height isAutomaticPlacement, w' =
    { w with
      x := x, y := y, width := width, height := height
      isAutomaticPlacement := isAutomaticPlacement }

theorem Moved.refl (w : Window) : Moved w w :=
  ⟨w.x, w.y, w.width, w.height, w.isAutomaticPlacement, rfl⟩

theorem Moved.trans {w'' : Window} (h : Moved w w') (h' : Moved w' w'') : Moved w w'' := by
  obtain ⟨x, y, width, height, isAutomaticPlacement, rfl⟩ := h
  obtain ⟨x', y', width', height', isAutomaticPlacement', rfl⟩ := h'
  exact ⟨x', y', width', height', isAutomaticPlacement', rfl⟩

theorem Moved.state (h : Moved w w') : w'.state = w.state := by
  obtain ⟨x, y, width, height, isAutomaticPlacement, rfl⟩ := h
  rfl

theorem Moved.isVisible (h : Moved w w') : w'.isVisible = w.isVisible := by
  obtain ⟨x, y, width, height, isAutomaticPlacement, rfl⟩ := h
  rfl

theorem Moved.dockedType (h : Moved w w') : w'.dockedType = w.dockedType := by
  obtain ⟨x, y, width, height, isAutomaticPlacement, rfl⟩ := h
  rfl

theorem Moved.clampWidth (h : Moved w w') : w'.clampWidth width = w.clampWidth width := by
  obtain ⟨x, y, width, height, isAutomaticPlacement, rfl⟩ := h
  rfl

theorem Moved.clampHeight (h : Moved w w') : w'.clampHeight height = w.clampHeight height := by
  obtain ⟨x, y, width, height, isAutomaticPlacement, rfl⟩ := h
  rfl

theorem Moved.maxSize (h : Moved w w') : w'.maxSize = w.maxSize := by
  obtain ⟨x, y, width, height, isAutomaticPlacement, rfl⟩ := h
  rfl

theorem moved_moveTo : Moved w (w.moveTo screen x y) := by
  unfold Window.moveTo
  dsimp only
  split
  · exact ⟨w.x, w.y, w.width, w.height, false, rfl⟩
  · exact ⟨_, _, w.width, w.height, false, rfl⟩

theorem moved_resizeDisplay : Moved w (w.resizeDisplay width height) :=
  ⟨w.x, w.y, _, _, w.isAutomaticPlacement, rfl⟩

theorem moved_moveAndResizeDisplay {area : Rect} : Moved w (w.moveAndResizeDisplay area) := by
  unfold Window.moveAndResizeDisplay
  split
  · exact ⟨_, _, w.width, w.height, w.isAutomaticPlacement, rfl⟩
  · split
    · exact moved_resizeDisplay
    · exact ⟨_, _, _, _, w.isAutomaticPlacement, rfl⟩

theorem moved_resizeTo : Moved w (w.resizeTo width height).1 :=
  moved_resizeDisplay

theorem moved_moveAndResizeTo : Moved w (w.moveAndResizeTo screen x y width height).1 := by
  have hplaced : Moved w { w with isAutomaticPlacement := false } :=
    ⟨w.x, w.y, w.width, w.height, false, rfl⟩
  unfold Window.moveAndResizeTo
  dsimp only
  split
  · exact hplaced.trans moved_moveTo
  · exact hplaced.trans moved_moveAndResizeDisplay

/-! ## Closing up -/

/-- Where a window's strip goes when another is gone. -/
def closedRect (gone w : Window) : Rect :=
  closed gone.dockedType gone.rect w.dockedType w.rect

/-- How it gets there. -/
def closing (screen : Screen Id) (gone w : Window) : Window × Bool :=
  if w.dockedType = gone.dockedType then
    (w.moveTo screen (closedRect gone w).x1 (closedRect gone w).y1, false)
  else
    match gone.dockedType with
    | .left | .top =>
      w.moveAndResizeTo screen (closedRect gone w).x1 (closedRect gone w).y1
        (closedRect gone w).width (closedRect gone w).height
    | .right | .bottom | .full => w.resizeTo (closedRect gone w).width (closedRect gone w).height

/-- Behind a window that is gone. -/
def IsBehind (gone w : Window) : Prop :=
  Behind gone.dockedType gone.rect w.dockedType w.rect

instance (gone w : Window) : Decidable (IsBehind gone w) :=
  inferInstanceAs (Decidable (Behind _ _ _ _))

/-- What is not behind it stays. -/
theorem closeUp_of_not_behind (h : ¬ IsBehind gone w) : screen.closeUp gone w = (w, false) := by
  unfold IsBehind at h
  unfold Screen.closeUp
  cases hgone : gone.dockedType <;> cases hw : w.dockedType <;>
    simp only [hgone, hw, Behind, Window.rect, ne_eq, reduceCtorEq, not_true_eq_false,
      not_false_eq_true, true_and] at h ⊢ <;>
    rw [if_neg (by omega)]

/-- What is behind it goes where its strip does. -/
theorem closeUp_of_behind (h : IsBehind gone w) :
    screen.closeUp gone w = closing screen gone w := by
  unfold IsBehind at h
  unfold Screen.closeUp closing closedRect
  cases hgone : gone.dockedType <;> cases hw : w.dockedType <;>
    simp only [hgone, hw, Behind, Window.rect, ne_eq, reduceCtorEq, not_true_eq_false,
      not_false_eq_true, true_and, false_and] at h ⊢ <;>
    simp [closed, giveBack, Rect.offset, Rect.width, Rect.height, h] <;>
    congr 1 <;> omega

theorem moved_closing : Moved w (closing screen gone w).1 := by
  unfold closing
  split
  · exact moved_moveTo
  · split
    · exact moved_moveAndResizeTo
    · exact moved_moveAndResizeTo
    · exact moved_resizeTo
    · exact moved_resizeTo
    · exact moved_resizeTo

theorem moved_closeUp : Moved w (screen.closeUp gone w).1 := by
  by_cases h : IsBehind gone w
  · rw [closeUp_of_behind h]
    exact moved_closing
  · rw [closeUp_of_not_behind h]
    exact .refl w

/-- **The same side, and the same edges across it.** -/
structure SameEdges (gone gone' : Window) : Prop where
  dockedType : gone'.dockedType = gone.dockedType
  acrossX : gone.dockedType = .left ∨ gone.dockedType = .right →
    gone'.getX = gone.getX ∧ gone'.getWidth = gone.getWidth
  acrossY : gone.dockedType = .top ∨ gone.dockedType = .bottom →
    gone'.getY = gone.getY ∧ gone'.getHeight = gone.getHeight

theorem SameEdges.refl (gone : Window) : SameEdges gone gone :=
  ⟨rfl, fun _ => ⟨rfl, rfl⟩, fun _ => ⟨rfl, rfl⟩⟩

/-- Nothing else of a window that is gone makes a difference. -/
theorem closeUp_congr {gone' : Window} (h : SameEdges gone gone') :
    screen.closeUp gone' w = screen.closeUp gone w := by
  unfold Screen.closeUp
  rw [h.dockedType]
  cases hgone : gone.dockedType with
  | full => rfl
  | top | bottom =>
    obtain ⟨hfirst, hsecond⟩ := h.acrossY (by simp [hgone])
    rw [hfirst, hsecond]
  | left | right =>
    obtain ⟨hfirst, hsecond⟩ := h.acrossX (by simp [hgone])
    rw [hfirst, hsecond]

/-! ## Getting there -/

theorem eq_of_size (r : Rect) : r = ⟨r.x1, r.y1, r.x1 + r.width, r.y1 + r.height⟩ := by
  obtain ⟨x1, y1, x2, y2⟩ := r
  simp only [Rect.width, Rect.height, Rect.mk.injEq, true_and]
  omega

/-- On the screen. -/
def OnScreen (screen : Screen Id) (r : Rect) : Prop :=
  0 ≤ r.x1 ∧ r.x2 ≤ screen.width ∧ 0 ≤ r.y1 ∧ r.y2 ≤ screen.height

/-- **At a size it keeps**: sixteen pixels or more, as no display is
smaller, within its limits, of which the one along its side is lifted. -/
structure Roomy (w : Window) : Prop where
  le_width : 16 ≤ w.getWidth
  le_height : 16 ≤ w.getHeight
  clampWidth : w.clampWidth w.getWidth = w.getWidth
  clampHeight : w.clampHeight w.getHeight = w.getHeight
  liftedX : w.dockedType = .top ∨ w.dockedType = .bottom → w.maxSize.x = 0x7fffffff
  liftedY : w.dockedType = .left ∨ w.dockedType = .right → w.maxSize.y = 0x7fffffff

instance (w : Window) : Decidable (Roomy w) :=
  decidable_of_iff (16 ≤ w.getWidth ∧ 16 ≤ w.getHeight ∧ w.clampWidth w.getWidth = w.getWidth ∧
      w.clampHeight w.getHeight = w.getHeight ∧
      (w.dockedType = .top ∨ w.dockedType = .bottom → w.maxSize.x = 0x7fffffff) ∧
      (w.dockedType = .left ∨ w.dockedType = .right → w.maxSize.y = 0x7fffffff))
    ⟨fun ⟨hw, hh, hcw, hch, hx, hy⟩ => ⟨hw, hh, hcw, hch, hx, hy⟩, fun h =>
      ⟨h.le_width, h.le_height, h.clampWidth, h.clampHeight, h.liftedX, h.liftedY⟩⟩

/-- Nothing of any size is behind itself. -/
theorem Roomy.not_isBehind (h : Roomy w) : ¬ IsBehind w w := by
  have hwidth := h.le_width
  have hheight := h.le_height
  unfold IsBehind
  cases w.dockedType with
  | full => exact id
  | _ =>
    simp only [Behind, Window.rect]
    omega

theorem rect_moveTo (hwidth : 16 ≤ w.getWidth) (hheight : 16 ≤ w.getHeight)
    (hscreen : OnScreen screen ⟨x, y, x + w.getWidth, y + w.getHeight⟩) :
    (w.moveTo screen x y).rect = ⟨x, y, x + w.getWidth, y + w.getHeight⟩ := by
  obtain ⟨hx1, hx2, hy1, hy2⟩ := hscreen
  simp only [Window.getWidth, Window.getHeight] at hwidth hheight hx1 hx2 hy1 hy2
  unfold Window.moveTo
  dsimp only
  split
  · rename_i hsame
    obtain ⟨rfl, rfl⟩ := hsame
    rfl
  · have hx : clamp x (-w.width + 10) (screen.width - 10) = x := by
      unfold clamp
      omega
    have hy : clamp y 0 (screen.height - 10) = y := by
      unfold clamp
      omega
    rw [hx, hy]
    simp only [Window.rect, Window.getX, Window.getY, Window.getWidth, Window.getHeight,
      Int.sub_add_cancel]

theorem rect_resizeTo (hwidth : w.clampWidth width = width) (hheight : w.clampHeight height = height)
    (hwidth' : 16 ≤ width) (hheight' : 16 ≤ height) : (w.resizeTo width height).1.rect =
      ⟨w.getX, w.getY, w.getX + width, w.getY + height⟩ := by
  have hmaxWidth : max 16 (w.leftMargin + width + w.rightMargin) =
      w.leftMargin + width + w.rightMargin := by omega
  have hmaxHeight : max 16 (w.topMargin + height + w.bottomMargin) =
      w.topMargin + height + w.bottomMargin := by omega
  unfold Window.resizeTo
  dsimp only
  rw [hwidth, hheight, Window.resizeDisplay, hmaxWidth, hmaxHeight]
  simp only [Window.rect, Window.getX, Window.getY, Window.getWidth, Window.getHeight,
    Rect.mk.injEq, true_and]
  omega

theorem rect_moveAndResizeTo (hwidth : w.clampWidth width = width)
    (hheight : w.clampHeight height = height) (hwidth' : 16 ≤ width) (hheight' : 16 ≤ height)
    (hscreen : OnScreen screen ⟨x, y, x + width, y + height⟩) :
    (w.moveAndResizeTo screen x y width height).1.rect = ⟨x, y, x + width, y + height⟩ := by
  have hplaced : ({ w with isAutomaticPlacement := false } : Window).clampWidth width = width ∧
      ({ w with isAutomaticPlacement := false } : Window).clampHeight height = height :=
    ⟨hwidth, hheight⟩
  unfold Window.moveAndResizeTo
  dsimp only
  rw [hplaced.1, hplaced.2]
  split
  · rename_i hsame
    obtain ⟨rfl, rfl⟩ := hsame
    exact rect_moveTo hwidth' hheight' hscreen
  · unfold Window.moveAndResizeDisplay
    split
    · rename_i hsize
      simp only [Rect.width, Rect.height] at hsize
      simp only [Window.rect, Window.getX, Window.getY, Window.getWidth, Window.getHeight,
        Rect.mk.injEq]
      omega
    · split
      · rename_i hplace
        simp only [Window.resizeDisplay, Window.rect, Window.getX, Window.getY, Window.getWidth,
          Window.getHeight, Rect.width, Rect.height, Rect.mk.injEq] at hplace ⊢
        omega
      · simp only [Window.rect, Window.getX, Window.getY, Window.getWidth, Window.getHeight,
          Rect.width, Rect.height, Rect.mk.injEq]
        omega

theorem Roomy.of_rect (h : Roomy w) (hmoved : Moved w w') {r : Rect} (hrect : w'.rect = r)
    (hwidth : 16 ≤ r.width ∧ w.clampWidth r.width = r.width)
    (hheight : 16 ≤ r.height ∧ w.clampHeight r.height = r.height) : Roomy w' := by
  have hgetWidth : w'.getWidth = r.width := by
    rw [← hrect, width_rect]
  have hgetHeight : w'.getHeight = r.height := by
    rw [← hrect, height_rect]
  constructor
  · rw [hgetWidth]
    exact hwidth.1
  · rw [hgetHeight]
    exact hheight.1
  · rw [hgetWidth, hmoved.clampWidth, hwidth.2]
  · rw [hgetHeight, hmoved.clampHeight, hheight.2]
  · rw [hmoved.dockedType, hmoved.maxSize]
    exact h.liftedX
  · rw [hmoved.dockedType, hmoved.maxSize]
    exact h.liftedY

/-- A limit that is lifted is none to a side that grows on the screen. -/
theorem clamp_of_lifted {size grown limit : ℤ} (hsize : clamp size limit 0x7fffffff = size)
    (hle : size ≤ grown) (hgrown : grown ≤ 0x7fffffff) :
    clamp grown limit 0x7fffffff = grown := by
  unfold clamp at hsize ⊢
  omega

/-- At the left or the right. -/
def DockedType.IsSide (type : DockedType) : Prop := type = .left ∨ type = .right

instance (type : DockedType) : Decidable type.IsSide := inferInstanceAs (Decidable (_ ∨ _))

/-- What is behind a strip and does not begin at its side grows. -/
theorem grows_of_behind {type type' : DockedType} {r r' : Rect} (h : Behind type r type' r')
    (hne : type' ≠ type) (hfull : type' ≠ .full) : type.IsSide ∧ ¬ type'.IsSide ∨
      (type = .top ∨ type = .bottom) ∧ ¬ (type' = .top ∨ type' = .bottom) := by
  cases type <;> cases type' <;> simp_all [Behind, DockedType.IsSide]

/-- Between the left and the right, a strip closes up over what is gone
there; between the top and the bottom, it does not grow that way. -/
theorem width_closedRect (gone w : Window) : (closedRect gone w).width =
    if gone.dockedType.IsSide ∧ ¬ w.dockedType.IsSide then w.getWidth + gone.getWidth
    else w.getWidth := by
  unfold closedRect
  cases hgone : gone.dockedType <;> cases hw : w.dockedType <;>
    simp [closed, giveBack, Rect.offset, Rect.width, Window.rect, DockedType.IsSide] <;> omega

theorem height_closedRect (gone w : Window) : (closedRect gone w).height =
    if (gone.dockedType = .top ∨ gone.dockedType = .bottom) ∧
        ¬ (w.dockedType = .top ∨ w.dockedType = .bottom) then w.getHeight + gone.getHeight
    else w.getHeight := by
  unfold closedRect
  cases hgone : gone.dockedType <;> cases hw : w.dockedType <;>
    simp [closed, giveBack, Rect.offset, Rect.height, Window.rect] <;> omega

/-- The size it has then is one it can have. -/
theorem size_closedRect (h : Roomy w) (hfull : w.dockedType ≠ .full)
    (hgone : 0 ≤ gone.getWidth ∧ 0 ≤ gone.getHeight)
    (hscreen : OnScreen screen (closedRect gone w)) :
    (16 ≤ (closedRect gone w).width ∧
        w.clampWidth (closedRect gone w).width = (closedRect gone w).width) ∧
      16 ≤ (closedRect gone w).height ∧
        w.clampHeight (closedRect gone w).height = (closedRect gone w).height := by
  obtain ⟨hx1, hx2, hy1, hy2⟩ := hscreen
  have hwidthLe : (closedRect gone w).width ≤ 0x7fffffff := by
    have hle := screen.width_le
    rw [Rect.width]
    omega
  have hheightLe : (closedRect gone w).height ≤ 0x7fffffff := by
    have hle := screen.height_le
    rw [Rect.height]
    omega
  have hleWidth := h.le_width
  have hleHeight := h.le_height
  rw [width_closedRect] at hwidthLe ⊢
  rw [height_closedRect] at hheightLe ⊢
  constructor
  · by_cases hgrows : gone.dockedType.IsSide ∧ ¬ w.dockedType.IsSide
    · rw [if_pos hgrows] at hwidthLe ⊢
      have hlifted : w.maxSize.x = 0x7fffffff := h.liftedX (by
        cases hw : w.dockedType <;> simp_all [DockedType.IsSide])
      have hclamp := h.clampWidth
      rw [Window.clampWidth, hlifted] at hclamp ⊢
      exact ⟨by omega, clamp_of_lifted hclamp (by omega) hwidthLe⟩
    · rw [if_neg hgrows]
      exact ⟨hleWidth, h.clampWidth⟩
  · by_cases hgrows : (gone.dockedType = .top ∨ gone.dockedType = .bottom) ∧
        ¬ (w.dockedType = .top ∨ w.dockedType = .bottom)
    · rw [if_pos hgrows] at hheightLe ⊢
      have hlifted : w.maxSize.y = 0x7fffffff := h.liftedY (by
        cases hw : w.dockedType <;> simp_all)
      have hclamp := h.clampHeight
      rw [Window.clampHeight, hlifted] at hclamp ⊢
      exact ⟨by omega, clamp_of_lifted hclamp (by omega) hheightLe⟩
    · rw [if_neg hgrows]
      exact ⟨hleHeight, h.clampHeight⟩

/-- Its place, if it is not of the side of what is gone: where it was, or
as far back as what is gone took up. -/
theorem place_closedRect (hside : gone.dockedType = .right ∨ gone.dockedType = .bottom)
    (htype : w.dockedType ≠ gone.dockedType) :
    (closedRect gone w).x1 = w.getX ∧ (closedRect gone w).y1 = w.getY := by
  unfold closedRect
  rcases hside with hgone | hgone <;> rw [hgone] at htype ⊢ <;>
    cases hw : w.dockedType <;> simp_all [closed, giveBack, Window.rect]

/-- **A docked window closes up to where its strip does**, and keeps its
size there. -/
theorem closing_spec (h : Roomy w) (hfull : w.dockedType ≠ .full)
    (hgone : 0 ≤ gone.getWidth ∧ 0 ≤ gone.getHeight) (hnone : gone.dockedType ≠ .full)
    (hscreen : OnScreen screen (closedRect gone w)) :
    (closing screen gone w).1.rect = closedRect gone w ∧ Roomy (closing screen gone w).1 := by
  obtain ⟨hwidth, hheight⟩ := size_closedRect h hfull hgone hscreen
  have hrect : (closing screen gone w).1.rect = closedRect gone w := by
    have hends := eq_of_size (closedRect gone w)
    unfold closing
    split
    · rename_i hsame
      have hgetWidth : (closedRect gone w).width = w.getWidth := by
        rw [width_closedRect, if_neg (by rw [hsame]; exact and_not_self)]
      have hgetHeight : (closedRect gone w).height = w.getHeight := by
        rw [height_closedRect, if_neg (by rw [hsame]; exact and_not_self)]
      rw [hgetWidth, hgetHeight] at hends
      rw [rect_moveTo h.le_width h.le_height (by rwa [← hends])]
      exact hends.symm
    · rename_i htype
      split
      · rw [rect_moveAndResizeTo hwidth.2 hheight.2 hwidth.1 hheight.1 (by rwa [← hends])]
        exact hends.symm
      · rw [rect_moveAndResizeTo hwidth.2 hheight.2 hwidth.1 hheight.1 (by rwa [← hends])]
        exact hends.symm
      · rename_i hside
        rw [rect_resizeTo hwidth.2 hheight.2 hwidth.1 hheight.1,
          ← (place_closedRect (.inl hside) htype).1, ← (place_closedRect (.inl hside) htype).2]
        exact hends.symm
      · rename_i hside
        rw [rect_resizeTo hwidth.2 hheight.2 hwidth.1 hheight.1,
          ← (place_closedRect (.inr hside) htype).1, ← (place_closedRect (.inr hside) htype).2]
        exact hends.symm
      · rename_i hgone
        exact absurd hgone hnone
  exact ⟨hrect, h.of_rect moved_closing hrect hwidth hheight⟩

end DesktopManager

end Uberos
