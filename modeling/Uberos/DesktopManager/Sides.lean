import Uberos.DesktopManager.Area
/-!
# Coming to a side

`dock` asks for half of the window area at most, and of a window's limits
lifts the one along its side. Where the others let it, and the area has
room, the window is a strip of the area after.
-/

namespace Uberos

namespace DesktopManager

variable {Id : Type} {screen : Screen Id} {w : Window} {a : Rect} {type : DockedType}

/-! ## Room -/

/-- **A window that has room at a side of an area**: it may be as long as
the area, and what it is thick of, it can be, and fits. At the bottom and
the right, where it is placed by what was asked for, it is as thick as
that. -/
def Suits (w : Window) (a : Rect) : DockedType → Prop
  | .top =>
    16 ≤ a.width ∧ w.minSize.x ≤ a.width ∧ 16 ≤ w.clampHeight (Screen.dockedHeight a w) ∧
      w.clampHeight (Screen.dockedHeight a w) ≤ a.height
  | .bottom =>
    16 ≤ a.width ∧ w.minSize.x ≤ a.width ∧
      w.clampHeight (Screen.dockedHeight a w) = Screen.dockedHeight a w ∧
      Screen.dockedHeight a w ≤ a.height
  | .left =>
    16 ≤ a.height ∧ w.minSize.y ≤ a.height ∧ 16 ≤ w.clampWidth (Screen.dockedWidth a w) ∧
      w.clampWidth (Screen.dockedWidth a w) ≤ a.width
  | .right =>
    16 ≤ a.height ∧ w.minSize.y ≤ a.height ∧
      w.clampWidth (Screen.dockedWidth a w) = Screen.dockedWidth a w ∧
      Screen.dockedWidth a w ≤ a.width
  | .full => True

instance (w : Window) (a : Rect) (type : DockedType) : Decidable (Suits w a type) := by
  cases type <;> unfold Suits <;> infer_instance

theorem clampWidth_clampWidth {width : ℤ} : w.clampWidth (w.clampWidth width) = w.clampWidth width := by
  unfold Window.clampWidth clamp
  omega

theorem clampHeight_clampHeight {height : ℤ} :
    w.clampHeight (w.clampHeight height) = w.clampHeight height := by
  unfold Window.clampHeight clamp
  omega

/-! ## Getting there -/

/-- What is asked for comes to what the limits make of it. -/
theorem moveAndResizeTo_clamp {x y width height : ℤ} :
    w.moveAndResizeTo screen x y (w.clampWidth width) (w.clampHeight height) =
      w.moveAndResizeTo screen x y width height := by
  have hwidth : ({ w with isAutomaticPlacement := false } : Window).clampWidth (w.clampWidth width) =
      w.clampWidth width := clampWidth_clampWidth
  have hheight : ({ w with isAutomaticPlacement := false } : Window).clampHeight
      (w.clampHeight height) = w.clampHeight height := clampHeight_clampHeight
  unfold Window.moveAndResizeTo
  dsimp only
  rw [hwidth, hheight]
  rfl

theorem size_of_rect {x y width height : ℤ} (h : w.rect = ⟨x, y, x + width, y + height⟩) :
    w.getWidth = width ∧ w.getHeight = height := by
  have hwidth := congrArg Rect.width h
  have hheight := congrArg Rect.height h
  rw [width_rect] at hwidth
  rw [height_rect] at hheight
  simp only [Rect.width, Rect.height] at hwidth hheight
  omega

/-- A window that gets where it is asked to, at the size it is let. -/
theorem roomy_moveAndResizeTo {x y width height : ℤ} (hwidth : 16 ≤ w.clampWidth width)
    (hheight : 16 ≤ w.clampHeight height)
    (hscreen : OnScreen screen ⟨x, y, x + w.clampWidth width, y + w.clampHeight height⟩)
    (hliftedX : w.dockedType = .top ∨ w.dockedType = .bottom → w.maxSize.x = 0x7fffffff)
    (hliftedY : w.dockedType = .left ∨ w.dockedType = .right → w.maxSize.y = 0x7fffffff) :
    (w.moveAndResizeTo screen x y width height).1.rect =
        ⟨x, y, x + w.clampWidth width, y + w.clampHeight height⟩ ∧
      Roomy (w.moveAndResizeTo screen x y width height).1 := by
  rw [← moveAndResizeTo_clamp]
  have hrect := rect_moveAndResizeTo clampWidth_clampWidth clampHeight_clampHeight hwidth hheight
    hscreen
  have hmoved : Moved w
      (w.moveAndResizeTo screen x y (w.clampWidth width) (w.clampHeight height)).1 :=
    moved_moveAndResizeTo
  obtain ⟨hgetWidth, hgetHeight⟩ := size_of_rect hrect
  refine ⟨hrect, ?_, ?_, ?_, ?_, ?_, ?_⟩
  · rwa [hgetWidth]
  · rwa [hgetHeight]
  · rw [hgetWidth, hmoved.clampWidth, clampWidth_clampWidth]
  · rw [hgetHeight, hmoved.clampHeight, clampHeight_clampHeight]
  · rw [hmoved.dockedType, hmoved.maxSize]
    exact hliftedX
  · rw [hmoved.dockedType, hmoved.maxSize]
    exact hliftedY

/-! ## The strip -/

/-- The window that `dock` moves and resizes. -/
def docking (type : DockedType) (w : Window) : Window :=
  Screen.liftLimit type { w with state := .docked, dockedType := type }

/-- What it is moved and resized to, as far as its limits let it. -/
def dockedStrip (a : Rect) (type : DockedType) (w : Window) : Rect :=
  let area := Screen.dockedRect a w type
  ⟨area.x1, area.y1, area.x1 + w.clampWidth area.width, area.y1 + w.clampHeight area.height⟩

/-- An area of the screen is no larger than a limit that is lifted. -/
theorem size_le_of_inside (ha : Inside a screen.totalArea) :
    a.width ≤ 0x7fffffff ∧ a.height ≤ 0x7fffffff := by
  have hwidth := screen.width_le
  have hheight := screen.height_le
  obtain ⟨hx, hx', hy, hy'⟩ := ha
  simp only [Screen.totalArea, Rect.width, Rect.height] at hx hx' hy hy' ⊢
  omega

/-- It is asked to be as long as the area, and as thick as it was. -/
theorem size_dockedRect_above (htype : type = .top ∨ type = .bottom) :
    (Screen.dockedRect a w type).width = a.width ∧
      (Screen.dockedRect a w type).height = Screen.dockedHeight a w := by
  obtain rfl | rfl := htype <;> simp only [Screen.dockedRect, Rect.width, Rect.height] <;> omega

theorem size_dockedRect_beside (htype : type = .left ∨ type = .right) :
    (Screen.dockedRect a w type).width = Screen.dockedWidth a w ∧
      (Screen.dockedRect a w type).height = a.height := by
  obtain rfl | rfl := htype <;> simp only [Screen.dockedRect, Rect.width, Rect.height] <;> omega

/-- With its limit lifted, the window is as long as the area. -/
theorem clampWidth_docking {width : ℤ} (htype : type = .top ∨ type = .bottom)
    (hmin : w.minSize.x ≤ width) (hmax : width ≤ 0x7fffffff) :
    (docking type w).clampWidth width = width := by
  have hlifted : (docking type w).maxSize.x = 0x7fffffff := by
    obtain rfl | rfl := htype <;> rfl
  have hsame : (docking type w).minSize = w.minSize := rfl
  rw [Window.clampWidth, hlifted, hsame, clamp]
  omega

theorem clampHeight_docking {height : ℤ} (htype : type = .left ∨ type = .right)
    (hmin : w.minSize.y ≤ height) (hmax : height ≤ 0x7fffffff) :
    (docking type w).clampHeight height = height := by
  have hlifted : (docking type w).maxSize.y = 0x7fffffff := by
    obtain rfl | rfl := htype <;> rfl
  have hsame : (docking type w).minSize = w.minSize := rfl
  rw [Window.clampHeight, hlifted, hsame, clamp]
  omega

/-- At the top or the bottom it comes out as long as the area, and across
as its limits let it. -/
theorem dockedStrip_above (htype : type = .top ∨ type = .bottom) (hmin : w.minSize.x ≤ a.width)
    (hmax : a.width ≤ 0x7fffffff) : dockedStrip a type (docking type w) =
      ⟨a.x1, (Screen.dockedRect a w type).y1, a.x1 + a.width,
        (Screen.dockedRect a w type).y1 + w.clampHeight (Screen.dockedHeight a w)⟩ := by
  obtain ⟨hwidth, hheight⟩ := size_dockedRect_above (a := a) (w := docking type w) htype
  have hlong := clampWidth_docking htype hmin hmax
  unfold dockedStrip
  dsimp only
  rw [hwidth, hheight, hlong]
  obtain rfl | rfl := htype <;> rfl

theorem dockedStrip_beside (htype : type = .left ∨ type = .right) (hmin : w.minSize.y ≤ a.height)
    (hmax : a.height ≤ 0x7fffffff) : dockedStrip a type (docking type w) =
      ⟨(Screen.dockedRect a w type).x1, a.y1,
        (Screen.dockedRect a w type).x1 + w.clampWidth (Screen.dockedWidth a w),
        a.y1 + a.height⟩ := by
  obtain ⟨hwidth, hheight⟩ := size_dockedRect_beside (a := a) (w := docking type w) htype
  have hlong := clampHeight_docking htype hmin hmax
  unfold dockedStrip
  dsimp only
  rw [hwidth, hheight, hlong]
  obtain rfl | rfl := htype <;> rfl

/-- **Where it has room, that is a strip** of sixteen pixels or more. -/
theorem Suits.isStrip (h : Suits w a type) (hfull : type ≠ .full)
    (ha : Inside a screen.totalArea) : IsStrip type a (dockedStrip a type (docking type w)) ∧
      16 ≤ (dockedStrip a type (docking type w)).width ∧
      16 ≤ (dockedStrip a type (docking type w)).height := by
  have hsides := size_le_of_inside ha
  cases type with
  | top =>
    obtain ⟨hlong, hmin, hthick, hfits⟩ := h
    rw [dockedStrip_above (.inl rfl) hmin hsides.1]
    simp only [IsStrip, Screen.dockedRect, Rect.width, Rect.height, true_and] at hlong hfits ⊢
    omega
  | bottom =>
    obtain ⟨hlong, hmin, hthick, hfits⟩ := h
    rw [dockedStrip_above (.inr rfl) hmin hsides.1, hthick]
    have hsixteen : 16 ≤ Screen.dockedHeight a w := Int.le_max_left ..
    simp only [IsStrip, Screen.dockedRect, Rect.width, Rect.height, true_and] at hlong hfits ⊢
    omega
  | left =>
    obtain ⟨hlong, hmin, hthick, hfits⟩ := h
    rw [dockedStrip_beside (.inl rfl) hmin hsides.2]
    simp only [IsStrip, Screen.dockedRect, Rect.width, Rect.height, true_and] at hlong hfits ⊢
    omega
  | right =>
    obtain ⟨hlong, hmin, hthick, hfits⟩ := h
    rw [dockedStrip_beside (.inr rfl) hmin hsides.2, hthick]
    have hsixteen : 16 ≤ Screen.dockedWidth a w := Int.le_max_left ..
    simp only [IsStrip, Screen.dockedRect, Rect.width, Rect.height, true_and] at hlong hfits ⊢
    omega
  | full => exact absurd rfl hfull

theorem inside_of_isStrip {r : Rect} (h : IsStrip type a r) : Inside r a := by
  cases type with
  | full => exact h.elim
  | _ =>
    simp only [IsStrip, Inside] at h ⊢
    omega

/-- **A window that has room at a side is docked there**, at a size it
keeps. -/
theorem Suits.spec (h : Suits w a type) (hfull : type ≠ .full) (ha : Inside a screen.totalArea) :
    IsStrip type a
        (screen.moveToDock a type { w with state := .docked, dockedType := type }).1.rect ∧
      Roomy (screen.moveToDock a type { w with state := .docked, dockedType := type }).1 := by
  obtain ⟨hstrip, hwidth, hheight⟩ := h.isStrip hfull ha
  have hscreen : OnScreen screen (dockedStrip a type (docking type w)) :=
    .of_inside ((inside_of_isStrip hstrip).trans ha)
  have hliftedX : type = .top ∨ type = .bottom → (docking type w).maxSize.x = 0x7fffffff := by
    rintro (rfl | rfl) <;> rfl
  have hliftedY : type = .left ∨ type = .right → (docking type w).maxSize.y = 0x7fffffff := by
    rintro (rfl | rfl) <;> rfl
  have hwide : 16 ≤ (docking type w).clampWidth
      (Screen.dockedRect a (docking type w) type).width := by
    simp only [dockedStrip, Rect.width] at hwidth ⊢
    omega
  have hhigh : 16 ≤ (docking type w).clampHeight
      (Screen.dockedRect a (docking type w) type).height := by
    simp only [dockedStrip, Rect.height] at hheight ⊢
    omega
  obtain ⟨hrect, hroomy⟩ := roomy_moveAndResizeTo hwide hhigh hscreen hliftedX hliftedY
  exact ⟨hrect ▸ hstrip, hroomy⟩

end DesktopManager

end Uberos
