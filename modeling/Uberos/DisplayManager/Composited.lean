import Uberos.DisplayManager.Blending
import Uberos.DisplayManager.Unwrapped
import Mathlib.Data.List.TakeWhile
/-!
# Blending from the top down and from the background up

`blend_colours` lets a part of what is below through, and that part of
what was let through before; the loop from the top takes the same off the
visibility whatever is left of it. The two are one as long as one pixel
above the first opaque one lets some of what is below through, and its
bytes are where `blend_colours` has them.
-/

namespace Uberos

variable {bg : BitVec 32} {x y : ℤ} {order : BufferFormatOrder}
variable {display : ShapedDisplay PackedPixel} {displays : List (ShapedDisplay PackedPixel)}

/-! ## What it is for -/

/-- `blend_colours` of a display's sample over what is below, if it covers
the place. -/
def blendOver (order : BufferFormatOrder) (x y : ℤ) (display : ShapedDisplay PackedPixel)
    (below : BitVec 32) : BitVec 32 :=
  if display.Covers x y then blendColours below ((display.sampleAt x y).value order) else below

/-- **The fold of `blend_colours` from the background upwards.** -/
def layered (order : BufferFormatOrder) (bg : BitVec 32) (x y : ℤ)
    (displays : List (ShapedDisplay PackedPixel)) : BitVec 32 :=
  displays.foldr (blendOver order x y) ((calculateBlendingAt bg x y []).value order)

/-- The displays that cover the place, from the top. -/
def layersAt (x y : ℤ) (displays : List (ShapedDisplay PackedPixel)) :
    List (ShapedDisplay PackedPixel) :=
  displays.filter fun display => display.Covers x y

/-- The pixel has the colours of a value, to within so many units. -/
def Within (units : ℕ) (pixel : PackedPixel) (value : BitVec 32) (order : BufferFormatOrder) :
    Prop :=
  ∀ c, (pixel.colour c).toNat ≤ ((PackedPixel.ofValue value order).colour c).toNat + units ∧
    ((PackedPixel.ofValue value order).colour c).toNat ≤ (pixel.colour c).toNat + units

/-- **Blending from the top is that of each display over what is below it**,
to within a unit for each layer: of the whole fold, and of the topmost over
the rest. -/
def Agrees (order : BufferFormatOrder) (bg : BitVec 32) (x y : ℤ)
    (displays : List (ShapedDisplay PackedPixel)) : Prop :=
  Within (layersAt x y displays).length (calculateBlendingAt bg x y displays)
    (layered order bg x y displays) order ∧
  ∀ top below, displays = top :: below → top.Covers x y →
    Within (layersAt x y displays).length (calculateBlendingAt bg x y displays)
      (blendOver order x y top ((calculateBlendingAt bg x y below).value order)) order

/-- The layers above the first that lets nothing through. -/
def seenThrough (x y : ℤ) (displays : List (ShapedDisplay PackedPixel)) :
    List (ShapedDisplay PackedPixel) :=
  (layersAt x y displays).takeWhile fun display => (display.read x y).a ≠ 0

/-- Some of what is below is let through, and not all. -/
def IsTranslucent (x y : ℤ) (display : ShapedDisplay PackedPixel) : Prop :=
  (display.read x y).a ≠ 0 ∧ (display.read x y).a ≠ 255

instance : Decidable (IsTranslucent x y display) := inferInstanceAs (Decidable (_ ∧ _))

/-- **One layer at most is translucent** of those that are seen through. -/
def OneTranslucent (x y : ℤ) (displays : List (ShapedDisplay PackedPixel)) : Prop :=
  (seenThrough x y displays).countP (fun display => IsTranslucent x y display) ≤ 1

instance : Decidable (OneTranslucent x y displays) := inferInstanceAs (Decidable (_ ≤ _))

/-- The bytes are where `blend_colours` has them, or it is not used. -/
def Ordered (order : BufferFormatOrder) (x y : ℤ)
    (displays : List (ShapedDisplay PackedPixel)) : Prop :=
  order = .bgra ∨ layersAt x y displays = []

/-! ## The fold, by channel -/

/-- What a channel comes to from the background up. -/
def composited (bg : BitVec 32) (x y : ℤ) (displays : List (ShapedDisplay PackedPixel))
    (c : Channel) : ℕ :=
  displays.foldr (fun display below =>
    if display.Covers x y then
      below * (display.read x y).a.toNat / 255 + ((display.read x y).colour c).toNat
    else below) (backgroundColour bg c).toNat

theorem composited_cons (bg : BitVec 32) (x y : ℤ) (display : ShapedDisplay PackedPixel)
    (displays : List (ShapedDisplay PackedPixel)) (c : Channel) :
    composited bg x y (display :: displays) c =
      if display.Covers x y then
        composited bg x y displays c * (display.read x y).a.toNat / 255 +
          ((display.read x y).colour c).toNat
      else composited bg x y displays c := rfl

/-- What is sampled of a display is what is read of it. -/
theorem ShapedDisplay.sampleAt_of_covers (hcovers : display.Covers x y) :
    display.sampleAt x y = display.read x y := by
  rw [sampleAt, if_pos hcovers]

/-- Over nothing but the background is the background. -/
theorem toNat_calculateBlendingAt_nil (c : Channel) :
    ((calculateBlendingAt bg x y []).colour c).toNat = (backgroundColour bg c).toNat := by
  have hcolour : (backgroundColour bg c).toNat < 256 := (backgroundColour bg c).isLt
  have hsum : Blend.start.backgroundSum bg c = (backgroundColour bg c).toNat := by
    show 0 + min ((backgroundColour bg c).toNat * 255 / 255) 255 = _
    omega
  show (Blend.start.addBackground bg c).toNat = _
  rw [Blend.room_start.toNat_addBackground, hsum]

/-- **The fold of `blend_colours` is that of each channel.** -/
theorem byteAt_layered (hpixels : ∀ display ∈ displays, Premultiplied x y display) (c : Channel) :
    byteAt (layered .bgra bg x y displays) c.shift = composited bg x y displays c := by
  induction displays with
  | nil =>
    show byteAt ((calculateBlendingAt bg x y []).value .bgra) c.shift = _
    rw [byteAt_value, toNat_calculateBlendingAt_nil]
    rfl
  | cons display displays ih =>
    have hrest := ih fun d hd => hpixels d (List.mem_cons_of_mem _ hd)
    show byteAt (blendOver .bgra x y display (layered .bgra bg x y displays)) c.shift = _
    rw [composited_cons, blendOver]
    by_cases hcovers : display.Covers x y
    · rw [if_pos hcovers, if_pos hcovers, ShapedDisplay.sampleAt_of_covers hcovers,
        byteAt_blendColours (hpixels display List.mem_cons_self hcovers), hrest]
    · rw [if_neg hcovers, if_neg hcovers, hrest]

/-- A fold of premultiplied pixels has room in a byte. -/
theorem composited_le (hpixels : ∀ display ∈ displays, Premultiplied x y display) (c : Channel) :
    composited bg x y displays c ≤ 255 := by
  rw [← byteAt_layered hpixels]
  have hlt := byteAt_lt (layered .bgra bg x y displays) c.shift
  omega

/-! ## The layers that are seen through -/

theorem seenThrough_of_not_covers (hcovers : ¬ display.Covers x y) :
    seenThrough x y (display :: displays) = seenThrough x y displays := by
  rw [seenThrough, layersAt, List.filter_cons_of_neg (by simpa using hcovers)]
  rfl

theorem seenThrough_of_open (hcovers : display.Covers x y) (ha : (display.read x y).a ≠ 0) :
    seenThrough x y (display :: displays) = display :: seenThrough x y displays := by
  rw [seenThrough, layersAt, List.filter_cons_of_pos (by simpa using hcovers),
    List.takeWhile_cons_of_pos (by simpa using ha)]
  rfl

/-! ## The loop -/

/-- **A pixel that lets nothing through ends the loop**: in the solid area
or as what uses the visibility up. -/
theorem blendFrom_of_closed {s : Blend} (hcovers : display.Covers x y)
    (ha : (display.read x y).a = 0) :
    blendFrom bg x y (display :: displays) s = s.add (display.read x y) := by
  have hvisibility : s.visibility.toNat < 256 := s.visibility.isLt
  have hused : s.UsedUp (display.read x y) := by
    rw [Blend.UsedUp, ha]
    show s.visibility.toNat ≤ 255 - 0
    omega
  rw [blendFrom, if_pos hcovers]
  dsimp only
  rw [if_pos hused]
  split <;> rfl

/-- One that lets some through does not, while it does not use that up. -/
theorem blendFrom_of_open {s : Blend} (hcovers : display.Covers x y)
    (hsolid : SolidOpaque x y display) (ha : (display.read x y).a ≠ 0)
    (hunused : ¬ s.UsedUp (display.read x y)) :
    blendFrom bg x y (display :: displays) s =
      blendFrom bg x y displays (s.next (display.read x y)) := by
  rw [blendFrom, if_pos hcovers]
  dsimp only
  rw [if_neg fun h => ha (hsolid hcovers h), if_neg hunused]

/-- A pixel that lets everything through has no colour. -/
theorem colour_of_full {read : PackedPixel}
    (hread : ∀ c, (read.colour c).toNat ≤ 255 - read.a.toNat) (ha : read.a = 255) (c : Channel) : (read.colour c).toNat = 0 := by
  have hc := hread c
  rw [ha] at hc
  exact Nat.le_zero.1 hc

/-- And changes nothing. -/
theorem Blend.Room.next_of_full {s : Blend} (hroom : s.Room) {read : PackedPixel}
    (hread : ∀ c, (read.colour c).toNat ≤ 255 - read.a.toNat) (ha : read.a = 255) :
    s.next read = s := by
  have hresult : s.add read = s.result := by
    funext c
    refine BitVec.eq_of_toNat_eq ?_
    rw [hroom.toNat_add, sum, colour_of_full hread ha, Nat.zero_mul]
    rfl
  have hvisibility : s.visibility - (255#8 - read.a) = s.visibility := by
    rw [ha]
    exact BitVec.sub_zero s.visibility
  rw [Blend.next, hresult, hvisibility]

/-- **Under one translucent layer the rest is let through as it is.** -/
theorem toNat_blendFrom_of_clear {s : Blend} (hroom : s.Room) (hvisible : 0 < s.visibility.toNat)
    (hpixels : ∀ display ∈ displays, Premultiplied x y display)
    (hsolid : ∀ display ∈ displays, SolidOpaque x y display)
    (hclear : ∀ display ∈ seenThrough x y displays, (display.read x y).a = 255) (c : Channel) :
    (blendFrom bg x y displays s c).toNat =
      (s.result c).toNat + composited bg x y displays c * s.visibility.toNat / 255 := by
  induction displays generalizing s with
  | nil =>
    have hcolour : (backgroundColour bg c).toNat < 256 := (backgroundColour bg c).isLt
    have hpart := (Blend.mul_div_le (backgroundColour bg c).toNat s.visibility.toNat
      (by omega) (by have := hroom c; omega)).1
    rw [blendFrom, hroom.toNat_addBackground, Blend.backgroundSum, Nat.min_eq_left (by omega)]
    rfl
  | cons display displays ih =>
    have hpixels' := fun d hd => hpixels d (List.mem_cons_of_mem _ hd)
    have hsolid' := fun d hd => hsolid d (List.mem_cons_of_mem _ hd)
    rw [composited_cons]
    by_cases hcovers : display.Covers x y
    · have hread := hpixels display List.mem_cons_self hcovers
      rw [if_pos hcovers]
      by_cases ha : (display.read x y).a = 0
      · rw [blendFrom_of_closed hcovers ha, hroom.toNat_add, Blend.sum, ha]
        show _ = (s.result c).toNat + (composited bg x y displays c * 0 / 255 +
          ((display.read x y).colour c).toNat) * s.visibility.toNat / 255
        rw [Nat.mul_zero, Nat.zero_div, Nat.zero_add]
      · rw [seenThrough_of_open hcovers ha] at hclear
        have hfull : (display.read x y).a = 255 := hclear display List.mem_cons_self
        have hunused : ¬ s.UsedUp (display.read x y) := by
          rw [Blend.UsedUp, hfull]
          show ¬ s.visibility.toNat ≤ 255 - 255
          omega
        have hnone := colour_of_full hread hfull c
        rw [blendFrom_of_open hcovers (hsolid display List.mem_cons_self) ha hunused,
          hroom.next_of_full hread hfull, ih hroom hvisible hpixels' hsolid'
            fun d hd => hclear d (List.mem_cons_of_mem _ hd), hnone, hfull]
        show _ = (s.result c).toNat +
          (composited bg x y displays c * 255 / 255 + 0) * s.visibility.toNat / 255
        rw [Nat.mul_div_cancel _ (by decide), Nat.add_zero]
    · rw [seenThrough_of_not_covers hcovers] at hclear
      rw [if_neg hcovers, blendFrom, if_neg hcovers]
      exact ih hroom hvisible hpixels' hsolid' hclear

/-- The first pixel does not use the visibility up if it lets some
through. -/
theorem not_usedUp_start (ha : (display.read x y).a ≠ 0) :
    ¬ Blend.start.UsedUp (display.read x y) := by
  have hpos : 0 < (display.read x y).a.toNat :=
    Nat.pos_of_ne_zero fun h => ha (BitVec.eq_of_toNat_eq h)
  have hlt : (display.read x y).a.toNat < 256 := (display.read x y).a.isLt
  show ¬ 255 ≤ 255 - (display.read x y).a.toNat
  omega

/-- **All below the one that is translucent are opaque, or let everything
through.** -/
theorem OneTranslucent.clear_below (hone : OneTranslucent x y (display :: displays))
    (hcovers : display.Covers x y) (htranslucent : IsTranslucent x y display) :
    ∀ d ∈ seenThrough x y displays, (d.read x y).a = 255 := by
  intro d hd
  rw [OneTranslucent, seenThrough_of_open hcovers htranslucent.1,
    List.countP_cons_of_pos (by simpa using htranslucent)] at hone
  have hcount := List.countP_eq_zero.1 (Nat.le_zero.1 (Nat.le_of_succ_le_succ hone)) d hd
  have hopen : (d.read x y).a ≠ 0 := by simpa using List.mem_takeWhile_imp hd
  by_contra hne
  exact hcount (decide_eq_true (⟨hopen, hne⟩ : IsTranslucent x y d))

/-- **With one translucent layer the loop is the fold.** -/
theorem toNat_calculateBlendingAt (hpixels : ∀ display ∈ displays, Premultiplied x y display)
    (hsolid : ∀ display ∈ displays, SolidOpaque x y display)
    (hone : OneTranslucent x y displays) (c : Channel) :
    ((calculateBlendingAt bg x y displays).colour c).toNat = composited bg x y displays c := by
  show (blendFrom bg x y displays .start c).toNat = _
  induction displays with
  | nil => exact toNat_calculateBlendingAt_nil (x := x) (y := y) c
  | cons display displays ih =>
    have hpixels' := fun d hd => hpixels d (List.mem_cons_of_mem _ hd)
    have hsolid' := fun d hd => hsolid d (List.mem_cons_of_mem _ hd)
    rw [composited_cons]
    by_cases hcovers : display.Covers x y
    · have hread := hpixels display List.mem_cons_self hcovers
      have hfirst : Blend.start.sum (display.read x y) c =
          ((display.read x y).colour c).toNat := by
        show 0 + ((display.read x y).colour c).toNat * 255 / 255 = _
        rw [Nat.mul_div_cancel _ (by decide), Nat.zero_add]
      rw [if_pos hcovers]
      by_cases ha : (display.read x y).a = 0
      · rw [blendFrom_of_closed hcovers ha, Blend.room_start.toNat_add, hfirst, ha]
        show _ = composited bg x y displays c * 0 / 255 + _
        rw [Nat.mul_zero, Nat.zero_div, Nat.zero_add]
      · have hunused := not_usedUp_start ha
        have hsolid1 := hsolid display List.mem_cons_self
        rw [blendFrom_of_open hcovers hsolid1 ha hunused]
        by_cases hfull : (display.read x y).a = 255
        · rw [Blend.room_start.next_of_full hread hfull, colour_of_full hread hfull, hfull]
          have hrest : OneTranslucent x y displays := by
            rw [OneTranslucent, seenThrough_of_open hcovers ha] at hone
            exact Nat.le_trans (List.sublist_cons_self display _).countP_le hone
          rw [ih hpixels' hsolid' hrest]
          show _ = composited bg x y displays c * 255 / 255 + 0
          rw [Nat.mul_div_cancel _ (by decide), Nat.add_zero]
        · -- the one that is translucent
          have hclear := hone.clear_below hcovers ⟨ha, hfull⟩
          have hpos : 0 < (display.read x y).a.toNat :=
            Nat.pos_of_ne_zero fun h => ha (BitVec.eq_of_toNat_eq h)
          have hleft : (Blend.start.next (display.read x y)).visibility.toNat =
              (display.read x y).a.toNat := by
            rw [Blend.toNat_next_visibility hunused]
            show 255 - (255 - (display.read x y).a.toNat) = _
            omega
          have hresult : ((Blend.start.next (display.read x y)).result c).toNat =
              ((display.read x y).colour c).toNat :=
            (Blend.room_start.toNat_add _ c).trans hfirst
          rw [toNat_blendFrom_of_clear (Blend.room_start.next hunused hread)
            (by rw [hleft]; exact hpos) hpixels' hsolid' hclear, hleft, hresult, Nat.add_comm]
    · rw [OneTranslucent, seenThrough_of_not_covers hcovers] at hone
      rw [if_neg hcovers, blendFrom, if_neg hcovers]
      exact ih hpixels' hsolid' hone

/-! ## The agreement -/

/-- What has the very colours has them to within anything. -/
theorem within_of_eq {units : ℕ} {pixel : PackedPixel} {value : BitVec 32}
    (h : ∀ c, ((PackedPixel.ofValue value order).colour c).toNat = (pixel.colour c).toNat) :
    Within units pixel value order := by
  intro c
  have hc := h c
  omega

/-- Where there is no layer there is the background alone. -/
theorem of_layersAt_eq_nil (bg : BitVec 32) (order : BufferFormatOrder)
    (hnone : layersAt x y displays = []) :
    calculateBlendingAt bg x y displays = calculateBlendingAt bg x y [] ∧
      layered order bg x y displays = (calculateBlendingAt bg x y []).value order := by
  induction displays with
  | nil => exact ⟨rfl, rfl⟩
  | cons display displays ih =>
    rw [layersAt, List.filter_eq_nil_iff] at hnone
    have hcovers : ¬ display.Covers x y := by simpa using hnone display List.mem_cons_self
    obtain ⟨hblend, hlayered⟩ := ih (List.filter_eq_nil_iff.2 fun d hd =>
      hnone d (List.mem_cons_of_mem _ hd))
    refine ⟨?_, ?_⟩
    · rw [← hblend, calculateBlendingAt, blendFrom, if_neg hcovers]
      rfl
    · show blendOver order x y display (layered order bg x y displays) = _
      rw [blendOver, if_neg hcovers, hlayered]

/-- **With one translucent layer at most the two ways of blending agree**,
where the bytes are as `blend_colours` has them: to the very colours. -/
theorem agrees_of_oneTranslucent (hpixels : ∀ display ∈ displays, Premultiplied x y display)
    (hsolid : ∀ display ∈ displays, SolidOpaque x y display)
    (hordered : Ordered order x y displays) (hone : OneTranslucent x y displays) :
    Agrees order bg x y displays := by
  rcases hordered with rfl | hnone
  · refine ⟨within_of_eq fun c => ?_, ?_⟩
    · rw [toNat_ofValue_colour, byteAt_layered hpixels,
        toNat_calculateBlendingAt hpixels hsolid hone]
    · rintro top below rfl hcovers
      have hpixels' := fun d hd => hpixels d (List.mem_cons_of_mem _ hd)
      have hsolid' := fun d hd => hsolid d (List.mem_cons_of_mem _ hd)
      refine within_of_eq fun c => ?_
      rw [toNat_ofValue_colour, blendOver, if_pos hcovers,
        ShapedDisplay.sampleAt_of_covers hcovers,
        byteAt_blendColours (hpixels top List.mem_cons_self hcovers), byteAt_value,
        toNat_calculateBlendingAt hpixels hsolid hone, composited_cons, if_pos hcovers]
      by_cases ha : (top.read x y).a = 0
      · rw [ha]
        show _ * 0 / 255 + _ = _ * 0 / 255 + _
        rw [Nat.mul_zero, Nat.mul_zero]
      · rw [OneTranslucent, seenThrough_of_open hcovers ha] at hone
        have hrest : OneTranslucent x y below :=
          Nat.le_trans (List.sublist_cons_self top _).countP_le hone
        rw [toNat_calculateBlendingAt hpixels' hsolid' hrest]
  · obtain ⟨hblend, hlayered⟩ := of_layersAt_eq_nil bg order hnone
    refine ⟨within_of_eq fun c => ?_, ?_⟩
    · rw [hlayered, hblend, ofValue_value]
    · rintro top below rfl hcovers
      have hmem : top ∈ layersAt x y (top :: below) :=
        List.mem_filter.2 ⟨List.mem_cons_self, decide_eq_true hcovers⟩
      rw [hnone] at hmem
      exact absurd hmem List.not_mem_nil

/-- One half transparent display over another that is in its solid area. -/
def halfOverSolid : List (ShapedDisplay PackedPixel) :=
  [{ x := 0, y := 0, layer := 0, scale := 1, width := 1, height := 1
     buffer := fun _ _ => ⟨fun _ => 128, 127⟩
     isVisible := true
     solidArea := ⟨0, 0, 0, 0⟩
     topLeftCorner := fun _ => 0, topRightCorner := fun _ => 0
     bottomLeftCorner := fun _ => 0, bottomRightCorner := fun _ => 0 },
   { x := 0, y := 0, layer := 0, scale := 1, width := 1, height := 1
     buffer := fun _ _ => ⟨fun _ => 200, 0⟩
     isVisible := true
     solidArea := ⟨0, 0, 1, 1⟩
     topLeftCorner := fun _ => 0, topRightCorner := fun _ => 0
     bottomLeftCorner := fun _ => 0, bottomRightCorner := fun _ => 0 }]

theorem agrees_halfOverSolid : Agrees .bgra 0xffffff 0 0 halfOverSolid := by
  refine agrees_of_oneTranslucent (fun display hdisplay _ c => ?_)
    (fun display hdisplay _ hsolid => ?_) (Or.inl rfl) (by decide)
  · simp only [halfOverSolid, List.mem_cons, List.not_mem_nil, or_false] at hdisplay
    rcases hdisplay with rfl | rfl
    · exact Nat.le_refl 128
    · show 200 ≤ 255
      decide
  · simp only [halfOverSolid, List.mem_cons, List.not_mem_nil, or_false] at hdisplay
    rcases hdisplay with rfl | rfl
    · exact absurd hsolid (by decide)
    · rfl

/-- Over white the second of two half transparent displays uses the
visibility up. -/
theorem not_agrees_halves : ¬ Agrees .bgra 0xffffff 0 0 halves := by
  intro hagrees
  exact absurd (hagrees.1 .r).2 (by decide)

end Uberos
