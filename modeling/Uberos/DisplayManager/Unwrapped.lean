import Uberos.DisplayManager.Blending
/-!
# Blending does not wrap

What a channel has come to and what is left of the visibility are never
more than 255 together: a pixel adds no more than it takes off. So nothing
is cut off on the way, the background's part included.
-/

namespace Uberos

variable {bg : BitVec 32} {x y : ℤ} {displays : List (ShapedDisplay PackedPixel)}

/-! ## What it is for -/

/-- **No byte of the loop wraps from here on**: each channel comes to no
more than 255, also before it is cut to that, and no more is taken off the
visibility than there is. -/
def Unwrapped (bg : BitVec 32) (x y : ℤ) : List (ShapedDisplay PackedPixel) → Blend → Prop
  | [], s => ∀ c, s.backgroundSum bg c ≤ 255
  | display :: rest, s =>
    if display.Covers x y then
      let read := display.read x y
      (∀ c, s.sum read c ≤ 255) ∧
        (¬ display.IsSolidAt x y → ¬ s.UsedUp read →
          255 - read.a.toNat ≤ s.visibility.toNat ∧ Unwrapped bg x y rest (s.next read))
    else Unwrapped bg x y rest s

/-- The loop without bytes: of integers, nothing of which is cut. -/
def blendExact (bg : BitVec 32) (x y : ℤ) :
    List (ShapedDisplay PackedPixel) → (Channel → ℤ) → ℤ → Channel → ℤ
  | [], result, visibility => fun c =>
    result c + (backgroundColour bg c).toNat * visibility / 255
  | display :: rest, result, visibility =>
    if display.Covers x y then
      let read := display.read x y
      let result := fun c => result c + (read.colour c).toNat * visibility / 255
      if display.IsSolidAt x y then result
      else if visibility ≤ 255 - read.a.toNat then result
      else blendExact bg x y rest result (visibility - (255 - read.a.toNat))
    else blendExact bg x y rest result visibility

/-! ## The invariant -/

namespace Blend

variable {s : Blend} {read : PackedPixel}

/-- **A channel and the visibility have room together.** -/
def Room (s : Blend) : Prop := ∀ c, (s.result c).toNat + s.visibility.toNat ≤ 255

theorem room_start : Room start := by
  intro c
  exact Nat.le_refl 255

/-- A part of a colour is no more than the colour, nor than the part. -/
theorem mul_div_le (colour part : ℕ) (hcolour : colour ≤ 255) (hpart : part ≤ 255) :
    colour * part / 255 ≤ colour ∧ colour * part / 255 ≤ part := by
  constructor
  · refine Nat.div_le_of_le_mul ?_
    rw [Nat.mul_comm 255]
    exact Nat.mul_le_mul_left colour hpart
  · exact Nat.div_le_of_le_mul (Nat.mul_le_mul_right part hcolour)

/-- **A channel has room for what is added to it.** -/
theorem Room.sum_le (h : Room s) (read : PackedPixel) (c : Channel) : s.sum read c ≤ 255 := by
  have hroom := h c
  have hcolour : (read.colour c).toNat < 256 := (read.colour c).isLt
  have hpart := (mul_div_le (read.colour c).toNat s.visibility.toNat
    (by omega) (by omega)).2
  rw [sum]
  omega

/-- And for the background. -/
theorem Room.backgroundSum_le (h : Room s) (bg : BitVec 32) (c : Channel) :
    s.backgroundSum bg c ≤ 255 := by
  have hroom := h c
  have hcolour : (backgroundColour bg c).toNat < 256 := (backgroundColour bg c).isLt
  have hpart := (mul_div_le (backgroundColour bg c).toNat s.visibility.toNat
    (by omega) (by omega)).2
  rw [backgroundSum]
  omega

/-- What is added is what the channel comes to. -/
theorem Room.toNat_add (h : Room s) (read : PackedPixel) (c : Channel) :
    (s.add read c).toNat = s.sum read c := by
  have hsum := h.sum_le read c
  rw [add, BitVec.toNat_ofNat, Nat.min_eq_left hsum, Nat.mod_eq_of_lt (by omega)]

theorem Room.toNat_addBackground (h : Room s) (bg : BitVec 32) (c : Channel) :
    (s.addBackground bg c).toNat = s.backgroundSum bg c := by
  have hsum := h.backgroundSum_le bg c
  rw [addBackground, BitVec.toNat_ofNat, Nat.mod_eq_of_lt (by omega)]

/-- What is taken off the visibility, where it is not used up. -/
theorem toNat_next_visibility (hunused : ¬ s.UsedUp read) :
    (s.next read).visibility.toNat = s.visibility.toNat - (255 - read.a.toNat) := by
  have ha : read.a.toNat < 256 := read.a.isLt
  have hvisibility : s.visibility.toNat < 256 := s.visibility.isLt
  have hopacity : (255#8 - read.a).toNat = 255 - read.a.toNat := by
    rw [BitVec.toNat_sub, show (255#8).toNat = 255 from rfl]
    omega
  rw [UsedUp] at hunused
  rw [next, BitVec.toNat_sub, hopacity]
  omega

/-- **The step lemma**: a pixel adds no more than it takes off. -/
theorem Room.next (h : Room s) (hunused : ¬ s.UsedUp read)
    (hread : ∀ c, (read.colour c).toNat ≤ 255 - read.a.toNat) : Room (s.next read) := by
  intro c
  have hroom := h c
  have hcolour := hread c
  have hpart := (mul_div_le (read.colour c).toNat s.visibility.toNat
    (by omega) (by omega)).1
  have hadd : ((s.next read).result c).toNat = s.sum read c := h.toNat_add read c
  rw [hadd, toNat_next_visibility hunused, sum]
  rw [UsedUp] at hunused
  omega

end Blend

/-! ## Runs of the loop -/

/-- **From where there is room, the loop is the one of integers**, and
nothing of it wraps. -/
theorem unwrapped_of_room {s : Blend} (h : s.Room)
    (hpixels : ∀ display ∈ displays, Premultiplied x y display) :
    Unwrapped bg x y displays s ∧ ∀ c, ((blendFrom bg x y displays s c).toNat : ℤ) =
      blendExact bg x y displays (fun c => (s.result c).toNat) s.visibility.toNat c := by
  induction displays generalizing s with
  | nil =>
    refine ⟨h.backgroundSum_le bg, fun c => ?_⟩
    have hsum := h.backgroundSum_le bg c
    have hcolour : (backgroundColour bg c).toNat < 256 := (backgroundColour bg c).isLt
    have hvisibility : s.visibility.toNat < 256 := s.visibility.isLt
    have hpart := (Blend.mul_div_le (backgroundColour bg c).toNat s.visibility.toNat
      (by omega) (by omega)).2
    rw [blendFrom, blendExact, h.toNat_addBackground, Blend.backgroundSum,
      Nat.min_eq_left (by omega), Int.natCast_add, Int.natCast_ediv, Int.natCast_mul]
    rfl
  | cons display rest ih =>
    have hrest := fun d hd => hpixels d (List.mem_cons_of_mem _ hd)
    rw [Unwrapped, blendFrom, blendExact]
    by_cases hcovers : display.Covers x y
    · simp only [if_pos hcovers]
      have hread := hpixels display List.mem_cons_self hcovers
      -- what the turn leaves in the channels, of bytes and of integers
      have hadd : (fun c => (((s.add (display.read x y)) c).toNat : ℤ)) = fun c =>
          ((s.result c).toNat : ℤ) +
            ((display.read x y).colour c).toNat * (s.visibility.toNat : ℤ) / 255 := by
        funext c
        rw [h.toNat_add, Blend.sum, Int.natCast_add, Int.natCast_ediv, Int.natCast_mul]
        rfl
      have ha : (display.read x y).a.toNat < 256 := (display.read x y).a.isLt
      have husedUp : (s.visibility.toNat : ℤ) ≤ 255 - (display.read x y).a.toNat ↔
          s.UsedUp (display.read x y) := by
        rw [Blend.UsedUp]
        omega
      refine ⟨⟨fun c => h.sum_le _ c, fun _ hunused => ?_⟩, fun c => ?_⟩
      · have hvisible : ¬ s.visibility.toNat ≤ 255 - (display.read x y).a.toNat := hunused
        exact ⟨by omega, (ih (h.next hunused hread) hrest).1⟩
      · by_cases hsolid : display.IsSolidAt x y
        · rw [if_pos hsolid, if_pos hsolid]
          exact congrFun hadd c
        · rw [if_neg hsolid, if_neg hsolid]
          by_cases hused : s.UsedUp (display.read x y)
          · rw [if_pos hused, if_pos (husedUp.2 hused)]
            exact congrFun hadd c
          · have hvisible : ¬ s.visibility.toNat ≤ 255 - (display.read x y).a.toNat := hused
            have hnext := (ih (h.next hused hread) hrest).2 c
            have hleft : ((s.visibility.toNat : ℤ) - (255 - (display.read x y).a.toNat)) =
                ((s.next (display.read x y)).visibility.toNat : ℤ) := by
              rw [Blend.toNat_next_visibility hused]
              omega
            rw [if_neg hused, if_neg (mt husedUp.1 hused), hnext, hleft]
            exact congrArg (fun result => blendExact bg x y rest result _ c) hadd
    · simp only [if_neg hcovers]
      exact ih h hrest

/-- **Blending never wraps**: of any stack of premultiplied pixels, over
any background, each byte is what the integers are. -/
theorem unwrapped_calculateBlendingAt
    (hpixels : ∀ display ∈ displays, Premultiplied x y display) :
    Unwrapped bg x y displays .start ∧
      ∀ c, (((calculateBlendingAt bg x y displays).colour c).toNat : ℤ) =
        blendExact bg x y displays (fun _ => 0) 255 c :=
  unwrapped_of_room Blend.room_start hpixels

/-- Two half transparent displays over white. -/
def halves : List (ShapedDisplay PackedPixel) :=
  List.replicate 2
    { x := 0, y := 0, layer := 0, scale := 1, width := 1, height := 1
      buffer := fun _ _ => ⟨fun _ => 128, 127⟩
      isVisible := true
      solidArea := ⟨0, 0, 0, 0⟩
      topLeftCorner := fun _ => 0, topRightCorner := fun _ => 0
      bottomLeftCorner := fun _ => 0, bottomRightCorner := fun _ => 0 }

theorem unwrapped_halves :
    Unwrapped 0xffffff 0 0 halves .start ∧
      ∀ c, (((calculateBlendingAt 0xffffff 0 0 halves).colour c).toNat : ℤ) =
        blendExact 0xffffff 0 0 halves (fun _ => 0) 255 c := by
  refine unwrapped_calculateBlendingAt fun display hdisplay _ c => ?_
  obtain rfl := List.eq_of_mem_replicate hdisplay
  exact Nat.le_refl 128

end Uberos
