import Mathlib.Algebra.Group.Nat.Defs
import Uberos.DisplayManager.Model
import Uberos.Graphics2d.Buffer
import Uberos.Library.Words
/-!
# Blending

`__sample_at` and `__calculate_blending_at` of `drivers/DisplayManager.cpp`
and `blend_colours` of `common/graphics2d.hpp`. A pixel's `a` is what it
lets through, and its colours are multiplied by the rest already.
-/

namespace Uberos

/-- The colours of a pixel. -/
inductive Channel
  | r | g | b
  deriving DecidableEq, Repr

/-- `PackedPixel`. -/
structure PackedPixel where
  colour : Channel → BitVec 8
  a : BitVec 8

namespace PackedPixel

/-- Four bytes from the lowest up. -/
def pack (byte0 byte1 byte2 byte3 : BitVec 8) : BitVec 32 :=
  byte0.setWidth 32 ||| byte1.setWidth 32 <<< 8 ||| byte2.setWidth 32 <<< 16
    ||| byte3.setWidth 32 <<< 24

/-- `value`. -/
def value (p : PackedPixel) : BufferFormatOrder → BitVec 32
  | .argb => pack p.a (p.colour .r) (p.colour .g) (p.colour .b)
  | .bgra => pack (p.colour .b) (p.colour .g) (p.colour .r) p.a

/-- The pixel of a `value`. -/
def ofValue (value : BitVec 32) : BufferFormatOrder → PackedPixel
  | .argb =>
    { colour := fun
        | .r => (value >>> 8).setWidth 8
        | .g => (value >>> 16).setWidth 8
        | .b => (value >>> 24).setWidth 8
      a := value.setWidth 8 }
  | .bgra =>
    { colour := fun
        | .r => (value >>> 16).setWidth 8
        | .g => (value >>> 8).setWidth 8
        | .b => value.setWidth 8
      a := (value >>> 24).setWidth 8 }

/-- Nothing of any channel. -/
def zero : PackedPixel := ⟨fun _ => 0, 0⟩

end PackedPixel

/-- `blend_colours`. -/
def blendColours (colourA colourB : BitVec 32) : BitVec 32 :=
  let trans := colourB >>> 24
  ((colourA >>> 0 &&& 0xff#32) * trans / 255#32 + (colourB >>> 0 &&& 0xff#32)) |||
  ((colourA >>> 8 &&& 0xff#32) * trans / 255#32 + (colourB >>> 8 &&& 0xff#32)) <<< 8 |||
  ((colourA >>> 16 &&& 0xff#32) * trans / 255#32 + (colourB >>> 16 &&& 0xff#32)) <<< 16 |||
  ((colourA >>> 24) * trans / 255#32) <<< 24

/-- A colour of the background, `bg>>16&0xff` and so on. -/
def backgroundColour (bg : BitVec 32) : Channel → BitVec 8
  | .r => (bg >>> 16).setWidth 8
  | .g => (bg >>> 8).setWidth 8
  | .b => bg.setWidth 8

namespace ShapedDisplay

variable (d : ShapedDisplay PackedPixel)

/-- The pixel that is read at a place of the screen. -/
def read (x y : ℤ) : PackedPixel := d.source (x - d.x) (y - d.y)

/-- `__sample_at`. -/
def sampleAt (x y : ℤ) : PackedPixel := if d.Covers x y then d.read x y else .zero

/-- `solidArea.contains`, at a place of the screen. -/
def IsSolidAt (x y : ℤ) : Prop := d.solidArea.contains (x - d.x) (y - d.y)

instance (x y : ℤ) : Decidable (d.IsSolidAt x y) :=
  inferInstanceAs (Decidable (d.solidArea.contains _ _))

end ShapedDisplay

/-! ## From the top down -/

/-- The variables of `__calculate_blending_at`. -/
structure Blend where
  result : Channel → BitVec 8
  visibility : BitVec 8

namespace Blend

/-- As it starts. -/
def start : Blend := ⟨fun _ => 0, 255⟩

variable (s : Blend) (read : PackedPixel) (bg : BitVec 32)

/-- What a channel comes to, before it is a byte: `result.r +
read.r*(U32)visibility/255`. -/
def sum (c : Channel) : ℕ :=
  (s.result c).toNat + (read.colour c).toNat * s.visibility.toNat / 255

/-- `min(.., 255u)` of each channel. -/
def add : Channel → BitVec 8 := fun c => BitVec.ofNat 8 (min (s.sum read c) 255)

/-- What a channel and the background's come to. -/
def backgroundSum (c : Channel) : ℕ :=
  (s.result c).toNat + min ((backgroundColour bg c).toNat * s.visibility.toNat / 255) 255

/-- `+= min(..)` of each channel, a byte. -/
def addBackground : Channel → BitVec 8 := fun c => BitVec.ofNat 8 (s.backgroundSum bg c)

/-- `visibility<=255-read.a`. -/
def UsedUp : Prop := s.visibility.toNat ≤ 255 - read.a.toNat

instance : Decidable (s.UsedUp read) := inferInstanceAs (Decidable (_ ≤ _))

/-- A turn that does not end the loop: `visibility -= 255-read.a`. -/
def next : Blend := ⟨s.add read, s.visibility - (255#8 - read.a)⟩

end Blend

/-- The loop of `__calculate_blending_at`, and what is after it, from a
display down. -/
def blendFrom (bg : BitVec 32) (x y : ℤ) : List (ShapedDisplay PackedPixel) → Blend →
    Channel → BitVec 8
  | [], s => s.addBackground bg
  | display :: rest, s =>
    if display.Covers x y then
      let read := display.read x y
      if display.IsSolidAt x y then s.add read
      else if s.UsedUp read then s.add read
      else blendFrom bg x y rest (s.next read)
    else blendFrom bg x y rest s

/-- `__calculate_blending_at`, of a display and those below it. -/
def calculateBlendingAt (bg : BitVec 32) (x y : ℤ) (displays : List (ShapedDisplay PackedPixel)) :
    PackedPixel :=
  ⟨blendFrom bg x y displays .start, 0⟩

/-- **The colours of a pixel are multiplied by what it does not let
through.** -/
def Premultiplied (x y : ℤ) (display : ShapedDisplay PackedPixel) : Prop :=
  display.Covers x y →
    ∀ c, ((display.read x y).colour c).toNat ≤ 255 - (display.read x y).a.toNat

/-- A pixel of the solid area lets nothing through. -/
def SolidOpaque (x y : ℤ) (display : ShapedDisplay PackedPixel) : Prop :=
  display.Covers x y → display.IsSolidAt x y → (display.read x y).a = 0

/-!
## Packed pixels

A pixel's `value` by its bytes. Where no channel comes to more than a byte
`blend_colours` is that of each channel, on framebuffers whose order has
the transparency at the top.
-/

open Library

variable {colourA colourB value : BitVec 32} {k : ℕ}

/-- The byte of a value above `k` bits. -/
def byteAt (value : BitVec 32) (k : ℕ) : ℕ := value.toNat / 2 ^ k % 256

/-- Where a channel is where the transparency is at the top. -/
def Channel.shift : Channel → ℕ
  | .r => 16
  | .g => 8
  | .b => 0

theorem byteAt_lt (value : BitVec 32) (k : ℕ) : byteAt value k < 256 := Nat.mod_lt _ (by decide)

/-! ## Bytes -/

/-- **Four bytes at their places are their sum.** -/
theorem toNat_or_bytes {b0 b1 b2 b3 : BitVec 32} (h0 : b0.toNat < 256) (h1 : b1.toNat < 256)
    (h2 : b2.toNat < 256) (h3 : b3.toNat < 256) :
    (b0 ||| b1 <<< 8 ||| b2 <<< 16 ||| b3 <<< 24).toNat =
      b0.toNat + 2 ^ 8 * b1.toNat + 2 ^ 16 * b2.toNat + 2 ^ 24 * b3.toNat := by
  have hone := toNat_shiftLeft_of_lt (n := 8) (k := 8) h1 (by decide)
  have htwo := toNat_shiftLeft_of_lt (n := 8) (k := 16) h2 (by decide)
  have hthree := toNat_shiftLeft_of_lt (n := 8) (k := 24) h3 (by decide)
  have hlow : (b0 ||| b1 <<< 8).toNat = b0.toNat + b1.toNat * 2 ^ 8 := by
    rw [toNat_or_of_dvd (k := 8) (by omega) (by omega), hone]
  have hmid : (b0 ||| b1 <<< 8 ||| b2 <<< 16).toNat =
      b0.toNat + b1.toNat * 2 ^ 8 + b2.toNat * 2 ^ 16 := by
    rw [toNat_or_of_dvd (k := 16) (by omega) (by omega), hlow, htwo]
  rw [toNat_or_of_dvd (k := 24) (by omega) (by omega), hmid, hthree]
  omega

/-- A byte that is masked out. -/
theorem toNat_and_byte (value : BitVec 32) (k : ℕ) :
    (value >>> k &&& 0xff#32).toNat = byteAt value k :=
  toNat_ushiftRight_and (n := 8) value k (by decide)

/-- A byte that is cut out. -/
theorem toNat_setWidth_byte (value : BitVec 32) (k : ℕ) :
    ((value >>> k).setWidth 8).toNat = byteAt value k :=
  toNat_setWidth_ushiftRight value k 8

/-- The colour of a value, with the transparency at the top. -/
theorem toNat_ofValue_colour (value : BitVec 32) (c : Channel) :
    ((PackedPixel.ofValue value .bgra).colour c).toNat = byteAt value c.shift := by
  cases c with
  | r => exact toNat_setWidth_byte value 16
  | g => exact toNat_setWidth_byte value 8
  | b => exact toNat_setWidth_byte value 0

/-- **The bytes of a pixel are packed as they are.** -/
theorem toNat_pack (byte0 byte1 byte2 byte3 : BitVec 8) :
    (PackedPixel.pack byte0 byte1 byte2 byte3).toNat = byte0.toNat + 2 ^ 8 * byte1.toNat +
      2 ^ 16 * byte2.toNat + 2 ^ 24 * byte3.toNat := by
  have hbyte (b : BitVec 8) : (b.setWidth 32).toNat = b.toNat := by
    have hb : b.toNat < 256 := b.isLt
    rw [BitVec.toNat_setWidth, Nat.mod_eq_of_lt (by omega)]
  have hlt (b : BitVec 8) : (b.setWidth 32).toNat < 256 := by
    rw [hbyte]
    exact b.isLt
  rw [PackedPixel.pack, toNat_or_bytes (hlt _) (hlt _) (hlt _) (hlt _), hbyte, hbyte, hbyte, hbyte]

/-- The colours of a pixel's value are the pixel's. -/
theorem ofValue_value (p : PackedPixel) (order : BufferFormatOrder) (c : Channel) :
    (PackedPixel.ofValue (p.value order) order).colour c = p.colour c := by
  have ha : p.a.toNat < 256 := p.a.isLt
  have hr : (p.colour .r).toNat < 256 := (p.colour .r).isLt
  have hg : (p.colour .g).toNat < 256 := (p.colour .g).isLt
  have hb : (p.colour .b).toNat < 256 := (p.colour .b).isLt
  refine BitVec.eq_of_toNat_eq ?_
  cases order with
  | argb =>
    have hpack := toNat_pack p.a (p.colour .r) (p.colour .g) (p.colour .b)
    cases c with
    | r => refine (toNat_setWidth_byte _ 8).trans ?_; rw [byteAt, PackedPixel.value]; omega
    | g => refine (toNat_setWidth_byte _ 16).trans ?_; rw [byteAt, PackedPixel.value]; omega
    | b => refine (toNat_setWidth_byte _ 24).trans ?_; rw [byteAt, PackedPixel.value]; omega
  | bgra =>
    have hpack := toNat_pack (p.colour .b) (p.colour .g) (p.colour .r) p.a
    rw [toNat_ofValue_colour, byteAt, PackedPixel.value]
    cases c with
    | r => rw [Channel.shift]; omega
    | g => rw [Channel.shift]; omega
    | b => rw [Channel.shift]; omega

theorem byteAt_value (p : PackedPixel) (c : Channel) :
    byteAt (p.value .bgra) c.shift = (p.colour c).toNat := by
  rw [← toNat_ofValue_colour, ofValue_value]

/-- The transparency of a pixel. -/
theorem toNat_value_shift (p : PackedPixel) : (p.value .bgra >>> 24).toNat = p.a.toNat := by
  have hr : (p.colour .r).toNat < 256 := (p.colour .r).isLt
  have hg : (p.colour .g).toNat < 256 := (p.colour .g).isLt
  have hb : (p.colour .b).toNat < 256 := (p.colour .b).isLt
  rw [PackedPixel.value, BitVec.toNat_ushiftRight, Nat.shiftRight_eq_div_pow, toNat_pack]
  omega

/-! ## Blending by channel -/

/-- A byte of one colour that a part of is added to a byte of the other. -/
theorem toNat_blendPart (byte trans other : BitVec 32) (hbyte : byte.toNat < 256)
    (htrans : trans.toNat < 256) (hother : other.toNat < 256) :
    (byte * trans / 255#32 + other).toNat = byte.toNat * trans.toNat / 255 + other.toNat := by
  have hmul : byte.toNat * trans.toNat ≤ 255 * 255 := Nat.mul_le_mul (by omega) (by omega)
  have hdiv : (byte * trans / 255#32).toNat = byte.toNat * trans.toNat / 255 := by
    rw [BitVec.toNat_udiv, BitVec.toNat_mul, Nat.mod_eq_of_lt (by omega)]
    rfl
  rw [BitVec.toNat_add, hdiv, Nat.mod_eq_of_lt (by omega)]

/-- **`blend_colours` of each channel**, where none comes to more than a
byte. -/
theorem byteAt_blendColours {p : PackedPixel} (hp : ∀ c, (p.colour c).toNat ≤ 255 - p.a.toNat)
    (c : Channel) :
    byteAt (blendColours colourA (p.value .bgra)) c.shift =
      byteAt colourA c.shift * p.a.toNat / 255 + (p.colour c).toNat := by
  have ha : p.a.toNat < 256 := p.a.isLt
  have htrans : (p.value .bgra >>> 24).toNat = p.a.toNat := toNat_value_shift p
  -- each part comes to its channel, which has room for it
  have hpart (c : Channel) :
      ((colourA >>> c.shift &&& 0xff#32) * (p.value .bgra >>> 24) / 255#32 +
        (p.value .bgra >>> c.shift &&& 0xff#32)).toNat =
      byteAt colourA c.shift * p.a.toNat / 255 + (p.colour c).toNat := by
    have hA := byteAt_lt colourA c.shift
    have hB := byteAt_lt (p.value .bgra) c.shift
    rw [toNat_blendPart _ _ _ (by rw [toNat_and_byte]; exact hA) (by rw [htrans]; exact ha)
      (by rw [toNat_and_byte]; exact hB), toNat_and_byte, toNat_and_byte, htrans, byteAt_value]
  have hroom (c : Channel) :
      byteAt colourA c.shift * p.a.toNat / 255 + (p.colour c).toNat < 256 := by
    have hA := byteAt_lt colourA c.shift
    have hc := hp c
    have hle : byteAt colourA c.shift * p.a.toNat / 255 ≤ p.a.toNat :=
      Nat.div_le_of_le_mul (Nat.mul_le_mul_right _ (by omega))
    omega
  have htop : ((colourA >>> 24) * (p.value .bgra >>> 24) / 255#32).toNat < 256 := by
    have hA : (colourA >>> 24).toNat < 256 := by
      rw [BitVec.toNat_ushiftRight, Nat.shiftRight_eq_div_pow]
      omega
    have hmul : (colourA >>> 24).toNat * p.a.toNat ≤ 255 * 255 :=
      Nat.mul_le_mul (by omega) (by omega)
    rw [BitVec.toNat_udiv, BitVec.toNat_mul, htrans, Nat.mod_eq_of_lt (by omega)]
    exact Nat.lt_of_le_of_lt (Nat.div_le_div_right hmul) (by decide)
  have hb := hroom .b
  have hg := hroom .g
  have hr := hroom .r
  have hsum := toNat_or_bytes ((hpart .b).trans_lt hb) ((hpart .g).trans_lt hg)
    ((hpart .r).trans_lt hr) htop
  rw [hpart, hpart, hpart] at hsum
  have hbytes : (blendColours colourA (p.value .bgra)).toNat = _ := hsum
  rw [byteAt, hbytes]
  cases c with
  | r => simp only [Channel.shift] at hr hg hb ⊢; omega
  | g => simp only [Channel.shift] at hr hg hb ⊢; omega
  | b => simp only [Channel.shift] at hr hg hb ⊢; omega

end Uberos
