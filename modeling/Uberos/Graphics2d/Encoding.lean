import Uberos.Graphics2d.Buffer
import Uberos.Library.Words
/-!
# What a format keeps of a colour

The bytes that `set` stores of a colour and the colour that `get` makes of
them, format by format. They are inverse, up to what a format has no bits
for, but of `rgba8` in the order `argb`: its bytes are stored in the order
of the other and read in its own.
-/

namespace Uberos.Graphics2d

open Library

/-- The bytes of a pixel of a colour. -/
def encode (format : BufferFormat) (order : BufferFormatOrder) (colour : BitVec 32) :
    List (BitVec 8) :=
  match format, order with
  | .grey8, _ => [Buffer.grey8 colour]
  | .rgb565, .argb => bytes16 (Buffer.rgb565 colour)
  | .rgb565, .bgra => bytes16 (Buffer.bgr565 colour)
  | .rgb8, .argb => Buffer.rgb8 colour
  | .rgb8, .bgra => Buffer.bgr8 colour
  | .rgba8, .argb => bytes32 (Buffer.rgba8 colour)
  | .rgba8, .bgra => bytes32 (Buffer.bgra8 colour)

/-- A `U16` of two bytes, made wider. -/
def word16 (bytes : ℕ → BitVec 8) : BitVec 32 :=
  ((bytes 0).setWidth 16 ||| (bytes 1).setWidth 16 <<< 8).setWidth 32

/-- The colour of the bytes of a pixel. -/
def decode (format : BufferFormat) (order : BufferFormatOrder) (bytes : ℕ → BitVec 8) : BitVec 32 :=
  match format, order with
  | .grey8, _ => (bytes 0).setWidth 32 <<< 16 ||| (bytes 0).setWidth 32 <<< 8
      ||| (bytes 0).setWidth 32
  | .rgb565, .argb => 0#32 ||| ((word16 bytes >>> 11) &&& 0x1f) <<< 3 <<< 16
      ||| ((word16 bytes >>> 5) &&& 0x3f) <<< 2 <<< 8 ||| ((word16 bytes >>> 0) &&& 0x1f) <<< 3 <<< 0
  | .rgb565, .bgra => 0#32 ||| ((word16 bytes >>> 0) &&& 0x1f) <<< 3 <<< 16
      ||| ((word16 bytes >>> 5) &&& 0x3f) <<< 2 <<< 8 ||| ((word16 bytes >>> 11) &&& 0x1f) <<< 3 <<< 0
  | .rgb8, .argb => 0#32 ||| (bytes 0).setWidth 32 <<< 16 ||| (bytes 1).setWidth 32 <<< 8
      ||| (bytes 2).setWidth 32 <<< 0
  | .rgb8, .bgra => 0#32 ||| (bytes 2).setWidth 32 <<< 16 ||| (bytes 1).setWidth 32 <<< 8
      ||| (bytes 0).setWidth 32 <<< 0
  | .rgba8, .argb => 0#32 ||| (bytes 0).setWidth 32 <<< 16 ||| (bytes 1).setWidth 32 <<< 8
      ||| (bytes 2).setWidth 32 <<< 0 ||| (bytes 3).setWidth 32 <<< 24
  | .rgba8, .bgra => 0#32 ||| (bytes 2).setWidth 32 <<< 16 ||| (bytes 1).setWidth 32 <<< 8
      ||| (bytes 0).setWidth 32 <<< 0 ||| (bytes 3).setWidth 32 <<< 24

/-- **What a format keeps of a colour**: the mean of its channels, the five
or six upper bits of each, all but the alpha, or all of it. -/
def reduce (format : BufferFormat) (colour : BitVec 32) : BitVec 32 :=
  match format with
  | .grey8 =>
    let mean := BitVec.ofNat 32 ((((colour >>> 16) &&& 0xff).toNat + ((colour >>> 8) &&& 0xff).toNat
      + (colour &&& 0xff).toNat) / 3)
    mean <<< 16 ||| mean <<< 8 ||| mean
  | .rgb565 => colour &&& 0xf8fcf8
  | .rgb8 => colour &&& 0xffffff
  | .rgba8 => colour

variable (colour : BitVec 32) (bytes : ℕ → BitVec 8)

/-! ## Channels -/

theorem toNat_setWidth_byte32 (byte : BitVec 8) : (byte.setWidth 32).toNat = byte.toNat := by
  have hlt : byte.toNat < 2 ^ 8 := byte.isLt
  rw [BitVec.toNat_setWidth, Nat.mod_eq_of_lt (by omega)]

/-- A byte with room above it. -/
theorem toNat_byte_shiftLeft (byte : BitVec 8) {k : ℕ} (hk : 8 + k ≤ 32) :
    (byte.setWidth 32 <<< k).toNat = byte.toNat * 2 ^ k := by
  have hlt : (byte.setWidth 32).toNat < 2 ^ 8 := by
    rw [toNat_setWidth_byte32]
    exact byte.isLt
  rw [toNat_shiftLeft_of_lt hlt hk, toNat_setWidth_byte32]

/-- **Three bytes put together**, as those of every format are, -/
theorem toNat_threeBytes (red green blue : BitVec 8) :
    (0#32 ||| red.setWidth 32 <<< 16 ||| green.setWidth 32 <<< 8 ||| blue.setWidth 32 <<< 0).toNat
      = red.toNat * 2 ^ 16 + green.toNat * 2 ^ 8 + blue.toNat := by
  have hred := toNat_byte_shiftLeft red (k := 16) (by decide)
  have hgreen := toNat_byte_shiftLeft green (k := 8) (by decide)
  have hblue := toNat_byte_shiftLeft blue (k := 0) (by decide)
  have hblt := blue.isLt
  have hglt := green.isLt
  have hupper : (red.setWidth 32 <<< 16 ||| green.setWidth 32 <<< 8).toNat
      = red.toNat * 2 ^ 16 + green.toNat * 2 ^ 8 := by
    rw [BitVec.or_comm, toNat_or_of_dvd (k := 16) (by omega) (by omega), hred, hgreen]
    exact Nat.add_comm _ _
  rw [BitVec.zero_or, BitVec.or_comm _ (blue.setWidth 32 <<< 0),
    toNat_or_of_dvd (k := 8) (by omega) (by omega), hupper, hblue]
  omega

/-- and a fourth. -/
theorem toNat_fourBytes (red green blue alpha : BitVec 8) :
    (0#32 ||| red.setWidth 32 <<< 16 ||| green.setWidth 32 <<< 8 ||| blue.setWidth 32 <<< 0
        ||| alpha.setWidth 32 <<< 24).toNat
      = red.toNat * 2 ^ 16 + green.toNat * 2 ^ 8 + blue.toNat + alpha.toNat * 2 ^ 24 := by
  have hthree := toNat_threeBytes red green blue
  have halpha := toNat_byte_shiftLeft alpha (k := 24) (by decide)
  have hrlt := red.isLt
  have hglt := green.isLt
  have hblt := blue.isLt
  rw [toNat_or_of_dvd (k := 24) (by omega) (by omega), hthree, halpha]

/-- A channel is masked where it stands. -/
theorem channels_mean :
    (colour &&& 0x0000ff) >>> 0 = colour &&& 0xff ∧
      (colour &&& 0x00ff00) >>> 8 = (colour >>> 8) &&& 0xff ∧
      (colour &&& 0xff0000) >>> 16 = (colour >>> 16) &&& 0xff :=
  ⟨rfl, BitVec.ushiftRight_and_distrib _ _ _, BitVec.ushiftRight_and_distrib _ _ _⟩

/-- The channels as numbers. -/
theorem toNat_channels :
    ((colour &&& 0x0000ff) >>> 0).toNat = colour.toNat % 2 ^ 8 ∧
      ((colour &&& 0x00ff00) >>> 8).toNat = colour.toNat / 2 ^ 8 % 2 ^ 8 ∧
      ((colour &&& 0xff0000) >>> 16).toNat = colour.toNat / 2 ^ 16 % 2 ^ 8 := by
  obtain ⟨hblue, hgreen, hred⟩ := channels_mean colour
  rw [hblue, hgreen, hred]
  refine ⟨?_, toNat_ushiftRight_and (n := 8) colour 8 (by decide),
    toNat_ushiftRight_and (n := 8) colour 16 (by decide)⟩
  rw [← Nat.div_one colour.toNat]
  exact toNat_ushiftRight_and (n := 8) colour 0 (by decide)

/-- A channel is a byte. -/
theorem toNat_channelBytes :
    (((colour &&& 0x0000ff) >>> 0).setWidth 8).toNat = colour.toNat % 2 ^ 8 ∧
      (((colour &&& 0x00ff00) >>> 8).setWidth 8).toNat = colour.toNat / 2 ^ 8 % 2 ^ 8 ∧
      (((colour &&& 0xff0000) >>> 16).setWidth 8).toNat = colour.toNat / 2 ^ 16 % 2 ^ 8 := by
  obtain ⟨hblue, hgreen, hred⟩ := toNat_channels colour
  rw [BitVec.toNat_setWidth, BitVec.toNat_setWidth, BitVec.toNat_setWidth, hblue, hgreen, hred,
    Nat.mod_mod, Nat.mod_mod, Nat.mod_mod]
  exact ⟨rfl, rfl, rfl⟩

/-! ## Grey -/

/-- A channel is less than a byte holds. -/
theorem channel_lt : (colour &&& 0xff).toNat < 256 := by
  obtain ⟨hblue, -, -⟩ := toNat_channels colour
  rw [(channels_mean colour).1] at hblue
  omega

theorem grey8_eq : (Buffer.grey8 colour).setWidth 32
    = BitVec.ofNat 32 ((((colour >>> 16) &&& 0xff).toNat + ((colour >>> 8) &&& 0xff).toNat
      + (colour &&& 0xff).toNat) / 3) := by
  obtain ⟨hblue, hgreen, hred⟩ := channels_mean colour
  have hlt := channel_lt colour
  have hlt' := channel_lt (colour >>> 8)
  have hlt'' := channel_lt (colour >>> 16)
  refine BitVec.eq_of_toNat_eq ?_
  rw [Buffer.grey8, hblue, hgreen, hred, BitVec.toNat_setWidth, BitVec.toNat_ofNat,
    BitVec.toNat_ofNat]
  omega

/-- The mean of one value three times is it. -/
theorem grey8_decode (value : BitVec 8) :
    Buffer.grey8 (value.setWidth 32 <<< 16 ||| value.setWidth 32 <<< 8 ||| value.setWidth 32)
      = value := by
  have hgrey := toNat_threeBytes value value value
  rw [BitVec.zero_or, BitVec.shiftLeft_zero] at hgrey
  generalize value.setWidth 32 <<< 16 ||| value.setWidth 32 <<< 8 ||| value.setWidth 32 = grey
    at hgrey
  obtain ⟨hblue, hgreen, hred⟩ := toNat_channels grey
  have hlt := value.isLt
  have hblue' : ((grey &&& 0x0000ff) >>> 0).toNat = value.toNat := by omega
  have hgreen' : ((grey &&& 0x00ff00) >>> 8).toNat = value.toNat := by omega
  have hupper : grey.toNat / 2 ^ 16 = value.toNat := Nat.div_eq_of_lt_le (by omega) (by omega)
  have hred' : ((grey &&& 0xff0000) >>> 16).toNat = value.toNat := by omega
  refine BitVec.eq_of_toNat_eq ?_
  rw [Buffer.grey8, hblue', hgreen', hred', BitVec.toNat_ofNat]
  omega

/-! ## Five bits and six -/

theorem toNat_word16 :
    (word16 bytes).toNat = (bytes 0).toNat + (bytes 1).toNat * 2 ^ 8 := by
  have hlow : ((bytes 0).setWidth 16).toNat = (bytes 0).toNat := by
    have hlt : (bytes 0).toNat < 2 ^ 8 := (bytes 0).isLt
    rw [BitVec.toNat_setWidth, Nat.mod_eq_of_lt (by omega)]
  have hhigh : ((bytes 1).setWidth 16 <<< 8).toNat = (bytes 1).toNat * 2 ^ 8 := by
    have hlt : (bytes 1).toNat < 2 ^ 8 := (bytes 1).isLt
    have hwide : ((bytes 1).setWidth 16).toNat = (bytes 1).toNat := by
      rw [BitVec.toNat_setWidth, Nat.mod_eq_of_lt (by omega)]
    rw [toNat_shiftLeft_of_lt (n := 8) (by omega) (by decide), hwide]
  have hlt : (bytes 0).toNat < 2 ^ 8 := (bytes 0).isLt
  have hlt' : (bytes 1).toNat < 2 ^ 8 := (bytes 1).isLt
  rw [word16, BitVec.toNat_setWidth, toNat_or_of_dvd (k := 8) (by omega) (by omega), hlow, hhigh]
  omega

/-- Two bytes are a `U16`. -/
theorem word16_bytes16 (value : BitVec 16) :
    word16 (fun k => (bytes16 value).getD k 0) = value.setWidth 32 := by
  have hlow : (value.setWidth 8).toNat = value.toNat % 2 ^ 8 := BitVec.toNat_setWidth 8 value
  have hhigh := toNat_setWidth_ushiftRight value 8 8
  have hlt := value.isLt
  refine BitVec.eq_of_toNat_eq ((toNat_word16 _).trans ?_)
  change (value.setWidth 8).toNat + ((value >>> 8).setWidth 8).toNat * 2 ^ 8 = _
  rw [hlow, hhigh, BitVec.toNat_setWidth]
  omega

theorem bytes16_word16 : bytes16 ((word16 bytes).setWidth 16) = [bytes 0, bytes 1] := by
  have hword := toNat_word16 bytes
  have hlt : (bytes 0).toNat < 2 ^ 8 := (bytes 0).isLt
  have hlt' : (bytes 1).toNat < 2 ^ 8 := (bytes 1).isLt
  have hnarrow : ((word16 bytes).setWidth 16).toNat = (word16 bytes).toNat := by
    rw [BitVec.toNat_setWidth, Nat.mod_eq_of_lt (by omega)]
  have hlow : ((word16 bytes).setWidth 16).setWidth 8 = bytes 0 := by
    refine BitVec.eq_of_toNat_eq ?_
    rw [BitVec.toNat_setWidth, hnarrow]
    omega
  have hhigh : ((word16 bytes).setWidth 16 >>> 8).setWidth 8 = bytes 1 := by
    refine BitVec.eq_of_toNat_eq ?_
    rw [toNat_setWidth_ushiftRight, hnarrow]
    omega
  rw [bytes16, hlow, hhigh]

/-- **The fields of a pixel put together**, from the lowest up. -/
theorem toNat_fields {low mid high : BitVec 32} (hlow : low.toNat < 2 ^ 5)
    (hmid : mid.toNat < 2 ^ 6) (hhigh : high.toNat < 2 ^ 5) :
    ((0#32 ||| low <<< 0 ||| mid <<< 5 ||| high <<< 11).setWidth 16).toNat
      = low.toNat + mid.toNat * 2 ^ 5 + high.toNat * 2 ^ 11 := by
  have hmid' := toNat_shiftLeft_of_lt (k := 5) hmid (by decide)
  have hhigh' := toNat_shiftLeft_of_lt (k := 11) hhigh (by decide)
  have htwo : (low ||| mid <<< 5).toNat = low.toNat + mid.toNat * 2 ^ 5 := by
    rw [toNat_or_of_dvd hlow (by omega), hmid']
  rw [BitVec.zero_or, BitVec.shiftLeft_zero, BitVec.toNat_setWidth,
    toNat_or_of_dvd (k := 11) (by omega) (by omega), htwo, hhigh']
  omega

/-- The fields of a colour: the upper bits of each channel. -/
theorem toNat_channelFields :
    ((colour &&& 0x0000ff) >>> 0 >>> 3).toNat = colour.toNat / 2 ^ 0 / 2 ^ 3 % 2 ^ 5 ∧
      ((colour &&& 0x00ff00) >>> 8 >>> 2).toNat = colour.toNat / 2 ^ 8 / 2 ^ 2 % 2 ^ 6 ∧
      ((colour &&& 0xff0000) >>> 16 >>> 3).toNat = colour.toNat / 2 ^ 16 / 2 ^ 3 % 2 ^ 5 := by
  obtain ⟨hblue, hgreen, hred⟩ := toNat_channels colour
  have hshift (x : BitVec 32) (k : ℕ) : (x >>> k).toNat = x.toNat / 2 ^ k := by
    rw [BitVec.toNat_ushiftRight, Nat.shiftRight_eq_div_pow]
  rw [hshift _ 3, hshift _ 2, hshift _ 3, hblue, hgreen, hred]
  refine ⟨?_, ?_, ?_⟩
  · omega
  · omega
  · omega

theorem or_reverse (a b c : BitVec 32) : 0#32 ||| a ||| b ||| c = 0#32 ||| c ||| b ||| a := by
  rw [BitVec.zero_or, BitVec.zero_or, BitVec.or_comm (a ||| b), BitVec.or_comm a, BitVec.or_assoc]

/-- The value that is stored, as a number, -/
theorem toNat_rgb565 : (Buffer.rgb565 colour).toNat = colour.toNat / 2 ^ 0 / 2 ^ 3 % 2 ^ 5
    + colour.toNat / 2 ^ 8 / 2 ^ 2 % 2 ^ 6 * 2 ^ 5
    + colour.toNat / 2 ^ 16 / 2 ^ 3 % 2 ^ 5 * 2 ^ 11 := by
  obtain ⟨hblue, hgreen, hred⟩ := toNat_channelFields colour
  rw [Buffer.rgb565, toNat_fields (by omega) (by omega) (by omega), hblue, hgreen, hred]

/-- and in the other order. -/
theorem toNat_bgr565 : (Buffer.bgr565 colour).toNat = colour.toNat / 2 ^ 16 / 2 ^ 3 % 2 ^ 5
    + colour.toNat / 2 ^ 8 / 2 ^ 2 % 2 ^ 6 * 2 ^ 5
    + colour.toNat / 2 ^ 0 / 2 ^ 3 % 2 ^ 5 * 2 ^ 11 := by
  obtain ⟨hblue, hgreen, hred⟩ := toNat_channelFields colour
  rw [Buffer.bgr565, or_reverse, toNat_fields (by omega) (by omega) (by omega), hblue, hgreen, hred]

/-- The fields of a value are what it was put together of. -/
theorem div_fields {value low mid high : ℕ} (hlow : low < 2 ^ 5) (hmid : mid < 2 ^ 6)
    (hhigh : high < 2 ^ 5) (h : value = low + mid * 2 ^ 5 + high * 2 ^ 11) :
    value / 2 ^ 0 % 2 ^ 5 = low ∧ value / 2 ^ 5 % 2 ^ 6 = mid ∧ value / 2 ^ 11 % 2 ^ 5 = high := by
  have hupper : value / 2 ^ 11 = high := Nat.div_eq_of_lt_le (by omega) (by omega)
  have hmiddle : value / 2 ^ 5 = mid + high * 2 ^ 6 := Nat.div_eq_of_lt_le (by omega) (by omega)
  rw [hupper, hmiddle]
  omega

/-- **The colour of three fields.** -/
theorem toNat_colourFields {red green blue : BitVec 32} (hred : red.toNat < 2 ^ 5)
    (hgreen : green.toNat < 2 ^ 6) (hblue : blue.toNat < 2 ^ 5) :
    (0#32 ||| red <<< 3 <<< 16 ||| green <<< 2 <<< 8 ||| blue <<< 3 <<< 0).toNat
      = red.toNat * 2 ^ 19 + green.toNat * 2 ^ 10 + blue.toNat * 2 ^ 3 := by
  have hred' : (red <<< 3 <<< 16).toNat = red.toNat * 2 ^ 19 := by
    rw [← BitVec.shiftLeft_add]
    exact toNat_shiftLeft_of_lt hred (by decide)
  have hgreen' : (green <<< 2 <<< 8).toNat = green.toNat * 2 ^ 10 := by
    rw [← BitVec.shiftLeft_add]
    exact toNat_shiftLeft_of_lt hgreen (by decide)
  have hblue' : (blue <<< 3 <<< 0).toNat = blue.toNat * 2 ^ 3 := by
    rw [← BitVec.shiftLeft_add]
    exact toNat_shiftLeft_of_lt hblue (by decide)
  have hupper : (red <<< 3 <<< 16 ||| green <<< 2 <<< 8).toNat
      = red.toNat * 2 ^ 19 + green.toNat * 2 ^ 10 := by
    rw [BitVec.or_comm, toNat_or_of_dvd (k := 19) (by omega) (by omega), hred', hgreen']
    exact Nat.add_comm _ _
  rw [BitVec.zero_or, BitVec.or_comm _ (blue <<< 3 <<< 0),
    toNat_or_of_dvd (k := 10) (by omega) (by omega), hupper, hblue']
  omega

/-- What is kept of a colour is its fields. -/
theorem and_fields : colour &&& 0xf8fcf8#32
    = 0#32 ||| ((colour >>> 16 >>> 3) &&& 0x1f#32) <<< 3 <<< 16
      ||| ((colour >>> 8 >>> 2) &&& 0x3f#32) <<< 2 <<< 8
      ||| ((colour >>> 0 >>> 3) &&& 0x1f#32) <<< 3 <<< 0 := by
  have hmask : 0xf8fcf8#32 = 0#32 ||| 0x1f#32 <<< 3 <<< 16 ||| 0x3f#32 <<< 2 <<< 8
      ||| 0x1f#32 <<< 3 <<< 0 := rfl
  rw [hmask, BitVec.and_or_distrib_left, BitVec.and_or_distrib_left, BitVec.and_or_distrib_left,
    and_shiftLeft, and_shiftLeft (colour >>> 16), and_shiftLeft, and_shiftLeft (colour >>> 8),
    and_shiftLeft, and_shiftLeft (colour >>> 0), BitVec.and_zero]

/-- **A field that is read** is that of the colour, where the bits agree. -/
theorem field_eq {word : BitVec 32} {k j l n : ℕ} {mask : BitVec 32} (hn : n ≤ 32)
    (hmask : mask = BitVec.ofNat 32 (2 ^ n - 1))
    (h : word.toNat / 2 ^ k % 2 ^ n = colour.toNat / 2 ^ j / 2 ^ l % 2 ^ n) :
    (word >>> k) &&& mask = (colour >>> j >>> l) &&& mask := by
  subst hmask
  refine BitVec.eq_of_toNat_eq ?_
  rw [toNat_ushiftRight_and word k hn, toNat_ushiftRight_and _ l hn, h, BitVec.toNat_ushiftRight,
    Nat.shiftRight_eq_div_pow]

theorem decode_rgb565 :
    decode .rgb565 .argb (fun k => (bytes16 (Buffer.rgb565 colour)).getD k 0)
      = colour &&& 0xf8fcf8 := by
  have hword : ((Buffer.rgb565 colour).setWidth 32).toNat = _ :=
    (BitVec.toNat_setWidth_of_le (by decide)).trans (toNat_rgb565 colour)
  obtain ⟨hlow, hmid, hhigh⟩ := div_fields (by omega) (by omega) (by omega) hword
  have hblue : (Buffer.rgb565 colour).setWidth 32 >>> 0 &&& 0x1f = _ :=
    field_eq colour (by decide) rfl hlow
  have hgreen : (Buffer.rgb565 colour).setWidth 32 >>> 5 &&& 0x3f = _ :=
    field_eq colour (by decide) rfl hmid
  have hred : (Buffer.rgb565 colour).setWidth 32 >>> 11 &&& 0x1f = _ :=
    field_eq colour (by decide) rfl hhigh
  rw [decode, word16_bytes16, hblue, hgreen, hred]
  exact (and_fields colour).symm

theorem decode_bgr565 :
    decode .rgb565 .bgra (fun k => (bytes16 (Buffer.bgr565 colour)).getD k 0)
      = colour &&& 0xf8fcf8 := by
  have hword : ((Buffer.bgr565 colour).setWidth 32).toNat = _ :=
    (BitVec.toNat_setWidth_of_le (by decide)).trans (toNat_bgr565 colour)
  obtain ⟨hlow, hmid, hhigh⟩ := div_fields (by omega) (by omega) (by omega) hword
  have hred : (Buffer.bgr565 colour).setWidth 32 >>> 0 &&& 0x1f = _ :=
    field_eq colour (by decide) rfl hlow
  have hgreen : (Buffer.bgr565 colour).setWidth 32 >>> 5 &&& 0x3f = _ :=
    field_eq colour (by decide) rfl hmid
  have hblue : (Buffer.bgr565 colour).setWidth 32 >>> 11 &&& 0x1f = _ :=
    field_eq colour (by decide) rfl hhigh
  rw [decode, word16_bytes16, hblue, hgreen, hred]
  exact (and_fields colour).symm

/-- The fields of the colour that is read, up to the rounding of each. -/
theorem div_colourFields {value red green blue : ℕ} (hred : red < 2 ^ 5) (hgreen : green < 2 ^ 6)
    (hblue : blue < 2 ^ 5) (h : value = red * 2 ^ 19 + green * 2 ^ 10 + blue * 2 ^ 3) :
    value / 2 ^ 16 / 2 ^ 3 % 2 ^ 5 = red ∧ value / 2 ^ 8 / 2 ^ 2 % 2 ^ 6 = green ∧
      value / 2 ^ 0 / 2 ^ 3 % 2 ^ 5 = blue := by
  have hupper : value / 2 ^ 16 / 2 ^ 3 = red := by
    rw [Nat.div_div_eq_div_mul]
    exact Nat.div_eq_of_lt_le (by omega) (by omega)
  have hmiddle : value / 2 ^ 8 / 2 ^ 2 = green + red * 2 ^ 9 := by
    rw [Nat.div_div_eq_div_mul]
    exact Nat.div_eq_of_lt_le (by omega) (by omega)
  have hlower : value / 2 ^ 0 / 2 ^ 3 = blue + green * 2 ^ 7 + red * 2 ^ 16 := by
    rw [Nat.div_div_eq_div_mul]
    exact Nat.div_eq_of_lt_le (by omega) (by omega)
  rw [hupper, hmiddle, hlower]
  omega

/-- A value is the sum of its fields. -/
theorem sum_fields (value : ℕ) : value / 2 ^ 0 % 2 ^ 5 + value / 2 ^ 5 % 2 ^ 6 * 2 ^ 5
    + value / 2 ^ 11 % 2 ^ 5 * 2 ^ 11 = value % 2 ^ 16 := by
  omega

/-- A field of a word is masked out. -/
theorem toNat_masked (word : BitVec 32) (k : ℕ) :
    (word >>> k &&& 0x1f).toNat = word.toNat / 2 ^ k % 2 ^ 5 ∧
      (word >>> k &&& 0x3f).toNat = word.toNat / 2 ^ k % 2 ^ 6 :=
  ⟨toNat_ushiftRight_and (n := 5) word k (by decide),
    toNat_ushiftRight_and (n := 6) word k (by decide)⟩

theorem rgb565_decode : Buffer.rgb565 (decode .rgb565 .argb bytes) = (word16 bytes).setWidth 16 := by
  have hred := (toNat_masked (word16 bytes) 11).1
  have hgreen := (toNat_masked (word16 bytes) 5).2
  have hblue := (toNat_masked (word16 bytes) 0).1
  have hcolour : (decode .rgb565 .argb bytes).toNat = _ :=
    toNat_colourFields (by omega) (by omega) (by omega)
  obtain ⟨hred', hgreen', hblue'⟩ := div_colourFields (by omega) (by omega) (by omega) hcolour
  refine BitVec.eq_of_toNat_eq ?_
  rw [toNat_rgb565, hred', hgreen', hblue', hred, hgreen, hblue, sum_fields,
    BitVec.toNat_setWidth]

theorem bgr565_decode : Buffer.bgr565 (decode .rgb565 .bgra bytes) = (word16 bytes).setWidth 16 := by
  have hred := (toNat_masked (word16 bytes) 0).1
  have hgreen := (toNat_masked (word16 bytes) 5).2
  have hblue := (toNat_masked (word16 bytes) 11).1
  have hcolour : (decode .rgb565 .bgra bytes).toNat = _ :=
    toNat_colourFields (by omega) (by omega) (by omega)
  obtain ⟨hred', hgreen', hblue'⟩ := div_colourFields (by omega) (by omega) (by omega) hcolour
  refine BitVec.eq_of_toNat_eq ?_
  rw [toNat_bgr565, hred', hgreen', hblue', hred, hgreen, hblue, sum_fields,
    BitVec.toNat_setWidth]

/-! ## Bytes -/

/-- A value of three bytes is their sum. -/
theorem sum_bytes (value : ℕ) : value / 2 ^ 16 % 2 ^ 8 * 2 ^ 16 + value / 2 ^ 8 % 2 ^ 8 * 2 ^ 8
    + value % 2 ^ 8 = value % 2 ^ 24 := by
  omega

/-- The three lower bytes of a colour. -/
theorem toNat_and_bytes : (colour &&& 0xffffff).toNat = colour.toNat % 2 ^ 24 :=
  (BitVec.toNat_and _ _).trans (Nat.and_two_pow_sub_one_eq_mod colour.toNat 24)

theorem decode_rgb8 :
    decode .rgb8 .argb (fun k => (Buffer.rgb8 colour).getD k 0) = colour &&& 0xffffff := by
  obtain ⟨hblue, hgreen, hred⟩ := toNat_channelBytes colour
  refine BitVec.eq_of_toNat_eq ((toNat_threeBytes _ _ _).trans ?_)
  rw [toNat_and_bytes, ← sum_bytes, ← hred, ← hgreen, ← hblue]
  rfl

theorem decode_bgr8 :
    decode .rgb8 .bgra (fun k => (Buffer.bgr8 colour).getD k 0) = colour &&& 0xffffff := by
  obtain ⟨hblue, hgreen, hred⟩ := toNat_channelBytes colour
  refine BitVec.eq_of_toNat_eq ((toNat_threeBytes _ _ _).trans ?_)
  rw [toNat_and_bytes, ← sum_bytes, ← hred, ← hgreen, ← hblue]
  rfl

/-- The bytes of a value that three were put together to. -/
theorem eq_of_threeBytes {value red green blue : ℕ} (hgreen : green < 2 ^ 8) (hblue : blue < 2 ^ 8)
    (hred : red < 2 ^ 8) (h : value = red * 2 ^ 16 + green * 2 ^ 8 + blue) :
    value % 2 ^ 8 = blue ∧ value / 2 ^ 8 % 2 ^ 8 = green ∧ value / 2 ^ 16 % 2 ^ 8 = red := by
  have hupper : value / 2 ^ 16 = red := Nat.div_eq_of_lt_le (by omega) (by omega)
  have hmiddle : value / 2 ^ 8 = green + red * 2 ^ 8 := Nat.div_eq_of_lt_le (by omega) (by omega)
  rw [hupper, hmiddle]
  omega

/-- The channels of a colour that three bytes were put together to are they. -/
theorem channelBytes_eq {red green blue : BitVec 8}
    (h : colour.toNat = red.toNat * 2 ^ 16 + green.toNat * 2 ^ 8 + blue.toNat) :
    ((colour &&& 0x0000ff) >>> 0).setWidth 8 = blue ∧
      ((colour &&& 0x00ff00) >>> 8).setWidth 8 = green ∧
      ((colour &&& 0xff0000) >>> 16).setWidth 8 = red := by
  obtain ⟨hblue, hgreen, hred⟩ := toNat_channelBytes colour
  obtain ⟨hblue', hgreen', hred'⟩ := eq_of_threeBytes green.isLt blue.isLt red.isLt h
  exact ⟨BitVec.eq_of_toNat_eq (hblue.trans hblue'), BitVec.eq_of_toNat_eq (hgreen.trans hgreen'),
    BitVec.eq_of_toNat_eq (hred.trans hred')⟩

theorem rgb8_decode : Buffer.rgb8 (decode .rgb8 .argb bytes) = [bytes 0, bytes 1, bytes 2] := by
  obtain ⟨hblue, hgreen, hred⟩ :=
    channelBytes_eq (decode .rgb8 .argb bytes) (toNat_threeBytes _ _ _)
  rw [Buffer.rgb8, hblue, hgreen, hred]

theorem bgr8_decode : Buffer.bgr8 (decode .rgb8 .bgra bytes) = [bytes 0, bytes 1, bytes 2] := by
  obtain ⟨hblue, hgreen, hred⟩ :=
    channelBytes_eq (decode .rgb8 .bgra bytes) (toNat_threeBytes _ _ _)
  rw [Buffer.bgr8, hblue, hgreen, hred]

/-- The value that `set_bgra8` stores is the colour. -/
theorem bgra8_eq : Buffer.bgra8 colour = colour := by
  have hpart (mask : BitVec 32) (k : ℕ) :
      ((colour &&& mask) >>> k) <<< k = colour &&& (mask &&& BitVec.allOnes 32 <<< k) := by
    rw [BitVec.shiftLeft_ushiftRight, BitVec.and_assoc]
  rw [Buffer.bgra8, hpart, hpart, hpart, hpart, BitVec.zero_or, ← BitVec.and_or_distrib_left,
    ← BitVec.and_or_distrib_left, ← BitVec.and_or_distrib_left]
  exact BitVec.and_allOnes

theorem decode_bgra8 :
    decode .rgba8 .bgra (fun k => (bytes32 (Buffer.bgra8 colour)).getD k 0) = colour := by
  have hbyte (k : ℕ) := toNat_setWidth_ushiftRight colour k 8
  have hlow : (colour.setWidth 8).toNat = colour.toNat % 2 ^ 8 := BitVec.toNat_setWidth 8 colour
  have hlt := colour.isLt
  rw [bgra8_eq]
  refine BitVec.eq_of_toNat_eq ((toNat_fourBytes _ _ _ _).trans ?_)
  change ((colour >>> 16).setWidth 8).toNat * 2 ^ 16 + ((colour >>> 8).setWidth 8).toNat * 2 ^ 8
    + (colour.setWidth 8).toNat + ((colour >>> 24).setWidth 8).toNat * 2 ^ 24 = _
  rw [hbyte, hbyte, hbyte, hlow, sum_bytes]
  omega

theorem bgra8_decode :
    bytes32 (Buffer.bgra8 (decode .rgba8 .bgra bytes)) = [bytes 0, bytes 1, bytes 2, bytes 3] := by
  have hcolour : (decode .rgba8 .bgra bytes).toNat = _ := toNat_fourBytes _ _ _ _
  rw [bgra8_eq]
  generalize decode .rgba8 .bgra bytes = colour at hcolour
  have hblt := (bytes 0).isLt
  have hglt := (bytes 1).isLt
  have hrlt := (bytes 2).isLt
  have halt := (bytes 3).isLt
  have hblue : colour.setWidth 8 = bytes 0 := by
    refine BitVec.eq_of_toNat_eq ?_
    rw [BitVec.toNat_setWidth]
    omega
  have hbyte {byte : BitVec 8} {k : ℕ} (h : colour.toNat / 2 ^ k % 2 ^ 8 = byte.toNat) :
      (colour >>> k).setWidth 8 = byte :=
    BitVec.eq_of_toNat_eq ((toNat_setWidth_ushiftRight colour k 8).trans h)
  have hgreen : colour.toNat / 2 ^ 8
      = (bytes 1).toNat + ((bytes 2).toNat + (bytes 3).toNat * 2 ^ 8) * 2 ^ 8 :=
    Nat.div_eq_of_lt_le (by omega) (by omega)
  have hred : colour.toNat / 2 ^ 16 = (bytes 2).toNat + (bytes 3).toNat * 2 ^ 8 :=
    Nat.div_eq_of_lt_le (by omega) (by omega)
  have halpha : colour.toNat / 2 ^ 24 = (bytes 3).toNat :=
    Nat.div_eq_of_lt_le (by omega) (by omega)
  have hgreen' : (colour >>> 8).setWidth 8 = bytes 1 := hbyte (by rw [hgreen]; omega)
  have hred' : (colour >>> 16).setWidth 8 = bytes 2 := hbyte (by rw [hred]; omega)
  have halpha' : (colour >>> 24).setWidth 8 = bytes 3 := hbyte (by rw [halpha]; omega)
  rw [bytes32, hblue, hgreen', hred', halpha']

/-! ## Every format -/

/-- The order of the bytes is the same for `set` and `get`. -/
def InOrder (format : BufferFormat) (order : BufferFormatOrder) : Prop :=
  ¬(format = .rgba8 ∧ order = .argb)

instance (format : BufferFormat) (order : BufferFormatOrder) : Decidable (InOrder format order) :=
  inferInstanceAs (Decidable (¬_))

variable {format : BufferFormat} {order : BufferFormatOrder}

theorem length_encode : (encode format order colour).length = format.size := by
  cases format <;> cases order <;> rfl

/-- **A colour is read as what its format keeps of it**, -/
theorem decode_encode (h : InOrder format order) :
    decode format order (fun k => (encode format order colour).getD k 0) = reduce format colour := by
  cases format with
  | grey8 =>
    have hgrey := grey8_eq colour
    rw [decode, reduce, encode, ← hgrey]
    rfl
  | rgb565 =>
    cases order with
    | argb => exact decode_rgb565 colour
    | bgra => exact decode_bgr565 colour
  | rgb8 =>
    cases order with
    | argb => exact decode_rgb8 colour
    | bgra => exact decode_bgr8 colour
  | rgba8 =>
    cases order with
    | argb => exact absurd ⟨rfl, rfl⟩ h
    | bgra => exact decode_bgra8 colour

/-- **and what is read of bytes is stored as them.** -/
theorem encode_decode (h : InOrder format order) :
    encode format order (decode format order bytes) = (List.range format.size).map bytes := by
  cases format with
  | grey8 => exact congrArg (fun byte => [byte]) (grey8_decode (bytes 0))
  | rgb565 =>
    cases order with
    | argb => exact (congrArg bytes16 (rgb565_decode bytes)).trans (bytes16_word16 bytes)
    | bgra => exact (congrArg bytes16 (bgr565_decode bytes)).trans (bytes16_word16 bytes)
  | rgb8 =>
    cases order with
    | argb => exact rgb8_decode bytes
    | bgra => exact bgr8_decode bytes
  | rgba8 =>
    cases order with
    | argb => exact absurd ⟨rfl, rfl⟩ h
    | bgra => exact bgra8_decode bytes

end Uberos.Graphics2d
