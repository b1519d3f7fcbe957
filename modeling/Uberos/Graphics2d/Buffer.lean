import Mathlib.Data.Nat.Notation
import Uberos.Library.Stores
/-!
# The pixels of a buffer

`common/graphics2d/BufferFormat.hpp` and `common/graphics2d/Buffer.inl`.
-/

namespace Uberos

/-!
## Formats of pixels

`common/graphics2d/BufferFormat.hpp`.
-/

/-- `graphics2d::BufferFormat`. -/
inductive BufferFormat
  | grey8
  | rgb565
  | rgb8
  | rgba8
  deriving DecidableEq, Repr

/-- `bufferFormat::size` -/
def BufferFormat.size : BufferFormat → ℕ
  | grey8 => 1
  | rgb565 => 2
  | rgb8 => 3
  | rgba8 => 4

/-- `graphics2d::BufferFormatOrder`. -/
inductive BufferFormatOrder
  | argb
  | bgra
  deriving DecidableEq, Repr

/-!
## The pixels of a buffer

`set` and `get` of `common/graphics2d/Buffer.inl`, for each format and
order. Offsets are of 32 bits and wrap; what is at an offset of `address`
is by its address.
-/

open Library

namespace Graphics2d

/-- What is in memory, by address. -/
abbrev Memory := ℕ → BitVec 8

namespace Memory

variable (memory : Memory)

/-- What is stored several at once. The loop up to an address that is
aligned does not change what it tests. -/
def fillWide (address words : ℕ) (bytes : List (BitVec 8)) (data length : ℕ) : Option Memory :=
  if address % 16 ≠ 0 then none
  else
    let phatBytes := (List.replicate words bytes).flatten
    let memory := fill memory phatBytes data (length / words)
    some (fill memory bytes (data + length / words * phatBytes.length) (length % words))

/-- A `U16` is read. -/
def read16 (data : ℕ) : BitVec 16 :=
  (memory data).setWidth 16 ||| (memory (data + 1)).setWidth 16 <<< 8

end Memory

/-- The bytes of a `U16`. -/
def bytes16 (value : BitVec 16) : List (BitVec 8) :=
  [value.setWidth 8, (value >>> 8).setWidth 8]

/-- The bytes of a `U32`. -/
def bytes32 (value : BitVec 32) : List (BitVec 8) :=
  [value.setWidth 8, (value >>> 8).setWidth 8, (value >>> 16).setWidth 8, (value >>> 24).setWidth 8]

/-- `Buffer`. -/
structure Buffer where
  format : BufferFormat
  order : BufferFormatOrder
  address : ℕ
  stride : BitVec 32
  width : BitVec 32
  height : BitVec 32
  deriving DecidableEq

namespace Buffer

variable (b : Buffer) (has128Bit : Bool) (memory : Memory) (x y colour length : BitVec 32)

/-- No pixel is there. -/
def Outside : Prop := x ≥ b.width ∨ y ≥ b.height

instance : Decidable (b.Outside x y) := inferInstanceAs (Decidable (_ ∨ _))

/-- The offset of a pixel of a size. -/
def offset (size : BitVec 32) : BitVec 32 := y * b.stride + x * size

/-- A byte at an offset. -/
def byteAt (offset : BitVec 32) : BitVec 8 := memory (b.address + offset.toNat)

/-! ## Setting pixels -/

/-- A run of pixels that a value of a size is stored to. -/
def setRun (size : BitVec 32) (bytes : List (BitVec 8)) : Memory :=
  if b.Outside x y then memory
  else fill memory bytes (b.address + (b.offset x y size).toNat) length.toNat

/-- The value that `set_grey8` stores. -/
def grey8 : BitVec 8 :=
  .ofNat 8 ((0 + ((colour &&& 0x0000ff) >>> 0).toNat + ((colour &&& 0x00ff00) >>> 8).toNat
    + ((colour &&& 0xff0000) >>> 16).toNat) / 3)

def setGrey8 : Memory := b.setRun memory x y length 1 [grey8 colour]

/-- The value that `set_rgb565` stores. -/
def rgb565 : BitVec 16 :=
  (0#32 ||| ((colour &&& 0x0000ff) >>> 0 >>> 3) <<< 0 ||| ((colour &&& 0x00ff00) >>> 8 >>> 2) <<< 5
    ||| ((colour &&& 0xff0000) >>> 16 >>> 3) <<< 11).setWidth 16

def setRgb565 : Memory := b.setRun memory x y length 2 (bytes16 (rgb565 colour))

/-- The value that `set_bgr565` stores. -/
def bgr565 : BitVec 16 :=
  (0#32 ||| ((colour &&& 0x0000ff) >>> 0 >>> 3) <<< 11 ||| ((colour &&& 0x00ff00) >>> 8 >>> 2) <<< 5
    ||| ((colour &&& 0xff0000) >>> 16 >>> 3) <<< 0).setWidth 16

def setBgr565 : Memory := b.setRun memory x y length 2 (bytes16 (bgr565 colour))

/-- The bytes that `set_rgb8` stores. -/
def rgb8 : List (BitVec 8) :=
  [((colour &&& 0xff0000) >>> 16).setWidth 8, ((colour &&& 0x00ff00) >>> 8).setWidth 8,
    ((colour &&& 0x0000ff) >>> 0).setWidth 8]

def setRgb8 : Memory := b.setRun memory x y length 3 (rgb8 colour)

/-- The bytes that `set_bgr8` stores. -/
def bgr8 : List (BitVec 8) :=
  [((colour &&& 0x0000ff) >>> 0).setWidth 8, ((colour &&& 0x00ff00) >>> 8).setWidth 8,
    ((colour &&& 0xff0000) >>> 16).setWidth 8]

def setBgr8 : Memory := b.setRun memory x y length 3 (bgr8 colour)

/-- What `set_rgba8` and `set_bgra8` have in common. The test of the
address compares first: `address & 3==0` is of no bit. -/
def setWord (value : BitVec 32) : Option Memory :=
  let words := if has128Bit then 16 / 4 else 8 / 4
  let data := b.address + (b.offset x y 4).toNat
  if b.Outside x y then some memory
  else if length.toNat ≥ words ∧ b.address &&& (3 == 0).toNat ≠ 0 then
    memory.fillWide b.address words (bytes32 value) data length.toNat
  else some (fill memory (bytes32 value) data length.toNat)

/-- The value that `set_rgba8` stores. -/
def rgba8 : BitVec 32 :=
  0#32 ||| ((colour &&& 0x00ff0000) >>> 16) <<< 16 ||| ((colour &&& 0x0000ff00) >>> 8) <<< 8
    ||| ((colour &&& 0x000000ff) >>> 0) <<< 0 ||| ((colour &&& 0xff000000) >>> 24) <<< 24

def setRgba8 : Option Memory := b.setWord has128Bit memory x y length (rgba8 colour)

/-- The value that `set_bgra8` stores. -/
def bgra8 : BitVec 32 :=
  0#32 ||| ((colour &&& 0x000000ff) >>> 0) <<< 0 ||| ((colour &&& 0x0000ff00) >>> 8) <<< 8
    ||| ((colour &&& 0x00ff0000) >>> 16) <<< 16 ||| ((colour &&& 0xff000000) >>> 24) <<< 24

def setBgra8 : Option Memory := b.setWord has128Bit memory x y length (bgra8 colour)

/-- **`set`.** -/
def set : Option Memory :=
  if b.Outside x y then some memory
  else
    match b.format, b.order with
    | .grey8, _ => some (b.setGrey8 memory x y colour length)
    | .rgb565, .argb => some (b.setRgb565 memory x y colour length)
    | .rgb565, .bgra => some (b.setBgr565 memory x y colour length)
    | .rgb8, .argb => some (b.setRgb8 memory x y colour length)
    | .rgb8, .bgra => some (b.setBgr8 memory x y colour length)
    | .rgba8, .argb => b.setRgba8 has128Bit memory x y colour length
    | .rgba8, .bgra => b.setBgra8 has128Bit memory x y colour length

/-- `set` of an `I32` each. -/
def setSigned : Option Memory :=
  if x.slt 0 ∨ y.slt 0 then some memory else b.set has128Bit memory x y colour length

/-! ## Getting pixels -/

def getGrey8 : BitVec 32 :=
  if b.Outside x y then 0x000000
  else
    let value := (b.byteAt memory (b.offset x y 1)).setWidth 32
    value <<< 16 ||| value <<< 8 ||| value

def getRgb565 : BitVec 32 :=
  if b.Outside x y then 0x000000
  else
    let data := (memory.read16 (b.address + (b.offset x y 2).toNat)).setWidth 32
    0#32 ||| ((data >>> 11) &&& 0x1f) <<< 3 <<< 16 ||| ((data >>> 5) &&& 0x3f) <<< 2 <<< 8
      ||| ((data >>> 0) &&& 0x1f) <<< 3 <<< 0

def getBgr565 : BitVec 32 :=
  if b.Outside x y then 0x000000
  else
    let data := (memory.read16 (b.address + (b.offset x y 2).toNat)).setWidth 32
    0#32 ||| ((data >>> 0) &&& 0x1f) <<< 3 <<< 16 ||| ((data >>> 5) &&& 0x3f) <<< 2 <<< 8
      ||| ((data >>> 11) &&& 0x1f) <<< 3 <<< 0

def getRgb8 : BitVec 32 :=
  if b.Outside x y then 0x000000
  else
    let offset := b.offset x y 3
    0#32 ||| (b.byteAt memory (offset + 0)).setWidth 32 <<< 16
      ||| (b.byteAt memory (offset + 1)).setWidth 32 <<< 8
      ||| (b.byteAt memory (offset + 2)).setWidth 32 <<< 0

def getBgr8 : BitVec 32 :=
  if b.Outside x y then 0x000000
  else
    let offset := b.offset x y 3
    0#32 ||| (b.byteAt memory (offset + 2)).setWidth 32 <<< 16
      ||| (b.byteAt memory (offset + 1)).setWidth 32 <<< 8
      ||| (b.byteAt memory (offset + 0)).setWidth 32 <<< 0

def getRgba8 : BitVec 32 :=
  if b.Outside x y then 0x000000
  else
    let offset := b.offset x y 4
    0#32 ||| (b.byteAt memory (offset + 0)).setWidth 32 <<< 16
      ||| (b.byteAt memory (offset + 1)).setWidth 32 <<< 8
      ||| (b.byteAt memory (offset + 2)).setWidth 32 <<< 0
      ||| (b.byteAt memory (offset + 3)).setWidth 32 <<< 24

def getBgra8 : BitVec 32 :=
  if b.Outside x y then 0x000000
  else
    let offset := b.offset x y 4
    0#32 ||| (b.byteAt memory (offset + 2)).setWidth 32 <<< 16
      ||| (b.byteAt memory (offset + 1)).setWidth 32 <<< 8
      ||| (b.byteAt memory (offset + 0)).setWidth 32 <<< 0
      ||| (b.byteAt memory (offset + 3)).setWidth 32 <<< 24

/-- **`get`.** -/
def get : BitVec 32 :=
  match b.format, b.order with
  | .grey8, _ => b.getGrey8 memory x y
  | .rgb565, .argb => b.getRgb565 memory x y
  | .rgb565, .bgra => b.getBgr565 memory x y
  | .rgb8, .argb => b.getRgb8 memory x y
  | .rgb8, .bgra => b.getBgr8 memory x y
  | .rgba8, .argb => b.getRgba8 memory x y
  | .rgba8, .bgra => b.getBgra8 memory x y

/-- `get` of an `I32` each. -/
def getSigned : BitVec 32 :=
  if x.slt 0 ∨ y.slt 0 then 0x000000 else b.get memory x y

end Buffer

end Graphics2d

end Uberos
