import Mathlib.Algebra.Group.Nat.Defs
import Mathlib.Algebra.Ring.Int.Defs
import Mathlib.Data.List.Nodup
import Mathlib.Data.List.ProdSigma
import Uberos.Graphics2d.Buffer
import Uberos.Graphics2d.Encoding
import Uberos.Graphics2d.Pixels
import Uberos.Stdlib.Memcpy
/-!
# Drawing into a buffer

`draw_rect`, `draw_buffer`, `draw_buffer_blended` and `scroll` of
`common/graphics2d/Buffer.inl`.
-/

namespace Uberos

open Library

namespace Graphics2d

/-!
## Loops over rows and columns

What a counter of 32 bits is set to in turn.
-/

/-- `for(U32 i=from;i<to;i++)` -/
def rowsBetween (start finish : BitVec 32) : List (BitVec 32) :=
  (List.range' start.toNat (finish.toNat - start.toNat)).map (BitVec.ofNat 32)

/-- `for(U32 y=0;y<count;y++)` -/
def rowsUp (count : BitVec 32) : List (BitVec 32) := (List.range count.toNat).map (BitVec.ofNat 32)

/-- `for(U32 y=from;y>last;y--)` -/
def rowsDown (last : BitVec 32) : ℕ → List (BitVec 32)
  | 0 => []
  | y + 1 =>
    if BitVec.ofNat 32 (y + 1) > last then BitVec.ofNat 32 (y + 1) :: rowsDown last y else []

/-! ## What is in a loop -/

theorem mem_rowsBetween {start finish i : BitVec 32} :
    i ∈ rowsBetween start finish ↔ start.toNat ≤ i.toNat ∧ i.toNat < finish.toNat := by
  rw [rowsBetween, List.mem_map]
  have hfinish := finish.isLt
  constructor
  · rintro ⟨n, hn, rfl⟩
    rw [List.mem_range'_1] at hn
    rw [BitVec.toNat_ofNat, Nat.mod_eq_of_lt (by omega)]
    omega
  · intro h
    refine ⟨i.toNat, List.mem_range'_1.mpr (by omega), ?_⟩
    rw [BitVec.ofNat_toNat, BitVec.setWidth_eq]

theorem nodup_rowsBetween (start finish : BitVec 32) : (rowsBetween start finish).Nodup := by
  refine List.Nodup.map_on (fun n hn m hm h => ?_) List.nodup_range'
  have hfinish := finish.isLt
  rw [List.mem_range'_1] at hn hm
  have hnat := congrArg BitVec.toNat h
  rw [BitVec.toNat_ofNat, BitVec.toNat_ofNat, Nat.mod_eq_of_lt (by omega),
    Nat.mod_eq_of_lt (by omega)] at hnat
  exact hnat

theorem mem_rowsUp {count y : BitVec 32} : y ∈ rowsUp count ↔ y.toNat < count.toNat := by
  rw [rowsUp, List.mem_map]
  constructor
  · rintro ⟨n, hn, rfl⟩
    rw [List.mem_range] at hn
    rw [BitVec.toNat_ofNat, Nat.mod_eq_of_lt (Nat.lt_trans hn count.isLt)]
    exact hn
  · intro h
    exact ⟨y.toNat, List.mem_range.mpr h, BitVec.ofNat_toNat 32 y |>.trans (BitVec.setWidth_eq y)⟩

/-- The loop down ends before the last row. -/
theorem mem_rowsDown {last y : BitVec 32} {n : ℕ} (hn : n < 2 ^ 32) (h : y ∈ rowsDown last n) :
    last < y ∧ y.toNat ≤ n := by
  induction n with
  | zero => exact absurd h List.not_mem_nil
  | succ n ih =>
    rw [rowsDown] at h
    split at h
    · next hlast =>
      rcases List.mem_cons.mp h with rfl | hmem
      · have hrow : (BitVec.ofNat 32 (n + 1)).toNat = n + 1 := by
          rw [BitVec.toNat_ofNat, Nat.mod_eq_of_lt hn]
        exact ⟨hlast, Nat.le_of_eq hrow⟩
      · obtain ⟨hlt, hle⟩ := ih (by omega) hmem
        exact ⟨hlt, by omega⟩
    · exact absurd h List.not_mem_nil

/-!
## Rectangles with rounded corners

`draw_rect` of `common/graphics2d/Buffer.inl` and `Buffer.hpp`. A corner is
told by how much it cuts off each row, from the outermost on.
-/

/-- The table of a corner, which ends with `~0u`. -/
structure Corner where
  rows : List (BitVec 32)
  terminated : ∀ row ∈ rows, row ≠ ~~~0
  length_lt : rows.length < 2 ^ 32

namespace Corner

/-- `while(radius[corners]!=~0u) radius++` -/
def radiusFrom : List (BitVec 32) → BitVec 32 → BitVec 32
  | [], radius => radius
  | row :: rows, radius => if row ≠ ~~~0 then radiusFrom rows (radius + 1) else radius

variable (corner : Option Corner) (y : BitVec 32)

/-- The radius of a corner, if there is one. -/
def radius : BitVec 32 :=
  match corner with
  | none => 0
  | some corner => radiusFrom (corner.rows ++ [~~~0]) 0

/-- `corners&&y<radius?corners[y]:0` -/
def cut : BitVec 32 :=
  match corner with
  | none => 0
  | some table => if y < radius corner then (table.rows ++ [~~~0]).getD y.toNat 0 else 0

end Corner

/-- The tables that `draw_rect` takes. -/
structure Corners where
  topLeft : Option Corner
  topRight : Option Corner
  bottomLeft : Option Corner
  bottomRight : Option Corner

/-- `maths::max` of `U32`. -/
def maxU (x y : BitVec 32) : BitVec 32 := if x ≥ y then x else y

/-- `maths::min<I32>` and `min<I32>` -/
def minI (x y : BitVec 32) : BitVec 32 := if x.slt y then x else y

/-- `max` of `I32`. -/
def maxI (x y : BitVec 32) : BitVec 32 := if y.sle x then x else y

namespace Buffer

variable (b : Buffer) (has128Bit : Bool) (memory : Memory)
  (startX startY width height colour : BitVec 32) (corners : Corners) (y : BitVec 32)

/-- `left` of a row. -/
def rowLeft : BitVec 32 :=
  maxU (Corner.cut corners.topLeft y) (Corner.cut corners.bottomLeft (height - 1 - y))

/-- `right` of a row, before it is clipped. -/
def rowRight : BitVec 32 :=
  width - maxU (Corner.cut corners.topRight y) (Corner.cut corners.bottomRight (height - 1 - y))

/-- The run of pixels that is set in a row. -/
def rowRun : Option (BitVec 32 × BitVec 32) :=
  let left := rowLeft height corners y
  let right := minI (startX + rowRight width height corners y) b.width - startX
  if left.slt right then some (startX + left, right - left) else none

/-- `clippedHeight` -/
def clippedHeight : BitVec 32 := maxI 0 (minI (startY + height) b.height - startY)

/-- A row is set. -/
def drawRow : Option Memory :=
  match b.rowRun startX width height corners y with
  | none => some memory
  | some run => b.set has128Bit memory run.1 (startY + y) colour run.2

/-- **`draw_rect`.** -/
def drawRect : Option Memory :=
  (rowsUp (b.clippedHeight startY height)).foldlM
    (fun memory y => b.drawRow has128Bit memory startX startY width height colour corners y) memory

variable (x1 y1 x2 y2 : BitVec 32)

/-- `draw_rect` of a `Rect`. -/
def drawRectOf : Option Memory :=
  b.drawRect has128Bit memory x1 y1 (x2 - x1) (y2 - y1) colour corners

end Buffer

/-!
## Copying an image to a buffer

`draw_buffer` and `draw_buffer_blended` of `common/graphics2d/Buffer.inl`,
over the pixels that their loops visit.
-/

/-- A `U32` is read. -/
def Memory.read32 (memory : Memory) (data : ℕ) : BitVec 32 :=
  (memory data).setWidth 32 ||| (memory (data + 1)).setWidth 32 <<< 8
    ||| (memory (data + 2)).setWidth 32 <<< 16 ||| (memory (data + 3)).setWidth 32 <<< 24

namespace Buffer

variable (b : Buffer) (has128Bit : Bool) (memory : Memory) (x y colour : BitVec 32)

/-- The value that `set_blended` stores over one of `rgba8`. -/
def blended (order : BufferFormatOrder) (data colour : BitVec 32) (opacity : BitVec 8) :
    BitVec 32 :=
  let opacity := opacity.setWidth 32
  let trans := ((255 - (255 - colour >>> 24) * opacity / 255).setWidth 8 : BitVec 8).setWidth 32
  match order with
  | .argb =>
    (trans - (255 - (data &&& 0x000000ff) >>> 24) * trans / 255) <<< 0
      ||| (((colour &&& 0x00ff0000) >>> 16) * opacity / 255
        + ((data &&& 0x0000ff00) >>> 8) * trans / 255) <<< 8
      ||| (((colour &&& 0x0000ff00) >>> 8) * opacity / 255
        + ((data &&& 0x00ff0000) >>> 16) * trans / 255) <<< 16
      ||| (((colour &&& 0x000000ff) >>> 0) * opacity / 255
        + ((data &&& 0xff000000) >>> 24) * trans / 255) <<< 24
  | .bgra =>
    (((colour &&& 0x000000ff) >>> 0) * opacity / 255
        + ((data &&& 0x000000ff) >>> 0) * trans / 255) <<< 0
      ||| (((colour &&& 0x0000ff00) >>> 8) * opacity / 255
        + ((data &&& 0x0000ff00) >>> 8) * trans / 255) <<< 8
      ||| (((colour &&& 0x00ff0000) >>> 16) * opacity / 255
        + ((data &&& 0x00ff0000) >>> 16) * trans / 255) <<< 16
      ||| (trans - (255 - (data &&& 0xff000000) >>> 24) * trans / 255) <<< 24

/-- **`set_blended`.** -/
def setBlended (opacity : BitVec 8) : Option Memory :=
  if b.Outside x y then some memory
  else
    match b.format with
    | .grey8 | .rgb565 | .rgb8 =>
      if colour >>> 24 < 128 then b.set has128Bit memory x y colour 1 else some memory
    | .rgba8 =>
      let data := b.address + (b.offset x y 4).toNat
      some (store memory data (bytes32 (blended b.order (memory.read32 data) colour opacity)))

variable (destX destY sourceX sourceY width height : BitVec 32) (image : Buffer)

/-- Nothing is to be drawn, by the first line. -/
def Skipped : Prop :=
  b.width.sle destX ∨ b.height.sle destY ∨ destX + width = 0 ∨ destY + height = 0

instance : Decidable (b.Skipped destX destY width height) :=
  inferInstanceAs (Decidable (_ ∨ _ ∨ _ ∨ _))

/-- `maths::max((I32)0, -dest)` -/
def startOf (dest : BitVec 32) : BitVec 32 := if (-dest).sle 0 then 0 else -dest

/-- `maths::min(maths::min(count, imageCount-source), count-dest)` -/
def finishOf (count imageCount source dest : BitVec 32) : BitVec 32 :=
  let within := if count ≤ imageCount - source then count else imageCount - source
  if within ≤ count - dest then within else count - dest

/-- The rows and columns that the loops visit. They are of either axis
clipped by `sourceX` and `destX`. -/
def visits : List (BitVec 32 × BitVec 32) :=
  if b.Skipped destX destY width height then []
  else
    (rowsBetween (startOf destX) (finishOf height image.height sourceX destX)).product
      (rowsBetween (startOf destX) (finishOf width image.width sourceX destX))

/-- What the two have in common: a pixel of the image is got and plotted
at each visit. -/
def drawVisits (plot : Memory → BitVec 32 → BitVec 32 → BitVec 32 → Option Memory) :
    Option Memory :=
  (b.visits destX destY sourceX width height image).foldlM
    (fun memory (y, x) => plot memory (destX + x) (destY + y)
      (image.get memory (sourceX + x) (sourceY + y))) memory

/-- **`draw_buffer`.** -/
def drawBuffer : Option Memory :=
  b.drawVisits memory destX destY sourceX sourceY width height image
    fun memory x y colour => b.set has128Bit memory x y colour 1

/-- **`draw_buffer_blended`.** -/
def drawBufferBlended (opacity : BitVec 8) : Option Memory :=
  b.drawVisits memory destX destY sourceX sourceY width height image
    fun memory x y colour => b.setBlended has128Bit memory x y colour opacity

end Buffer

/-!
## Scrolling a buffer

`scroll` of `common/graphics2d/Buffer.inl`, as the calls that it makes.
-/

open Stdlib

/-- What a row is moved by. -/
inductive Mover
  | memmove
  | memcpyBackwardsAligned
  | memcpyForwardsAligned
  | memcpy
  deriving DecidableEq

/-- A call that moves a row. -/
structure Call where
  mover : Mover
  row : BitVec 32
  dest : ℕ
  src : ℕ
  bytes : ℕ
  deriving DecidableEq

/-- What a call does to memory. -/
def Call.run (config : Config) (cells : Cells (BitVec 8)) (call : Call) : Cells (BitVec 8) :=
  match call.mover with
  | .memmove => Stdlib.memmove config cells call.dest call.src call.bytes
  | .memcpyBackwardsAligned => Stdlib.memcpyBackwardsAligned cells call.dest call.src call.bytes
  | .memcpyForwardsAligned => Stdlib.memcpyForwardsAligned config cells call.dest call.src call.bytes
  | .memcpy => Stdlib.memcpy config cells call.dest call.src call.bytes

namespace Buffer

variable (b : Buffer) (config : Config) (scrollX scrollY : BitVec 32)

/-- `maths::abs` -/
def abs (x : BitVec 32) : BitVec 32 := if x.slt 0 then -x else x

/-- The call for a row. -/
def rowCall (mover : Mover) (y source x1 x2 bytes : BitVec 32) : Call :=
  ⟨mover, y, b.address + (y * b.stride + x1).toNat, b.address + (source * b.stride + x2).toNat,
    bytes.toNat⟩

/-- The calls that `scroll` makes. -/
def scrollCalls : List Call :=
  if scrollX = 0 ∧ scrollY = 0 then []
  else if abs scrollX ≥ b.width ∨ abs scrollY ≥ b.height then []
  else
    let bpp := BitVec.ofNat 32 b.format.size
    let x1 := if scrollX.slt 0 then 0 else scrollX * bpp
    let x2 := if scrollX.slt 0 then -scrollX * bpp else 0
    let width := if scrollX.slt 0 then b.stride + scrollX * bpp else b.stride - scrollX * bpp
    if scrollY = 0 then
      if (0 : BitVec 32).slt scrollX then
        let mover := if config.hasUnalignedAccess then .memmove else .memcpyBackwardsAligned
        (rowsUp (b.height + scrollY)).map fun y => b.rowCall mover y y x1 x2 width
      else
        let mover := if config.hasUnalignedAccess then .memmove else .memcpyForwardsAligned
        (rowsUp (b.height + scrollY)).map fun y => b.rowCall mover y y x1 x2 width
    else if (0 : BitVec 32).slt scrollY then
      (rowsDown scrollY (b.height - 1).toNat).map fun y =>
        b.rowCall .memcpy y (y - scrollY) x1 x2 b.stride
    else
      (rowsUp (b.height + scrollY)).map fun y => b.rowCall .memcpy y (y - scrollY) x1 x2 b.stride

/-- **`scroll`.** -/
def scroll (cells : Cells (BitVec 8)) : Cells (BitVec 8) :=
  (b.scrollCalls config scrollX scrollY).foldl (Call.run config) cells

/-! ## What it is for -/

/-- The scroll is less than the buffer. -/
def InRange : Prop :=
  scrollX.toInt.natAbs < b.width.toNat ∧ scrollY.toInt.natAbs < b.height.toNat

instance : Decidable (b.InRange scrollX scrollY) := inferInstanceAs (Decidable (_ ∧ _))

/-- An address is of the padding of a row. -/
def Padding (row : BitVec 32) (a : ℕ) : Prop :=
  row < b.height ∧
    b.address + row.toNat * b.stride.toNat + b.width.toNat * b.format.size ≤ a ∧
    a < b.address + row.toNat * b.stride.toNat + b.stride.toNat

/-- **A scroll moves the pixels**: each whose source is in range holds what
that held, byte by byte; no call writes outside the buffer or to another
row's padding; and one by nothing, or by more than there is, changes
nothing. -/
structure Scrolls : Prop where
  moves : b.InRange scrollX scrollY → ∀ cells x y x' y',
    x < b.width → y < b.height → x' < b.width → y' < b.height →
    (x.toNat : ℤ) = x'.toNat + scrollX.toInt → (y.toNat : ℤ) = y'.toNat + scrollY.toInt →
    ∀ k < b.format.size, b.scroll config scrollX scrollY cells (b.address + b.place x y + k)
      = cells (b.address + b.place x' y' + k)
  writes : b.InRange scrollX scrollY → ∀ call ∈ b.scrollCalls config scrollX scrollY,
    ∀ a, call.dest ≤ a → a < call.dest + call.bytes →
      (b.address ≤ a ∧ a < b.address + b.height.toNat * b.stride.toNat) ∧
        ∀ row, b.Padding row a → row = call.row
  still : (scrollX = 0 ∧ scrollY = 0) ∨ ¬b.InRange scrollX scrollY →
    ∀ cells, b.scroll config scrollX scrollY cells = cells

/-- **A buffer can be scrolled** upwards and sideways, as far as its offsets
do not wrap. -/
def Scrollable : Prop :=
  (scrollX = 0 ∧ scrollY = 0) ∨ ¬b.InRange scrollX scrollY ∨
    (scrollY.toInt ≤ 0 ∧
      (b.height.toNat - 1) * b.stride.toNat + (-scrollX.toInt).toNat * b.format.size < 2 ^ 32 ∧
      (b.height.toNat - 1 - scrollY.toInt.natAbs) * b.stride.toNat
        + scrollX.toInt.toNat * b.format.size < 2 ^ 32)

instance : Decidable (b.Scrollable scrollX scrollY) := inferInstanceAs (Decidable (_ ∨ _ ∨ _))

end Buffer

end Graphics2d

end Uberos
