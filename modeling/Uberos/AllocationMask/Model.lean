import Uberos.Target
import Uberos.Library.Run
import Mathlib.Data.Finset.Basic
/-!
# The page allocation mask

`AllocationMask` of `common/AllocationMask.hpp`: one bit a page, claimed
from the end of the mask while it has one and searched for afterwards,
between two cursors that only claims move up and only releases move
down. The cursors and indices are `UPtr`s of a mask of
`heapSize/pageSize` bits, so no sum of a cursor and a `Reg` of bits
wraps, and they are natural numbers here. The storage is the list of the
bytes the constructor clears, and every shift, mask and complement of a
byte is the source's own.
-/

namespace Uberos

/-- The fields of the mask. `data` is read both as bytes and as `Reg`s. -/
structure AllocationMask where
  data : List (BitVec 8)
  /-- The size in bits. -/
  count : ℕ
  /-- Documented as having no unset bit before it. -/
  earliestFree : ℕ
  /-- Documented as having no set bit from it onwards. -/
  afterLastTaken : ℕ

namespace AllocationMask

/-- The constructor: the count is rounded down to bytes and then to
`Reg`s, and the mask is cleared. -/
def new (T : Target) (_count : ℕ) : AllocationMask :=
  let count := _count / 8 * 8 / (8 * T.wordBytes) * (8 * T.wordBytes)
  { data := List.replicate ((count + 7) / 8) 0
    count := count
    earliestFree := 0
    afterLastTaken := 0 }

/-- `((U8*)data)[byte]`. -/
def byteAt (data : List (BitVec 8)) (byte : ℕ) : BitVec 8 := data.getD byte 0

/-- Whether the bit of `index` is set. -/
def bitAt (data : List (BitVec 8)) (index : ℕ) : Bool := (byteAt data (index / 8)).getLsbD (index % 8)

/-- `((U8*)data)[byte] |= 1<<bit`. -/
def orByte (data : List (BitVec 8)) (byte bit : ℕ) : List (BitVec 8) :=
  data.set byte (byteAt data byte ||| (1#8 <<< bit))

/-- `((U8*)data)[byte] &= ~(1<<shift)`, in `int`s. The shift is by a whole
index: beyond 31 the language leaves it open, and the shift instructions
of x86 and arm64 take the amount modulo 32. -/
def clearByte (data : List (BitVec 8)) (byte shift : ℕ) : List (BitVec 8) :=
  data.set byte (byteAt data byte &&& (~~~(1#32 <<< (shift % 32))).setWidth 8)

/-- `__builtin_ctz`: the position of the lowest set bit. -/
def builtinCtz (x : BitVec 32) : ℕ := ((List.range 32).find? fun i => x.getLsbD i).getD 32

/-- `__builtin_ctz(~((U8*)data)[byte])`; the byte is widened to an `int`
before it is complemented. -/
def openBit (data : List (BitVec 8)) (byte : ℕ) : ℕ := builtinCtz (~~~((byteAt data byte).setWidth 32))

/-- `data[index]`, a `Reg` of little-endian bytes. -/
def reg (T : Target) (data : List (BitVec 8)) (index : ℕ) : ℕ :=
  (List.range T.wordBytes).foldr (fun i acc => (byteAt data (T.wordBytes * index + i)).toNat + 256 * acc) 0

/-- Where a byte loop leaves the cursor. -/
inductive Seek
  | found (earliestFree : ℕ)
  | passed (earliestFree : ℕ)

/-- The two byte loops. `stop` is the first one's guard, which leaves it
at a `Reg` boundary; a full byte moves the cursor on by eight. -/
def seekByte (data : List (BitVec 8)) (count : ℕ) (stop : ℕ → Bool) : ℕ → ℕ → Seek
  | 0, earliestFree => .passed earliestFree
  | fuel + 1, earliestFree =>
    if earliestFree < count ∧ stop earliestFree = false then
      if byteAt data (earliestFree / 8) = 0xff then seekByte data count stop fuel (earliestFree + 8)
      else .found earliestFree
    else .passed earliestFree

/-- The `Reg` loop. It compares with `~0u`, an `unsigned`. -/
def seekReg (T : Target) (data : List (BitVec 8)) (count : ℕ) : ℕ → ℕ → ℕ
  | 0, earliestFree => earliestFree
  | fuel + 1, earliestFree =>
    if earliestFree + 8 * T.wordBytes ≤ count then
      if reg T data (earliestFree / 8 / T.wordBytes) ≠ 0xffffffff then earliestFree
      else seekReg T data count fuel (earliestFree + 8 * T.wordBytes)
    else earliestFree

/-- The search of `claim`: bytes up to a `Reg` boundary, then `Reg`s,
then bytes. No loop takes more than `count` turns. -/
def search (T : Target) (m : AllocationMask) : Seek :=
  match seekByte m.data m.count (fun e => e % (8 * T.wordBytes) == 0) m.count m.earliestFree with
  | .found e => .found e
  | .passed e => seekByte m.data m.count (fun _ => false) m.count (seekReg T m.data m.count m.count e)

/-- Taking the lowest open bit of the byte at the cursor. `& ~0xff`
clears the low eight bits of the cursor. -/
def take (m : AllocationMask) (earliestFree : ℕ) : ℕ × AllocationMask :=
  let bit := openBit m.data (earliestFree / 8)
  let earliestFree' := ((earliestFree / 256 * 256) ||| bit) + 1
  (earliestFree' - 1,
    { m with
      data := orByte m.data (earliestFree / 8) bit
      earliestFree := earliestFree'
      afterLastTaken := max m.afterLastTaken earliestFree' })

/-- `claim()`. -/
def claim (T : Target) (m : AllocationMask) : Except String ℕ × AllocationMask :=
  if m.count ≤ m.earliestFree then (.error "No allocation pages remain", m)
  else if m.afterLastTaken < m.count then
    (.ok m.afterLastTaken,
      { m with
        data := orByte m.data (m.afterLastTaken / 8) (m.afterLastTaken % 8)
        afterLastTaken := m.afterLastTaken + 1 })
  else match search T m with
    | .found e => let (index, m') := take m e; (.ok index, m')
    | .passed e => (.error "No allocation pages remain", { m with earliestFree := e, afterLastTaken := e })

/-- The condition of the roll-back loop as it parses: `==` binds tighter
than `&`, so the byte is masked with the truth value of
`1<<((afterLastTaken-1)%8) == 0`. -/
def rollBackTest (data : List (BitVec 8)) (afterLastTaken : ℕ) : Bool :=
  let mask : BitVec 32 := if (1#32 <<< ((afterLastTaken - 1) % 8)) = 0 then 1 else 0
  ((byteAt data ((afterLastTaken - 1) / 8)).setWidth 32 &&& mask) ≠ 0

/-- The roll-back loop of `release`. -/
def rollBack (data : List (BitVec 8)) (earliestFree : ℕ) : ℕ → ℕ
  | 0 => 0
  | afterLastTaken + 1 =>
    if earliestFree < afterLastTaken + 1 ∧ rollBackTest data (afterLastTaken + 1) = true then
      rollBack data earliestFree afterLastTaken
    else afterLastTaken + 1

/-- `release(index)`. -/
def release (m : AllocationMask) (index : ℕ) : AllocationMask :=
  let data := clearByte m.data (index / 8) index
  let earliestFree := min index m.earliestFree
  { m with
    data := data
    earliestFree := earliestFree
    afterLastTaken :=
      if index + 1 = m.afterLastTaken then rollBack data earliestFree (m.afterLastTaken - 1)
      else m.afterLastTaken }

/-! ## Runs -/

/-- A mask and the indices its user holds: returned by a claim, and not
released since. -/
structure User where
  mask : AllocationMask
  claimed : Finset ℕ

/-- What the user asks of the mask. -/
inductive Op
  | claim
  | release (index : ℕ)
  deriving DecidableEq

/-- A freshly constructed mask, of which nothing is claimed. -/
def User.new (T : Target) (_count : ℕ) : User := ⟨AllocationMask.new T _count, ∅⟩

/-- One operation. -/
def step (T : Target) (u : User) : Op → User
  | .claim =>
    match claim T u.mask with
    | (.ok index, mask) => ⟨mask, insert index u.claimed⟩
    | (.error _, mask) => ⟨mask, u.claimed⟩
  | .release index => ⟨u.mask.release index, u.claimed.erase index⟩

/-- The user releases only what it holds. -/
def Held (u : User) : Op → Prop
  | .claim => True
  | .release index => index ∈ u.claimed

instance (u : User) (op : Op) : Decidable (Held u op) := by
  cases op <;> simp only [Held] <;> infer_instance

end AllocationMask

end Uberos
