import Mathlib.Data.Nat.Bits
import Uberos.Stdlib
/-!
# The SMBIOS structure table

The loop of `Smbios::_on_start` and `StructureTable::get_string` of
`drivers/x86/system/Smbios.cpp`. Places are counted from `structTables`,
and what is read is logged. What is printed of a structure is read; the
driver's own texts are left out, but for the one that is missing.
-/

namespace Uberos

open Library Library.Scan

namespace Smbios

/-- Memory, from `structTables` on. -/
abbrev Memory := ℕ → UInt8

/-- The bytes from one place up to another. -/
def Memory.bytes (m : Memory) (start stop : ℕ) : List UInt8 :=
  (List.range (stop - start)).map fun i => m (start + i)

/-- A read of a byte. -/
inductive Read
  | table (place : ℕ)
  /-- Through a null pointer. -/
  | null
  deriving DecidableEq, Repr

/-- A program that reads memory. -/
abbrev Program := Scan Memory Read

/-- A byte. -/
def byte (place : ℕ) : Program UInt8 := .read (· place) (.table place)

/-- A `const char*` into the table. -/
def textAt (place : ℕ) : Stdlib.Text Memory Read := fun i => byte (place + i)

/-- The loop of `get_string`, whose `addr` is at a text. -/
def nthString : (i : ℕ) → (addr : ℕ) → Program (Option ℕ)
  | 0, _ => pure none
  | 1, addr => pure (some addr)
  | i + 2, addr => do
    let length ← Stdlib.strlen (textAt addr)
    nthString (i + 1) (addr + length + 1)

/-- `get_string(i)`; none is the `""` of the driver. -/
def getString (structure_ i : ℕ) : Program (Option ℕ) := do
  let length ← byte (structure_ + 1)
  nthString i (structure_ + length.toNat)

/-- The characters of a text, read up to their null. -/
def showText : Option ℕ → Program (List UInt8)
  | none => pure []
  | some addr => do
    let length ← Stdlib.strlen (textAt addr)
    .ask (·.bytes addr (addr + length))

/-- The characters of `get_string(i)`. -/
def readString (structure_ i : ℕ) : Program (List UInt8) := do
  let text ← getString structure_ i
  showText text

/-- What is read to print a member of a structure. -/
inductive Field
  /-- A byte of the structure. -/
  | byte (offset : ℕ)
  /-- The string whose number is a byte of the structure. -/
  | text (offset : ℕ)
  /-- The text of a value that has none. -/
  | missing
  deriving DecidableEq, Repr

/-- A member that is printed. -/
def readField (structure_ : ℕ) : Field → Program Unit
  | .byte offset => do
    let _ ← byte (structure_ + offset)
    pure ()
  | .text offset => do
    let i ← byte (structure_ + offset)
    let _ ← readString structure_ i.toNat
    pure ()
  | .missing => .read (fun _ => ()) .null

/-- Members one after the other. -/
def readFields (structure_ : ℕ) : List Field → Program Unit
  | [] => pure ()
  | field :: fields => do
    readField structure_ field
    readFields structure_ fields

/-- What the driver keeps: `isaSupported` and `pciSupported`, which are
`Maybe::maybe` at first. -/
structure Supported where
  isa : Option Bool := none
  pci : Option Bool := none
  deriving DecidableEq, Repr

/-- A bit of a byte. -/
def bit (byte : UInt8) (i : ℕ) : Bool := byte.toNat.testBit i

/-- The members of a `SystemInformation`. -/
def systemInformation : List Field :=
  [.text 4, .text 5, .text 6, .text 7] ++ (List.range 16).map (fun i => .byte (8 + i)) ++
    [.byte 24, .text 25, .text 26]

/-- The members of a `ProcessorInformation`. -/
def processorInformation : List Field :=
  [.byte 5, .text 4, .text 7, .text 16, .text 32, .text 33, .text 34, .text 50]

/-- The members of a `FirmwareInformation` before `firmwareCharacteristics`. -/
def firmwareInformation : List Field := [.text 4, .text 5, .text 8]

/-- The text of a `ChassisType`: `chassisTypeString` has one fewer than there
are types, so the last of them has none. -/
def chassisText (type : UInt8) : List Field := if type.toNat % 128 = 36 then [.missing] else []

/-- Where `skuNumber()` reads. -/
def skuOffset (elements length : UInt8) : ℕ := 19 + elements.toNat * length.toNat

/-- The case `firmwareInfo`. -/
def printFirmwareInformation (structure_ : ℕ) (supported : Supported) : Program Supported := do
  readFields structure_ firmwareInformation
  let first ← byte (structure_ + 10)
  -- `characteristicsNotSupported`
  if bit first 3 then pure supported
  else do
    readFields structure_ [.byte 11, .byte 12, .byte 13]
    pure ⟨bit first 4, bit first 7⟩

/-- The case `systemEnclosure`. -/
def printSystemEnclosure (structure_ : ℕ) : Program Unit := do
  readFields structure_ [.text 4]
  let chassis ← byte (structure_ + 5)
  readFields structure_ (chassisText chassis ++ [.text 6, .text 7, .text 8])
  let elements ← byte (structure_ + 17)
  let length ← byte (structure_ + 18)
  readFields structure_ [.text (skuOffset elements length)]

/-- The `switch` over the type of a structure. -/
def printStructure (structure_ : ℕ) (type : UInt8) (supported : Supported) : Program Supported :=
  match type.toNat with
  | 0 => printFirmwareInformation structure_ supported
  | 1 => do
    readFields structure_ systemInformation
    pure supported
  | 3 => do
    printSystemEnclosure structure_
    pure supported
  | 4 => do
    readFields structure_ processorInformation
    pure supported
  | _ => pure supported

/-- A turn of `while(addr[0]!='\0'||addr[1]!='\0') addr++`. -/
def endTurn (addr : ℕ) : Program (ℕ ⊕ ℕ) := do
  let first ← byte addr
  if first ≠ 0 then pure (.inl (addr + 1))
  else do
    let second ← byte (addr + 1)
    if second ≠ 0 then pure (.inl (addr + 1)) else pure (.inr addr)

/-- The structures that the loop has come to, where it is, and what is kept. -/
structure Walk where
  addr : ℕ := 0
  visited : List ℕ := []
  supported : Supported := {}
  deriving DecidableEq, Repr

/-- A turn of the loop of `_on_start` over a table of a length. -/
def walkTurn (structTablesLength : ℕ) (walk : Walk) : Program (Walk ⊕ Walk) :=
  if walk.addr < structTablesLength then do
    let type ← byte walk.addr
    let supported ← printStructure walk.addr type walk.supported
    let length ← byte (walk.addr + 1)
    let stop ← .loop endTurn (walk.addr + length.toNat)
    pure (.inl ⟨stop + 2, walk.visited ++ [walk.addr], supported⟩)
  else pure (.inr walk)

/-- The loop of `_on_start`. -/
def walk (structTablesLength : ℕ) : Program Walk := .loop (walkTurn structTablesLength) {}

end Smbios

end Uberos
