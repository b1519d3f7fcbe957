import Uberos.Bitmask.Model
/-!
# The PCI bus

The scan of `drivers/x86/system/Pci.cpp`: the busses, the functions of
their devices and the base address registers of each. A register of the
configuration space takes what is written in the bits that it decodes and
keeps the others. An element of `bar` that is used is noted, and there may
be more behind the six.
-/

namespace Uberos

namespace Pci

/-! ## Configuration space -/

/-- What is addressed: a bus, a device and a function. -/
structure Location where
  bus : BitVec 8
  device : BitVec 8
  function : BitVec 8
  deriving DecidableEq, Repr

/-- Four bytes of the configuration space, and those of their bits that
can be written. -/
structure Register where
  value : BitVec 32
  writable : BitVec 32
  deriving DecidableEq, Repr

/-- A register takes the bits of what is written. -/
def Register.write (register : Register) (value : BitVec 32) : Register :=
  { register with
    value := register.value &&& ~~~register.writable ||| value &&& register.writable }

/-- The lower half of a register takes them. -/
def Register.write16 (register : Register) (value : BitVec 16) : Register :=
  { register with
    value := register.value &&& ~~~(register.writable &&& 0xffff) |||
      value.setWidth 32 &&& (register.writable &&& 0xffff) }

/-- The registers by their offsets. -/
abbrev ConfigSpace := Location → ℕ → Register

namespace ConfigSpace

variable (config : ConfigSpace) (location : Location) (offset : ℕ)

/-- `readConfig32`. -/
def readConfig32 : BitVec 32 := (config location offset).value

/-- `readConfig16`. -/
def readConfig16 : BitVec 16 := (config location offset).value.setWidth 16

/-- What is at an offset is replaced. -/
def set (register : Register) : ConfigSpace :=
  Function.update config location (Function.update (config location) offset register)

/-- `writeConfig32`. -/
def writeConfig32 (value : BitVec 32) : ConfigSpace :=
  config.set location offset ((config location offset).write value)

/-- `writeConfig16`. -/
def writeConfig16 (value : BitVec 16) : ConfigSpace :=
  config.set location offset ((config location offset).write16 value)

/-- `RegisterOffset::command`. -/
def command : ℕ := 0x04

/-- `RegisterOffset::bar0`. -/
def bar0 : ℕ := 0x10

/-- What `enable_io_space` and `enable_memory_space` have in common, by a
bit of the command. -/
def enableSpace (bit : ℕ) (enable : Bool) : ConfigSpace :=
  if enable then
    config.writeConfig16 location command (config.readConfig16 location command ||| 1#16 <<< bit)
  else
    config.writeConfig16 location command
      (config.readConfig16 location command &&& ~~~(1#16 <<< bit))

/-- `enable_io_space`. -/
def enableIoSpace (enable : Bool) : ConfigSpace := config.enableSpace location 0 enable

/-- `enable_memory_space`. -/
def enableMemorySpace (enable : Bool) : ConfigSpace := config.enableSpace location 1 enable

end ConfigSpace

/-! ## Devices -/

/-- `Bar::BarSize`. -/
inductive BarSize
  | _16bit
  | _32bit
  | _64bit
  deriving DecidableEq, Repr

/-- `Bar`. -/
structure Bar where
  size : BarSize
  memoryAddress : BitVec 64
  memorySize : BitVec 64
  ioPort : BitVec 16
  ioSize : BitVec 16
  deriving DecidableEq, Repr

/-- A `Bar` as it is initialised. -/
def Bar.zero : Bar := ⟨._16bit, 0, 0, 0, 0⟩

/-- `PciDevice`. -/
structure PciDevice where
  id : BitVec 32
  fullClass : BitVec 32
  location : Location
  bar : ℕ → Bar
  /-- The elements of `bar` that have been used. -/
  touched : List ℕ

/-- An element of `bar` is written. -/
def PciDevice.setBar (device : PciDevice) (i : ℕ) (bar : Bar) : PciDevice :=
  { device with
    bar := Function.update device.bar i bar
    touched := device.touched ++ [i] }

end Pci

/-- `driver::system::Pci`, with the configuration space that it reads. -/
structure Pci where
  config : Pci.ConfigSpace
  scannedBusses : Bitmask256
  devices : List Pci.PciDevice

namespace Pci

/-! ## Base address registers -/

namespace ConfigSpace

variable (config : ConfigSpace) (location : Location) (i : ℕ)

/-- A base address register. -/
def readBar : BitVec 32 := config.readConfig32 location (bar0 + i * 4)

def writeBar (value : BitVec 32) : ConfigSpace :=
  config.writeConfig32 location (bar0 + i * 4) value

/-- The bar of a register that is an io port's. -/
def sizeIo (bar : Bar) (address : BitVec 32) : ConfigSpace × Bar :=
  let config := config.writeBar location i 0xffffffff
  let ioSize := ~~~((config.readBar location i &&& 0xfffffffc).setWidth 64
    ||| 0xffffffff00000000#64) + 1
  let config := config.writeBar location i address
  (config, { bar with
    memoryAddress := 0
    memorySize := 0
    ioPort := (address &&& 0xfffc).setWidth 16
    ioSize := ioSize.setWidth 16 })

/-- The bar of a memory address, by the bits of its type. -/
def sizeMemory (address : BitVec 32) : ConfigSpace × Bar :=
  match ((address &&& 0b110) >>> 1).toNat with
  | 0b10 =>
    let address2 := config.readBar location (i + 1)
    let config := config.writeBar location i 0xffffffff
    let config := config.writeBar location (i + 1) 0xffffffff
    let memorySize := ~~~((config.readBar location i &&& 0xfffffff0).setWidth 64
      ||| address2.setWidth 64 <<< 32) + 1
    let config := config.writeBar location i address
    let config := config.writeBar location (i + 1) address2
    (config, {
      size := ._64bit
      memoryAddress := (address &&& 0xfffffff0).setWidth 64 ||| address2.setWidth 64 <<< 32
      memorySize
      ioPort := 0
      ioSize := 0 })
  | 0b01 =>
    let config := config.writeBar location i 0xffffffff
    let memorySize := ~~~((config.readBar location i &&& 0xfff0).setWidth 64
      ||| 0xffffffffffff0000#64) + 1
    let config := config.writeBar location i address
    (config, {
      size := ._16bit
      memoryAddress := (address &&& 0xfff0).setWidth 64
      memorySize
      ioPort := 0
      ioSize := 0 })
  | _ =>
    -- `0b00`, and `0b11` as it
    let config := config.writeBar location i 0xffffffff
    let memorySize := ~~~((config.readBar location i &&& 0xfffffff0).setWidth 64
      ||| 0xffffffff00000000#64) + 1
    let config := config.writeBar location i address
    (config, {
      size := ._32bit
      memoryAddress := (address &&& 0xfffffff0).setWidth 64
      memorySize
      ioPort := 0
      ioSize := 0 })

end ConfigSpace

/-- A turn of the loop over `bar`, and the index that it ends with. -/
def scanBar (config : ConfigSpace) (device : PciDevice) (i : ℕ) : ConfigSpace × PciDevice × ℕ :=
  let config := config.enableMemorySpace device.location false
  let config := config.enableIoSpace device.location false
  let address := config.readBar device.location i
  if address &&& 0b1 ≠ 0 then
    let sized := config.sizeIo device.location i (device.bar i) address
    (sized.1, device.setBar i sized.2, i)
  else
    let sized := config.sizeMemory device.location i address
    let device := device.setBar i sized.2
    if sized.2.size = ._64bit then
      -- the next one is cleared, and skipped
      (sized.1, device.setBar (i + 1) { Bar.zero with size := sized.2.size }, i + 1)
    else (sized.1, device, i)

/-- The loop over `bar`. It takes a pass for an element, or for two. -/
def scanBars : ℕ → ConfigSpace → PciDevice → ℕ → ConfigSpace × PciDevice
  | 0, config, device, _ => (config, device)
  | passes + 1, config, device, i =>
    if i < 6 then
      let scanned := scanBar config device i
      scanBars passes scanned.1 scanned.2.1 (scanned.2.2 + 1)
    else (config, device)

/-! ## Functions and busses -/

/-- `Subclass::pciToPciBridge`. -/
def pciToPciBridge : BitVec 16 := 0x0604

/-- What `scan_function` does of a function after a bridge's other bus. -/
def addFunction (s : Pci) (location : Location) (id fullClass : BitVec 32) : Pci :=
  let scanned := scanBars 6 s.config
    { id, fullClass, location, bar := fun _ => .zero, touched := [] } 0
  { s with
    config := scanned.1
    devices := s.devices ++ [scanned.2] }

/-- `scan_function`, by what `scan_bus` does. -/
def scanFunction (scanBus : BitVec 8 → Pci → Option Pci) (location : Location) (s : Pci) :
    Option Pci :=
  let id := s.config.readConfig32 location 0x00
  let vendorId := id.setWidth 16
  if vendorId = 0xffff then some s
  else
    let fullClass := s.config.readConfig32 location 0x08
    let subclass := (fullClass >>> 16).setWidth 16
    let secondaryBus :=
      (s.config.readConfig32 { location with function := 0 } 0x18 >>> 8 &&& 0xff).setWidth 8
    (if subclass = pciToPciBridge ∧ s.scannedBusses.get secondaryBus = false then
      scanBus secondaryBus s else some s).map (·.addFunction location id fullClass)

/-- A turn of the loop of `scan_bus`. -/
def scanDevice (scanBus : BitVec 8 → Pci → Option Pci) (bus device : BitVec 8) (s : Pci) :
    Option Pci :=
  let id := s.config.readConfig32 ⟨bus, device, 0⟩ 0x00
  let vendorId := id.setWidth 16
  if vendorId = 0xffff then some s
  else
    let headerType := s.config.readConfig32 ⟨bus, device, 0⟩ 0x0c >>> 16 &&& 0xff
    let isMultiHost := headerType &&& 0x80
    if isMultiHost ≠ 0 then
      (List.range 8).foldlM
        (fun s function => scanFunction scanBus ⟨bus, device, BitVec.ofNat 8 function⟩ s) s
    else scanFunction scanBus ⟨bus, device, 0⟩ s

/-- **`scan_bus`**, with as many nested calls as there may be. -/
def scanBus : ℕ → BitVec 8 → Pci → Option Pci
  | 0, _, _ => none
  | calls + 1, bus, s =>
    (List.range 32).foldlM (fun s device => scanDevice (scanBus calls) bus (BitVec.ofNat 8 device) s)
      { s with scannedBusses := s.scannedBusses.set bus true }

/-- What is scanned by `_on_start`. -/
def scan (calls : ℕ) (config : ConfigSpace) : Option Pci :=
  let s : Pci := { config, scannedBusses := .empty, devices := [] }
  let baseHeaderType := config.readConfig32 ⟨0, 0, 0⟩ 0x0c
  let isMultiHost := baseHeaderType &&& 0x80
  if isMultiHost ≠ 0 then
    (List.range 8).foldlM (fun s function =>
      let id := s.config.readConfig32 ⟨0, 0, BitVec.ofNat 8 function⟩ 0x00
      let vendorId := id.setWidth 16
      if vendorId = 0xffff then some s
      else if s.scannedBusses.get (BitVec.ofNat 8 function) = false then
        scanBus calls (BitVec.ofNat 8 function) s
      else some s) s
  else scanBus calls 0 s

end Pci

end Uberos
