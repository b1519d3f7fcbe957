import Mathlib.Algebra.GroupWithZero.Nat
import Uberos.Subscriptions.Interrupts
/-!
# The 8259

`drivers/x86/interrupt/Pic8259.cpp`, on the two chips it drives and on
the subscriptions it shares with the other drivers. What is written to a
chip's data port after an initialisation word is not a mask until the
three words that belong to it have come.
-/

namespace Uberos

open Library

namespace Pic8259

/-- What is written next to a data port. -/
inductive Word
  /-- `icw2` -/
  | vectors
  /-- `icw3` -/
  | cascade
  /-- `icw4` -/
  | mode
  | mask
  deriving DecidableEq, Repr

/-- A chip: the irqs of it that are masked, and its interrupts. -/
structure Chip where
  mask : BitVec 8
  offset : BitVec 8
  next : Word := .mask
  deriving DecidableEq, Repr

namespace Chip

/-- `icw1_init|icw1_icw4`. -/
def icw1 : BitVec 8 := 0x10 ||| 0x01

/-- A word to the command port. `icw1` clears the mask. -/
def writeCommand (chip : Chip) (word : BitVec 8) : Chip :=
  if word &&& 0x10 ≠ 0 then { chip with mask := 0, next := .vectors } else chip

/-- A word to the data port. -/
def writeData (chip : Chip) (word : BitVec 8) : Chip :=
  match chip.next with
  | .vectors => { chip with offset := word, next := .cascade }
  | .cascade => { chip with next := .mode }
  | .mode => { chip with next := .mask }
  | .mask => { chip with mask := word }

/-- What the data port reads back. -/
def readData (chip : Chip) : BitVec 8 := chip.mask

/-- The four words of an initialisation, and the mask after it. -/
def initialise (chip : Chip) (offset cascade mode mask : BitVec 8) : Chip :=
  ((((chip.writeCommand icw1).writeData offset).writeData cascade).writeData mode).writeData mask

end Chip

/-- The driver's state, and what it drives. -/
structure Pic (n : ℕ) where
  machine : Machine n
  chip1 : Chip
  chip2 : Chip

namespace Pic

variable {n : ℕ} (c : Fin n) (p : Pic n)

/-- `enable_irq`. -/
def enableIrq (cpu : ℕ) (irq : Fin 256) : Pic n :=
  if cpu > 0 then p
  else if irq.val < 8 then
    { p with
      chip1 := p.chip1.writeData (p.chip1.readData &&& ~~~(1#8 <<< irq.val))
      machine := p.machine.enableIrq c irq }
  else if irq.val < 16 then
    { p with
      chip2 := p.chip2.writeData (p.chip2.readData &&& ~~~(1#8 <<< (irq.val - 8)))
      machine := p.machine.enableIrq c irq }
  else p

/-- `disable_irq`, which does not ask for the cpu. -/
def disableIrq (irq : Fin 256) : Pic n :=
  if irq.val < 8 then
    { p with
      machine := p.machine.disableIrq c irq
      chip1 := p.chip1.writeData (p.chip1.readData ||| 1#8 <<< irq.val) }
  else if irq.val < 16 then
    { p with
      machine := p.machine.disableIrq c irq
      chip2 := p.chip2.writeData (p.chip2.readData ||| 1#8 <<< (irq.val - 8)) }
  else p

/-- `disable_all_irqs`. -/
def disableAllIrqs : Pic n :=
  { machine := p.machine.unsubscribeAllInterrupts c
    chip1 := p.chip1.writeData 0xff
    chip2 := p.chip2.writeData 0xff }

/-- `!mask&(1<<i)`: what is negated is the mask, before its bit is taken. -/
def subscribes (mask : BitVec 8) (i : ℕ) : Bool := (if mask = 0 then 1 else 0) &&& (1 <<< i) ≠ 0

/-- There are interrupts. -/
theorem interrupts_ne_zero : NeZero 256 := ⟨by decide⟩

attribute [local instance] interrupts_ne_zero

/-- A turn of the loop of `set_offset`. -/
def resubscribe (mask1 mask2 : BitVec 8) (m : Machine n) (i : ℕ) : Machine n :=
  let m := if subscribes mask1 i then m.subscribeInterrupt c (.ofNat 256 (m.irqOffset.1 + i)) else m
  if subscribes mask2 i then m.subscribeInterrupt c (.ofNat 256 (m.irqOffset.2 + i)) else m

/-- `set_offset`. -/
def setOffset (offset1 offset2 : Fin 256) : Pic n :=
  let m := p.machine.unsubscribeAllInterrupts c
  let m := { m with irqOffset := (offset1.val, offset2.val) }
  let mask1 := p.chip1.readData
  let mask2 := p.chip2.readData
  { chip1 := p.chip1.initialise (.ofNat 8 offset1) 0b0100 0x01 mask1
    chip2 := p.chip2.initialise (.ofNat 8 offset2) 0b0010 0x01 mask2
    machine := (List.range 8).foldl (resubscribe c mask1 mask2) m }

/-- What `_on_start` does before it enables an irq. -/
def start : Pic n := (p.setOffset c (.ofNat 256 0x20) (.ofNat 256 0x28)).disableAllIrqs c

/-- The calls. -/
inductive Op
  | enableIrq (cpu : ℕ) (irq : Fin 256)
  | disableIrq (cpu : ℕ) (irq : Fin 256)
  | disableAllIrqs
  | setOffset (offset1 offset2 : Fin 256)
  deriving DecidableEq, Repr

/-- One call. -/
def step : Op → Pic n
  | .enableIrq cpu irq => p.enableIrq c cpu irq
  | .disableIrq _ irq => p.disableIrq c irq
  | .disableAllIrqs => p.disableAllIrqs c
  | .setOffset offset1 offset2 => p.setOffset c offset1 offset2

end Pic

end Pic8259

end Uberos
