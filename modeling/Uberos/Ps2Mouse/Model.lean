import Mathlib.Data.Int.Notation
import Uberos.Library.Run
/-!
# The mouse

`Ps2Mouse` of `drivers/x86/input`: the bytes that its interrupt reads fill
a packet of three or four, which is taken when it is whole. Motion is
gathered over an interrupt and told of once. Sums of an `I32` that leave
it are not defined: that there was one is kept beside them.
-/

namespace Uberos

namespace Ps2Mouse

/-! ## Packets -/

/-- `Packet`, by its bytes. -/
structure Packet where
  head : BitVec 8
  xChange : BitVec 8
  yChange : BitVec 8
  wheelMouse : BitVec 8
  deriving DecidableEq, Repr

namespace Packet

variable (packet : Packet)

def leftButton : Bool := packet.head.getLsbD 0

def rightButton : Bool := packet.head.getLsbD 1

def middleButton : Bool := packet.head.getLsbD 2

/-- `_1`, which is set in the first byte of a packet. -/
def one : Bool := packet.head.getLsbD 3

def xSign : Bool := packet.head.getLsbD 4

def ySign : Bool := packet.head.getLsbD 5

/-- `wheelMouse._3Buttons.wheelChange`. -/
def wheelChange3 : ℤ := packet.wheelMouse.toInt

/-- `wheelMouse._5Buttons.wheelChange`, of four bits. -/
def wheelChange5 : ℤ := (packet.wheelMouse.setWidth 4).toInt

def button4 : Bool := packet.wheelMouse.getLsbD 4

def button5 : Bool := packet.wheelMouse.getLsbD 5

/-- `data[i] = byte`. -/
def set (i : Fin 4) (byte : BitVec 8) : Packet :=
  match i.val with
  | 0 => { packet with head := byte }
  | 1 => { packet with xChange := byte }
  | 2 => { packet with yChange := byte }
  | _ => { packet with wheelMouse := byte }

/-- All of `data` zero. -/
def zero : Packet := ⟨0, 0, 0, 0⟩

end Packet

/-! ## The device -/

/-- What `_on_start` makes of the bytes that identify a device: its buttons,
and whether it has a wheel. -/
def identify (first second : BitVec 8) : Option (BitVec 8 × Bool) :=
  match first with
  | 0x00 => some (3, false)
  | 0x03 => some (if second = 0x04 then 5 else 3, true)
  | 0x04 => some (5, false)
  | _ => none

/-- What the driver holds of its device. -/
structure Device where
  irq : BitVec 8
  buttonCount : BitVec 8
  hasWheel : Bool
  scale : ℤ
  buttonCount_eq : buttonCount = 3 ∨ buttonCount = 5
  /-- `set_scale` takes no other. -/
  scale_eq : scale = 1 ∨ scale = 2

/-- The devices that are identified have three buttons or five. -/
theorem buttonCount_of_identify {first second count : BitVec 8} {hasWheel : Bool}
    (h : identify first second = some (count, hasWheel)) : count = 3 ∨ count = 5 := by
  unfold identify at h
  split at h
  · simp only [Option.some.injEq, Prod.mk.injEq] at h
    exact Or.inl h.1.symm
  · simp only [Option.some.injEq, Prod.mk.injEq] at h
    split at h
    · exact Or.inr h.1.symm
    · exact Or.inl h.1.symm
  · simp only [Option.some.injEq, Prod.mk.injEq] at h
    exact Or.inr h.1.symm
  · exact absurd h (by simp)

namespace Device

variable (device : Device)

/-- `hasWheel||buttonCount>3?4u:3u`. -/
def packetLength : ℕ := if device.hasWheel ∨ 3 < device.buttonCount.toNat then 4 else 3

theorem packetLength_eq : device.packetLength = 3 ∨ device.packetLength = 4 := by
  unfold packetLength
  split
  · exact Or.inr rfl
  · exact Or.inl rfl

/-- A packet that is not whole leaves room in `data`. -/
theorem lt_four {n : ℕ} (h : n < device.packetLength) : n < 4 := by
  have hlength := device.packetLength_eq
  omega

/-- `xMotion`. -/
def xMotion (packet : Packet) : ℤ :=
  (packet.xChange.toNat - if packet.xSign then 0x100 else 0) * device.scale

/-- `yMotion`. -/
def yMotion (packet : Packet) : ℤ :=
  -(packet.yChange.toNat - if packet.ySign then 0x100 else 0) * device.scale

end Device

/-! ## Events -/

/-- `Mouse::Event`, and its `Type`. -/
inductive Event
  | moved (x y : ℤ)
  | pressed (button : ℕ)
  | released (button : ℕ)
  | scrolled (distance : ℤ)
  deriving DecidableEq, Repr

/-- A value of an `I32`. -/
def InI32 (n : ℤ) : Prop := -2147483648 ≤ n ∧ n ≤ 2147483647

instance (n : ℤ) : Decidable (InI32 n) := inferInstanceAs (Decidable (_ ∧ _))

/-- The driver, with the motion of the interrupt that it is in. -/
structure Mouse where
  packet : Packet
  /-- `packetBytes`, which is never as much as `data` has room for between two bytes. -/
  packetBytes : Fin 4
  buttonState : ℕ → Bool
  pendingX : ℤ
  pendingY : ℤ
  /-- A sum of `pendingMotion` has left its type. -/
  overflowed : Bool
  events : List Event

theorem zero_lt_four : 0 < 4 := by decide

/-- As `_on_start` leaves it. -/
def Mouse.started : Mouse where
  packet := .zero
  packetBytes := ⟨0, zero_lt_four⟩
  buttonState := fun _ => false
  pendingX := 0
  pendingY := 0
  overflowed := false
  events := []

/-- What an interrupt finds: its number, and what the controller has, byte
by byte, with the `mouse_byte` of its status. -/
structure Interrupt where
  irq : BitVec 8
  data : List (BitVec 8 × Bool)

namespace Mouse

variable (m : Mouse) (device : Device)

/-- `trigger_event`. -/
def triggerEvent (event : Event) : Mouse := { m with events := m.events ++ [event] }

/-- What is done of each button. -/
def setButton (button : ℕ) (state : Bool) : Mouse :=
  if m.buttonState button ≠ state then
    { m with buttonState := fun i => if i = button then state else m.buttonState i }.triggerEvent
      (if state then .pressed button else .released button)
  else m

/-- The buttons of a packet. -/
def setButtons (packet : Packet) : Mouse :=
  let m := m.setButton 0 packet.leftButton
  let m := m.setButton 1 packet.rightButton
  let m := m.setButton 2 packet.middleButton
  if 3 < device.buttonCount.toNat then
    let m := m.setButton 3 packet.button4
    m.setButton 4 packet.button5
  else m

/-- Its motion. The rescaling that follows is never done. -/
def addMotion (packet : Packet) : Mouse :=
  let xMotion := device.xMotion packet
  let yMotion := device.yMotion packet
  if xMotion ≠ 0 ∨ yMotion ≠ 0 then
    { m with
      pendingX := m.pendingX + xMotion
      pendingY := m.pendingY + yMotion
      overflowed := m.overflowed ||
        !decide (InI32 (m.pendingX + xMotion) ∧ InI32 (m.pendingY + yMotion)) }
  else m

/-- Its wheel. With three buttons the whole byte is tested, and four bits
of it are the distance. -/
def scroll (packet : Packet) : Mouse :=
  if device.hasWheel then
    if 3 < device.buttonCount.toNat then
      if packet.wheelChange5 ≠ 0 then m.triggerEvent (.scrolled packet.wheelChange5) else m
    else
      if packet.wheelChange3 ≠ 0 then m.triggerEvent (.scrolled packet.wheelChange5) else m
  else m

/-- What is done of a packet that is whole. -/
def onPacket (packet : Packet) : Mouse :=
  let m := m.setButtons device packet
  let m := m.addMotion device packet
  m.scroll device packet

/-- One turn of the loop of `_on_irq`. -/
def onByte (byte : BitVec 8) : Mouse :=
  let packet := m.packet.set m.packetBytes byte
  let packetBytes := m.packetBytes.val + 1
  if packetBytes = 1 ∧ packet.one ≠ true then
    -- out of sync
    { m with packet := { packet with head := 0 }, packetBytes := ⟨0, zero_lt_four⟩ }
  else if h : packetBytes < device.packetLength then
    { m with packet, packetBytes := ⟨packetBytes, device.lt_four h⟩ }
  else
    { m.onPacket device packet with packet := .zero, packetBytes := ⟨0, zero_lt_four⟩ }

/-- The loop, which leaves a byte that is not the mouse's. -/
def readBytes (m : Mouse) : List (BitVec 8 × Bool) → Mouse
  | [] => m
  | (byte, mouseByte) :: data =>
    if mouseByte then (m.onByte device byte).readBytes data else m

/-- The motion that is told of at the end. -/
def flush : Mouse :=
  if m.pendingX ≠ 0 ∨ m.pendingY ≠ 0 then m.triggerEvent (.moved m.pendingX m.pendingY) else m

/-- `_on_irq`. -/
def onIrq (interrupt : Interrupt) : Mouse :=
  if interrupt.irq ≠ device.irq then m
  else ({ m with pendingX := 0, pendingY := 0 }.readBytes device interrupt.data).flush

/-- `get_button_state`. -/
def getButtonState (button : BitVec 8) : Bool :=
  if button.toNat ≥ device.buttonCount.toNat then false else m.buttonState 0

end Mouse

end Ps2Mouse

end Uberos
