import Uberos.DriverApi.Lifecycle
import Uberos.Bitmask.Model
/-!
# What drivers are subscribed to

The subscriptions of `kernel/DriverApi.cpp` other than to memory, with
the arrays they share: `drivers::interruptSubscribers`, and
`exceptions::irqSubscribers` of `kernel/exceptions.cpp`, whose entries
are all of drivers. Of an interrupt or irq, its array and its bit of each
driver's mask stand together here. The irqs of the interrupt controllers
become interrupts of theirs; the controllers are `Pic8259`s. A call that
activates a controller first is the steps of that activation before it,
and what a controller's own code sets is a step as well. The devices'
registers are left out.
-/

namespace Uberos

open Library

/-- An interrupt or an irq: its array of subscribers, and its bit of each
driver's `subscribedInterrupts` or `subscribedIrqs`. -/
structure Line (n : ℕ) where
  subscribers : Option (List (Fin n))
  subscribed : Fin n → Bool

namespace Line

variable {n : ℕ} (l : Line n) (d : Fin n)

/-- Nobody is subscribed, and there is no array. -/
def new (n : ℕ) : Line n := ⟨none, fun _ => false⟩

/-- The entries of its array. -/
def list : List (Fin n) := l.subscribers.getD []

/-- The driver is pushed on the array, which is made if there is none. -/
def push : Line n := { l with subscribers := some (PodArray.pushBack l.list d) }

/-- The bit of the driver's mask is set. -/
def mark (value : Bool) : Line n := { l with subscribed := Function.update l.subscribed d value }

/-- The loop that removes the driver from the array. -/
def remove : Line n :=
  { l with subscribers := l.subscribers.map fun entries => PodArray.removeValue entries d }

end Line

/-- All drivers and what they share. -/
structure Machine (n : ℕ) where
  /-- Their states, the calls entered, and what memory they hold. -/
  system : Drivers.System n
  interrupts : Fin 256 → Line n
  irqs : Fin 256 → Line n
  subscribedPciDevices : Fin n → List ℕ
  subscribedIoPorts : Fin n → List ℕ
  /-- The drivers that are interrupt controllers, as they were installed. -/
  controllers : List (Fin n)
  /-- `min_irq` and `max_irq` of each. -/
  irqRange : Fin n → ℕ × ℕ
  /-- `irqOffset`. -/
  irqOffset : ℕ × ℕ
  irqEnabled : BitVec 32

namespace Machine

variable {n : ℕ}

/-- Drivers as they are constructed. -/
def new (controllers : List (Fin n)) : Machine n where
  system := .new n
  interrupts _ := .new n
  irqs _ := .new n
  subscribedPciDevices _ := []
  subscribedIoPorts _ := []
  controllers := controllers
  irqRange _ := (0, 0)
  irqOffset := (0, 0)
  irqEnabled := 0

variable (m : Machine n) (d c : Fin n)

def setInterrupt (vector : Fin 256) (line : Line n) : Machine n :=
  { m with interrupts := Function.update m.interrupts vector line }

def setIrq (irq : Fin 256) (line : Line n) : Machine n :=
  { m with irqs := Function.update m.irqs irq line }

/-! ## Interrupts -/

/-- `subscribe_interrupt`. -/
def subscribeInterrupt (vector : Fin 256) : Machine n :=
  if (m.interrupts vector).subscribed d then m
  else m.setInterrupt vector (((m.interrupts vector).push d).mark d true)

/-- `unsubscribe_interrupt`. -/
def unsubscribeInterrupt (vector : Fin 256) : Machine n :=
  if (m.interrupts vector).subscribed d = false then m
  else m.setInterrupt vector (((m.interrupts vector).remove d).mark d false)

/-- `unsubscribe_all_interrupts`. -/
def unsubscribeAllInterrupts : Machine n :=
  (List.finRange 256).foldl
    (fun m vector => if (m.interrupts vector).subscribed d then m.unsubscribeInterrupt d vector else m) m

/-! ## The interrupt controllers -/

/-- The interrupt of an irq, `irqOffset[irq/8]+irq%8`. -/
def interruptOf (irq : Fin 256) : Fin 256 :=
  Fin.ofNat 256 (if irq.val < 8 then m.irqOffset.1 + irq else m.irqOffset.2 + (irq - 8))

/-- `Pic8259::enable_irq`. -/
def enableIrq (irq : Fin 256) : Machine n :=
  if irq.val < 16 then
    { m with irqEnabled := Bitmask32.set m.irqEnabled irq true }.subscribeInterrupt c (m.interruptOf irq)
  else m

/-- `Pic8259::disable_irq`. -/
def disableIrq (irq : Fin 256) : Machine n :=
  if irq.val < 16 then
    let m := m.unsubscribeInterrupt c (m.interruptOf irq)
    { m with irqEnabled := Bitmask32.set m.irqEnabled irq false }
  else m

/-- `Pic8259::get_available_irq`. -/
def getAvailableIrq (bitmask : Fin 256 → Bool) : Option (Fin 256) :=
  (List.finRange 256).find? fun i =>
    decide (i.val < 16) && bitmask i && i ≠ 1 && i ≠ 12 && !Bitmask32.get m.irqEnabled i

/-- Whether the irq is in the controller's range. -/
def covers (irq : Fin 256) : Bool := (m.irqRange c).1 ≤ irq.val && irq.val ≤ (m.irqRange c).2

/-! ## Irqs -/

/-- `exceptions::irq::subscribe`, and whether it succeeds. It makes the
array before it looks for a controller. -/
def irqSubscribe (irq : Fin 256) : Bool × Machine n :=
  match (m.irqs irq).subscribers with
  | some _ => (true, m.setIrq irq ((m.irqs irq).push d))
  | none =>
    let m := m.setIrq irq { m.irqs irq with subscribers := some [] }
    match m.controllers.find? fun c => m.covers c irq with
    | some c =>
      let m := m.enableIrq c irq
      (true, m.setIrq irq ((m.irqs irq).push d))
    | none => (false, m)

/-- `exceptions::irq::unsubscribe`. -/
def irqUnsubscribe (irq : Fin 256) : Machine n :=
  match (m.irqs irq).subscribers with
  | none => m
  | some _ =>
    let m := m.setIrq irq ((m.irqs irq).remove d)
    if (m.irqs irq).list.length < 1 then
      let m := m.setIrq irq { m.irqs irq with subscribers := none }
      m.controllers.foldl (fun m c => if m.covers c irq then m.disableIrq c irq else m) m
    else m

/-- The bit of `subscribedIrqs` is set. -/
def markIrq (irq : Fin 256) (value : Bool) : Machine n := m.setIrq irq ((m.irqs irq).mark d value)

/-- `subscribe_irq`. -/
def subscribeIrq (irq : Fin 256) : Machine n :=
  if (m.irqs irq).subscribed d then m
  else
    match m.irqSubscribe d irq with
    | (true, m) => m.markIrq d irq true
    | (false, m) => m

/-- The loop of `subscribe_available_irq`, over the controllers. -/
def subscribeAvailableLoop (bitmask : Fin 256 → Bool) : List (Fin n) → Machine n → Machine n
  | [], m => m
  | _ :: rest, m =>
    match m.getAvailableIrq bitmask with
    | none => subscribeAvailableLoop bitmask rest m
    | some irq =>
      match m.irqSubscribe d irq with
      | (true, m) => m.markIrq d irq true
      | (false, m) => subscribeAvailableLoop bitmask rest m

/-- `subscribe_available_irq`, once a controller is active. -/
def subscribeAvailableIrq (bitmask : Fin 256 → Bool) : Machine n :=
  subscribeAvailableLoop d bitmask m.controllers m

/-- `unsubscribe_irq`. -/
def unsubscribeIrq (irq : Fin 256) : Machine n :=
  if (m.irqs irq).subscribed d = false then m
  else (m.irqUnsubscribe d irq).markIrq d irq false

/-- `unsubscribe_all_irqs`. -/
def unsubscribeAllIrqs : Machine n :=
  (List.finRange 256).foldl
    (fun m irq => if (m.irqs irq).subscribed d then m.unsubscribeIrq d irq else m) m

/-! ## PCI devices and I/O ports -/

/-- `subscribe_pci`, which asks all drivers. -/
def subscribePci (device : ℕ) : Machine n :=
  if device ∈ m.subscribedPciDevices d then m
  else if ∃ other, device ∈ m.subscribedPciDevices other then m
  else
    { m with
      subscribedPciDevices := Function.update m.subscribedPciDevices d <|
        PodArray.pushBack (m.subscribedPciDevices d) device }

/-- `unsubscribe_pci`. -/
def unsubscribePci (device : ℕ) : Machine n :=
  { m with
    subscribedPciDevices := Function.update m.subscribedPciDevices d <|
      PodArray.removeValue (m.subscribedPciDevices d) device }

/-- `unsubscribe_all_pci`. -/
def unsubscribeAllPci : Machine n :=
  { m with
    subscribedPciDevices := Function.update m.subscribedPciDevices d <|
      PodArray.clear (m.subscribedPciDevices d) }

/-- `subscribe_ioPort`, which asks all drivers. -/
def subscribeIoPort (ioPort : ℕ) : Machine n :=
  if ioPort ∈ m.subscribedIoPorts d then m
  else if ∃ other, ioPort ∈ m.subscribedIoPorts other then m
  else
    { m with
      subscribedIoPorts := Function.update m.subscribedIoPorts d <|
        PodArray.pushBack (m.subscribedIoPorts d) ioPort }

/-- `unsubscribe_ioPort`. -/
def unsubscribeIoPort (ioPort : ℕ) : Machine n :=
  { m with
    subscribedIoPorts := Function.update m.subscribedIoPorts d <|
      PodArray.removeValue (m.subscribedIoPorts d) ioPort }

/-- `unsubscribe_all_ioPort`. -/
def unsubscribeAllIoPort : Machine n :=
  { m with
    subscribedIoPorts := Function.update m.subscribedIoPorts d <|
      PodArray.clear (m.subscribedIoPorts d) }

/-! ## Steps -/

/-- What starting, stopping and failing a driver do after they have given
up its memory. -/
def unsubscribeRest : Machine n :=
  ((((m.unsubscribeAllInterrupts d).unsubscribeAllIrqs d).unsubscribeAllPci d).unsubscribeAllIoPort d)

/-- The driver whose subscriptions a step of the drivers' lifecycle gives
up: of a start that failed, a stop that did not, and a failure. -/
def givenUp : Drivers.Op n → Option (Fin n)
  | .onStartReturns d false | .onStopReturns d true | .onStopToRestartReturns d true
  | .failDriver d => some d
  | _ => none

/-- A step of the drivers' lifecycle, or of their memory. -/
def lifecycle (T : Target) (layout : Drivers.Layout) (op : Drivers.Op n) : Machine n :=
  let m := { m with system := Drivers.step T layout m.system op }
  match givenUp op with
  | some d => m.unsubscribeRest d
  | none => m

/-- What can happen next. -/
inductive Op (n : ℕ)
  | lifecycle (op : Drivers.Op n)
  | subscribeInterrupt (d : Fin n) (vector : Fin 256)
  | unsubscribeInterrupt (d : Fin n) (vector : Fin 256)
  | unsubscribeAllInterrupts (d : Fin n)
  | subscribeIrq (d : Fin n) (irq : Fin 256)
  | subscribeAvailableIrq (d : Fin n) (bitmask : Fin 256 → Bool)
  | unsubscribeIrq (d : Fin n) (irq : Fin 256)
  | unsubscribeAllIrqs (d : Fin n)
  | subscribePci (d : Fin n) (device : ℕ)
  | unsubscribePci (d : Fin n) (device : ℕ)
  | unsubscribeAllPci (d : Fin n)
  | subscribeIoPort (d : Fin n) (ioPort : ℕ)
  | unsubscribeIoPort (d : Fin n) (ioPort : ℕ)
  | unsubscribeAllIoPort (d : Fin n)
  /-- A controller's own code sets its range and where its irqs go. -/
  | configure (c : Fin n) (range offset : ℕ × ℕ)

/-- One step. -/
def step (T : Target) (layout : Drivers.Layout) (m : Machine n) : Op n → Machine n
  | .lifecycle op => m.lifecycle T layout op
  | .subscribeInterrupt d vector => m.subscribeInterrupt d vector
  | .unsubscribeInterrupt d vector => m.unsubscribeInterrupt d vector
  | .unsubscribeAllInterrupts d => m.unsubscribeAllInterrupts d
  | .subscribeIrq d irq => m.subscribeIrq d irq
  | .subscribeAvailableIrq d bitmask => m.subscribeAvailableIrq d bitmask
  | .unsubscribeIrq d irq => m.unsubscribeIrq d irq
  | .unsubscribeAllIrqs d => m.unsubscribeAllIrqs d
  | .subscribePci d device => m.subscribePci d device
  | .unsubscribePci d device => m.unsubscribePci d device
  | .unsubscribeAllPci d => m.unsubscribeAllPci d
  | .subscribeIoPort d ioPort => m.subscribeIoPort d ioPort
  | .unsubscribeIoPort d ioPort => m.unsubscribeIoPort d ioPort
  | .unsubscribeAllIoPort d => m.unsubscribeAllIoPort d
  | .configure c range offset =>
    { m with irqRange := Function.update m.irqRange c range, irqOffset := offset }

end Machine

end Uberos
