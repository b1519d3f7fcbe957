import Uberos.PodArray.Storage
import Mathlib.Data.List.Basic
import Mathlib.Logic.Function.Basic
/-!
# Dispatch

The loops of `exceptions::_on_irq` and `drivers::_on_interrupt`, over one
irq's or vector's array, whose subscribers may subscribe and unsubscribe
while they are called. A loop keeps the buffer and the end it begins
with; what it reads must be an element of the array that is there then.
`drivers::irqSubscribers`, which `_on_irq` of the drivers goes through
afterwards, is never written.
-/

namespace Uberos

namespace Dispatch

open PodArray (Storage)

variable {α : Type*} [DecidableEq α]

/-- An irq's or a vector's array, and of a vector the drivers' bits. -/
structure Slot (α : Type*) where
  array : Option (Storage α)
  /-- Which buffer the array's data is. -/
  buffer : ℕ
  subscribed : α → Bool

namespace Slot

variable (s : Slot α) (x : α)

/-- `new PodArray(1)`. -/
def make : Slot α := { s with array := some (.new 1), buffer := s.buffer + 1 }

/-- `subscribers->push_back(x)`, with its buffer's being another where
its size is. -/
def pushBack : Option (Slot α) :=
  s.array.bind fun a => (a.pushBack x).map fun a' =>
    { s with
      array := some a'
      buffer := if a'.allocated = a.allocated then s.buffer else s.buffer + 1 }

/-- The loop that looks for the first entry that is `x`. -/
def indexOf (a : Storage α) : Option ℕ := (List.range a.length).find? fun i => a.data i = some x

/-- And removes it. -/
def remove (a : Storage α) : Option (Storage α) :=
  match indexOf x a with
  | some i => a.remove i
  | none => some a

/-- What a loop reads at an index, where that is an element. -/
def read (buffer index : ℕ) : Option α :=
  s.array.bind fun a => if s.buffer = buffer ∧ index < a.length then a.data index else none

/-- How many entries the array has. -/
def length : ℕ := (s.array.map Storage.length).getD 0

/-- The entries of the array. -/
def contents : List α :=
  match s.array with
  | some a => (List.range a.length).filterMap a.data
  | none => []

end Slot

/-- What a subscriber may do while it is called. -/
inductive Act (α : Type*)
  | subscribe (x : α)
  | unsubscribe (x : α)
  deriving DecidableEq, Repr

/-- What is left of the subscriptions there were. -/
def Act.leave (remaining : List (α × ℕ)) : Act α → List (α × ℕ)
  | .subscribe _ => remaining
  | .unsubscribe x => remaining.eraseP fun entry => entry.1 = x

/-- `exceptions::irq::subscribe` and `unsubscribe`, of an irq that is in a
controller's range or not. -/
def actIrq (covered : Bool) (s : Slot α) : Act α → Option (Slot α)
  | .subscribe x =>
    match s.array with
    | some _ => s.pushBack x
    | none => if covered then s.make.pushBack x else some s.make
  | .unsubscribe x =>
    match s.array with
    | none => some s
    | some a => (Slot.remove x a).map fun a =>
      if a.length < 1 then { s with array := none } else { s with array := some a }

/-- `subscribe_interrupt` and `unsubscribe_interrupt`. -/
def actInterrupt (s : Slot α) : Act α → Option (Slot α)
  | .subscribe x =>
    if s.subscribed x then some s
    else
      let s := if s.array.isNone then s.make else s
      (s.pushBack x).map fun s => { s with subscribed := Function.update s.subscribed x true }
  | .unsubscribe x =>
    if s.subscribed x = false then some s
    else
      let s' : Option (Slot α) :=
        match s.array with
        | none => some s
        | some a => (Slot.remove x a).map fun a => { s with array := some a }
      s'.map fun s => { s with subscribed := Function.update s.subscribed x false }

/-- What is called, and what it does, by the turn of the loop. -/
structure Handlers (α : Type*) where
  /-- The driver is active. -/
  active : ℕ → α → Bool
  acts : ℕ → List (Act α)
  /-- It returns a new state. -/
  stops : ℕ → Bool

/-- Those of an irq are called whoever they are of, and return nothing. -/
def Handlers.ofIrq (acts : ℕ → List (Act α)) : Handlers α := ⟨fun _ _ => true, acts, fun _ => false⟩

/-- A turn of a loop: what it reads, and what is left of the subscriptions
there were when the loop began. -/
structure Turn (α : Type*) where
  index : ℕ
  read : α
  remaining : List (α × ℕ)

variable (act : Slot α → Act α → Option (Slot α)) (h : Handlers α)

/-- A loop from an index on, with so many turns to go. -/
def loop (buffer : ℕ) : ℕ → ℕ → Slot α → List (α × ℕ) → Option (List (Turn α))
  | 0, _, _, _ => some []
  | count + 1, index, s, remaining => do
    let x ← s.read buffer index
    let turn := ⟨index, x, remaining⟩
    if h.active index x then
      let s ← (h.acts index).foldlM act s
      if h.stops index then return [turn]
      else
        let turns ← loop buffer count (index + 1) s ((h.acts index).foldl Act.leave remaining)
        return turn :: turns
    else
      let turns ← loop buffer count (index + 1) s remaining
      return turn :: turns

/-- `_on_irq` or `_on_interrupt`: the loop, if there is an array. It is
undefined where it reads what is no element. -/
def dispatch (s : Slot α) : Option (List (Turn α)) :=
  match s.array with
  | none => some []
  | some a => loop act h s.buffer a.length 0 s s.contents.zipIdx

end Dispatch

end Uberos
