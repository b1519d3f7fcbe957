import Uberos.Library.Run
import Uberos.PodArray
import Mathlib.Algebra.Group.Nat.Defs
/-!
# Event emitters

`EventEmitter` of `common/EventEmitter.hpp`, over the contents of its
`ListOrdered`s. A callback may do anything to the emitter, triggers
included, so a run is of single steps: an edit, the start of a trigger,
the next call of the innermost one that runs, its end. What a trigger
walks is its own copy or the buffer `callableSubscribers` had when it
started, which an assignment deletes. The locks are held for no longer
than a step.
-/

namespace Uberos

open Library

/-- `EventEmitter::Subscription`. -/
structure Subscription (Callback Data : Type*) where
  callback : Callback
  data : Data
  deriving DecidableEq, Repr

/-- The fields of an emitter. -/
structure EventEmitter (Callback Data : Type*) where
  subscribers : List (Subscription Callback Data)
  subscribersGeneration : ℕ
  callableSubscribers : List (Subscription Callback Data)
  /-- Which buffer `callableSubscribers.data` is: one more at each
  assignment. -/
  callableData : ℕ
  callableSubscribersGeneration : ℕ
  isTriggering : Bool
  deriving DecidableEq, Repr

/-- A callback called with a payload and its data. -/
structure Call (Callback Data Payload : Type*) where
  callback : Callback
  payload : Payload
  data : Data
  deriving DecidableEq, Repr

/-- A call of `trigger` that runs. -/
structure Trigger (Callback Data Payload : Type*) where
  payload : Payload
  /-- `subscribersCopy`, where it was entered by a trigger that runs. -/
  copy : Option (List (Subscription Callback Data))
  /-- The buffer it walks otherwise. -/
  data : ℕ
  /-- Where the walk is, and where it ends. -/
  position : ℕ
  stop : ℕ
  /-- What was subscribed when it started, and what it has called. -/
  present : List (Subscription Callback Data)
  called : List (Call Callback Data Payload)
  deriving DecidableEq, Repr

namespace EventEmitter

variable {Callback Data Payload : Type*} [DecidableEq Callback] [DecidableEq Data]

/-- An emitter as it is constructed. -/
def new : EventEmitter Callback Data := ⟨[], 0, [], 0, 0, false⟩

variable (e : EventEmitter Callback Data)

/-- `subscribe`. -/
def subscribe (subscription : Subscription Callback Data) : EventEmitter Callback Data :=
  { e with
    subscribers := ListOrdered.pushBack e.subscribers subscription
    subscribersGeneration := (e.subscribersGeneration + 1) % 2 ^ 32 }

/-- `unsubscribe`. -/
def unsubscribe (subscription : Subscription Callback Data) : EventEmitter Callback Data :=
  match e.subscribers.findIdx? (· = subscription) with
  | some i =>
    { e with
      subscribers := ListOrdered.remove e.subscribers i
      subscribersGeneration := (e.subscribersGeneration + 1) % 2 ^ 32 }
  | none => e

/-- `unsubscribe_all`. -/
def unsubscribeAll : EventEmitter Callback Data :=
  { e with
    subscribers := ListOrdered.clear e.subscribers
    subscribersGeneration := (e.subscribersGeneration + 1) % 2 ^ 32 }

/-- `callableSubscribers = subscribers`, where the generations differ. -/
def refresh : EventEmitter Callback Data :=
  if e.subscribersGeneration ≠ e.callableSubscribersGeneration then
    { e with
      callableSubscribers := e.subscribers
      callableData := e.callableData + 1
      callableSubscribersGeneration := e.subscribersGeneration }
  else e

/-- `trigger`, up to its loop. -/
def trigger (payload : Payload) : EventEmitter Callback Data × Trigger Callback Data Payload :=
  if e.isTriggering then
    (e,
      { payload := payload
        copy := some e.subscribers
        data := 0
        position := 0
        stop := e.subscribers.length
        present := e.subscribers
        called := [] })
  else
    let refreshed := { e with isTriggering := true }.refresh
    (refreshed,
      { payload := payload
        copy := none
        data := refreshed.callableData
        position := 0
        stop := refreshed.callableSubscribers.length
        present := e.subscribers
        called := [] })

/-- The subscription a walk is at. There is none in a buffer that has been
deleted. -/
def read (t : Trigger Callback Data Payload) : Option (Subscription Callback Data) :=
  match t.copy with
  | some copy => copy[t.position]?
  | none => if t.data = e.callableData then e.callableSubscribers[t.position]? else none

/-- A turn of the loop, of what it reads. -/
def call (t : Trigger Callback Data Payload) (subscription : Subscription Callback Data) :
    Trigger Callback Data Payload :=
  { t with
    position := t.position + 1
    called := t.called ++ [⟨subscription.callback, t.payload, subscription.data⟩] }

/-- The end of `trigger`. -/
def finish (t : Trigger Callback Data Payload) : EventEmitter Callback Data :=
  match t.copy with
  | some _ => e
  | none => { e with isTriggering := false }

/-! ## Runs -/

/-- An emitter, the triggers that run, the innermost first, and those that
have ended. -/
structure Delivery (Callback Data Payload : Type*) where
  emitter : EventEmitter Callback Data
  running : List (Trigger Callback Data Payload)
  ended : List (Trigger Callback Data Payload)
  deriving DecidableEq

variable (Callback Data Payload) in
/-- What a callback does, or whoever calls the emitter, and how the
innermost trigger goes on. -/
inductive Op
  | subscribe (subscription : Subscription Callback Data)
  | unsubscribe (subscription : Subscription Callback Data)
  | unsubscribeAll
  | trigger (payload : Payload)
  | call
  | finish
  deriving DecidableEq, Repr

/-- One step, unless it reads a deleted buffer, or past the end of one. -/
def Delivery.step? (s : Delivery Callback Data Payload) :
    Op Callback Data Payload → Option (Delivery Callback Data Payload)
  | .subscribe subscription => some { s with emitter := s.emitter.subscribe subscription }
  | .unsubscribe subscription => some { s with emitter := s.emitter.unsubscribe subscription }
  | .unsubscribeAll => some { s with emitter := s.emitter.unsubscribeAll }
  | .trigger payload =>
    let (emitter, trigger) := s.emitter.trigger payload
    some { s with emitter := emitter, running := trigger :: s.running }
  | .call =>
    match s.running with
    | [] => some s
    | t :: running =>
      (s.emitter.read t).map fun subscription =>
        { s with running := call t subscription :: running }
  | .finish =>
    match s.running with
    | [] => some s
    | t :: running => some ⟨s.emitter.finish t, running, t :: s.ended⟩

/-- The same from a state there may be none of. -/
def step (s : Option (Delivery Callback Data Payload)) (op : Op Callback Data Payload) :
    Option (Delivery Callback Data Payload) := s.bind fun s => s.step? op

/-- Nothing is subscribed, and nothing triggered. -/
def start : Option (Delivery Callback Data Payload) := some ⟨.new, [], []⟩

/-- **The innermost trigger calls until its walk is at its end**, and ends
there. The generation is not counted past a word. -/
def Legal (s : Option (Delivery Callback Data Payload)) : Op Callback Data Payload → Prop
  | .subscribe _ | .unsubscribe _ | .unsubscribeAll =>
    ∀ d ∈ s, d.emitter.subscribersGeneration + 1 < 2 ^ 32
  | .trigger _ => True
  | .call => ∀ d ∈ s, ∃ t ∈ d.running.head?, t.position ≠ t.stop
  | .finish => ∀ d ∈ s, ∃ t ∈ d.running.head?, t.position = t.stop

instance (s : Option (Delivery Callback Data Payload)) : ∀ op, Decidable (Legal s op)
  | .subscribe _ | .unsubscribe _ | .unsubscribeAll =>
    inferInstanceAs (Decidable (∀ d ∈ s, d.emitter.subscribersGeneration + 1 < 2 ^ 32))
  | .trigger _ => inferInstanceAs (Decidable True)
  | .call => inferInstanceAs (Decidable (∀ d ∈ s, ∃ t ∈ d.running.head?, t.position ≠ t.stop))
  | .finish => inferInstanceAs (Decidable (∀ d ∈ s, ∃ t ∈ d.running.head?, t.position = t.stop))

end EventEmitter

end Uberos
