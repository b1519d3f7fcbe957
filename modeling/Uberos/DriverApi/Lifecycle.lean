import Uberos.DriverApi.Covered
/-!
# Drivers and their lifecycle

`start_driver`, `stop_driver`, `restart_driver` and `fail_driver` of
`kernel/drivers.cpp` and `kernel/DriverApi.cpp`, over any number of
drivers, with what each does to the driver's state and to its memory
subscriptions. A driver's own `_on_start` and `_on_stop` run in the middle
of these and may do anything, other drivers' starts and stops included:
the calls that have been entered and not returned from are part of the
state, and an operation enters one or returns from one. The events, the
names and the other kinds of subscription are left out; none of them
decides what is modelled here.
-/

namespace Uberos

open Library

/-- `DriverApi::State`. -/
inductive DriverState
  | inactive
  | active
  | failed
  deriving DecidableEq, Repr

/-- What a `DriverApi` keeps of its driver. -/
structure Api where
  state : DriverState
  subscribedMemory : List MemoryRange
  deriving DecidableEq, Repr

namespace Drivers

/-- A call that has been entered. -/
inductive Entered (n : ℕ)
  /-- `_on_start`, from `DriverApi::start_driver`. -/
  | onStart (d : Fin n)
  /-- `_on_stop`, from `DriverApi::stop_driver`. -/
  | onStop (d : Fin n)
  /-- The same, from `DriverApi::restart_driver`. -/
  | onStopToRestart (d : Fin n)
  /-- `reference->terminate()` of the references to a driver that was
  stopped to be restarted. -/
  | terminateToRestart (d : Fin n)
  deriving DecidableEq, Repr

/-- All drivers, and the calls that have been entered. -/
structure System (n : ℕ) where
  apis : Fin n → Api
  entered : List (Entered n)

variable {n : ℕ}

/-- Drivers as they are constructed. -/
def System.new (n : ℕ) : System n := ⟨fun _ => ⟨.inactive, []⟩, []⟩

namespace System

variable (s : System n) (d : Fin n)

def isActive : Bool := (s.apis d).state == .active

def memory : List MemoryRange := (s.apis d).subscribedMemory

/-- A driver with another state. -/
def setState (state : DriverState) : System n :=
  { s with apis := Function.update s.apis d { s.apis d with state := state } }

/-- A driver with other ranges. -/
def setMemory (ranges : List MemoryRange) : System n :=
  { s with apis := Function.update s.apis d { s.apis d with subscribedMemory := ranges } }

def enter (call : Entered n) : System n := { s with entered := call :: s.entered }

def leave (call : Entered n) : System n := { s with entered := s.entered.erase call }

/-- `unsubscribe_all_memory()`. -/
def unsubscribeAllMemory : System n := s.setMemory d (DriverApi.unsubscribeAllMemory (s.memory d))

end System

/-- Where the heap is. -/
structure Layout where
  heap : ℕ
  heapSize : ℕ
  deriving DecidableEq, Repr

/-- What `subscribe_memory` finds when driver `d` calls it. -/
def environment (layout : Layout) (s : System n) (d : Fin n) : DriverApi.Environment where
  heap := layout.heap
  heapSize := layout.heapSize
  others := ((List.finRange n).filter (· ≠ d)).map fun other => (s.isActive other, s.memory other)

/-! ## The lifecycle functions -/

/-- `DriverApi::start_driver`, up to `_on_start`. -/
def apiStartDriver (s : System n) (d : Fin n) : System n :=
  if s.isActive d then s else s.enter (.onStart d)

/-- `drivers::start_driver`. -/
def startDriver (s : System n) (d : Fin n) : System n :=
  if s.isActive d then s else apiStartDriver s d

/-- `DriverApi::start_driver`, from where `_on_start` returns. -/
def onStartReturns (s : System n) (d : Fin n) (ok : Bool) : System n :=
  let s := s.leave (.onStart d)
  if ok then s.setState d .active else (s.setState d .failed).unsubscribeAllMemory d

/-- `drivers::stop_driver`, up to `_on_stop`. -/
def stopDriver (s : System n) (d : Fin n) (canStopDriver : Bool) : System n :=
  if s.isActive d then if canStopDriver then s.enter (.onStop d) else s else s

/-- `DriverApi::stop_driver`, from where `_on_stop` returns. -/
def onStopReturns (s : System n) (d : Fin n) (ok : Bool) : System n :=
  let s := s.leave (.onStop d)
  if ok then (s.setState d .inactive).unsubscribeAllMemory d else s

/-- `drivers::restart_driver`, up to the `_on_stop` or `_on_start` it
calls first. -/
def restartDriver (s : System n) (d : Fin n) (canRestartDriver : Bool) : System n :=
  if s.isActive d then if canRestartDriver then s.enter (.onStopToRestart d) else s
  else startDriver s d

/-- `DriverApi::restart_driver`, from where `_on_stop` returns up to the
references it terminates. -/
def onStopToRestartReturns (s : System n) (d : Fin n) (ok : Bool) : System n :=
  let s := s.leave (.onStopToRestart d)
  if ok then ((s.setState d .inactive).unsubscribeAllMemory d).enter (.terminateToRestart d) else s

/-- `DriverApi::restart_driver`, from where they have been, up to
`_on_start`. -/
def terminateToRestartReturns (s : System n) (d : Fin n) : System n :=
  apiStartDriver (s.leave (.terminateToRestart d)) d

/-- `DriverApi::fail_driver`. -/
def failDriver (s : System n) (d : Fin n) : System n :=
  (s.setState d .failed).unsubscribeAllMemory d

/-! ## Steps -/

/-- What can happen next: a call on a driver, or the return of a call into
one. -/
inductive Op (n : ℕ)
  | startDriver (d : Fin n)
  | stopDriver (d : Fin n) (canStopDriver : Bool)
  | restartDriver (d : Fin n) (canRestartDriver : Bool)
  | failDriver (d : Fin n)
  | onStartReturns (d : Fin n) (ok : Bool)
  | onStopReturns (d : Fin n) (ok : Bool)
  | onStopToRestartReturns (d : Fin n) (ok : Bool)
  | terminateToRestartReturns (d : Fin n)
  | subscribeMemory (d : Fin n) (start size : ℕ)
  | unsubscribeMemory (d : Fin n) (start size : ℕ)
  | unsubscribeAllMemory (d : Fin n)
  deriving DecidableEq, Repr

/-- One step. -/
def step (T : Target) (layout : Layout) (s : System n) : Op n → System n
  | .startDriver d => startDriver s d
  | .stopDriver d canStopDriver => stopDriver s d canStopDriver
  | .restartDriver d canRestartDriver => restartDriver s d canRestartDriver
  | .failDriver d => failDriver s d
  | .onStartReturns d ok => onStartReturns s d ok
  | .onStopReturns d ok => onStopReturns s d ok
  | .onStopToRestartReturns d ok => onStopToRestartReturns s d ok
  | .terminateToRestartReturns d => terminateToRestartReturns s d
  | .subscribeMemory d start size =>
    match DriverApi.subscribeMemory T (environment layout s d) (s.memory d) start size with
    | .ok (_, ranges) => s.setMemory d ranges
    | .error _ => s
  | .unsubscribeMemory d start size =>
    s.setMemory d (DriverApi.unsubscribeMemory T (s.memory d) start size)
  | .unsubscribeAllMemory d => s.unsubscribeAllMemory d

/-- Only a call that was entered returns. -/
def Returns (s : System n) : Op n → Prop
  | .onStartReturns d _ => .onStart d ∈ s.entered
  | .onStopReturns d _ => .onStop d ∈ s.entered
  | .onStopToRestartReturns d _ => .onStopToRestart d ∈ s.entered
  | .terminateToRestartReturns d => .terminateToRestart d ∈ s.entered
  | .startDriver _ | .stopDriver _ _ | .restartDriver _ _ | .failDriver _ | .subscribeMemory _ _ _
  | .unsubscribeMemory _ _ _ | .unsubscribeAllMemory _ => True

instance (s : System n) (op : Op n) : Decidable (Returns s op) := by
  cases op <;> simp only [Returns] <;> infer_instance

/-! ## Who a step concerns -/

section Fields

variable (s : System n) (d e : Fin n)

@[simp] theorem memory_setState (state : DriverState) : (s.setState d state).memory e = s.memory e := by
  unfold System.memory System.setState
  by_cases h : e = d
  · subst h
    simp
  · simp [h]

@[simp] theorem memory_setMemory_self (ranges : List MemoryRange) :
    (s.setMemory d ranges).memory d = ranges := by
  simp [System.memory, System.setMemory]

theorem memory_setMemory_of_ne {e : Fin n} (h : e ≠ d) (ranges : List MemoryRange) :
    (s.setMemory d ranges).memory e = s.memory e := by
  simp [System.memory, System.setMemory, h]

@[simp] theorem memory_enter (call : Entered n) : (s.enter call).memory e = s.memory e := rfl

@[simp] theorem memory_leave (call : Entered n) : (s.leave call).memory e = s.memory e := rfl

@[simp] theorem memory_apiStartDriver : (apiStartDriver s d).memory e = s.memory e := by
  unfold apiStartDriver
  split <;> rfl

@[simp] theorem memory_startDriver : (startDriver s d).memory e = s.memory e := by
  unfold startDriver
  split
  · rfl
  · exact memory_apiStartDriver s d e

@[simp] theorem memory_unsubscribeAllMemory_self : (s.unsubscribeAllMemory d).memory d = [] := by
  simp [System.unsubscribeAllMemory, DriverApi.unsubscribeAllMemory, PodArray.clear]

theorem memory_unsubscribeAllMemory_of_ne {e : Fin n} (h : e ≠ d) :
    (s.unsubscribeAllMemory d).memory e = s.memory e := memory_setMemory_of_ne s d h _

/-- Unsubscribing all of a driver's memory leaves each driver what it had
or nothing. -/
theorem memory_unsubscribeAllMemory :
    (s.unsubscribeAllMemory d).memory e = s.memory e ∨ (s.unsubscribeAllMemory d).memory e = [] := by
  by_cases h : e = d
  · subst h
    exact Or.inr (memory_unsubscribeAllMemory_self s e)
  · exact Or.inl (memory_unsubscribeAllMemory_of_ne s d h)

end Fields

end Drivers

end Uberos
