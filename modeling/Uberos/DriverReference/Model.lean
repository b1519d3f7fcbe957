import Uberos.LList
import Uberos.Library.Run
/-!
# References to drivers

`DriverReference` of `kernel/DriverReference.cpp`: a driver and a callback,
and the links of the list `references` of the driver it refers to. A
reference is the address of its object here, where one after the other
may live. The callbacks a driver's stop runs may do anything, and are a
parameter: what they make of the state, if they return. `_on_stop` runs
before anything is changed, so what it does to references comes before
the stop. The subscriptions a stop gives up, which refer to nothing, are
left out.
-/

namespace Uberos

open Library

/-- The fields of all references and drivers. -/
structure References (Ref Driver Callback Data : Type*) where
  links : Links Ref
  driver : Ref → Option Driver
  onTerminated : Ref → Option Callback
  onTerminatedData : Ref → Data
  /-- `references` of each driver. -/
  references : Driver → LList Ref
  /-- Whether each driver's state is `active`. -/
  active : Driver → Bool
  /-- Whether an object lives at the address. -/
  live : Ref → Bool

namespace References

variable {Ref Driver Callback Data : Type*} [DecidableEq Ref] [DecidableEq Driver]

/-- No object lives. -/
def new (links : Links Ref) (data : Ref → Data) (active : Driver → Bool) :
    References Ref Driver Callback Data where
  links := links
  driver _ := none
  onTerminated _ := none
  onTerminatedData := data
  references _ := LList.empty
  active := active
  live _ := false

variable (s : References Ref Driver Callback Data) (r copy : Ref)

/-- `if(driver) driver->references.push_back(*this)`. -/
def pushReference : References Ref Driver Callback Data :=
  match s.driver r with
  | some d =>
    let (links, pushed) := LList.pushBack s.links (s.references d) r
    { s with links := links, references := Function.update s.references d pushed }
  | none => s

/-- `if(driver) driver->references.pop(*this)`. -/
def popReference : References Ref Driver Callback Data :=
  match s.driver r with
  | some d =>
    let (links, popped) := LList.pop s.links (s.references d) r
    { s with links := links, references := Function.update s.references d popped }
  | none => s

/-- `driver = set`. -/
def setDriver (set : Option Driver) : References Ref Driver Callback Data :=
  { s with driver := Function.update s.driver r set }

/-- `onTerminated` and its data are set. -/
def setOnTerminated (onTerminated : Option Callback) (data : Data) :
    References Ref Driver Callback Data :=
  { s with
    onTerminated := Function.update s.onTerminated r onTerminated
    onTerminatedData := Function.update s.onTerminatedData r data }

/-- The fields an object is constructed with. `LListItem` has no links. -/
def initialise (driver : Option Driver) (onTerminated : Option Callback) (data : Data) :
    References Ref Driver Callback Data :=
  { s with
    links := LList.setPrev (LList.setNext s.links r none) r none
    driver := Function.update s.driver r driver
    onTerminated := Function.update s.onTerminated r onTerminated
    onTerminatedData := Function.update s.onTerminatedData r data
    live := Function.update s.live r true }

/-! ## The members -/

/-- `DriverReference(driver, onTerminated, onTerminatedData)`. -/
def construct (driver : Option Driver) (onTerminated : Option Callback) (data : Data) :
    References Ref Driver Callback Data :=
  (s.initialise r driver onTerminated data).pushReference r

/-- `DriverReference(copy)`, which pops the new object. -/
def copyConstruct : References Ref Driver Callback Data :=
  (s.initialise r (s.driver copy) (s.onTerminated copy) (s.onTerminatedData copy)).popReference r

/-- `~DriverReference()`. -/
def destroy : References Ref Driver Callback Data :=
  let s := s.popReference r
  { s with live := Function.update s.live r false }

/-- `operator=(copy)`. -/
def assign : References Ref Driver Callback Data :=
  let s :=
    if s.driver r ≠ s.driver copy then
      ((s.popReference r).setDriver r (s.driver copy)).pushReference r
    else s
  s.setOnTerminated r (s.onTerminated copy) (s.onTerminatedData copy)

/-- `operator=(set)`. -/
def retarget (set : Option Driver) : References Ref Driver Callback Data :=
  if set = s.driver r then s
  else ((s.popReference r).setDriver r set).pushReference r

/-! ## Stopping a driver -/

/-- What a callback makes of the state, unless it does not return. -/
abbrev Invoke (Ref Driver Callback Data : Type*) :=
  Callback → Data → References Ref Driver Callback Data → Option (References Ref Driver Callback Data)

variable (invoke : Invoke Ref Driver Callback Data)

/-- `terminate()`. There is no returning from a callback that is null. -/
def terminate : Option (References Ref Driver Callback Data) :=
  if s.driver r = none then some s
  else
    let s := s.setDriver r none
    (s.onTerminated r).bind fun onTerminated => invoke onTerminated (s.onTerminatedData r) s

/-- The loop of `stop_driver`, which takes each link after its callback,
for so many turns. -/
def terminateAll : ℕ → Option Ref → References Ref Driver Callback Data →
    Option (References Ref Driver Callback Data)
  | _, none, s => some s
  | 0, some _, _ => none
  | turns + 1, some reference, s => do
    let s ← s.terminate reference invoke
    terminateAll turns (s.links.next reference) s

/-- The loop of `LList::clear`, from the item after the head, for so many
turns. There is no writing to an item before it that is null. -/
def unlink : ℕ → Option Ref → Links Ref → Option (Links Ref)
  | _, none, links => some links
  | 0, some _, _ => none
  | turns + 1, some item, links => do
    let prev ← links.prev item
    let links := LList.setPrev (LList.setNext links prev none) item none
    unlink turns (links.next item) links

/-- `references.clear()`. It leaves the ends of the list. -/
def clear (d : Driver) (turns : ℕ) : Option (References Ref Driver Callback Data) :=
  match (s.references d).head with
  | none => some s
  | some head =>
    (unlink turns (s.links.next head) s.links).map fun links =>
      { s with
        links := links
        references := Function.update s.references d { s.references d with size := 0 } }

/-- `stop_driver`, after an `_on_stop` that succeeds or not, with loops of
so many turns at most. -/
def stopDriver (d : Driver) (onStop : Bool) (turns : ℕ) :
    Option (References Ref Driver Callback Data) :=
  if s.active d = false then some s
  else if onStop = false then some s
  else do
    let s := { s with active := Function.update s.active d false }
    let s ← terminateAll invoke turns (s.references d).head s
    s.clear d turns

/-! ## Runs -/

variable (Ref Driver Callback Data) in
/-- What is done to references, and to drivers. -/
inductive Op
  | construct (r : Ref) (driver : Option Driver) (onTerminated : Option Callback) (data : Data)
  | copyConstruct (r copy : Ref)
  | destroy (r : Ref)
  | assign (r copy : Ref)
  | retarget (r : Ref) (set : Option Driver)
  | setOnTerminated (r : Ref) (onTerminated : Option Callback) (data : Data)
  | start (d : Driver)
  | stop (d : Driver) (onStop : Bool) (turns : ℕ)

/-- One of them, unless it does not return. -/
def step (s : References Ref Driver Callback Data) :
    Op Ref Driver Callback Data → References Ref Driver Callback Data
  | .construct r driver onTerminated data => s.construct r driver onTerminated data
  | .copyConstruct r copy => s.copyConstruct r copy
  | .destroy r => s.destroy r
  | .assign r copy => s.assign r copy
  | .retarget r set => s.retarget r set
  | .setOnTerminated r onTerminated data => s.setOnTerminated r onTerminated data
  | .start d => { s with active := Function.update s.active d true }
  | .stop d onStop turns => (s.stopDriver invoke d onStop turns).getD s

/-- An object is constructed where none lives, and used while it does. -/
def Lifetime (s : References Ref Driver Callback Data) : Op Ref Driver Callback Data → Prop
  | .construct r _ _ _ => s.live r = false
  | .copyConstruct r copy => s.live r = false ∧ s.live copy = true
  | .destroy r | .retarget r _ | .setOnTerminated r _ _ => s.live r = true
  | .assign r copy => s.live r = true ∧ s.live copy = true
  | .start _ | .stop _ _ _ => True

end References

end Uberos
