import Uberos.DriverApi.Lifecycle
/-!
# The events of a driver's lifecycle

`start_driver`, `stop_driver` and `restart_driver` of `kernel/drivers.cpp`
over those of `kernel/DriverApi.cpp`, with what they return and the events
they trigger. A driver's own `_on_start` and `_on_stop`, and the callbacks
of the references to it, succeed or not and may call `fail_driver` on any
driver; a call one of them makes for another driver is a call of its own.
The subscriptions and the reference lists decide none of this.
-/

namespace Uberos

open Library

/-- `DriverApi::Startup`. -/
inductive Startup
  | disabled
  | onDemand
  | automatic
  deriving DecidableEq, Repr

namespace DriverEvents

variable {D : Type*} [DecidableEq D]

variable (D) in
/-- `drivers::Event`, of those the calls trigger. -/
inductive Event
  | driverStarted (driver : D)
  | driverStopped (driver : D) (error : Option String)
  deriving DecidableEq, Repr

def Event.driver : Event D → D
  | .driverStarted driver | .driverStopped driver _ => driver

def Event.isStarted : Event D → Bool
  | .driverStarted _ => true
  | .driverStopped _ _ => false

variable (D) in
/-- What `_on_start` or `_on_stop` returns, and the drivers it fails. -/
structure Outcome where
  result : Except String Unit
  fails : List D

variable (D) in
/-- The states of all drivers, and the events so far. -/
structure System where
  state : D → DriverState
  events : List (Event D)

/-- Drivers as they are constructed. -/
def System.new : System D := ⟨fun _ => .inactive, []⟩

namespace System

variable (s : System D) (d : D)

def isActive : Bool := s.state d == .active

def setState (state : DriverState) : System D :=
  { s with state := Function.update s.state d state }

/-- `events.trigger`. -/
def trigger (event : Event D) : System D := { s with events := s.events ++ [event] }

/-- `DriverApi::fail_driver`. -/
def failDriver : System D := s.setState d .failed

/-- The same, of each of some drivers. -/
def failAll (ds : List D) : System D := ds.foldl failDriver s

/-- The events of one driver. -/
def eventsOf : List (Event D) := s.events.filter (d = ·.driver)

end System

/-! ## `DriverApi` -/

/-- `DriverApi::start_driver`. -/
def apiStartDriver (s : System D) (d : D) (onStart : Outcome D) : Except String Unit × System D :=
  if s.isActive d then (.ok (), s)
  else
    let s := s.failAll onStart.fails
    match onStart.result with
    | .error message => (.error message, s.setState d .failed)
    | .ok () => (.ok (), s.setState d .active)

/-- `DriverApi::stop_driver`. The callbacks of the references fail
`terminated`. -/
def apiStopDriver (s : System D) (d : D) (onStop : Outcome D) (terminated : List D) :
    Except String Unit × System D :=
  if s.isActive d then
    let s := s.failAll onStop.fails
    match onStop.result with
    | .error message => (.error message, s)
    | .ok () => (.ok (), (s.setState d .inactive).failAll terminated)
  else (.ok (), s)

/-- `DriverApi::restart_driver`. -/
def apiRestartDriver (s : System D) (d : D) (onStop : Outcome D) (terminated : List D)
    (onStart : Outcome D) : Except String Unit × System D :=
  match apiStopDriver s d onStop terminated with
  | (.error message, s) => (.error message, s)
  | (.ok (), s) => if s.isActive d then (.ok (), s) else apiStartDriver s d onStart

/-! ## `drivers` -/

/-- How `start_driver` and `restart_driver` end. -/
def started (s : System D) (d : D) (failure : String) : Except String Unit × System D :=
  if s.isActive d then (.ok (), s.trigger (.driverStarted d)) else (.error failure, s)

/-- `drivers::start_driver`. -/
def startDriver (s : System D) (d : D) (onStart : Outcome D) : Except String Unit × System D :=
  if s.isActive d then (.ok (), s)
  else
    match apiStartDriver s d onStart with
    | (.error message, s) =>
      if s.isActive d then started s d "Unable to start driver" else (.error message, s)
    | (.ok (), s) => started s d "Unable to start driver"

/-- `drivers::stop_driver`. What follows a stop asks whether the driver is
disabled, of its startup, and not whether it is active. -/
def stopDriver (startup : D → Startup) (s : System D) (d : D) (canStopDriver : Bool)
    (onStop : Outcome D) (terminated : List D) : Except String Unit × System D :=
  if s.isActive d then
    if canStopDriver then
      match apiStopDriver s d onStop terminated with
      | (.error message, s) => (.error message, s)
      | (.ok (), s) =>
        if startup d = .disabled then (.ok (), s.trigger (.driverStopped d none))
        else (.error "Unable to stop driver", s)
    else (.error "This driver cannot be stopped", s)
  else (.ok (), s)

/-- `drivers::restart_driver`. -/
def restartDriver (s : System D) (d : D) (canRestartDriver : Bool) (onStop : Outcome D)
    (terminated : List D) (onStart : Outcome D) : Except String Unit × System D :=
  if s.isActive d then
    if canRestartDriver then
      match apiRestartDriver s d onStop terminated onStart with
      | (.error message, s) =>
        let s := s.trigger (.driverStopped d (some message))
        if s.isActive d then started s d "Unable to restart driver" else (.error message, s)
      | (.ok (), s) => started s d "Unable to restart driver"
    else (.error "This driver cannot be restarted", s)
  else startDriver s d onStart

/-! ## Calls -/

variable (D) in
/-- A call, and what comes of the hooks and callbacks it runs. -/
inductive Op
  | startDriver (d : D) (onStart : Outcome D)
  | stopDriver (d : D) (canStopDriver : Bool) (onStop : Outcome D) (terminated : List D)
  | restartDriver (d : D) (canRestartDriver : Bool) (onStop : Outcome D) (terminated : List D)
    (onStart : Outcome D)

/-- What a call returns and leaves. -/
def call (startup : D → Startup) (s : System D) : Op D → Except String Unit × System D
  | .startDriver d onStart => startDriver s d onStart
  | .stopDriver d canStopDriver onStop terminated =>
    stopDriver startup s d canStopDriver onStop terminated
  | .restartDriver d canRestartDriver onStop terminated onStart =>
    restartDriver s d canRestartDriver onStop terminated onStart

/-- One call. -/
def step (startup : D → Startup) (s : System D) (op : Op D) : System D := (call startup s op).2

end DriverEvents

end Uberos
