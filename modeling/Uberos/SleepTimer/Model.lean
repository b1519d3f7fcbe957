import Uberos.CpuScheduler.Model
import Uberos.TimerQueue.Model
/-!
# Threads that sleep

`_on_thread_sleep` of `drivers/CpuScheduler.cpp` and the callback it
schedules, over the scheduler, its threads and the timer queue they share
with others. `_on_schedule_timer` is taken apart where it calls: it
begins, calls one callback after another and ends, and between two calls
come whatever steps the one before makes. When timer 0 fires is up to the
device; it does not while `_on_schedule_timer` runs. The number of a sleep
is kept with its callback, and tells nothing to the code.
-/

namespace Uberos

open Library

namespace SleepTimer

variable {Thread User : Type} [DecidableEq Thread]

/-- A callback, with its data. -/
inductive Callback (Thread User : Type)
  /-- The one of `_on_thread_sleep`, for a thread and the sleep of so many
  it had. -/
  | wake (thread : Thread) (sleep : ℕ)
  | other (user : User)
  deriving DecidableEq, Repr

/-- A queue that callbacks of threads and of others are in. -/
abbrev Queue (Thread User : Type) := TimerQueue (Callback Thread User) Unit

/-- Where `_on_schedule_timer` is: its `time`, the queue it is at, how many
of that are due, and the next one to call. -/
structure Drain where
  time : BitVec 64
  important : Bool
  count : ℕ
  next : ℕ
  deriving DecidableEq, Repr

/-- The scheduler, the threads, and the queue of its timer. -/
structure System (Thread User : Type) where
  scheduler : CpuScheduler Thread
  pendingTimerId : Thread → BitVec 32
  queue : Queue Thread User
  drain : Option Drain
  /-- How many sleeps each thread has had. -/
  sleeps : Thread → ℕ

/-- A scheduler, before anything is scheduled on its timer. Threads are
constructed paused, and a `Process` that creates one makes it active. -/
def System.new (scheduler : CpuScheduler Thread) (created : Thread → Bool) (clock : ℕ) :
    System Thread User where
  scheduler := { scheduler with
    state := fun thread => if created thread then .active else .paused }
  pendingTimerId _ := 0
  queue := TimerQueue.new clock
  drain := none
  sleeps _ := 0

variable (s : System Thread User)

/-! ## Sleeping and waking -/

/-- `Thread::sleep`, with the callback `_on_thread_sleep` schedules. -/
def sleep (thread : Thread) (usecs : BitVec 32) : System Thread User :=
  if s.scheduler.state thread ≠ .active ∨ s.scheduler.scheduler thread = false then s
  else
    let sleeps := s.sleeps thread + 1
    let (id, queue) := s.queue.schedule usecs (.wake thread sleeps) ()
    { s with
      scheduler := s.scheduler.sleep thread
      pendingTimerId := Function.update s.pendingTimerId thread id
      queue := queue
      sleeps := Function.update s.sleeps thread sleeps }

/-- The callback. -/
def wakeUp (thread : Thread) (timerId : BitVec 32) : System Thread User :=
  if s.scheduler.state thread ≠ .sleeping then s
  else if timerId ≠ s.pendingTimerId thread then s
  else { s with scheduler := s.scheduler.resume thread }

/-! ## Expiring -/

/-- A block of `_on_schedule_timer` begins: what is due is set to zero. -/
def beginBlock (time : BitVec 64) (important : Bool) : System Thread User :=
  let due := (s.queue.queue important).takeWhile fun existing => TimerQueue.lower existing.time time
  { s with
    queue := s.queue.setQueue important <|
      (due.map fun existing => { existing with time := 0 }) ++
        (s.queue.queue important).drop due.length
    drain := some ⟨time, important, due.length, 0⟩ }

/-- The entry that is called next, up to the last that is due. -/
def nextCall : Option (Scheduled (Callback Thread User) Unit) :=
  s.drain.bind fun drain =>
    if drain.next < drain.count then (s.queue.queue drain.important)[drain.next]? else none

/-- The call of an entry. What others do then are steps of their own. -/
def call (entry : Scheduled (Callback Thread User) Unit) : System Thread User :=
  match entry.callback with
  | .wake thread _ => wakeUp s thread entry.id
  | .other _ => s

/-- The end of a block: what was called is shifted out, and the other block
begins, or the timer is set. -/
def endBlock (drain : Drain) : System Thread User :=
  let shifted := { s with
    queue := s.queue.setQueue drain.important
      (PodArray.shiftLeft (s.queue.queue drain.important) drain.count)
    drain := none }
  if drain.important then beginBlock shifted drain.time false
  else { shifted with queue := shifted.queue.rearm }

/-- `_on_schedule_timer` goes on to the next call, or past the last. -/
def goOn : System Thread User :=
  match s.drain with
  | none => s
  | some drain =>
    match nextCall s with
    | some entry => call { s with drain := some { drain with next := drain.next + 1 } } entry
    | none => endBlock s drain

/-! ## Steps -/

/-- What can happen next. -/
inductive Op (Thread User : Type)
  | sleep (thread : Thread) (usecs : BitVec 32)
  | pause (thread : Thread)
  | resume (thread : Thread)
  | terminate (thread : Thread)
  | yield
  /-- Others schedule a callback. -/
  | schedule (important : Bool) (usecs : BitVec 32) (user : User)
  | elapse (usecs : ℕ)
  /-- The timer fires. -/
  | expire
  /-- `_on_schedule_timer` goes on. -/
  | goOn
  deriving DecidableEq, Repr

/-- One step. -/
def step (s : System Thread User) : Op Thread User → System Thread User
  | .sleep thread usecs => sleep s thread usecs
  | .pause thread => { s with scheduler := s.scheduler.pause thread }
  | .resume thread => { s with scheduler := s.scheduler.resume thread }
  | .terminate thread => { s with scheduler := s.scheduler.terminate thread }
  | .yield => { s with scheduler := s.scheduler.yield.2 }
  | .schedule important usecs user =>
    { s with queue := (s.queue.scheduleOn important usecs (.other user) ()).2 }
  | .elapse usecs => { s with queue := { s.queue with clock := s.queue.clock + usecs } }
  | .expire =>
    match s.drain with
    | none =>
      beginBlock { s with queue := { s.queue with timer := none } } s.queue.nextScheduledTime true
    | some _ => s
  | .goOn => goOn s

end SleepTimer

end Uberos
