import Uberos.LList
import Uberos.Library.Run
import Mathlib.Algebra.Group.Nat.Defs
import Mathlib.Data.Finset.Basic
/-!
# The scheduler and its threads

`driver::CpuScheduler` of `drivers/CpuScheduler.cpp` with the state
transitions of `kernel/Thread.cpp` that reach it, once `_on_start` has
made the kernel thread current. Threads are the items of four lists and
carry the links of the one they are on; the lists are kept here by the
state they are for. A transition reaches the scheduler through the
thread's own `scheduler` reference, which is a field like the others.
Counters are 32 bits wide. The timer's callbacks and the switch of the
processor's state are left out.
-/

namespace Uberos

open Library

/-- `Thread::State`. -/
inductive ThreadState
  | active
  | sleeping
  | paused
  | terminated
  deriving DecidableEq, Repr

/-- The fields of a `CpuScheduler` and of the threads. -/
structure CpuScheduler (Thread : Type*) where
  links : Links Thread
  state : Thread → ThreadState
  priority : Thread → ℕ
  /-- `thread.process.priority`. -/
  processPriority : Thread → ℕ
  /-- Whether the thread's `scheduler` reference is set. -/
  scheduler : Thread → Bool
  kernelThread : Thread
  currentThread : Thread
  totalActivePriority : ℕ
  /-- `activeThreads`, `sleepingThreads`, `pausedThreads` and
  `terminatedThreads`. -/
  lists : ThreadState → LList Thread

namespace CpuScheduler

variable {Thread : Type*} [DecidableEq Thread]

def minInterval : ℕ := 1000

def averageInterval : ℕ := 30000

def maxInterval : ℕ := 100000

/-- `thread.priority * thread.process.priority`. -/
def product (s : CpuScheduler Thread) (thread : Thread) : ℕ :=
  s.priority thread * s.processPriority thread % 2 ^ 32

/-- `list.push_back(thread)`. -/
def pushOn (s : CpuScheduler Thread) (list : ThreadState) (thread : Thread) : CpuScheduler Thread :=
  let (links, pushed) := LList.pushBack s.links (s.lists list) thread
  { s with links := links, lists := Function.update s.lists list pushed }

/-- `list.pop(thread)`. -/
def popFrom (s : CpuScheduler Thread) (list : ThreadState) (thread : Thread) : CpuScheduler Thread :=
  let (links, popped) := LList.pop s.links (s.lists list) thread
  { s with links := links, lists := Function.update s.lists list popped }

/-- `thread.state = state`. -/
def setState (s : CpuScheduler Thread) (thread : Thread) (state : ThreadState) :
    CpuScheduler Thread :=
  { s with state := Function.update s.state thread state }

/-! ## Adding and removing -/

/-- `add_thread`. -/
def addThread (s : CpuScheduler Thread) (thread : Thread) : CpuScheduler Thread :=
  match s.state thread with
  | .active =>
    pushOn { s with
      totalActivePriority := (s.totalActivePriority + s.product thread) % 2 ^ 32 } .active thread
  | .paused => pushOn s .paused thread
  | .sleeping => pushOn s .sleeping thread
  | .terminated => pushOn s .terminated thread

/-- `list.contains(thread)`. -/
def onList [Fintype Thread] (s : CpuScheduler Thread) (list : ThreadState) (thread : Thread) : Bool :=
  LList.contains s.links (s.lists list) thread

/-- `remove_thread`. -/
def removeThread [Fintype Thread] (s : CpuScheduler Thread) (thread : Thread) : CpuScheduler Thread :=
  if s.onList .terminated thread then popFrom s .terminated thread
  else if s.onList .active thread then
    popFrom { s with
      totalActivePriority :=
        (s.totalActivePriority + 2 ^ 32 - s.product thread) % 2 ^ 32 } .active thread
  else if s.onList .sleeping thread then popFrom s .sleeping thread
  else if s.onList .paused thread then popFrom s .paused thread
  else s

/-! ## Yielding -/

/-- The current thread goes to the end of the active ones. -/
def rotate (s : CpuScheduler Thread) : CpuScheduler Thread :=
  if s.currentThread ≠ s.kernelThread then
    match s.state s.currentThread with
    | .active => pushOn (popFrom s .active s.currentThread) .active s.currentThread
    | .sleeping | .paused | .terminated => s
  else s

/-- The interval of a thread, which is divided by `totalActivePriority`:
`none` where that is zero. -/
def maxTime (s : CpuScheduler Thread) (thread : Thread) : Option ℕ :=
  if s.totalActivePriority = 0 then none
  else
    some (min (max (averageInterval * (s.lists .active).size % 2 ^ 32 * s.product thread % 2 ^ 32 /
      s.totalActivePriority) minInterval) maxInterval)

/-- `_yield`, with the interval it sets the timer to. -/
def yield (s : CpuScheduler Thread) : Option ℕ × CpuScheduler Thread :=
  let oldThread := s.currentThread
  let s := rotate s
  match (s.lists .active).head with
  | some thread =>
    if thread = oldThread then (some maxInterval, { s with currentThread := thread })
    else (maxTime s thread, { s with currentThread := thread })
  | none => (some maxInterval, { s with currentThread := s.kernelThread })

/-! ## Transitions -/

/-- `_on_thread_sleep`. -/
def onThreadSleep (s : CpuScheduler Thread) (thread : Thread) : CpuScheduler Thread :=
  pushOn (popFrom s .active thread) .sleeping thread

/-- `_on_thread_paused`. -/
def onThreadPaused (s : CpuScheduler Thread) (thread : Thread) : CpuScheduler Thread :=
  pushOn (popFrom s .active thread) .paused thread

/-- `_on_thread_paused_resumed`. -/
def onThreadPausedResumed (s : CpuScheduler Thread) (thread : Thread) : CpuScheduler Thread :=
  pushOn (popFrom s .paused thread) .active thread

/-- `_on_thread_sleeping_resumed`. -/
def onThreadSleepingResumed (s : CpuScheduler Thread) (thread : Thread) : CpuScheduler Thread :=
  pushOn (popFrom s .sleeping thread) .active thread

/-- `_on_thread_terminated`: the list it pops from goes by the state of
the current thread. -/
def onThreadTerminated (s : CpuScheduler Thread) (thread : Thread) : CpuScheduler Thread :=
  pushOn (popFrom s (s.state s.currentThread) thread) .terminated thread

/-- `_on_thread_priorities_changed`. -/
def onThreadPrioritiesChanged [Fintype Thread] (s : CpuScheduler Thread) : CpuScheduler Thread :=
  { s with
    totalActivePriority :=
      (LList.walk s.links (Fintype.card Thread) (s.lists .active).head).foldl
        (fun total thread => (total + s.product thread) % 2 ^ 32) 0 }

/-- `Thread::sleep`. -/
def sleep (s : CpuScheduler Thread) (thread : Thread) : CpuScheduler Thread :=
  if s.state thread ≠ .active ∨ s.scheduler thread = false then s
  else onThreadSleep (s.setState thread .sleeping) thread

/-- `Thread::pause`. -/
def pause (s : CpuScheduler Thread) (thread : Thread) : CpuScheduler Thread :=
  if s.state thread ≠ .active then s
  else
    let s := s.setState thread .paused
    if s.scheduler thread then onThreadPaused s thread else s

/-- `Thread::resume`. -/
def resume (s : CpuScheduler Thread) (thread : Thread) : CpuScheduler Thread :=
  match s.state thread with
  | .active => s
  | .sleeping =>
    let s := s.setState thread .active
    if s.scheduler thread then onThreadSleepingResumed s thread else s
  | .paused =>
    let s := s.setState thread .active
    if s.scheduler thread then onThreadPausedResumed s thread else s
  | .terminated => s

/-- `Thread::terminate`. -/
def terminate (s : CpuScheduler Thread) (thread : Thread) : CpuScheduler Thread :=
  if s.state thread = .terminated then s
  else
    let s := s.setState thread .terminated
    if s.scheduler thread then onThreadTerminated s thread else s

/-- `Thread::set_priority`. -/
def setPriority [Fintype Thread] (s : CpuScheduler Thread) (thread : Thread) (set : ℕ) :
    CpuScheduler Thread :=
  if s.priority thread = set then s
  else
    let s := { s with priority := Function.update s.priority thread set }
    if s.scheduler thread then onThreadPrioritiesChanged s else s

/-! ## Runs -/

/-- A scheduler, and the threads that were added to it and not removed. -/
structure Scheduled (Thread : Type*) where
  scheduler : CpuScheduler Thread
  added : Finset Thread

/-- Threads as they are created: in some state, with some priorities, and
with no scheduler. -/
structure Threads (Thread : Type*) where
  kernelThread : Thread
  state : Thread → ThreadState
  priority : Thread → ℕ
  processPriority : Thread → ℕ

/-- A scheduler that has been started. -/
def Scheduled.new (threads : Threads Thread) : Scheduled Thread where
  scheduler :=
    { links := ⟨fun _ => none, fun _ => none⟩
      state := threads.state
      priority := threads.priority
      processPriority := threads.processPriority
      scheduler := fun _ => false
      kernelThread := threads.kernelThread
      currentThread := threads.kernelThread
      totalActivePriority := 0
      lists := fun _ => LList.empty }
  added := ∅

/-- What happens to the scheduler and the threads. -/
inductive Op (Thread : Type*)
  | setScheduler (thread : Thread) (set : Bool)
  | addThread (thread : Thread)
  | removeThread (thread : Thread)
  | yield
  | sleep (thread : Thread)
  | pause (thread : Thread)
  | resume (thread : Thread)
  | terminate (thread : Thread)
  | setPriority (thread : Thread) (set : ℕ)
  deriving DecidableEq, Repr

variable [Fintype Thread]

/-- One step. -/
def step (s : Scheduled Thread) : Op Thread → Scheduled Thread
  | .setScheduler thread set =>
    { s with scheduler :=
      { s.scheduler with scheduler := Function.update s.scheduler.scheduler thread set } }
  | .addThread thread => ⟨addThread s.scheduler thread, insert thread s.added⟩
  | .removeThread thread => ⟨removeThread s.scheduler thread, s.added.erase thread⟩
  | .yield => { s with scheduler := (yield s.scheduler).2 }
  | .sleep thread => { s with scheduler := sleep s.scheduler thread }
  | .pause thread => { s with scheduler := pause s.scheduler thread }
  | .resume thread => { s with scheduler := resume s.scheduler thread }
  | .terminate thread => { s with scheduler := terminate s.scheduler thread }
  | .setPriority thread set => { s with scheduler := setPriority s.scheduler thread set }

end CpuScheduler

end Uberos
