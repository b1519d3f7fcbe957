import Uberos.Library.Run
import Uberos.PodArray
/-!
# The timer queue

`TimerQueue` of `drivers/Timer.inl` over timer 0 of its driver. The clock
counts microseconds and `now64` is what a word of it shows;
`set_timer(0, usecs, …)` is taken to mean what it says, that the timer
fires once, that many microseconds from now. What the callbacks do is
given with an expiry, and may differ from one to the next.
-/

namespace Uberos

/-- `TimerQueue::Scheduled`. -/
structure Scheduled (Callback Data : Type) where
  time : BitVec 64
  callback : Callback
  id : BitVec 32
  data : Data
  deriving DecidableEq, Repr

/-- `TimerQueue`, the clock, and when timer 0 fires if it is armed. -/
structure TimerQueue (Callback Data : Type) where
  nextTimerId : BitVec 32
  scheduledCallbacks : List (Scheduled Callback Data)
  scheduledImportantCallbacks : List (Scheduled Callback Data)
  nextScheduledTime : BitVec 64
  clock : ℕ
  timer : Option ℕ
  deriving DecidableEq, Repr

namespace TimerQueue

variable {Callback Data : Type}

/-- A queue as it is constructed. -/
def new (clock : ℕ) : TimerQueue Callback Data := ⟨0, [], [], 0, clock, none⟩

variable (q : TimerQueue Callback Data)

/-- `now64`. -/
def now64 : BitVec 64 := BitVec.ofNat 64 q.clock

/-- `set_timer`, of timer 0. -/
def setTimer (usecs : BitVec 32) : TimerQueue Callback Data :=
  { q with timer := some (q.clock + usecs.toNat) }

/-- `set_timer(0, _nextScheduledTime = time, …)`: the time becomes the
number of microseconds, of which the low word is passed. -/
def arm (time : BitVec 64) : TimerQueue Callback Data :=
  { q with nextScheduledTime := time }.setTimer (time.setWidth 32)

/-- `maths::min`. -/
def minTime (x y : BitVec 64) : BitVec 64 := if x ≤ y then x else y

/-- `time - existing > 0xffffffff<<2`, where the shift is of 32 bits. -/
def lower (time existing : BitVec 64) : Bool :=
  decide ((0xffffffff#32 <<< 2).setWidth 64 < time - existing)

/-! ## Scheduling -/

/-- Either queue. -/
def queue : Bool → List (Scheduled Callback Data)
  | true => q.scheduledImportantCallbacks
  | false => q.scheduledCallbacks

def setQueue : Bool → List (Scheduled Callback Data) → TimerQueue Callback Data
  | true, entries => { q with scheduledImportantCallbacks := entries }
  | false, entries => { q with scheduledCallbacks := entries }

/-- Where the loops insert: at the first entry, past those whose time is
zero, than which the time is lower. -/
def position (time : BitVec 64) (entries : List (Scheduled Callback Data)) : Option ℕ :=
  entries.findIdx? fun existing => existing.time ≠ 0 && lower time existing.time

/-- The timer for a new first entry, and the first of the other queue. -/
def armFirst (time : BitVec 64) (other : List (Scheduled Callback Data)) :
    TimerQueue Callback Data :=
  match other with
  | first :: _ => if first.time > 0 then q.arm (minTime time first.time) else q.arm time
  | [] => q.arm time

/-- `schedule` on one queue or the other. -/
def scheduleOn (important : Bool) (usecs : BitVec 32) (callback : Callback) (data : Data) :
    BitVec 32 × TimerQueue Callback Data :=
  let time := q.now64 + usecs.setWidth 64
  let entry : Scheduled Callback Data := ⟨time, callback, q.nextTimerId, data⟩
  match position time (q.queue important) with
  | some i =>
    let inserted := q.setQueue important (PodArray.insert (q.queue important) i entry)
    let armed := if i = 0 then inserted.armFirst time (q.queue !important) else inserted
    (q.nextTimerId, { armed with nextTimerId := q.nextTimerId + 1 })
  | none =>
    let pushed := q.setQueue important (PodArray.pushBack (q.queue important) entry)
    (q.nextTimerId, { pushed with nextTimerId := q.nextTimerId + 1 })

/-- `schedule`. -/
def schedule (usecs : BitVec 32) (callback : Callback) (data : Data) :
    BitVec 32 × TimerQueue Callback Data := q.scheduleOn false usecs callback data

/-- `schedule_important`. -/
def scheduleImportant (usecs : BitVec 32) (callback : Callback) (data : Data) :
    BitVec 32 × TimerQueue Callback Data := q.scheduleOn true usecs callback data

/-! ## Expiring -/

/-- What a callback does to the queue: it takes time, and schedules. -/
inductive Act (Callback Data : Type)
  | schedule (usecs : BitVec 32) (callback : Callback) (data : Data)
  | scheduleImportant (usecs : BitVec 32) (callback : Callback) (data : Data)
  | elapse (usecs : ℕ)
  deriving DecidableEq, Repr

def act : Act Callback Data → TimerQueue Callback Data
  | .schedule usecs callback data => (q.schedule usecs callback data).2
  | .scheduleImportant usecs callback data => (q.scheduleImportant usecs callback data).2
  | .elapse usecs => { q with clock := q.clock + usecs }

/-- The callback of the entry at an index is called. -/
def call (calls : Scheduled Callback Data → List (Act Callback Data)) (important : Bool) (i : ℕ) :
    TimerQueue Callback Data :=
  match (q.queue important)[i]? with
  | some entry => (calls entry).foldl act q
  | none => q

/-- One block of `_on_schedule_timer`: the entries that are lower than the
time are set to zero, called, and shifted out. -/
def drain (calls : Scheduled Callback Data → List (Act Callback Data)) (time : BitVec 64)
    (important : Bool) : TimerQueue Callback Data :=
  let due := (q.queue important).takeWhile fun existing => lower existing.time time
  let count := due.length
  let zeroed := q.setQueue important <|
    (due.map fun existing => { existing with time := 0 }) ++ (q.queue important).drop count
  let called := (List.range count).foldl (fun q i => q.call calls important i) zeroed
  called.setQueue important (PodArray.shiftLeft (called.queue important) count)

/-- The end of `_on_schedule_timer`. -/
def rearm : TimerQueue Callback Data :=
  match q.scheduledCallbacks, q.scheduledImportantCallbacks with
  | callback :: _, important :: _ => q.arm (minTime callback.time important.time)
  | callback :: _, [] => q.arm callback.time
  | [], important :: _ => q.arm important.time
  | [], [] => q

/-- `_on_schedule_timer`. -/
def onScheduleTimer (calls : Scheduled Callback Data → List (Act Callback Data)) :
    TimerQueue Callback Data :=
  let time := q.nextScheduledTime
  ((q.drain calls time true).drain calls time false).rearm

/-! ## Steps -/

/-- What can happen next. -/
inductive Op (Callback Data : Type)
  | act (act : Act Callback Data)
  /-- The timer fires, if its time has come. -/
  | expire (calls : Scheduled Callback Data → List (Act Callback Data))

/-- One step. -/
def step (q : TimerQueue Callback Data) : Op Callback Data → TimerQueue Callback Data
  | .act act => q.act act
  | .expire calls =>
    match q.timer with
    | some deadline =>
      if deadline ≤ q.clock then { q with timer := none }.onScheduleTimer calls else q
    | none => q

end TimerQueue

/-!
## Whether the timer is armed

The timer is set when an entry goes in at the front, before another, and
when `_on_schedule_timer` leaves entries behind. An entry that is pushed
at the back does not set it, and the first of an empty queue is pushed:
so from the first call on there is an entry, and no timer to call it.
-/

namespace TimerQueue

open Library

variable {Callback Data : Type} {q : TimerQueue Callback Data} {op : Op Callback Data}
variable {important : Bool} {usecs : BitVec 32} {callback : Callback} {data : Data}

/-! ## What it is for -/

/-- The entries of both queues. -/
def pending (q : TimerQueue Callback Data) : List (Scheduled Callback Data) :=
  q.scheduledCallbacks ++ q.scheduledImportantCallbacks

/-- No entry is due before this one. -/
def Earliest (q : TimerQueue Callback Data) (entry : Scheduled Callback Data) : Prop :=
  entry ∈ q.pending ∧ ∀ other ∈ q.pending, entry.time ≤ other.time

/-- **While there are entries the timer is armed for the earliest**, or to
fire at once if that is past. -/
def Armed (q : TimerQueue Callback Data) : Prop :=
  q.pending ≠ [] → ∃ entry deadline, q.Earliest entry ∧ q.timer = some deadline ∧
    max deadline q.clock = max entry.time.toNat q.clock

/-- A call of `schedule` or `schedule_important`. -/
def Op.Schedules : Op Callback Data → Prop
  | .act (.schedule _ _ _) | .act (.scheduleImportant _ _ _) => True
  | .act (.elapse _) | .expire _ => False

/-! ## What a call pushes -/

@[simp] theorem timer_setQueue (entries : List (Scheduled Callback Data)) :
    (q.setQueue important entries).timer = q.timer := by
  cases important <;> rfl

theorem mem_pending_queue {entry : Scheduled Callback Data} (h : entry ∈ q.queue important) :
    entry ∈ q.pending := by
  cases important with
  | false => exact List.mem_append_left _ h
  | true => exact List.mem_append_right _ h

@[simp] theorem queue_setQueue (entries : List (Scheduled Callback Data)) :
    (q.setQueue important entries).queue important = entries := by
  cases important <;> rfl

/-- The entry a call adds. -/
def entryOf (q : TimerQueue Callback Data) (usecs : BitVec 32) (callback : Callback)
    (data : Data) : Scheduled Callback Data :=
  ⟨q.now64 + usecs.setWidth 64, callback, q.nextTimerId, data⟩

/-- **A call that finds no later entry does not set the timer.** -/
theorem scheduleOn_of_last (callback : Callback) (data : Data)
    (h : position (q.now64 + usecs.setWidth 64) (q.queue important) = none) :
    (q.scheduleOn important usecs callback data).2.timer = q.timer ∧
      q.entryOf usecs callback data ∈ (q.scheduleOn important usecs callback data).2.pending := by
  have hcall : (q.scheduleOn important usecs callback data).2 =
      { q.setQueue important (PodArray.pushBack (q.queue important)
          (q.entryOf usecs callback data)) with nextTimerId := q.nextTimerId + 1 } := by
    rw [scheduleOn, h]
    rfl
  rw [hcall]
  refine ⟨timer_setQueue _, ?_⟩
  have hmem : q.entryOf usecs callback data ∈ (q.setQueue important
      (PodArray.pushBack (q.queue important) (q.entryOf usecs callback data))).queue important := by
    rw [queue_setQueue]
    exact List.mem_append_right _ List.mem_cons_self
  exact mem_pending_queue hmem

/-- So there is an entry and no timer. -/
theorem not_armed_scheduleOn (htimer : q.timer = none)
    (h : position (q.now64 + usecs.setWidth 64) (q.queue important) = none) :
    ¬ (q.scheduleOn important usecs callback data).2.Armed := by
  intro harmed
  obtain ⟨hsame, hmem⟩ := scheduleOn_of_last callback data h
  obtain ⟨-, deadline, -, hdeadline, -⟩ := harmed (List.ne_nil_of_mem hmem)
  rw [hsame, htimer] at hdeadline
  cases hdeadline

/-! ## Runs that never arm it -/

/-- The call's time is not lower than that of an entry of its queue. -/
def InOrder (q : TimerQueue Callback Data) : Op Callback Data → Prop
  | .act (.schedule usecs _ _) =>
    position (q.now64 + usecs.setWidth 64) q.scheduledCallbacks = none
  | .act (.scheduleImportant usecs _ _) =>
    position (q.now64 + usecs.setWidth 64) q.scheduledImportantCallbacks = none
  | .act (.elapse _) | .expire _ => True

/-- **While calls are in order the timer is never armed**, and nothing is
ever called. -/
theorem unarmed_run (clock : ℕ) (ops : List (Op Callback Data))
    (h : Along step InOrder (new clock) ops) :
    Throughout step (fun q => q.timer = none) (new clock) ops := by
  refine throughout_of_invariant (I := fun q => q.timer = none) h rfl (fun q op hq hop => ?_)
    fun _ hq => hq
  cases op with
  | act act =>
    cases act with
    | schedule usecs callback data =>
      have hlast : position (q.now64 + usecs.setWidth 64) (q.queue false) = none := hop
      exact (scheduleOn_of_last _ _ hlast).1.trans hq
    | scheduleImportant usecs callback data =>
      have hlast : position (q.now64 + usecs.setWidth 64) (q.queue true) = none := hop
      exact (scheduleOn_of_last _ _ hlast).1.trans hq
    | elapse usecs => exact hq
  | expire calls =>
    simp only [step, hq]

/-! ## Every run -/

/-- Nothing is scheduled, and the timer is not armed. -/
def Idle (q : TimerQueue Callback Data) : Prop :=
  q.scheduledCallbacks = [] ∧ q.scheduledImportantCallbacks = [] ∧ q.timer = none

theorem Idle.armed (h : q.Idle) : q.Armed := by
  intro hpending
  rw [pending, h.1, h.2.1] at hpending
  exact absurd rfl hpending

theorem idle_step (h : q.Idle) (hop : ¬ op.Schedules) : (step q op).Idle := by
  cases op with
  | act act =>
    cases act with
    | schedule usecs callback data => exact absurd trivial hop
    | scheduleImportant usecs callback data => exact absurd trivial hop
    | elapse usecs => exact h
  | expire calls =>
    simp only [step, h.2.2]
    exact h

/-- **The first call leaves the timer as it was**, whichever queue it is
for. -/
theorem armed_step_iff (h : q.Idle) : (step q op).Armed ↔ ¬ op.Schedules := by
  refine ⟨fun harmed hop => ?_, fun hop => (idle_step h hop).armed⟩
  obtain ⟨hcallbacks, himportant, htimer⟩ := h
  have hlast : ∀ time, position time ([] : List (Scheduled Callback Data)) = none := fun _ => rfl
  cases op with
  | act act =>
    cases act with
    | schedule usecs callback data =>
      refine not_armed_scheduleOn htimer ?_ harmed
      rw [queue, hcallbacks, hlast]
    | scheduleImportant usecs callback data =>
      refine not_armed_scheduleOn htimer ?_ harmed
      rw [queue, himportant, hlast]
    | elapse usecs => exact hop
  | expire calls => exact hop

/-- **The timer is armed for the earliest entry throughout a run exactly
when there never is one.** -/
theorem armed_run_iff (clock : ℕ) (ops : List (Op Callback Data)) :
    Throughout step Armed (new clock) ops ↔ Along step (fun _ op => ¬ op.Schedules) (new clock) ops :=
  throughout_iff_along_of_invariant ⟨rfl, rfl, rfl⟩ (fun _ => Idle.armed)
    (fun _ _ => armed_step_iff) (fun _ _ => idle_step) ops

/-- One call, for a microsecond from now: the clock passes it, and the
timer has not been armed. -/
theorem not_armed_run :
    ¬ Throughout step Armed (new 5 : TimerQueue Unit Unit)
      [.act (.schedule 1 () ()), .act (.elapse 2), .expire fun _ => []] := by
  intro h
  obtain ⟨-, deadline, -, hdeadline, -⟩ := h.last (by decide)
  cases hdeadline

end TimerQueue

end Uberos
