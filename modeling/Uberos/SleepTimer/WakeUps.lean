import Uberos.SleepTimer.Waiting
/-!
# No wake-up is stale or lost

A callback cannot be taken back, so a thread that is resumed early leaves
one behind, and may be asleep again by the time it is called. It goes by
its id: the ids grow, so of the callbacks that wait for a thread the one
of its last sleep alone has the id that the thread keeps. That one waits
for as long as the thread sleeps, since only the call that resumes the
thread takes it.
-/

namespace Uberos

namespace SleepTimer

open Library

variable {Thread User : Type} [DecidableEq Thread]

/-! ## What it is for -/

/-- **A callback that resumes a thread** is of its last sleep, and the
thread is still in it. -/
def Timely (s : System Thread User) (op : Op Thread User) : Prop :=
  op = .goOn → ∀ thread, (step s op).scheduler.state thread ≠ s.scheduler.state thread →
    s.scheduler.state thread = .sleeping ∧
      ∃ entry, nextCall s = some entry ∧ entry.callback = .wake thread (s.sleeps thread)

/-- **A callback waits for every thread that sleeps**, of that sleep and
with the id the thread keeps. -/
def Awaited (s : System Thread User) : Prop :=
  ∀ thread, s.scheduler.state thread = .sleeping →
    Waits s.queue s.drain (.wake thread (s.sleeps thread)) (s.pendingTimerId thread)

/-- The ids do not wrap. -/
def Unwrapped (s : System Thread User) : Op Thread User → Prop
  | .sleep thread _ => s.scheduler.state thread = .active → s.scheduler.scheduler thread = true →
    s.queue.nextTimerId.toNat + 1 < 2 ^ 32
  | .schedule _ _ _ => s.queue.nextTimerId.toNat + 1 < 2 ^ 32
  | .pause _ | .resume _ | .terminate _ | .yield | .elapse _ | .expire | .goOn => True

instance (s : System Thread User) : ∀ op, Decidable (Unwrapped s op)
  | .sleep thread _ => inferInstanceAs (Decidable (s.scheduler.state thread = .active →
    s.scheduler.scheduler thread = true → s.queue.nextTimerId.toNat + 1 < 2 ^ 32))
  | .schedule _ _ _ => inferInstanceAs (Decidable (_ < _))
  | .pause _ | .resume _ | .terminate _ | .yield | .elapse _ | .expire | .goOn =>
    inferInstanceAs (Decidable True)

/-! ## The states of threads -/

section State

variable {scheduler : CpuScheduler Thread} {thread t : Thread}

theorem sleeping_of_update {state : Thread → ThreadState} {set : ThreadState}
    (hset : set ≠ .sleeping) (h : Function.update state thread set t = .sleeping) :
    state t = .sleeping := by
  rw [Function.update_apply] at h
  split at h
  · exact absurd h hset
  · exact h

/-- **Only `sleep` puts a thread to sleep.** -/
theorem sleeping_of_pause (h : (scheduler.pause thread).state t = .sleeping) :
    scheduler.state t = .sleeping := by
  rw [CpuScheduler.pause] at h
  split at h
  · exact h
  · have hpaused : ThreadState.paused ≠ .sleeping := by decide
    dsimp only at h
    split at h <;> exact sleeping_of_update hpaused h

theorem sleeping_of_resume (h : (scheduler.resume thread).state t = .sleeping) :
    scheduler.state t = .sleeping := by
  have hactive : Function.update scheduler.state thread .active t = .sleeping →
      scheduler.state t = .sleeping := sleeping_of_update (by decide)
  rw [CpuScheduler.resume] at h
  split at h
  · exact h
  · dsimp only at h
    split at h <;> exact hactive h
  · dsimp only at h
    split at h <;> exact hactive h
  · exact h

theorem sleeping_of_terminate (h : (scheduler.terminate thread).state t = .sleeping) :
    scheduler.state t = .sleeping := by
  rw [CpuScheduler.terminate] at h
  split at h
  · exact h
  · have hterminated : ThreadState.terminated ≠ .sleeping := by decide
    dsimp only at h
    split at h <;> exact sleeping_of_update hterminated h

/-- What resumes a sleeping thread leaves the others. -/
theorem state_resume (h : scheduler.state thread = .sleeping) :
    (scheduler.resume thread).state = Function.update scheduler.state thread .active := by
  rw [CpuScheduler.resume, h]
  dsimp only
  split <;> rfl

theorem state_yield : scheduler.yield.2.state = scheduler.state := by
  have hrotate : scheduler.rotate.state = scheduler.state := by
    unfold CpuScheduler.rotate
    split
    · split <;> rfl
    · rfl
  unfold CpuScheduler.yield
  dsimp only
  split
  · split <;> exact hrotate
  · exact hrotate

end State

/-! ## What a call does -/

variable {s : System Thread User}
variable {entry : Scheduled (Callback Thread User) Unit}

/-- The entry's callback resumes the thread. -/
def Wakes (s : System Thread User) (entry : Scheduled (Callback Thread User) Unit)
    (thread : Thread) : Prop :=
  s.scheduler.state thread = .sleeping ∧
    ∃ sleep, entry.callback = .wake thread sleep ∧ entry.id = s.pendingTimerId thread

/-- **A callback resumes the thread that sleeps and keeps its id**, and
does nothing else. -/
theorem call_eq (s : System Thread User) (entry : Scheduled (Callback Thread User) Unit) :
    ∃ scheduler, call s entry = { s with scheduler := scheduler } ∧ ∀ thread,
      (Wakes s entry thread → scheduler.state thread = .active) ∧
        (¬ Wakes s entry thread → scheduler.state thread = s.scheduler.state thread) := by
  by_cases h : ∃ thread, Wakes s entry thread
  · obtain ⟨t, hstate, sleep, hcallback, hid⟩ := h
    refine ⟨s.scheduler.resume t, ?_, fun thread => ?_⟩
    · rw [call, hcallback]
      dsimp only
      rw [wakeUp, if_neg (not_not.2 hstate), if_neg (not_not.2 hid)]
    · rw [state_resume hstate]
      by_cases hthread : thread = t
      · subst hthread
        rw [Function.update_self]
        exact ⟨fun _ => rfl, fun hnot => absurd ⟨hstate, sleep, hcallback, hid⟩ hnot⟩
      · rw [Function.update_of_ne hthread]
        refine ⟨fun hwakes => ?_, fun _ => rfl⟩
        obtain ⟨-, sleep', hwake, -⟩ := hwakes
        rw [hcallback] at hwake
        exact absurd (Callback.wake.inj hwake).1.symm hthread
  · refine ⟨s.scheduler, ?_, fun thread => ⟨fun hwakes => absurd ⟨thread, hwakes⟩ h, fun _ => rfl⟩⟩
    show call s entry = s
    rw [call]
    split
    · rename_i thread sleep hcallback
      by_cases hstate : s.scheduler.state thread = .sleeping
      · have hid : entry.id ≠ s.pendingTimerId thread :=
          fun hid => h ⟨thread, hstate, sleep, hcallback, hid⟩
        rw [wakeUp, if_neg (not_not.2 hstate), if_pos hid]
      · rw [wakeUp, if_pos hstate]
    · rfl

omit [DecidableEq Thread] in
/-- The end of a block changes the queue. -/
theorem endBlock_eq (s : System Thread User) (d : Drain) : ∃ queue drain,
    endBlock s d = { s with queue := queue, drain := drain } ∧
      queue.nextTimerId = s.queue.nextTimerId := by
  rw [endBlock]
  dsimp only
  split
  · refine ⟨_, _, rfl, ?_⟩
    rw [TimerQueue.setQueue_nextTimerId, TimerQueue.setQueue_nextTimerId]
  · refine ⟨_, _, rfl, ?_⟩
    rw [TimerQueue.rearm_nextTimerId, TimerQueue.setQueue_nextTimerId]

/-- What `_on_schedule_timer` does next. -/
theorem goOn_cases (s : System Thread User) :
    (s.drain = none ∧ goOn s = s) ∨
      (∃ d entry, s.drain = some d ∧ nextCall s = some entry ∧
        goOn s = call { s with drain := some { d with next := d.next + 1 } } entry) ∨
      ∃ d, s.drain = some d ∧ nextCall s = none ∧ goOn s = endBlock s d := by
  unfold goOn
  cases hdrain : s.drain with
  | none => exact Or.inl ⟨rfl, rfl⟩
  | some d =>
    dsimp only
    cases hcall : nextCall s with
    | none => exact Or.inr (Or.inr ⟨d, rfl, rfl, rfl⟩)
    | some entry => exact Or.inr (Or.inl ⟨d, entry, rfl, rfl, rfl⟩)

/-! ## What every step keeps -/

/-- **Ids grow**, so that of the callbacks that wait for a thread only its
last sleep's has the id it keeps; and while it sleeps, that one waits. -/
structure Kept (s : System Thread User) : Prop where
  zeroed : Zeroed s.queue s.drain
  numbered : ∀ c id, Waits s.queue s.drain c id → id.toNat < s.queue.nextTimerId.toNat
  latest : ∀ thread sleep, Waits s.queue s.drain (.wake thread sleep) (s.pendingTimerId thread) →
    sleep = s.sleeps thread
  awaited : Awaited s

omit [DecidableEq Thread] in
/-- Where nothing is scheduled. -/
theorem Kept.of_waits (h : Kept s) {scheduler : CpuScheduler Thread} {queue : Queue Thread User}
    {drain : Option Drain} (hzeroed : Zeroed queue drain)
    (hnext : queue.nextTimerId = s.queue.nextTimerId)
    (hwaits : ∀ c id, Waits queue drain c id → Waits s.queue s.drain c id)
    (hawaited : ∀ thread, scheduler.state thread = .sleeping →
      Waits queue drain (.wake thread (s.sleeps thread)) (s.pendingTimerId thread)) :
    Kept { s with scheduler := scheduler, queue := queue, drain := drain } where
  zeroed := hzeroed
  numbered c id hc := by
    rw [hnext]
    exact h.numbered c id (hwaits c id hc)
  latest thread sleep hc := h.latest thread sleep (hwaits _ _ hc)
  awaited := hawaited

omit [DecidableEq Thread] in
/-- Where no thread goes to sleep. -/
theorem Kept.of_state (h : Kept s) {scheduler : CpuScheduler Thread}
    (hstate : ∀ t, scheduler.state t = .sleeping → s.scheduler.state t = .sleeping) :
    Kept { s with scheduler := scheduler } :=
  h.of_waits h.zeroed rfl (fun _ _ hc => hc) fun thread hthread =>
    h.awaited thread (hstate thread hthread)

/-- The next id is the old one, and one. -/
theorem toNat_add_one {id : BitVec 32} (h : id.toNat + 1 < 2 ^ 32) :
    (id + 1).toNat = id.toNat + 1 := by
  rw [BitVec.toNat_add]
  exact Nat.mod_eq_of_lt h

/-- What `Thread::sleep` does to a thread it puts to sleep, and to others. -/
theorem sleep_cases (s : System Thread User) (thread : Thread) (usecs : BitVec 32) :
    sleep s thread usecs = s ∨
      s.scheduler.state thread = .active ∧ s.scheduler.scheduler thread = true ∧
        (sleep s thread usecs).queue =
          (s.queue.scheduleOn false usecs (.wake thread (s.sleeps thread + 1)) ()).2 ∧
        (sleep s thread usecs).drain = s.drain ∧
        (sleep s thread usecs).pendingTimerId thread = s.queue.nextTimerId ∧
        (sleep s thread usecs).sleeps thread = s.sleeps thread + 1 ∧
        ∀ t, t ≠ thread → (sleep s thread usecs).pendingTimerId t = s.pendingTimerId t ∧
          (sleep s thread usecs).sleeps t = s.sleeps t ∧
          (sleep s thread usecs).scheduler.state t = s.scheduler.state t := by
  by_cases hguard : s.scheduler.state thread ≠ .active ∨ s.scheduler.scheduler thread = false
  · exact Or.inl (if_pos hguard)
  · have hscheduler : (s.scheduler.sleep thread).state =
        Function.update s.scheduler.state thread .sleeping := by
      rw [CpuScheduler.sleep, if_neg hguard]
      rfl
    rw [sleep, if_neg hguard]
    rw [not_or, not_not, Bool.not_eq_false] at hguard
    refine Or.inr ⟨hguard.1, hguard.2, rfl, rfl, ?_, Function.update_self .., fun t ht => ?_⟩
    · exact (Function.update_self ..).trans (TimerQueue.scheduleOn_fst ..)
    · refine ⟨Function.update_of_ne ht .., Function.update_of_ne ht .., ?_⟩
      show (s.scheduler.sleep thread).state t = _
      rw [hscheduler, Function.update_of_ne ht]

section Schedule

variable {important : Bool} {usecs : BitVec 32} {callback : Callback Thread User}

omit [DecidableEq Thread] in
/-- A call of `schedule` has a higher id than all before. -/
theorem Kept.numbered_scheduleOn (h : Kept s) (hid : s.queue.nextTimerId.toNat + 1 < 2 ^ 32)
    (c : Callback Thread User) (id : BitVec 32)
    (hc : Waits (s.queue.scheduleOn important usecs callback ()).2 s.drain c id) :
    id.toNat < (s.queue.scheduleOn important usecs callback ()).2.nextTimerId.toNat := by
  rw [TimerQueue.scheduleOn_nextTimerId, toNat_add_one hid]
  rcases (waits_scheduleOn important usecs callback h.zeroed c id).1 hc with ⟨-, rfl⟩ | hc
  · omega
  · have := h.numbered c id hc
    omega

/-- Others schedule. -/
theorem Kept.schedule (h : Kept s) (hid : s.queue.nextTimerId.toNat + 1 < 2 ^ 32) (user : User) :
    Kept (step s (.schedule important usecs user)) where
  zeroed := h.zeroed.scheduleOn important usecs (.other user)
  numbered := h.numbered_scheduleOn hid
  latest thread sleep hc := by
    rcases (waits_scheduleOn important usecs (.other user) h.zeroed _ _).1 hc with ⟨hother, -⟩ | hc
    · cases hother
    · exact h.latest thread sleep hc
  awaited thread hthread :=
    (waits_scheduleOn important usecs (.other user) h.zeroed _ _).2 (Or.inr (h.awaited thread hthread))

/-- **A thread that goes to sleep** keeps the id of the new callback, which
none that waits has. -/
theorem Kept.sleep (h : Kept s) {thread : Thread} (hop : Unwrapped s (.sleep thread usecs)) :
    Kept (step s (.sleep thread usecs)) := by
  show Kept (SleepTimer.sleep s thread usecs)
  rcases sleep_cases s thread usecs with hsame | ⟨hactive, hset, hsleep⟩
  · rw [hsame]
    exact h
  · have hid : s.queue.nextTimerId.toNat + 1 < 2 ^ 32 := hop hactive hset
    obtain ⟨hqueue, hdrain, hpending, hsleeps, hother⟩ := hsleep
    have hwaits := waits_scheduleOn false usecs (.wake thread (s.sleeps thread + 1)) h.zeroed
    refine ⟨?_, ?_, fun t sleep hc => ?_, fun t ht => ?_⟩
    · rw [hqueue, hdrain]
      exact h.zeroed.scheduleOn false usecs _
    · rw [hqueue, hdrain]
      exact h.numbered_scheduleOn hid
    · rw [hqueue, hdrain] at hc
      by_cases hthread : t = thread
      · subst hthread
        rw [hpending] at hc
        rcases (hwaits _ _).1 hc with ⟨hwake, -⟩ | hold
        · rw [hsleeps]
          exact (Callback.wake.inj hwake).2
        · -- an older callback has a lower id
          exact absurd (h.numbered _ _ hold) (lt_irrefl _)
      · obtain ⟨hpending', hsleeps', -⟩ := hother t hthread
        rw [hpending'] at hc
        rcases (hwaits _ _).1 hc with ⟨hwake, -⟩ | hold
        · exact absurd (Callback.wake.inj hwake).1 hthread
        · rw [hsleeps']
          exact h.latest t sleep hold
    · rw [hqueue, hdrain]
      by_cases hthread : t = thread
      · subst hthread
        rw [hpending, hsleeps]
        exact (hwaits _ _).2 (Or.inl ⟨rfl, rfl⟩)
      · obtain ⟨hpending', hsleeps', hstate'⟩ := hother t hthread
        rw [hpending', hsleeps']
        exact (hwaits _ _).2 (Or.inr (h.awaited t (hstate' ▸ ht)))

end Schedule

omit [DecidableEq Thread] in
/-- Nothing that waits depends on the clock. -/
theorem Kept.of_clock (h : Kept s) (usecs : ℕ) :
    Kept { s with queue := { s.queue with clock := s.queue.clock + usecs } } := by
  have hwaiting : waiting { s.queue with clock := s.queue.clock + usecs } s.drain =
      waiting s.queue s.drain := by
    cases s.drain <;> rfl
  have hwaits : ∀ c id, Waits { s.queue with clock := s.queue.clock + usecs } s.drain c id ↔
      Waits s.queue s.drain c id := by
    intro c id
    rw [Waits, hwaiting, Waits]
  exact h.of_waits h.zeroed rfl (fun c id => (hwaits c id).1) fun thread hthread =>
    (hwaits _ _).2 (h.awaited thread hthread)

/-- The timer fires. -/
theorem Kept.expire (h : Kept s) : Kept (step s .expire) := by
  rw [step]
  cases hdrain : s.drain with
  | some d => exact h
  | none =>
    have hwaits := waits_beginBlock { s with queue := { s.queue with timer := none } }
      s.queue.nextScheduledTime true
    refine h.of_waits (zeroed_beginBlock _ _ _) TimerQueue.setQueue_nextTimerId (fun c id hc => ?_)
      fun thread hthread => ?_
    · rw [hdrain]
      exact (hwaits c id).1 hc
    · have hc := h.awaited thread hthread
      rw [hdrain] at hc
      exact (hwaits _ _).2 hc

/-- **A call takes its own entry** from those that wait: the thread it was
for, if it slept with its id, is awake. -/
theorem Kept.goOn (h : Kept s) : Kept (step s .goOn) := by
  show Kept (SleepTimer.goOn s)
  rcases goOn_cases s with ⟨-, hsame⟩ | ⟨d, entry, hdrain, hnext, hcall⟩ | ⟨d, hdrain, hnext, hend⟩
  · rw [hsame]
    exact h
  · obtain ⟨d', hd', hlt, hwaiting⟩ := waiting_of_nextCall hnext
    obtain rfl : d' = d := Option.some.inj (hd'.symm.trans hdrain)
    obtain ⟨scheduler, hscheduler, hstates⟩ :=
      call_eq { s with drain := some { d' with next := d'.next + 1 } } entry
    rw [hcall, hscheduler]
    refine h.of_waits ?_ rfl ?_ ?_
    · rintro _ ⟨⟩
      exact ⟨hlt, (h.zeroed d' hdrain).2⟩
    · rintro c id ⟨e, he, hc⟩
      refine ⟨e, ?_, hc⟩
      rw [hwaiting]
      exact List.mem_cons_of_mem _ he
    · intro thread hthread
      -- the call was not for a thread that still sleeps, or had another id
      have hnot : ¬ Wakes { s with drain := some { d' with next := d'.next + 1 } } entry thread := by
        intro hwakes
        rw [(hstates thread).1 hwakes] at hthread
        cases hthread
      have hsleeping : s.scheduler.state thread = .sleeping := by
        rw [(hstates thread).2 hnot] at hthread
        exact hthread
      obtain ⟨e, he, hcallback, hid⟩ := h.awaited thread hsleeping
      rw [hwaiting] at he
      rcases List.mem_cons.1 he with rfl | he
      · exact absurd ⟨hsleeping, _, hcallback, hid⟩ hnot
      · exact ⟨e, he, hcallback, hid⟩
  · have hcount := next_eq_of_nextCall h.zeroed hdrain hnext
    have hwaits := waits_endBlock hdrain hcount
    obtain ⟨queue, drain, heq, hid⟩ := endBlock_eq s d
    have hzeroed := zeroed_endBlock s d
    rw [heq] at hwaits hzeroed
    rw [hend, heq]
    exact h.of_waits hzeroed hid (fun c id => (hwaits c id).1) fun thread hthread =>
      (hwaits _ _).2 (h.awaited thread hthread)

/-- **Every step keeps it.** -/
theorem kept_step (s : System Thread User) (op : Op Thread User) (h : Kept s)
    (hop : Unwrapped s op) : Kept (step s op) := by
  cases op with
  | sleep thread usecs => exact h.sleep hop
  | pause thread => exact h.of_state fun _ => sleeping_of_pause
  | resume thread => exact h.of_state fun _ => sleeping_of_resume
  | terminate thread => exact h.of_state fun _ => sleeping_of_terminate
  | yield =>
    refine h.of_state fun t ht => ?_
    rw [state_yield] at ht
    exact ht
  | schedule important usecs user => exact h.schedule hop user
  | elapse usecs => exact h.of_clock usecs
  | expire => exact h.expire
  | goOn => exact h.goOn

/-- What resumes a thread has the id that it keeps. -/
theorem timely_step (s : System Thread User) (op : Op Thread User) (h : Kept s) : Timely s op := by
  rintro rfl thread hchanged
  change (goOn s).scheduler.state thread ≠ _ at hchanged
  rcases goOn_cases s with ⟨-, hsame⟩ | ⟨d, entry, hdrain, hnext, hcall⟩ | ⟨d, hdrain, hnext, hend⟩
  · rw [hsame] at hchanged
    exact absurd rfl hchanged
  · obtain ⟨scheduler, hscheduler, hstates⟩ :=
      call_eq { s with drain := some { d with next := d.next + 1 } } entry
    rw [hcall, hscheduler] at hchanged
    have hwakes : Wakes s entry thread :=
      by_contra fun hnot => hchanged ((hstates thread).2 hnot)
    obtain ⟨hsleeping, sleep, hcallback, hid⟩ := hwakes
    refine ⟨hsleeping, entry, hnext, ?_⟩
    -- it waited until now, with the id the thread keeps
    obtain ⟨d', -, -, hwaiting⟩ := waiting_of_nextCall hnext
    have hwaits : Waits s.queue s.drain (.wake thread sleep) (s.pendingTimerId thread) := by
      refine ⟨entry, ?_, hcallback, hid⟩
      rw [hwaiting]
      exact List.mem_cons_self
    rw [hcallback, h.latest thread sleep hwaits]
  · obtain ⟨queue, drain, heq, -⟩ := endBlock_eq s d
    rw [hend, heq] at hchanged
    exact absurd rfl hchanged

/-! ## Every run -/

omit [DecidableEq Thread] in
/-- Nothing is scheduled, and no thread sleeps. -/
theorem kept_new (scheduler : CpuScheduler Thread) (created : Thread → Bool) (clock : ℕ) :
    Kept (.new scheduler created clock : System Thread User) := by
  have hempty : ∀ c id, ¬ Waits (TimerQueue.new clock : Queue Thread User) none c id := by
    rintro c id ⟨entry, hentry, -⟩
    exact absurd hentry List.not_mem_nil
  refine ⟨fun d hd => ?_, fun c id hc => absurd hc (hempty c id),
    fun _ _ hc => absurd hc (hempty _ _), fun thread hthread => ?_⟩
  · cases hd
  · change (if created thread then ThreadState.active else .paused) = .sleeping at hthread
    split at hthread <;> cases hthread

/-- **No wake-up is stale, and none is lost**: in every run, whoever else
schedules and however often threads are resumed early, a callback that
resumes a thread is that of the sleep it is in, and one waits for every
thread that sleeps. -/
theorem woken_run (scheduler : CpuScheduler Thread) (created : Thread → Bool) (clock : ℕ)
    (ops : List (Op Thread User)) (hids : Along step Unwrapped (.new scheduler created clock) ops) :
    Along step Timely (.new scheduler created clock) ops ∧
      Throughout step Awaited (.new scheduler created clock) ops := by
  have hnew : Kept (.new scheduler created clock : System Thread User) :=
    kept_new scheduler created clock
  refine ⟨along_of_invariant hids hnew kept_step fun s op h _ => timely_step s op h, ?_⟩
  exact throughout_of_invariant hids hnew kept_step fun _ h => h.awaited

/-- A thread beside the kernel's. -/
def twoThreads : CpuScheduler Bool :=
  CpuScheduler.addThread
    { (CpuScheduler.Scheduled.new ⟨false, fun _ => .active, fun _ => 100, fun _ => 100⟩).scheduler
      with scheduler := fun _ => true } true

/-- It sleeps, is resumed, and sleeps again. The callbacks of both sleeps
are called at once, the first of them to no effect. -/
def sleptTwice : List (Op Bool Unit) :=
  [.elapse (2 ^ 32), .sleep true 10, .resume true, .sleep true 20, .expire, .goOn, .goOn, .goOn,
    .goOn]

theorem woken_run_sleptTwice :
    (Along step Timely (.new twoThreads (fun _ => true) 0) sleptTwice ∧
      Throughout step Awaited (.new twoThreads (fun _ => true) 0) sleptTwice) ∧
      (run step (.new twoThreads (fun _ => true) 0) (sleptTwice.take 7)).scheduler.state true =
        .sleeping ∧
      (run step (.new twoThreads (fun _ => true) 0) sleptTwice).scheduler.state true = .active :=
  ⟨woken_run twoThreads (fun _ => true) 0 sleptTwice (by decide), by decide, by decide⟩

end SleepTimer

end Uberos
