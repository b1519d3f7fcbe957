import Mathlib.Algebra.Group.Nat.Defs
import Uberos.SleepTimer.Waiting
import Uberos.TimerQueue.Placed
/-!
# The queues in the order of their deadlines

What stands in a queue beyond the entries that are being fired is sorted
by deadline, and those of one deadline are in the order they were
scheduled, for as long as every entry is scheduled in reach of those it
finds. The beginning of `_on_schedule_timer` and its end only take entries
from the front.
-/

namespace Uberos

namespace SleepTimer

open Library TimerQueue

variable {Thread User : Type} [DecidableEq Thread]

/-- An entry of a queue. -/
abbrev Entry (Thread User : Type) := Scheduled (Callback Thread User) Unit

/-- A system, and all that has been scheduled in either queue, in that
order. -/
abbrev Recorded (Thread User : Type) := System Thread User × (Bool → List (Entry Thread User))

/-- What a step schedules, and in which queue. -/
def scheduledBy (s : System Thread User) : Op Thread User → Option (Bool × Entry Thread User)
  | .sleep thread usecs =>
    if s.scheduler.state thread ≠ .active ∨ s.scheduler.scheduler thread = false then none
    else some (false, s.queue.entryOf usecs (.wake thread (s.sleeps thread + 1)) ())
  | .schedule important usecs user => some (important, s.queue.entryOf usecs (.other user) ())
  | .pause _ | .resume _ | .terminate _ | .yield | .elapse _ | .expire | .goOn => none

/-- One step, recorded. -/
def recorded (r : Recorded Thread User) (op : Op Thread User) : Recorded Thread User :=
  (step r.1 op,
    match scheduledBy r.1 op with
    | some (important, entry) => Function.update r.2 important (r.2 important ++ [entry])
    | none => r.2)

/-- The entries of a queue beyond those that are being fired. -/
def beyond (s : System Thread User) (important : Bool) : List (Entry Thread User) :=
  match s.drain with
  | some drain =>
    -- those that are being fired stand in front, with deadline zero
    if drain.important = important then (s.queue.queue important).drop drain.count
    else s.queue.queue important
  | none => s.queue.queue important

/-- The entries of one deadline. -/
def ofDeadline (time : BitVec 64) (entries : List (Entry Thread User)) :
    List (Entry Thread User) := entries.filter fun entry => decide (entry.time = time)

/-- **Each queue is sorted by deadline**, and its entries of one deadline
are the last of that deadline that were scheduled, in that order. -/
def Sorted (r : Recorded Thread User) : Prop :=
  ∀ important, Ascending (beyond r.1 important) ∧
    ∀ time, ofDeadline time (beyond r.1 important) <:+ ofDeadline time (r.2 important)

/-- **What is scheduled is in reach of the entries it finds.** -/
def Sound (r : Recorded Thread User) (op : Op Thread User) : Prop :=
  ∀ scheduled ∈ scheduledBy r.1 op, InReach scheduled.2.time (beyond r.1 scheduled.1)

instance (r : Recorded Thread User) (op : Op Thread User) : Decidable (Sound r op) :=
  inferInstanceAs (Decidable (∀ scheduled ∈ scheduledBy r.1 op, _))

variable {s : System Thread User} {r : Recorded Thread User} {op : Op Thread User}
variable {important : Bool} {entry : Entry Thread User}

/-! ## What stands beyond -/

omit [DecidableEq Thread] in
theorem beyond_of_none (h : s.drain = none) : beyond s important = s.queue.queue important := by
  rw [beyond, h]

omit [DecidableEq Thread] in
theorem beyond_congr {s' : System Thread User} (hqueue : s'.queue.queue = s.queue.queue)
    (hdrain : s'.drain = s.drain) : beyond s' important = beyond s important := by
  rw [beyond, beyond, hqueue, hdrain]

omit [DecidableEq Thread] in
/-- **An entry goes in among those beyond.** -/
theorem beyond_scheduleOn (h : Zeroed s.queue s.drain) (usecs : BitVec 32)
    (callback : Callback Thread User) {s' : System Thread User}
    (hqueue : s'.queue = (s.queue.scheduleOn important usecs callback ()).2)
    (hdrain : s'.drain = s.drain) :
    beyond s' important = placed (s.queue.entryOf usecs callback ()) (beyond s important) ∧
      beyond s' (!important) = beyond s (!important) := by
  have hself := queue_scheduleOn_placed s.queue important usecs callback ()
  have hother := queue_scheduleOn_not s.queue important usecs callback ()
  rw [← hqueue] at hself hother
  simp only [beyond, hdrain, hself, hother, and_true]
  cases hd : s.drain with
  | none => rfl
  | some d =>
    dsimp only
    split
    · rename_i himportant
      subst himportant
      obtain ⟨-, zeroed, hlength, ⟨rest, hrest⟩, hzero⟩ := h d hd
      rw [← hrest, placed_zeroed hzero, ← hlength, List.drop_left, List.drop_left]
    · rfl

omit [DecidableEq Thread] in
/-- A block that begins takes what is due from the front. -/
theorem beyond_beginBlock (s : System Thread User) (time : BitVec 64) (block important : Bool) :
    beyond (beginBlock s time block) important <:+ s.queue.queue important := by
  obtain ⟨due, rest, hold, hdrain, hnew, hother⟩ := beginBlock_queue s time block
  rw [beyond, hdrain]
  dsimp only
  split
  · rename_i hblock
    subst hblock
    have hlength : (due.map fun entry => ({ entry with time := 0 } : Entry Thread User)).length =
        due.length := List.length_map _
    rw [hold, hnew, ← hlength, List.drop_left]
    exact List.suffix_append _ _
  · rename_i hblock
    have hnot : important = !block := Bool.eq_not_of_ne fun heq => hblock heq.symm
    rw [hnot, hother]

omit [DecidableEq Thread] in
/-- One that ends leaves what is beyond, and the other block begins, if it
has not. -/
theorem beyond_endBlock {d : Drain} (hd : s.drain = some d) (important : Bool) :
    beyond (endBlock s d) important <:+ beyond s important := by
  have hshift : ∀ important, (s.queue.setQueue d.important
      (PodArray.shiftLeft (s.queue.queue d.important) d.count)).queue important =
        beyond s important := by
    intro important
    rw [beyond, hd]
    dsimp only
    split
    · rename_i heq
      rw [heq, queue_setQueue, PodArray.shiftLeft_eq_drop]
    · rename_i hne
      rw [Bool.eq_not_of_ne fun heq => hne heq.symm, queue_setQueue_not]
  rw [endBlock]
  dsimp only
  split
  · rw [← hshift]
    exact beyond_beginBlock _ _ _ _
  · rw [beyond_of_none rfl]
    dsimp only
    rw [rearm_queue, hshift]

/-! ## One step -/

/-- **What a step schedules goes in beyond**, -/
theorem beyond_step_some (h : Zeroed s.queue s.drain)
    (hscheduled : scheduledBy s op = some (important, entry)) :
    beyond (step s op) important = placed entry (beyond s important) ∧
      beyond (step s op) (!important) = beyond s (!important) := by
  cases op with
  | sleep thread usecs =>
    rw [scheduledBy] at hscheduled
    split at hscheduled
    · cases hscheduled
    · rename_i hactive
      cases hscheduled
      refine beyond_scheduleOn h usecs _ ?_ ?_
      · rw [step, sleep, if_neg hactive]
        rfl
      · rw [step, sleep, if_neg hactive]
  | schedule block usecs user =>
    cases hscheduled
    exact beyond_scheduleOn h usecs _ rfl rfl
  | pause thread => cases hscheduled
  | resume thread => cases hscheduled
  | terminate thread => cases hscheduled
  | yield => cases hscheduled
  | elapse usecs => cases hscheduled
  | expire => cases hscheduled
  | goOn => cases hscheduled

/-- and a step that schedules nothing takes from the front, if anything. -/
theorem beyond_step_none (hscheduled : scheduledBy s op = none) (important : Bool) :
    beyond (step s op) important <:+ beyond s important := by
  cases op with
  | sleep thread usecs =>
    rw [scheduledBy] at hscheduled
    split at hscheduled
    · rename_i hidle
      rw [step, sleep, if_pos hidle]
    · cases hscheduled
  | schedule block usecs user => cases hscheduled
  | pause thread => exact List.suffix_refl _
  | resume thread => exact List.suffix_refl _
  | terminate thread => exact List.suffix_refl _
  | yield => exact List.suffix_refl _
  | elapse usecs =>
    have hqueue : (step s (.elapse usecs)).queue.queue = s.queue.queue := by
      funext important
      cases important <;> rfl
    rw [beyond_congr hqueue rfl]
  | expire =>
    rw [step]
    cases hd : s.drain with
    | none =>
      rw [beyond_of_none hd]
      exact beyond_beginBlock _ _ _ _
    | some d => exact List.suffix_refl _
  | goOn =>
    rw [step, goOn]
    cases hd : s.drain with
    | none => exact List.suffix_refl _
    | some d =>
      dsimp only
      cases hcall : nextCall s with
      | none => exact beyond_endBlock hd important
      | some entry =>
        obtain ⟨hqueue, hdrain⟩ :=
          call_queue (s := { s with drain := some { d with next := d.next + 1 } }) entry
        dsimp only
        rw [beyond, beyond, hdrain, hqueue, hd]

/-- What is due stays in front. -/
theorem zeroed_step (h : Zeroed s.queue s.drain) :
    Zeroed (step s op).queue (step s op).drain := by
  cases op with
  | sleep thread usecs =>
    rw [step, sleep]
    split
    · exact h
    · exact h.scheduleOn false usecs _
  | schedule block usecs user => exact h.scheduleOn block usecs _
  | pause thread => exact h
  | resume thread => exact h
  | terminate thread => exact h
  | yield => exact h
  | elapse usecs => exact h
  | expire =>
    rw [step]
    cases hd : s.drain with
    | none => exact zeroed_beginBlock _ _ _
    | some d => exact h
  | goOn =>
    rw [step, goOn]
    cases hd : s.drain with
    | none => exact h
    | some d =>
      dsimp only
      cases hcall : nextCall s with
      | none => exact zeroed_endBlock s d
      | some entry =>
        obtain ⟨hqueue, hdrain⟩ :=
          call_queue (s := { s with drain := some { d with next := d.next + 1 } }) entry
        obtain ⟨d', hd', hlt, -⟩ := waiting_of_nextCall hcall
        obtain rfl : d = d' := Option.some.inj (hd.symm.trans hd')
        dsimp only
        rw [hqueue, hdrain]
        rintro _ ⟨⟩
        exact ⟨hlt, (h d hd).2⟩

/-! ## Runs -/

/-- What is due is in front, and what is beyond is sorted. -/
def Ordered (r : Recorded Thread User) : Prop := Zeroed r.1.queue r.1.drain ∧ Sorted r

omit [DecidableEq Thread] in
/-- A step that takes from the front keeps the order. -/
theorem Sorted.of_suffix {r' : Recorded Thread User} (h : Sorted r)
    (hbeyond : ∀ important, beyond r'.1 important <:+ beyond r.1 important)
    (hrecord : r'.2 = r.2) : Sorted r' := by
  intro important
  obtain ⟨hascending, hlast⟩ := h important
  refine ⟨hascending.sublist (hbeyond important).sublist, fun time => ?_⟩
  rw [hrecord]
  exact ((hbeyond important).filter _).trans (hlast time)

omit [DecidableEq Thread] in
/-- **One that schedules keeps it exactly if the entry is placed in
order.** -/
theorem Sorted.placed_iff {r' : Recorded Thread User} (h : Sorted r)
    (hself : beyond r'.1 important = placed entry (beyond r.1 important))
    (hother : beyond r'.1 (!important) = beyond r.1 (!important))
    (hrecord : r'.2 = Function.update r.2 important (r.2 important ++ [entry])) :
    Sorted r' ↔ InReach entry.time (beyond r.1 important) := by
  rw [← ascending_placed_iff (h important).1, ← hself]
  refine ⟨fun hsorted => (hsorted important).1, fun hascending block => ?_⟩
  by_cases hblock : block = important
  · subst hblock
    refine ⟨hascending, fun time => ?_⟩
    rw [hself] at hascending ⊢
    -- the new entry is the last of its deadline on both sides
    rw [hrecord, Function.update_self, ofDeadline, ofDeadline, filter_placed hascending,
      List.filter_append]
    exact List.suffix_append_self_iff.2 ((h block).2 time)
  · have hnot : block = !important := Bool.eq_not_of_ne hblock
    rw [hrecord, Function.update_of_ne hblock, hnot, hother]
    exact h (!important)

/-- **The step lemma**: a step keeps the queues sorted exactly when what
it schedules is in reach, -/
theorem Ordered.sorted_iff (h : Ordered r) : Sorted (recorded r op) ↔ Sound r op := by
  obtain ⟨hzeroed, hsorted⟩ := h
  cases hscheduled : scheduledBy r.1 op with
  | none =>
    have hrecord : (recorded r op).2 = r.2 := by rw [recorded, hscheduled]
    refine iff_of_true (hsorted.of_suffix (beyond_step_none hscheduled) hrecord) ?_
    rw [Sound, hscheduled]
    rintro _ ⟨⟩
  | some scheduled =>
    obtain ⟨important, entry⟩ := scheduled
    obtain ⟨hself, hother⟩ := beyond_step_some hzeroed hscheduled
    have hrecord : (recorded r op).2 =
        Function.update r.2 important (r.2 important ++ [entry]) := by
      rw [recorded, hscheduled]
    rw [hsorted.placed_iff hself hother hrecord, Sound, hscheduled]
    refine ⟨fun hreach => ?_, fun hsound => hsound _ rfl⟩
    rintro _ ⟨⟩
    exact hreach

/-- and what is due stays in front. -/
theorem Ordered.recorded (h : Ordered r) (hsound : Sound r op) : Ordered (recorded r op) :=
  ⟨zeroed_step h.1, h.sorted_iff.2 hsound⟩

/-- A run from queues that are sorted. -/
theorem Ordered.run_iff (h : Ordered r) (ops : List (Op Thread User)) :
    Throughout SleepTimer.recorded Sorted r ops ↔ Along SleepTimer.recorded Sound r ops :=
  throughout_iff_along_of_invariant h (fun _ h => h.2) (fun _ _ h => h.sorted_iff)
    (fun _ _ h => h.recorded) ops

/-- A system before anything is scheduled. -/
def start (scheduler : CpuScheduler Thread) (created : Thread → Bool) (clock : ℕ) :
    Recorded Thread User := (System.new scheduler created clock, fun _ => [])

omit [DecidableEq Thread] in
theorem ordered_start (scheduler : CpuScheduler Thread) (created : Thread → Bool) (clock : ℕ) :
    Ordered (start scheduler created clock : Recorded Thread User) := by
  refine ⟨fun d hd => (by cases hd), fun important => ?_⟩
  have hempty : beyond (start scheduler created clock : Recorded Thread User).1 important = [] := by
    cases important <;> rfl
  rw [hempty]
  exact ⟨List.Pairwise.nil, fun time => List.nil_suffix⟩

/-- **The queues stay sorted throughout a run, beyond the entries that are
being fired, exactly as long as what is scheduled is in reach.** -/
theorem sorted_run_iff (scheduler : CpuScheduler Thread) (created : Thread → Bool) (clock : ℕ)
    (ops : List (Op Thread User)) :
    Throughout recorded Sorted (start scheduler created clock) ops ↔
      Along recorded Sound (start scheduler created clock) ops :=
  (ordered_start scheduler created clock).run_iff ops

/-- The kernel's thread alone. -/
def kernelAlone : CpuScheduler Unit :=
  (CpuScheduler.Scheduled.new ⟨(), fun _ => .active, fun _ => 100, fun _ => 100⟩).scheduler

/-- Two entries, of which the second is due nearly `2 ^ 32` later and goes
in front. -/
theorem not_sorted_run :
    ¬ Throughout recorded Sorted (start kernelAlone (fun _ => true) 5)
      [.schedule false 0 (), .schedule false 0xfffffffe ()] := by
  rw [(ordered_start kernelAlone (fun _ => true) 5).run_iff]
  decide

/-- A callback schedules in between, and behind an equal deadline. -/
example : Throughout recorded Sorted (start kernelAlone (fun _ => true) 5)
    [.schedule true 1 0, .schedule true 20 1, .schedule true 0 2, .elapse 10, .expire, .goOn,
      .schedule true 11 3, .schedule true 5 4, .goOn, .goOn] := by
  rw [(ordered_start kernelAlone (fun _ => true) 5).run_iff]
  decide

end SleepTimer

end Uberos
