import Uberos.SleepTimer.Model
import Uberos.TimerQueue.Model
import Mathlib.Logic.Function.Iterate
/-!
# The entries that wait

An entry waits from when it is scheduled to when it is called. What is
scheduled while `_on_schedule_timer` runs goes in behind the entries that
it has set to zero, and those it shifts out it has called: so a call of
`schedule` adds its entry to those that wait, a call of a callback takes
its own from them, and nothing else adds or takes any.
-/

namespace Uberos

namespace TimerQueue

variable {Callback Data : Type} {q : TimerQueue Callback Data} {important : Bool}
variable {entries zeroed : List (Scheduled Callback Data)}

/-! ## The queues -/

theorem queue_setQueue_not : (q.setQueue important entries).queue (!important) =
    q.queue (!important) := by
  cases important <;> rfl

theorem setQueue_nextTimerId : (q.setQueue important entries).nextTimerId = q.nextTimerId := by
  cases important <;> rfl

theorem armFirst_queue (time : BitVec 64) : (q.armFirst time entries).queue = q.queue := by
  funext important
  unfold armFirst
  split
  · split <;> cases important <;> rfl
  · cases important <;> rfl

theorem rearm_queue : q.rearm.queue = q.queue := by
  funext important
  unfold rearm
  split <;> cases important <;> rfl

theorem rearm_nextTimerId : q.rearm.nextTimerId = q.nextTimerId := by
  unfold rearm
  split <;> rfl

variable (q) (important) (usecs : BitVec 32) (callback : Callback) (data : Data)

/-- The id is the next. -/
theorem scheduleOn_fst :
    (q.scheduleOn important usecs callback data).1 = q.nextTimerId := by
  unfold scheduleOn
  dsimp only
  split <;> rfl

theorem scheduleOn_nextTimerId :
    (q.scheduleOn important usecs callback data).2.nextTimerId = q.nextTimerId + 1 := by
  unfold scheduleOn
  dsimp only
  split <;> rfl

/-- The other queue stays. -/
theorem queue_scheduleOn_not :
    (q.scheduleOn important usecs callback data).2.queue (!important) = q.queue (!important) := by
  unfold scheduleOn
  dsimp only
  split
  · split
    · show ((q.setQueue _ _).armFirst _ _).queue (!important) = _
      rw [armFirst_queue, queue_setQueue_not]
    · exact queue_setQueue_not
  · exact queue_setQueue_not

/-- Where the entry goes in is a matter of its own queue, the clock and
the next id. -/
theorem queue_scheduleOn_self :
    (q.scheduleOn important usecs callback data).2.queue important =
      match position (q.now64 + usecs.setWidth 64) (q.queue important) with
      | some i => PodArray.insert (q.queue important) i (q.entryOf usecs callback data)
      | none => PodArray.pushBack (q.queue important) (q.entryOf usecs callback data) := by
  cases hposition : position (q.now64 + usecs.setWidth 64) (q.queue important) with
  | none =>
    rw [scheduleOn, hposition]
    exact queue_setQueue _
  | some i =>
    rw [scheduleOn, hposition]
    dsimp only
    split
    · show ((q.setQueue _ _).armFirst _ _).queue important = _
      rw [armFirst_queue, queue_setQueue]
      rfl
    · exact queue_setQueue _

/-- An entry goes in at no index of those that are set to zero. -/
theorem length_le_position {time : BitVec 64} {i : ℕ} (h : position time entries = some i)
    (hfront : zeroed <+: entries) (hzero : ∀ entry ∈ zeroed, entry.time = 0) :
    zeroed.length ≤ i := by
  by_contra hlt
  rw [not_le] at hlt
  obtain ⟨hi, hfound, -⟩ := List.findIdx?_eq_some_iff_getElem.1 h
  have hat : entries[i] = zeroed[i] := (hfront.getElem hlt).symm
  rw [hat, hzero _ (List.getElem_mem hlt)] at hfound
  simp at hfound

/-- **What is scheduled goes in behind the entries that are set to zero.** -/
theorem queue_scheduleOn :
    ∃ before after, q.queue important = before ++ after ∧
      (q.scheduleOn important usecs callback data).2.queue important =
        before ++ q.entryOf usecs callback data :: after ∧
      ∀ zeroed, zeroed <+: q.queue important → (∀ entry ∈ zeroed, entry.time = 0) →
        zeroed <+: before := by
  rw [queue_scheduleOn_self]
  cases hposition : position (q.now64 + usecs.setWidth 64) (q.queue important) with
  | none =>
    exact ⟨q.queue important, [], (List.append_nil _).symm, rfl, fun zeroed hfront _ => hfront⟩
  | some i =>
    refine ⟨(q.queue important).take i, (q.queue important).drop i,
      (List.take_append_drop i _).symm, rfl, fun zeroed hfront hzero => ?_⟩
    exact List.prefix_take_iff.2 ⟨hfront, length_le_position hposition hfront hzero⟩

end TimerQueue

namespace SleepTimer

variable {Thread User : Type}

/-! ## What waits -/

/-- The entries that were scheduled and not called. -/
def waiting (queue : Queue Thread User) :
    Option Drain → List (Scheduled (Callback Thread User) Unit)
  | none => queue.queue true ++ queue.queue false
  | some drain => (queue.queue drain.important).drop drain.next ++ queue.queue (!drain.important)

/-- A callback waits, with this id. -/
def Waits (queue : Queue Thread User) (drain : Option Drain) (callback : Callback Thread User)
    (id : BitVec 32) : Prop :=
  ∃ entry ∈ waiting queue drain, entry.callback = callback ∧ entry.id = id

/-- **What is due is in front, and set to zero.** -/
def Zeroed (queue : Queue Thread User) (drain : Option Drain) : Prop :=
  ∀ d, drain = some d → d.next ≤ d.count ∧ ∃ zeroed, zeroed.length = d.count ∧
    zeroed <+: queue.queue d.important ∧ ∀ entry ∈ zeroed, entry.time = 0

variable {queue : Queue Thread User} {drain : Option Drain} {d : Drain}
variable {entry : Scheduled (Callback Thread User) Unit}

/-- The order in which the queues are looked at is none of the entries'. -/
theorem mem_waiting_none (important : Bool) : entry ∈ waiting queue none ↔
    entry ∈ queue.queue important ∨ entry ∈ queue.queue (!important) := by
  rw [waiting, List.mem_append]
  cases important
  · exact or_comm
  · exact Iff.rfl

theorem mem_waiting_some : entry ∈ waiting queue (some d) ↔
    entry ∈ (queue.queue d.important).drop d.next ∨ entry ∈ queue.queue (!d.important) :=
  List.mem_append

/-! ## Scheduling -/

section Schedule

variable (important : Bool) (usecs : BitVec 32) (callback : Callback Thread User)

/-- **A call of `schedule` adds its entry** to those that wait. -/
theorem mem_waiting_scheduleOn (h : Zeroed queue drain) :
    entry ∈ waiting (queue.scheduleOn important usecs callback ()).2 drain ↔
      entry = queue.entryOf usecs callback () ∨ entry ∈ waiting queue drain := by
  obtain ⟨before, after, hold, hnew, hbehind⟩ :=
    queue.queue_scheduleOn important usecs callback ()
  have hother := queue.queue_scheduleOn_not important usecs callback ()
  have hadded : entry ∈ (queue.scheduleOn important usecs callback ()).2.queue important ↔
      entry = queue.entryOf usecs callback () ∨ entry ∈ queue.queue important := by
    rw [hold, hnew]
    simp only [List.mem_append, List.mem_cons, or_left_comm]
  cases drain with
  | none => rw [mem_waiting_none important, mem_waiting_none important, hadded, hother, or_assoc]
  | some d =>
    obtain ⟨hnext, zeroed, hlength, hfront, hzero⟩ := h d rfl
    by_cases himportant : d.important = important
    · -- it goes in behind those that `_on_schedule_timer` calls
      subst himportant
      obtain ⟨middle, rfl⟩ := hbehind zeroed hfront hzero
      have hle : d.next ≤ zeroed.length := by omega
      simp only [mem_waiting_some, hother, hnew, hold, List.append_assoc,
        List.drop_append_of_le_length hle, List.mem_append, List.mem_cons, or_assoc, or_left_comm]
    · -- all of the queue it goes to waits
      have hflip : d.important = !important := Bool.eq_not_of_ne himportant
      simp only [mem_waiting_some, hflip, hother, Bool.not_not, hadded, or_left_comm]

theorem waits_scheduleOn (h : Zeroed queue drain) (c : Callback Thread User) (id : BitVec 32) :
    Waits (queue.scheduleOn important usecs callback ()).2 drain c id ↔
      (c = callback ∧ id = queue.nextTimerId) ∨ Waits queue drain c id := by
  simp only [Waits, mem_waiting_scheduleOn important usecs callback h]
  constructor
  · rintro ⟨entry, rfl | hmem, rfl, rfl⟩
    · exact Or.inl ⟨rfl, rfl⟩
    · exact Or.inr ⟨entry, hmem, rfl, rfl⟩
  · rintro (⟨rfl, rfl⟩ | ⟨entry, hmem, rfl, rfl⟩)
    · exact ⟨queue.entryOf usecs _ (), Or.inl rfl, rfl, rfl⟩
    · exact ⟨entry, Or.inr hmem, rfl, rfl⟩

/-- The entries in front stay there. -/
theorem Zeroed.scheduleOn (h : Zeroed queue drain) :
    Zeroed (queue.scheduleOn important usecs callback ()).2 drain := by
  intro d hd
  obtain ⟨hnext, zeroed, hlength, hfront, hzero⟩ := h d hd
  refine ⟨hnext, zeroed, hlength, ?_, hzero⟩
  by_cases himportant : d.important = important
  · subst himportant
    obtain ⟨before, after, -, hnew, hbehind⟩ :=
      queue.queue_scheduleOn d.important usecs callback ()
    rw [hnew]
    exact (hbehind zeroed hfront hzero).trans (List.prefix_append _ _)
  · have hflip : d.important = !important := Bool.eq_not_of_ne himportant
    rw [hflip, TimerQueue.queue_scheduleOn_not]
    rw [hflip] at hfront
    exact hfront

end Schedule

/-! ## Calling -/

variable {s : System Thread User}

/-- **The next entry that is called** is the first of those that wait. -/
theorem waiting_of_nextCall (h : nextCall s = some entry) : ∃ d, s.drain = some d ∧
    d.next < d.count ∧
    waiting s.queue s.drain = entry :: waiting s.queue (some { d with next := d.next + 1 }) := by
  obtain ⟨d, hd, hcall⟩ := Option.bind_eq_some_iff.1 h
  obtain ⟨hlt, hat⟩ := Option.ite_none_right_eq_some.1 hcall
  obtain ⟨hin, hget⟩ := List.getElem?_eq_some_iff.1 hat
  refine ⟨d, hd, hlt, ?_⟩
  rw [hd, waiting, waiting, List.drop_eq_getElem_cons hin, hget]
  rfl

/-- Where none is called, all that were due have been. -/
theorem next_eq_of_nextCall (h : Zeroed s.queue s.drain) (hd : s.drain = some d)
    (hcall : nextCall s = none) : d.next = d.count := by
  obtain ⟨hnext, zeroed, hlength, hfront, -⟩ := h d hd
  by_contra hne
  have hlt : d.next < d.count := by omega
  have hin : d.next < (s.queue.queue d.important).length := by
    have := hfront.length_le
    omega
  rw [nextCall, hd, Option.bind_some, if_pos hlt, List.getElem?_eq_getElem hin] at hcall
  cases hcall

/-! ## The blocks -/

section Block

variable (s) (time : BitVec 64) (important : Bool)

/-- **A block that begins** sets those in front to zero, and leaves the
others. -/
theorem beginBlock_queue : ∃ due rest, s.queue.queue important = due ++ rest ∧
    (beginBlock s time important).drain = some ⟨time, important, due.length, 0⟩ ∧
    (beginBlock s time important).queue.queue important =
      (due.map fun entry => { entry with time := 0 }) ++ rest ∧
    (beginBlock s time important).queue.queue (!important) = s.queue.queue (!important) := by
  obtain ⟨rest, hrest⟩ := List.takeWhile_prefix
    (fun existing : Scheduled (Callback Thread User) Unit => TimerQueue.lower existing.time time)
    (l := s.queue.queue important)
  refine ⟨_, rest, hrest.symm, rfl, ?_, TimerQueue.queue_setQueue_not⟩
  rw [beginBlock, TimerQueue.queue_setQueue]
  congr 1
  nth_rewrite 2 [← hrest]
  exact List.drop_left

theorem waits_beginBlock (c : Callback Thread User) (id : BitVec 32) :
    Waits (beginBlock s time important).queue (beginBlock s time important).drain c id ↔
      Waits s.queue none c id := by
  obtain ⟨due, rest, hold, hdrain, hnew, hother⟩ :=
    beginBlock_queue s time important
  rw [hdrain]
  simp only [Waits, mem_waiting_none important, mem_waiting_some, hold, hnew, hother,
    List.drop_zero, List.mem_append, List.mem_map]
  constructor
  · rintro ⟨_, (⟨entry, hmem, rfl⟩ | hmem) | hmem, hc, hid⟩
    · exact ⟨entry, Or.inl (Or.inl hmem), hc, hid⟩
    · exact ⟨_, Or.inl (Or.inr hmem), hc, hid⟩
    · exact ⟨_, Or.inr hmem, hc, hid⟩
  · rintro ⟨entry, (hmem | hmem) | hmem, hc, hid⟩
    · exact ⟨{ entry with time := 0 }, Or.inl (Or.inl ⟨entry, hmem, rfl⟩), hc, hid⟩
    · exact ⟨entry, Or.inl (Or.inr hmem), hc, hid⟩
    · exact ⟨entry, Or.inr hmem, hc, hid⟩

theorem zeroed_beginBlock :
    Zeroed (beginBlock s time important).queue (beginBlock s time important).drain := by
  obtain ⟨due, rest, -, hdrain, hnew, -⟩ :=
    beginBlock_queue s time important
  intro d hd
  rw [hdrain] at hd
  obtain rfl := Option.some.inj hd
  refine ⟨Nat.zero_le _, due.map fun entry => { entry with time := 0 }, List.length_map _, ?_, ?_⟩
  · rw [hnew]
    exact List.prefix_append _ _
  · intro entry hmem
    obtain ⟨-, -, rfl⟩ := List.mem_map.1 hmem
    rfl

end Block

/-- **A block that ends** shifts out what was called. -/
theorem waits_endBlock (hd : s.drain = some d) (hnext : d.next = d.count)
    (c : Callback Thread User) (id : BitVec 32) :
    Waits (endBlock s d).queue (endBlock s d).drain c id ↔ Waits s.queue s.drain c id := by
  have hshift : ∀ q : Queue Thread User, q.queue = (s.queue.setQueue d.important
      (PodArray.shiftLeft (s.queue.queue d.important) d.count)).queue →
      (Waits q none c id ↔ Waits s.queue s.drain c id) := by
    intro q hq
    rw [hd]
    simp only [Waits, mem_waiting_none d.important, mem_waiting_some, hq,
      TimerQueue.queue_setQueue, TimerQueue.queue_setQueue_not, PodArray.shiftLeft_eq_drop, hnext]
  rw [endBlock]
  dsimp only
  split
  · exact (waits_beginBlock _ _ _ c id).trans (hshift _ rfl)
  · exact hshift _ TimerQueue.rearm_queue

theorem zeroed_endBlock (s : System Thread User) (d : Drain) :
    Zeroed (endBlock s d).queue (endBlock s d).drain := by
  rw [endBlock]
  dsimp only
  split
  · exact zeroed_beginBlock _ _ _
  · exact fun _ hd => by cases hd

end SleepTimer

end Uberos

/-!
## An expiry in one piece

`TimerQueue.onScheduleTimer` is `_on_schedule_timer` with what the
callbacks do given beforehand. Taken apart into calls, with what they do
as steps in between, it comes to the same queue: the threads' own
callbacks do nothing to it.
-/

namespace Uberos

namespace SleepTimer

open Library

variable {Thread User : Type} [DecidableEq Thread]

/-- What a callback of others does to the queue. -/
inductive Reaction (User : Type)
  | schedule (important : Bool) (usecs : BitVec 32) (user : User)
  | elapse (usecs : ℕ)
  deriving DecidableEq, Repr

namespace Reaction

/-- As a step. -/
def op : Reaction User → Op Thread User
  | .schedule important usecs user => .schedule important usecs user
  | .elapse usecs => .elapse usecs

/-- As an act of the callback. -/
def act : Reaction User → TimerQueue.Act (Callback Thread User) Unit
  | .schedule false usecs user => .schedule usecs (.other user) ()
  | .schedule true usecs user => .scheduleImportant usecs (.other user) ()
  | .elapse usecs => .elapse usecs

end Reaction

/-- What an entry's callback does to the queue. -/
def reactions (reacts : User → List (Reaction User))
    (entry : Scheduled (Callback Thread User) Unit) : List (Reaction User) :=
  match entry.callback with
  | .wake _ _ => []
  | .other user => reacts user

/-- The acts that are given with an expiry. -/
def calls (reacts : User → List (Reaction User)) (entry : Scheduled (Callback Thread User) Unit) :
    List (TimerQueue.Act (Callback Thread User) Unit) := (reactions reacts entry).map Reaction.act

/-- `_on_schedule_timer` goes on, and what it called does what it does. -/
def turn (reacts : User → List (Reaction User)) (s : System Thread User) : System Thread User :=
  match nextCall s with
  | some entry => run step s (.goOn :: (reactions reacts entry).map Reaction.op)
  | none => run step s [.goOn]

variable {s : System Thread User} {d : Drain} (reacts : User → List (Reaction User))

/-! ## Between two calls -/

/-- The step changes the queue as the act does. -/
theorem step_reaction (h : Zeroed s.queue s.drain) (reaction : Reaction User) :
    (step s reaction.op).queue = s.queue.act reaction.act ∧
      (step s reaction.op).drain = s.drain ∧
      Zeroed (step s reaction.op).queue (step s reaction.op).drain := by
  cases reaction with
  | schedule important usecs user =>
    refine ⟨?_, rfl, h.scheduleOn important usecs (.other user)⟩
    cases important <;> rfl
  | elapse usecs => exact ⟨rfl, rfl, h⟩

theorem run_reactions (h : Zeroed s.queue s.drain) (list : List (Reaction User)) :
    (run step s (list.map Reaction.op)).queue =
        (list.map Reaction.act).foldl TimerQueue.act s.queue ∧
      (run step s (list.map Reaction.op)).drain = s.drain ∧
      Zeroed (run step s (list.map Reaction.op)).queue
        (run step s (list.map Reaction.op)).drain := by
  induction list generalizing s with
  | nil => exact ⟨rfl, rfl, h⟩
  | cons reaction list ih =>
    obtain ⟨hqueue, hdrain, hzeroed⟩ := step_reaction h reaction
    obtain ⟨hqueue', hdrain', hzeroed'⟩ := ih hzeroed
    refine ⟨?_, hdrain'.trans hdrain, hzeroed'⟩
    rw [List.map_cons, List.map_cons, run_cons, List.foldl_cons, hqueue', hqueue]

/-- A call leaves the queue as it is. -/
theorem call_queue (entry : Scheduled (Callback Thread User) Unit) :
    (call s entry).queue = s.queue ∧ (call s entry).drain = s.drain := by
  rw [call]
  split
  · rw [wakeUp]
    split
    · exact ⟨rfl, rfl⟩
    · split <;> exact ⟨rfl, rfl⟩
  · exact ⟨rfl, rfl⟩

/-! ## A block -/

/-- **A turn is a call** where one is left. -/
theorem turn_call (h : Zeroed s.queue s.drain) (hd : s.drain = some d) (hlt : d.next < d.count) :
    (turn reacts s).queue = s.queue.call (calls reacts) d.important d.next ∧
      (turn reacts s).drain = some { d with next := d.next + 1 } ∧
      Zeroed (turn reacts s).queue (turn reacts s).drain := by
  obtain ⟨-, zeroed, hlength, hfront, hzero⟩ := h d hd
  have hin : d.next < (s.queue.queue d.important).length := by
    have := hfront.length_le
    omega
  have hat := List.getElem?_eq_getElem hin
  generalize (s.queue.queue d.important)[d.next] = entry at hat
  have hnext : nextCall s = some entry := by
    rw [nextCall, hd, Option.bind_some, if_pos hlt, hat]
  have hgoOn : step s .goOn = call { s with drain := some { d with next := d.next + 1 } } entry := by
    rw [step, goOn, hd]
    dsimp only
    rw [hnext]
  obtain ⟨hqueue, hdrain⟩ :=
    call_queue (s := { s with drain := some { d with next := d.next + 1 } }) entry
  rw [← hgoOn] at hqueue hdrain
  have hzeroed : Zeroed (step s .goOn).queue (step s .goOn).drain := by
    rw [hqueue, hdrain]
    rintro _ ⟨⟩
    exact ⟨hlt, zeroed, hlength, hfront, hzero⟩
  obtain ⟨hreacted, hdrain', hzeroed'⟩ := run_reactions hzeroed (reactions reacts entry)
  rw [turn, hnext]
  refine ⟨?_, hdrain'.trans hdrain, hzeroed'⟩
  dsimp only
  rw [run_cons, hreacted, hqueue, TimerQueue.call, hat]
  rfl

/-- **The calls that are left of a block.** -/
theorem turn_calls (h : Zeroed s.queue s.drain) (hd : s.drain = some d) {left : ℕ}
    (hleft : d.next + left = d.count) :
    ((turn reacts)^[left] s).queue = (List.range' d.next left).foldl
        (fun q i => q.call (calls reacts) d.important i) s.queue ∧
      ((turn reacts)^[left] s).drain = some { d with next := d.count } := by
  induction left generalizing s d with
  | zero =>
    obtain ⟨time, important, count, next⟩ := d
    obtain rfl : next = count := hleft
    exact ⟨rfl, hd⟩
  | succ left ih =>
    obtain ⟨hqueue, hdrain, hzeroed⟩ := turn_call reacts h hd (by omega)
    have hleft' : d.next + 1 + left = d.count := by omega
    obtain ⟨hqueue', hdrain'⟩ := ih hzeroed hdrain hleft'
    rw [Function.iterate_succ_apply, hqueue', hdrain', hqueue, List.range'_succ, List.foldl_cons]
    exact ⟨rfl, rfl⟩

/-- A turn past the last call ends the block. -/
theorem turn_of_nextCall (hd : s.drain = some d) (hcall : nextCall s = none) :
    turn reacts s = endBlock s d := by
  rw [turn, hcall]
  show goOn s = _
  rw [goOn, hd]
  dsimp only
  rw [hcall]

/-- **A block is drained** by its calls and its end: the queue it leaves
goes to the other block, or is that for which the timer is set. -/
theorem turn_block (s : System Thread User) (time : BitVec 64) (important : Bool) :
    ∃ turns s', (turn reacts)^[turns] (beginBlock s time important) =
        (if important then beginBlock s' time false else { s' with queue := s'.queue.rearm }) ∧
      s'.queue = s.queue.drain (calls reacts) time important ∧ s'.drain = none := by
  obtain ⟨hqueue, hdrain⟩ :=
    turn_calls reacts (zeroed_beginBlock s time important) rfl (Nat.zero_add _)
  dsimp only at hqueue hdrain
  generalize hdue : ((s.queue.queue important).takeWhile fun existing =>
    TimerQueue.lower existing.time time).length = due at hqueue hdrain
  generalize hcalled : (turn reacts)^[due] (beginBlock s time important) = called at hqueue hdrain
  have hcall : nextCall called = none := by
    rw [nextCall, hdrain, Option.bind_some, if_neg (lt_irrefl _)]
  have hend := turn_of_nextCall reacts hdrain hcall
  have hdrained : s.queue.drain (calls reacts) time important =
      called.queue.setQueue important
        (PodArray.shiftLeft (called.queue.queue important) due) := by
    rw [TimerQueue.drain, hqueue, ← List.range_eq_range', ← hdue]
    rfl
  rw [endBlock] at hend
  dsimp only at hend
  rw [← hdrained] at hend
  refine ⟨due + 1, { called with
    queue := s.queue.drain (calls reacts) time important
    drain := none }, ?_, rfl, rfl⟩
  rw [Function.iterate_succ_apply', hcalled]
  exact hend

/-! ## The expiry -/

/-- **Taken apart, an expiry comes to the queue that it does in one
piece**, whatever others do in their callbacks. -/
theorem turn_expire (hidle : s.drain = none) :
    ∃ turns, ((turn reacts)^[turns] (step s .expire)).queue =
        TimerQueue.onScheduleTimer { s.queue with timer := none } (calls reacts) ∧
      ((turn reacts)^[turns] (step s .expire)).drain = none := by
  have hexpire : step s .expire =
      beginBlock { s with queue := { s.queue with timer := none } } s.queue.nextScheduledTime
        true := by
    rw [step, hidle]
  obtain ⟨first, s₁, hfirst, hqueue₁, -⟩ := turn_block reacts
    { s with queue := { s.queue with timer := none } } s.queue.nextScheduledTime true
  obtain ⟨second, s₂, hsecond, hqueue₂, hdrain₂⟩ :=
    turn_block reacts s₁ s.queue.nextScheduledTime false
  rw [if_pos rfl] at hfirst
  rw [if_neg Bool.false_ne_true] at hsecond
  refine ⟨second + first, ?_, ?_⟩
  · rw [hexpire, Function.iterate_add_apply, hfirst, hsecond]
    dsimp only
    rw [hqueue₂, hqueue₁]
    rfl
  · rw [hexpire, Function.iterate_add_apply, hfirst, hsecond]
    exact hdrain₂

end SleepTimer

end Uberos
