import Mathlib.Algebra.Group.Nat.Defs
import Mathlib.Data.List.Perm.Subperm
import Mathlib.Data.List.Sort
import Uberos.SleepTimer.Waiting
/-!
# What an expiry calls

`_on_schedule_timer` with a record of what it calls, each entry with the
time it had, and of what is scheduled meanwhile. Whatever the callbacks
schedule goes in behind the entries that are called, so that these are
what the loop has found, each once, and the rest stays with what is new.
What the loop finds is what is due exactly where the comparison of times,
which leaves out a time equal to that of the expiry and takes one that is
far beyond it for an earlier one, tells so as far as the loop gets.
-/

namespace Uberos

open Library

namespace TimerQueue

variable {Callback Data : Type}

/-- A queue in an expiry, the entries called by then, and those scheduled
in either queue. -/
structure Expiry (Callback Data : Type) where
  queue : TimerQueue Callback Data
  called : List (Bool × Scheduled Callback Data)
  scheduled : Bool → List (Scheduled Callback Data)

namespace Expiry

variable (x : Expiry Callback Data)

/-- One call of `schedule` or `schedule_important`, or some time. -/
def act : Act Callback Data → Expiry Callback Data
  | .schedule usecs callback data =>
    { x with
      queue := x.queue.act (.schedule usecs callback data)
      scheduled := Function.update x.scheduled false
        (x.scheduled false ++ [x.queue.entryOf usecs callback data]) }
  | .scheduleImportant usecs callback data =>
    { x with
      queue := x.queue.act (.scheduleImportant usecs callback data)
      scheduled := Function.update x.scheduled true
        (x.scheduled true ++ [x.queue.entryOf usecs callback data]) }
  | .elapse usecs => { x with queue := x.queue.act (.elapse usecs) }

/-- What the callbacks do, by the queue and the index they are called
from. -/
abbrev Callbacks (Callback Data : Type) :=
  Bool → ℕ → Scheduled Callback Data → List (Act Callback Data)

variable (calls : Callbacks Callback Data)

/-- The callback of the entry at an index is called, whose time was `time`
before it was set to zero. -/
def call (important : Bool) (times : List (BitVec 64)) (i : ℕ) : Expiry Callback Data :=
  match (x.queue.queue important)[i]? with
  | some entry => (calls important i entry).foldl act
      { x with called := x.called ++ [(important, { entry with time := times.getD i 0 })] }
  | none => x

/-- The entries that are lower than the time are set to zero. -/
def zero (due : List (Scheduled Callback Data)) : List (Scheduled Callback Data) :=
  due.map fun existing => { existing with time := 0 }

/-- One block. -/
def drain (time : BitVec 64) (important : Bool) : Expiry Callback Data :=
  let due := (x.queue.queue important).takeWhile fun existing => lower existing.time time
  let count := due.length
  let entries := zero due ++ (x.queue.queue important).drop count
  let zeroed := { x with queue := x.queue.setQueue important entries }
  let called := (List.range count).foldl
    (fun x i => x.call calls important (due.map Scheduled.time) i) zeroed
  { called with
    queue := called.queue.setQueue important <|
      PodArray.shiftLeft (called.queue.queue important) count }

end Expiry

/-- `_on_schedule_timer`. -/
def expiry (q : TimerQueue Callback Data) (calls : Expiry.Callbacks Callback Data) :
    Expiry Callback Data :=
  let time := q.nextScheduledTime
  let x : Expiry Callback Data := ⟨q, [], fun _ => []⟩
  let x := (x.drain calls time true).drain calls time false
  { x with queue := x.queue.rearm }

variable {q : TimerQueue Callback Data} {x x' : Expiry Callback Data}
variable {calls : Expiry.Callbacks Callback Data} {time : BitVec 64} {important : Bool}

/-! ## The record changes nothing -/

theorem queue_act (x : Expiry Callback Data) (a : Act Callback Data) :
    (x.act a).queue = x.queue.act a := by
  cases a <;> rfl

theorem queue_acts (x : Expiry Callback Data) (acts : List (Act Callback Data)) :
    (acts.foldl Expiry.act x).queue = acts.foldl TimerQueue.act x.queue := by
  induction acts generalizing x with
  | nil => rfl
  | cons a acts ih => rw [List.foldl_cons, List.foldl_cons, ih, queue_act]

theorem queue_call (calls : Scheduled Callback Data → List (Act Callback Data))
    (times : List (BitVec 64)) (i : ℕ) :
    (x.call (fun _ _ => calls) important times i).queue = x.queue.call calls important i := by
  rw [Expiry.call, TimerQueue.call]
  rcases (x.queue.queue important)[i]? with - | entry
  · rfl
  · exact queue_acts _ _

theorem queue_drain (calls : Scheduled Callback Data → List (Act Callback Data)) :
    (x.drain (fun _ _ => calls) time important).queue = x.queue.drain calls time important := by
  have hcalls : ∀ (x : Expiry Callback Data) (times : List (BitVec 64)) (is : List ℕ),
      (is.foldl (fun x i => x.call (fun _ _ => calls) important times i) x).queue =
        is.foldl (fun q i => q.call calls important i) x.queue := by
    intro x times is
    induction is generalizing x with
    | nil => rfl
    | cons i is ih => rw [List.foldl_cons, List.foldl_cons, ih, queue_call]
  rw [Expiry.drain, TimerQueue.drain]
  simp only [hcalls, Expiry.zero]

/-- **The queue is what it is without the record.** -/
theorem queue_expiry (calls : Scheduled Callback Data → List (Act Callback Data)) :
    (q.expiry fun _ _ => calls).queue = q.onScheduleTimer calls := by
  rw [expiry, onScheduleTimer]
  simp only [queue_drain]

/-! ## What is scheduled meanwhile -/

/-- **What is added to a queue**, behind the entries at its front: what
was there is there still, with what has been scheduled. -/
def Adds (front : List (Scheduled Callback Data)) (b : Bool) (x x' : Expiry Callback Data) : Prop :=
  ∀ rest, x.queue.queue b = front ++ rest → ∃ rest' news, x'.queue.queue b = front ++ rest' ∧
    x'.scheduled b = x.scheduled b ++ news ∧ rest'.Perm (rest ++ news) ∧ rest.Sublist rest'

variable {front passed : List (Scheduled Callback Data)} {b : Bool}

theorem Adds.of_same (hqueue : x'.queue.queue b = x.queue.queue b)
    (hscheduled : x'.scheduled b = x.scheduled b) : Adds front b x x' := by
  intro rest hrest
  refine ⟨rest, [], hqueue.trans hrest, ?_, ?_, List.Sublist.refl rest⟩
  · rw [hscheduled, List.append_nil]
  · rw [List.append_nil]

theorem Adds.trans {x'' : Expiry Callback Data} (h : Adds front b x x') (h' : Adds front b x' x'') :
    Adds front b x x'' := by
  intro rest hrest
  obtain ⟨rest', news, hrest', hnews, hperm, hsub⟩ := h rest hrest
  obtain ⟨rest'', news', hrest'', hnews', hperm', hsub'⟩ := h' rest' hrest'
  refine ⟨rest'', news ++ news', hrest'', ?_, ?_, hsub.trans hsub'⟩
  · rw [hnews', hnews, List.append_assoc]
  · rw [← List.append_assoc]
    exact hperm'.trans (hperm.append_right news')

/-- Of a whole queue. -/
theorem Adds.exists_news (h : Adds [] b x x') : ∃ news, x'.scheduled b = x.scheduled b ++ news ∧
    (x'.queue.queue b).Perm (x.queue.queue b ++ news) ∧
    (x.queue.queue b).Sublist (x'.queue.queue b) := by
  obtain ⟨rest', news, hrest', hnews, hperm, hsub⟩ := h _ (List.nil_append _).symm
  rw [List.nil_append] at hrest'
  subst hrest'
  exact ⟨news, hnews, hperm, hsub⟩

theorem adds_scheduleOn (hzero : ∀ entry ∈ front, entry.time = 0) (important : Bool)
    (usecs : BitVec 32) (callback : Callback) (data : Data)
    (hqueue : x'.queue = (x.queue.scheduleOn important usecs callback data).2)
    (hscheduled : x'.scheduled = Function.update x.scheduled important
      (x.scheduled important ++ [x.queue.entryOf usecs callback data])) : Adds front b x x' := by
  rcases eq_or_ne b important with rfl | hne
  · intro rest hrest
    obtain ⟨before, after, hbefore, hafter, hfront⟩ :=
      queue_scheduleOn x.queue b usecs callback data
    obtain ⟨middle, rfl⟩ := hfront front ⟨rest, hrest.symm⟩ hzero
    have hsplit : rest = middle ++ after := by
      rw [hbefore, List.append_assoc] at hrest
      exact (List.append_cancel_left hrest).symm
    refine ⟨middle ++ x.queue.entryOf usecs callback data :: after,
      [x.queue.entryOf usecs callback data], ?_, ?_, ?_, ?_⟩
    · rw [hqueue, hafter, List.append_assoc]
    · rw [hscheduled, Function.update_self]
    · rw [hsplit]
      exact List.perm_middle.trans (List.perm_append_singleton _ _).symm
    · rw [hsplit]
      exact (List.sublist_cons_self _ _).append_left middle
  · have hnot : b = !important := by
      cases b <;> cases important <;> first | rfl | exact absurd rfl hne
    refine Adds.of_same ?_ ?_
    · rw [hqueue, hnot, queue_scheduleOn_not]
    · rw [hscheduled, Function.update_of_ne hne]

theorem adds_act (hzero : ∀ entry ∈ front, entry.time = 0) (x : Expiry Callback Data)
    (a : Act Callback Data) : Adds front b x (x.act a) := by
  cases a with
  | schedule usecs callback data => exact adds_scheduleOn hzero false usecs callback data rfl rfl
  | scheduleImportant usecs callback data =>
    exact adds_scheduleOn hzero true usecs callback data rfl rfl
  | elapse usecs => exact Adds.of_same (by cases b <;> rfl) rfl

theorem adds_acts (hzero : ∀ entry ∈ front, entry.time = 0) (x : Expiry Callback Data)
    (acts : List (Act Callback Data)) : Adds front b x (acts.foldl Expiry.act x) := by
  induction acts generalizing x with
  | nil => exact Adds.of_same rfl rfl
  | cons a acts ih => exact (adds_act hzero x a).trans (ih _)

/-- A call is recorded, and what it asks for is added. -/
theorem adds_called (hzero : ∀ entry ∈ front, entry.time = 0) (x : Expiry Callback Data)
    (called : List (Bool × Scheduled Callback Data)) (acts : List (Act Callback Data)) :
    Adds front b x (acts.foldl Expiry.act { x with called := called }) := by
  have hrecorded : Adds front b x { x with called := called } := Adds.of_same rfl rfl
  exact hrecorded.trans (adds_acts hzero _ acts)

theorem called_acts (x : Expiry Callback Data) (acts : List (Act Callback Data)) :
    (acts.foldl Expiry.act x).called = x.called :=
  run_keeps Expiry.called (fun x a => by cases a <;> rfl) x acts

/-! ## One block -/

theorem time_of_mem_zero {entry : Scheduled Callback Data} (h : entry ∈ Expiry.zero passed) :
    entry.time = 0 := by
  obtain ⟨existing, -, rfl⟩ := List.mem_map.1 h
  rfl

/-- **A call is of the entry at its index**, with the time it had. -/
theorem call_eq {i : ℕ} (hi : i < passed.length)
    (hfront : ∃ rest, x.queue.queue b = Expiry.zero passed ++ rest) :
    x.call calls b (passed.map Scheduled.time) i =
      (calls b i { passed[i] with time := 0 }).foldl Expiry.act
        { x with called := x.called ++ [(b, passed[i])] } := by
  obtain ⟨rest, hrest⟩ := hfront
  have hentry : (x.queue.queue b)[i]? = some { passed[i] with time := 0 } := by
    rw [hrest, List.getElem?_append_left (by simpa [Expiry.zero] using hi), Expiry.zero,
      List.getElem?_map, List.getElem?_eq_getElem hi]
    rfl
  have htime : (passed.map Scheduled.time).getD i 0 = passed[i].time := by
    rw [List.getD_eq_getElem?_getD, List.getElem?_map, List.getElem?_eq_getElem hi]
    rfl
  rw [Expiry.call, hentry]
  simp only [htime]

/-- The calls of a block from an index on. -/
theorem calls_spec (calls : Expiry.Callbacks Callback Data) {i n : ℕ} (hn : i + n = passed.length)
    (hfront : ∃ rest, x.queue.queue b = Expiry.zero passed ++ rest) :
    ((List.range' i n).foldl (fun x i => x.call calls b (passed.map Scheduled.time) i) x).called =
        x.called ++ (passed.drop i).map (fun entry => (b, entry)) ∧
      Adds (Expiry.zero passed) b x
        ((List.range' i n).foldl (fun x i => x.call calls b (passed.map Scheduled.time) i) x) ∧
      Adds [] (!b) x
        ((List.range' i n).foldl (fun x i => x.call calls b (passed.map Scheduled.time) i) x) := by
  induction n generalizing i x with
  | zero =>
    have hdrop : passed.drop i = [] := List.drop_of_length_le (by omega)
    rw [hdrop]
    exact ⟨(List.append_nil _).symm, Adds.of_same rfl rfl, Adds.of_same rfl rfl⟩
  | succ n ih =>
    have hi : i < passed.length := by omega
    rw [List.range'_succ, List.foldl_cons, call_eq hi hfront]
    generalize calls b i { passed[i] with time := 0 } = acts
    have hthis : Adds (Expiry.zero passed) b x
        (acts.foldl Expiry.act { x with called := x.called ++ [(b, passed[i])] }) :=
      adds_called (fun _ => time_of_mem_zero) x _ acts
    have hother : Adds [] (!b) x
        (acts.foldl Expiry.act { x with called := x.called ++ [(b, passed[i])] }) :=
      adds_called (fun _ h => absurd h List.not_mem_nil) x _ acts
    obtain ⟨rest, hrest⟩ := hfront
    obtain ⟨rest', -, hrest', -⟩ := hthis rest hrest
    obtain ⟨hcalled, hadds, hadds'⟩ := ih (i := i + 1) (by omega) ⟨rest', hrest'⟩
    refine ⟨?_, hthis.trans hadds, hother.trans hadds'⟩
    rw [hcalled, called_acts, List.drop_eq_getElem_cons hi, List.map_cons, List.append_assoc,
      List.singleton_append]

/-- What a block finds. -/
def found (x : Expiry Callback Data) (time : BitVec 64) (b : Bool) : List (Scheduled Callback Data) :=
  (x.queue.queue b).takeWhile fun existing => lower existing.time time

/-- What it leaves. -/
def behind (x : Expiry Callback Data) (time : BitVec 64) (b : Bool) : List (Scheduled Callback Data) :=
  (x.queue.queue b).dropWhile fun existing => lower existing.time time

theorem queue_eq_found_append (x : Expiry Callback Data) (time : BitVec 64) (b : Bool) :
    x.queue.queue b = found x time b ++ behind x time b :=
  List.takeWhile_append_dropWhile.symm

/-- A block up to its last call. -/
def calling (x : Expiry Callback Data) (calls : Expiry.Callbacks Callback Data) (time : BitVec 64)
    (b : Bool) : Expiry Callback Data :=
  (List.range' 0 (found x time b).length).foldl
    (fun y i => y.call calls b ((found x time b).map Scheduled.time) i)
    { x with queue := x.queue.setQueue b (Expiry.zero (found x time b) ++ behind x time b) }

theorem drain_eq (x : Expiry Callback Data) (calls : Expiry.Callbacks Callback Data)
    (time : BitVec 64) (b : Bool) : x.drain calls time b =
      { calling x calls time b with
        queue := (calling x calls time b).queue.setQueue b <|
          ((calling x calls time b).queue.queue b).drop (found x time b).length } := by
  have hdrop : (x.queue.queue b).drop (found x time b).length = behind x time b := by
    conv_lhs => rw [queue_eq_found_append x time b, List.drop_left]
  have hshift : x.drain calls time b =
      { calling x calls time b with
        queue := (calling x calls time b).queue.setQueue b <|
          PodArray.shiftLeft ((calling x calls time b).queue.queue b) (found x time b).length } := by
    rw [calling, ← hdrop, ← List.range_eq_range']
    rfl
  rw [hshift, PodArray.shiftLeft_eq_drop]

/-- **A block calls what it has found**, each once and in order, and
leaves the rest, with what has been scheduled meanwhile. -/
theorem drain_spec (x : Expiry Callback Data) (calls : Expiry.Callbacks Callback Data)
    (time : BitVec 64) (b : Bool) :
    (x.drain calls time b).called = x.called ++ (found x time b).map (fun entry => (b, entry)) ∧
      (∃ news, (x.drain calls time b).scheduled b = x.scheduled b ++ news ∧
        ((x.drain calls time b).queue.queue b).Perm (behind x time b ++ news) ∧
        (behind x time b).Sublist ((x.drain calls time b).queue.queue b)) ∧
      Adds [] (!b) x (x.drain calls time b) := by
  have hzeroed : (x.queue.setQueue b (Expiry.zero (found x time b) ++ behind x time b)).queue b =
      Expiry.zero (found x time b) ++ behind x time b := queue_setQueue _
  obtain ⟨hcalled, hadds, hother⟩ := calls_spec calls
    (x := { x with queue := x.queue.setQueue b (Expiry.zero (found x time b) ++ behind x time b) })
    (Nat.zero_add (found x time b).length) ⟨_, hzeroed⟩
  obtain ⟨rest', news, hrest', hnews, hperm, hsub⟩ := hadds _ hzeroed
  change (calling x calls time b).queue.queue b = _ at hrest'
  have hlength : (Expiry.zero (found x time b)).length = (found x time b).length :=
    List.length_map _
  have hqueue : (x.drain calls time b).queue.queue b = rest' := by
    rw [drain_eq]
    dsimp only
    rw [queue_setQueue, hrest', ← hlength, List.drop_left]
  refine ⟨?_, ⟨news, ?_, ?_, ?_⟩, ?_⟩
  · rw [drain_eq]
    exact hcalled
  · rw [drain_eq]
    exact hnews
  · rw [hqueue]
    exact hperm
  · rw [hqueue]
    exact hsub
  · have hbefore : Adds [] (!b) x
        { x with queue := x.queue.setQueue b (Expiry.zero (found x time b) ++ behind x time b) } :=
      Adds.of_same queue_setQueue_not rfl
    have hafter : Adds [] (!b) (calling x calls time b) (x.drain calls time b) := by
      rw [drain_eq]
      exact Adds.of_same queue_setQueue_not rfl
    exact (hbefore.trans hother).trans hafter

/-! ## What is due -/

/-- The entries whose deadline has come. -/
def due (time : BitVec 64) (entries : List (Scheduled Callback Data)) :
    List (Scheduled Callback Data) :=
  entries.filter fun entry => entry.time ≤ time

/-- Those whose deadline is later. -/
def later (time : BitVec 64) (entries : List (Scheduled Callback Data)) :
    List (Scheduled Callback Data) :=
  entries.filter fun entry => !decide (entry.time ≤ time)

/-- **One queue is delivered**: of what was pending, what is due is called
and the rest is left, both in the order of the queue; and of what has been
scheduled since, each is called, if it is due, or is left. -/
def DeliveredOn (time : BitVec 64)
    (pending called scheduled left : List (Scheduled Callback Data)) : Prop :=
  ∃ invoked kept, (due time pending).Sublist called ∧ called.Perm (due time pending ++ invoked) ∧
    (∀ entry ∈ invoked, entry.time ≤ time) ∧ scheduled.Perm (invoked ++ kept) ∧
    left.Perm (later time pending ++ kept) ∧ (later time pending).Sublist left

/-- **Exactly what is due is called**, and the important callbacks before
the others. -/
def Delivered (q : TimerQueue Callback Data) (x : Expiry Callback Data) : Prop :=
  ∃ important normal : List (Scheduled Callback Data),
    x.called = important.map (fun entry => (true, entry)) ++
      normal.map (fun entry => (false, entry)) ∧
    DeliveredOn q.nextScheduledTime (q.queue true) important (x.scheduled true)
      (x.queue.queue true) ∧
    DeliveredOn q.nextScheduledTime (q.queue false) normal (x.scheduled false)
      (x.queue.queue false)

/-- **The comparison tells what is due**, as far as the loop gets: what it
passes is due, and what was pending and is due is among it. -/
def Tells (time : BitVec 64) (pending now : List (Scheduled Callback Data)) : Prop :=
  (∀ entry ∈ now.takeWhile (fun existing => lower existing.time time), entry.time ≤ time) ∧
    (due time pending).Sublist (now.takeWhile fun existing => lower existing.time time)

variable {pending now early late left : List (Scheduled Callback Data)}

theorem due_append (time : BitVec 64) (entries more : List (Scheduled Callback Data)) :
    due time (entries ++ more) = due time entries ++ due time more :=
  List.filter_append ..

theorem later_append (time : BitVec 64) (entries more : List (Scheduled Callback Data)) :
    later time (entries ++ more) = later time entries ++ later time more :=
  List.filter_append ..

theorem due_append_later (time : BitVec 64) (entries : List (Scheduled Callback Data)) :
    (due time entries ++ later time entries).Perm entries :=
  List.filter_append_perm _ entries

theorem due_eq_self (h : ∀ entry ∈ now, entry.time ≤ time) : due time now = now :=
  List.filter_eq_self.2 fun entry hentry => decide_eq_true (h entry hentry)

theorem later_eq_nil (h : ∀ entry ∈ now, entry.time ≤ time) : later time now = [] :=
  List.filter_eq_nil_iff.2 fun entry hentry => by simp [h entry hentry]

/-- **A queue is delivered where the comparison tells what is due**, in
what the queue has become when the loop looks through it. -/
theorem deliveredOn_iff (hnow : now.Perm (pending ++ early)) (hpending : pending.Sublist now)
    (hleft : left.Perm (now.dropWhile (fun existing => lower existing.time time) ++ late))
    (hbehind : (now.dropWhile fun existing => lower existing.time time).Sublist left) :
    DeliveredOn time pending (now.takeWhile fun existing => lower existing.time time)
      (early ++ late) left ↔ Tells time pending now := by
  generalize hfound : now.takeWhile (fun existing => lower existing.time time) = passed
  generalize hrest : now.dropWhile (fun existing => lower existing.time time) = rest at hleft hbehind
  have hsplit : now = passed ++ rest := by
    rw [← hfound, ← hrest, List.takeWhile_append_dropWhile]
  rw [Tells, hfound]
  constructor
  · rintro ⟨invoked, kept, hsub, hcalled, hinvoked, -⟩
    refine ⟨fun entry hentry => ?_, hsub⟩
    rcases List.mem_append.1 (hcalled.mem_iff.1 hentry) with hdue | hnew
    · exact of_decide_eq_true (List.mem_filter.1 hdue).2
    · exact hinvoked entry hnew
  · rintro ⟨hdue, hsub⟩
    obtain ⟨invoked, hcalled⟩ := hsub.exists_perm_append
    -- What has been scheduled early and is due was called, or stands behind.
    have hearly : (due time early).Perm (invoked ++ due time rest) := by
      have hboth : (passed ++ due time rest).Perm (due time pending ++ due time early) := by
        have hfilter : (due time now).Perm (due time (pending ++ early)) := hnow.filter _
        rw [hsplit, due_append, due_append, due_eq_self hdue] at hfilter
        exact hfilter
      have hcancel : (due time pending ++ (invoked ++ due time rest)).Perm
          (due time pending ++ due time early) := by
        rw [← List.append_assoc]
        exact (hcalled.symm.append_right _).trans hboth
      exact ((List.perm_append_left_iff _).1 hcancel).symm
    -- What is later stands behind.
    have hlater : later time now = later time rest := by
      rw [hsplit, later_append, later_eq_nil hdue, List.nil_append]
    have hlate : (later time rest).Perm (later time pending ++ later time early) := by
      have hfilter : (later time now).Perm (later time (pending ++ early)) := hnow.filter _
      rw [hlater, later_append] at hfilter
      exact hfilter
    refine ⟨invoked, due time rest ++ later time early ++ late, hsub, hcalled, ?_, ?_, ?_, ?_⟩
    · intro entry hentry
      exact hdue entry (hcalled.mem_iff.2 (List.mem_append_right _ hentry))
    · have hsplitEarly : early.Perm (invoked ++ due time rest ++ later time early) :=
        (due_append_later time early).symm.trans (hearly.append_right _)
      simpa only [List.append_assoc] using hsplitEarly.append_right late
    · have hsplitRest : rest.Perm (later time pending ++ (due time rest ++ later time early)) := by
        refine (due_append_later time rest).symm.trans ((hlate.append_left _).trans ?_)
        rw [← List.append_assoc, ← List.append_assoc]
        exact List.perm_append_comm.append_right _
      simpa only [List.append_assoc] using hleft.trans (hsplitRest.append_right late)
    · have hrests : (later time pending).Sublist (later time rest) := by
        rw [← hlater]
        exact hpending.filter _
      exact (hrests.trans List.filter_sublist).trans hbehind

/-! ## What is scheduled before the others are called -/

/-- What the callbacks of these entries ask for, the first of them at this
index. -/
def asked (calls : Expiry.Callbacks Callback Data) (important : Bool) :
    ℕ → List (Scheduled Callback Data) → List (Act Callback Data)
  | _, [] => []
  | i, entry :: rest =>
    calls important i { entry with time := 0 } ++ asked calls important (i + 1) rest

/-- **The other queue when its entries are looked at**: with what the
important callbacks schedule. -/
def meanwhile (q : TimerQueue Callback Data) (calls : Expiry.Callbacks Callback Data) :
    List (Scheduled Callback Data) :=
  ((asked calls true 0 ((q.queue true).takeWhile fun existing =>
    lower existing.time q.nextScheduledTime)).foldl TimerQueue.act q).queue false

/-- Alike, as far as one of the queues goes. -/
structure Alike (b : Bool) (q q' : TimerQueue Callback Data) : Prop where
  queue : q.queue b = q'.queue b
  clock : q.clock = q'.clock
  nextTimerId : q.nextTimerId = q'.nextTimerId

variable {q' : TimerQueue Callback Data}

theorem armFirst_clock (time : BitVec 64) (entries : List (Scheduled Callback Data)) :
    (q.armFirst time entries).clock = q.clock := by
  unfold armFirst
  split
  · split <;> rfl
  · rfl

theorem setQueue_clock (entries : List (Scheduled Callback Data)) :
    (q.setQueue b entries).clock = q.clock := by
  cases b <;> rfl

theorem scheduleOn_clock (usecs : BitVec 32) (callback : Callback) (data : Data) :
    (q.scheduleOn b usecs callback data).2.clock = q.clock := by
  unfold scheduleOn
  dsimp only
  split
  · split
    · exact (armFirst_clock _ _).trans (setQueue_clock _)
    · exact setQueue_clock _
  · exact setQueue_clock _

theorem alike_scheduleOn (h : Alike b q q') (important : Bool) (usecs : BitVec 32)
    (callback : Callback) (data : Data) :
    Alike b (q.scheduleOn important usecs callback data).2
      (q'.scheduleOn important usecs callback data).2 := by
  have hnow : q.now64 = q'.now64 := congrArg (BitVec.ofNat 64) h.clock
  refine ⟨?_, ?_, ?_⟩
  · rcases eq_or_ne b important with rfl | hne
    · rw [queue_scheduleOn_self, queue_scheduleOn_self, entryOf, entryOf, h.queue, hnow,
        h.nextTimerId]
    · have hnot : b = !important := by
        cases b <;> cases important <;> first | rfl | exact absurd rfl hne
      rw [hnot, queue_scheduleOn_not, queue_scheduleOn_not, ← hnot, h.queue]
  · rw [scheduleOn_clock, scheduleOn_clock, h.clock]
  · rw [scheduleOn_nextTimerId, scheduleOn_nextTimerId, h.nextTimerId]

theorem alike_act (h : Alike b q q') (a : Act Callback Data) : Alike b (q.act a) (q'.act a) := by
  cases a with
  | schedule usecs callback data => exact alike_scheduleOn h false usecs callback data
  | scheduleImportant usecs callback data => exact alike_scheduleOn h true usecs callback data
  | elapse usecs =>
    refine ⟨?_, congrArg (· + usecs) h.clock, h.nextTimerId⟩
    have hqueue := h.queue
    cases b <;> exact hqueue

theorem alike_acts (h : Alike b q q') (acts : List (Act Callback Data)) :
    Alike b (acts.foldl TimerQueue.act q) (acts.foldl TimerQueue.act q') := by
  induction acts generalizing q q' with
  | nil => exact h
  | cons a acts ih => exact ih (alike_act h a)

/-- **The calls leave the other queue as what they ask for does.** -/
theorem alike_calls {i n : ℕ} (hn : i + n = passed.length)
    (hfront : ∃ rest, x.queue.queue b = Expiry.zero passed ++ rest) (h : Alike (!b) x.queue q) :
    Alike (!b)
      ((List.range' i n).foldl (fun x i => x.call calls b (passed.map Scheduled.time) i) x).queue
      ((asked calls b i (passed.drop i)).foldl TimerQueue.act q) := by
  induction n generalizing i x q with
  | zero =>
    rw [List.drop_of_length_le (by omega)]
    exact h
  | succ n ih =>
    have hi : i < passed.length := by omega
    rw [List.range'_succ, List.foldl_cons, call_eq hi hfront, List.drop_eq_getElem_cons hi, asked,
      List.foldl_append]
    generalize calls b i { passed[i] with time := 0 } = acts
    have hthis : Adds (Expiry.zero passed) b x
        (acts.foldl Expiry.act { x with called := x.called ++ [(b, passed[i])] }) :=
      adds_called (fun _ => time_of_mem_zero) x _ acts
    obtain ⟨rest, hrest⟩ := hfront
    obtain ⟨rest', -, hrest', -⟩ := hthis rest hrest
    refine ih (by omega) ⟨rest', hrest'⟩ ?_
    rw [queue_acts]
    exact alike_acts h acts

/-- What the important block leaves of the other queue. -/
theorem queue_drain_important (x : Expiry Callback Data) (calls : Expiry.Callbacks Callback Data)
    (time : BitVec 64) : (x.drain calls time true).queue.queue false =
      ((asked calls true 0 (found x time true)).foldl TimerQueue.act x.queue).queue false := by
  have hlength : 0 + (found x time true).length = (found x time true).length := Nat.zero_add _
  have hqueue : (x.queue.setQueue true
      (Expiry.zero (found x time true) ++ behind x time true)).queue true =
        Expiry.zero (found x time true) ++ behind x time true := queue_setQueue _
  have hsame : Alike (!true) (x.queue.setQueue true
      (Expiry.zero (found x time true) ++ behind x time true)) x.queue := ⟨rfl, rfl, rfl⟩
  rw [drain_eq]
  exact (alike_calls hlength
    (x := { x with
      queue := x.queue.setQueue true (Expiry.zero (found x time true) ++ behind x time true) })
    ⟨_, hqueue⟩ hsame).queue

/-! ## What an expiry calls -/

theorem tagged_inj {as as' bs bs' : List (Scheduled Callback Data)}
    (h : as.map (fun entry => (true, entry)) ++ bs.map (fun entry => (false, entry)) =
      as'.map (fun entry => (true, entry)) ++ bs'.map (fun entry => (false, entry))) :
    as = as' ∧ bs = bs' := by
  have htrue := congrArg (List.filterMap fun p : Bool × Scheduled Callback Data =>
    if p.1 then some p.2 else none) h
  have hfalse := congrArg (List.filterMap fun p : Bool × Scheduled Callback Data =>
    if p.1 then none else some p.2) h
  simp only [List.filterMap_append, List.filterMap_map, Function.comp_def] at htrue hfalse
  simp at htrue hfalse
  exact ⟨htrue, hfalse⟩

/-- The first block. -/
def firstBlock (q : TimerQueue Callback Data) (calls : Expiry.Callbacks Callback Data) :
    Expiry Callback Data :=
  (⟨q, [], fun _ => []⟩ : Expiry Callback Data).drain calls q.nextScheduledTime true

variable (q) (calls)

theorem queue_firstBlock : (firstBlock q calls).queue.queue false = meanwhile q calls :=
  queue_drain_important _ calls _

theorem expiry_eq : q.expiry calls =
    { (firstBlock q calls).drain calls q.nextScheduledTime false with
      queue := ((firstBlock q calls).drain calls q.nextScheduledTime false).queue.rearm } := by
  unfold expiry firstBlock
  rfl

theorem queue_expiry_eq : (q.expiry calls).queue.queue =
    ((firstBlock q calls).drain calls q.nextScheduledTime false).queue.queue := by
  rw [expiry_eq]
  dsimp only
  rw [rearm_queue]

/-- What has been called in the end. -/
theorem called_expiry : (q.expiry calls).called =
    ((q.queue true).takeWhile fun existing => lower existing.time q.nextScheduledTime).map
        (fun entry => (true, entry)) ++
      ((meanwhile q calls).takeWhile fun existing =>
        lower existing.time q.nextScheduledTime).map fun entry => (false, entry) := by
  obtain ⟨hcalled, -⟩ := drain_spec ⟨q, [], fun _ => []⟩ calls q.nextScheduledTime true
  obtain ⟨hcalled', -⟩ := drain_spec (firstBlock q calls) calls q.nextScheduledTime false
  rw [expiry_eq, hcalled', found, queue_firstBlock, firstBlock, hcalled, List.nil_append, found]

/-- The important queue stands as it is when it is looked through, and
gets what is scheduled in either block. -/
theorem deliveredOn_important :
    DeliveredOn q.nextScheduledTime (q.queue true)
        ((q.queue true).takeWhile fun existing => lower existing.time q.nextScheduledTime)
        ((q.expiry calls).scheduled true) ((q.expiry calls).queue.queue true) ↔
      Tells q.nextScheduledTime (q.queue true) (q.queue true) := by
  obtain ⟨-, ⟨news, hnews, hleft, hbehind⟩, -⟩ :=
    drain_spec ⟨q, [], fun _ => []⟩ calls q.nextScheduledTime true
  obtain ⟨-, -, hother⟩ := drain_spec (firstBlock q calls) calls q.nextScheduledTime false
  obtain ⟨more, hmore, hperm, hsub⟩ := hother.exists_news
  have hscheduled : (q.expiry calls).scheduled true = [] ++ (news ++ more) :=
    hmore.trans (congrArg (· ++ more) hnews)
  rw [hscheduled, queue_expiry_eq]
  refine deliveredOn_iff (by rw [List.append_nil]) (List.Sublist.refl _) ?_ (hbehind.trans hsub)
  rw [← List.append_assoc]
  exact hperm.trans (hleft.append_right more)

/-- The other has what was scheduled in the first block when it is. -/
theorem deliveredOn_normal :
    DeliveredOn q.nextScheduledTime (q.queue false)
        ((meanwhile q calls).takeWhile fun existing => lower existing.time q.nextScheduledTime)
        ((q.expiry calls).scheduled false) ((q.expiry calls).queue.queue false) ↔
      Tells q.nextScheduledTime (q.queue false) (meanwhile q calls) := by
  obtain ⟨-, -, hother⟩ := drain_spec ⟨q, [], fun _ => []⟩ calls q.nextScheduledTime true
  obtain ⟨early, hearly, hperm, hsub⟩ := hother.exists_news
  obtain ⟨-, ⟨late, hlate, hleft, hbehind⟩, -⟩ :=
    drain_spec (firstBlock q calls) calls q.nextScheduledTime false
  have hscheduled : (q.expiry calls).scheduled false = early ++ late :=
    hlate.trans (congrArg (· ++ late) hearly)
  rw [behind, queue_firstBlock] at hleft hbehind
  rw [hscheduled, queue_expiry_eq]
  refine deliveredOn_iff ?_ ?_ hleft hbehind
  · rw [← queue_firstBlock]
    exact hperm
  · rw [← queue_firstBlock]
    exact hsub

/-- What is called is told apart by the queue it was in. -/
theorem delivered_iff_deliveredOn : Delivered q (q.expiry calls) ↔
    DeliveredOn q.nextScheduledTime (q.queue true)
        ((q.queue true).takeWhile fun existing => lower existing.time q.nextScheduledTime)
        ((q.expiry calls).scheduled true) ((q.expiry calls).queue.queue true) ∧
      DeliveredOn q.nextScheduledTime (q.queue false)
        ((meanwhile q calls).takeWhile fun existing => lower existing.time q.nextScheduledTime)
        ((q.expiry calls).scheduled false) ((q.expiry calls).queue.queue false) := by
  constructor
  · rintro ⟨important, normal, hcalled, himportant, hnormal⟩
    rw [called_expiry] at hcalled
    obtain ⟨rfl, rfl⟩ := tagged_inj hcalled
    exact ⟨himportant, hnormal⟩
  · rintro ⟨himportant, hnormal⟩
    exact ⟨_, _, called_expiry q calls, himportant, hnormal⟩

/-- **An expiry calls exactly what is due where the comparison tells what
is due**: in the important queue as it is, and in the other with what the
important callbacks have scheduled. -/
theorem delivered_expiry_iff (q : TimerQueue Callback Data)
    (calls : Expiry.Callbacks Callback Data) :
    Delivered q (q.expiry calls) ↔
      Tells q.nextScheduledTime (q.queue true) (q.queue true) ∧
        Tells q.nextScheduledTime (q.queue false) (meanwhile q calls) := by
  rw [delivered_iff_deliveredOn, deliveredOn_important, deliveredOn_normal]

/-! ## Sorted queues -/

/-- Sorted, no deadline zero, and less than `2 ^ 32` apart. -/
structure Orderly (entries : List (Scheduled Callback Data)) : Prop where
  sorted : entries.Pairwise fun entry entry' => entry.time ≤ entry'.time
  nonzero : ∀ entry ∈ entries, entry.time ≠ 0
  apart : ∀ entry ∈ entries, ∀ entry' ∈ entries, entry'.time.toNat < entry.time.toNat + 2 ^ 32

omit q calls in
/-- **The comparison is right of a deadline that is not the time**, and
not as far from it as a turn of the low word. -/
theorem lower_eq_le {deadline : BitVec 64} (hne : deadline ≠ time)
    (hahead : deadline.toNat ≤ time.toNat + 0xfffffffc)
    (hbehind : time.toNat + 0xfffffffc < deadline.toNat + 2 ^ 64) :
    lower deadline time = decide (deadline ≤ time) := by
  have hshift : ((0xffffffff#32 <<< 2).setWidth 64).toNat = 0xfffffffc := by decide
  have hlt := deadline.isLt
  have hlt' := time.isLt
  have htoNat : deadline.toNat ≠ time.toNat := fun h => hne (BitVec.eq_of_toNat_eq h)
  rw [lower, decide_eq_decide, BitVec.lt_def, BitVec.le_def, hshift, BitVec.toNat_sub]
  omega

omit q calls in
/-- Where it is right of every entry of a sorted queue, it tells what is
due. -/
theorem tells_of_sorted (hsorted : now.Pairwise fun entry entry' => entry.time ≤ entry'.time)
    (hpending : pending.Sublist now)
    (hlower : ∀ entry ∈ now, lower entry.time time = decide (entry.time ≤ time)) :
    Tells time pending now := by
  have hfound : now.takeWhile (fun existing => lower existing.time time) = due time now := by
    clear hpending
    induction now with
    | nil => rfl
    | cons entry rest ih =>
      obtain ⟨hfirst, hrest⟩ := List.pairwise_cons.1 hsorted
      rw [due, List.takeWhile_cons, List.filter_cons, hlower entry List.mem_cons_self]
      by_cases hle : entry.time ≤ time
      · rw [decide_eq_true hle, if_pos rfl, if_pos rfl]
        exact congrArg _ (ih hrest fun e he => hlower e (List.mem_cons_of_mem _ he))
      · -- What follows a later entry is later too.
        have hnone : rest.filter (fun e => decide (e.time ≤ time)) = [] := by
          refine List.filter_eq_nil_iff.2 fun e he => ?_
          have hafter : ¬ e.time ≤ time := fun h => hle (BitVec.le_trans (hfirst e he) h)
          simpa using hafter
        rw [decide_eq_false hle, hnone]
        rfl
  rw [Tells, hfound]
  refine ⟨fun entry hentry => ?_, hpending.filter _⟩
  exact of_decide_eq_true (List.mem_filter.1 hentry).2

/-- **An expiry that no deadline is equal to calls exactly what is due**,
if what stands in the queues is near the time and stays sorted. -/
theorem delivered_of_near (himportant : Orderly (q.queue true))
    (hnormal : Orderly (meanwhile q calls))
    (hnear : ∀ entry ∈ q.queue true ++ meanwhile q calls, entry.time ≠ q.nextScheduledTime ∧
      entry.time.toNat ≤ q.nextScheduledTime.toNat + 0xfffffffc ∧
      q.nextScheduledTime.toNat + 0xfffffffc < entry.time.toNat + 2 ^ 64) :
    Delivered q (q.expiry calls) := by
  rw [delivered_iff_deliveredOn, deliveredOn_important, deliveredOn_normal]
  have hlower : ∀ entry ∈ q.queue true ++ meanwhile q calls,
      lower entry.time q.nextScheduledTime = decide (entry.time ≤ q.nextScheduledTime) := by
    intro entry hentry
    obtain ⟨hne, hahead, hbehind⟩ := hnear entry hentry
    exact lower_eq_le hne hahead hbehind
  have hpending : (q.queue false).Sublist (meanwhile q calls) := by
    obtain ⟨-, -, hother⟩ := drain_spec ⟨q, [], fun _ => []⟩ calls q.nextScheduledTime true
    obtain ⟨-, -, -, hsub⟩ := hother.exists_news
    rw [← queue_firstBlock]
    exact hsub
  constructor
  · exact tells_of_sorted himportant.sorted (List.Sublist.refl _) fun entry hentry =>
      hlower entry (List.mem_append_left _ hentry)
  · exact tells_of_sorted hnormal.sorted hpending fun entry hentry =>
      hlower entry (List.mem_append_right _ hentry)

/-- Two calls, of which the second is due first and sets the timer. -/
def two : TimerQueue Unit Unit :=
  [Act.schedule 20 () (), .schedule 10 () (), .elapse 10].foldl TimerQueue.act (new 0)

/-- The timer has fired for a callback that is due at that time, and it is
not called. -/
theorem not_delivered : Orderly (two.queue true) ∧ Orderly (two.queue false) ∧
    two.timer = some two.clock ∧ ¬ Delivered two (two.expiry fun _ _ _ => []) := by
  refine ⟨⟨by decide, by decide, by decide⟩, ⟨by decide, by decide, by decide⟩, by decide, ?_⟩
  rw [delivered_iff_deliveredOn, deliveredOn_important, deliveredOn_normal]
  rintro ⟨-, -, hsub⟩
  exact absurd hsub (by decide +kernel)

end TimerQueue

end Uberos
