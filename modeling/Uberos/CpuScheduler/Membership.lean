import Uberos.CpuScheduler.Model
/-!
# Every thread is on the list of its state

A transition pops the thread from the list of the state it leaves and
pushes it on that of the state it enters, except that a termination pops
from the list of the state of the current thread. The lists share the
threads' links, so popping from the wrong one leaves both wrong. A run in
which every termination that reaches the scheduler is of a thread in the
state of the current one, and in which the scheduler hears of exactly the
threads that were added to it, keeps every thread on its list.
-/

namespace Uberos

namespace CpuScheduler

open Library LList

variable {Thread : Type*} [DecidableEq Thread]

/-! ## What the lists hold -/

/-- **The lists hold these threads**, each in its order, and no thread is
on two of them. -/
structure Holds (s : CpuScheduler Thread) (contents : ThreadState → List Thread) : Prop where
  represents : ∀ list, Represents s.links (s.lists list) (contents list)
  disjoint : ∀ list list', list ≠ list' → ∀ t ∈ contents list, t ∉ contents list'

variable {s : CpuScheduler Thread} {contents : ThreadState → List Thread} {list : ThreadState}
variable {t : Thread}

omit [DecidableEq Thread] in
theorem holds_iff_family : Holds s contents ↔ Family s.links s.lists contents :=
  ⟨fun h => ⟨h.represents, h.disjoint⟩, fun h => ⟨h.represents, h.disjoint⟩⟩

/-- Pushing a thread that is on no list. -/
theorem Holds.pushOn (h : Holds s contents) (ht : ∀ list, t ∉ contents list) :
    Holds (pushOn s list t) (Function.update contents list (contents list ++ [t])) :=
  holds_iff_family.2 ((holds_iff_family.1 h).pushBack ht)

/-- Popping a thread from the list it is on. -/
theorem Holds.popFrom (h : Holds s contents) (ht : t ∈ contents list) :
    Holds (popFrom s list t) (Function.update contents list ((contents list).erase t)) :=
  holds_iff_family.2 ((holds_iff_family.1 h).pop ht)

omit [DecidableEq Thread] in
/-- What the lists hold depends on them and the links only. -/
theorem Holds.congr (h : Holds s contents) {s' : CpuScheduler Thread} (hlinks : s'.links = s.links)
    (hlists : s'.lists = s.lists) : Holds s' contents :=
  ⟨fun list => by rw [hlinks, hlists]; exact h.represents list, h.disjoint⟩

/-- What the lists hold when a thread goes to the end of one of them. -/
def moved (contents : ThreadState → List Thread) (a b : ThreadState) (t : Thread) :
    ThreadState → List Thread :=
  Function.update (Function.update contents a ((contents a).erase t)) b
    (Function.update contents a ((contents a).erase t) b ++ [t])

/-- Moving a thread from the list it is on. -/
theorem Holds.move {a : ThreadState} (h : Holds s contents) (ht : t ∈ contents a) (b : ThreadState) :
    Holds (CpuScheduler.pushOn (CpuScheduler.popFrom s a t) b t) (moved contents a b t) := by
  refine (h.popFrom ht).pushOn fun list => ?_
  by_cases hlist : list = a
  · subst hlist
    rw [Function.update_self]
    exact (h.represents list).nodup.not_mem_erase
  · rw [Function.update_of_ne hlist]
    exact h.disjoint a list (Ne.symm hlist) t ht

/-- Only that thread changes lists. -/
theorem Holds.mem_moved {a b : ThreadState} (h : Holds s contents) (ht : t ∈ contents a) (x : Thread) :
    x ∈ moved contents a b t list ↔ (x ≠ t ∧ x ∈ contents list) ∨ (x = t ∧ list = b) := by
  have herase : ∀ list, x ∈ Function.update contents a ((contents a).erase t) list ↔
      x ≠ t ∧ x ∈ contents list := by
    intro list
    by_cases hlist : list = a
    · subst hlist
      rw [Function.update_self, (h.represents list).nodup.mem_erase_iff]
    · rw [Function.update_of_ne hlist]
      exact ⟨fun hx => ⟨fun heq => h.disjoint a list (Ne.symm hlist) t ht (heq ▸ hx), hx⟩, And.right⟩
  by_cases hlist : list = b
  · subst hlist
    rw [moved, Function.update_self, List.mem_append, List.mem_singleton, herase]
    exact or_congr_right (and_iff_left rfl).symm
  · rw [moved, Function.update_of_ne hlist, herase]
    exact (or_iff_left fun hcon => hlist hcon.2).symm

/-! ## What it is for -/

/-- **Every added thread is on the list of its state**, and on no other;
no other thread is on any; and every list is well formed. -/
def Members (s : Scheduled Thread) : Prop :=
  ∃ contents, Holds s.scheduler contents ∧
    ∀ t list, t ∈ contents list ↔ t ∈ s.added ∧ s.scheduler.state t = list

omit [DecidableEq Thread] in
theorem members_new (threads : Threads Thread) : Members (Scheduled.new threads) := by
  refine ⟨fun _ => [], ⟨fun list => represents_empty _, fun _ _ _ t ht => by simp at ht⟩, ?_⟩
  intro t list
  simp [Scheduled.new]

/-- **The scheduler hears of a transition exactly where the thread was
added to it, and pops it from the list it is on.** A thread is not added
twice, and the current thread is not removed and then yielded from while
it is active. -/
def Heard (s : Scheduled Thread) : Op Thread → Prop
  | .addThread t => t ∉ s.added
  | .yield =>
    s.scheduler.currentThread ≠ s.scheduler.kernelThread →
      s.scheduler.state s.scheduler.currentThread = .active →
        s.scheduler.currentThread ∈ s.added
  | .sleep t => s.scheduler.state t = .active → s.scheduler.scheduler t = true → t ∈ s.added
  | .pause t => s.scheduler.state t = .active → (s.scheduler.scheduler t = true ↔ t ∈ s.added)
  | .resume t =>
    s.scheduler.state t = .sleeping ∨ s.scheduler.state t = .paused →
      (s.scheduler.scheduler t = true ↔ t ∈ s.added)
  | .terminate t =>
    s.scheduler.state t ≠ .terminated →
      (s.scheduler.scheduler t = true ↔ t ∈ s.added) ∧
        (s.scheduler.scheduler t = true → s.scheduler.currentThread ≠ t ∧
          s.scheduler.state s.scheduler.currentThread = s.scheduler.state t)
  | .setScheduler _ _ | .removeThread _ | .setPriority _ _ => True

instance (s : Scheduled Thread) (op : Op Thread) : Decidable (Heard s op) := by
  cases op <;> simp only [Heard] <;> infer_instance

variable {σ : Scheduled Thread}

/-! ## What a transition does -/

/-- The list a termination pops from. -/
def terminatedFrom (s : CpuScheduler Thread) (t : Thread) : ThreadState :=
  if s.currentThread = t then .terminated else s.state s.currentThread

/-- **A transition goes through**: of this thread, from this list, and to
this state. -/
inductive Fires (s : CpuScheduler Thread) : Op Thread → Thread → ThreadState → ThreadState → Prop
  | sleep {t : Thread} (hstate : s.state t = .active) (hset : s.scheduler t = true) :
    Fires s (.sleep t) t .active .sleeping
  | pause {t : Thread} (hstate : s.state t = .active) : Fires s (.pause t) t .active .paused
  | resume {t : Thread} (hstate : s.state t = .sleeping ∨ s.state t = .paused) :
    Fires s (.resume t) t (s.state t) .active
  | terminate {t : Thread} (hstate : s.state t ≠ .terminated) :
    Fires s (.terminate t) t (terminatedFrom s t) .terminated

/-- What the scheduler does when it hears of one. -/
def heard (s : CpuScheduler Thread) (t : Thread) (a b : ThreadState) : CpuScheduler Thread :=
  pushOn (popFrom (s.setState t b) a t) b t

/-- A transition does nothing, or it goes through and the scheduler hears
of it where the thread's reference to it is set. -/
def Outcome (s : CpuScheduler Thread) (op : Op Thread) (s' : CpuScheduler Thread) : Prop :=
  s' = s ∨ ∃ t a b, Fires s op t a b ∧
    s' = if s.scheduler t then heard s t a b else s.setState t b

theorem sleep_outcome (s : CpuScheduler Thread) (t : Thread) :
    Outcome s (.sleep t) (sleep s t) := by
  unfold sleep
  split
  · exact Or.inl rfl
  · rename_i hfires
    push Not at hfires
    have hset := Bool.eq_true_of_not_eq_false hfires.2
    exact Or.inr ⟨t, _, _, .sleep hfires.1 hset, by rw [if_pos hset]; rfl⟩

theorem pause_outcome (s : CpuScheduler Thread) (t : Thread) :
    Outcome s (.pause t) (pause s t) := by
  unfold pause
  split
  · exact Or.inl rfl
  · rename_i hactive
    exact Or.inr ⟨t, _, _, .pause (not_not.1 hactive), rfl⟩

theorem resume_outcome (s : CpuScheduler Thread) (t : Thread) :
    Outcome s (.resume t) (resume s t) := by
  unfold resume
  split
  · exact Or.inl rfl
  · rename_i hstate
    exact Or.inr ⟨t, _, _, .resume (Or.inl hstate), by rw [hstate]; rfl⟩
  · rename_i hstate
    exact Or.inr ⟨t, _, _, .resume (Or.inr hstate), by rw [hstate]; rfl⟩
  · exact Or.inl rfl

theorem terminate_outcome (s : CpuScheduler Thread) (t : Thread) :
    Outcome s (.terminate t) (terminate s t) := by
  unfold terminate
  split
  · exact Or.inl rfl
  · rename_i hlive
    -- the state is set before the scheduler asks for that of the current thread
    have hpops : (s.setState t .terminated).state (s.setState t .terminated).currentThread =
        terminatedFrom s t := Function.update_apply ..
    refine Or.inr ⟨t, _, _, .terminate hlive, ?_⟩
    unfold heard
    rw [← hpops]
    rfl

/-- A transition that is heard of as it should be pops the thread from the
list of its state. -/
theorem Heard.of_fires {op : Op Thread} {a b : ThreadState} (h : Heard σ op)
    (hfires : Fires σ.scheduler op t a b) :
    (σ.scheduler.scheduler t = true ↔ t ∈ σ.added) ∧
      (σ.scheduler.scheduler t = true → a = σ.scheduler.state t) := by
  cases hfires with
  | sleep hstate hset => exact ⟨iff_of_true hset (h hstate hset), fun _ => hstate.symm⟩
  | pause hstate => exact ⟨h hstate, fun _ => hstate.symm⟩
  | resume hstate => exact ⟨h hstate, fun _ => rfl⟩
  | terminate hstate =>
    refine ⟨(h hstate).1, fun hset => ?_⟩
    obtain ⟨hne, hcurrent⟩ := (h hstate).2 hset
    rw [terminatedFrom, if_neg hne, hcurrent]

/-- A transition the scheduler hears of moves the thread to the list of
its new state. -/
theorem Members.heard {b : ThreadState} (h : Members σ) (ht : t ∈ σ.added) :
    Members { σ with scheduler := σ.scheduler.heard t (σ.scheduler.state t) b } := by
  obtain ⟨contents, hholds, hmem⟩ := h
  have hat : t ∈ contents (σ.scheduler.state t) := (hmem t _).2 ⟨ht, rfl⟩
  have hholds' : Holds (σ.scheduler.setState t b) contents := hholds.congr rfl rfl
  refine ⟨_, hholds'.move hat b, fun x list => ?_⟩
  rw [hholds'.mem_moved hat, hmem]
  have hstate : (σ.scheduler.heard t (σ.scheduler.state t) b).state x =
      if x = t then b else σ.scheduler.state x := Function.update_apply ..
  rw [hstate]
  by_cases hx : x = t
  · subst hx
    simp [ht, eq_comm]
  · simp [hx]

/-- One it does not hear of is of a thread that is not its own. -/
theorem Members.unheard {b : ThreadState} (h : Members σ) (ht : t ∉ σ.added) :
    Members { σ with scheduler := σ.scheduler.setState t b } := by
  obtain ⟨contents, hholds, hmem⟩ := h
  refine ⟨contents, hholds.congr rfl rfl, fun x list => ?_⟩
  rw [hmem]
  refine and_congr_right fun hx => ?_
  have hne : x ≠ t := fun heq => ht (heq ▸ hx)
  simp [setState, hne]

/-- **Every transition keeps the threads on their lists.** -/
theorem Members.outcome {op : Op Thread} {s' : CpuScheduler Thread} (h : Members σ)
    (hheard : Heard σ op) (houtcome : Outcome σ.scheduler op s') :
    Members { σ with scheduler := s' } := by
  rcases houtcome with rfl | ⟨t, a, b, hfires, rfl⟩
  · exact h
  obtain ⟨hiff, hpops⟩ := hheard.of_fires hfires
  split
  · rename_i hset
    rw [hpops hset]
    exact h.heard (hiff.1 hset)
  · rename_i hset
    exact h.unheard fun ht => hset (hiff.2 ht)

variable [Fintype Thread]

theorem Holds.onList_iff (h : Holds s contents) : s.onList list t = true ↔ t ∈ contents list :=
  (h.represents list).contains_iff

/-- Adding a thread puts it on the list of its state. -/
theorem Members.addThread (h : Members σ) (ht : t ∉ σ.added) : Members (step σ (.addThread t)) := by
  obtain ⟨contents, hholds, hmem⟩ := h
  have hfree : ∀ list, t ∉ contents list := fun list hcon => ht ((hmem t list).1 hcon).1
  have hpush : ∀ s' : CpuScheduler Thread, s'.links = σ.scheduler.links →
      s'.lists = σ.scheduler.lists → s'.state = σ.scheduler.state →
      Members ⟨CpuScheduler.pushOn s' (σ.scheduler.state t) t, insert t σ.added⟩ := by
    intro s' hlinks hlists hstate
    refine ⟨_, (hholds.congr hlinks hlists).pushOn hfree, fun x list => ?_⟩
    have hstate' : (CpuScheduler.pushOn s' (σ.scheduler.state t) t).state x = σ.scheduler.state x := by
      rw [← hstate]
      rfl
    rw [hstate', Finset.mem_insert]
    by_cases hlist : list = σ.scheduler.state t
    · subst hlist
      rw [Function.update_self, List.mem_append, List.mem_singleton, hmem]
      by_cases hx : x = t
      · simp [hx]
      · simp [hx]
    · rw [Function.update_of_ne hlist, hmem]
      by_cases hx : x = t
      · subst hx
        simp [ht, Ne.symm hlist]
      · simp [hx]
  simp only [step, CpuScheduler.addThread]
  split <;> rename_i hstate <;> rw [← hstate] <;> exact hpush _ rfl rfl rfl

/-- Removing a thread takes it off the list it is on. -/
theorem Members.removeThread (h : Members σ) (t : Thread) : Members (step σ (.removeThread t)) := by
  obtain ⟨contents, hholds, hmem⟩ := h
  have hpop : ∀ list, ∀ s' : CpuScheduler Thread, s'.links = σ.scheduler.links →
      s'.lists = σ.scheduler.lists → s'.state = σ.scheduler.state → t ∈ contents list →
      Members ⟨CpuScheduler.popFrom s' list t, σ.added.erase t⟩ := by
    intro list s' hlinks hlists hstate ht
    have hholds' := hholds.congr hlinks hlists
    refine ⟨_, hholds'.popFrom ht, fun x other => ?_⟩
    have hstate' : (CpuScheduler.popFrom s' list t).state x = σ.scheduler.state x := by
      rw [← hstate]
      rfl
    rw [hstate', Finset.mem_erase]
    by_cases hother : other = list
    · subst hother
      rw [Function.update_self, (hholds.represents other).nodup.mem_erase_iff, hmem, and_assoc]
    · rw [Function.update_of_ne hother, hmem]
      have hlist := ((hmem t list).1 ht).2
      constructor
      · rintro ⟨hx, hxs⟩
        exact ⟨⟨fun heq => hother (by rw [← hxs, heq, hlist]), hx⟩, hxs⟩
      · exact fun ⟨⟨_, hx⟩, hxs⟩ => ⟨hx, hxs⟩
  simp only [step, CpuScheduler.removeThread]
  split
  · rename_i hon
    exact hpop .terminated _ rfl rfl rfl (hholds.onList_iff.1 hon)
  rename_i hterminated
  split
  · rename_i hon
    exact hpop .active _ rfl rfl rfl (hholds.onList_iff.1 hon)
  rename_i hactive
  split
  · rename_i hon
    exact hpop .sleeping _ rfl rfl rfl (hholds.onList_iff.1 hon)
  rename_i hsleeping
  split
  · rename_i hon
    exact hpop .paused _ rfl rfl rfl (hholds.onList_iff.1 hon)
  rename_i hpaused
  rw [hholds.onList_iff, hmem, not_and] at hterminated hactive hsleeping hpaused
  -- a thread on none of the lists was not added
  have ht : t ∉ σ.added := by
    intro ht
    rcases hstate : σ.scheduler.state t
    · exact hactive ht hstate
    · exact hsleeping ht hstate
    · exact hpaused ht hstate
    · exact hterminated ht hstate
  rw [Finset.erase_eq_of_notMem ht]
  exact ⟨contents, hholds, hmem⟩

/-- A yield changes the order of the active threads only. -/
theorem Members.yield (h : Members σ) (hheard : Heard σ .yield) : Members (step σ .yield) := by
  have hrotate : Members { σ with scheduler := rotate σ.scheduler } := by
    obtain ⟨contents, hholds, hmem⟩ := h
    unfold rotate
    split
    · rename_i hkernel
      split
      · rename_i hactive
        have ht := (hmem σ.scheduler.currentThread .active).2 ⟨hheard hkernel hactive, hactive⟩
        refine ⟨_, hholds.move ht .active, fun x list => ?_⟩
        rw [hholds.mem_moved ht, hmem]
        change _ ↔ x ∈ σ.added ∧ σ.scheduler.state x = list
        by_cases hx : x = σ.scheduler.currentThread
        · subst hx
          simp [hheard hkernel hactive, hactive, eq_comm]
        · simp [hx]
      all_goals exact ⟨contents, hholds, hmem⟩
    · exact ⟨contents, hholds, hmem⟩
  obtain ⟨contents, hholds, hmem⟩ := hrotate
  simp only [step, CpuScheduler.yield]
  split
  · split <;> exact ⟨contents, hholds.congr rfl rfl, hmem⟩
  · exact ⟨contents, hholds.congr rfl rfl, hmem⟩

/-- **The step lemma.** -/
theorem Members.step {op : Op Thread} (h : Members σ) (hheard : Heard σ op) :
    Members (step σ op) := by
  cases op with
  | setScheduler t set =>
    obtain ⟨contents, hholds, hmem⟩ := h
    exact ⟨contents, hholds.congr rfl rfl, hmem⟩
  | addThread t => exact h.addThread hheard
  | removeThread t => exact h.removeThread t
  | yield => exact h.yield hheard
  | sleep t => exact h.outcome hheard (sleep_outcome _ t)
  | pause t => exact h.outcome hheard (pause_outcome _ t)
  | resume t => exact h.outcome hheard (resume_outcome _ t)
  | terminate t => exact h.outcome hheard (terminate_outcome _ t)
  | setPriority t set =>
    obtain ⟨contents, hholds, hmem⟩ := h
    simp only [CpuScheduler.step, CpuScheduler.setPriority]
    split
    · exact ⟨contents, hholds, hmem⟩
    · split <;> exact ⟨contents, hholds.congr rfl rfl, hmem⟩

/-- **In every state of a run** in which the scheduler hears of the
transitions of its threads, every thread is on the list of its state. -/
theorem members_run (threads : Threads Thread) (ops : List (Op Thread))
    (hheard : Along step Heard (Scheduled.new threads) ops) :
    Throughout step Members (Scheduled.new threads) ops :=
  throughout_of_invariant hheard (members_new threads) (fun _ _ h hop => h.step hop) fun _ h => h

/-- Three threads, of which the first is the kernel's, created active and
with the default priorities. -/
def threeThreads : Threads (Fin 3) := ⟨0, fun _ => .active, fun _ => 100, fun _ => 100⟩

/-- A thread sleeps and wakes, and another is terminated while it is
current. -/
theorem members_run_terminate :
    Throughout step Members (Scheduled.new threeThreads)
      [.setScheduler 1 true, .addThread 1, .setScheduler 2 true, .addThread 2, .yield, .sleep 1,
        .resume 1, .terminate 2, .yield] :=
  members_run threeThreads _ (by decide +kernel)

/-- **Terminating a sleeping thread empties the active list**, which is
that of the current thread's state, though a thread is still active. -/
theorem members_run_broken :
    ¬ Throughout step Members (Scheduled.new threeThreads)
      [.setScheduler 1 true, .addThread 1, .setScheduler 2 true, .addThread 2, .sleep 1,
        .terminate 1] := by
  intro h
  obtain ⟨contents, hholds, hmem⟩ := h.last
  have hempty := (hholds.represents .active).head
  have hnone : ((run step (Scheduled.new threeThreads) [.setScheduler 1 true, .addThread 1,
      .setScheduler 2 true, .addThread 2, .sleep 1, .terminate 1]).scheduler.lists .active).head =
      none := by decide +kernel
  rw [hnone, eq_comm, List.head?_eq_none_iff] at hempty
  have hactive := (hmem 2 .active).2 (by decide +kernel)
  rw [hempty] at hactive
  exact List.not_mem_nil hactive

end CpuScheduler

end Uberos
