import Uberos.CpuScheduler.Turns
/-!
# The slice of a yield

The slice a yield sets its timer to is the average one scaled by the
thread's share of the total: three factors multiplied in 32 bits, then
divided and clamped. The thread's own product is one of two 16-bit
numbers taken as an `int`. The product with the number of threads is
exact as long as that number times the thread's own product is 143165 at
most, which fifteen threads of the default priorities pass.
-/

namespace Uberos

namespace CpuScheduler

open Library LList

variable {Thread : Type*} [DecidableEq Thread]

/-! ## What it is for -/

/-- A thread's priority times that of its process, as numbers. -/
def threadPriority (s : CpuScheduler Thread) (t : Thread) : ℕ :=
  s.priority t * s.processPriority t

/-- The active threads are these, and the total is their sum. -/
def Consistent (s : CpuScheduler Thread) (xs : List Thread) : Prop :=
  Represents s.links (s.lists .active) xs ∧
    s.totalActivePriority = (xs.map (threadPriority s)).sum

/-- The yield leaves the current thread for this one. -/
def SwitchesTo (s : CpuScheduler Thread) (t : Thread) : Prop :=
  ((rotate s).lists .active).head = some t ∧ t ≠ s.currentThread

/-- The slice in exact arithmetic. -/
def slice (n p total : ℕ) : ℕ :=
  min (max (averageInterval * n * p / total) minInterval) maxInterval

/-- **The slice of `n` active threads is exact**: no product on the way to
it overflows its type, the first of which is signed. -/
def Exact (s : CpuScheduler Thread) (n : ℕ) (t : Thread) : Prop :=
  (threadPriority s t < 2 ^ 31 ∧ averageInterval * n < 2 ^ 32 ∧
      averageInterval * n * threadPriority s t < 2 ^ 32) ∧
    (yield s).1 = some (slice n (threadPriority s t) s.totalActivePriority)

/-! ## The condition -/

/-- **The number of threads times the thread's own product is small
enough**, and there is a total to divide by. -/
def Fits (s : CpuScheduler Thread) (n : ℕ) (t : Thread) : Prop :=
  s.totalActivePriority ≠ 0 ∧ threadPriority s t < 2 ^ 31 ∧ n ≤ 143165 ∧
    n * threadPriority s t ≤ 143165

/-! ## What a yield divides -/

variable {s : CpuScheduler Thread} {t : Thread} {xs : List Thread}

@[simp] theorem rotate_product : (rotate s).product = s.product := by
  by_cases h : Rotates s
  · rw [rotate_of_rotates h]
    rfl
  · rw [rotate_of_not_rotates h]

theorem popFrom_size (list : ThreadState) :
    ((popFrom s list t).lists list).size = ((s.lists list).size + 2 ^ 32 - 1) % 2 ^ 32 := by
  simp only [popFrom, Function.update_self]
  rfl

theorem pushOn_size (list : ThreadState) :
    ((pushOn s list t).lists list).size = ((s.lists list).size + 1) % 2 ^ 32 := by
  simp only [pushOn, Function.update_self]
  rfl

/-- Rotating takes one from the size of the list and adds it again. -/
theorem rotate_size (hsize : (s.lists .active).size < 2 ^ 32) :
    ((rotate s).lists .active).size = (s.lists .active).size := by
  by_cases h : Rotates s
  · rw [rotate_of_rotates h, pushOn_size, popFrom_size]
    omega
  · rw [rotate_of_not_rotates h]

/-- **What a yield that switches threads sets the timer to.** -/
theorem yield_fst (hswitches : SwitchesTo s t) (hsize : (s.lists .active).size < 2 ^ 32) :
    (yield s).1 = if s.totalActivePriority = 0 then none else
      some (min (max (averageInterval * (s.lists .active).size % 2 ^ 32 * s.product t % 2 ^ 32 /
        s.totalActivePriority) minInterval) maxInterval) := by
  simp only [yield, hswitches.1, if_neg hswitches.2]
  rw [maxTime, rotate_totalActivePriority, rotate_size hsize, rotate_product]

/-- **The slice is exact exactly where its factors are small enough.** -/
theorem exact_iff_fits (hconsistent : Consistent s xs) (hswitches : SwitchesTo s t) :
    Exact s xs.length t ↔ Fits s xs.length t := by
  have hsize := hconsistent.1.size
  have hyield := yield_fst hswitches (hsize ▸ Nat.mod_lt _ (by decide))
  rw [hsize] at hyield
  constructor
  · rintro ⟨⟨hp, hn, hproduct⟩, hslice⟩
    have htotal : s.totalActivePriority ≠ 0 := by
      intro hzero
      rw [hyield, if_pos hzero] at hslice
      contradiction
    rw [averageInterval, Nat.mul_assoc] at hproduct
    rw [averageInterval] at hn
    exact ⟨htotal, hp, by omega, by omega⟩
  · rintro ⟨htotal, hp, hn, hproduct⟩
    have hn' : averageInterval * xs.length < 2 ^ 32 := by
      rw [averageInterval]
      omega
    have hproduct' : averageInterval * xs.length * threadPriority s t < 2 ^ 32 := by
      rw [averageInterval, Nat.mul_assoc]
      omega
    -- the `int` product does not reach its sign
    have hp' : s.product t = threadPriority s t :=
      Nat.mod_eq_of_lt (hp.trans (by decide))
    refine ⟨⟨hp, hn', hproduct'⟩, ?_⟩
    rw [hyield, if_neg htotal, Nat.mod_eq_of_lt (Nat.lt_of_le_of_lt hn (by decide)),
      Nat.mod_eq_of_lt hn', hp', Nat.mod_eq_of_lt hproduct']
    rfl

/-! ## Default priorities -/

omit [DecidableEq Thread] in
/-- **With the default priorities** it is exact for fourteen threads at
most. -/
theorem fits_default_iff {n : ℕ} (htotal : s.totalActivePriority ≠ 0)
    (hpriority : threadPriority s t = 100 * 100) : Fits s n t ↔ n ≤ 14 := by
  rw [Fits, hpriority]
  omega

/-! ## Adding threads -/

/-- An active thread that is added joins the end of the list, and its own
product the total. -/
theorem Consistent.addThread (h : Consistent s xs) (hactive : s.state t = .active) (ht : t ∉ xs)
    (hsum : s.totalActivePriority + threadPriority s t < 2 ^ 32) :
    Consistent (addThread s t) (xs ++ [t]) := by
  have hproduct : s.product t = threadPriority s t :=
    Nat.mod_eq_of_lt ((Nat.le_add_left ..).trans_lt hsum)
  rw [CpuScheduler.addThread, hactive, hproduct, Nat.mod_eq_of_lt hsum]
  constructor
  · change Represents _ (Function.update s.lists .active _ .active) _
    rw [Function.update_self]
    exact (h.1.pushBack ht).1
  · rw [List.map_append, List.sum_append, List.map_singleton, List.sum_singleton]
    exact congrArg (· + threadPriority s t) h.2

/-- What adding a thread leaves alone. -/
def SameThreads (s s' : CpuScheduler Thread) : Prop :=
  s'.state = s.state ∧ s'.priority = s.priority ∧ s'.processPriority = s.processPriority ∧
    s'.kernelThread = s.kernelThread ∧ s'.currentThread = s.currentThread

omit [DecidableEq Thread] in
theorem SameThreads.trans {s' s'' : CpuScheduler Thread} (h : SameThreads s s')
    (h' : SameThreads s' s'') : SameThreads s s'' := by
  obtain ⟨hstate, hpriority, hprocess, hkernel, hcurrent⟩ := h'
  obtain ⟨hstate', hpriority', hprocess', hkernel', hcurrent'⟩ := h
  exact ⟨hstate.trans hstate', hpriority.trans hpriority', hprocess.trans hprocess',
    hkernel.trans hkernel', hcurrent.trans hcurrent'⟩

theorem sameThreads_addThread (s : CpuScheduler Thread) (t : Thread) :
    SameThreads s (addThread s t) := by
  unfold addThread
  split <;> exact ⟨rfl, rfl, rfl, rfl, rfl⟩

/-- **Adding active threads one after the other** lists them in that order,
as long as the total of all of them fits. -/
theorem Consistent.addThreads [Fintype Thread] {σ : Scheduled Thread} {ys : List Thread}
    (h : Consistent σ.scheduler ys) (hactive : ∀ t ∈ xs, σ.scheduler.state t = .active)
    (hnodup : (ys ++ xs).Nodup)
    (hsum : ((ys ++ xs).map (threadPriority σ.scheduler)).sum < 2 ^ 32) :
    Consistent (run step σ (xs.map .addThread)).scheduler (ys ++ xs) ∧
      SameThreads σ.scheduler (run step σ (xs.map .addThread)).scheduler := by
  -- by induction on the threads still to be added, behind those on the list
  induction xs generalizing σ ys with
  | nil => exact ⟨by rwa [List.append_nil], rfl, rfl, rfl, rfl, rfl⟩
  | cons x xs ih =>
    have hsplit : ys ++ x :: xs = (ys ++ [x]) ++ xs := by simp
    have hx : x ∉ ys := fun hmem =>
      (List.nodup_append.1 hnodup).2.2 x hmem x List.mem_cons_self rfl
    have hfits : σ.scheduler.totalActivePriority + threadPriority σ.scheduler x < 2 ^ 32 := by
      rw [List.map_append, List.sum_append, List.map_cons, List.sum_cons, ← h.2] at hsum
      omega
    have hsame := sameThreads_addThread σ.scheduler x
    have hadded := h.addThread (hactive x List.mem_cons_self) hx hfits
    have hpriority : threadPriority (CpuScheduler.addThread σ.scheduler x) =
        threadPriority σ.scheduler := by
      funext t
      rw [threadPriority, threadPriority, hsame.2.1, hsame.2.2.1]
    rw [hsplit] at hnodup hsum ⊢
    have hrest : ∀ t ∈ xs, (CpuScheduler.addThread σ.scheduler x).state t = .active := by
      intro t ht
      rw [hsame.1]
      exact hactive t (List.mem_cons_of_mem _ ht)
    rw [← hpriority] at hsum
    obtain ⟨hrun, hruns⟩ := ih (σ := step σ (.addThread x)) hadded hrest hnodup hsum
    exact ⟨hrun, hsame.trans hruns⟩

/-- A started scheduler that threads are added to switches to the first of
them. -/
theorem switchesTo_addThreads [Fintype Thread] {threads : Threads Thread}
    (hactive : ∀ t, threads.state t = .active) (hnodup : (t :: xs).Nodup)
    (hkernel : t ≠ threads.kernelThread)
    (hsum : ((t :: xs).map (threadPriority (Scheduled.new threads).scheduler)).sum < 2 ^ 32) :
    Consistent (run step (Scheduled.new threads) ((t :: xs).map .addThread)).scheduler (t :: xs) ∧
      SwitchesTo (run step (Scheduled.new threads) ((t :: xs).map .addThread)).scheduler t ∧
      SameThreads (Scheduled.new threads).scheduler
        (run step (Scheduled.new threads) ((t :: xs).map .addThread)).scheduler := by
  have hnew : Consistent (Scheduled.new threads).scheduler [] := ⟨represents_empty _, rfl⟩
  obtain ⟨hrun, hsame⟩ := hnew.addThreads (fun t _ => hactive t) hnodup hsum
  have hcurrent := hsame.2.2.2.2.trans hsame.2.2.2.1.symm
  have hstays : ¬ Rotates (run step (Scheduled.new threads) ((t :: xs).map .addThread)).scheduler :=
    fun hrot => hrot.1 hcurrent
  refine ⟨hrun, ⟨?_, ?_⟩, hsame⟩
  · rw [rotate_of_not_rotates hstays]
    exact hrun.1.head
  · rw [hsame.2.2.2.2]
    exact hkernel

omit [DecidableEq Thread] in
theorem SameThreads.threadPriority {s' : CpuScheduler Thread} (h : SameThreads s s') :
    threadPriority s' = CpuScheduler.threadPriority s := by
  funext t
  rw [CpuScheduler.threadPriority, CpuScheduler.threadPriority, h.2.1, h.2.2.1]

/-- Sixteen threads of the default priorities, of which the first is the
kernel's. -/
def sixteenThreads : Threads (Fin 16) := ⟨0, fun _ => .active, fun _ => 100, fun _ => 100⟩

/-- The others, from one of them on. -/
def threadsFrom (n : ℕ) : List (Fin 16) := (List.finRange 16).drop n

/-- A scheduler they are added to. -/
def scheduledFrom (n : ℕ) : CpuScheduler (Fin 16) :=
  (run step (Scheduled.new sixteenThreads) ((threadsFrom n).map .addThread)).scheduler

theorem switchesTo_scheduledFrom {n : ℕ} {t : Fin 16} {xs : List (Fin 16)}
    (hfrom : threadsFrom n = t :: xs) (hnodup : (t :: xs).Nodup) (ht : t ≠ 0) :
    Consistent (scheduledFrom n) (threadsFrom n) ∧ SwitchesTo (scheduledFrom n) t ∧
      threadPriority (scheduledFrom n) = fun _ => 100 * 100 := by
  have hlength : (t :: xs).length ≤ 16 := by
    rw [← hfrom, threadsFrom, List.length_drop, List.length_finRange]
    omega
  have hsum : ((t :: xs).map (threadPriority (Scheduled.new sixteenThreads).scheduler)).sum <
      2 ^ 32 := by
    have hdefault : threadPriority (Scheduled.new sixteenThreads).scheduler =
        fun _ => 100 * 100 := rfl
    rw [hdefault, List.map_const', List.sum_replicate_nat]
    omega
  have hall := switchesTo_addThreads (fun _ => rfl) hnodup ht hsum
  rw [scheduledFrom, hfrom]
  exact ⟨hall.1, hall.2.1, hall.2.2.threadPriority⟩

/-- With fourteen of them the slice is exact. -/
theorem exact_iff_fits_fourteen :
    Exact (scheduledFrom 2) (threadsFrom 2).length 2 ↔
      Fits (scheduledFrom 2) (threadsFrom 2).length 2 :=
  have h := switchesTo_scheduledFrom (n := 2) (t := 2) rfl (by decide) (by decide)
  exact_iff_fits h.1 h.2.1

/-- **With fifteen it is not**: the product passes 32 bits, and what is
left of it makes a slice of 1366 where the average is 30000. -/
theorem not_exact_fifteen :
    (Consistent (scheduledFrom 1) (threadsFrom 1) ∧ SwitchesTo (scheduledFrom 1) 1) ∧
      ¬ Exact (scheduledFrom 1) (threadsFrom 1).length 1 ∧ (yield (scheduledFrom 1)).1 = some 1366 ∧
      slice (threadsFrom 1).length (threadPriority (scheduledFrom 1) 1)
        (scheduledFrom 1).totalActivePriority = 30000 := by
  obtain ⟨hconsistent, hswitches, hpriority⟩ :=
    switchesTo_scheduledFrom (n := 1) (t := 1) rfl (by decide) (by decide)
  have htotal : (scheduledFrom 1).totalActivePriority = 150000 := by
    rw [hconsistent.2, hpriority]
    decide
  have hslice : slice (threadsFrom 1).length (threadPriority (scheduledFrom 1) 1)
      (scheduledFrom 1).totalActivePriority = 30000 := by
    rw [hpriority, htotal]
    decide
  have hyield : (yield (scheduledFrom 1)).1 = some 1366 := by
    have hsize : ((scheduledFrom 1).lists .active).size = 15 := hconsistent.1.size
    have hproduct : (scheduledFrom 1).product 1 = 10000 :=
      congrArg (· % 2 ^ 32) (congrFun hpriority 1)
    rw [yield_fst hswitches (by rw [hsize]; decide), hsize, hproduct, htotal]
    decide
  refine ⟨⟨hconsistent, hswitches⟩, fun hexact => ?_, hyield, hslice⟩
  have hcon := hexact.2
  rw [hyield, hslice] at hcon
  contradiction

end CpuScheduler

end Uberos
