import Uberos.CpuScheduler.Membership
import Mathlib.Algebra.BigOperators.Group.List.Basic
import Mathlib.Algebra.Order.BigOperators.Group.List
import Mathlib.Algebra.GroupWithZero.Nat
import Mathlib.Algebra.Order.Group.Nat
/-!
# The total is that of the active threads

`totalActivePriority` is added to where an active thread is added, taken
from where one is removed, and recomputed where a priority changes. The
transitions move threads on and off the list of active ones and leave it
alone. A run in which only threads of product zero make them keeps it at
the sum, and every yield it divides by it then has something to divide
by where an active thread's product is not zero.
-/

namespace Uberos

namespace CpuScheduler

open Library LList

variable {Thread : Type*} [DecidableEq Thread]

instance : Fintype ThreadState where
  elems := {.active, .sleeping, .paused, .terminated}
  complete := by rintro ⟨⟩ <;> decide

/-! ## What it is for -/

/-- **The total is the sum over the active threads** of their priority
times that of their process. -/
def Totalled (s : Scheduled Thread) : Prop :=
  ∃ threads, Represents s.scheduler.links (s.scheduler.lists .active) threads ∧
    s.scheduler.totalActivePriority = (threads.map s.scheduler.product).sum

variable [Fintype Thread]

/-- A yield does not divide by zero, and a removal does not take more off
the total than there is. -/
def Sound (s : Scheduled Thread) : Op Thread → Prop
  | .yield => (yield s.scheduler).1 ≠ none
  | .removeThread t =>
    s.scheduler.onList .terminated t = false → s.scheduler.onList .active t = true →
      s.scheduler.product t ≤ s.scheduler.totalActivePriority
  | .setScheduler _ _ | .addThread _ | .sleep _ | .pause _ | .resume _ | .terminate _
  | .setPriority _ _ => True

/-! ## The condition -/

/-- A yield sends the current thread to the end of the line. -/
def Rotates (s : CpuScheduler Thread) : Prop :=
  s.currentThread ≠ s.kernelThread ∧ s.state s.currentThread = .active

/-- A yield leaves the current thread for an active one: there is one, and
it is not the current thread at the front, alone or staying there. -/
def Leaves (s : CpuScheduler Thread) : Prop :=
  (s.lists .active).head ≠ none ∧
    ((s.lists .active).head = some s.currentThread →
      Rotates s ∧ (s.lists .active).tail ≠ some s.currentThread)

/-- The thread is on the list it is popped from, and its product is zero
if it enters or leaves the active ones. -/
def Uncounted (s : CpuScheduler Thread) (a b : ThreadState) (t : Thread) : Prop :=
  s.onList a t = true ∧ (a = .active ∨ b = .active → s.product t = 0)

/-- **Only threads of product zero make transitions between the active
threads and the others**, each from the list it is on; the sums fit in
32 bits, where a thread is added or its priority set; and a yield that
leaves for an active thread finds one whose product is not zero. -/
def Counted (s : Scheduled Thread) : Op Thread → Prop
  | .addThread t =>
    (∀ list, s.scheduler.onList list t = false) ∧
      (s.scheduler.state t = .active →
        s.scheduler.totalActivePriority + s.scheduler.product t < 2 ^ 32)
  | .yield =>
    (Rotates s.scheduler → s.scheduler.onList .active s.scheduler.currentThread = true) ∧
      (Leaves s.scheduler → ∃ t, s.scheduler.onList .active t = true ∧ s.scheduler.product t ≠ 0)
  | .sleep t =>
    s.scheduler.state t = .active → s.scheduler.scheduler t = true →
      Uncounted s.scheduler .active .sleeping t
  | .pause t =>
    s.scheduler.state t = .active → s.scheduler.scheduler t = true →
      Uncounted s.scheduler .active .paused t
  | .resume t =>
    s.scheduler.state t = .sleeping ∨ s.scheduler.state t = .paused →
      s.scheduler.scheduler t = true → Uncounted s.scheduler (s.scheduler.state t) .active t
  | .terminate t =>
    s.scheduler.state t ≠ .terminated → s.scheduler.scheduler t = true →
      Uncounted s.scheduler (terminatedFrom s.scheduler t) .terminated t
  | .setPriority t set =>
    s.scheduler.priority t ≠ set → s.scheduler.onList .active t = true →
      s.scheduler.scheduler t = true ∧
        s.scheduler.totalActivePriority - s.scheduler.product t +
          set * s.scheduler.processPriority t % 2 ^ 32 < 2 ^ 32
  | .setScheduler _ _ | .removeThread _ => True

instance (s : CpuScheduler Thread) : Decidable (Rotates s) := by
  unfold Rotates
  infer_instance

instance (s : CpuScheduler Thread) : Decidable (Leaves s) := by
  unfold Leaves
  infer_instance

instance (s : CpuScheduler Thread) (a b : ThreadState) (t : Thread) :
    Decidable (Uncounted s a b t) := by
  unfold Uncounted
  infer_instance

instance (s : Scheduled Thread) : ∀ op, Decidable (Counted s op)
  | .addThread _ | .yield => inferInstanceAs (Decidable (_ ∧ (_ → _)))
  | .sleep _ | .pause _ | .resume _ | .terminate _ => inferInstanceAs (Decidable (_ → _ → _))
  | .setPriority _ _ => inferInstanceAs (Decidable (_ → _ → _ ∧ _))
  | .setScheduler _ _ | .removeThread _ => inferInstanceAs (Decidable True)

/-! ## The invariant -/

/-- **The lists are well formed and the total is that of the active one.** -/
structure Counts (s : CpuScheduler Thread) (contents : ThreadState → List Thread) : Prop
    extends Holds s contents where
  total : s.totalActivePriority = ((contents .active).map s.product).sum
  bound : s.totalActivePriority < 2 ^ 32

variable {s : CpuScheduler Thread} {contents : ThreadState → List Thread} {t : Thread}
variable {a b : ThreadState}

omit [Fintype Thread] [DecidableEq Thread] in
/-- It depends on the lists, the links, the products and the total only. -/
theorem Counts.congr (h : Counts s contents) {s' : CpuScheduler Thread}
    (hlinks : s'.links = s.links) (hlists : s'.lists = s.lists) (hproduct : s'.product = s.product)
    (htotal : s'.totalActivePriority = s.totalActivePriority) : Counts s' contents where
  toHolds := h.toHolds.congr hlinks hlists
  total := by rw [htotal, hproduct, h.total]
  bound := by rw [htotal]; exact h.bound

omit [Fintype Thread] in
/-- What moves does not count, or does not leave the list. -/
theorem sum_moved (ht : t ∈ contents a)
    (hmove : a ≠ b → a = .active ∨ b = .active → s.product t = 0) :
    ((moved contents a b t .active).map s.product).sum =
      ((contents .active).map s.product).sum := by
  have herase := List.sum_map_erase s.product (l := contents a) ht
  unfold moved
  by_cases hb : b = .active
  · subst hb
    rw [Function.update_self, List.map_append, List.sum_append, List.map_singleton,
      List.sum_singleton]
    by_cases ha : a = .active
    · subst ha
      rw [Function.update_self, ← herase, add_comm]
    · rw [Function.update_of_ne (Ne.symm ha), hmove ha (Or.inr rfl), add_zero]
  · rw [Function.update_of_ne (Ne.symm hb)]
    by_cases ha : a = .active
    · subst ha
      rw [Function.update_self, ← herase, hmove (Ne.symm hb) (Or.inl rfl), zero_add]
    · rw [Function.update_of_ne (Ne.symm ha)]

omit [Fintype Thread] in
/-- Moving a thread between lists leaves the total alone, and rightly. -/
theorem Counts.move (h : Counts s contents) (ht : t ∈ contents a)
    (hmove : a ≠ b → a = .active ∨ b = .active → s.product t = 0) :
    Counts (pushOn (popFrom s a t) b t) (moved contents a b t) where
  toHolds := h.toHolds.move ht b
  total := h.total.trans (sum_moved ht hmove).symm
  bound := h.bound

/-- A transition the scheduler hears of is of an uncounted thread. -/
theorem Counted.of_fires {σ : Scheduled Thread} {op : Op Thread} (h : Counted σ op)
    (hfires : Fires σ.scheduler op t a b) (hset : σ.scheduler.scheduler t = true) :
    Uncounted σ.scheduler a b t := by
  cases hfires with
  | sleep hstate _ => exact h hstate hset
  | pause hstate => exact h hstate hset
  | resume hstate => exact h hstate hset
  | terminate hstate => exact h hstate hset

/-- **Every transition leaves the total at the sum.** -/
theorem Counts.outcome {σ : Scheduled Thread} {op : Op Thread} {s' : CpuScheduler Thread}
    (h : Counts σ.scheduler contents) (hcounted : Counted σ op)
    (houtcome : Outcome σ.scheduler op s') : ∃ contents', Counts s' contents' := by
  rcases houtcome with rfl | ⟨t, a, b, hfires, rfl⟩
  · exact ⟨contents, h⟩
  have h' : Counts (σ.scheduler.setState t b) contents := h.congr rfl rfl rfl rfl
  split
  · rename_i hset
    obtain ⟨hon, hzero⟩ := hcounted.of_fires hfires hset
    exact ⟨_, h'.move (h.onList_iff.1 hon) fun _ => hzero⟩
  · exact ⟨contents, h'⟩

/-- Adding a thread adds its product, where it is active. -/
theorem Counts.addThread (h : Counts s contents) (hfree : ∀ list, s.onList list t = false)
    (hroom : s.state t = .active → s.totalActivePriority + s.product t < 2 ^ 32) :
    ∃ contents', Counts (addThread s t) contents' := by
  have ht : ∀ list, t ∉ contents list := by
    intro list hcon
    have hon := h.onList_iff.2 hcon
    rw [hfree list] at hon
    contradiction
  have hpush : ∀ list ≠ ThreadState.active, ∃ contents', Counts (pushOn s list t) contents' := by
    intro list hlist
    refine ⟨_, h.toHolds.pushOn ht, ?_, h.bound⟩
    rw [Function.update_of_ne (Ne.symm hlist)]
    exact h.total
  unfold CpuScheduler.addThread
  split
  · rename_i hactive
    have hsum := hroom hactive
    have hholds : Holds { s with totalActivePriority :=
      (s.totalActivePriority + s.product t) % 2 ^ 32 } contents := h.toHolds.congr rfl rfl
    refine ⟨_, hholds.pushOn ht, ?_, Nat.mod_lt _ (by decide)⟩
    change (s.totalActivePriority + s.product t) % 2 ^ 32 =
      ((Function.update contents .active _ .active).map s.product).sum
    rw [Nat.mod_eq_of_lt hsum, Function.update_self, List.map_append, List.sum_append, ← h.total,
      List.map_singleton, List.sum_singleton]
  all_goals exact hpush _ (by decide)

omit [DecidableEq Thread] [Fintype Thread] in
/-- What an active thread counts for is in the total. -/
theorem Counts.product_le (h : Counts s contents) (ht : t ∈ contents .active) :
    s.product t ≤ s.totalActivePriority :=
  h.total ▸ List.le_sum_of_mem (List.mem_map_of_mem ht)

/-- Removing a thread takes its product off, where it is active. -/
theorem Counts.removeThread (h : Counts s contents) (t : Thread) :
    ∃ contents', Counts (removeThread s t) contents' := by
  have hpop : ∀ list ≠ ThreadState.active, s.onList list t = true →
      ∃ contents', Counts (popFrom s list t) contents' := by
    intro list hlist hon
    refine ⟨_, h.toHolds.popFrom (h.onList_iff.1 hon), ?_, h.bound⟩
    rw [Function.update_of_ne (Ne.symm hlist)]
    exact h.total
  unfold CpuScheduler.removeThread
  split
  · exact hpop _ (by decide) (by assumption)
  split
  · rename_i hon
    have ht := h.onList_iff.1 hon
    have hholds : Holds { s with totalActivePriority :=
      (s.totalActivePriority + 2 ^ 32 - s.product t) % 2 ^ 32 } contents := h.toHolds.congr rfl rfl
    refine ⟨_, hholds.popFrom ht, ?_, Nat.mod_lt _ (by decide)⟩
    change (s.totalActivePriority + 2 ^ 32 - s.product t) % 2 ^ 32 =
      ((Function.update contents .active _ .active).map s.product).sum
    have hle := h.product_le ht
    have hbound := h.bound
    have hsum := List.sum_map_erase s.product ht
    rw [← h.total] at hsum
    rw [Function.update_self]
    omega
  split
  · exact hpop _ (by decide) (by assumption)
  split
  · exact hpop _ (by decide) (by assumption)
  · exact ⟨contents, h⟩

/-! ## Yielding -/

/-- The current thread changes places only. -/
theorem Counts.rotate (h : Counts s contents)
    (hon : Rotates s → s.onList .active s.currentThread = true) :
    ∃ contents', Counts (rotate s) contents' := by
  unfold CpuScheduler.rotate
  split
  · rename_i hkernel
    split
    · rename_i hactive
      exact ⟨_, h.move (h.onList_iff.1 (hon ⟨hkernel, hactive⟩)) fun hne => absurd rfl hne⟩
    all_goals exact ⟨contents, h⟩
  · exact ⟨contents, h⟩

omit [Fintype Thread] in
theorem rotate_of_rotates (h : Rotates s) :
    rotate s = pushOn (popFrom s .active s.currentThread) .active s.currentThread := by
  rw [CpuScheduler.rotate, if_pos h.1, h.2]

omit [Fintype Thread] in
theorem rotate_of_not_rotates (h : ¬ Rotates s) : rotate s = s := by
  unfold CpuScheduler.rotate
  split
  · rename_i hkernel
    split
    · rename_i hactive
      exact absurd ⟨hkernel, hactive⟩ h
    all_goals rfl
  · rfl

omit [Fintype Thread] in
@[simp] theorem rotate_currentThread : (rotate s).currentThread = s.currentThread := by
  by_cases h : Rotates s
  · rw [rotate_of_rotates h]
    rfl
  · rw [rotate_of_not_rotates h]

omit [Fintype Thread] in
@[simp] theorem rotate_totalActivePriority :
    (rotate s).totalActivePriority = s.totalActivePriority := by
  by_cases h : Rotates s
  · rw [rotate_of_rotates h]
    rfl
  · rw [rotate_of_not_rotates h]

omit [Fintype Thread] in
/-- What goes to the end of the line is at its front where it is alone. -/
theorem head?_erase_append {xs : List Thread} (hxs : xs.Nodup) (ht : t ∈ xs) :
    (xs.erase t ++ [t]).head? = some t ↔ xs.head? = some t ∧ xs.getLast? = some t := by
  rcases xs with - | ⟨x, xs⟩
  · exact absurd ht List.not_mem_nil
  by_cases hx : x = t
  · subst hx
    rw [List.erase_cons_head]
    rcases xs with - | ⟨y, ys⟩
    · simp
    · have hy : x ∉ y :: ys := (List.nodup_cons.1 hxs).1
      constructor
      · intro hhead
        simp only [List.cons_append, List.head?_cons, Option.some.injEq] at hhead
        exact absurd (hhead ▸ List.mem_cons_self) hy
      · rintro ⟨-, hlast⟩
        rw [List.getLast?_cons_cons] at hlast
        exact absurd (List.mem_of_mem_getLast? hlast) hy
  · rw [List.erase_cons_tail (by simpa using hx)]
    simp [hx]

/-- **A yield stays with the current thread** where it is at the front of
the active ones, and alone if it is sent to the end. -/
theorem Holds.rotate_head (h : Holds s contents)
    (hon : Rotates s → s.onList .active s.currentThread = true) :
    ((CpuScheduler.rotate s).lists .active).head = none ∨
      ((CpuScheduler.rotate s).lists .active).head = some s.currentThread ↔ ¬ Leaves s := by
  have hrep := h.represents .active
  unfold Leaves
  by_cases hrotates : Rotates s
  · have ht := h.onList_iff.1 (hon hrotates)
    have hmoved := (h.move ht .active).represents .active
    rw [moved, Function.update_self, Function.update_self] at hmoved
    have hsome : ((contents .active).erase s.currentThread ++ [s.currentThread]).head? ≠ none := by
      simp
    have hhead : (contents .active).head? ≠ none := by
      rw [ne_eq, List.head?_eq_none_iff]
      exact List.ne_nil_of_mem ht
    rw [rotate_of_rotates hrotates, hmoved.head, hrep.head, hrep.tail,
      head?_erase_append hrep.nodup ht]
    tauto
  · rw [rotate_of_not_rotates hrotates]
    tauto

/-- **A yield divides by zero** where it leaves for an active thread and
the total is zero. -/
theorem Holds.yield_eq_none_iff (h : Holds s contents)
    (hon : Rotates s → s.onList .active s.currentThread = true) :
    (CpuScheduler.yield s).1 = none ↔ Leaves s ∧ s.totalActivePriority = 0 := by
  have hleaves := h.rotate_head hon
  simp only [CpuScheduler.yield]
  split
  · rename_i thread hhead
    rw [hhead] at hleaves
    split
    · rename_i hcurrent
      have hstays : ¬ Leaves s := hleaves.1 (Or.inr (by rw [hcurrent]))
      simp [hstays]
    · rename_i hcurrent
      have hleft : Leaves s := by
        by_contra hcon
        rcases hleaves.2 hcon with hnone | hsome
        · contradiction
        · exact hcurrent (Option.some.inj hsome)
      simp [maxTime, hleft]
  · rename_i hhead
    have hstays : ¬ Leaves s := hleaves.1 (Or.inl hhead)
    simp [hstays]

/-- A yield leaves the total at the sum. -/
theorem Counts.yield (h : Counts s contents)
    (hon : Rotates s → s.onList .active s.currentThread = true) :
    ∃ contents', Counts (yield s).2 contents' := by
  obtain ⟨contents', h'⟩ := h.rotate hon
  simp only [CpuScheduler.yield]
  split
  · split <;> exact ⟨contents', h'.congr rfl rfl rfl rfl⟩
  · exact ⟨contents', h'.congr rfl rfl rfl rfl⟩

/-! ## Priorities -/

omit [DecidableEq Thread] [Fintype Thread] in
/-- A sum taken in 32 bits. -/
theorem foldl_mod (product : Thread → ℕ) (threads : List Thread) (total : ℕ) :
    threads.foldl (fun total thread => (total + product thread) % 2 ^ 32) total % 2 ^ 32 =
      (total + (threads.map product).sum) % 2 ^ 32 := by
  induction threads generalizing total with
  | nil => simp
  | cons thread threads ih =>
    rw [List.foldl_cons, ih, List.map_cons, List.sum_cons]
    omega

omit [DecidableEq Thread] [Fintype Thread] in
theorem foldl_lt (product : Thread → ℕ) (threads : List Thread) {total : ℕ}
    (htotal : total < 2 ^ 32) :
    threads.foldl (fun total thread => (total + product thread) % 2 ^ 32) total < 2 ^ 32 := by
  induction threads generalizing total with
  | nil => exact htotal
  | cons thread threads ih => exact ih (Nat.mod_lt _ (by decide))

omit [DecidableEq Thread] in
/-- The recomputed total. -/
theorem onThreadPrioritiesChanged_total (h : Holds s contents) :
    (onThreadPrioritiesChanged s).totalActivePriority =
      ((contents .active).map s.product).sum % 2 ^ 32 := by
  have hrep := h.represents .active
  have hwalk : LList.walk s.links (Fintype.card Thread) (s.lists .active).head =
      contents .active := by
    rw [hrep.head]
    exact walk_eq hrep.linked _ [] _ rfl hrep.nodup.length_le_card
  have hsum := foldl_mod s.product (contents .active) 0
  rw [Nat.mod_eq_of_lt (foldl_lt _ _ (by decide)), zero_add] at hsum
  unfold onThreadPrioritiesChanged
  rw [hwalk, hsum]

/-- The products after a priority is set. -/
def withPriority (s : CpuScheduler Thread) (t : Thread) (set : ℕ) : CpuScheduler Thread :=
  { s with priority := Function.update s.priority t set }

omit [Fintype Thread] in
theorem withPriority_product_self (set : ℕ) :
    (withPriority s t set).product t = set * s.processPriority t % 2 ^ 32 := by
  simp [withPriority, product]

omit [Fintype Thread] in
theorem withPriority_product_of_ne (set : ℕ) {x : Thread} (hx : x ≠ t) :
    (withPriority s t set).product x = s.product x := by
  simp [withPriority, product, hx]

omit [Fintype Thread] in
/-- The sum of threads that the priority is not set of. -/
theorem withPriority_sum_of_notMem (set : ℕ) {threads : List Thread} (ht : t ∉ threads) :
    (threads.map (withPriority s t set).product).sum = (threads.map s.product).sum := by
  have hmap : threads.map (withPriority s t set).product = threads.map s.product :=
    List.map_congr_left fun x hx => withPriority_product_of_ne set fun heq => ht (heq ▸ hx)
  rw [hmap]

omit [Fintype Thread] in
/-- The sum of threads that it is set of. -/
theorem Counts.withPriority_sum (h : Counts s contents) (set : ℕ) (ht : t ∈ contents .active) :
    ((contents .active).map (withPriority s t set).product).sum =
      s.totalActivePriority - s.product t + set * s.processPriority t % 2 ^ 32 := by
  have hnodup := (h.represents .active).nodup
  have hold := List.sum_map_erase s.product ht
  have hnew := List.sum_map_erase (withPriority s t set).product ht
  rw [withPriority_product_self, withPriority_sum_of_notMem set hnodup.not_mem_erase] at hnew
  rw [← h.total] at hold
  omega

/-- Setting a priority recomputes the total where the sum changes. -/
theorem Counts.setPriority (h : Counts s contents) (set : ℕ)
    (hset : s.priority t ≠ set → s.onList .active t = true →
      s.scheduler t = true ∧
        s.totalActivePriority - s.product t + set * s.processPriority t % 2 ^ 32 < 2 ^ 32) :
    Counts (setPriority s t set) contents := by
  unfold CpuScheduler.setPriority
  split
  · exact h
  rename_i hchanged
  have hactive : t ∈ contents .active → s.scheduler t = true ∧ _ := fun ht =>
    hset hchanged (h.onList_iff.2 ht)
  have hholds : Holds (withPriority s t set) contents := h.toHolds.congr rfl rfl
  change Counts (if s.scheduler t then onThreadPrioritiesChanged (withPriority s t set) else
    withPriority s t set) contents
  split
  · have htotal := onThreadPrioritiesChanged_total hholds
    have hlt : ((contents .active).map (withPriority s t set).product).sum < 2 ^ 32 := by
      by_cases ht : t ∈ contents .active
      · rw [h.withPriority_sum set ht]
        exact (hactive ht).2
      · rw [withPriority_sum_of_notMem set ht, ← h.total]
        exact h.bound
    rw [Nat.mod_eq_of_lt hlt] at htotal
    exact ⟨hholds.congr rfl rfl, htotal, htotal ▸ hlt⟩
  · rename_i hscheduler
    have ht : t ∉ contents .active := fun ht => hscheduler (hactive ht).1
    exact ⟨hholds, h.total.trans (withPriority_sum_of_notMem set ht).symm, h.bound⟩

/-! ## Runs -/

/-- **The step lemma.** -/
theorem Counts.step {σ : Scheduled Thread} {op : Op Thread} (h : Counts σ.scheduler contents)
    (hcounted : Counted σ op) : ∃ contents', Counts (step σ op).scheduler contents' := by
  cases op with
  | setScheduler t set => exact ⟨contents, h.congr rfl rfl rfl rfl⟩
  | addThread t => exact h.addThread hcounted.1 hcounted.2
  | removeThread t => exact h.removeThread t
  | yield => exact h.yield hcounted.1
  | setPriority t set => exact ⟨contents, h.setPriority set hcounted⟩
  | sleep t => exact h.outcome hcounted (sleep_outcome _ t)
  | pause t => exact h.outcome hcounted (pause_outcome _ t)
  | resume t => exact h.outcome hcounted (resume_outcome _ t)
  | terminate t => exact h.outcome hcounted (terminate_outcome _ t)

/-- An allowed step divides by no zero and takes off no more than there is. -/
theorem Counts.sound {σ : Scheduled Thread} {op : Op Thread} (h : Counts σ.scheduler contents)
    (hcounted : Counted σ op) : Sound σ op := by
  cases op with
  | yield =>
    intro hnone
    obtain ⟨hleaves, hzero⟩ := (h.yield_eq_none_iff hcounted.1).1 hnone
    obtain ⟨t, hon, hproduct⟩ := hcounted.2 hleaves
    have hle := h.product_le (h.onList_iff.1 hon)
    omega
  | removeThread t => exact fun _ hon => h.product_le (h.onList_iff.1 hon)
  | setScheduler | addThread | sleep | pause | resume | terminate | setPriority => trivial

omit [DecidableEq Thread] [Fintype Thread] in
theorem Counts.totalled {σ : Scheduled Thread} (h : Counts σ.scheduler contents) : Totalled σ :=
  ⟨contents .active, h.represents .active, h.total⟩

omit [Fintype Thread] [DecidableEq Thread] in
theorem counts_new (threads : Threads Thread) :
    Counts (Scheduled.new threads).scheduler fun _ => [] where
  represents _ := represents_empty _
  disjoint _ _ _ _ ht := absurd ht List.not_mem_nil
  total := rfl
  bound := Nat.two_pow_pos 32

/-- **In every state of a run** whose transitions between the active
threads and the others are of threads of product zero, the total is that
of the active threads; no yield of it divides by zero, and no removal
takes off more than the total. -/
theorem totalled_run (threads : Threads Thread) (ops : List (Op Thread))
    (hcounted : Along step Counted (Scheduled.new threads) ops) :
    Throughout step Totalled (Scheduled.new threads) ops ∧
      Along step Sound (Scheduled.new threads) ops := by
  have hnew : ∃ contents, Counts (Scheduled.new threads).scheduler contents :=
    ⟨_, counts_new threads⟩
  have hstep : ∀ (σ : Scheduled Thread) op, (∃ contents, Counts σ.scheduler contents) →
      Counted σ op → ∃ contents, Counts (step σ op).scheduler contents :=
    fun σ op ⟨_, h⟩ hop => h.step hop
  constructor
  · exact throughout_of_invariant hcounted hnew hstep fun σ ⟨_, h⟩ => h.totalled
  · exact along_of_invariant hcounted hnew hstep fun σ op ⟨_, h⟩ hop => h.sound hop

/-- Two threads are added and one is removed, and one whose priority is
set to zero sleeps and wakes. -/
theorem totalled_run_zero :
    Throughout step Totalled (Scheduled.new threeThreads)
        [.setScheduler 1 true, .addThread 1, .setScheduler 2 true, .addThread 2, .yield, .yield,
          .setPriority 2 0, .sleep 2, .yield, .resume 2, .yield, .removeThread 1] ∧
      Along step Sound (Scheduled.new threeThreads)
        [.setScheduler 1 true, .addThread 1, .setScheduler 2 true, .addThread 2, .yield, .yield,
          .setPriority 2 0, .sleep 2, .yield, .resume 2, .yield, .removeThread 1] :=
  totalled_run threeThreads _ (by decide +kernel)

/-- **A paused thread leaves its product in the total, and a thread that
is resumed brings none**: the yield to it divides by zero. -/
theorem totalled_run_broken :
    ¬ Throughout step Totalled (Scheduled.new threeThreads)
        [.setScheduler 1 true, .addThread 1, .pause 1] ∧
      ¬ Along step Sound (Scheduled.new threeThreads)
        [.pause 1, .setScheduler 1 true, .addThread 1, .resume 1, .yield] := by
  constructor
  · intro h
    obtain ⟨threads, hrep, htotal⟩ := h.last
    have hnone : ((run step (Scheduled.new threeThreads) [.setScheduler 1 true, .addThread 1,
        .pause 1]).scheduler.lists .active).head = none := by decide +kernel
    have hhead := hrep.head
    rw [hnone, eq_comm, List.head?_eq_none_iff] at hhead
    subst hhead
    exact absurd htotal (by decide +kernel)
  · rintro ⟨-, -, -, -, hyield, -⟩
    exact hyield (by decide +kernel)

end CpuScheduler

end Uberos
