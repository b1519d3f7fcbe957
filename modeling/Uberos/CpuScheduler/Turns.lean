import Uberos.CpuScheduler.Priority
import Mathlib.Data.List.Rotate
/-!
# Turns

A yield sends the current thread to the end of the active ones and goes
on with the one at the front. As many yields as there are active threads
give each its turn, in the order of the list from the present one on: the
current thread is kept at the end of the list, or at its front, unless it
left the list and came back among the others. The order is kept by the
threads on the list being active, so it rests on the transitions moving
them as they should.
-/

namespace Uberos

namespace CpuScheduler

open Library LList

variable {Thread : Type*} [DecidableEq Thread]

/-! ## What it is for -/

/-- The threads that become current in this many yields; `none` where one
of them divides by zero. -/
def turns : ℕ → CpuScheduler Thread → Option (List Thread)
  | 0, _ => some []
  | n + 1, s =>
    match yield s with
    | (none, _) => none
    | (some _, s) => (turns n s).map (s.currentThread :: ·)

/-- The list from the thread after `c` on, and round to `c`; the list as
it is where `c` is not on it. -/
def after (c : Thread) (xs : List Thread) : List Thread :=
  if c ∈ xs then xs.rotate (xs.idxOf c + 1) else xs

/-- **As many yields as there are active threads give each its turn**, in
list order from the one after the current. -/
def Fair (s : CpuScheduler Thread) : Prop :=
  ∀ xs, Represents s.links (s.lists .active) xs → xs ≠ [] →
    turns xs.length s = some (after s.currentThread xs)

/-- **A yield completes with an active thread current**, or with the
kernel's where there is none. -/
def AfterYield (s : CpuScheduler Thread) : Prop :=
  (yield s).1 ≠ none ∧
    (((yield s).2.lists .active).head = none →
      (yield s).2.currentThread = s.kernelThread) ∧
    (((yield s).2.lists .active).head ≠ none →
      (yield s).2.currentThread ≠ s.kernelThread ∧
        (yield s).2.state (yield s).2.currentThread = .active)

/-! ## The condition -/

variable [Fintype Thread]

/-- **The transitions are heard of as they should be**, the kernel's thread
is not added, and a yield that leaves for another thread has a total to
divide by. -/
def Turning (s : Scheduled Thread) (op : Op Thread) : Prop :=
  Heard s op ∧ op ≠ .addThread s.scheduler.kernelThread ∧
    (op = .yield → Leaves s.scheduler → s.scheduler.totalActivePriority ≠ 0)

/-- **The current thread is not among the others**: where it is active it
is at the front of the list or at its end. Where there is no total to
divide by it is alone. -/
def InTurn (s : CpuScheduler Thread) : Prop :=
  (s.onList .active s.currentThread = true →
      (s.lists .active).head = some s.currentThread ∨
        (s.lists .active).tail = some s.currentThread) ∧
    (s.totalActivePriority = 0 → (s.lists .active).head ≠ none →
      (s.lists .active).head = some s.currentThread ∧
        (s.lists .active).tail = some s.currentThread)

instance (s : Scheduled Thread) (op : Op Thread) : Decidable (Turning s op) :=
  inferInstanceAs (Decidable (_ ∧ _ ∧ (_ → _ → _)))

instance (s : CpuScheduler Thread) : Decidable (InTurn s) :=
  inferInstanceAs (Decidable ((_ → _) ∧ (_ → _ → _)))

/-! ## The line -/

/-- **The active threads stand in line**: they are in that state, and the
kernel's is not among them. -/
structure Lined (s : CpuScheduler Thread) (contents : ThreadState → List Thread) : Prop
    extends Holds s contents where
  active : ∀ t ∈ contents .active, s.state t = .active
  kernel : s.kernelThread ∉ contents .active

/-- The line after the current thread has gone to its end. -/
def line (s : CpuScheduler Thread) (xs : List Thread) : List Thread :=
  if Rotates s then xs.erase s.currentThread ++ [s.currentThread] else xs

variable {s : CpuScheduler Thread} {contents : ThreadState → List Thread} {t : Thread}
variable {xs ys zs : List Thread}

omit [Fintype Thread] in
@[simp] theorem rotate_state : (rotate s).state = s.state := by
  by_cases h : Rotates s
  · rw [rotate_of_rotates h]
    rfl
  · rw [rotate_of_not_rotates h]

omit [Fintype Thread] in
@[simp] theorem rotate_kernelThread : (rotate s).kernelThread = s.kernelThread := by
  by_cases h : Rotates s
  · rw [rotate_of_rotates h]
    rfl
  · rw [rotate_of_not_rotates h]

omit [Fintype Thread] in
/-- A yield rotates, and takes the thread at the front. -/
theorem yield_snd (s : CpuScheduler Thread) :
    (yield s).2 = { rotate s with
      currentThread := (((rotate s).lists .active).head).getD s.kernelThread } := by
  simp only [yield]
  split
  · rename_i hhead
    split <;> rw [hhead] <;> rfl
  · rename_i hhead
    rw [hhead, rotate_kernelThread]
    rfl

/-- The threads in line are those the current one can be sent back among. -/
theorem Lined.rotates_iff (h : Lined s contents)
    (hon : Rotates s → s.onList .active s.currentThread = true) :
    Rotates s ↔ s.currentThread ∈ contents .active := by
  constructor
  · intro hrotates
    exact h.onList_iff.1 (hon hrotates)
  · intro hmem
    exact ⟨fun heq => h.kernel (heq ▸ hmem), h.active _ hmem⟩

/-- Rotating leaves the same threads in line. -/
theorem Lined.rotate (h : Lined s contents)
    (hon : Rotates s → s.onList .active s.currentThread = true) :
    ∃ contents', Lined (rotate s) contents' ∧
      contents' .active = line s (contents .active) := by
  unfold line
  split
  · rename_i hrotates
    have ht := (h.rotates_iff hon).1 hrotates
    have hmem : ∀ x ∈ moved contents .active .active s.currentThread .active,
        x ∈ contents .active := by
      intro x hx
      rcases (h.mem_moved ht x).1 hx with hold | ⟨rfl, -⟩
      · exact hold.2
      · exact ht
    have hmoved : Lined (CpuScheduler.rotate s) (moved contents .active .active s.currentThread) := by
      refine ⟨?_, fun x hx => ?_, fun hkernel => ?_⟩
      · rw [rotate_of_rotates hrotates]
        exact h.move ht .active
      · rw [rotate_state]
        exact h.active x (hmem x hx)
      · rw [rotate_kernelThread] at hkernel
        exact h.kernel (hmem _ hkernel)
    refine ⟨_, hmoved, ?_⟩
    rw [moved, Function.update_self, Function.update_self]
  · rename_i hrotates
    rw [rotate_of_not_rotates hrotates]
    exact ⟨contents, h, rfl⟩

/-- **A yield goes on with the thread at the front of the line.** -/
theorem Lined.yield (h : Lined s contents)
    (hon : Rotates s → s.onList .active s.currentThread = true)
    (hline : line s (contents .active) = t :: xs) :
    (∃ contents', Lined (yield s).2 contents' ∧ contents' .active = t :: xs) ∧
      (yield s).2.currentThread = t ∧
      (yield s).2.totalActivePriority = s.totalActivePriority := by
  obtain ⟨contents', hlined, hactive⟩ := h.rotate hon
  rw [hline] at hactive
  have hhead := (hlined.represents .active).head
  rw [hactive, List.head?_cons] at hhead
  rw [yield_snd, hhead]
  refine ⟨⟨contents', ⟨hlined.toHolds.congr rfl rfl, hlined.active, hlined.kernel⟩, hactive⟩,
    rfl, ?_⟩
  exact rotate_totalActivePriority

/-- **A yield with nobody in line** goes on with the kernel's thread. -/
theorem Lined.yield_nil (h : Lined s contents)
    (hon : Rotates s → s.onList .active s.currentThread = true)
    (hline : line s (contents .active) = []) :
    ((CpuScheduler.yield s).2.lists .active).head = none ∧
      (CpuScheduler.yield s).2.currentThread = s.kernelThread := by
  obtain ⟨contents', hlined, hactive⟩ := h.rotate hon
  have hhead := (hlined.represents .active).head
  rw [hactive, hline] at hhead
  rw [yield_snd, hhead]
  exact ⟨rfl, rfl⟩

/-! ## Turns -/

omit [Fintype Thread] in
theorem turns_succ {n : ℕ} (h : (yield s).1 ≠ none) :
    turns (n + 1) s = (turns n (yield s).2).map ((yield s).2.currentThread :: ·) := by
  rw [turns]
  rcases hyield : yield s with ⟨- | interval, s'⟩
  · rw [hyield] at h
    contradiction
  · rfl

omit [Fintype Thread] in
theorem turns_eq_none {n : ℕ} (h : (yield s).1 = none) : turns (n + 1) s = none := by
  rw [turns]
  rcases hyield : yield s with ⟨- | interval, s'⟩
  · rfl
  · rw [hyield] at h
    contradiction

/-- **From the thread at the front**, the yields go down the line behind
it: each sends the one before to the end and comes to the next. -/
theorem Lined.turns_behind (h : Lined s contents) (htotal : s.totalActivePriority ≠ 0)
    (hcurrent : contents .active = s.currentThread :: (ys ++ zs)) :
    turns ys.length s = some ys := by
  -- by induction on the threads that come next, with the line turned by one each time
  induction ys generalizing s contents zs with
  | nil => rfl
  | cons y ys ih =>
    have hmem : s.currentThread ∈ contents .active := hcurrent ▸ List.mem_cons_self
    have hon : Rotates s → s.onList .active s.currentThread = true := fun _ =>
      h.onList_iff.2 hmem
    have hline : line s (contents .active) = y :: (ys ++ (zs ++ [s.currentThread])) := by
      rw [line, if_pos ((h.rotates_iff hon).2 hmem), hcurrent, List.erase_cons_head]
      simp
    obtain ⟨⟨contents', hlined, hactive⟩, hy, htotal'⟩ := h.yield hon hline
    have hcompletes : (CpuScheduler.yield s).1 ≠ none := fun hnone =>
      htotal ((h.yield_eq_none_iff hon).1 hnone).2
    have hcurrent' : contents' .active =
        (CpuScheduler.yield s).2.currentThread :: (ys ++ (zs ++ [s.currentThread])) := by
      rw [hactive, hy]
    have hrest := ih hlined (htotal'.symm ▸ htotal) hcurrent'
    rw [List.length_cons, turns_succ hcompletes, hrest, hy, Option.map_some]

/-- **As many yields as there are threads in line** go down the line that
the first of them leaves. -/
theorem Lined.turns (h : Lined s contents)
    (hon : Rotates s → s.onList .active s.currentThread = true)
    (htotal : s.totalActivePriority ≠ 0) (hline : line s (contents .active) = t :: xs) :
    turns (xs.length + 1) s = some (t :: xs) := by
  obtain ⟨⟨contents', hlined, hactive⟩, ht, htotal'⟩ := h.yield hon hline
  have hcompletes : (CpuScheduler.yield s).1 ≠ none := fun hnone =>
    htotal ((h.yield_eq_none_iff hon).1 hnone).2
  have hcurrent : contents' .active = (CpuScheduler.yield s).2.currentThread :: (xs ++ []) := by
    rw [hactive, ht, List.append_nil]
  have hrest := hlined.turns_behind (htotal'.symm ▸ htotal) hcurrent
  rw [turns_succ hcompletes, hrest, ht, Option.map_some]

/-! ## The order -/

omit [Fintype Thread] in
/-- The list from the thread after one of it. -/
theorem after_append {c : Thread} (hc : c ∉ xs) : after c (xs ++ c :: ys) = ys ++ xs ++ [c] := by
  have hsplit : xs ++ c :: ys = (xs ++ [c]) ++ ys := by simp
  have hidx : (xs ++ c :: ys).idxOf c + 1 = (xs ++ [c]).length := by
    rw [List.idxOf_append_of_notMem hc, List.idxOf_cons_self, List.length_append,
      List.length_singleton]
  rw [after, if_pos (List.mem_append_right _ List.mem_cons_self), hidx, hsplit,
    List.rotate_append_length_eq, List.append_assoc]

omit [DecidableEq Thread] [Fintype Thread] in
/-- Two lists with nothing in common commute where one is empty. -/
theorem append_comm_iff (hapart : ∀ x ∈ xs, x ∉ ys) : xs ++ ys = ys ++ xs ↔ xs = [] ∨ ys = [] := by
  rcases xs with - | ⟨x, xs⟩
  · simp
  rcases ys with - | ⟨y, ys⟩
  · simp
  · have hne : x ≠ y := fun heq => hapart x List.mem_cons_self (heq ▸ List.mem_cons_self)
    simp [hne]

omit [DecidableEq Thread] [Fintype Thread] in
/-- A list of distinct threads that begins and ends with the same one. -/
theorem eq_singleton_of_ends (hnodup : xs.Nodup) (hhead : xs.head? = some t)
    (hlast : xs.getLast? = some t) : xs = [t] := by
  rcases xs with - | ⟨x, xs⟩
  · contradiction
  obtain rfl : x = t := Option.some.inj hhead
  rcases xs with - | ⟨y, ys⟩
  · rfl
  · rw [List.getLast?_cons_cons] at hlast
    exact absurd (List.mem_of_mem_getLast? hlast) (List.nodup_cons.1 hnodup).1

omit [Fintype Thread] in
/-- **The line keeps to the order of the list** where the current thread is
at one of its ends. -/
theorem line_eq_after_iff (hnodup : xs.Nodup) (hrotates : Rotates s ↔ s.currentThread ∈ xs) :
    line s xs = after s.currentThread xs ↔
      (s.currentThread ∈ xs →
        xs.head? = some s.currentThread ∨ xs.getLast? = some s.currentThread) := by
  by_cases hmem : s.currentThread ∈ xs
  -- the line is `as ++ bs`, and the order of the list `bs ++ as`
  · obtain ⟨as, bs, has, rfl, herase⟩ := List.exists_erase_eq hmem
    rw [List.nodup_append, List.nodup_cons] at hnodup
    obtain ⟨-, ⟨hbs, -⟩, hapart⟩ := hnodup
    rw [line, if_pos (hrotates.2 hmem), herase, after_append has, List.append_cancel_right_eq,
      append_comm_iff fun x hx hx' => hapart x hx x (List.mem_cons_of_mem _ hx') rfl,
      forall_prop_of_true hmem]
    refine or_congr ?_ ?_
    · rcases as with - | ⟨a, as⟩
      · simp
      · have hne : a ≠ s.currentThread := fun heq => has (heq ▸ List.mem_cons_self)
        simp [hne]
    · rcases List.eq_nil_or_concat bs with rfl | ⟨bs, b, rfl⟩
      · simp
      · have hne : b ≠ s.currentThread := fun heq => hbs (by simp [heq])
        rw [List.concat_eq_append, getLast?_append_cons_concat]
        simp [hne]
  · rw [line, if_neg fun h => hmem (hrotates.1 h), after, if_neg hmem]
    exact iff_of_true rfl fun h => absurd h hmem

omit [Fintype Thread] in
/-- The line is as long as the list. -/
theorem length_line (hrotates : Rotates s → s.currentThread ∈ xs) :
    (line s xs).length = xs.length := by
  unfold line
  split
  · rename_i hrot
    have hmem := hrotates hrot
    have hpos := List.length_pos_of_mem hmem
    rw [List.length_append, List.length_erase_of_mem hmem, List.length_singleton]
    omega
  · rfl

/-- **With no total to divide by**, the first yield that leaves the current
thread stops, and none does where it is alone. -/
theorem Lined.turns_zero (h : Lined s contents)
    (hon : Rotates s → s.onList .active s.currentThread = true)
    (htotal : s.totalActivePriority = 0) (hline : line s (contents .active) = t :: xs) :
    CpuScheduler.turns (xs.length + 1) s = some (after s.currentThread (contents .active)) ↔
      (contents .active).head? = some s.currentThread ∧
        (contents .active).getLast? = some s.currentThread := by
  have hrep := h.represents .active
  have hrotates := h.rotates_iff hon
  have hlength := length_line hrotates.1
  rw [hline, List.length_cons] at hlength
  have hstops := h.yield_eq_none_iff hon
  constructor
  · intro hturns
    -- it divides when it leaves, and would stop
    have hstays : ¬ Leaves s := by
      intro hleaves
      rw [turns_eq_none (hstops.2 ⟨hleaves, htotal⟩)] at hturns
      contradiction
    have hsome : (contents .active).head? ≠ none := by
      rw [ne_eq, List.head?_eq_none_iff, ← List.length_eq_zero_iff]
      omega
    rw [Leaves, hrep.head, hrep.tail] at hstays
    have hhead : (contents .active).head? = some s.currentThread := by tauto
    have hrot : Rotates s := hrotates.2 (List.mem_of_mem_head? hhead)
    tauto
  · rintro ⟨hhead, hlast⟩
    -- first and last: a yield comes back to it
    have halone := eq_singleton_of_ends hrep.nodup hhead hlast
    rw [halone] at hlength hline ⊢
    have hcompletes : (CpuScheduler.yield s).1 ≠ none := by
      intro hnone
      have hleaves := (hstops.1 hnone).1
      rw [Leaves, hrep.head, hrep.tail] at hleaves
      exact (hleaves.2 hhead).2 hlast
    have hrot : Rotates s := hrotates.2 (List.mem_of_mem_head? hhead)
    have ht : t = s.currentThread := by
      rw [line, if_pos hrot, List.erase_cons_head] at hline
      exact (List.cons.inj hline).1.symm
    have hcurrent := (h.yield hon (halone ▸ hline)).2.1
    have hafter : after s.currentThread [s.currentThread] = [s.currentThread] := by simp [after]
    rw [hlength, List.length_singleton, turns_succ hcompletes, hcurrent, ht, hafter]
    rfl

/-- **The yields are fair exactly where the current thread is in turn.** -/
theorem Lined.fair_iff (h : Lined s contents)
    (hon : Rotates s → s.onList .active s.currentThread = true) : Fair s ↔ InTurn s := by
  have hrep := h.represents .active
  have hrotates := h.rotates_iff hon
  have hall : Fair s ↔ (contents .active ≠ [] →
      CpuScheduler.turns (contents .active).length s =
        some (after s.currentThread (contents .active))) :=
    ⟨fun hfair => hfair _ hrep, fun hthis xs hxs => hrep.unique hxs ▸ hthis⟩
  rw [hall, InTurn, h.onList_iff, hrep.head, hrep.tail, ← line_eq_after_iff hrep.nodup hrotates]
  by_cases hempty : contents .active = []
  · simp [hempty, line, after, hrotates]
  have hlength := length_line hrotates.1
  obtain ⟨t, rest, hline⟩ : ∃ t rest, line s (contents .active) = t :: rest := by
    apply List.exists_cons_of_ne_nil
    rw [← List.length_pos_iff, hlength]
    exact List.length_pos_iff.2 hempty
  have hhead : (contents .active).head? ≠ none := by simpa using hempty
  rw [hline, List.length_cons] at hlength
  rw [forall_prop_of_true hempty, ← hlength]
  by_cases htotal : s.totalActivePriority = 0
  · rw [h.turns_zero hon htotal hline]
    refine ⟨fun hends => ⟨?_, fun _ _ => hends⟩, fun hin => hin.2 htotal hhead⟩
    exact (line_eq_after_iff hrep.nodup hrotates).2 fun _ => Or.inl hends.1
  · rw [h.turns hon htotal hline, Option.some.injEq, hline]
    exact ⟨fun heq => ⟨heq, fun hcon => absurd hcon htotal⟩, And.left⟩

/-- **A yield that has a total to divide by** where it needs one goes on
with an active thread, or with the kernel's where there is none. -/
theorem Lined.afterYield (h : Lined s contents)
    (hon : Rotates s → s.onList .active s.currentThread = true)
    (htotal : Leaves s → s.totalActivePriority ≠ 0) : AfterYield s := by
  refine ⟨fun hnone => ?_, ?_⟩
  · obtain ⟨hleaves, hzero⟩ := (h.yield_eq_none_iff hon).1 hnone
    exact htotal hleaves hzero
  rcases hline : line s (contents .active) with - | ⟨t, xs⟩
  · obtain ⟨hhead, hcurrent⟩ := h.yield_nil hon hline
    exact ⟨fun _ => hcurrent, fun hcon => absurd hhead hcon⟩
  · obtain ⟨⟨contents', hlined, hactive⟩, hcurrent, -⟩ := h.yield hon hline
    have ht : t ∈ contents' .active := hactive ▸ List.mem_cons_self
    have hhead := (hlined.represents .active).head
    rw [hactive, List.head?_cons] at hhead
    have hkernel : (CpuScheduler.yield s).2.kernelThread = s.kernelThread := by
      rw [yield_snd]
      exact rotate_kernelThread
    rw [hhead, hcurrent]
    refine ⟨fun hcon => absurd hcon (Option.some_ne_none t), fun _ => ⟨?_, hlined.active t ht⟩⟩
    intro heq
    exact hlined.kernel (hkernel ▸ heq ▸ ht)

/-! ## Runs -/

variable {σ : Scheduled Thread} {op : Op Thread}

/-- **Every thread is on the list of its state**, and the kernel's was not
added. -/
def Queued (σ : Scheduled Thread) : Prop :=
  Members σ ∧ σ.scheduler.kernelThread ∉ σ.added

omit [Fintype Thread] in
theorem Outcome.kernelThread {s' : CpuScheduler Thread} (h : Outcome s op s') :
    s'.kernelThread = s.kernelThread := by
  rcases h with rfl | ⟨t, a, b, -, rfl⟩
  · rfl
  · split <;> rfl

/-- Which thread is the kernel's never changes. -/
theorem step_kernelThread (σ : Scheduled Thread) (op : Op Thread) :
    (step σ op).scheduler.kernelThread = σ.scheduler.kernelThread := by
  cases op with
  | setScheduler t set => rfl
  | addThread t =>
    simp only [step, addThread]
    split <;> rfl
  | removeThread t =>
    simp only [step, removeThread]
    repeat' split
    all_goals rfl
  | yield =>
    simp only [step]
    rw [yield_snd]
    exact rotate_kernelThread
  | sleep t => exact (sleep_outcome _ t).kernelThread
  | pause t => exact (pause_outcome _ t).kernelThread
  | resume t => exact (resume_outcome _ t).kernelThread
  | terminate t => exact (terminate_outcome _ t).kernelThread
  | setPriority t set =>
    simp only [step, setPriority]
    repeat' split
    all_goals rfl

/-- **The step lemma.** -/
theorem Queued.step (h : Queued σ) (hturning : Turning σ op) : Queued (step σ op) := by
  refine ⟨h.1.step hturning.1, ?_⟩
  rw [step_kernelThread]
  cases op with
  | addThread t =>
    have hne : σ.scheduler.kernelThread ≠ t := fun heq => hturning.2.1 (heq ▸ rfl)
    exact fun hmem => (Finset.mem_insert.1 hmem).elim hne h.2
  | removeThread t => exact fun hmem => h.2 (Finset.mem_of_mem_erase hmem)
  | setScheduler | yield | sleep | pause | resume | terminate | setPriority => exact h.2

omit [Fintype Thread] [DecidableEq Thread] in
/-- The active threads then stand in line. -/
theorem Queued.lined (h : Queued σ) : ∃ contents, Lined σ.scheduler contents ∧
    ∀ t, t ∈ contents .active ↔ t ∈ σ.added ∧ σ.scheduler.state t = .active := by
  obtain ⟨⟨contents, hholds, hmem⟩, hkernel⟩ := h
  refine ⟨contents, ⟨hholds, fun t ht => ((hmem t _).1 ht).2, fun ht => ?_⟩, fun t => hmem t _⟩
  exact hkernel ((hmem _ _).1 ht).1

/-- A current thread that is sent back is on the list. -/
theorem Queued.onList (h : Queued σ) (hheard : Heard σ .yield) (hrot : Rotates σ.scheduler) :
    σ.scheduler.onList .active σ.scheduler.currentThread = true := by
  obtain ⟨contents, hlined, hmem⟩ := h.lined
  exact hlined.onList_iff.2 ((hmem _).2 ⟨hheard hrot.1 hrot.2, hrot.2⟩)

theorem Queued.fair_iff (h : Queued σ) (hheard : Heard σ .yield) :
    Fair σ.scheduler ↔ InTurn σ.scheduler := by
  obtain ⟨contents, hlined, -⟩ := h.lined
  exact hlined.fair_iff (h.onList hheard)

theorem Queued.afterYield (h : Queued σ) (hturning : Turning σ .yield) :
    AfterYield σ.scheduler := by
  obtain ⟨contents, hlined, -⟩ := h.lined
  exact hlined.afterYield (h.onList hturning.1) (hturning.2.2 rfl)

omit [Fintype Thread] [DecidableEq Thread] in
theorem queued_new (threads : Threads Thread) : Queued (Scheduled.new threads) :=
  ⟨members_new threads, Finset.notMem_empty _⟩

/-- **In a run** whose transitions are heard of as they should be, every
yield completes, with an active thread current or the kernel's where there
is none; and the yields that follow on a state of it are fair exactly
where the current thread is in turn there. -/
theorem turns_run (threads : Threads Thread) (ops : List (Op Thread))
    (hturning : Along step Turning (Scheduled.new threads) ops) :
    Along step (fun σ op => op = .yield → AfterYield σ.scheduler) (Scheduled.new threads) ops ∧
      Throughout step (fun σ => Heard σ .yield → (Fair σ.scheduler ↔ InTurn σ.scheduler))
        (Scheduled.new threads) ops := by
  have hstep : ∀ (σ : Scheduled Thread) op, Queued σ → Turning σ op →
      Queued (CpuScheduler.step σ op) := fun σ op h hop => h.step hop
  constructor
  · refine along_of_invariant hturning (queued_new threads) hstep fun σ op h hop hyield => ?_
    subst hyield
    exact h.afterYield hop
  · exact throughout_of_invariant hturning (queued_new threads) hstep
      fun σ h hheard => h.fair_iff hheard

/-- Two threads take turns, one sleeps and wakes, and the other is paused
and resumed. -/
theorem turns_run_two :
    Along step (fun σ op => op = .yield → AfterYield σ.scheduler) (Scheduled.new threeThreads)
        [.setScheduler 1 true, .addThread 1, .setScheduler 2 true, .addThread 2, .yield, .sleep 1,
          .yield, .resume 1, .pause 2, .yield, .resume 2, .yield] ∧
      Throughout step (fun σ => Heard σ .yield → (Fair σ.scheduler ↔ InTurn σ.scheduler))
        (Scheduled.new threeThreads)
        [.setScheduler 1 true, .addThread 1, .setScheduler 2 true, .addThread 2, .yield, .sleep 1,
          .yield, .resume 1, .pause 2, .yield, .resume 2, .yield] :=
  turns_run threeThreads _ (by decide +kernel)

/-- There is a first of four. -/
theorem first_of_four : NeZero 4 := ⟨by decide⟩

attribute [local instance] first_of_four

/-- Four threads, of which the first is the kernel's. -/
def fourThreads : Threads (Fin 4) := ⟨0, fun _ => .active, fun _ => 100, fun _ => 100⟩

/-- **A thread that terminates while it is current stays current**, on the
list of the active ones. And a current thread that is paused and resumed
among the others has its turn before those that came after it. -/
theorem not_turns_run :
    ¬ Along step (fun σ op => op = .yield → AfterYield σ.scheduler) (Scheduled.new threeThreads)
        [.setScheduler 1 true, .addThread 1, .yield, .terminate 1, .yield] ∧
      ¬ Fair (run step (Scheduled.new fourThreads) [.setScheduler 1 true, .addThread 1, .yield,
        .pause 1, .addThread 2, .resume 1, .addThread 3]).scheduler := by
  constructor
  · rintro ⟨-, -, -, -, hyield, -⟩
    have hstate := ((hyield rfl).2.2 (by decide +kernel)).2
    exact absurd hstate (by decide +kernel)
  · have hturning : Along step Turning (Scheduled.new fourThreads) [.setScheduler 1 true,
        .addThread 1, .yield, .pause 1, .addThread 2, .resume 1, .addThread 3] := by decide +kernel
    have hqueued := run_invariant hturning (queued_new fourThreads) fun _ _ h hop => h.step hop
    rw [hqueued.fair_iff (by decide +kernel)]
    decide +kernel

end CpuScheduler

end Uberos
