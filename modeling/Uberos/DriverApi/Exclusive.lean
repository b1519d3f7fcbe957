import Uberos.DriverApi.Lifecycle
/-!
# Memory is one driver's

A subscription is checked against the drivers that are active, and a
driver is active only once its `_on_start` has returned. What it
subscribes to before that is invisible to every check made until then,
where `subscribe_pci` and `subscribe_ioPort` ask all drivers. A run keeps
the drivers apart while no call is let through that only such a driver
stood in the way of, and while no range wraps.
-/

namespace Uberos

namespace Drivers

open Library

variable {T : Target} {layout : Layout} {n : ℕ} {s : System n} {op : Op n}

/-- **No two drivers hold ranges that overlap.** -/
def Exclusive (s : System n) : Prop :=
  ∀ d e, d ≠ e → Disjoint (Span.covered (s.memory d)) (Span.covered (s.memory e))

/-- **A call no inactive driver stands in the way of.** Its range does not
wrap, and if the heap and the active drivers leave it alone, so do the
drivers that are not active. -/
def Clear (T : Target) (layout : Layout) (s : System n) : Op n → Prop
  | .subscribeMemory d start size =>
    start + size < T.wordSize ∧
      (¬ (start < DriverApi.wordEnd T layout.heap layout.heapSize ∧ start + size > layout.heap) →
        (∀ e, e ≠ d → s.isActive e = true →
          DriverApi.isSubscribedToMemory T (s.memory e) start size = false) →
        ∀ e, e ≠ d → DriverApi.isSubscribedToMemory T (s.memory e) start size = false)
  | .unsubscribeMemory _ start size => start + size < T.wordSize
  | .startDriver _ | .stopDriver _ _ | .restartDriver _ _ | .failDriver _ | .onStartReturns _ _
  | .onStopReturns _ _ | .onStopToRestartReturns _ _ | .terminateToRestartReturns _
  | .unsubscribeAllMemory _ => True

instance (s : System n) : ∀ op, Decidable (Clear T layout s op)
  | .subscribeMemory _ _ _ => inferInstanceAs (Decidable (_ ∧ (_ → _ → _)))
  | .unsubscribeMemory _ _ _ => inferInstanceAs (Decidable (_ < _))
  | .startDriver _ | .stopDriver _ _ | .restartDriver _ _ | .failDriver _ | .onStartReturns _ _
  | .onStopReturns _ _ | .onStopToRestartReturns _ _ | .terminateToRestartReturns _
  | .unsubscribeAllMemory _ => inferInstanceAs (Decidable True)

/-- What a run keeps: the drivers apart, and each one's ranges in order. -/
structure Apart (s : System n) : Prop where
  exclusive : Exclusive s
  ordered : ∀ d, Span.Ordered (s.memory d)

theorem apart_new (n : ℕ) : Apart (System.new n) where
  exclusive := by
    intro d e _
    simp [System.memory, System.new]
  ordered := fun _ => Span.ordered_nil

/-- Drivers that hold no more than they did stay apart. -/
theorem Apart.shrink (h : Apart s) {s' : System n}
    (hshrink : ∀ d, Span.covered (s'.memory d) ⊆ Span.covered (s.memory d) ∧
      Span.Ordered (s'.memory d)) : Apart s' where
  exclusive := fun d e hne => (h.exclusive d e hne).mono (hshrink d).1 (hshrink e).1
  ordered := fun d => (hshrink d).2

/-- So do drivers of which each holds what it did or nothing. -/
theorem Apart.keep (h : Apart s) {s' : System n}
    (hkeep : ∀ d, s'.memory d = s.memory d ∨ s'.memory d = []) : Apart s' := by
  refine h.shrink fun d => ?_
  rcases hkeep d with heq | hnil
  · rw [heq]
    exact ⟨le_rfl, h.ordered d⟩
  · rw [hnil, Span.covered_nil]
    exact ⟨Set.empty_subset _, Span.ordered_nil⟩

/-- An unsubscription takes points away only. -/
theorem unsubscribeMemory_shrinks {ranges : List MemoryRange} {start size : ℕ}
    (h : Span.Ordered ranges) (hwrap : start + size < T.wordSize) :
    Span.covered (DriverApi.unsubscribeMemory T ranges start size) ⊆ Span.covered ranges ∧
      Span.Ordered (DriverApi.unsubscribeMemory T ranges start size) := by
  by_cases hfirst : DriverApi.FirstWithin start (DriverApi.wordEnd T start size) ranges
  · rw [DriverApi.unsubscribeMemory_first hfirst, Span.covered_nil]
    exact ⟨Set.empty_subset _, Span.ordered_nil⟩
  · rw [DriverApi.unsubscribeMemory_eq hfirst, DriverApi.wordEnd_eq hwrap]
    exact ⟨Span.covered_cut_subset, h.cut (Nat.le_add_right _ _)⟩

/-- **A call that is let through** has the heap and every active driver
out of its way. -/
theorem subscribeMemory_checked {d : Fin n} {start size : ℕ} {answer : DriverApi.Answer}
    {ranges : List MemoryRange}
    (h : DriverApi.subscribeMemory T (environment layout s d) (s.memory d) start size =
      .ok (answer, ranges)) :
    ¬ (start < DriverApi.wordEnd T layout.heap layout.heapSize ∧
        DriverApi.wordEnd T start size > layout.heap) ∧
      ∀ e, e ≠ d → s.isActive e = true →
        DriverApi.isSubscribedToMemory T (s.memory e) start size = false := by
  unfold DriverApi.subscribeMemory at h
  split at h
  · cases h
  rename_i hheap
  split at h
  · cases h
  rename_i hothers
  refine ⟨hheap, fun e hne hactive => ?_⟩
  by_contra hcon
  refine hothers (List.any_eq_true.2 ⟨(s.isActive e, s.memory e), ?_, ?_⟩)
  · exact List.mem_map_of_mem (f := fun other => (s.isActive other, s.memory other))
      (List.mem_filter.2 ⟨List.mem_finRange e, by simpa using hne⟩)
  · simpa [hactive] using hcon

/-- A clear subscription keeps the drivers apart. -/
theorem Apart.subscribe (h : Apart s) {d : Fin n} {start size : ℕ}
    (hclear : Clear T layout s (.subscribeMemory d start size)) :
    Apart (step T layout s (.subscribeMemory d start size)) := by
  obtain ⟨hwrap, hclear⟩ := hclear
  rcases hres : DriverApi.subscribeMemory T (environment layout s d) (s.memory d) start size
    with error | ⟨answer, ranges⟩
  · simp only [step, hres]
    exact h
  · obtain ⟨hheap, hactive⟩ := subscribeMemory_checked hres
    rw [DriverApi.wordEnd_eq hwrap] at hheap
    have hothers := hclear hheap hactive
    have hranges := DriverApi.subscribeMemory_ok hres
    rw [DriverApi.wordEnd_eq hwrap] at hranges
    have hcovered : Span.covered ranges =
        Span.covered (s.memory d) ∪ Set.Ico start (start + size) := by
      rw [hranges]
      exact Span.covered_add (h.ordered d) (Nat.le_add_right _ _)
    -- the range added is apart from what any other driver holds
    have hapart : ∀ e, e ≠ d →
        Disjoint (Span.covered (s.memory e)) (Span.covered ranges) := by
      intro e hne
      have hmeets := hothers e hne
      rw [DriverApi.isSubscribedToMemory_eq, DriverApi.wordEnd_eq hwrap] at hmeets
      rw [hcovered, Set.disjoint_union_right]
      exact ⟨h.exclusive e d hne, Span.disjoint_of_not_meets (h.ordered e) hmeets⟩
    simp only [step, hres]
    constructor
    · intro a b hne
      by_cases ha : a = d
      · subst ha
        rw [memory_setMemory_self, memory_setMemory_of_ne s a hne.symm]
        exact (hapart b hne.symm).symm
      rw [memory_setMemory_of_ne s d ha]
      by_cases hb : b = d
      · subst hb
        rw [memory_setMemory_self]
        exact hapart a hne
      · rw [memory_setMemory_of_ne s d hb]
        exact h.exclusive a b hne
    · intro e
      by_cases he : e = d
      · subst he
        rw [memory_setMemory_self, hranges]
        exact (h.ordered e).add (Nat.le_add_right _ _)
      · rw [memory_setMemory_of_ne s d he]
        exact h.ordered e

/-- **The lifecycle gives no driver memory**: what a start, a stop, a
restart or a failure leaves a driver is what it had or nothing. -/
theorem memory_step (hop : (∀ d start size, op ≠ .subscribeMemory d start size) ∧
    ∀ d start size, op ≠ .unsubscribeMemory d start size) (e : Fin n) :
    (step T layout s op).memory e = s.memory e ∨ (step T layout s op).memory e = [] := by
  cases op with
  | startDriver d => exact Or.inl (memory_startDriver s d e)
  | stopDriver d canStopDriver =>
    left
    simp only [step, stopDriver]
    split
    · split <;> rfl
    · rfl
  | restartDriver d canRestartDriver =>
    left
    simp only [step, restartDriver]
    split
    · split <;> rfl
    · exact memory_startDriver s d e
  | failDriver d => simpa [step, failDriver] using memory_unsubscribeAllMemory (s.setState d .failed) d e
  | onStartReturns d ok =>
    simp only [step, onStartReturns]
    split
    · exact Or.inl (by simp)
    · simpa using memory_unsubscribeAllMemory ((s.leave (.onStart d)).setState d .failed) d e
  | onStopReturns d ok =>
    simp only [step, onStopReturns]
    split
    · simpa using memory_unsubscribeAllMemory ((s.leave (.onStop d)).setState d .inactive) d e
    · exact Or.inl rfl
  | onStopToRestartReturns d ok =>
    simp only [step, onStopToRestartReturns]
    split
    · simpa using
        memory_unsubscribeAllMemory ((s.leave (.onStopToRestart d)).setState d .inactive) d e
    · exact Or.inl rfl
  | terminateToRestartReturns d => exact Or.inl (memory_apiStartDriver _ d e)
  | subscribeMemory d start size => exact absurd rfl (hop.1 d start size)
  | unsubscribeMemory d start size => exact absurd rfl (hop.2 d start size)
  | unsubscribeAllMemory d => exact memory_unsubscribeAllMemory s d e

/-- **The step lemma.** -/
theorem Apart.step (h : Apart s) (hclear : Clear T layout s op) : Apart (step T layout s op) := by
  cases op with
  | subscribeMemory d start size => exact h.subscribe hclear
  | unsubscribeMemory d start size =>
    have hshrinks := unsubscribeMemory_shrinks (h.ordered d) hclear
    refine h.shrink fun e => ?_
    simp only [Drivers.step]
    by_cases he : e = d
    · subst he
      rw [memory_setMemory_self]
      exact hshrinks
    · rw [memory_setMemory_of_ne s d he]
      exact ⟨le_rfl, h.ordered e⟩
  | startDriver _ | stopDriver _ _ | restartDriver _ _ | failDriver _ | onStartReturns _ _
  | onStopReturns _ _ | onStopToRestartReturns _ _ | terminateToRestartReturns _
  | unsubscribeAllMemory _ =>
    exact h.keep (memory_step ⟨fun _ _ _ => nofun, fun _ _ _ => nofun⟩)

/-- **No two drivers ever hold ranges that overlap** in a run of clear
calls, however the drivers start, stop, restart, fail and call each other
from inside. -/
theorem exclusive_run (T : Target) (layout : Layout) (n : ℕ) (ops : List (Op n))
    (hclear : Along (step T layout) (Clear T layout) (System.new n) ops) :
    Throughout (step T layout) Exclusive (System.new n) ops :=
  throughout_of_invariant hclear (apart_new n) (fun _ _ h hop => h.step hop) fun _ h => h.exclusive

/-- A driver starts another from its `_on_start`, and each subscribes to
its own memory. -/
theorem exclusive_run_nested :
    Throughout (step .x86_32 ⟨0x100000, 0x1000⟩) Exclusive (System.new 2)
      [.startDriver 0, .subscribeMemory 0 0xb8000 100, .startDriver 1,
        .subscribeMemory 1 0xa0000 16, .onStartReturns 1 true, .onStartReturns 0 true] :=
  exclusive_run .x86_32 ⟨0x100000, 0x1000⟩ 2 _ (by decide +kernel)

/-- **A driver that is starting is overlooked**: the driver it starts
subscribes to the middle of what it holds. -/
theorem exclusive_run_broken :
    Along (step .x86_32 ⟨0x100000, 0x1000⟩) Returns (System.new 2)
        [.startDriver 0, .subscribeMemory 0 0xb8000 100, .startDriver 1,
          .subscribeMemory 1 0xb8010 16, .onStartReturns 1 true, .onStartReturns 0 true] ∧
      ¬ Throughout (step .x86_32 ⟨0x100000, 0x1000⟩) Exclusive (System.new 2)
        [.startDriver 0, .subscribeMemory 0 0xb8000 100, .startDriver 1,
          .subscribeMemory 1 0xb8010 16, .onStartReturns 1 true, .onStartReturns 0 true] := by
  refine ⟨by decide +kernel, fun h => ?_⟩
  have hdisjoint := Set.disjoint_left.1 (h.last 0 1 (by decide))
  refine hdisjoint (a := 0xb8010) ⟨⟨0xb8000, 0xb8064⟩, ?_, ?_, ?_⟩ ⟨⟨0xb8010, 0xb8020⟩, ?_, ?_, ?_⟩ <;>
    decide +kernel

end Drivers

end Uberos
