import Uberos.DriverApi.Model
/-!
# What a driver's ranges cover

The loops are the interval operations of the library, except where
`unsubscribe_memory` removes the first range of the array: the array's
`remove` leaves that range at the front, where the loop finds it again
until nothing is left. So subscriptions are the set they should be until
an unsubscription covers the first range and not all of them.
-/

namespace Uberos

open Library

namespace DriverApi

variable {T : Target} {before after ranges : List MemoryRange} {start stop size : ℕ}

/-! ## The loops are the library's operations -/

theorem isSubscribedLoop_eq (ranges : List MemoryRange) :
    isSubscribedLoop start stop ranges = Span.meets ⟨start, stop⟩ ranges := by
  induction ranges with
  | nil => rfl
  | cons subscribed ranges ih => rw [isSubscribedLoop, Span.meets, ih]

/-- The element at the end of what stands before. -/
theorem getElem?_middle {value : MemoryRange} :
    (before ++ value :: after)[before.length]? = some value := by simp

theorem set_middle {value value' : MemoryRange} :
    (before ++ value :: after).set before.length value' = before ++ value' :: after := by simp

theorem append_cons {value : MemoryRange} :
    before ++ value :: after = (before ++ [value]) ++ after := by simp

theorem length_concat (value : MemoryRange) : (before ++ [value]).length = before.length + 1 := by
  simp

/-- The `while` absorbs what follows the range. -/
theorem growLoop_eq (fuel : ℕ) (before after : List MemoryRange) (subscribed : MemoryRange)
    (hfuel : after.length ≤ fuel) :
    growLoop stop before.length fuel (before ++ subscribed :: after) =
      before ++ Span.absorb stop subscribed after := by
  induction fuel generalizing subscribed after with
  | zero =>
    have hafter : after = [] := List.length_eq_zero_iff.1 (by omega)
    rw [growLoop, hafter, Span.absorb]
  | succ fuel ih =>
    rw [growLoop, getElem?_middle]
    rcases after with - | ⟨next, after⟩
    · rw [append_cons, ← length_concat subscribed, List.append_nil,
        List.getElem?_eq_none le_rfl, Span.absorb]
    · have hnext : (before ++ subscribed :: next :: after)[before.length + 1]? = some next := by
        rw [append_cons, ← length_concat subscribed, getElem?_middle]
      simp only [hnext]
      rw [Span.absorb]
      split
      · have hremove : PodArray.remove (before ++
            ⟨subscribed.start, max subscribed.stop next.stop⟩ :: next :: after) (before.length + 1) =
            before ++ ⟨subscribed.start, max subscribed.stop next.stop⟩ :: after := by
          rw [append_cons, ← length_concat, PodArray.remove_append (by simp), ← append_cons]
        rw [set_middle, hremove]
        exact ih after _ (by rw [List.length_cons] at hfuel; omega)
      · rfl

/-- **A subscription adds its range.** -/
theorem subscribeLoop_eq (start stop fuel : ℕ) (before after : List MemoryRange)
    (hfuel : after.length < fuel) :
    (subscribeLoop start stop fuel before.length (before ++ after)).2 =
      before ++ Span.add ⟨start, stop⟩ after := by
  induction fuel generalizing before after with
  | zero => omega
  | succ fuel ih =>
    rw [subscribeLoop]
    rcases after with - | ⟨subscribed, after⟩
    · rw [List.append_nil, List.getElem?_eq_none le_rfl, Span.add]
      rfl
    · rw [getElem?_middle, Span.add]
      simp only [gt_iff_lt]
      split
      · rw [PodArray.insert_append]
      split
      · rw [append_cons, ← length_concat subscribed,
          ih _ after (by rw [List.length_cons] at hfuel; omega), List.append_assoc,
          List.singleton_append]
      have hmin : (if start < subscribed.start then start else subscribed.start) =
          min start subscribed.start := by
        split <;> omega
      rw [set_middle, set_middle, hmin]
      split
      · exact growLoop_eq _ before after _ (by simp only [List.length_append, List.length_cons]; omega)
      · rfl

/-- Whether the first of the ranges lies within the one taken out. -/
def FirstWithin (start stop : ℕ) (ranges : List MemoryRange) : Prop :=
  ∃ first ∈ ranges.head?, first.start < stop ∧ start < first.stop ∧
    start ≤ first.start ∧ first.stop ≤ stop

/-- **Where it removes no first range an unsubscription cuts.** -/
theorem unsubscribeLoop_eq (fuel : ℕ) (before after : List MemoryRange)
    (hfuel : after.length + 1 < fuel) (hfirst : before = [] → ¬ FirstWithin start stop after) :
    unsubscribeLoop start stop fuel before.length (before ++ after) =
      before ++ Span.cut ⟨start, stop⟩ after := by
  induction fuel generalizing before after with
  | zero => omega
  | succ fuel ih =>
    rw [unsubscribeLoop]
    rcases after with - | ⟨subscribed, after⟩
    · rw [List.append_nil, List.getElem?_eq_none le_rfl, Span.cut, List.append_nil]
    · have hlen : after.length + 1 < fuel := by rw [List.length_cons] at hfuel; omega
      -- the loop past a range that stays, which is then before the others
      have hpass : ∀ kept : MemoryRange,
          unsubscribeLoop start stop fuel (before.length + 1) (before ++ kept :: after) =
            before ++ kept :: Span.cut ⟨start, stop⟩ after := by
        intro kept
        rw [append_cons, ← length_concat kept, ih _ after hlen (by simp),
          List.append_assoc, List.singleton_append]
      rw [getElem?_middle, Span.cut]
      simp only [ge_iff_le, gt_iff_lt, set_middle]
      split
      · rfl
      rename_i hstart
      split
      · exact hpass subscribed
      rename_i hstop
      split
      · rename_i hwithin
        have hne : before ≠ [] := fun hnil =>
          hfirst hnil ⟨subscribed, rfl, by omega, by omega, hwithin.1, hwithin.2⟩
        rw [PodArray.remove_append hne]
        exact ih before after hlen fun hnil => absurd hnil hne
      split
      · split
        · rename_i hright
          -- the right half starts at `stop`, where the loop ends
          have hbreak : ∀ fuel, unsubscribeLoop start stop (fuel + 1) (before.length + 1)
              (before ++ ⟨subscribed.start, start⟩ :: ⟨stop, subscribed.stop⟩ :: after) =
              before ++ ⟨subscribed.start, start⟩ :: ⟨stop, subscribed.stop⟩ :: after :=
            fun fuel => by
              rw [unsubscribeLoop, append_cons, ← length_concat, getElem?_middle]
              simp
          rw [append_cons, ← length_concat, PodArray.insert_append, length_concat, ← append_cons]
          obtain ⟨n, rfl⟩ : ∃ n, fuel = n + 1 := ⟨fuel - 1, by omega⟩
          exact hbreak n
        · exact hpass _
      split
      · exact hpass _
      · exact hpass _

/-- **Where it removes the first range it removes all.** -/
theorem unsubscribeLoop_first (fuel : ℕ) (ranges : List MemoryRange) (hfuel : ranges.length ≤ fuel)
    {first : MemoryRange} (hhead : ∀ r ∈ ranges.head?, r = first)
    (hfirst : first.start < stop ∧ start < first.stop ∧ start ≤ first.start ∧ first.stop ≤ stop) :
    unsubscribeLoop start stop fuel 0 ranges = [] := by
  induction fuel generalizing ranges with
  | zero =>
    rw [unsubscribeLoop]
    exact List.length_eq_zero_iff.1 (by omega)
  | succ fuel ih =>
    rw [unsubscribeLoop]
    rcases ranges with - | ⟨subscribed, after⟩
    · rfl
    · have heq : subscribed = first := hhead subscribed rfl
      obtain ⟨hlen, hnext⟩ := PodArray.remove_zero subscribed after
      rw [List.getElem?_cons_zero, heq]
      simp only
      rw [if_neg (by omega), if_neg (by omega), if_pos ⟨hfirst.2.2.1, hfirst.2.2.2⟩, ← heq]
      refine ih _ ?_ fun r hr => (hnext r hr).trans heq
      rw [hlen]
      rw [List.length_cons] at hfuel
      omega

/-! ## The functions -/

/-- **What a call that is not refused does to the ranges.** -/
theorem subscribeMemory_ok {env : Environment} {answer : Answer} {ranges' : List MemoryRange}
    (h : subscribeMemory T env ranges start size = .ok (answer, ranges')) :
    ranges' = Span.add ⟨start, wordEnd T start size⟩ ranges := by
  have hloop := subscribeLoop_eq start (wordEnd T start size) (ranges.length + 1) [] ranges
    (Nat.lt_succ_self _)
  rw [List.length_nil, List.nil_append, List.nil_append] at hloop
  unfold subscribeMemory at h
  split at h
  · cases h
  split at h
  · cases h
  split at h <;> rename_i hres <;> rw [hres] at hloop <;> injection h with h <;>
    injection h with _ h <;> rw [← h, ← hloop]

/-- What an unsubscription does to them where it does not remove the
first. -/
theorem unsubscribeMemory_eq (hfirst : ¬ FirstWithin start (wordEnd T start size) ranges) :
    unsubscribeMemory T ranges start size = Span.cut ⟨start, wordEnd T start size⟩ ranges := by
  have hloop := unsubscribeLoop_eq (ranges.length + 2) [] ranges (Nat.lt_succ_self _) fun _ => hfirst
  rwa [List.length_nil, List.nil_append, List.nil_append] at hloop

/-- And where it does. -/
theorem unsubscribeMemory_first (hfirst : FirstWithin start (wordEnd T start size) ranges) :
    unsubscribeMemory T ranges start size = [] := by
  obtain ⟨first, hmem, hwithin⟩ := hfirst
  exact unsubscribeLoop_first _ ranges (by omega) (fun r hr => Option.mem_unique hr hmem) hwithin

theorem isSubscribedToMemory_eq (ranges : List MemoryRange) :
    isSubscribedToMemory T ranges start size =
      Span.meets ⟨start, wordEnd T start size⟩ ranges := isSubscribedLoop_eq ranges

/-! ## The runs -/

/-- What a driver asks for. -/
inductive Op
  | subscribe (env : Environment) (start size : ℕ)
  | unsubscribe (start size : ℕ)
  deriving DecidableEq, Repr

/-- The driver's ranges after a call. -/
def step (T : Target) (ranges : List MemoryRange) : Op → List MemoryRange
  | .subscribe env start size =>
    match subscribeMemory T env ranges start size with
    | .ok (_, ranges) => ranges
    | .error _ => ranges
  | .unsubscribe start size => unsubscribeMemory T ranges start size

/-- A call of a range that is not empty and does not wrap. -/
def Proper (T : Target) (_ranges : List MemoryRange) : Op → Prop
  | .subscribe _ start size | .unsubscribe start size => 0 < size ∧ start + size < T.wordSize

instance (ranges : List MemoryRange) (op : Op) : Decidable (Proper T ranges op) := by
  cases op <;> simp only [Proper] <;> infer_instance

/-- The addresses a call should leave covered, as sets. -/
def coveredAfter (T : Target) (ranges : List MemoryRange) : Op → Set ℕ
  | .subscribe env start size =>
    match subscribeMemory T env ranges start size with
    | .ok _ => Span.covered ranges ∪ Set.Ico start (start + size)
    | .error _ => Span.covered ranges
  | .unsubscribe start size => Span.covered ranges \ Set.Ico start (start + size)

/-- **What is asked of a call**: the set it should leave, as
separated ranges in order, of which queries tell the truth. -/
def Faithful (T : Target) (ranges : List MemoryRange) (op : Op) : Prop :=
  Span.covered (step T ranges op) = coveredAfter T ranges op ∧
    Span.Separated (step T ranges op) ∧
    ∀ start size, 0 < size → start + size < T.wordSize →
      (isSubscribedToMemory T (step T ranges op) start size = true ↔
        (Span.covered (step T ranges op) ∩ Set.Ico start (start + size)).Nonempty)

/-- **The first range is covered only with all the others.** -/
def SparesFirst (ranges : List MemoryRange) : Op → Prop
  | .subscribe _ _ _ => True
  | .unsubscribe start size =>
    FirstWithin start (start + size) ranges →
      ∀ r ∈ ranges, start ≤ r.start ∧ r.stop ≤ start + size

instance (ranges : List MemoryRange) (op : Op) : Decidable (SparesFirst ranges op) := by
  cases op <;> simp only [SparesFirst, FirstWithin] <;> infer_instance

theorem wordEnd_eq (h : start + size < T.wordSize) : wordEnd T start size = start + size :=
  Nat.mod_eq_of_lt h

/-- Separated ranges answer queries truly. -/
theorem isSubscribedToMemory_iff (h : Span.Separated ranges) (hsize : 0 < size)
    (hwrap : start + size < T.wordSize) :
    isSubscribedToMemory T ranges start size = true ↔
      (Span.covered ranges ∩ Set.Ico start (start + size)).Nonempty := by
  rw [isSubscribedToMemory_eq, wordEnd_eq hwrap]
  exact Span.meets_iff_nonempty h (by simp only; omega)

variable {op : Op}

/-- Whatever a call does, its ranges are separated. -/
theorem separated_step (h : Span.Separated ranges) (hproper : Proper T ranges op) :
    Span.Separated (step T ranges op) := by
  cases op with
  | subscribe env start size =>
    simp only [step]
    split
    · rename_i hres
      rw [subscribeMemory_ok hres, wordEnd_eq hproper.2]
      exact h.add (by simp only; have := hproper.1; omega)
    · exact h
  | unsubscribe start size =>
    simp only [step]
    by_cases hfirst : FirstWithin start (wordEnd T start size) ranges
    · rw [unsubscribeMemory_first hfirst]
      exact Span.separated_nil
    · rw [unsubscribeMemory_eq hfirst, wordEnd_eq hproper.2]
      exact h.cut (by simp only; have := hproper.1; omega)

/-- **A call leaves the set it should exactly when it spares the first
range.** -/
theorem covered_step_iff (h : Span.Separated ranges) (hproper : Proper T ranges op) :
    Span.covered (step T ranges op) = coveredAfter T ranges op ↔ SparesFirst ranges op := by
  cases op with
  | subscribe env start size =>
    refine iff_of_true ?_ trivial
    rcases hres : subscribeMemory T env ranges start size with error | ⟨answer, ranges'⟩
    · simp only [step, coveredAfter, hres]
    · simp only [step, coveredAfter, hres]
      rw [subscribeMemory_ok hres, wordEnd_eq hproper.2]
      exact Span.covered_add h.ordered (Nat.le_add_right _ _)
  | unsubscribe start size =>
    simp only [step, coveredAfter, SparesFirst]
    by_cases hfirst : FirstWithin start (start + size) ranges
    · rw [unsubscribeMemory_first (by rwa [wordEnd_eq hproper.2]), Span.covered_nil, eq_comm,
        Set.sdiff_eq_empty]
      constructor
      · intro hsub _ r hr
        have hne := h.2 r hr
        have hstart := hsub ⟨r, hr, le_rfl, hne⟩
        have hstop : r.stop - 1 ∈ Set.Ico start (start + size) :=
          hsub ⟨r, hr, by omega, by omega⟩
        rw [Set.mem_Ico] at hstart hstop
        omega
      · rintro hall x ⟨r, hr, hx, hx'⟩
        have := hall hfirst r hr
        rw [Set.mem_Ico]
        omega
    · refine iff_of_true ?_ fun hcon => absurd hcon hfirst
      rw [unsubscribeMemory_eq (by rwa [wordEnd_eq hproper.2]), wordEnd_eq hproper.2]
      exact Span.covered_cut h.ordered

/-- **The subscriptions of a run are the set they should be exactly when
no unsubscription covers the first range and leaves another.** -/
theorem faithful_run_iff (T : Target) (ops : List Op) (hproper : Along (step T) (Proper T) [] ops) :
    Along (step T) (Faithful T) [] ops ↔ Along (step T) SparesFirst [] ops := by
  refine along_iff_of_invariant hproper Span.separated_nil (fun ranges op h hproper => ?_)
    fun _ _ h hproper _ => separated_step h hproper
  have hafter := separated_step h hproper
  rw [Faithful, covered_step_iff h hproper]
  exact and_iff_left ⟨hafter, fun _ _ hsize hwrap => isSubscribedToMemory_iff hafter hsize hwrap⟩

/-- Two ranges bridged by a third, and the middle taken out again. -/
theorem faithful_run_split :
    Along (step .x86_32) (Faithful .x86_32) [] [.subscribe ⟨0, 0, []⟩ 0x1000 0x100,
      .subscribe ⟨0, 0, []⟩ 0x2000 0x100, .subscribe ⟨0, 0, []⟩ 0x1080 0xf80,
      .unsubscribe 0x1800 0x80] :=
  (faithful_run_iff .x86_32 _ (by decide +kernel)).2 (by decide +kernel)

/-- **Unsubscribing the first of two ranges loses both.** -/
theorem faithful_run_broken :
    Along (step .x86_32) (Proper .x86_32) [] [.subscribe ⟨0, 0, []⟩ 0x1000 0x100,
        .subscribe ⟨0, 0, []⟩ 0x2000 0x100, .unsubscribe 0x1000 0x100] ∧
      ¬ Along (step .x86_32) (Faithful .x86_32) [] [.subscribe ⟨0, 0, []⟩ 0x1000 0x100,
        .subscribe ⟨0, 0, []⟩ 0x2000 0x100, .unsubscribe 0x1000 0x100] := by
  refine ⟨by decide +kernel, fun h => ?_⟩
  obtain ⟨-, -, ⟨hcovered, -⟩, -⟩ := h
  have hnone : step .x86_32 [⟨0x1000, 0x1100⟩, ⟨0x2000, 0x2100⟩] (.unsubscribe 0x1000 0x100) = [] := by
    decide +kernel
  have hleft : 0x2000 ∈ Span.covered ([] : List MemoryRange) := by
    rw [← hnone]
    refine hcovered.ge ⟨⟨⟨0x2000, 0x2100⟩, by decide +kernel, by decide, by decide⟩, by decide⟩
  rw [Span.covered_nil] at hleft
  exact hleft

end DriverApi

end Uberos
