import Uberos.DriverApi.Covered
import Uberos.Mmu.Reading
/-!
# Subscribed memory is mapped

`subscribe_memory` with the mapping it asks for. Of its three ways out two map
the range, and the one that inserts it before another answers with the physical
address, at which nothing need be mapped.
-/

namespace Uberos

open Library

namespace DriverApi

/-- A driver's ranges, and what the kernel has mapped. -/
structure MappedMemory where
  mapping : Mmu.Mapping
  subscribedMemory : List MemoryRange

namespace MappedMemory

/-- Nothing is mapped or subscribed to. -/
def new (pool : Mmu.TablePool) (tables : ℕ → ℕ → Mmu.TableEntry) : MappedMemory :=
  ⟨Mmu.Mapping.new pool tables, []⟩

variable (T : Target)

/-- `subscribe_memory(start, size, caching)`, unless an assertion fails. -/
def subscribe (s : MappedMemory) (env : Environment) (start size : ℕ) (caching : Mmu.Caching) :
    Option (Except String ℕ × MappedMemory) :=
  match subscribeMemory T env s.subscribedMemory start size with
  | .error message => some (.error message, s)
  | .ok (.address address, ranges) => some (.ok address, { s with subscribedMemory := ranges })
  | .ok (.mapPhysicalHigh start size, ranges) => do
    let (virtualAddress, m) ← s.mapping.mapPhysicalHighRange start size { caching := caching }
    some (.ok virtualAddress, ⟨m, ranges⟩)

/-- `unsubscribe_memory(start, size)`, which leaves what is mapped. -/
def unsubscribe (s : MappedMemory) (start size : ℕ) : MappedMemory :=
  { s with subscribedMemory := unsubscribeMemory T s.subscribedMemory start size }

/-- A call of the driver, or a page that the kernel maps. -/
inductive Op
  | subscribe (env : Environment) (start size : ℕ) (caching : Mmu.Caching)
  | unsubscribe (start size : ℕ)
  | map (op : Mmu.PageOp)

/-- One call, unless it does not return. -/
def step (s : MappedMemory) : Op → MappedMemory
  | .subscribe env start size caching =>
    match s.subscribe T env start size caching with
    | some (_, s') => s'
    | none => s
  | .unsubscribe start size => s.unsubscribe T start size
  | .map op =>
    match op.call s.mapping with
    | some (_, m) => { s with mapping := m }
    | none => s

/-! ## What it is for -/

/-- **What is subscribed to is mapped**: of a subscription that succeeds every
byte is read at the address it answers with. -/
def Mapped (s : MappedMemory) : Op → Prop
  | .subscribe env start size caching => ∀ virtualAddress s',
    s.subscribe T env start size caching = some (.ok virtualAddress, s') →
      ∀ k < size, Mmu.Reads s'.mapping (virtualAddress + k) (start + k) caching
  | .unsubscribe _ _ | .map _ => True

/-- The range does not wrap, address space and tables remain for it, and no
assertion fails. -/
def Returns (s : MappedMemory) : Op → Prop
  | .subscribe env start size caching =>
    start + size ≤ 2 ^ 32 ∧
      (s.mapping.highPage < 2 ^ 20 ∧ Mmu.Mapping.pageCount size ≤ s.mapping.highPage + 1) ∧
        (s.subscribe T env start size caching).isSome = true
  | .unsubscribe _ _ => True
  | .map op => Mmu.Permissions.pageAt s.mapping op.cursor < 2 ^ 20 ∧
      (op.call s.mapping).isSome = true

instance Returns.decidable (s : MappedMemory) : ∀ op, Decidable (Returns T s op)
  | .subscribe _ _ _ _ => inferInstanceAs (Decidable (_ ∧ (_ ∧ _) ∧ _))
  | .unsubscribe _ _ => inferInstanceAs (Decidable True)
  | .map _ => inferInstanceAs (Decidable (_ ∧ _))

/-- Neither the heap nor an active driver stands in the way. -/
def Allowed (env : Environment) (start size : ℕ) : Prop :=
  ¬(start < wordEnd T env.heap env.heapSize ∧ wordEnd T start size > env.heap) ∧
    ¬env.others.any fun (active, ranges) => active && isSubscribedToMemory T ranges start size

/-- The first range that does not end before this one starts after it. -/
def InsertsBefore (start stop : ℕ) (ranges : List MemoryRange) : Prop :=
  ∃ next ∈ ranges.find? fun r => stop < r.start ∨ start ≤ r.stop, stop < next.start

/-- **A subscription that will be mapped.** Where its range goes before another
it is mapped at its own address already; elsewhere what it has past the pages
of its size was there already. -/
def Covered (s : MappedMemory) : Op → Prop
  | .subscribe env start size caching => Allowed T env start size →
    (InsertsBefore start (wordEnd T start size) s.subscribedMemory →
      ∀ k < size, Mmu.Reads s.mapping (start + k) (start + k) caching) ∧
    (¬InsertsBefore start (wordEnd T start size) s.subscribedMemory →
      Mmu.Continues s.mapping start size caching)
  | .unsubscribe _ _ | .map _ => True

end MappedMemory

variable {T : Target} {env : Environment} {s s' : MappedMemory} {start stop size : ℕ}
variable {before after ranges : List MemoryRange} {caching : Mmu.Caching}

/-! ## The ways out -/

open MappedMemory

theorem insertsBefore_cons (subscribed : MemoryRange) :
    InsertsBefore start stop (subscribed :: after) ↔
      stop < subscribed.start ∨
        subscribed.stop < start ∧ InsertsBefore start stop after := by
  unfold InsertsBefore
  by_cases hbefore : stop < subscribed.start
  · simp [hbefore]
  · by_cases hends : start ≤ subscribed.stop
    · simp [hbefore, hends]
    · simp [hbefore, hends, Nat.lt_of_not_le hends]

/-- Which way out the loop takes. -/
theorem subscribeLoop_inserts (start stop fuel : ℕ) (before after : List MemoryRange)
    (hfuel : after.length < fuel) :
    (subscribeLoop start stop fuel before.length (before ++ after)).1 = true ↔
      InsertsBefore start stop after := by
  induction fuel generalizing before after with
  | zero => omega
  | succ fuel ih =>
    rw [subscribeLoop]
    rcases after with - | ⟨subscribed, after⟩
    · rw [List.append_nil, List.getElem?_eq_none le_rfl]
      simp [InsertsBefore]
    · rw [getElem?_middle, insertsBefore_cons]
      simp only [gt_iff_lt]
      split
      · rename_i hbefore
        exact iff_of_true rfl (Or.inl hbefore)
      rename_i hbefore
      rw [or_iff_right hbefore]
      split
      · rename_i hends
        rw [append_cons, ← length_concat subscribed, and_iff_right hends,
          ih _ after (by rw [List.length_cons] at hfuel; omega)]
      · rename_i hends
        refine iff_of_false ?_ fun h => hends h.1
        split <;> exact Bool.false_ne_true

/-- A subscription that something stands in the way of. -/
theorem subscribeMemory_refused (h : ¬Allowed T env start size) (ranges : List MemoryRange) :
    ∃ message, subscribeMemory T env ranges start size = .error message := by
  unfold subscribeMemory
  by_cases hheap : start < wordEnd T env.heap env.heapSize ∧ wordEnd T start size > env.heap
  · exact ⟨_, if_pos hheap⟩
  · by_cases hothers : (env.others.any fun (active, ranges) =>
        active && isSubscribedToMemory T ranges start size) = true
    · exact ⟨_, by rw [if_neg hheap, if_pos hothers]⟩
    · exact absurd ⟨hheap, hothers⟩ h

/-- **The answer**: the address where the range goes before another, else a
mapping. -/
theorem subscribeMemory_allowed (h : Allowed T env start size) (ranges : List MemoryRange) :
    ∃ ranges', (InsertsBefore start (wordEnd T start size) ranges →
        subscribeMemory T env ranges start size = .ok (.address start, ranges')) ∧
      (¬InsertsBefore start (wordEnd T start size) ranges →
        subscribeMemory T env ranges start size = .ok (.mapPhysicalHigh start size, ranges')) := by
  have hinserts := subscribeLoop_inserts start (wordEnd T start size) (ranges.length + 1) [] ranges
    (Nat.lt_succ_self _)
  rw [List.length_nil, List.nil_append] at hinserts
  rcases hloop : subscribeLoop start (wordEnd T start size) (ranges.length + 1) 0 ranges
    with ⟨inserted, ranges'⟩
  rw [hloop] at hinserts
  refine ⟨ranges', fun hbefore => ?_, fun hbefore => ?_⟩
  · have hflag : inserted = true := hinserts.2 hbefore
    rw [subscribeMemory, if_neg h.1, if_neg h.2, hloop, hflag]
  · have hflag : inserted = false := Bool.eq_false_iff.2 fun hflag => hbefore (hinserts.1 hflag)
    rw [subscribeMemory, if_neg h.1, if_neg h.2, hloop, hflag]

namespace MappedMemory

variable {op : Op}

/-! ## A call -/

/-- A mapping that the high cursor can go on in. -/
def Ready (s : MappedMemory) : Prop := ∃ t, s.mapping.Ready t

/-- What a subscription does, by its way out. -/
theorem subscribe_eq (s : MappedMemory) (caching : Mmu.Caching) (h : Allowed T env start size) :
    ∃ ranges, (InsertsBefore start (wordEnd T start size) s.subscribedMemory →
        s.subscribe T env start size caching = some (.ok start, ⟨s.mapping, ranges⟩)) ∧
      (¬InsertsBefore start (wordEnd T start size) s.subscribedMemory →
        s.subscribe T env start size caching =
          (s.mapping.mapPhysicalHighRange start size { caching := caching }).map
            fun (virtualAddress, m) => (.ok virtualAddress, ⟨m, ranges⟩)) := by
  obtain ⟨ranges, hbefore, hafter⟩ := subscribeMemory_allowed h s.subscribedMemory
  refine ⟨ranges, fun hinserts => ?_, fun hinserts => ?_⟩
  · rw [subscribe, hbefore hinserts]
  · rw [subscribe, hafter hinserts, Option.map_eq_bind]
    rfl

/-- **A subscription is mapped exactly when its condition holds**, and the
cursor can go on. -/
theorem mapped_subscribe_iff (h : s.Ready)
    (hreturns : Returns T s (.subscribe env start size caching)) :
    (Mapped T s (.subscribe env start size caching) ↔
        Covered T s (.subscribe env start size caching)) ∧
      (s.step T (.subscribe env start size caching)).Ready := by
  obtain ⟨t, hready⟩ := h
  obtain ⟨hwrap, ⟨hpage, hroom⟩, hsome⟩ := hreturns
  by_cases hallowed : Allowed T env start size
  · obtain ⟨ranges, hbefore, hafter⟩ := subscribe_eq s caching hallowed
    by_cases hinserts : InsertsBefore start (wordEnd T start size) s.subscribedMemory
    · -- the answer is the physical address, and nothing is mapped
      have heq := hbefore hinserts
      refine ⟨⟨fun hmapped _ => ⟨fun _ => hmapped start ⟨s.mapping, ranges⟩ heq,
        fun hnot => absurd hinserts hnot⟩, fun hcovered virtualAddress s' hcall => ?_⟩, ?_⟩
      · rw [heq, Option.some.injEq, Prod.mk.injEq, Except.ok.injEq] at hcall
        obtain ⟨rfl, rfl⟩ := hcall
        exact (hcovered hallowed).1 hinserts
      · simp only [step, heq]
        exact ⟨t, hready⟩
    · have heq := hafter hinserts
      rw [heq, Option.isSome_map] at hsome
      obtain ⟨⟨address, m⟩, hmap⟩ := Option.isSome_iff_exists.1 hsome
      obtain ⟨hnext, hreads⟩ := hready.reads_mapPhysicalHighRange hpage hroom hwrap hmap
      rw [hmap, Option.map_some] at heq
      refine ⟨⟨fun hmapped _ => ⟨fun hcon => absurd hcon hinserts,
        fun _ => hreads.1 (hmapped _ _ heq)⟩, fun hcovered virtualAddress s' hcall => ?_⟩, ?_⟩
      · rw [heq, Option.some.injEq, Prod.mk.injEq, Except.ok.injEq] at hcall
        obtain ⟨rfl, rfl⟩ := hcall
        exact hreads.2 ((hcovered hallowed).2 hinserts)
      · simp only [step, heq]
        exact hnext
  · obtain ⟨message, hrefused⟩ := subscribeMemory_refused hallowed s.subscribedMemory
    have heq : s.subscribe T env start size caching = some (.error message, s) := by
      rw [subscribe, hrefused]
    refine ⟨iff_of_true (fun virtualAddress s' hcall => ?_) fun hcon => absurd hcon hallowed, ?_⟩
    · rw [heq, Option.some.injEq, Prod.mk.injEq] at hcall
      cases hcall.1
    · simp only [step, heq]
      exact ⟨t, hready⟩

/-- The same of every call. -/
theorem mapped_iff (h : s.Ready) (hreturns : Returns T s op) :
    (Mapped T s op ↔ Covered T s op) ∧ (s.step T op).Ready := by
  cases op with
  | subscribe env start size caching => exact mapped_subscribe_iff h hreturns
  | unsubscribe start size => exact ⟨Iff.rfl, h⟩
  | map op =>
    obtain ⟨t, hready⟩ := h
    obtain ⟨hpage, hsome⟩ := hreturns
    obtain ⟨⟨virtualAddress, m⟩, hcall⟩ := Option.isSome_iff_exists.1 hsome
    refine ⟨Iff.rfl, ?_⟩
    simp only [step, hcall]
    exact hready.call hpage hcall

/-! ## The result -/

/-- **In every run** what is subscribed to is mapped exactly when every
subscription of it is one that will be. -/
theorem mappedAlong_iff (T : Target) (pool : Mmu.TablePool) (hheap : 0 < pool.tablesPhysical)
    (tables : ℕ → ℕ → Mmu.TableEntry) (ops : List Op)
    (hreturns : Along (step T) (Returns T) (new pool tables) ops) :
    Along (step T) (Mapped T) (new pool tables) ops ↔
      Along (step T) (Covered T) (new pool tables) ops :=
  along_iff_of_invariant hreturns ⟨_, Mmu.Mapping.ready_new pool hheap tables⟩
    (fun _ _ hready hop => (mapped_iff hready hop).1)
    fun _ _ hready hop _ => (mapped_iff hready hop).2

/-- Two ranges of a device, the lower one first. -/
theorem mappedAlong_iff_ascending :
    let ops : List Op := [.subscribe ⟨0x100000, 0x100000, []⟩ 0xe0000000 0x1000 .uncached,
      .subscribe ⟨0x100000, 0x100000, []⟩ 0xf0000000 0x1000 .uncached]
    Along (step .x86_32) (Mapped .x86_32) (new Mmu.heapTables fun _ _ => default) ops ↔
      Along (step .x86_32) (Covered .x86_32) (new Mmu.heapTables fun _ _ => default) ops :=
  mappedAlong_iff .x86_32 Mmu.heapTables (by decide) _ _ (by decide +kernel)

/-- **The lower one last** is answered with its physical address, at which
nothing is mapped. -/
theorem not_mappedAlong_descending :
    ¬Along (step .x86_32) (Mapped .x86_32) (new Mmu.heapTables fun _ _ => default)
      [.subscribe ⟨0x100000, 0x100000, []⟩ 0xf0000000 0x1000 .uncached,
        .subscribe ⟨0x100000, 0x100000, []⟩ 0xe0000000 0x1000 .uncached] := by
  intro h
  have hallowed : Allowed .x86_32 ⟨0x100000, 0x100000, []⟩ 0xe0000000 0x1000 := by
    refine ⟨by decide, by decide⟩
  have hinserts : InsertsBefore 0xe0000000 (wordEnd .x86_32 0xe0000000 0x1000)
      (step .x86_32 (new Mmu.heapTables fun _ _ => default)
        (.subscribe ⟨0x100000, 0x100000, []⟩ 0xf0000000 0x1000 .uncached)).subscribedMemory :=
    ⟨⟨0xf0000000, 0xf0001000⟩, by decide +kernel, by decide⟩
  obtain ⟨ranges, hbefore, -⟩ := subscribe_eq (step .x86_32 (new Mmu.heapTables fun _ _ => default)
    (.subscribe ⟨0x100000, 0x100000, []⟩ 0xf0000000 0x1000 .uncached)) .uncached hallowed
  have hreads := h.2.1 _ _ (hbefore hinserts) 0 (by decide)
  have hphysical : (step .x86_32 (new Mmu.heapTables fun _ _ => default)
      (.subscribe ⟨0x100000, 0x100000, []⟩ 0xf0000000 0x1000 .uncached)).mapping.getPhysical
        0xe0000000 = none := by decide +kernel
  have hfound := hreads.physical
  rw [Nat.add_zero, hphysical] at hfound
  cases hfound

end MappedMemory

end DriverApi

end Uberos
