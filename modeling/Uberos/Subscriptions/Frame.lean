import Uberos.Subscriptions.Irqs
/-!
# What a step leaves alone

A step is about one driver. Another driver's memory, irqs, PCI devices
and I/O ports are as they were after it, and its state; so are its
interrupts, unless it is an interrupt controller: to those an irq's
first subscriber gives its interrupt, and its last takes it away, whether
the controller is active or not.
-/

namespace Uberos

open Library

/-! ## States and memory -/

namespace Drivers

variable {n : ℕ} {T : Target} {layout : Layout} {s s' : System n} {d e : Fin n} {op : Op n}

/-- The driver a step is about. -/
def Op.driver : Op n → Fin n
  | .startDriver d | .stopDriver d _ | .restartDriver d _ | .failDriver d | .onStartReturns d _
  | .onStopReturns d _ | .onStopToRestartReturns d _ | .terminateToRestartReturns d
  | .subscribeMemory d _ _ | .unsubscribeMemory d _ _ | .unsubscribeAllMemory d => d

/-- The driver is active, or its `_on_start` runs. -/
def Busy (s : System n) (d : Fin n) : Prop := s.isActive d = true ∨ .onStart d ∈ s.entered

instance (s : System n) (d : Fin n) : Decidable (Busy s d) := inferInstanceAs (Decidable (_ ∨ _))

/-- **Nothing of the others is different.** -/
structure Beside (d : Fin n) (s s' : System n) : Prop where
  apis : ∀ e, e ≠ d → s'.apis e = s.apis e
  starting : ∀ e, e ≠ d → (.onStart e ∈ s'.entered ↔ .onStart e ∈ s.entered)

namespace Beside

theorem refl (s : System n) : Beside d s s := ⟨fun _ _ => rfl, fun _ _ => Iff.rfl⟩

theorem trans {s'' : System n} (h : Beside d s s') (h' : Beside d s' s'') : Beside d s s'' where
  apis := fun e he => (h'.apis e he).trans (h.apis e he)
  starting := fun e he => (h'.starting e he).trans (h.starting e he)

theorem setState (s : System n) (state : DriverState) : Beside d s (s.setState d state) :=
  ⟨fun _ he => Function.update_of_ne he _ _, fun _ _ => Iff.rfl⟩

theorem setMemory (s : System n) (ranges : List MemoryRange) : Beside d s (s.setMemory d ranges) :=
  ⟨fun _ he => Function.update_of_ne he _ _, fun _ _ => Iff.rfl⟩

theorem enter (s : System n) (call : Entered n) (hcall : ∀ e, e ≠ d → call ≠ .onStart e) :
    Beside d s (s.enter call) := by
  refine ⟨fun _ _ => rfl, fun e he => ?_⟩
  rw [System.enter, List.mem_cons]
  exact or_iff_right (hcall e he).symm

theorem leave (s : System n) (call : Entered n) (hcall : ∀ e, e ≠ d → call ≠ .onStart e) :
    Beside d s (s.leave call) :=
  ⟨fun _ _ => rfl, fun e he => List.mem_erase_of_ne (hcall e he).symm⟩

/-- A call into the driver's own `_on_start`. -/
theorem of_onStart (he : e ≠ d) : Entered.onStart d ≠ Entered.onStart e :=
  fun h => he (Entered.onStart.inj h).symm

theorem apiStartDriver (s : System n) : Beside d s (apiStartDriver s d) := by
  rw [Drivers.apiStartDriver]
  split
  · exact refl s
  · exact enter s _ fun e he => of_onStart he

theorem startDriver (s : System n) : Beside d s (startDriver s d) := by
  rw [Drivers.startDriver]
  split
  · exact refl s
  · exact apiStartDriver s

theorem memory (h : Beside d s s') (he : e ≠ d) : s'.memory e = s.memory e :=
  congrArg Api.subscribedMemory (h.apis e he)

theorem busy_iff (h : Beside d s s') (he : e ≠ d) : Busy s' e ↔ Busy s e := by
  rw [Busy, Busy, System.isActive, System.isActive, h.apis e he, h.starting e he]

end Beside

/-- **A step leaves the other drivers alone.** -/
theorem beside_step (T : Target) (layout : Layout) (s : System n) (op : Op n) :
    Beside op.driver s (step T layout s op) := by
  cases op with
  | startDriver d => exact Beside.startDriver s
  | stopDriver d canStopDriver =>
    simp only [step, stopDriver]
    split
    · split
      · exact Beside.enter s (.onStop d) fun _ _ => nofun
      · exact Beside.refl s
    · exact Beside.refl s
  | restartDriver d canRestartDriver =>
    simp only [step, restartDriver]
    split
    · split
      · exact Beside.enter s (.onStopToRestart d) fun _ _ => nofun
      · exact Beside.refl s
    · exact Beside.startDriver s
  | failDriver d => exact (Beside.setState s .failed).trans (Beside.setMemory _ _)
  | onStartReturns d ok =>
    have hleave := Beside.leave (d := d) s (.onStart d) fun e he => Beside.of_onStart he
    simp only [step, onStartReturns]
    split
    · exact hleave.trans (Beside.setState _ _)
    · exact hleave.trans ((Beside.setState _ _).trans (Beside.setMemory _ _))
  | onStopReturns d ok =>
    have hleave := Beside.leave (d := d) s (.onStop d) fun _ _ => nofun
    simp only [step, onStopReturns]
    split
    · exact hleave.trans ((Beside.setState _ _).trans (Beside.setMemory _ _))
    · exact hleave
  | onStopToRestartReturns d ok =>
    have hleave := Beside.leave (d := d) s (.onStopToRestart d) fun _ _ => nofun
    simp only [step, onStopToRestartReturns]
    split
    · exact hleave.trans (((Beside.setState _ _).trans (Beside.setMemory _ _)).trans
        (Beside.enter _ (.terminateToRestart d) fun _ _ => nofun))
    · exact hleave
  | terminateToRestartReturns d =>
    exact (Beside.leave s (.terminateToRestart d) fun _ _ => nofun).trans (Beside.apiStartDriver _)
  | subscribeMemory d start size =>
    simp only [step]
    split
    · exact Beside.setMemory s _
    · exact Beside.refl s
  | unsubscribeMemory d start size => exact Beside.setMemory s _
  | unsubscribeAllMemory d => exact Beside.setMemory s _

/-! ## Being busy -/

theorem busy_enter (h : Busy s e) (call : Entered n) : Busy (s.enter call) e :=
  h.imp_right fun hstart => List.mem_cons_of_mem _ hstart

theorem busy_leave (h : Busy s e) {call : Entered n} (hcall : call ≠ .onStart e) :
    Busy (s.leave call) e :=
  h.imp_right fun hstart => (List.mem_erase_of_ne hcall.symm).2 hstart

theorem busy_setMemory (ranges : List MemoryRange) : Busy (s.setMemory d ranges) e ↔ Busy s e := by
  have hactive : (s.setMemory d ranges).isActive e = s.isActive e := by
    by_cases he : e = d
    · subst he
      simp [System.isActive, System.setMemory]
    · simp [System.isActive, System.setMemory, he]
  rw [Busy, Busy, hactive, System.setMemory]

end Drivers

/-! ## Subscriptions -/

namespace Machine

variable {n : ℕ} {T : Target} {layout : Drivers.Layout} {m m' m'' : Machine n} {d c e : Fin n}
variable {irq vector : Fin 256} {bitmask : Fin 256 → Bool} {op : Op n}

/-- The driver a step is about. -/
def Op.driver : Op n → Fin n
  | .lifecycle op => op.driver
  | .subscribeInterrupt d _ | .unsubscribeInterrupt d _ | .unsubscribeAllInterrupts d
  | .subscribeIrq d _ | .subscribeAvailableIrq d _ | .unsubscribeIrq d _ | .unsubscribeAllIrqs d
  | .subscribePci d _ | .unsubscribePci d _ | .unsubscribeAllPci d
  | .subscribeIoPort d _ | .unsubscribeIoPort d _ | .unsubscribeAllIoPort d
  | .configure d _ _ => d

/-- **Nothing of the others is different**, save the interrupts of the
interrupt controllers. -/
structure Beside (d : Fin n) (m m' : Machine n) : Prop where
  system : m'.system = m.system
  controllers : m'.controllers = m.controllers
  irqs : ∀ e, e ≠ d → ∀ irq, (m'.irqs irq).subscribed e = (m.irqs irq).subscribed e
  interrupts : ∀ e, e ≠ d → e ∉ m.controllers →
    ∀ vector, (m'.interrupts vector).subscribed e = (m.interrupts vector).subscribed e
  pciDevices : ∀ e, e ≠ d → m'.subscribedPciDevices e = m.subscribedPciDevices e
  ioPorts : ∀ e, e ≠ d → m'.subscribedIoPorts e = m.subscribedIoPorts e

namespace Beside

theorem refl (m : Machine n) : Beside d m m where
  system := rfl
  controllers := rfl
  irqs := fun _ _ _ => rfl
  interrupts := fun _ _ _ _ => rfl
  pciDevices := fun _ _ => rfl
  ioPorts := fun _ _ => rfl

theorem trans (h : Beside d m m') (h' : Beside d m' m'') : Beside d m m'' where
  system := h'.system.trans h.system
  controllers := h'.controllers.trans h.controllers
  irqs := fun e he irq => (h'.irqs e he irq).trans (h.irqs e he irq)
  interrupts := fun e he hnot vector =>
    (h'.interrupts e he (h.controllers ▸ hnot) vector).trans (h.interrupts e he hnot vector)
  pciDevices := fun e he => (h'.pciDevices e he).trans (h.pciDevices e he)
  ioPorts := fun e he => (h'.ioPorts e he).trans (h.ioPorts e he)

/-- A line on which no other driver's bit is different. -/
theorem setIrq (m : Machine n) (irq : Fin 256) (line : Line n)
    (hline : ∀ e, e ≠ d → line.subscribed e = (m.irqs irq).subscribed e) :
    Beside d m (m.setIrq irq line) := by
  refine { refl m with irqs := fun e he v => ?_ }
  by_cases hv : v = irq
  · rw [hv, irqs_setIrq_self, hline e he]
  · rw [irqs_setIrq_of_ne hv]

/-- The same of an interrupt, where a controller's may be. -/
theorem setInterrupt (m : Machine n) (vector : Fin 256) (line : Line n)
    (hline : ∀ e, e ≠ d → e ∉ m.controllers →
      line.subscribed e = (m.interrupts vector).subscribed e) :
    Beside d m (m.setInterrupt vector line) := by
  refine { refl m with interrupts := fun e he hnot v => ?_ }
  by_cases hv : v = vector
  · subst hv
    simp only [Machine.setInterrupt, Function.update_self, hline e he hnot]
  · simp only [Machine.setInterrupt, Function.update_of_ne hv]

/-- An interrupt is the driver's own, or a controller's. -/
theorem ne_of_own (hc : c = d ∨ c ∈ m.controllers) (he : e ≠ d) (hnot : e ∉ m.controllers) :
    e ≠ c := by
  rintro rfl
  exact hc.elim he hnot

theorem subscribeInterrupt (m : Machine n) (vector : Fin 256) (hc : c = d ∨ c ∈ m.controllers) :
    Beside d m (m.subscribeInterrupt c vector) := by
  rw [Machine.subscribeInterrupt]
  split
  · exact refl m
  · exact setInterrupt m vector _ fun e he hnot => Function.update_of_ne (ne_of_own hc he hnot) _ _

theorem unsubscribeInterrupt (m : Machine n) (vector : Fin 256)
    (hc : c = d ∨ c ∈ m.controllers) : Beside d m (m.unsubscribeInterrupt c vector) := by
  rw [Machine.unsubscribeInterrupt]
  split
  · exact refl m
  · exact setInterrupt m vector _ fun e he hnot => Function.update_of_ne (ne_of_own hc he hnot) _ _

theorem unsubscribeAllInterrupts (m : Machine n) : Beside d m (m.unsubscribeAllInterrupts d) := by
  refine run_related refl (fun _ _ _ => trans) m (List.finRange 256) fun m' vector _ _ => ?_
  split
  · exact unsubscribeInterrupt m' vector (Or.inl rfl)
  · exact refl m'

theorem enableIrq (m : Machine n) (irq : Fin 256) (hc : c ∈ m.controllers) :
    Beside d m (m.enableIrq c irq) := by
  rw [Machine.enableIrq]
  split
  · have henabled : Beside d m { m with irqEnabled := Bitmask32.set m.irqEnabled irq true } :=
      { refl m with }
    exact henabled.trans (subscribeInterrupt _ _ (Or.inr hc))
  · exact refl m

theorem disableIrq (m : Machine n) (irq : Fin 256) (hc : c ∈ m.controllers) :
    Beside d m (m.disableIrq c irq) := by
  rw [Machine.disableIrq]
  split
  · exact trans (unsubscribeInterrupt m (m.interruptOf irq) (Or.inr hc)) { refl _ with }
  · exact refl m

theorem markIrq (m : Machine n) (irq : Fin 256) (value : Bool) :
    Beside d m (m.markIrq d irq value) :=
  setIrq m irq _ fun _ he => Function.update_of_ne he _ _

theorem irqSubscribe (m : Machine n) (d : Fin n) (irq : Fin 256) :
    Beside d m (m.irqSubscribe d irq).2 := by
  rw [Machine.irqSubscribe]
  split
  · exact setIrq m irq _ fun _ _ => rfl
  · have hmade := setIrq (d := d) m irq { m.irqs irq with subscribers := some [] } fun _ _ => rfl
    simp only
    split
    · rename_i c hfind
      have hc : c ∈ m.controllers := List.mem_of_find?_eq_some hfind
      exact (hmade.trans (enableIrq _ irq hc)).trans (setIrq _ irq _ fun _ _ => rfl)
    · exact hmade

theorem subscribeIrq (m : Machine n) (irq : Fin 256) : Beside d m (m.subscribeIrq d irq) := by
  have hcall := irqSubscribe m d irq
  rw [Machine.subscribeIrq]
  split
  · exact refl m
  · split
    · rename_i hres
      rw [hres] at hcall
      exact hcall.trans (markIrq _ irq true)
    · rename_i hres
      rw [hres] at hcall
      exact hcall

theorem subscribeAvailableLoop (m : Machine n) (bitmask : Fin 256 → Bool)
    (controllers : List (Fin n)) :
    Beside d m (Machine.subscribeAvailableLoop d bitmask controllers m) := by
  induction controllers generalizing m with
  | nil => exact refl m
  | cons c rest ih =>
    rw [Machine.subscribeAvailableLoop]
    split
    · exact ih m
    · rename_i irq _
      have hcall := irqSubscribe m d irq
      split
      · rename_i hres
        rw [hres] at hcall
        exact hcall.trans (markIrq _ irq true)
      · rename_i hres
        rw [hres] at hcall
        exact hcall.trans (ih _)

theorem irqUnsubscribe (m : Machine n) (irq : Fin 256) : Beside d m (m.irqUnsubscribe d irq) := by
  rw [Machine.irqUnsubscribe]
  split
  · exact refl m
  · have hremoved := setIrq (d := d) m irq ((m.irqs irq).remove d) fun _ _ => rfl
    simp only
    split
    · refine hremoved.trans (trans (setIrq _ irq
        { (m.setIrq irq ((m.irqs irq).remove d)).irqs irq with subscribers := none }
        fun _ _ => rfl) ?_)
      refine run_related refl (fun _ _ _ => trans) _ m.controllers fun m' c hc hm' => ?_
      split
      · exact disableIrq m' irq (hm'.controllers ▸ hc)
      · exact refl m'
    · exact hremoved

theorem unsubscribeIrq (m : Machine n) (irq : Fin 256) : Beside d m (m.unsubscribeIrq d irq) := by
  rw [Machine.unsubscribeIrq]
  split
  · exact refl m
  · exact (irqUnsubscribe m irq).trans (markIrq _ irq false)

theorem unsubscribeAllIrqs (m : Machine n) : Beside d m (m.unsubscribeAllIrqs d) := by
  refine run_related refl (fun _ _ _ => trans) m (List.finRange 256) fun m' irq _ _ => ?_
  split
  · exact unsubscribeIrq m' irq
  · exact refl m'

/-- Other PCI devices of the driver. -/
theorem setPciDevices (m : Machine n) (devices : List ℕ) : Beside d m
    { m with subscribedPciDevices := Function.update m.subscribedPciDevices d devices } :=
  { refl m with pciDevices := fun _ he => Function.update_of_ne he _ _ }

/-- Other I/O ports of the driver. -/
theorem setIoPorts (m : Machine n) (ioPorts : List ℕ) : Beside d m
    { m with subscribedIoPorts := Function.update m.subscribedIoPorts d ioPorts } :=
  { refl m with ioPorts := fun _ he => Function.update_of_ne he _ _ }

theorem unsubscribeRest (m : Machine n) : Beside d m (m.unsubscribeRest d) :=
  (((unsubscribeAllInterrupts m).trans (unsubscribeAllIrqs _)).trans (setPciDevices _ _)).trans
    (setIoPorts _ _)

end Beside

/-- A driver's own step gives up its subscriptions. -/
theorem driver_of_givenUp {op : Drivers.Op n} (h : givenUp op = some d) : op.driver = d := by
  unfold givenUp at h
  split at h
  all_goals cases h
  all_goals rfl

/-- **A step of a driver's lifecycle leaves the others alone.** -/
theorem beside_lifecycle (T : Target) (layout : Drivers.Layout) (m : Machine n)
    (op : Drivers.Op n) : Beside op.driver
      { m with system := Drivers.step T layout m.system op } (m.lifecycle T layout op) := by
  rcases hgiven : givenUp op with - | d
  · rw [lifecycle_of_none hgiven]
    exact Beside.refl _
  · rw [lifecycle_of_some hgiven, ← driver_of_givenUp hgiven]
    exact Beside.unsubscribeRest _

/-- **And so does any other step.** -/
theorem beside_step (T : Target) (layout : Drivers.Layout) (m : Machine n)
    (hop : ∀ op', op ≠ .lifecycle op') : Beside op.driver m (step T layout m op) := by
  cases op with
  | lifecycle op => exact absurd rfl (hop op)
  | subscribeInterrupt d vector => exact Beside.subscribeInterrupt m vector (Or.inl rfl)
  | unsubscribeInterrupt d vector => exact Beside.unsubscribeInterrupt m vector (Or.inl rfl)
  | unsubscribeAllInterrupts d => exact Beside.unsubscribeAllInterrupts m
  | subscribeIrq d irq => exact Beside.subscribeIrq m irq
  | subscribeAvailableIrq d bitmask => exact Beside.subscribeAvailableLoop m bitmask m.controllers
  | unsubscribeIrq d irq => exact Beside.unsubscribeIrq m irq
  | unsubscribeAllIrqs d => exact Beside.unsubscribeAllIrqs m
  | subscribePci d device =>
    simp only [Machine.step, subscribePci]
    split
    · exact Beside.refl m
    · split
      · exact Beside.refl m
      · exact Beside.setPciDevices m _
  | unsubscribePci d device => exact Beside.setPciDevices m _
  | unsubscribeAllPci d => exact Beside.setPciDevices m _
  | subscribeIoPort d ioPort =>
    simp only [Machine.step, subscribeIoPort]
    split
    · exact Beside.refl m
    · split
      · exact Beside.refl m
      · exact Beside.setIoPorts m _
  | unsubscribeIoPort d ioPort => exact Beside.setIoPorts m _
  | unsubscribeAllIoPort d => exact Beside.setIoPorts m _
  | configure c range offset => exact { Beside.refl m with }

end Machine

end Uberos
