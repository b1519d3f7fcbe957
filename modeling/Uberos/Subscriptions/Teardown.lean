import Uberos.Subscriptions.Frame
import Uberos.Subscriptions.Interrupts
/-!
# What a driver leaves behind

A start that fails, a stop and a failure give up all a driver is
subscribed to, and nobody else's, but for this: an irq that loses its
last subscriber is disabled by the controllers it is in the range of, and
they give up the interrupt they had for it. They are also given it,
whether active or not, when somebody subscribes. A driver that is not a
controller is subscribed to nothing while it neither is active nor is
being started.
-/

namespace Uberos

open Library

/-! ## States and memory -/

namespace Drivers

variable {n : ℕ} {T : Target} {layout : Layout} {s : System n} {e : Fin n} {op : Op n}

/-- A step that gives up no subscriptions stops nobody. -/
theorem busy_step (hgiven : Machine.givenUp op = none) (h : Busy s e) :
    Busy (step T layout s op) e := by
  by_cases he : e = op.driver
  · subst he
    cases op with
    | startDriver d =>
      simp only [step, startDriver, apiStartDriver]
      split
      · exact h
      · exact busy_enter h _
    | stopDriver d canStopDriver =>
      simp only [step, stopDriver]
      split
      · split
        · exact busy_enter h _
        · exact h
      · exact h
    | restartDriver d canRestartDriver =>
      simp only [step, restartDriver, startDriver, apiStartDriver]
      split
      · split
        · exact busy_enter h _
        · exact h
      · exact busy_enter h _
    | failDriver d => cases hgiven
    | onStartReturns d ok =>
      cases ok with
      | false => cases hgiven
      | true =>
        refine Or.inl ?_
        simp [step, onStartReturns, System.setState, System.isActive, Op.driver]
    | onStopReturns d ok =>
      cases ok with
      | true => cases hgiven
      | false => exact busy_leave h (by simp)
    | onStopToRestartReturns d ok =>
      cases ok with
      | true => cases hgiven
      | false => exact busy_leave h (by simp)
    | terminateToRestartReturns d =>
      have hleave : Busy (s.leave (.terminateToRestart d)) d := busy_leave h (by simp)
      simp only [step, terminateToRestartReturns, apiStartDriver]
      split
      · exact hleave
      · exact busy_enter hleave _
    | subscribeMemory d start size =>
      simp only [step]
      split
      · exact (busy_setMemory _).2 h
      · exact h
    | unsubscribeMemory d start size => exact (busy_setMemory _).2 h
    | unsubscribeAllMemory d => exact (busy_setMemory _).2 h
  · exact ((beside_step T layout s op).busy_iff he).2 h

/-- **A driver that does not subscribe to memory comes by none.** -/
theorem memory_step_nil (hop : ∀ start size, op ≠ .subscribeMemory e start size)
    (h : s.memory e = []) : (step T layout s op).memory e = [] := by
  by_cases he : e = op.driver
  · subst he
    cases op with
    | startDriver d => exact (memory_startDriver s d d).trans h
    | stopDriver d canStopDriver =>
      simp only [step, stopDriver]
      split
      · split <;> exact h
      · exact h
    | restartDriver d canRestartDriver =>
      simp only [step, restartDriver]
      split
      · split <;> exact h
      · exact (memory_startDriver s d d).trans h
    | failDriver d => exact memory_unsubscribeAllMemory_self _ d
    | onStartReturns d ok =>
      cases ok with
      | true => exact (memory_setState _ d d _).trans h
      | false => exact memory_unsubscribeAllMemory_self _ d
    | onStopReturns d ok =>
      cases ok with
      | true => exact memory_unsubscribeAllMemory_self _ d
      | false => exact h
    | onStopToRestartReturns d ok =>
      cases ok with
      | true => exact memory_unsubscribeAllMemory_self _ d
      | false => exact h
    | terminateToRestartReturns d => exact (memory_apiStartDriver _ d d).trans h
    | subscribeMemory d start size => exact absurd rfl (hop start size)
    | unsubscribeMemory d start size =>
      simp only [Op.driver] at h ⊢
      simp only [step, memory_setMemory_self, h]
      rfl
    | unsubscribeAllMemory d => exact memory_unsubscribeAllMemory_self s d
  · exact ((beside_step T layout s op).memory he).trans h

/-- And one whose subscriptions are given up has none. -/
theorem memory_givenUp (hgiven : Machine.givenUp op = some e) :
    (step T layout s op).memory e = [] := by
  unfold Machine.givenUp at hgiven
  split at hgiven
  all_goals cases hgiven
  all_goals exact memory_unsubscribeAllMemory_self _ e

end Drivers

namespace Machine

variable {n : ℕ} {T : Target} {layout : Drivers.Layout} {m m' m'' : Machine n} {d c e : Fin n}
variable {irq vector : Fin 256} {op : Op n}

/-! ## What it is for -/

/-- A driver subscribes while it is active or its `_on_start` runs. -/
def Entitled (m : Machine n) : Op n → Prop
  | .lifecycle (.subscribeMemory d _ _) | .subscribeInterrupt d _ | .subscribeIrq d _
  | .subscribeAvailableIrq d _ | .subscribePci d _ | .subscribeIoPort d _ =>
    Drivers.Busy m.system d
  | _ => True

instance (m : Machine n) : ∀ op, Decidable (m.Entitled op)
  | .lifecycle (.subscribeMemory d _ _) | .subscribeInterrupt d _ | .subscribeIrq d _
  | .subscribeAvailableIrq d _ | .subscribePci d _ | .subscribeIoPort d _ =>
    inferInstanceAs (Decidable (Drivers.Busy m.system d))
  | .lifecycle (.startDriver _) | .lifecycle (.stopDriver _ _) | .lifecycle (.restartDriver _ _)
  | .lifecycle (.failDriver _) | .lifecycle (.onStartReturns _ _)
  | .lifecycle (.onStopReturns _ _) | .lifecycle (.onStopToRestartReturns _ _)
  | .lifecycle (.terminateToRestartReturns _) | .lifecycle (.unsubscribeMemory _ _ _)
  | .lifecycle (.unsubscribeAllMemory _) | .unsubscribeInterrupt _ _
  | .unsubscribeAllInterrupts _ | .unsubscribeIrq _ _ | .unsubscribeAllIrqs _
  | .unsubscribePci _ _ | .unsubscribeAllPci _ | .unsubscribeIoPort _ _
  | .unsubscribeAllIoPort _ | .configure _ _ _ => inferInstanceAs (Decidable True)

/-- **The driver is subscribed to nothing**, save the interrupts of an
interrupt controller. -/
structure Unsubscribed (m : Machine n) (d : Fin n) : Prop where
  memory : m.system.memory d = []
  irqs : ∀ irq, (m.irqs irq).subscribed d = false
  interrupts : d ∉ m.controllers → ∀ vector, (m.interrupts vector).subscribed d = false
  pciDevices : m.subscribedPciDevices d = []
  ioPorts : m.subscribedIoPorts d = []

/-- A controller gives up the interrupt it had for an irq, whose last
subscriber the driver was. -/
def GaveUp (m m' : Machine n) (d c : Fin n) (vector : Fin 256) : Prop :=
  c ∈ m.controllers ∧ (m'.interrupts vector).subscribed c = false ∧
    ∃ irq, m.covers c irq = true ∧ m.interruptOf irq = vector ∧
      (m.irqs irq).subscribed d = true ∧ (m'.irqs irq).list = []

/-! ## Giving up irqs -/

/-- **What a driver's giving up irqs does**, to any driver's interrupts. -/
structure Released (d : Fin n) (m m' : Machine n) : Prop where
  system : m'.system = m.system
  controllers : m'.controllers = m.controllers
  irqRange : m'.irqRange = m.irqRange
  irqOffset : m'.irqOffset = m.irqOffset
  subscribed : ∀ irq, (m'.irqs irq).subscribed d = true → (m.irqs irq).subscribed d = true
  list : ∀ irq, (m.irqs irq).list = [] → (m'.irqs irq).list = []
  interrupts : ∀ e vector,
    (m'.interrupts vector).subscribed e = (m.interrupts vector).subscribed e ∨
      GaveUp m m' d e vector

namespace Released

theorem refl (m : Machine n) : Released d m m where
  system := rfl
  controllers := rfl
  irqRange := rfl
  irqOffset := rfl
  subscribed := fun _ h => h
  list := fun _ h => h
  interrupts := fun _ _ => Or.inl rfl

theorem covers (h : Released d m m') (c : Fin n) (irq : Fin 256) :
    m'.covers c irq = m.covers c irq := by
  rw [Machine.covers, Machine.covers, h.irqRange]

theorem interruptOf (h : Released d m m') (irq : Fin 256) :
    m'.interruptOf irq = m.interruptOf irq := by
  rw [Machine.interruptOf, Machine.interruptOf, h.irqOffset]

theorem trans (h : Released d m m') (h' : Released d m' m'') : Released d m m'' where
  system := h'.system.trans h.system
  controllers := h'.controllers.trans h.controllers
  irqRange := h'.irqRange.trans h.irqRange
  irqOffset := h'.irqOffset.trans h.irqOffset
  subscribed := fun irq hirq => h.subscribed irq (h'.subscribed irq hirq)
  list := fun irq hirq => h'.list irq (h.list irq hirq)
  interrupts := by
    intro e vector
    rcases h'.interrupts e vector with hsame' | ⟨hc, hfree, irq, hcovers, hof, hirq, hlist⟩
    · rcases h.interrupts e vector with hsame | ⟨hc, hfree, irq, hcovers, hof, hirq, hlist⟩
      · exact Or.inl (hsame'.trans hsame)
      · exact Or.inr ⟨hc, hsame'.trans hfree, irq, hcovers, hof, hirq, h'.list irq hlist⟩
    · rw [h.controllers] at hc
      rw [h.covers] at hcovers
      rw [h.interruptOf] at hof
      exact Or.inr ⟨hc, hfree, irq, hcovers, hof, h.subscribed irq hirq, hlist⟩

/-- A line of an irq that has no more than it had. -/
theorem setIrq (m : Machine n) (irq : Fin 256) (line : Line n)
    (hsubscribed : line.subscribed d = true → (m.irqs irq).subscribed d = true)
    (hlist : (m.irqs irq).list = [] → line.list = []) : Released d m (m.setIrq irq line) := by
  refine { refl (d := d) m with
    subscribed := fun v hv => ?_, list := fun v hv => ?_, interrupts := fun _ _ => Or.inl rfl }
  · by_cases heq : v = irq
    · subst heq
      rw [irqs_setIrq_self] at hv
      exact hsubscribed hv
    · rw [irqs_setIrq_of_ne heq] at hv
      exact hv
  · by_cases heq : v = irq
    · subst heq
      rw [irqs_setIrq_self]
      exact hlist hv
    · rw [irqs_setIrq_of_ne heq]
      exact hv

/-- **A controller that disables an irq nobody is subscribed to any more.** -/
theorem disableIrq (m : Machine n) (hc : c ∈ m.controllers) (hcovers : m.covers c irq = true)
    (hirq : (m.irqs irq).subscribed d = true) (hlist : (m.irqs irq).list = []) :
    Released d m (m.disableIrq c irq) := by
  rw [Machine.disableIrq]
  split
  · have hframe := unsubscribeInterrupt_eq m c (m.interruptOf irq)
    suffices h : Released d m (m.unsubscribeInterrupt c (m.interruptOf irq)) from
      h.trans { refl (d := d) _ with interrupts := fun _ _ => Or.inl rfl }
    rw [hframe]
    refine { refl (d := d) m with interrupts := fun e vector => ?_ }
    have hbits : ((m.unsubscribeInterrupt c (m.interruptOf irq)).interrupts vector).subscribed =
        (if vector = m.interruptOf irq then Line.left c (m.interrupts (m.interruptOf irq)).view
          else (m.interrupts vector).view).2 :=
      congrArg Prod.snd (view_unsubscribeInterrupt m c (m.interruptOf irq) vector)
    by_cases hv : vector = m.interruptOf irq
    · rw [if_pos hv] at hbits
      by_cases he : e = c
      · subst he
        refine Or.inr ⟨hc, ?_, irq, hcovers, hv.symm, hirq, hlist⟩
        rw [hbits, Line.subscribed_left_self]
      · left
        rw [hbits, Line.subscribed_left_of_ne he, hv]
        rfl
    · left
      rw [hbits, if_neg hv]
      rfl
  · exact refl m

theorem unsubscribeIrq (m : Machine n) (d : Fin n) (irq : Fin 256) :
    Released d m (m.unsubscribeIrq d irq) := by
  rw [Machine.unsubscribeIrq]
  split
  · exact refl m
  · rename_i hsubscribed
    rw [Bool.not_eq_false] at hsubscribed
    suffices hcall : Released d m (m.irqUnsubscribe d irq) from
      hcall.trans (setIrq _ irq _ (fun h => by simp [Line.mark] at h) fun h => h)
    rw [irqUnsubscribe]
    split
    · exact refl m
    · have hremoved : Released d m (m.setIrq irq ((m.irqs irq).remove d)) := by
        refine setIrq m irq _ (fun h => h) fun hnil => ?_
        rw [Line.list_remove, hnil]
        rfl
      simp only
      split
      · -- the controllers find the irq as the removal left it
        refine hremoved.trans (trans (setIrq _ irq
          { (m.setIrq irq ((m.irqs irq).remove d)).irqs irq with subscribers := none }
          (fun h => h) fun _ => rfl) ?_)
        refine (run_related (r := fun m m' => Released d m m' ∧ m'.irqs = m.irqs)
          (fun m => ⟨refl m, rfl⟩) (fun _ _ _ h h' => ⟨h.1.trans h'.1, h'.2.trans h.2⟩) _
          m.controllers fun m' c hc hm' => ?_).1
        split
        · rename_i hcovers
          refine ⟨disableIrq m' (hm'.1.controllers ▸ hc) hcovers ?_ ?_, irqs_disableIrq⟩
          · rw [hm'.2]
            simp only [irqs_setIrq_self, Line.remove, hsubscribed]
          · rw [hm'.2]
            simp only [irqs_setIrq_self]
            rfl
        · exact ⟨refl m', rfl⟩
      · exact hremoved

theorem unsubscribeAllIrqs (m : Machine n) (d : Fin n) :
    Released d m (m.unsubscribeAllIrqs d) := by
  refine run_related refl (fun _ _ _ => trans) m (List.finRange 256) fun m' irq _ _ => ?_
  split
  · exact unsubscribeIrq m' d irq
  · exact refl m'

end Released

/-! ## Giving up everything -/

/-- Nothing but the interrupts changes. -/
theorem unsubscribeAllInterrupts_eq (m : Machine n) (d : Fin n) :
    m.unsubscribeAllInterrupts d =
      { m with interrupts := (m.unsubscribeAllInterrupts d).interrupts } := by
  refine run_related (r := fun m m' => m' = { m with interrupts := m'.interrupts })
    (fun _ => rfl) (fun _ _ _ h h' => ?_) m (List.finRange 256) fun m' vector _ _ => ?_
  · rw [h', h]
  · split
    · exact unsubscribeInterrupt_eq m' d vector
    · rfl

theorem subscribed_unsubscribeAllInterrupts (m : Machine n) (d : Fin n) (vector : Fin 256) :
    ((m.unsubscribeAllInterrupts d).interrupts vector).subscribed =
      (Line.left d (m.interrupts vector).view).2 := by
  rw [Line.subscribed_eq, view_unsubscribeAllInterrupts]

@[simp] theorem interrupts_unsubscribeAllPci (m : Machine n) (d : Fin n) :
    (m.unsubscribeAllPci d).interrupts = m.interrupts := rfl

@[simp] theorem interrupts_unsubscribeAllIoPort (m : Machine n) (d : Fin n) :
    (m.unsubscribeAllIoPort d).interrupts = m.interrupts := rfl

/-- What comes after the irqs. -/
theorem unsubscribeAllIoPort_unsubscribeAllPci (m : Machine n) (d : Fin n) :
    (m.unsubscribeAllPci d).unsubscribeAllIoPort d =
      { m with
        subscribedPciDevices := Function.update m.subscribedPciDevices d []
        subscribedIoPorts := Function.update m.subscribedIoPorts d [] } := rfl

/-- **What giving up all subscriptions does to the interrupts** of any
driver. -/
theorem interrupts_unsubscribeRest (m : Machine n) (d e : Fin n) (vector : Fin 256) :
    ((m.unsubscribeRest d).interrupts vector).subscribed e =
        (Line.left d (m.interrupts vector).view).2 e ∨
      GaveUp m (m.unsubscribeRest d) d e vector := by
  have hreleased := Released.unsubscribeAllIrqs (m.unsubscribeAllInterrupts d) d
  rcases hreleased.interrupts e vector with hsame | hgave
  · left
    rw [subscribed_unsubscribeAllInterrupts] at hsame
    rw [unsubscribeRest, interrupts_unsubscribeAllIoPort, interrupts_unsubscribeAllPci, hsame]
  · right
    obtain ⟨hc, hfree, irq, hcovers, hof, hirq, hlist⟩ := hgave
    refine ⟨?_, ?_, irq, ?_, ?_, ?_, ?_⟩
    · rw [unsubscribeAllInterrupts_eq] at hc
      exact hc
    · rw [unsubscribeRest, interrupts_unsubscribeAllIoPort, interrupts_unsubscribeAllPci, hfree]
    · rw [covers, unsubscribeAllInterrupts_eq] at hcovers
      rw [covers]
      exact hcovers
    · rw [interruptOf, unsubscribeAllInterrupts_eq] at hof
      rw [interruptOf]
      exact hof
    · rw [irqs_unsubscribeAllInterrupts] at hirq
      exact hirq
    · rw [unsubscribeRest, irqs_unsubscribeAllIoPort, irqs_unsubscribeAllPci, hlist]

/-- **A driver that gives up all its subscriptions has none**, be it a
controller or not. -/
theorem unsubscribed_unsubscribeRest (h : m.system.memory d = []) :
    (m.unsubscribeRest d).Unsubscribed d ∧
      ∀ vector, ((m.unsubscribeRest d).interrupts vector).subscribed d = false := by
  have hreleased := Released.unsubscribeAllIrqs (m.unsubscribeAllInterrupts d) d
  have hinterrupts : ∀ vector,
      ((m.unsubscribeRest d).interrupts vector).subscribed d = false := by
    intro vector
    rcases interrupts_unsubscribeRest m d d vector with hleft | hgave
    · rw [hleft, Line.subscribed_left_self]
    · exact hgave.2.1
  refine ⟨⟨?_, fun irq => ?_, fun _ => hinterrupts, ?_, ?_⟩, hinterrupts⟩
  · rw [unsubscribeRest, unsubscribeAllIoPort_unsubscribeAllPci]
    simp only [hreleased.system]
    rw [unsubscribeAllInterrupts_eq]
    exact h
  · rw [Line.subscribed_eq, view_unsubscribeRest, Line.subscribed_left_self]
  · rw [unsubscribeRest, unsubscribeAllIoPort_unsubscribeAllPci]
    exact Function.update_self ..
  · rw [unsubscribeRest, unsubscribeAllIoPort_unsubscribeAllPci]
    exact Function.update_self ..

/-! ## Runs -/

/-- **A driver that is not busy is subscribed to nothing.** -/
def Clean (m : Machine n) : Prop := ∀ d, Drivers.Busy m.system d ∨ m.Unsubscribed d

/-- **What another driver is subscribed to after a step of a driver's
lifecycle.** -/
structure Spared (m m' : Machine n) (d e : Fin n) : Prop where
  memory : m'.system.memory e = m.system.memory e
  irqs : ∀ irq, (m'.irqs irq).subscribed e = (m.irqs irq).subscribed e
  interrupts : ∀ vector,
    (m'.interrupts vector).subscribed e = (m.interrupts vector).subscribed e ∨
      GaveUp m m' d e vector
  pciDevices : m'.subscribedPciDevices e = m.subscribedPciDevices e
  ioPorts : m'.subscribedIoPorts e = m.subscribedIoPorts e

/-- **A step of a driver's lifecycle spares the others**, and where it
gives up subscriptions leaves the driver none. -/
def TearsDown (T : Target) (layout : Drivers.Layout) (m : Machine n) : Op n → Prop
  | .lifecycle op =>
    (∀ d ∈ givenUp op, (m.lifecycle T layout op).Unsubscribed d ∧
      ∀ vector, ((m.lifecycle T layout op).interrupts vector).subscribed d = false) ∧
    ∀ e, e ≠ op.driver → m.Spared (m.lifecycle T layout op) op.driver e
  | _ => True

theorem tearsDown (T : Target) (layout : Drivers.Layout) (m : Machine n) (op : Op n) :
    m.TearsDown T layout op := by
  cases op with
  | lifecycle op =>
    have hsystem := Drivers.beside_step T layout m.system op
    have hbeside := beside_lifecycle T layout m op
    refine ⟨fun d hgiven => ?_, fun e he => ⟨?_, hbeside.irqs e he, ?_, hbeside.pciDevices e he,
      hbeside.ioPorts e he⟩⟩
    · rw [Option.mem_def] at hgiven
      rw [lifecycle_of_some hgiven]
      exact unsubscribed_unsubscribeRest (Drivers.memory_givenUp hgiven)
    · rw [hbeside.system]
      exact hsystem.memory he
    · rcases hgiven : givenUp op with - | d
      · rw [lifecycle_of_none hgiven]
        exact fun _ => Or.inl rfl
      · rw [lifecycle_of_some hgiven, driver_of_givenUp hgiven]
        rw [driver_of_givenUp hgiven] at he
        intro vector
        rcases interrupts_unsubscribeRest
          { m with system := Drivers.step T layout m.system op } d e vector with hleft | hgave
        · left
          rw [hleft, Line.subscribed_left_of_ne he]
          rfl
        · exact Or.inr hgave
  | _ => exact trivial

/-- Another driver's step. -/
theorem Unsubscribed.beside (h : m.Unsubscribed e) (hbeside : Beside d m m') (he : e ≠ d) :
    m'.Unsubscribed e where
  memory := hbeside.system ▸ h.memory
  irqs := fun irq => (hbeside.irqs e he irq).trans (h.irqs irq)
  interrupts := by
    intro hnot vector
    rw [hbeside.controllers] at hnot
    exact (hbeside.interrupts e he hnot vector).trans (h.interrupts hnot vector)
  pciDevices := (hbeside.pciDevices e he).trans h.pciDevices
  ioPorts := (hbeside.ioPorts e he).trans h.ioPorts

/-- Unsubscribing from no irq is nothing. -/
theorem unsubscribeAllIrqs_of_free (h : ∀ irq, (m.irqs irq).subscribed d = false) :
    m.unsubscribeAllIrqs d = m := by
  refine run_invariant (I := fun m' => m' = m) along_true rfl fun m' irq hm' _ => ?_
  rw [hm', if_neg (by rw [h irq]; exact Bool.false_ne_true)]

/-- **A driver that is subscribed to nothing, and does not subscribe,
stays so.** -/
theorem Unsubscribed.step (h : m.Unsubscribed op.driver) (hop : ∀ op', op ≠ .lifecycle op')
    (hentitled : m.Entitled op) (hbusy : ¬ Drivers.Busy m.system op.driver) :
    (Machine.step T layout m op).Unsubscribed op.driver := by
  cases op with
  | lifecycle op => exact absurd rfl (hop op)
  | subscribeInterrupt d vector => exact absurd hentitled hbusy
  | subscribeIrq d irq => exact absurd hentitled hbusy
  | subscribeAvailableIrq d bitmask => exact absurd hentitled hbusy
  | subscribePci d device => exact absurd hentitled hbusy
  | subscribeIoPort d ioPort => exact absurd hentitled hbusy
  | unsubscribeInterrupt d vector =>
    simp only [Op.driver, Machine.step] at h ⊢
    rw [unsubscribeInterrupt_eq]
    refine ⟨h.memory, h.irqs, fun hnot v => ?_, h.pciDevices, h.ioPorts⟩
    rw [unsubscribeInterrupt, if_pos (h.interrupts hnot vector)]
    exact h.interrupts hnot v
  | unsubscribeAllInterrupts d =>
    simp only [Op.driver, Machine.step] at h ⊢
    rw [unsubscribeAllInterrupts_eq]
    refine ⟨h.memory, h.irqs, fun _ v => ?_, h.pciDevices, h.ioPorts⟩
    rw [subscribed_unsubscribeAllInterrupts, Line.subscribed_left_self]
  | unsubscribeIrq d irq =>
    simp only [Op.driver, Machine.step] at h ⊢
    rw [unsubscribeIrq, if_pos (h.irqs irq)]
    exact h
  | unsubscribeAllIrqs d =>
    simp only [Op.driver, Machine.step] at h ⊢
    rw [unsubscribeAllIrqs_of_free h.irqs]
    exact h
  | unsubscribePci d device =>
    simp only [Op.driver, Machine.step] at h ⊢
    refine ⟨h.memory, h.irqs, h.interrupts, ?_, h.ioPorts⟩
    rw [unsubscribePci, h.pciDevices]
    exact Function.update_self ..
  | unsubscribeAllPci d =>
    exact ⟨h.memory, h.irqs, h.interrupts, Function.update_self .., h.ioPorts⟩
  | unsubscribeIoPort d ioPort =>
    simp only [Op.driver, Machine.step] at h ⊢
    refine ⟨h.memory, h.irqs, h.interrupts, h.pciDevices, ?_⟩
    rw [unsubscribeIoPort, h.ioPorts]
    exact Function.update_self ..
  | unsubscribeAllIoPort d =>
    exact ⟨h.memory, h.irqs, h.interrupts, h.pciDevices, Function.update_self ..⟩
  | configure c range offset => exact ⟨h.memory, h.irqs, h.interrupts, h.pciDevices, h.ioPorts⟩

/-- **A driver that is not busy comes by nothing** in a step of a
lifecycle, -/
theorem clean_lifecycle {op : Drivers.Op n} (h : m.Clean) (hentitled : m.Entitled (.lifecycle op)) :
    (m.lifecycle T layout op).Clean := by
  intro e
  have hsystem := Drivers.beside_step T layout m.system op
  have hbeside := beside_lifecycle T layout m op
  have hbusy : Drivers.Busy (m.lifecycle T layout op).system e ↔
      Drivers.Busy (Drivers.step T layout m.system op) e := by rw [hbeside.system]
  rw [hbusy]
  rcases hgiven : givenUp op with - | d
  · by_cases hbefore : Drivers.Busy m.system e
    · exact Or.inl (Drivers.busy_step hgiven hbefore)
    · right
      have hclean := (h e).resolve_left hbefore
      rw [lifecycle_of_none hgiven]
      refine { hclean with memory := Drivers.memory_step_nil ?_ hclean.memory }
      -- it is not the driver that subscribes
      rintro start size rfl
      exact hbefore hentitled
  · by_cases he : e = d
    · subst he
      right
      rw [lifecycle_of_some hgiven]
      exact (unsubscribed_unsubscribeRest (Drivers.memory_givenUp hgiven)).1
    · rw [← driver_of_givenUp hgiven] at he
      refine (h e).imp (hsystem.busy_iff he).2 fun hclean => ?_
      have hmemory : Unsubscribed { m with system := Drivers.step T layout m.system op } e :=
        { hclean with memory := (hsystem.memory he).trans hclean.memory }
      exact hmemory.beside hbeside he

/-- **and in any other.** -/
theorem clean_step (h : m.Clean) (hentitled : m.Entitled op) :
    (Machine.step T layout m op).Clean := by
  by_cases hop : ∀ op', op ≠ .lifecycle op'
  · intro e
    have hbeside := beside_step T layout m hop
    rw [hbeside.system]
    by_cases hbusy : Drivers.Busy m.system e
    · exact Or.inl hbusy
    · right
      have hclean := (h e).resolve_left hbusy
      by_cases he : e = op.driver
      · subst he
        exact hclean.step hop hentitled hbusy
      · exact hclean.beside hbeside he
  · push Not at hop
    obtain ⟨op', rfl⟩ := hop
    exact clean_lifecycle h hentitled

theorem clean_new (controllers : List (Fin n)) : (new controllers).Clean :=
  fun _ => Or.inr ⟨rfl, fun _ => rfl, fun _ _ => rfl, rfl, rfl⟩

/-! ## The arrays -/

/-- **A driver that is not busy is in no array**, save a controller in
those of interrupts. -/
def Unlisted (m : Machine n) : Prop :=
  ∀ d, Drivers.Busy m.system d ∨
    (∀ irq, d ∉ (m.irqs irq).list) ∧
      (d ∉ m.controllers → ∀ vector, d ∉ (m.interrupts vector).list)

/-- **A step of a driver's lifecycle leaves the others' entries**, and
where it gives up subscriptions none of the driver's. -/
def SparesEntries (T : Target) (layout : Drivers.Layout) (m : Machine n) : Op n → Prop
  | .lifecycle op =>
    (∀ d ∈ givenUp op, (∀ irq, d ∉ ((m.lifecycle T layout op).irqs irq).list) ∧
      ∀ vector, d ∉ ((m.lifecycle T layout op).interrupts vector).list) ∧
    ∀ e, e ≠ op.driver →
      (∀ irq, ((m.lifecycle T layout op).irqs irq).list.count e = (m.irqs irq).list.count e) ∧
      ∀ vector, ((m.lifecycle T layout op).interrupts vector).list.count e =
          (m.interrupts vector).list.count e ∨
        GaveUp m (m.lifecycle T layout op) op.driver e vector
  | _ => True

/-- Masks and arrays agree, of irqs and of interrupts. -/
def Agree (m : Machine n) : Prop := m.Consistent ∧ m.ConsistentInterrupts

theorem agree_new (controllers : List (Fin n)) : (new controllers).Agree :=
  ⟨consistent_new controllers, fun _ => Line.consistent_new n⟩

theorem Agree.step (h : m.Agree) (hsound : m.Sound op) (hinterrupts : m.SoundInterrupts T layout op) :
    (Machine.step T layout m op).Agree :=
  ⟨(consistent_step_iff h.1).2 hsound, h.2.step hinterrupts⟩

/-- **What the masks do not have the arrays do not.** -/
theorem Clean.unlisted (h : m.Clean) (hagree : m.Agree) : m.Unlisted := by
  intro d
  refine (h d).imp_right fun hclean => ⟨fun irq => ?_, fun hnot vector => ?_⟩
  · exact (hagree.1 irq).not_mem (hclean.irqs irq)
  · exact (hagree.2 vector).not_mem (hclean.interrupts hnot vector)

theorem sparesEntries (hagree : m.Agree) (hagree' : (Machine.step T layout m op).Agree) :
    m.SparesEntries T layout op := by
  cases op with
  | lifecycle op =>
    obtain ⟨hgiven, hspared⟩ := tearsDown T layout m (.lifecycle op)
    refine ⟨fun d hd => ⟨fun irq => ?_, fun vector => ?_⟩, fun e he => ⟨fun irq => ?_, fun vector => ?_⟩⟩
    · exact (hagree'.1 irq).not_mem ((hgiven d hd).1.irqs irq)
    · exact (hagree'.2 vector).not_mem ((hgiven d hd).2 vector)
    · have hcount := hagree'.1 irq e
      rw [Machine.step, (hspared e he).irqs] at hcount
      rw [hcount, hagree.1 irq e]
    · refine ((hspared e he).interrupts vector).imp_left fun hsame => ?_
      have hcount := hagree'.2 vector e
      rw [Machine.step, hsame] at hcount
      rw [hcount, hagree.2 vector e]
  | _ => exact trivial

/-- **Teardown leaves nothing behind.** However drivers are started,
stopped, restarted and failed, one that is not active nor being started
is subscribed to nothing, save the interrupts of a controller, and no
step of its lifecycle changes what another is subscribed to, save that
controllers give up the interrupts of irqs it was the last to be
subscribed to. The arrays are as the masks are while no entry that is
removed is the first of several and no irq that is picked is the
driver's already. -/
theorem torn_down_run (T : Target) (layout : Drivers.Layout) (controllers : List (Fin n))
    (ops : List (Op n)) (hentitled : Along (step T layout) Entitled (new controllers) ops) :
    Throughout (step T layout) Clean (new controllers) ops ∧
      Along (step T layout) (TearsDown T layout) (new controllers) ops ∧
      (Along (step T layout) Sound (new controllers) ops →
        Along (step T layout) (SoundInterrupts T layout) (new controllers) ops →
        Throughout (step T layout) Unlisted (new controllers) ops ∧
          Along (step T layout) (SparesEntries T layout) (new controllers) ops) := by
  refine ⟨?_, ?_, fun hsound hinterrupts => ⟨?_, ?_⟩⟩
  · exact throughout_of_invariant hentitled (clean_new controllers) (fun _ _ => clean_step)
      fun _ h => h
  · exact along_true.imp fun m op _ => tearsDown T layout m op
  · refine throughout_of_invariant (I := fun m => m.Clean ∧ m.Agree)
      (hentitled.and (hsound.and hinterrupts)) ⟨clean_new controllers, agree_new controllers⟩
      (fun m op h hop => ?_) fun _ h => h.1.unlisted h.2
    exact ⟨clean_step h.1 hop.1, h.2.step hop.2.1 hop.2.2⟩
  · refine along_of_invariant (hsound.and hinterrupts) (agree_new controllers)
      (fun _ _ h hop => h.step hop.1 hop.2) fun _ _ h hop => ?_
    exact sparesEntries h (h.step hop.1 hop.2)

/-- A controller and a driver that is subscribed to irq 1: the driver is
started and stopped. -/
theorem torn_down_run_stopped :
    Throughout (step .x86_32 ⟨0, 0⟩) Clean (new (n := 2) [0])
        [.lifecycle (.startDriver 0), .configure 0 (0, 15) (32, 40),
          .lifecycle (.onStartReturns 0 true), .lifecycle (.startDriver 1), .subscribeIrq 1 1,
          .lifecycle (.onStartReturns 1 true), .lifecycle (.stopDriver 1 true),
          .lifecycle (.onStopReturns 1 true)] ∧
      Throughout (step .x86_32 ⟨0, 0⟩) Unlisted (new (n := 2) [0])
        [.lifecycle (.startDriver 0), .configure 0 (0, 15) (32, 40),
          .lifecycle (.onStartReturns 0 true), .lifecycle (.startDriver 1), .subscribeIrq 1 1,
          .lifecycle (.onStartReturns 1 true), .lifecycle (.stopDriver 1 true),
          .lifecycle (.onStopReturns 1 true)] := by
  obtain ⟨hclean, -, harrays⟩ := torn_down_run .x86_32 ⟨0, 0⟩ [(0 : Fin 2)]
    [.lifecycle (.startDriver 0), .configure 0 (0, 15) (32, 40),
      .lifecycle (.onStartReturns 0 true), .lifecycle (.startDriver 1), .subscribeIrq 1 1,
      .lifecycle (.onStartReturns 1 true), .lifecycle (.stopDriver 1 true),
      .lifecycle (.onStopReturns 1 true)] (by decide +kernel)
  exact ⟨hclean, (harrays (by decide +kernel) (by decide +kernel)).1⟩

/-- The interrupts of the other drivers are what they were. -/
def Untouched (T : Target) (layout : Drivers.Layout) (m : Machine n) : Op n → Prop
  | .lifecycle op => ∀ e, e ≠ op.driver → ∀ vector,
    ((m.lifecycle T layout op).interrupts vector).subscribed e =
      (m.interrupts vector).subscribed e
  | _ => True

instance (m : Machine n) : ∀ op, Decidable (m.Untouched T layout op)
  | .lifecycle op => inferInstanceAs (Decidable (∀ e, e ≠ op.driver → ∀ vector,
    ((m.lifecycle T layout op).interrupts vector).subscribed e =
      (m.interrupts vector).subscribed e))
  | .subscribeInterrupt _ _ | .unsubscribeInterrupt _ _ | .unsubscribeAllInterrupts _
  | .subscribeIrq _ _ | .subscribeAvailableIrq _ _ | .unsubscribeIrq _ _ | .unsubscribeAllIrqs _
  | .subscribePci _ _ | .unsubscribePci _ _ | .unsubscribeAllPci _ | .subscribeIoPort _ _
  | .unsubscribeIoPort _ _ | .unsubscribeAllIoPort _ | .configure _ _ _ =>
    inferInstanceAs (Decidable True)

/-- When the driver is stopped, the controller gives up interrupt 33,
though no entry is removed but the only one. And a controller that was
stopped is subscribed to it once a driver subscribes to the irq. -/
theorem not_untouched_run :
    (Along (step .x86_32 ⟨0, 0⟩) Entitled (new (n := 2) [0])
        [.lifecycle (.startDriver 0), .configure 0 (0, 15) (32, 40),
          .lifecycle (.onStartReturns 0 true), .lifecycle (.startDriver 1), .subscribeIrq 1 1,
          .lifecycle (.onStartReturns 1 true), .lifecycle (.stopDriver 1 true),
          .lifecycle (.onStopReturns 1 true)] ∧
      ¬ Along (step .x86_32 ⟨0, 0⟩) (Untouched .x86_32 ⟨0, 0⟩) (new (n := 2) [0])
        [.lifecycle (.startDriver 0), .configure 0 (0, 15) (32, 40),
          .lifecycle (.onStartReturns 0 true), .lifecycle (.startDriver 1), .subscribeIrq 1 1,
          .lifecycle (.onStartReturns 1 true), .lifecycle (.stopDriver 1 true),
          .lifecycle (.onStopReturns 1 true)]) ∧
    (Along (step .x86_32 ⟨0, 0⟩) Entitled (new (n := 2) [0])
        [.lifecycle (.startDriver 0), .configure 0 (0, 15) (32, 40),
          .lifecycle (.onStartReturns 0 true), .lifecycle (.stopDriver 0 true),
          .lifecycle (.onStopReturns 0 true), .lifecycle (.startDriver 1), .subscribeIrq 1 1] ∧
      ¬ Throughout (step .x86_32 ⟨0, 0⟩)
        (fun m => ∀ d, Drivers.Busy m.system d ∨
          ∀ vector, (m.interrupts vector).subscribed d = false) (new (n := 2) [0])
        [.lifecycle (.startDriver 0), .configure 0 (0, 15) (32, 40),
          .lifecycle (.onStartReturns 0 true), .lifecycle (.stopDriver 0 true),
          .lifecycle (.onStopReturns 0 true), .lifecycle (.startDriver 1),
          .subscribeIrq 1 1]) := by
  refine ⟨⟨by decide +kernel, by decide +kernel⟩, by decide +kernel, fun h => ?_⟩
  exact absurd (h.last 0) (by decide +kernel)

end Machine

end Uberos
