import Uberos.Subscriptions.Irqs
/-!
# A driver's interrupts and the interrupts' drivers

As of irqs, a bit and an entry are written together. Nothing is picked
here, so only the removals may part them: a driver's own, and those of
the controllers, which leave the interrupt of an irq when its last
subscriber does.
-/

namespace Uberos

namespace Machine

open Library

variable {n : ℕ} {T : Target} {layout : Drivers.Layout} {m : Machine n} {d c : Fin n}
variable {irq vector : Fin 256} {bitmask : Fin 256 → Bool} {op : Op n}

/-! ## The removals -/

/-- **Each interrupt's array and the drivers' masks agree.** -/
def ConsistentInterrupts (m : Machine n) : Prop := ∀ vector, (m.interrupts vector).Consistent

/-- The driver is not at the front of others in the array of an interrupt
it is subscribed to. -/
def LeavesInterrupt (m : Machine n) (d : Fin n) (vector : Fin 256) : Prop :=
  (m.interrupts vector).subscribed d = true → ¬ PodArray.AtFront (m.interrupts vector).list d

instance (m : Machine n) (d : Fin n) (vector : Fin 256) : Decidable (m.LeavesInterrupt d vector) :=
  inferInstanceAs (Decidable (_ → _))

/-- So it is of the controllers that disable an irq, one after another. -/
def SoundDisable (m : Machine n) (irq : Fin 256) : Prop :=
  Along (fun m c => if m.covers c irq then m.disableIrq c irq else m)
    (fun m c => m.covers c irq = true → irq.val < 16 → m.LeavesInterrupt c (m.interruptOf irq))
    m m.controllers

instance (m : Machine n) (irq : Fin 256) : Decidable (m.SoundDisable irq) :=
  Along.decidable m m.controllers

/-- They do when the last subscriber unsubscribes. -/
def SoundUnsubscribeIrq (m : Machine n) (d : Fin n) (irq : Fin 256) : Prop :=
  (m.irqs irq).subscribed d = true →
    let m := m.setIrq irq ((m.irqs irq).remove d)
    (m.irqs irq).list = [] →
      (m.setIrq irq { m.irqs irq with subscribers := none }).SoundDisable irq

instance (m : Machine n) (d : Fin n) (irq : Fin 256) : Decidable (m.SoundUnsubscribeIrq d irq) :=
  inferInstanceAs (Decidable (_ → _ → _))

/-- Of all irqs. -/
def SoundUnsubscribeAllIrqs (m : Machine n) (d : Fin n) : Prop :=
  Along (fun m irq => if (m.irqs irq).subscribed d then m.unsubscribeIrq d irq else m)
    (fun m irq => m.SoundUnsubscribeIrq d irq) m (List.finRange 256)

instance (m : Machine n) (d : Fin n) : Decidable (m.SoundUnsubscribeAllIrqs d) :=
  Along.decidable m (List.finRange 256)

/-- **No entry that is removed is the first of several.** -/
def SoundInterrupts (T : Target) (layout : Drivers.Layout) (m : Machine n) : Op n → Prop
  | .lifecycle op => ∀ d ∈ givenUp op, (∀ vector, m.LeavesInterrupt d vector) ∧
    (Machine.unsubscribeAllInterrupts
      { m with system := Drivers.step T layout m.system op } d).SoundUnsubscribeAllIrqs d
  | .unsubscribeInterrupt d vector => m.LeavesInterrupt d vector
  | .unsubscribeAllInterrupts d => ∀ vector, m.LeavesInterrupt d vector
  | .unsubscribeIrq d irq => m.SoundUnsubscribeIrq d irq
  | .unsubscribeAllIrqs d => m.SoundUnsubscribeAllIrqs d
  | _ => True

instance (m : Machine n) : ∀ op, Decidable (m.SoundInterrupts T layout op)
  | .lifecycle op => inferInstanceAs (Decidable (∀ d ∈ givenUp op,
    (∀ vector, m.LeavesInterrupt d vector) ∧ (Machine.unsubscribeAllInterrupts
      { m with system := Drivers.step T layout m.system op } d).SoundUnsubscribeAllIrqs d))
  | .unsubscribeInterrupt d vector => inferInstanceAs (Decidable (m.LeavesInterrupt d vector))
  | .unsubscribeAllInterrupts d =>
    inferInstanceAs (Decidable (∀ vector, m.LeavesInterrupt d vector))
  | .unsubscribeIrq d irq => inferInstanceAs (Decidable (m.SoundUnsubscribeIrq d irq))
  | .unsubscribeAllIrqs d => inferInstanceAs (Decidable (m.SoundUnsubscribeAllIrqs d))
  | .subscribeInterrupt _ _ | .subscribeIrq _ _ | .subscribeAvailableIrq _ _ | .subscribePci _ _
  | .unsubscribePci _ _ | .unsubscribeAllPci _ | .subscribeIoPort _ _ | .unsubscribeIoPort _ _
  | .unsubscribeAllIoPort _ | .configure _ _ _ => inferInstanceAs (Decidable True)

/-! ## Their effects -/

/-- The line of an interrupt, and those of the others. -/
theorem view_setInterrupt (line : Line n) (v : Fin 256) :
    ((m.setInterrupt vector line).interrupts v).view =
      if v = vector then line.view else (m.interrupts v).view := by
  by_cases hv : v = vector
  · subst hv
    simp [setInterrupt]
  · simp [setInterrupt, hv]

/-- Nothing but the interrupts changes. -/
theorem unsubscribeInterrupt_eq (m : Machine n) (d : Fin n) (vector : Fin 256) :
    m.unsubscribeInterrupt d vector =
      { m with interrupts := (m.unsubscribeInterrupt d vector).interrupts } := by
  rw [unsubscribeInterrupt]
  split <;> rfl

theorem view_unsubscribeInterrupt (m : Machine n) (d : Fin n) (vector v : Fin 256) :
    ((m.unsubscribeInterrupt d vector).interrupts v).view =
      if v = vector then Line.left d (m.interrupts vector).view else (m.interrupts v).view := by
  rw [unsubscribeInterrupt]
  split
  · rename_i hfree
    have hview : ¬ (m.interrupts vector).view.2 d = true := fun hcon =>
      Bool.false_ne_true (hfree.symm.trans hcon)
    rw [Line.left, if_neg hview]
    split
    · rename_i hv
      rw [hv]
    · rfl
  · rename_i hsubscribed
    rw [Bool.not_eq_false] at hsubscribed
    rw [view_setInterrupt, Line.view_remove_mark hsubscribed]

/-- **Unsubscribing from all interrupts leaves each.** -/
theorem view_unsubscribeAllInterrupts (v : Fin 256) :
    ((m.unsubscribeAllInterrupts d).interrupts v).view = Line.left d (m.interrupts v).view := by
  have hstep : ∀ (m : Machine n) (vector v : Fin 256),
      ((if (m.interrupts vector).subscribed d then m.unsubscribeInterrupt d vector
          else m).interrupts v).view =
        if v = vector then Line.left d (m.interrupts vector).view else (m.interrupts v).view := by
    intro m vector v
    split
    · exact view_unsubscribeInterrupt m d vector v
    · rename_i hfree
      have hview : ¬ (m.interrupts vector).view.2 d = true := hfree
      rw [Line.left, if_neg hview]
      split
      · rename_i hv
        rw [hv]
      · rfl
  refine (run_component (fun m v => (m.interrupts v).view) (Line.left d)
    (fun m vector => ?_) (fun m vector v hv => ?_) (List.nodup_finRange 256) m v).1
      (List.mem_finRange v)
  · rw [hstep, if_pos rfl]
  · rw [hstep, if_neg hv]

/-! ## Steps -/

namespace ConsistentInterrupts

theorem subscribeInterrupt (h : m.ConsistentInterrupts) :
    (m.subscribeInterrupt d vector).ConsistentInterrupts := by
  rw [Machine.subscribeInterrupt]
  split
  · exact h
  · rename_i hfree
    rw [Bool.not_eq_true] at hfree
    intro v
    by_cases hv : v = vector
    · refine (Line.consistent_joined (h vector) ?_).2 hfree
      rw [view_setInterrupt, if_pos hv, Line.view_push_mark]
    · exact (Line.Consistent.congr (by rw [view_setInterrupt, if_neg hv])).2 (h v)

theorem unsubscribeInterrupt (h : m.ConsistentInterrupts) (hleaves : m.LeavesInterrupt d vector) :
    (m.unsubscribeInterrupt d vector).ConsistentInterrupts := by
  intro v
  by_cases hv : v = vector
  · subst hv
    exact (Line.consistent_left (h v) (by rw [view_unsubscribeInterrupt, if_pos rfl])).2 hleaves
  · exact (Line.Consistent.congr (by rw [view_unsubscribeInterrupt, if_neg hv])).2 (h v)

theorem unsubscribeAllInterrupts (h : m.ConsistentInterrupts)
    (hleaves : ∀ vector, m.LeavesInterrupt d vector) :
    (m.unsubscribeAllInterrupts d).ConsistentInterrupts :=
  fun v => (Line.consistent_left (h v) (view_unsubscribeAllInterrupts v)).2 (hleaves v)

theorem enableIrq (h : m.ConsistentInterrupts) : (m.enableIrq c irq).ConsistentInterrupts := by
  rw [Machine.enableIrq]
  split
  · exact subscribeInterrupt (m := { m with irqEnabled := Bitmask32.set m.irqEnabled irq true }) h
  · exact h

theorem disableIrq (h : m.ConsistentInterrupts)
    (hleaves : irq.val < 16 → m.LeavesInterrupt c (m.interruptOf irq)) :
    (m.disableIrq c irq).ConsistentInterrupts := by
  rw [Machine.disableIrq]
  split
  · rename_i hirq
    exact h.unsubscribeInterrupt (hleaves hirq)
  · exact h

theorem irqSubscribe (h : m.ConsistentInterrupts) (d : Fin n) (irq : Fin 256) :
    (m.irqSubscribe d irq).2.ConsistentInterrupts := by
  rw [Machine.irqSubscribe]
  split
  · exact h
  · simp only
    split
    · exact enableIrq (m := m.setIrq irq { m.irqs irq with subscribers := some [] }) h
    · exact h

theorem subscribeIrq (h : m.ConsistentInterrupts) :
    (m.subscribeIrq d irq).ConsistentInterrupts := by
  have hcall := h.irqSubscribe d irq
  rw [Machine.subscribeIrq]
  split
  · exact h
  · split
    all_goals
      rename_i hres
      rw [hres] at hcall
      exact hcall

theorem subscribeAvailableLoop (h : m.ConsistentInterrupts) (controllers : List (Fin n)) :
    (Machine.subscribeAvailableLoop d bitmask controllers m).ConsistentInterrupts := by
  induction controllers generalizing m with
  | nil => exact h
  | cons c rest ih =>
    rw [Machine.subscribeAvailableLoop]
    split
    · exact ih h
    · rename_i irq _
      have hcall := h.irqSubscribe d irq
      split
      · rename_i hres
        rw [hres] at hcall
        exact hcall
      · rename_i hres
        rw [hres] at hcall
        exact ih hcall

/-- The controllers that give up an interrupt leave it one by one. -/
theorem disableAll (h : m.ConsistentInterrupts) (hsound : m.SoundDisable irq) :
    (m.controllers.foldl (fun m c => if m.covers c irq then m.disableIrq c irq else m)
      m).ConsistentInterrupts := by
  refine run_invariant hsound h fun m c hm hleaves => ?_
  split
  · rename_i hcovers
    exact hm.disableIrq (hleaves hcovers)
  · exact hm

theorem unsubscribeIrq (h : m.ConsistentInterrupts) (hsound : m.SoundUnsubscribeIrq d irq) :
    (m.unsubscribeIrq d irq).ConsistentInterrupts := by
  rw [Machine.unsubscribeIrq]
  split
  · exact h
  · rename_i hsubscribed
    rw [Bool.not_eq_false] at hsubscribed
    have hdisable := hsound hsubscribed
    suffices hcall : (m.irqUnsubscribe d irq).ConsistentInterrupts from hcall
    rw [irqUnsubscribe]
    split
    · exact h
    · simp only at hdisable ⊢
      split
      · rename_i hlength
        exact disableAll h (hdisable (List.length_eq_zero_iff.1 (by omega)))
      · exact h

theorem unsubscribeAllIrqs (h : m.ConsistentInterrupts) (hsound : m.SoundUnsubscribeAllIrqs d) :
    (m.unsubscribeAllIrqs d).ConsistentInterrupts := by
  refine run_invariant hsound h fun m irq hm hirq => ?_
  split
  · exact hm.unsubscribeIrq hirq
  · exact hm

theorem unsubscribeAllPci (h : m.ConsistentInterrupts) :
    (m.unsubscribeAllPci d).ConsistentInterrupts := h

theorem unsubscribeAllIoPort (h : m.ConsistentInterrupts) :
    (m.unsubscribeAllIoPort d).ConsistentInterrupts := h

theorem unsubscribeRest (h : m.ConsistentInterrupts)
    (hleaves : ∀ vector, m.LeavesInterrupt d vector)
    (hirqs : (m.unsubscribeAllInterrupts d).SoundUnsubscribeAllIrqs d) :
    (m.unsubscribeRest d).ConsistentInterrupts := by
  rw [Machine.unsubscribeRest]
  exact ((h.unsubscribeAllInterrupts hleaves).unsubscribeAllIrqs hirqs).unsubscribeAllPci
    |>.unsubscribeAllIoPort

/-- **A sound step keeps masks and arrays in step.** -/
theorem step (h : m.ConsistentInterrupts) (hsound : m.SoundInterrupts T layout op) :
    (Machine.step T layout m op).ConsistentInterrupts := by
  cases op with
  | lifecycle op =>
    rcases hgiven : givenUp op with - | d
    · rw [Machine.step, lifecycle_of_none hgiven]
      exact h
    · obtain ⟨hleaves, hirqs⟩ := hsound d hgiven
      rw [Machine.step, lifecycle_of_some hgiven]
      have hsystem : ConsistentInterrupts
          { m with system := Drivers.step T layout m.system op } := h
      exact hsystem.unsubscribeRest hleaves hirqs
  | subscribeInterrupt d vector => exact h.subscribeInterrupt
  | unsubscribeInterrupt d vector => exact h.unsubscribeInterrupt hsound
  | unsubscribeAllInterrupts d => exact h.unsubscribeAllInterrupts hsound
  | subscribeIrq d irq => exact h.subscribeIrq
  | subscribeAvailableIrq d bitmask => exact h.subscribeAvailableLoop m.controllers
  | unsubscribeIrq d irq => exact h.unsubscribeIrq hsound
  | unsubscribeAllIrqs d => exact h.unsubscribeAllIrqs hsound
  | subscribePci d device =>
    simp only [Machine.step, subscribePci]
    split
    · exact h
    · split <;> exact h
  | subscribeIoPort d ioPort =>
    simp only [Machine.step, subscribeIoPort]
    split
    · exact h
    · split <;> exact h
  | unsubscribePci d device => exact h
  | unsubscribeAllPci d => exact h
  | unsubscribeIoPort d ioPort => exact h
  | unsubscribeAllIoPort d => exact h
  | configure c range offset => exact h

end ConsistentInterrupts

end Machine

end Uberos
