import Uberos.Library.Run
import Uberos.Pic8259.Model
/-!
# The three records of an enabled irq

An irq that is enabled is to be in `irqEnabled`, clear in its chip's mask
and subscribed to. `Bitmask32::set` leaves the first as it was, so that
no irq is ever in it: the three agree until an irq is enabled, and not
once one is. Initialising the chips again keeps their masks.
-/

namespace Uberos

open Library

namespace Pic8259

theorem Chip.writeData_of_mask {chip : Chip} (h : chip.next = .mask) (word : BitVec 8) :
    chip.writeData word = { chip with mask := word } := by
  rw [Chip.writeData, h]

namespace Pic

variable {n : ℕ} {c : Fin n} {p : Pic n} {m : Machine n} {irq vector : Fin 256} {op : Op}

/-! ## What it is for -/

/-- The irq's bit in its chip's mask. -/
def Masked (p : Pic n) (irq : Fin 256) : Prop :=
  if irq.val < 8 then p.chip1.mask.getLsbD irq.val = true
  else p.chip2.mask.getLsbD (irq.val - 8) = true

/-- `irqEnabled` holds the irq. -/
def Enabled (p : Pic n) (irq : Fin 256) : Prop :=
  Bitmask32.get p.machine.irqEnabled irq = true

/-- The driver is subscribed to an interrupt: as it notes itself, and by
its entry in the array. -/
def Noted (c : Fin n) (m : Machine n) (vector : Fin 256) : Prop :=
  (m.interrupts vector).subscribed c = true

def Listed (c : Fin n) (m : Machine n) (vector : Fin 256) : Prop := c ∈ (m.interrupts vector).list

/-- An irq that may be handed out. -/
def Available (p : Pic n) (bitmask : Fin 256 → Bool) (irq : Fin 256) : Prop :=
  irq.val < 16 ∧ bitmask irq = true ∧ irq.val ≠ 1 ∧ irq.val ≠ 12 ∧ Masked p irq

/-- **The records agree**, of every irq, and with what is handed out. -/
structure Agrees (c : Fin n) (p : Pic n) : Prop where
  enabled : ∀ irq : Fin 256, irq.val < 16 → (Enabled p irq ↔ ¬Masked p irq)
  subscribed : ∀ irq : Fin 256, irq.val < 16 →
    (¬Masked p irq ↔ Noted c p.machine (p.machine.interruptOf irq))
  listed : ∀ irq : Fin 256, irq.val < 16 → (Noted c p.machine (p.machine.interruptOf irq) ↔
    Listed c p.machine (p.machine.interruptOf irq))
  available : ∀ bitmask, (∀ irq, p.machine.getAvailableIrq bitmask = some irq →
    Available p bitmask irq) ∧ ((∃ irq, Available p bitmask irq) →
      (p.machine.getAvailableIrq bitmask).isSome)

/-- **The call enables no irq.** -/
def Op.EnablesNone : Op → Prop
  | .enableIrq cpu irq => cpu = 0 → 16 ≤ irq.val
  | .disableIrq _ _ | .disableAllIrqs | .setOffset _ _ => True

/-- The driver as it is before it is started. -/
structure Stopped (c : Fin n) (p : Pic n) : Prop where
  irqEnabled : p.machine.irqEnabled = 0
  noted : ∀ vector, ¬Noted c p.machine vector
  listed : ∀ vector, ¬Listed c p.machine vector

/-! ## The subscriptions -/

/-- The driver is not subscribed. -/
def Free (c : Fin n) (view : List (Fin n) × (Fin n → Bool)) : Prop := view.2 c = false ∧ c ∉ view.1

/-- The driver is subscribed, after all others. -/
def Last (c : Fin n) (view : List (Fin n) × (Fin n → Bool)) : Prop :=
  view.2 c = true ∧ ∃ others, c ∉ others ∧ view.1 = others ++ [c]

/-- Of every interrupt, the one or the other. -/
def Orderly (c : Fin n) (m : Machine n) : Prop :=
  ∀ v, Free c (m.interrupts v).view ∨ Last c (m.interrupts v).view

theorem free_left {view : List (Fin n) × (Fin n → Bool)} (h : Free c view ∨ Last c view) :
    Free c (Line.left c view) := by
  refine ⟨Line.subscribed_left_self view, ?_⟩
  rw [Line.left]
  rcases h with ⟨hbit, hfree⟩ | ⟨hbit, others, hothers, hlist⟩
  · rw [if_neg (Bool.eq_false_iff.1 hbit)]
    exact hfree
  · -- the last of the entries is at the front only where it is the only one
    have hfront : ¬PodArray.AtFront view.1 c := by
      rintro ⟨hlength, hhead⟩
      rw [hlist] at hlength hhead
      rcases others with - | ⟨first, others⟩
      · exact absurd hlength (Nat.lt_irrefl 1)
      · exact hothers (Option.some.inj hhead ▸ List.mem_cons_self)
    rw [if_pos hbit, PodArray.removeValue_eq hfront, hlist, List.erase_append_right _ hothers,
      List.erase_cons_head, List.append_nil]
    exact hothers

theorem orderly_subscribeInterrupt (h : Orderly c m) (vector : Fin 256) :
    Orderly c (m.subscribeInterrupt c vector) := by
  rw [Machine.subscribeInterrupt]
  split
  · exact h
  · rename_i hbit
    intro v
    rw [Machine.view_setInterrupt]
    split
    · have hfree := (h vector).resolve_right fun hlast => hbit hlast.1
      rw [Line.view_push_mark]
      exact Or.inr ⟨Function.update_self .., _, hfree.2, rfl⟩
    · exact h v

theorem free_unsubscribeAllInterrupts (h : Orderly c m) (v : Fin 256) :
    Free c ((m.unsubscribeAllInterrupts c).interrupts v).view := by
  rw [Machine.view_unsubscribeAllInterrupts]
  exact free_left (h v)

theorem orderly_resubscribe (h : Orderly c m) (mask1 mask2 : BitVec 8) (i : ℕ) :
    Orderly c (resubscribe c mask1 mask2 m i) := by
  rw [resubscribe]
  split
  · split
    · exact orderly_subscribeInterrupt (orderly_subscribeInterrupt h _) _
    · exact orderly_subscribeInterrupt h _
  · split
    · exact orderly_subscribeInterrupt h _
    · exact h

/-- `irqEnabled` is not written. -/
theorem irqEnabled_subscribeInterrupt (vector : Fin 256) :
    (m.subscribeInterrupt c vector).irqEnabled = m.irqEnabled := by
  rw [Machine.subscribeInterrupt]
  split <;> rfl

theorem irqEnabled_resubscribe (mask1 mask2 : BitVec 8) (i : ℕ) :
    (resubscribe c mask1 mask2 m i).irqEnabled = m.irqEnabled := by
  rw [resubscribe]
  split <;> split <;> simp only [irqEnabled_subscribeInterrupt]

theorem irqEnabled_unsubscribeInterrupt (vector : Fin 256) :
    (m.unsubscribeInterrupt c vector).irqEnabled = m.irqEnabled := by
  rw [Machine.unsubscribeInterrupt_eq]

theorem irqEnabled_unsubscribeAllInterrupts :
    (m.unsubscribeAllInterrupts c).irqEnabled = m.irqEnabled := by
  refine run_keeps Machine.irqEnabled (fun m vector => ?_) m (List.finRange 256)
  split
  · exact irqEnabled_unsubscribeInterrupt vector
  · rfl

/-! ## The driver while no irq is enabled -/

/-- **Everything is masked and nothing subscribed to.** -/
structure Idle (c : Fin n) (p : Pic n) : Prop where
  irqEnabled : p.machine.irqEnabled = 0
  free : ∀ v, Free c (p.machine.interrupts v).view
  mask1 : p.chip1.mask = 0xff
  mask2 : p.chip2.mask = 0xff
  next1 : p.chip1.next = .mask
  next2 : p.chip2.next = .mask

/-- What `set_offset` does to the subscriptions. -/
theorem machine_setOffset (offset1 offset2 : Fin 256) :
    (p.setOffset c offset1 offset2).machine =
      run (resubscribe c p.chip1.mask p.chip2.mask)
        { p.machine.unsubscribeAllInterrupts c with irqOffset := (offset1.val, offset2.val) }
        (List.range 8) := by
  rw [setOffset]
  rfl

theorem machine_disableAllIrqs :
    (p.disableAllIrqs c).machine = p.machine.unsubscribeAllInterrupts c := by
  rw [disableAllIrqs]

/-- The offsets are no subscriptions. -/
theorem orderly_withOffset (h : Orderly c m) (offset : ℕ × ℕ) :
    Orderly c { m with irqOffset := offset } := h

theorem free_withOffset {v : Fin 256} (h : Free c (m.interrupts v).view) (offset : ℕ × ℕ) :
    Free c ({ m with irqOffset := offset }.interrupts v).view := h

theorem orderly_setOffset (h : Orderly c p.machine) (offset1 offset2 : Fin 256) :
    Orderly c (p.setOffset c offset1 offset2).machine := by
  rw [machine_setOffset]
  refine run_invariant along_true ?_ fun m i hm _ => orderly_resubscribe hm _ _ i
  exact orderly_withOffset (fun v => Or.inl (free_unsubscribeAllInterrupts h v)) _

theorem irqEnabled_setOffset (offset1 offset2 : Fin 256) :
    (p.setOffset c offset1 offset2).machine.irqEnabled = p.machine.irqEnabled := by
  have hloop : ∀ m : Machine n, (run (resubscribe c p.chip1.mask p.chip2.mask) m
      (List.range 8)).irqEnabled = m.irqEnabled := fun m =>
    run_keeps Machine.irqEnabled (fun m i => irqEnabled_resubscribe _ _ i) m _
  have hoffset : ∀ (m : Machine n) offset,
      { m with irqOffset := offset : Machine n }.irqEnabled = m.irqEnabled := fun _ _ => rfl
  rw [machine_setOffset, hloop, hoffset, irqEnabled_unsubscribeAllInterrupts]

/-- **The driver starts idle.** -/
theorem Stopped.idle_start (h : Stopped c p) : Idle c (p.start c) := by
  have horderly : Orderly c p.machine :=
    fun v => Or.inl ⟨Bool.eq_false_iff.2 (h.noted v), h.listed v⟩
  refine ⟨?_, fun v => ?_, rfl, rfl, rfl, rfl⟩
  · rw [start, machine_disableAllIrqs, irqEnabled_unsubscribeAllInterrupts, irqEnabled_setOffset]
    exact h.irqEnabled
  · rw [start, machine_disableAllIrqs]
    exact free_unsubscribeAllInterrupts (orderly_setOffset horderly _ _) v

theorem getLsbD_full : ∀ i < 8, BitVec.getLsbD 0xff#8 i = true := by decide

theorem Idle.masked (h : Idle c p) (hirq : irq.val < 16) : Masked p irq := by
  rw [Masked, h.mask1, h.mask2]
  split
  · exact getLsbD_full _ ‹_›
  · exact getLsbD_full _ (by omega)

/-- **Where no irq is enabled, the records agree**, and every irq that is
masked is handed out. -/
theorem Idle.agrees (h : Idle c p) : Agrees c p := by
  have henabled : ∀ irq, ¬Enabled p irq := by
    intro irq
    simp [Enabled, h.irqEnabled, Bitmask32.get]
  have hfree : ∀ v, ¬Noted c p.machine v ∧ ¬Listed c p.machine v :=
    fun v => ⟨Bool.eq_false_iff.1 (h.free v).1, (h.free v).2⟩
  refine ⟨fun irq hirq => ?_, fun irq hirq => ?_, fun irq _ => ?_, fun bitmask => ?_⟩
  · exact iff_of_false (henabled irq) fun hnot => hnot (h.masked hirq)
  · exact iff_of_false (fun hnot => hnot (h.masked hirq)) (hfree _).1
  · exact iff_of_false (hfree _).1 (hfree _).2
  · -- the irqs that are looked for are those that are available
    have htest : ∀ irq : Fin 256, (decide (irq.val < 16) && bitmask irq && irq ≠ 1 && irq ≠ 12 &&
        !Bitmask32.get p.machine.irqEnabled irq) = true ↔ Available p bitmask irq := by
      intro irq
      have hclear := henabled irq
      rw [Enabled] at hclear
      simp only [Bool.and_eq_true, decide_eq_true_eq, Bool.not_eq_true', Available, ne_eq,
        Fin.ext_iff, Bool.eq_false_iff.2 hclear]
      exact ⟨fun ⟨⟨⟨⟨hlt, hb⟩, h1⟩, h12⟩, _⟩ => ⟨hlt, hb, h1, h12, h.masked hlt⟩,
        fun ⟨hlt, hb, h1, h12, _⟩ => ⟨⟨⟨⟨hlt, hb⟩, h1⟩, h12⟩, trivial⟩⟩
    refine ⟨fun irq hirq => ?_, fun ⟨irq, hirq⟩ => ?_⟩
    · rw [Machine.getAvailableIrq] at hirq
      have hfound := List.find?_some hirq
      exact (htest irq).1 hfound
    · exact List.find?_isSome.2 ⟨irq, List.mem_finRange irq, (htest irq).2 hirq⟩

/-- **Of a chip, only the first irq is subscribed to again**, and only
where none of them is masked. -/
theorem subscribes_iff {mask : BitVec 8} {i : ℕ} :
    subscribes mask i = true ↔ mask = 0 ∧ i = 0 := by
  rw [subscribes, decide_eq_true_eq]
  split
  · rename_i hmask
    rw [and_iff_right hmask, Nat.one_shiftLeft]
    rcases i with - | i
    · exact iff_of_true (by decide) rfl
    · have heven : 2 ^ (i + 1) % 2 = 0 := by omega
      rw [Nat.one_and_eq_mod_two, heven]
      exact iff_of_false (fun h => h rfl) (Nat.succ_ne_zero i)
  · rename_i hmask
    rw [Nat.zero_and]
    exact iff_of_false (fun h => h rfl) fun h => hmask h.1

/-- Nothing is subscribed to again, of masks that are full. -/
theorem resubscribe_full (m : Machine n) (i : ℕ) : resubscribe c 0xff 0xff m i = m := by
  have hnone : subscribes 0xff i = false :=
    Bool.eq_false_iff.2 fun h => absurd (subscribes_iff.1 h).1 (by decide)
  rw [resubscribe, hnone]
  rfl

theorem unsubscribeInterrupt_of_free (h : Free c (m.interrupts vector).view) :
    m.unsubscribeInterrupt c vector = m := by
  rw [Machine.unsubscribeInterrupt]
  exact if_pos h.1

theorem Idle.disableAllIrqs (h : Idle c p) : Idle c (p.disableAllIrqs c) := by
  have hchip1 : (p.disableAllIrqs c).chip1 = { p.chip1 with mask := 0xff } :=
    Chip.writeData_of_mask h.next1 _
  have hchip2 : (p.disableAllIrqs c).chip2 = { p.chip2 with mask := 0xff } :=
    Chip.writeData_of_mask h.next2 _
  refine ⟨?_, fun v => ?_, by rw [hchip1], by rw [hchip2], ?_, ?_⟩
  · rw [machine_disableAllIrqs, irqEnabled_unsubscribeAllInterrupts]
    exact h.irqEnabled
  · rw [machine_disableAllIrqs]
    exact free_unsubscribeAllInterrupts (fun v => Or.inl (h.free v)) v
  · rw [hchip1]
    exact h.next1
  · rw [hchip2]
    exact h.next2

theorem Idle.setOffset (h : Idle c p) (offset1 offset2 : Fin 256) :
    Idle c (p.setOffset c offset1 offset2) := by
  have hloop : ∀ m : Machine n, run (resubscribe c 0xff 0xff) m (List.range 8) = m := by
    intro m
    have hkeeps := run_keeps (fun m : Machine n => m) (resubscribe_full (c := c)) m (List.range 8)
    exact hkeeps
  refine ⟨(irqEnabled_setOffset _ _).trans h.irqEnabled, fun v => ?_, h.mask1, h.mask2, rfl, rfl⟩
  have hfree := free_unsubscribeAllInterrupts (fun v => Or.inl (h.free v)) v
  rw [machine_setOffset, h.mask1, h.mask2, hloop]
  exact free_withOffset hfree (offset1.val, offset2.val)

/-- **A call keeps the driver idle** if it enables no irq. -/
theorem Idle.step (h : Idle c p) (hop : op.EnablesNone) : Idle c (p.step c op) := by
  cases op with
  | enableIrq cpu irq =>
    rw [Pic.step, enableIrq]
    split
    · exact h
    · have hirq := hop (by omega)
      rw [if_neg (by omega), if_neg (by omega)]
      exact h
  | disableIrq cpu irq =>
    have hmachine : p.machine.disableIrq c irq = p.machine := by
      rw [Machine.disableIrq]
      split
      · rw [unsubscribeInterrupt_of_free (h.free _)]
        rfl
      · rfl
    have hfull : ∀ mask : BitVec 8, 0xff ||| mask = 0xff := fun mask => BitVec.allOnes_or
    rw [Pic.step, disableIrq, hmachine]
    split
    · rw [Chip.writeData_of_mask h.next1, Chip.readData, h.mask1, hfull]
      exact ⟨h.irqEnabled, h.free, rfl, h.mask2, h.next1, h.next2⟩
    · split
      · rw [Chip.writeData_of_mask h.next2, Chip.readData, h.mask2, hfull]
        exact ⟨h.irqEnabled, h.free, h.mask1, rfl, h.next1, h.next2⟩
      · exact h
  | disableAllIrqs => exact h.disableAllIrqs
  | setOffset offset1 offset2 => exact h.setOffset offset1 offset2

/-! ## Runs -/

/-- An irq that is enabled is clear in its chip's mask. -/
theorem Idle.not_masked_enableIrq (h : Idle c p) (hirq : irq.val < 16) :
    ¬Masked (p.enableIrq c 0 irq) irq := by
  have hclear : ∀ i < 8, BitVec.getLsbD (0xff#8 &&& ~~~(1#8 <<< i)) i ≠ true := by decide
  rw [Masked, enableIrq, if_neg (Nat.lt_irrefl 0)]
  by_cases hlow : irq.val < 8
  · rw [if_pos hlow, if_pos hlow, Chip.writeData_of_mask h.next1, Chip.readData, h.mask1]
    exact hclear _ hlow
  · rw [if_neg hlow, if_neg hlow, if_pos hirq, Chip.writeData_of_mask h.next2, Chip.readData,
      h.mask2]
    exact hclear _ (by omega)

/-- And is not in `irqEnabled`. -/
theorem Idle.irqEnabled_enableIrq (h : Idle c p) (cpu : ℕ) :
    (p.enableIrq c cpu irq).machine.irqEnabled = 0 := by
  rw [enableIrq]
  split
  · exact h.irqEnabled
  · split
    · exact Machine.irqEnabled_enableIrq.trans h.irqEnabled
    · split
      · exact Machine.irqEnabled_enableIrq.trans h.irqEnabled
      · exact h.irqEnabled

/-- **After a call the records agree exactly if it enabled no irq.** -/
theorem Idle.agrees_step_iff (h : Idle c p) : Agrees c (p.step c op) ↔ op.EnablesNone := by
  refine ⟨fun hagrees => ?_, fun hop => (h.step hop).agrees⟩
  cases op with
  | enableIrq cpu irq =>
    rintro rfl
    by_contra hirq
    rw [Nat.not_le] at hirq
    have henabled := (hagrees.enabled irq hirq).2 (h.not_masked_enableIrq hirq)
    rw [Enabled, Pic.step, h.irqEnabled_enableIrq] at henabled
    simp [Bitmask32.get] at henabled
  | disableIrq cpu irq => trivial
  | disableAllIrqs => trivial
  | setOffset offset1 offset2 => trivial

theorem Idle.enablesNone_of_throughout (h : Idle c p)
    (hrun : Throughout (Pic.step c) (Agrees c) p [op]) : op.EnablesNone :=
  h.agrees_step_iff.1 hrun.2

/-- **The records agree in every state exactly as long as no irq is
enabled.** -/
theorem agrees_run_iff (c : Fin n) (p : Pic n) (hstopped : Stopped c p) (ops : List Op) :
    Throughout (step c) (Agrees c) (p.start c) ops ↔
      Along (step c) (fun _ op => op.EnablesNone) (p.start c) ops :=
  throughout_iff_along_of_invariant hstopped.idle_start (fun _ h => h.agrees)
    (fun _ _ h => h.agrees_step_iff) (fun _ _ h => h.step) ops

/-- One controller, with chips as they may be found. -/
def found : Pic 1 := ⟨.new [0], ⟨0xb8, 0x08, .mask⟩, ⟨0x8e, 0x70, .mask⟩⟩

theorem stopped_found : Stopped 0 found :=
  ⟨rfl, fun _ => Bool.false_ne_true, fun _ => List.not_mem_nil⟩

theorem agrees_run_iff_found : Stopped 0 found ∧
    (Throughout (step 0) (Agrees 0) (found.start 0) [.disableIrq 0 1] ↔
      Along (step 0) (fun _ op => op.EnablesNone) (found.start 0) [.disableIrq 0 1]) :=
  ⟨stopped_found, agrees_run_iff 0 found stopped_found _⟩

/-- **The irq of the second chip**, which the driver enables when it
starts, is in two of the records. -/
theorem not_agrees_run :
    ¬Throughout (step 0) (Agrees 0) (found.start 0) [.enableIrq 0 (.ofNat 256 2)] := by
  intro h
  have hlast := stopped_found.idle_start.enablesNone_of_throughout h
  exact absurd (hlast rfl) (by decide)

end Pic

end Pic8259

end Uberos
