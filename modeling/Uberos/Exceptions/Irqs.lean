import Uberos.Library.Run
import Uberos.PodArray
import Mathlib.Logic.Function.Basic
/-!
# The irq table

`exceptions::irq::subscribe` and `unsubscribe` of `kernel/exceptions.cpp`,
over whatever interrupt controllers are installed: `enable_irq` sets an
irq active on one and `disable_irq` inactive, as `drivers/Interrupt.hpp`
says. The pointer to the array of an irq doubles as the flag that it is
enabled, and is set before a controller is looked for. Where there is
none for the irq, the call fails and leaves the pointer, and the next one
takes it to be enabled.
-/

namespace Uberos

namespace Exceptions

open Library

variable {Controller Subscriber Data : Type*}

/-- `IrqSubscription`. -/
structure IrqSubscription (Subscriber Data : Type*) where
  subscriber : Subscriber
  data : Data
  deriving DecidableEq, Repr

/-- The controllers that are installed, in their order, and their
ranges. -/
structure Controllers (Controller : Type*) where
  drivers : List Controller
  minIrq : Controller → ℕ
  maxIrq : Controller → ℕ

/-- `irqSubscribers`, and the irqs each controller has enabled. -/
structure IrqTable (Controller Subscriber Data : Type*) where
  irqSubscribers : Fin 256 → Option (List (IrqSubscription Subscriber Data))
  enabled : Controller → Fin 256 → Bool

/-- `irq>=driver.min_irq&&irq<=driver.max_irq`. -/
def Controllers.covers (cs : Controllers Controller) (irq : Fin 256) (c : Controller) : Bool :=
  decide (cs.minIrq c ≤ irq.val ∧ irq.val ≤ cs.maxIrq c)

namespace IrqTable

variable [DecidableEq Controller] [DecidableEq Subscriber] [DecidableEq Data]
variable (cs : Controllers Controller) (s : IrqTable Controller Subscriber Data)

/-- Nobody is subscribed. The controllers may have irqs enabled. -/
def new (enabled : Controller → Fin 256 → Bool) : IrqTable Controller Subscriber Data :=
  ⟨fun _ => none, enabled⟩

/-- `irqSubscribers[irq]` is set. -/
def setSubscribers (irq : Fin 256) (subscribers : Option (List (IrqSubscription Subscriber Data))) :
    IrqTable Controller Subscriber Data :=
  { s with irqSubscribers := Function.update s.irqSubscribers irq subscribers }

/-- `enable_irq` or `disable_irq`. -/
def setEnabled (c : Controller) (irq : Fin 256) (value : Bool) :
    IrqTable Controller Subscriber Data :=
  { s with enabled := Function.update s.enabled c (Function.update (s.enabled c) irq value) }

/-- `subscribe`, and whether it succeeds. -/
def subscribe (irq : Fin 256) (subscription : IrqSubscription Subscriber Data) :
    Bool × IrqTable Controller Subscriber Data :=
  match s.irqSubscribers irq with
  | some subscribers =>
    (true, s.setSubscribers irq (some (PodArray.pushBack subscribers subscription)))
  | none =>
    let s := s.setSubscribers irq (some [])
    match cs.drivers.find? (cs.covers irq) with
    | some c =>
      let s := s.setEnabled c irq true
      (true, s.setSubscribers irq (some (PodArray.pushBack [] subscription)))
    | none => (false, s)

/-- `unsubscribe`. -/
def unsubscribe (irq : Fin 256) (subscription : IrqSubscription Subscriber Data) :
    IrqTable Controller Subscriber Data :=
  match s.irqSubscribers irq with
  | none => s
  | some subscribers =>
    let subscribers := PodArray.removeValue subscribers subscription
    let s := s.setSubscribers irq (some subscribers)
    if subscribers.length < 1 then
      let s := s.setSubscribers irq none
      cs.drivers.foldl (fun s c => if cs.covers irq c then s.setEnabled c irq false else s) s
    else s

variable (Subscriber Data) in
/-- The calls. -/
inductive Op
  | subscribe (irq : Fin 256) (subscription : IrqSubscription Subscriber Data)
  | unsubscribe (irq : Fin 256) (subscription : IrqSubscription Subscriber Data)
  deriving DecidableEq, Repr

/-- One call. -/
def step (s : IrqTable Controller Subscriber Data) :
    Op Subscriber Data → IrqTable Controller Subscriber Data
  | .subscribe irq subscription => (s.subscribe cs irq subscription).2
  | .unsubscribe irq subscription => s.unsubscribe cs irq subscription

/-! ## What it is for -/

/-- An irq has an array just when that holds a subscription and the irq is
enabled on a controller whose range it is in. -/
def ConsistentAt (irq : Fin 256) : Prop :=
  (s.irqSubscribers irq).isSome ↔
    (∃ subscribers ∈ s.irqSubscribers irq, subscribers ≠ []) ∧
      ∃ c ∈ cs.drivers, cs.covers irq c ∧ s.enabled c irq

/-- **The table is consistent**: every irq is. -/
def Consistent : Prop := ∀ irq, ConsistentAt cs s irq

/-- **The table is consistent after the call**, and as it was after one
that failed, so that it fails again. -/
def Meets (op : Op Subscriber Data) : Prop :=
  Consistent cs (step cs s op) ∧
    ∀ irq subscription, op = .subscribe irq subscription → (s.subscribe cs irq subscription).1 = false →
      step cs s op = s ∧ ((step cs s op).subscribe cs irq subscription).1 = false

/-- **The irq subscribed to is in the range of a controller.** -/
def Covered (_ : IrqTable Controller Subscriber Data) : Op Subscriber Data → Prop
  | .subscribe irq _ => ∃ c ∈ cs.drivers, cs.covers irq c
  | .unsubscribe _ _ => True

instance (s : IrqTable Controller Subscriber Data) : ∀ op, Decidable (Covered cs s op)
  | .subscribe irq _ => inferInstanceAs (Decidable (∃ c ∈ cs.drivers, cs.covers irq c))
  | .unsubscribe _ _ => inferInstanceAs (Decidable True)

variable {cs s} {irq other : Fin 256} {subscription : IrqSubscription Subscriber Data}
variable {op : Op Subscriber Data}

/-! ## One irq and the others -/

omit [DecidableEq Controller] [DecidableEq Subscriber] [DecidableEq Data] in
/-- An irq's consistency is a matter of its array and of whether it is
enabled. -/
theorem ConsistentAt.congr {s' : IrqTable Controller Subscriber Data} (h : ConsistentAt cs s irq)
    (hsubscribers : s'.irqSubscribers irq = s.irqSubscribers irq)
    (henabled : ∀ c, s'.enabled c irq = s.enabled c irq) : ConsistentAt cs s' irq := by
  rw [ConsistentAt, hsubscribers]
  simp only [henabled]
  exact h

omit [DecidableEq Subscriber] [DecidableEq Data] in
theorem setEnabled_enabled (c c' : Controller) (irq other : Fin 256) (value : Bool) :
    (s.setEnabled c irq value).enabled c' other =
      if c' = c ∧ other = irq then value else s.enabled c' other := by
  simp only [setEnabled, Function.update_apply]
  by_cases hc : c' = c
  · subst hc
    by_cases hother : other = irq <;> simp [hother]
  · simp [hc]

omit [DecidableEq Subscriber] [DecidableEq Data] in
/-- **The loop that disables an irq** leaves the arrays and all other
irqs. -/
theorem disable_eq (cs : Controllers Controller) (irq : Fin 256) (drivers : List Controller)
    (s : IrqTable Controller Subscriber Data) :
    let s' := drivers.foldl (fun s c => if cs.covers irq c then s.setEnabled c irq false else s) s
    s'.irqSubscribers = s.irqSubscribers ∧
      ∀ c other, other ≠ irq → s'.enabled c other = s.enabled c other := by
  induction drivers generalizing s with
  | nil => exact ⟨rfl, fun _ _ _ => rfl⟩
  | cons d drivers ih =>
    obtain ⟨hsubscribers, henabled⟩ :=
      ih (if cs.covers irq d then s.setEnabled d irq false else s)
    refine ⟨hsubscribers.trans ?_, fun c other hother => (henabled c other hother).trans ?_⟩
    · split <;> rfl
    · split
      · rw [setEnabled_enabled, if_neg fun hcon => hother hcon.2]
      · rfl

/-! ## The calls -/

omit [DecidableEq Controller] [DecidableEq Subscriber] [DecidableEq Data] in
/-- An irq with an array is enabled where it is consistent. -/
theorem ConsistentAt.enabled (h : ConsistentAt cs s irq)
    {subscribers : List (IrqSubscription Subscriber Data)}
    (hsome : s.irqSubscribers irq = some subscribers) :
    ∃ c ∈ cs.drivers, cs.covers irq c ∧ s.enabled c irq := by
  refine (h.1 ?_).2
  rw [hsome]
  rfl

omit [DecidableEq Controller] [DecidableEq Subscriber] [DecidableEq Data] in
/-- **An array that is not empty, of an irq that is enabled.** -/
theorem consistentAt_of_enabled {subscribers : List (IrqSubscription Subscriber Data)}
    (hsome : s.irqSubscribers irq = some subscribers) (hne : subscribers ≠ [])
    (henabled : ∃ c ∈ cs.drivers, cs.covers irq c ∧ s.enabled c irq) : ConsistentAt cs s irq := by
  rw [ConsistentAt, hsome]
  exact iff_of_true rfl ⟨⟨subscribers, rfl, hne⟩, henabled⟩

omit [DecidableEq Controller] [DecidableEq Subscriber] [DecidableEq Data] in
/-- And no array. -/
theorem consistentAt_of_none (hnone : s.irqSubscribers irq = none) : ConsistentAt cs s irq := by
  rw [ConsistentAt, hnone]
  refine iff_of_false Bool.false_ne_true fun hcon => ?_
  obtain ⟨subscribers, hmem, -⟩ := hcon.1
  cases hmem

omit [DecidableEq Subscriber] [DecidableEq Data] in
/-- **A subscription to an irq in range keeps the table consistent**, and
succeeds. -/
theorem Consistent.subscribe (h : Consistent cs s) (hcovered : ∃ c ∈ cs.drivers, cs.covers irq c)
    (subscription : IrqSubscription Subscriber Data) :
    (s.subscribe cs irq subscription).1 = true ∧
      Consistent cs (s.subscribe cs irq subscription).2 := by
  rw [IrqTable.subscribe]
  split
  · rename_i subscribers hsome
    refine ⟨rfl, fun other => ?_⟩
    by_cases hother : other = irq
    · subst hother
      exact consistentAt_of_enabled (Function.update_self ..) (by simp [PodArray.pushBack])
        ((h other).enabled hsome)
    · exact (h other).congr (Function.update_of_ne hother _ _) fun _ => rfl
  · rename_i hnone
    rcases hfind : cs.drivers.find? (cs.covers irq) with - | c
    · obtain ⟨c, hc, hcovers⟩ := hcovered
      exact absurd hcovers (List.find?_eq_none.1 hfind c hc)
    · refine ⟨rfl, fun other => ?_⟩
      by_cases hother : other = irq
      · subst hother
        refine consistentAt_of_enabled (Function.update_self ..) (by simp [PodArray.pushBack])
          ⟨c, List.mem_of_find?_eq_some hfind, List.find?_some hfind, ?_⟩
        show ((s.setSubscribers other (some [])).setEnabled c other true).enabled c other = true
        rw [setEnabled_enabled, if_pos ⟨rfl, rfl⟩]
      · refine (h other).congr ?_ fun c' => ?_
        · simp only [setSubscribers, setEnabled, Function.update_of_ne hother]
        · show ((s.setSubscribers irq (some [])).setEnabled c irq true).enabled c' other = _
          rw [setEnabled_enabled, if_neg fun hcon => hother hcon.2]
          rfl

omit [DecidableEq Subscriber] [DecidableEq Data] in
/-- **To one in no range it fails and leaves an array.** -/
theorem Consistent.subscribe_uncovered (h : Consistent cs s)
    (huncovered : ¬ ∃ c ∈ cs.drivers, cs.covers irq c)
    (subscription : IrqSubscription Subscriber Data) :
    s.subscribe cs irq subscription = (false, s.setSubscribers irq (some [])) := by
  rw [IrqTable.subscribe]
  split
  · rename_i subscribers hsome
    obtain ⟨c, hc, hcovers, -⟩ := (h irq).enabled hsome
    exact absurd ⟨c, hc, hcovers⟩ huncovered
  · have hfind : cs.drivers.find? (cs.covers irq) = none :=
      List.find?_eq_none.2 fun c hc hcovers => huncovered ⟨c, hc, hcovers⟩
    simp only [hfind]

/-- **An unsubscription keeps the table consistent**: with the last entry
the array goes, and nothing else. -/
theorem Consistent.unsubscribe (h : Consistent cs s) (irq : Fin 256)
    (subscription : IrqSubscription Subscriber Data) :
    Consistent cs (s.unsubscribe cs irq subscription) := by
  rw [IrqTable.unsubscribe]
  split
  · exact h
  · rename_i subscribers hsome
    dsimp only
    split
    · intro other
      obtain ⟨hsubscribers, henabled⟩ := disable_eq cs irq cs.drivers
        ((s.setSubscribers irq
          (some (PodArray.removeValue subscribers subscription))).setSubscribers irq none)
      by_cases hother : other = irq
      · subst hother
        refine consistentAt_of_none ?_
        rw [hsubscribers]
        exact Function.update_self ..
      · refine (h other).congr ?_ fun c => henabled c other hother
        rw [hsubscribers]
        simp only [setSubscribers, Function.update_of_ne hother]
    · rename_i hlength
      intro other
      by_cases hother : other = irq
      · subst hother
        refine consistentAt_of_enabled (Function.update_self ..) (fun hnil => hlength ?_)
          ((h other).enabled hsome)
        rw [hnil]
        exact Nat.zero_lt_one
      · exact (h other).congr (Function.update_of_ne hother _ _) fun _ => rfl

/-! ## Runs -/

/-- **A call is right exactly when the irq is in range.** -/
theorem Consistent.meets_iff (h : Consistent cs s) : Meets cs s op ↔ Covered cs s op := by
  cases op with
  | subscribe irq subscription =>
    by_cases hcovered : ∃ c ∈ cs.drivers, cs.covers irq c
    · obtain ⟨hsucceeds, hconsistent⟩ := h.subscribe hcovered subscription
      refine iff_of_true ⟨hconsistent, fun irq' subscription' heq hfails => ?_⟩ hcovered
      cases heq
      rw [hsucceeds] at hfails
      cases hfails
    · refine iff_of_false (fun hmeets => ?_) hcovered
      have hconsistent := hmeets.1 irq
      rw [step, h.subscribe_uncovered hcovered] at hconsistent
      obtain ⟨⟨subscribers, hmem, hne⟩, -⟩ := hconsistent.1 (by
        simp only [setSubscribers, Function.update_self]
        rfl)
      simp only [setSubscribers, Function.update_self, Option.mem_def, Option.some.injEq] at hmem
      exact hne hmem.symm
  | unsubscribe irq subscription =>
    exact iff_of_true ⟨h.unsubscribe irq subscription, fun _ _ heq => by cases heq⟩ trivial

/-- **Over a run every call is right exactly when each irq that is
subscribed to is in the range of a controller.** -/
theorem table_run_iff (cs : Controllers Controller) (enabled : Controller → Fin 256 → Bool)
    (ops : List (Op Subscriber Data)) :
    Along (step cs) (Meets cs) (new enabled) ops ↔ Along (step cs) (Covered cs) (new enabled) ops := by
  refine along_iff_of_invariant (I := Consistent cs) along_true (fun irq => ?_)
    (fun s op h _ => h.meets_iff) fun s op h _ hcovered => (h.meets_iff.2 hcovered).1
  exact consistentAt_of_none rfl

/-- A controller of irqs 0 to 15 has irq 2 enabled. A subscription to irq
20 fails, and the next one does not, though no controller has it. -/
theorem not_table_run :
    let cs : Controllers Unit := ⟨[()], fun _ => 0, fun _ => 15⟩
    let s : IrqTable Unit ℕ ℕ := new fun _ irq => irq = 2
    ¬ Along (step cs) (Meets cs) s [.subscribe 20 ⟨1, 0⟩] ∧
      (s.subscribe cs 20 ⟨1, 0⟩).1 = false ∧
        ((s.subscribe cs 20 ⟨1, 0⟩).2.subscribe cs 20 ⟨1, 0⟩).1 = true := by
  intro cs s
  refine ⟨fun h => ?_, by decide, by decide⟩
  have hagain := (h.1.2 20 ⟨1, 0⟩ rfl (by decide)).2
  exact absurd hagain (by decide)

end IrqTable

end Exceptions

end Uberos
