import Uberos.PodArray
import Uberos.Subscriptions.Model
/-!
# Who has a PCI device or an I/O port

`subscribe_pci` and `subscribe_ioPort` of `kernel/DriverApi.cpp` ask all
drivers, so that no two of them ever have the same device or port. A
driver that gives back the first of several keeps it and loses others, as
`PodArray::remove` does; as long as none does so the drivers' arrays say
who has what.
-/

namespace Uberos

open Library

/-- What each driver has in its array. -/
abbrev Holdings (n : ℕ) := Fin n → List ℕ

namespace Holdings

variable {n : ℕ}

/-- A call that changes the arrays. -/
inductive Request (n : ℕ)
  | subscribe (d : Fin n) (item : ℕ)
  | unsubscribe (d : Fin n) (item : ℕ)
  | unsubscribeAll (d : Fin n)

/-- What it does to them. -/
def apply (h : Holdings n) : Request n → Holdings n
  | .subscribe d item =>
    if item ∈ h d then h
    else if ∃ other, item ∈ h other then h
    else Function.update h d (PodArray.pushBack (h d) item)
  | .unsubscribe d item => Function.update h d (PodArray.removeValue (h d) item)
  | .unsubscribeAll d => Function.update h d (PodArray.clear (h d))

/-! ## What it is for -/

/-- No two drivers have the same. -/
def Apart (h : Holdings n) : Prop := ∀ d e, d ≠ e → ∀ item ∈ h d, item ∉ h e

/-- Who has what, if anyone. -/
abbrev Owners (n : ℕ) := ℕ → Option (Fin n)

/-- What a call is to do: a device that nobody has is got, and one that the
driver has is given back. -/
def Owners.apply (o : Owners n) : Request n → Owners n
  | .subscribe d item => if o item = none then Function.update o item (some d) else o
  | .unsubscribe d item => if o item = some d then Function.update o item none else o
  | .unsubscribeAll d => fun item => if o item = some d then none else o item

/-- **The arrays say who has what**, each once. -/
structure Owned (h : Holdings n) (o : Owners n) : Prop where
  nodup : ∀ d, (h d).Nodup
  mem_iff : ∀ d item, item ∈ h d ↔ o item = some d

/-- It does not give back the first of several. -/
def Returns (h : Holdings n) : Request n → Prop
  | .unsubscribe d item => ¬ PodArray.AtFront (h d) item
  | _ => True

instance (h : Holdings n) (request : Request n) : Decidable (h.Returns request) :=
  match request with
  | .unsubscribe _ _ => inferInstanceAs (Decidable (¬ _))
  | .subscribe _ _ | .unsubscribeAll _ => isTrue trivial

variable {h : Holdings n} {o : Owners n} {d e : Fin n} {item : ℕ} {entries : List ℕ}

/-! ## Apart -/

theorem mem_remove {index : ℕ} (hmem : item ∈ PodArray.remove entries index) : item ∈ entries := by
  rw [PodArray.remove] at hmem
  split at hmem
  · exact hmem
  split at hmem
  · rcases entries with - | ⟨front, rest⟩
    · exact hmem
    · have hfront := List.mem_of_mem_take hmem
      rw [List.mem_cons] at hfront
      rcases hfront with rfl | hfront
      · exact List.mem_cons_self
      · exact hfront
  split at hmem
  · exact List.mem_of_mem_dropLast hmem
  · rcases List.mem_append.1 hmem with hmem | hmem
    · exact List.mem_of_mem_take hmem
    · exact List.mem_of_mem_drop hmem

theorem mem_of_mem_removeValue {value : ℕ} (hmem : item ∈ PodArray.removeValue entries value) :
    item ∈ entries := by
  rw [PodArray.removeValue] at hmem
  split at hmem
  · exact mem_remove hmem
  · exact hmem

/-- **Arrays that only lose entries stay apart.** -/
theorem Apart.shrink (ha : h.Apart) (hsub : ∀ item ∈ entries, item ∈ h d) :
    Apart (Function.update h d entries) := by
  have hmem : ∀ e item, item ∈ Function.update h d entries e → item ∈ h e := by
    intro e item hitem
    rcases eq_or_ne e d with rfl | hne
    · rw [Function.update_self] at hitem
      exact hsub item hitem
    · rwa [Function.update_of_ne hne] at hitem
  exact fun e e' hne item hitem hitem' => ha e e' hne item (hmem e item hitem) (hmem e' item hitem')

theorem Apart.apply (ha : h.Apart) (request : Request n) : (h.apply request).Apart := by
  cases request with
  | subscribe d item =>
    rw [Holdings.apply]
    split
    · exact ha
    split
    · exact ha
    · next hfree =>
      have hpush : ∀ e item', item' ∈ Function.update h d (PodArray.pushBack (h d) item) e →
          item' ∈ h e ∨ e = d ∧ item' = item := by
        intro e item' hitem
        rcases eq_or_ne e d with rfl | hne
        · rw [Function.update_self, PodArray.pushBack, List.mem_append, List.mem_singleton] at hitem
          exact hitem.imp_right fun heq => ⟨rfl, heq⟩
        · rw [Function.update_of_ne hne] at hitem
          exact Or.inl hitem
      intro e e' hne item' hitem hitem'
      rcases hpush e item' hitem with hold | ⟨rfl, rfl⟩
      · rcases hpush e' item' hitem' with hold' | ⟨rfl, rfl⟩
        · exact ha e e' hne item' hold hold'
        · exact hfree ⟨e, hold⟩
      · rcases hpush e' item' hitem' with hold' | ⟨rfl, -⟩
        · exact hfree ⟨e', hold'⟩
        · exact hne rfl
  | unsubscribe d item => exact ha.shrink fun item' => mem_of_mem_removeValue
  | unsubscribeAll d => exact ha.shrink fun item' hitem => absurd hitem List.not_mem_nil

/-! ## Owned -/

/-- One array is another, and so are the owners. -/
theorem Owned.update (ho : h.Owned o) {o' : Owners n} (hnodup : entries.Nodup)
    (hself : ∀ item, item ∈ entries ↔ o' item = some d)
    (hothers : ∀ e, e ≠ d → ∀ item, o item = some e ↔ o' item = some e) :
    Owned (Function.update h d entries) o' := by
  refine ⟨fun e => ?_, fun e item => ?_⟩
  · rcases eq_or_ne e d with rfl | hne
    · rwa [Function.update_self]
    · rw [Function.update_of_ne hne]
      exact ho.nodup e
  · rcases eq_or_ne e d with rfl | hne
    · rw [Function.update_self]
      exact hself item
    · rw [Function.update_of_ne hne, ho.mem_iff]
      exact hothers e hne item

theorem Owned.subscribe (ho : h.Owned o) (d : Fin n) (item : ℕ) :
    (h.apply (.subscribe d item)).Owned (o.apply (.subscribe d item)) := by
  have hfree : (∃ other, item ∈ h other) ↔ o item ≠ none := by
    rw [Option.ne_none_iff_exists']
    exact exists_congr fun other => ho.mem_iff other item
  rw [Holdings.apply, Owners.apply]
  by_cases hmem : item ∈ h d
  · rw [if_pos hmem, if_neg (by rw [(ho.mem_iff d item).1 hmem]; simp)]
    exact ho
  rw [if_neg hmem]
  by_cases hnone : o item = none
  · rw [if_neg (by rw [hfree]; simpa using hnone), if_pos hnone]
    have hsplit : ∀ item' e, Function.update o item (some d) item' = some e ↔
        o item' = some e ∨ item' = item ∧ d = e := by
      intro item' e
      rcases eq_or_ne item' item with rfl | hne
      · simp [hnone]
      · simp [hne]
    refine ho.update ?_ (fun item' => ?_) fun e hne item' => ?_
    · rw [PodArray.pushBack, List.nodup_append]
      refine ⟨ho.nodup d, List.nodup_singleton item, ?_⟩
      rintro item' hitem' other hother rfl
      exact hmem (List.mem_singleton.1 hother ▸ hitem')
    · rw [PodArray.pushBack, List.mem_append, List.mem_singleton, ho.mem_iff, hsplit]
      exact or_congr_right (and_iff_left rfl).symm
    · rw [hsplit]
      exact ⟨Or.inl, fun hor => hor.resolve_right fun hand => hne hand.2.symm⟩
  · rw [if_pos (hfree.2 hnone), if_neg hnone]
    exact ho

theorem Owned.unsubscribeAll (ho : h.Owned o) (d : Fin n) :
    (h.apply (.unsubscribeAll d)).Owned (o.apply (.unsubscribeAll d)) := by
  refine ho.update List.nodup_nil (fun item => ?_) fun e hne item => ?_
  · refine iff_of_false List.not_mem_nil ?_
    rw [Owners.apply]
    dsimp only
    split
    · simp
    · next hother => exact hother
  · rw [Owners.apply]
    dsimp only
    split
    · next hown =>
      rw [hown]
      simpa using hne.symm
    · exact Iff.rfl

/-- **What is given back is given back just where it is not the first of
several.** -/
theorem Owned.unsubscribe_iff (ho : h.Owned o) (d : Fin n) (item : ℕ) :
    (h.apply (.unsubscribe d item)).Owned (o.apply (.unsubscribe d item)) ↔
      ¬ PodArray.AtFront (h d) item := by
  have hfreed : ∀ item' e, o.apply (.unsubscribe d item) item' = some e ↔
      o item' = some e ∧ ¬ (item' = item ∧ e = d) := by
    intro item' e
    rw [Owners.apply]
    split
    · next hown =>
      rcases eq_or_ne item' item with rfl | hne
      · simp [hown, eq_comm]
      · simp [hne]
    · next hother =>
      refine ⟨fun heq => ⟨heq, ?_⟩, And.left⟩
      rintro ⟨rfl, rfl⟩
      exact hother heq
  constructor
  · intro howned hfront
    have hstays : item ∈ h.apply (.unsubscribe d item) d := by
      rw [Holdings.apply, Function.update_self]
      exact PodArray.mem_removeValue hfront
    rw [howned.mem_iff, hfreed] at hstays
    exact hstays.2 ⟨rfl, rfl⟩
  · intro hnot
    rw [Holdings.apply, PodArray.removeValue_eq hnot]
    refine ho.update ((ho.nodup d).erase item) (fun item' => ?_) fun e hne item' => ?_
    · rw [(ho.nodup d).mem_erase_iff, ho.mem_iff, hfreed, and_comm]
      exact and_congr_right fun _ => not_congr (and_iff_left rfl).symm
    · rw [hfreed]
      exact (and_iff_left fun hand => hne hand.2).symm

/-- **One call.** -/
theorem Owned.apply_iff (ho : h.Owned o) (request : Request n) :
    (h.apply request).Owned (o.apply request) ↔ h.Returns request := by
  cases request with
  | subscribe d item => exact iff_of_true (ho.subscribe d item) trivial
  | unsubscribe d item => exact ho.unsubscribe_iff d item
  | unsubscribeAll d => exact iff_of_true (ho.unsubscribeAll d) trivial

end Holdings

namespace Machine

open Holdings

variable {n : ℕ} {T : Target} {layout : Drivers.Layout} {m : Machine n} {op : Op n}

/-! ## The calls of drivers -/

/-- What a step asks of the arrays of PCI devices. -/
def pciRequest : Op n → Option (Request n)
  | .lifecycle op => (givenUp op).map .unsubscribeAll
  | .subscribePci d device => some (.subscribe d device)
  | .unsubscribePci d device => some (.unsubscribe d device)
  | .unsubscribeAllPci d => some (.unsubscribeAll d)
  | _ => none

/-- What it asks of those of I/O ports. -/
def ioPortRequest : Op n → Option (Request n)
  | .lifecycle op => (givenUp op).map .unsubscribeAll
  | .subscribeIoPort d ioPort => some (.subscribe d ioPort)
  | .unsubscribeIoPort d ioPort => some (.unsubscribe d ioPort)
  | .unsubscribeAllIoPort d => some (.unsubscribeAll d)
  | _ => none

/-- Both kinds of arrays. -/
def held (m : Machine n) : Holdings n × Holdings n := (m.subscribedPciDevices, m.subscribedIoPorts)

@[simp] theorem held_setInterrupt (vector : Fin 256) (line : Line n) :
    (m.setInterrupt vector line).held = m.held := rfl

@[simp] theorem held_setIrq (irq : Fin 256) (line : Line n) : (m.setIrq irq line).held = m.held :=
  rfl

@[simp] theorem held_subscribeInterrupt (d : Fin n) (vector : Fin 256) :
    (m.subscribeInterrupt d vector).held = m.held := by
  rw [subscribeInterrupt]
  split
  · rfl
  · rfl

@[simp] theorem held_unsubscribeInterrupt (d : Fin n) (vector : Fin 256) :
    (m.unsubscribeInterrupt d vector).held = m.held := by
  rw [unsubscribeInterrupt]
  split
  · rfl
  · rfl

@[simp] theorem held_unsubscribeAllInterrupts (d : Fin n) :
    (m.unsubscribeAllInterrupts d).held = m.held := by
  refine run_keeps held (fun m vector => ?_) m _
  split
  · exact held_unsubscribeInterrupt d vector
  · rfl

@[simp] theorem held_enableIrq (c : Fin n) (irq : Fin 256) : (m.enableIrq c irq).held = m.held := by
  rw [enableIrq]
  split
  · exact held_subscribeInterrupt c _
  · rfl

@[simp] theorem held_disableIrq (c : Fin n) (irq : Fin 256) :
    (m.disableIrq c irq).held = m.held := by
  rw [disableIrq]
  split
  · exact held_unsubscribeInterrupt c _
  · rfl

@[simp] theorem held_irqSubscribe (d : Fin n) (irq : Fin 256) :
    (m.irqSubscribe d irq).2.held = m.held := by
  rw [irqSubscribe]
  split
  · rfl
  · dsimp only
    split
    · exact held_enableIrq _ irq
    · rfl

@[simp] theorem held_markIrq (d : Fin n) (irq : Fin 256) (value : Bool) :
    (m.markIrq d irq value).held = m.held := rfl

@[simp] theorem held_subscribeIrq (d : Fin n) (irq : Fin 256) :
    (m.subscribeIrq d irq).held = m.held := by
  have hcall := held_irqSubscribe (m := m) d irq
  rw [subscribeIrq]
  split
  · rfl
  · split
    · next hres =>
      rw [hres] at hcall
      exact hcall
    · next hres =>
      rw [hres] at hcall
      exact hcall

theorem held_subscribeAvailableLoop (d : Fin n) (bitmask : Fin 256 → Bool)
    (controllers : List (Fin n)) (m : Machine n) :
    (subscribeAvailableLoop d bitmask controllers m).held = m.held := by
  induction controllers generalizing m with
  | nil => rfl
  | cons c rest ih =>
    rw [subscribeAvailableLoop]
    split
    · exact ih m
    · next irq _ =>
      have hcall := held_irqSubscribe (m := m) d irq
      split
      · next hres =>
        rw [hres] at hcall
        exact hcall
      · next hres =>
        rw [hres] at hcall
        exact (ih _).trans hcall

@[simp] theorem held_irqUnsubscribe (d : Fin n) (irq : Fin 256) :
    (m.irqUnsubscribe d irq).held = m.held := by
  rw [irqUnsubscribe]
  split
  · rfl
  · dsimp only
    split
    · refine (run_keeps held (fun m c => ?_) _ m.controllers).trans rfl
      split
      · exact held_disableIrq c irq
      · rfl
    · rfl

@[simp] theorem held_unsubscribeIrq (d : Fin n) (irq : Fin 256) :
    (m.unsubscribeIrq d irq).held = m.held := by
  rw [unsubscribeIrq]
  split
  · rfl
  · exact held_irqUnsubscribe d irq

@[simp] theorem held_unsubscribeAllIrqs (d : Fin n) : (m.unsubscribeAllIrqs d).held = m.held := by
  refine run_keeps held (fun m irq => ?_) m _
  split
  · exact held_unsubscribeIrq d irq
  · rfl

/-- What a driver that stops or fails has after it. -/
theorem held_unsubscribeRest (d : Fin n) :
    (m.unsubscribeRest d).held =
      (m.held.1.apply (.unsubscribeAll d), m.held.2.apply (.unsubscribeAll d)) := by
  have hbefore := (held_unsubscribeAllIrqs (m := m.unsubscribeAllInterrupts d) d).trans
    (held_unsubscribeAllInterrupts d)
  have hpci := congrArg Prod.fst hbefore
  have hioPort := congrArg Prod.snd hbefore
  simp only [held] at hpci hioPort
  simp only [unsubscribeRest, unsubscribeAllPci, unsubscribeAllIoPort, held, Holdings.apply, hpci,
    hioPort]

/-- A request, if there is one. -/
def requested (h : Holdings n) (request : Option (Request n)) : Holdings n :=
  request.elim h h.apply

/-- **What a step does to the arrays** is what it asks. -/
theorem held_step : (m.step T layout op).held =
    (requested m.held.1 (pciRequest op), requested m.held.2 (ioPortRequest op)) := by
  cases op with
  | lifecycle op =>
    rw [step, lifecycle, pciRequest, ioPortRequest]
    split
    · next d hgiven =>
      rw [hgiven]
      exact held_unsubscribeRest d
    · next hgiven =>
      rw [hgiven]
      rfl
  | subscribeInterrupt d vector => exact held_subscribeInterrupt d vector
  | unsubscribeInterrupt d vector => exact held_unsubscribeInterrupt d vector
  | unsubscribeAllInterrupts d => exact held_unsubscribeAllInterrupts d
  | subscribeIrq d irq => exact held_subscribeIrq d irq
  | subscribeAvailableIrq d bitmask => exact held_subscribeAvailableLoop d bitmask _ m
  | unsubscribeIrq d irq => exact held_unsubscribeIrq d irq
  | unsubscribeAllIrqs d => exact held_unsubscribeAllIrqs d
  | subscribePci d device =>
    have hasked : m.held.1.apply (.subscribe d device) = (m.subscribePci d device).held.1 := by
      simp only [Holdings.apply, subscribePci, held, apply_ite subscribedPciDevices]
      congr
    have hothers : (m.subscribePci d device).held.2 = m.held.2 := by
      rw [subscribePci]
      split
      · rfl
      · split <;> rfl
    exact Prod.ext hasked.symm hothers
  | unsubscribePci d device => rfl
  | unsubscribeAllPci d => rfl
  | subscribeIoPort d ioPort =>
    have hasked : m.held.2.apply (.subscribe d ioPort) = (m.subscribeIoPort d ioPort).held.2 := by
      simp only [Holdings.apply, subscribeIoPort, held, apply_ite subscribedIoPorts]
      congr
    have hothers : (m.subscribeIoPort d ioPort).held.1 = m.held.1 := by
      rw [subscribeIoPort]
      split
      · rfl
      · split <;> rfl
    exact Prod.ext hothers hasked.symm
  | unsubscribeIoPort d ioPort => rfl
  | unsubscribeAllIoPort d => rfl
  | configure c range offset => rfl

/-! ## The result -/

/-- **No two drivers ever have the same PCI device or the same I/O port**,
whatever they subscribe to and give back, and however they start, stop and
fail. -/
theorem apart_run (T : Target) (layout : Drivers.Layout) (controllers : List (Fin n))
    (ops : List (Op n)) :
    Throughout (step T layout) (fun m => m.held.1.Apart ∧ m.held.2.Apart) (new controllers)
      ops := by
  have hrequested : ∀ h : Holdings n, h.Apart → ∀ request, (requested h request).Apart := by
    intro h hapart request
    cases request with
    | none => exact hapart
    | some request => exact hapart.apply request
  have hnew : Apart (fun _ : Fin n => []) := fun _ _ _ _ hitem => absurd hitem List.not_mem_nil
  refine throughout_of_invariant (I := fun m => m.held.1.Apart ∧ m.held.2.Apart) along_true
    ⟨hnew, hnew⟩ ?_ fun _ h => h
  intro m op h _
  rw [held_step]
  exact ⟨hrequested _ h.1 _, hrequested _ h.2 _⟩

/-- The machine, and who is to have its devices and its ports. -/
structure WithOwners (n : ℕ) where
  machine : Machine n
  pciOwners : Owners n
  ioPortOwners : Owners n

/-- A step, and what it is to do. -/
def WithOwners.step (T : Target) (layout : Drivers.Layout) (s : WithOwners n) (op : Op n) :
    WithOwners n where
  machine := s.machine.step T layout op
  pciOwners := (pciRequest op).elim s.pciOwners s.pciOwners.apply
  ioPortOwners := (ioPortRequest op).elim s.ioPortOwners s.ioPortOwners.apply

/-- The arrays say who has what. -/
def WithOwners.Owned (s : WithOwners n) : Prop :=
  s.machine.held.1.Owned s.pciOwners ∧ s.machine.held.2.Owned s.ioPortOwners

/-- No driver gives back the first of several. -/
def WithOwners.Returns (s : WithOwners n) (op : Op n) : Prop :=
  (∀ request ∈ pciRequest op, s.machine.held.1.Returns request) ∧
    ∀ request ∈ ioPortRequest op, s.machine.held.2.Returns request

/-- **The drivers' arrays say throughout who has which device and port just
where no driver gives back the first of several**: then the device or port
stays with it. -/
theorem returned_run_iff (T : Target) (layout : Drivers.Layout) (controllers : List (Fin n))
    (ops : List (Op n)) :
    Throughout (WithOwners.step T layout) WithOwners.Owned
        ⟨new controllers, fun _ => none, fun _ => none⟩ ops ↔
      Along (WithOwners.step T layout) WithOwners.Returns
        ⟨new controllers, fun _ => none, fun _ => none⟩ ops := by
  have hrequested : ∀ (h : Holdings n) (o : Owners n) request, h.Owned o →
      ((requested h request).Owned (request.elim o o.apply) ↔
        ∀ r ∈ request, h.Returns r) := by
    intro h o request howned
    cases request with
    | none => exact iff_of_true howned fun r hr => nomatch hr
    | some request =>
      refine (howned.apply_iff request).trans ?_
      simp
  have hnew : Owned (fun _ : Fin n => []) fun _ => none :=
    ⟨fun _ => List.nodup_nil, fun d item => iff_of_false List.not_mem_nil (by simp)⟩
  have hstart : WithOwners.Owned ⟨new controllers, fun _ => none, fun _ => none⟩ := ⟨hnew, hnew⟩
  refine throughout_iff_along hstart (fun s op howned => ?_) ops
  rw [WithOwners.Owned, WithOwners.step, held_step, WithOwners.Returns]
  exact and_congr (hrequested _ _ _ howned.1) (hrequested _ _ _ howned.2)

end Machine

end Uberos
