import Uberos.Subscriptions.Model
/-!
# A driver's irqs and the irqs' drivers

The bit of a driver's mask and its entry in the irq's array are written
one after the other, and stay in step but for two calls. One picks an irq
that is available: the controller's mask of those in use is never
written, and neither the controller nor the call asks whether the driver
has the irq, so the same one may be picked twice. The other removes the
entry, which `PodArray::remove` does not do at the front of several.
-/

namespace Uberos

open Library

/-! ## One irq -/

namespace Line

variable {n : ℕ} {l l' : Line n} {d : Fin n}

/-- What matters of a line: its entries and the bits. -/
def view (l : Line n) : List (Fin n) × (Fin n → Bool) := (l.list, l.subscribed)

theorem subscribed_eq (l : Line n) : l.subscribed = l.view.2 := rfl

/-- **The drivers whose bits are set are the entries**, once each. -/
def Consistent (l : Line n) : Prop := ∀ d, l.list.count d = if l.subscribed d then 1 else 0

theorem consistent_new (n : ℕ) : (new n).Consistent := fun _ => rfl

theorem Consistent.congr (hview : l'.view = l.view) : l'.Consistent ↔ l.Consistent := by
  have hlist : l'.list = l.list := congrArg Prod.fst hview
  have hsubscribed : l'.subscribed = l.subscribed := congrArg Prod.snd hview
  rw [Consistent, Consistent, hlist, hsubscribed]

theorem Consistent.not_mem (h : l.Consistent) (hd : l.subscribed d = false) : d ∉ l.list := by
  have hcount := h d
  rw [hd, if_neg Bool.false_ne_true] at hcount
  exact List.count_eq_zero.1 hcount

/-- What a driver's joining does, and its leaving. -/
def joined (d : Fin n) (view : List (Fin n) × (Fin n → Bool)) : List (Fin n) × (Fin n → Bool) :=
  (view.1 ++ [d], Function.update view.2 d true)

def left (d : Fin n) (view : List (Fin n) × (Fin n → Bool)) : List (Fin n) × (Fin n → Bool) :=
  if view.2 d then (PodArray.removeValue view.1 d, Function.update view.2 d false) else view

theorem subscribed_left_self (view : List (Fin n) × (Fin n → Bool)) : (left d view).2 d = false := by
  rw [left]
  split
  · exact Function.update_self ..
  · rename_i hd
    exact Bool.eq_false_iff.2 hd

theorem subscribed_left_of_ne {e : Fin n} (he : e ≠ d) (view : List (Fin n) × (Fin n → Bool)) :
    (left d view).2 e = view.2 e := by
  rw [left]
  split
  · exact Function.update_of_ne he ..
  · rfl

theorem view_push_mark : ((l.push d).mark d true).view = joined d l.view := rfl

theorem list_remove : (l.remove d).list = PodArray.removeValue l.list d := by
  rcases hsubscribers : l.subscribers with - | entries
  · simp [list, remove, hsubscribers, PodArray.removeValue]
  · simp [list, remove, hsubscribers]

theorem view_remove_mark (hd : l.subscribed d = true) :
    ((l.remove d).mark d false).view = left d l.view := by
  have hview : l.view.2 d = true := hd
  rw [left, if_pos hview]
  exact Prod.ext list_remove rfl

/-- **A driver may join once.** -/
theorem consistent_joined (h : l.Consistent) (hview : l'.view = joined d l.view) :
    l'.Consistent ↔ l.subscribed d = false := by
  have hlist : l'.list = l.list ++ [d] := congrArg Prod.fst hview
  have hsubscribed : l'.subscribed = Function.update l.subscribed d true := congrArg Prod.snd hview
  constructor
  · intro hafter
    have hcount := hafter d
    have hbefore := h d
    rw [hlist, hsubscribed, Function.update_self, List.count_append, List.count_singleton_self,
      hbefore, if_pos rfl] at hcount
    by_contra hcon
    rw [Bool.not_eq_false] at hcon
    rw [if_pos hcon] at hcount
    omega
  · intro hfree e
    rw [hlist, hsubscribed, List.count_append, h e]
    by_cases he : e = d
    · subst he
      rw [hfree, Function.update_self, List.count_singleton_self]
      rfl
    · have hzero : [d].count e = 0 := List.count_eq_zero.2 (by simpa using he)
      rw [Function.update_of_ne he, hzero, Nat.add_zero]

/-- **And leave unless it is at the front of others.** -/
theorem consistent_left (h : l.Consistent) (hview : l'.view = left d l.view) :
    l'.Consistent ↔ (l.subscribed d = true → ¬ PodArray.AtFront l.list d) := by
  by_cases hd : l.subscribed d = true
  · have hview' : l.view.2 d = true := hd
    rw [left, if_pos hview'] at hview
    have hlist : l'.list = PodArray.removeValue l.list d := congrArg Prod.fst hview
    have hsubscribed : l'.subscribed = Function.update l.subscribed d false :=
      congrArg Prod.snd hview
    constructor
    · intro hafter _ hfront
      have hcount := hafter d
      rw [hlist, hsubscribed, Function.update_self, if_neg Bool.false_ne_true,
        List.count_eq_zero] at hcount
      exact hcount (PodArray.mem_removeValue hfront)
    · intro hnot e
      rw [hlist, hsubscribed, PodArray.removeValue_eq (hnot hd)]
      by_cases he : e = d
      · subst he
        rw [List.count_erase_self, h e, hd, Function.update_self]
        rfl
      · rw [List.count_erase_of_ne he, h e, Function.update_of_ne he]
  · have hview' : ¬ l.view.2 d = true := hd
    rw [left, if_neg hview'] at hview
    exact iff_of_true ((Consistent.congr hview).2 h) fun hcon => absurd hcon hd

end Line

namespace Machine

variable {n : ℕ} {T : Target} {layout : Drivers.Layout} {m : Machine n} {d c e : Fin n}
variable {irq vector : Fin 256} {bitmask : Fin 256 → Bool} {op : Op n}

/-! ## What it is for -/

/-- **Each irq's array and the drivers' masks agree.** -/
def Consistent (m : Machine n) : Prop := ∀ irq, (m.irqs irq).Consistent

/-- The driver is not at the front of others in the array of an irq it is
subscribed to. -/
def Leaves (m : Machine n) (d : Fin n) (irq : Fin 256) : Prop :=
  (m.irqs irq).subscribed d = true → ¬ PodArray.AtFront (m.irqs irq).list d

instance (m : Machine n) (d : Fin n) (irq : Fin 256) : Decidable (m.Leaves d irq) :=
  inferInstanceAs (Decidable (_ → _))

/-- **The irq that is picked is not the driver's, and the entry that is
removed is not the first of several.** -/
def Sound (m : Machine n) : Op n → Prop
  | .subscribeAvailableIrq d bitmask =>
    m.controllers ≠ [] → ∀ irq ∈ m.getAvailableIrq bitmask, (m.irqs irq).subscribed d = false
  | .unsubscribeIrq d irq => m.Leaves d irq
  | .unsubscribeAllIrqs d => ∀ irq, m.Leaves d irq
  | .lifecycle op => ∀ d ∈ givenUp op, ∀ irq, m.Leaves d irq
  | _ => True

instance (m : Machine n) : ∀ op, Decidable (m.Sound op)
  | .subscribeAvailableIrq d bitmask => inferInstanceAs (Decidable
    (m.controllers ≠ [] → ∀ irq ∈ m.getAvailableIrq bitmask, (m.irqs irq).subscribed d = false))
  | .unsubscribeIrq d irq => inferInstanceAs (Decidable (m.Leaves d irq))
  | .unsubscribeAllIrqs d => inferInstanceAs (Decidable (∀ irq, m.Leaves d irq))
  | .lifecycle op => inferInstanceAs (Decidable (∀ d ∈ givenUp op, ∀ irq, m.Leaves d irq))
  | .subscribeInterrupt _ _ | .unsubscribeInterrupt _ _ | .unsubscribeAllInterrupts _
  | .subscribeIrq _ _ | .subscribePci _ _ | .unsubscribePci _ _ | .unsubscribeAllPci _
  | .subscribeIoPort _ _ | .unsubscribeIoPort _ _ | .unsubscribeAllIoPort _
  | .configure _ _ _ => inferInstanceAs (Decidable True)

/-! ## What leaves the irqs alone -/

@[simp] theorem irqs_subscribeInterrupt : (m.subscribeInterrupt d vector).irqs = m.irqs := by
  rw [subscribeInterrupt]
  split <;> rfl

@[simp] theorem irqs_unsubscribeInterrupt : (m.unsubscribeInterrupt d vector).irqs = m.irqs := by
  rw [unsubscribeInterrupt]
  split <;> rfl

@[simp] theorem irqs_unsubscribeAllInterrupts : (m.unsubscribeAllInterrupts d).irqs = m.irqs := by
  refine run_keeps Machine.irqs (fun m vector => ?_) m (List.finRange 256)
  split
  · exact irqs_unsubscribeInterrupt
  · rfl

@[simp] theorem irqs_enableIrq : (m.enableIrq c irq).irqs = m.irqs := by
  rw [enableIrq]
  split
  · exact irqs_subscribeInterrupt
  · rfl

@[simp] theorem irqs_disableIrq : (m.disableIrq c irq).irqs = m.irqs := by
  rw [disableIrq]
  split
  · exact irqs_unsubscribeInterrupt
  · rfl

@[simp] theorem irqs_unsubscribeAllPci : (m.unsubscribeAllPci d).irqs = m.irqs := rfl

@[simp] theorem irqs_unsubscribeAllIoPort : (m.unsubscribeAllIoPort d).irqs = m.irqs := rfl

/-! ## Subscribing -/

@[simp] theorem irqs_setIrq_self (line : Line n) : (m.setIrq irq line).irqs irq = line :=
  Function.update_self ..

theorem irqs_setIrq_of_ne {v : Fin 256} (hv : v ≠ irq) (line : Line n) :
    (m.setIrq irq line).irqs v = m.irqs v := Function.update_of_ne hv ..

/-- The line of an irq, and those of the others. -/
theorem view_setIrq (line : Line n) (v : Fin 256) :
    ((m.setIrq irq line).irqs v).view = if v = irq then line.view else (m.irqs v).view := by
  by_cases hv : v = irq
  · rw [if_pos hv, hv, irqs_setIrq_self]
  · rw [if_neg hv, irqs_setIrq_of_ne hv]

/-- An array that is made is empty. -/
theorem view_make {line : Line n} (hnone : line.subscribers = none) :
    Line.view { line with subscribers := some [] } = line.view := by
  simp [Line.view, Line.list, hnone]

/-- The mask of the irqs in use stays as it was. -/
theorem irqEnabled_enableIrq : (m.enableIrq c irq).irqEnabled = m.irqEnabled := by
  rw [enableIrq]
  split
  · rw [subscribeInterrupt]
    split <;> rfl
  · rfl

/-- **What `irq::subscribe` does**: it pushes an entry or it fails, which
it does not where there is an array. -/
theorem irqSubscribe_cases (m : Machine n) (d : Fin n) (irq : Fin 256) :
    ∃ ok m', m.irqSubscribe d irq = (ok, m') ∧ m'.irqEnabled = m.irqEnabled ∧
      (ok = true → ∀ v, (m'.irqs v).view =
        if v = irq then ((m.irqs irq).push d).view else (m.irqs v).view) ∧
      (ok = false → (m.irqs irq).subscribers = none ∧ ∀ v, (m'.irqs v).view = (m.irqs v).view) := by
  rw [irqSubscribe]
  rcases hsubscribers : (m.irqs irq).subscribers with - | entries
  · simp only
    have hmade : ∀ v, ((m.setIrq irq { m.irqs irq with subscribers := some [] }).irqs v).view =
        (m.irqs v).view := by
      intro v
      rw [view_setIrq]
      split
      · rename_i hv
        rw [hv]
        exact view_make hsubscribers
      · rfl
    split
    · rename_i c _
      refine ⟨_, _, rfl, irqEnabled_enableIrq, fun _ v => ?_, nofun⟩
      rw [view_setIrq, irqs_enableIrq]
      by_cases hv : v = irq
      · rw [if_pos hv, if_pos hv]
        simp [setIrq, Line.push, Line.view, Line.list, hsubscribers]
      · rw [if_neg hv, if_neg hv, hmade]
    · exact ⟨_, _, rfl, rfl, nofun, fun _ => ⟨trivial, hmade⟩⟩
  · refine ⟨_, _, rfl, rfl, fun _ v => ?_, nofun⟩
    rw [view_setIrq]

/-- Setting the bit of a driver whose entry was pushed. -/
theorem view_markIrq {m' : Machine n}
    (hview : ∀ v, (m'.irqs v).view =
      if v = irq then ((m.irqs irq).push d).view else (m.irqs v).view) (v : Fin 256) :
    ((m'.markIrq d irq true).irqs v).view =
      if v = irq then Line.joined d (m.irqs irq).view else (m.irqs v).view := by
  rw [markIrq, view_setIrq]
  by_cases hv : v = irq
  · rw [if_pos hv, if_pos hv]
    have hpushed := hview irq
    rw [if_pos rfl] at hpushed
    have hlist : (m'.irqs irq).list = (m.irqs irq).list ++ [d] := congrArg Prod.fst hpushed
    have hsubscribed : (m'.irqs irq).subscribed = (m.irqs irq).subscribed :=
      congrArg Prod.snd hpushed
    simp only [Line.view, Line.list, Line.mark, Line.joined] at hlist hsubscribed ⊢
    rw [hlist, hsubscribed]
  · rw [if_neg hv, if_neg hv, hview v, if_neg hv]

/-- A machine whose irqs are as they were but for one. -/
theorem Consistent.update (h : Consistent m) {m' : Machine n}
    (hothers : ∀ v ≠ irq, (m'.irqs v).view = (m.irqs v).view) :
    Consistent m' ↔ (m'.irqs irq).Consistent := by
  refine ⟨fun hafter => hafter irq, fun hirq v => ?_⟩
  by_cases hv : v = irq
  · subst hv
    exact hirq
  · exact (Line.Consistent.congr (hothers v hv)).2 (h v)

/-- **A driver's joining an irq keeps it consistent where it has not
joined it.** -/
theorem consistent_join (h : Consistent m) {m' : Machine n}
    (hview : ∀ v, (m'.irqs v).view =
      if v = irq then Line.joined d (m.irqs irq).view else (m.irqs v).view) :
    Consistent m' ↔ (m.irqs irq).subscribed d = false := by
  rw [h.update fun v hv => by rw [hview, if_neg hv]]
  exact Line.consistent_joined (h irq) (by rw [hview, if_pos rfl])

theorem Consistent.congr {m' : Machine n} (h : Consistent m)
    (hview : ∀ v, (m'.irqs v).view = (m.irqs v).view) : Consistent m' :=
  fun v => (Line.Consistent.congr (hview v)).2 (h v)

theorem consistent_subscribeIrq (h : Consistent m) : Consistent (m.subscribeIrq d irq) := by
  rw [subscribeIrq]
  split
  · exact h
  · rename_i hfree
    rw [Bool.not_eq_true] at hfree
    obtain ⟨ok, m', hcall, -, hpushed, hfailed⟩ := irqSubscribe_cases m d irq
    rw [hcall]
    cases ok with
    | true => exact (consistent_join h (view_markIrq (hpushed rfl))).2 hfree
    | false => exact h.congr (hfailed rfl).2

/-- **Picking an irq**, by whichever controller. -/
theorem consistent_subscribeAvailableLoop (h : Consistent m) (controllers : List (Fin n)) :
    Consistent (subscribeAvailableLoop d bitmask controllers m) ↔
      (controllers ≠ [] → ∀ irq ∈ m.getAvailableIrq bitmask, (m.irqs irq).subscribed d = false) := by
  induction controllers generalizing m with
  | nil => exact iff_of_true h fun hcon => absurd rfl hcon
  | cons c rest ih =>
    rw [subscribeAvailableLoop]
    rcases hpick : m.getAvailableIrq bitmask with - | irq
    · simp only [ih h, hpick]
      exact iff_of_true (fun _ irq hirq => by cases hirq) fun _ irq hirq => by cases hirq
    · obtain ⟨ok, m', hcall, henabled, hpushed, hfailed⟩ := irqSubscribe_cases m d irq
      simp only [hcall]
      have hirq : (c :: rest ≠ [] → ∀ i ∈ some irq, (m.irqs i).subscribed d = false) ↔
          (m.irqs irq).subscribed d = false := by simp
      rw [hirq]
      cases ok with
      | true => exact consistent_join h (view_markIrq (hpushed rfl))
      | false =>
        -- there was no array, so the driver is not in it, nor its bit set
        obtain ⟨hnone, hview⟩ := hfailed rfl
        have hfree : (m.irqs irq).subscribed d = false := by
          have hcount := h irq d
          rw [Line.list, hnone] at hcount
          by_contra hcon
          rw [Bool.not_eq_false] at hcon
          rw [if_pos hcon] at hcount
          cases hcount
        refine iff_of_true ((ih (h.congr hview)).2 fun _ i hi => ?_) hfree
        have hsame : m'.getAvailableIrq bitmask = m.getAvailableIrq bitmask := by
          rw [getAvailableIrq, henabled, getAvailableIrq]
        rw [hsame, hpick, Option.mem_some_iff] at hi
        subst hi
        have hsubscribed : (m'.irqs irq).subscribed = (m.irqs irq).subscribed :=
          congrArg Prod.snd (hview irq)
        rw [hsubscribed]
        exact hfree

/-! ## Unsubscribing -/

theorem irqs_disableAll (controllers : List (Fin n)) :
    (controllers.foldl (fun m c => if m.covers c irq then m.disableIrq c irq else m) m).irqs =
      m.irqs := by
  refine run_keeps Machine.irqs (fun m c => ?_) m controllers
  split
  · exact irqs_disableIrq
  · rfl

/-- **`irq::unsubscribe` removes the entry.** An array that is empty is
done away with. -/
theorem view_irqUnsubscribe (v : Fin 256) :
    ((m.irqUnsubscribe d irq).irqs v).view =
      if v = irq then ((m.irqs irq).remove d).view else (m.irqs v).view := by
  rcases hsubscribers : (m.irqs irq).subscribers with - | entries
  · simp only [irqUnsubscribe, hsubscribers]
    split
    · rename_i hv
      rw [hv]
      simp [Line.view, Line.list, Line.remove, hsubscribers]
    · rfl
  · simp only [irqUnsubscribe, hsubscribers]
    split
    · rename_i hempty
      rw [irqs_disableAll, view_setIrq, view_setIrq]
      split
      · have hnil : ((m.irqs irq).remove d).list = [] := by
          simpa [setIrq] using hempty
        rw [Line.view, Line.view, hnil]
        simp [Line.list, setIrq]
      · rfl
    · rw [view_setIrq]

theorem view_unsubscribeIrq (v : Fin 256) :
    ((m.unsubscribeIrq d irq).irqs v).view =
      if v = irq then Line.left d (m.irqs irq).view else (m.irqs v).view := by
  rw [unsubscribeIrq]
  split
  · rename_i hfree
    have hview : ¬ (m.irqs irq).view.2 d = true := by
      simp only [Line.view, hfree]
      exact Bool.false_ne_true
    split
    · rename_i hv
      rw [hv, Line.left, if_neg hview]
    · rfl
  · rename_i hsubscribed
    rw [Bool.not_eq_false] at hsubscribed
    rw [markIrq, view_setIrq]
    split
    · have hremoved : ((m.irqUnsubscribe d irq).irqs irq).view = ((m.irqs irq).remove d).view := by
        rw [view_irqUnsubscribe, if_pos rfl]
      rw [← Line.view_remove_mark hsubscribed]
      have hlist : ((m.irqUnsubscribe d irq).irqs irq).list = ((m.irqs irq).remove d).list :=
        congrArg Prod.fst hremoved
      have hbits : ((m.irqUnsubscribe d irq).irqs irq).subscribed = (m.irqs irq).subscribed :=
        congrArg Prod.snd hremoved
      exact Prod.ext hlist (congrArg (fun bits : Fin n → Bool => Function.update bits d false) hbits)
    · rename_i hv
      rw [view_irqUnsubscribe, if_neg hv]

/-- **Unsubscribing from all irqs leaves each.** -/
theorem view_unsubscribeAllIrqs (v : Fin 256) :
    ((m.unsubscribeAllIrqs d).irqs v).view = Line.left d (m.irqs v).view := by
  have hstep : ∀ (m : Machine n) (irq v : Fin 256),
      ((if (m.irqs irq).subscribed d then m.unsubscribeIrq d irq else m).irqs v).view =
        if v = irq then Line.left d (m.irqs irq).view else (m.irqs v).view := by
    intro m irq v
    split
    · exact view_unsubscribeIrq v
    · rename_i hfree
      have hview : ¬ (m.irqs irq).view.2 d = true := hfree
      split
      · rename_i hv
        rw [hv, Line.left, if_neg hview]
      · rfl
  refine (run_component (fun m v => (m.irqs v).view) (Line.left d)
    (fun m irq => ?_) (fun m irq v hv => ?_) (List.nodup_finRange 256) m v).1 (List.mem_finRange v)
  · rw [hstep, if_pos rfl]
  · rw [hstep, if_neg hv]

/-- **And so does giving up all subscriptions.** -/
theorem view_unsubscribeRest (v : Fin 256) :
    ((m.unsubscribeRest d).irqs v).view = Line.left d (m.irqs v).view := by
  rw [unsubscribeRest, irqs_unsubscribeAllIoPort, irqs_unsubscribeAllPci, view_unsubscribeAllIrqs,
    irqs_unsubscribeAllInterrupts]

theorem consistent_unsubscribeIrq (h : Consistent m) :
    Consistent (m.unsubscribeIrq d irq) ↔ m.Leaves d irq := by
  rw [h.update fun v hv => by rw [view_unsubscribeIrq, if_neg hv]]
  exact Line.consistent_left (h irq) (by rw [view_unsubscribeIrq, if_pos rfl])

theorem consistent_leave (h : Consistent m) {m' : Machine n}
    (hview : ∀ v, (m'.irqs v).view = Line.left d (m.irqs v).view) :
    Consistent m' ↔ ∀ irq, m.Leaves d irq :=
  forall_congr' fun v => Line.consistent_left (h v) (hview v)

/-! ## Runs -/

theorem lifecycle_of_none {op : Drivers.Op n} (hgiven : givenUp op = none) :
    m.lifecycle T layout op = { m with system := Drivers.step T layout m.system op } := by
  rw [lifecycle, hgiven]

theorem lifecycle_of_some {op : Drivers.Op n} (hgiven : givenUp op = some d) :
    m.lifecycle T layout op =
      Machine.unsubscribeRest { m with system := Drivers.step T layout m.system op } d := by
  rw [lifecycle, hgiven]

/-- **A step keeps masks and arrays in step exactly when it is sound.** -/
theorem consistent_step_iff (h : Consistent m) :
    Consistent (step T layout m op) ↔ m.Sound op := by
  cases op with
  | lifecycle op =>
    rcases hgiven : givenUp op with - | d
    · rw [Machine.step, lifecycle_of_none hgiven]
      refine iff_of_true h fun d hd => ?_
      rw [hgiven] at hd
      cases hd
    · rw [Machine.step, lifecycle_of_some hgiven]
      have hleave : ∀ system : Drivers.System n,
          Consistent (Machine.unsubscribeRest { m with system := system } d) ↔
            ∀ irq, m.Leaves d irq := fun system => consistent_leave h view_unsubscribeRest
      rw [hleave]
      simp only [Sound, hgiven, Option.mem_some_iff, forall_eq']
  | subscribeInterrupt d vector =>
    refine iff_of_true (h.congr fun v => ?_) trivial
    simp only [Machine.step, irqs_subscribeInterrupt]
  | unsubscribeInterrupt d vector =>
    refine iff_of_true (h.congr fun v => ?_) trivial
    simp only [Machine.step, irqs_unsubscribeInterrupt]
  | unsubscribeAllInterrupts d =>
    refine iff_of_true (h.congr fun v => ?_) trivial
    simp only [Machine.step, irqs_unsubscribeAllInterrupts]
  | subscribeIrq d irq => exact iff_of_true (consistent_subscribeIrq h) trivial
  | subscribeAvailableIrq d bitmask => exact consistent_subscribeAvailableLoop h m.controllers
  | unsubscribeIrq d irq => exact consistent_unsubscribeIrq h
  | unsubscribeAllIrqs d =>
    rw [Machine.step, consistent_leave h view_unsubscribeAllIrqs]
    rfl
  | subscribePci d device =>
    refine iff_of_true (h.congr fun v => ?_) trivial
    simp only [Machine.step, subscribePci]
    split
    · rfl
    · split <;> rfl
  | subscribeIoPort d ioPort =>
    refine iff_of_true (h.congr fun v => ?_) trivial
    simp only [Machine.step, subscribeIoPort]
    split
    · rfl
    · split <;> rfl
  | unsubscribePci d device => exact iff_of_true h trivial
  | unsubscribeAllPci d => exact iff_of_true h trivial
  | unsubscribeIoPort d ioPort => exact iff_of_true h trivial
  | unsubscribeAllIoPort d => exact iff_of_true h trivial
  | configure c range offset => exact iff_of_true h trivial

theorem consistent_new (controllers : List (Fin n)) : Consistent (new controllers) :=
  fun _ => Line.consistent_new n

/-- **A run keeps the masks and the arrays in step exactly when all its
steps are sound.** -/
theorem consistent_run_iff (controllers : List (Fin n)) (ops : List (Op n)) :
    Throughout (step T layout) Consistent (.new controllers) ops ↔
      Along (step T layout) Sound (.new controllers) ops :=
  throughout_iff_along (consistent_new controllers) (fun _ _ h => consistent_step_iff h) ops

/-- A controller of all irqs gives a driver irq 5, the only one it may
have, twice. And of two drivers subscribed to irq 5 the first to
unsubscribe stays in the array. -/
theorem not_consistent_run :
    ¬ Throughout (step .x86_32 ⟨0, 0⟩) Consistent (new (n := 2) [0])
        [.configure 0 (0, 15) (32, 40), .subscribeAvailableIrq 1 (· = 5),
          .subscribeAvailableIrq 1 (· = 5)] ∧
      ¬ Throughout (step .x86_32 ⟨0, 0⟩) Consistent (new (n := 3) [0])
        [.configure 0 (0, 15) (32, 40), .subscribeIrq 1 5, .subscribeIrq 2 5,
          .unsubscribeIrq 1 5] := by
  constructor
  · intro h
    -- it is there twice
    exact absurd (h.last 5 1) (by decide +kernel)
  · intro h
    -- its bit is not set
    exact absurd (h.last 5 1) (by decide +kernel)

end Machine

end Uberos
