import Uberos.EventEmitter.Model
/-!
# A trigger calls what was subscribed at its start

A trigger entered by another walks a copy of its own. The outermost walks
`callableSubscribers`, which is assigned only by a trigger that finds none
running, so nothing replaces it under the walk; and the assignment is left
out only where the generation says that the subscribers are those of the
last one. Edits change the subscribers and their generation, and nothing
that is being walked.
-/

namespace Uberos

namespace EventEmitter

open Library

variable {Callback Data Payload : Type*} [DecidableEq Callback] [DecidableEq Data]
variable {e e' : EventEmitter Callback Data} {t : Trigger Callback Data Payload}
variable {d d' : Delivery Callback Data Payload} {op : Op Callback Data Payload}

/-! ## What it is for -/

/-- The calls of subscriptions, in their order. -/
def calls (payload : Payload) (subscriptions : List (Subscription Callback Data)) :
    List (Call Callback Data Payload) :=
  subscriptions.map fun subscription => ⟨subscription.callback, payload, subscription.data⟩

/-- **Every trigger that has ended has called what was subscribed at its
start**, each once and in order, and one that runs the first of it. No
step has read a buffer that was deleted. -/
def Delivered (s : Option (Delivery Callback Data Payload)) : Prop :=
  ∃ d, s = some d ∧ (∀ t ∈ d.ended, t.called = calls t.payload t.present) ∧
    ∀ t ∈ d.running, t.position ≤ t.present.length ∧
      t.called = calls t.payload (t.present.take t.position)

/-! ## The invariant -/

/-- **A walk over what was subscribed when it started**, in its own copy
or in the buffer the emitter still has. -/
structure Walks (e : EventEmitter Callback Data) (t : Trigger Callback Data Payload) : Prop where
  stop : t.stop = t.present.length
  position : t.position ≤ t.stop
  called : t.called = calls t.payload (t.present.take t.position)
  copy : ∀ copy ∈ t.copy, copy = t.present
  data : t.copy = none → t.data = e.callableData ∧ e.callableSubscribers = t.present

/-- The generation is ahead of the one last taken, or the subscribers are
those taken then; the walks are sound; and the one without a copy, if
any, is known. -/
structure Kept (d : Delivery Callback Data Payload) : Prop where
  taken : d.emitter.callableSubscribersGeneration ≤ d.emitter.subscribersGeneration
  fresh : d.emitter.callableSubscribersGeneration = d.emitter.subscribersGeneration →
    d.emitter.callableSubscribers = d.emitter.subscribers
  walks : ∀ t ∈ d.running, Walks d.emitter t
  outermost : d.running.countP (fun t => t.copy.isNone) = if d.emitter.isTriggering then 1 else 0
  ended : ∀ t ∈ d.ended, t.called = calls t.payload t.present

omit [DecidableEq Callback] [DecidableEq Data] in
theorem Kept.delivered (h : Kept d) : Delivered (some d) := by
  refine ⟨d, rfl, h.ended, fun t ht => ?_⟩
  have hwalks := h.walks t ht
  exact ⟨hwalks.stop ▸ hwalks.position, hwalks.called⟩

omit [DecidableEq Callback] [DecidableEq Data] in
/-- A walk depends on what is walked. -/
theorem Walks.congr (h : Walks e t)
    (hsame : t.copy = none → e'.callableData = e.callableData ∧
      e'.callableSubscribers = e.callableSubscribers) : Walks e' t where
  stop := h.stop
  position := h.position
  called := h.called
  copy := h.copy
  data hnone := by
    rw [(hsame hnone).1, (hsame hnone).2]
    exact h.data hnone

/-! ## One step -/

omit [DecidableEq Callback] [DecidableEq Data] in
/-- **An edit is one generation on**, and leaves what is walked. -/
theorem Kept.edit (h : Kept d) (hgeneration : d.emitter.subscribersGeneration + 1 < 2 ^ 32)
    (subscribers : List (Subscription Callback Data)) :
    Kept { d with emitter :=
      { d.emitter with
        subscribers := subscribers
        subscribersGeneration := (d.emitter.subscribersGeneration + 1) % 2 ^ 32 } } := by
  have htaken := h.taken
  have hnext := Nat.mod_eq_of_lt hgeneration
  refine ⟨?_, fun heq => ?_, fun t ht => (h.walks t ht).congr fun _ => ⟨rfl, rfl⟩, h.outermost,
    h.ended⟩
  · show d.emitter.callableSubscribersGeneration ≤ (d.emitter.subscribersGeneration + 1) % 2 ^ 32
    omega
  · have heq' : d.emitter.callableSubscribersGeneration =
        (d.emitter.subscribersGeneration + 1) % 2 ^ 32 := heq
    omega

omit [DecidableEq Callback] [DecidableEq Data] in
/-- **After `refresh` what can be called is what is subscribed.** -/
theorem refresh_eq (hfresh : e.callableSubscribersGeneration = e.subscribersGeneration →
    e.callableSubscribers = e.subscribers) :
    ∃ data, e.refresh = { e with
      callableSubscribers := e.subscribers
      callableData := data
      callableSubscribersGeneration := e.subscribersGeneration } := by
  rw [refresh]
  split
  · exact ⟨_, rfl⟩
  · rename_i hsame
    have heq := (not_not.1 hsame).symm
    have hcontents := hfresh heq
    refine ⟨e.callableData, ?_⟩
    cases e
    simp_all

omit [DecidableEq Callback] [DecidableEq Data] in
/-- A trigger that starts has called nothing. -/
theorem walks_start (payload : Payload) (present : List (Subscription Callback Data))
    {copy : Option (List (Subscription Callback Data))} {data : ℕ}
    (hcopy : ∀ c ∈ copy, c = present)
    (hdata : copy = none → data = e.callableData ∧ e.callableSubscribers = present) :
    Walks e { payload := payload, copy := copy, data := data, position := 0,
              stop := present.length, present := present, called := [] } :=
  ⟨rfl, Nat.zero_le _, rfl, hcopy, hdata⟩

omit [DecidableEq Callback] [DecidableEq Data] in
/-- **A trigger starts**: within another with a copy, and else with the
buffer nobody walks. -/
theorem Kept.trigger (h : Kept d) (payload : Payload) :
    Kept { d with
      emitter := (d.emitter.trigger payload).1
      running := (d.emitter.trigger payload).2 :: d.running } := by
  rw [EventEmitter.trigger]
  split
  · rename_i htriggering
    have hwalks : Walks d.emitter { payload := payload, copy := some d.emitter.subscribers, data := 0,
                                    position := 0, stop := d.emitter.subscribers.length,
                                    present := d.emitter.subscribers, called := [] } := by
      refine walks_start payload _ (fun c hc => ?_) fun hnone => ?_
      · exact (Option.some.inj hc).symm
      · cases hnone
    refine ⟨h.taken, h.fresh, List.forall_mem_cons.2 ⟨hwalks, h.walks⟩, ?_, h.ended⟩
    rw [← h.outermost, List.countP_cons]
    rfl
  · rename_i htriggering
    rw [Bool.not_eq_true] at htriggering
    obtain ⟨data, hrefresh⟩ := refresh_eq (e := { d.emitter with isTriggering := true }) h.fresh
    have hnobody := h.outermost
    rw [htriggering, if_neg Bool.false_ne_true, List.countP_eq_zero] at hnobody
    simp only [hrefresh]
    refine ⟨Nat.le_refl _, fun _ => rfl, List.forall_mem_cons.2 ⟨?_, fun t ht => ?_⟩, ?_, h.ended⟩
    · refine walks_start payload _ (fun c hc => ?_) fun _ => ⟨rfl, rfl⟩
      cases hc
    · -- the others walk copies
      refine (h.walks t ht).congr fun hnone => absurd ?_ (hnobody t ht)
      rw [hnone]
      rfl
    · rw [List.countP_cons, List.countP_eq_zero.2 hnobody]
      rfl

omit [DecidableEq Callback] [DecidableEq Data] in
/-- **A walk that is not at its end reads the next of what was
subscribed.** -/
theorem Walks.read (h : Walks e t) (hposition : t.position ≠ t.stop) :
    ∃ subscription, e.read t = some subscription ∧ Walks e (call t subscription) := by
  have hlt : t.position < t.present.length := by
    have hle := h.position
    have hstop := h.stop
    omega
  have hread : e.read t = some t.present[t.position] := by
    rw [EventEmitter.read]
    split
    · rename_i copy hcopy
      rw [h.copy copy hcopy, List.getElem?_eq_getElem hlt]
    · rename_i hnone
      rw [if_pos (h.data hnone).1, (h.data hnone).2, List.getElem?_eq_getElem hlt]
  refine ⟨t.present[t.position], hread, h.stop, ?_, ?_, h.copy, h.data⟩
  · have hstop := h.stop
    show t.position + 1 ≤ t.stop
    omega
  · show t.called ++ _ = calls t.payload (t.present.take (t.position + 1))
    rw [h.called, List.take_succ_eq_append_getElem hlt, calls, calls, List.map_append]
    rfl

omit [DecidableEq Callback] [DecidableEq Data] in
/-- **A trigger ends**, having called all of it. -/
theorem Kept.finish {running : List (Trigger Callback Data Payload)} (h : Kept d)
    (hrunning : d.running = t :: running) (hposition : t.position = t.stop) :
    Kept ⟨d.emitter.finish t, running, t :: d.ended⟩ := by
  have hwalks := h.walks
  have houtermost := h.outermost
  rw [hrunning] at hwalks houtermost
  obtain ⟨ht, hrest⟩ := List.forall_mem_cons.1 hwalks
  have hended : t.called = calls t.payload t.present := by
    rw [ht.called, hposition, ht.stop, List.take_length]
  rw [List.countP_cons] at houtermost
  rw [EventEmitter.finish]
  split
  · rename_i copy hcopy
    refine ⟨h.taken, h.fresh, hrest, ?_, List.forall_mem_cons.2 ⟨hended, h.ended⟩⟩
    rw [← houtermost, hcopy]
    rfl
  · rename_i hnone
    refine ⟨h.taken, h.fresh, fun t' ht' => (hrest t' ht').congr fun _ => ⟨rfl, rfl⟩, ?_,
      List.forall_mem_cons.2 ⟨hended, h.ended⟩⟩
    rw [hnone] at houtermost
    simp only [Option.isNone_none, if_true] at houtermost
    have hle : (if d.emitter.isTriggering then 1 else 0) ≤ 1 := by split <;> omega
    show running.countP _ = if false = true then 1 else 0
    rw [if_neg Bool.false_ne_true]
    omega

/-! ## Runs -/

/-- **The step lemma.** -/
theorem Kept.step (h : Kept d) (hlegal : Legal (some d) op) :
    ∃ d', d.step? op = some d' ∧ Kept d' := by
  cases op with
  | subscribe subscription => exact ⟨_, rfl, h.edit (hlegal d rfl) _⟩
  | unsubscribe subscription =>
    refine ⟨_, rfl, ?_⟩
    rw [EventEmitter.unsubscribe]
    split
    · exact h.edit (hlegal d rfl) _
    · exact h
  | unsubscribeAll => exact ⟨_, rfl, h.edit (hlegal d rfl) _⟩
  | trigger payload => exact ⟨_, rfl, h.trigger payload⟩
  | call =>
    obtain ⟨t, ht, hposition⟩ := hlegal d rfl
    obtain ⟨running, hrunning⟩ := List.head?_eq_some_iff.1 ht
    have hwalks := h.walks
    have houtermost := h.outermost
    rw [hrunning] at hwalks houtermost
    -- the innermost trigger reads the next of those it started with
    obtain ⟨subscription, hread, hcalled⟩ := (hwalks t List.mem_cons_self).read hposition
    refine ⟨{ d with running := call t subscription :: running }, ?_, ?_⟩
    · simp only [Delivery.step?, hrunning, hread, Option.map_some]
    · refine ⟨h.taken, h.fresh, List.forall_mem_cons.2
        ⟨hcalled, fun t ht => hwalks t (List.mem_cons_of_mem _ ht)⟩, ?_, h.ended⟩
      rw [← houtermost, List.countP_cons, List.countP_cons]
      rfl
  | finish =>
    obtain ⟨t, ht, hposition⟩ := hlegal d rfl
    obtain ⟨running, hrunning⟩ := List.head?_eq_some_iff.1 ht
    exact ⟨_, by rw [Delivery.step?, hrunning], h.finish hrunning hposition⟩

/-- **In every run each trigger calls exactly what was subscribed at its
start**, whatever the callbacks subscribe, unsubscribe and trigger. -/
theorem delivered_run (ops : List (Op Callback Data Payload))
    (hlegal : Along step Legal start ops) : Throughout step Delivered start ops := by
  refine throughout_of_invariant (I := fun s => ∃ d, s = some d ∧ Kept d) hlegal ?_ ?_ ?_
  · refine ⟨_, rfl, Nat.le_refl _, fun _ => rfl, fun t ht => ?_, rfl, fun t ht => ?_⟩
    · cases ht
    · cases ht
  · rintro s op ⟨d, rfl, hkept⟩ hop
    exact hkept.step hop
  · rintro s ⟨d, rfl, hkept⟩
    exact hkept.delivered

/-- Of two callbacks the first unsubscribes itself, subscribes a third and
triggers; the trigger in it calls the two that are left, of which the
last leaves none, and the one around it still calls the second. -/
theorem delivered_run_nested :
    Throughout step Delivered (start : Option (Delivery ℕ Unit ℕ))
      [.subscribe ⟨1, ()⟩, .subscribe ⟨2, ()⟩, .trigger 7, .call, .unsubscribe ⟨1, ()⟩,
        .subscribe ⟨3, ()⟩, .trigger 8, .call, .call, .unsubscribeAll, .finish, .call, .finish,
        .trigger 9, .finish] :=
  delivered_run _ (by decide)

end EventEmitter

end Uberos
