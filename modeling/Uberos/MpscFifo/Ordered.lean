import Uberos.Library.Neighbours
import Uberos.Library.Run
import Uberos.MpscFifo.Model
/-!
# What goes in comes out, in order

The items that are not popped yet follow `out_` in the order of their
exchanges. Of two that follow each other the link is stored, or the push
of the second is between its two steps. The consumer passes a link only
once it is stored, so it pops the items in their order, and deletes an
item only when the one producer that would write to it has.
-/

namespace Uberos

namespace MpscFifo

open Library

variable {P α : Type*} {f f' : MpscFifo P α} {rest : List ℕ} {p q : P}
variable {item oldIn : ℕ} {data : α}

/-! ## The chain -/

/-- The items from `out_` on, or from the next one on while `out_` is
deleted. -/
def nodes (f : MpscFifo P α) (rest : List ℕ) : List ℕ :=
  match f.consumer with
  | .deleted _ => rest
  | _ => f.out_ :: rest

/-- The link is stored, or about to be. -/
def Joined (f : MpscFifo P α) (a b : ℕ) : Prop :=
  f.next a = some b ∨ f.next a = none ∧ ∃ p, f.producer p = .exchanged b a

/-- What the consumer has seen is still so. -/
def Seen (f : MpscFifo P α) (rest : List ℕ) : Prop :=
  match f.consumer with
  | .idle => True
  | .loadedIn => rest ≠ []
  | .loadedNext item => f.next f.out_ = some item
  | .deleted item => rest.head? = some item

/-- **The items that are not popped yet**, from `out_` to `in_`. -/
structure Ordered (f : MpscFifo P α) (rest : List ℕ) : Prop where
  nodup : (f.nodes rest).Nodup
  live : ∀ n ∈ f.nodes rest, f.heap n ≠ none
  last : (f.nodes rest).getLast? = some f.in_
  unlinked : f.next f.in_ = none
  joined : ∀ a b, Adjacent (f.nodes rest) a b → f.Joined a b
  exchanged : ∀ p item oldIn, f.producer p = .exchanged item oldIn →
    Adjacent (f.nodes rest) oldIn item ∧ f.next oldIn = none
  exchangedOnce : ∀ p q item item' oldIn, f.producer p = .exchanged item oldIn →
    f.producer q = .exchanged item' oldIn → p = q
  created : ∀ p item, f.producer p = .created item →
    f.heap item ≠ none ∧ f.next item = none ∧ item ∉ f.nodes rest
  createdOnce : ∀ p q item, f.producer p = .created item → f.producer q = .created item → p = q
  seen : f.Seen rest
  items : f.pushed = f.popped ++ rest.map f.entry
  valid : (∀ item, f.consumer ≠ .deleted item) →
    ∀ e, f.popped.getLast? = some e → f.entry f.out_ = e

theorem ordered_new (P : Type*) (item : ℕ) (data : α) :
    Ordered (new P item data) [] where
  nodup := List.nodup_singleton item
  live n hn := by
    rw [List.mem_singleton.1 hn]
    simp [new]
  last := rfl
  unlinked := by simp [new, next]
  joined a b hab := absurd hab not_adjacent_singleton
  exchanged p i o h := nomatch h
  exchangedOnce p q i i' o h := nomatch h
  created p i h := nomatch h
  createdOnce p q i h := nomatch h
  seen := trivial
  items := rfl
  valid _ e he := nomatch he

/-! ## What a write leaves alone -/

theorem next_congr (h : f'.heap item = f.heap item) : f'.next item = f.next item := by
  rw [next, next, h]

theorem entry_congr (h : f'.heap item = f.heap item) : f'.entry item = f.entry item := by
  rw [entry, entry, h]

theorem next_of_none (h : f.heap item = none) : f.next item = none := by
  rw [next, h]
  rfl

/-- Entries of items that are left alone are left alone. -/
theorem map_entry_congr (h : ∀ n ∈ rest, f'.entry n = f.entry n) :
    rest.map f'.entry = rest.map f.entry := List.map_congr_left h

theorem setNext_of_ne {heap : ℕ → Option (FifoItem α)} {n : ℕ} (hn : n ≠ oldIn) :
    setNext heap oldIn item n = heap n := Function.update_of_ne hn _ _

theorem setNext_eq_none_iff {heap : ℕ → Option (FifoItem α)} {n : ℕ} :
    setNext heap oldIn item n = none ↔ heap n = none := by
  by_cases hn : n = oldIn
  · rw [hn, setNext, Function.update_self, Option.map_eq_none_iff]
  · rw [setNext_of_ne hn]

theorem setNext_map_data {heap : ℕ → Option (FifoItem α)} {n : ℕ} :
    (setNext heap oldIn item n).map FifoItem.data = (heap n).map FifoItem.data := by
  by_cases hn : n = oldIn
  · rw [hn, setNext, Function.update_self, Option.map_map]
    rfl
  · rw [setNext_of_ne hn]

theorem mem_nodes_of_mem (h : item ∈ rest) : item ∈ f.nodes rest := by
  unfold nodes
  split
  · exact h
  · exact List.mem_cons_of_mem _ h

/-- Before `out_` is deleted the items start with it. -/
theorem nodes_eq (h : ∀ item, f.consumer ≠ .deleted item) : f.nodes rest = f.out_ :: rest := by
  unfold nodes
  split
  · exact absurd ‹_› (h _)
  · rfl

/-! ## The consumer's steps -/

/-- The consumer's place changes, and what is queued does not. -/
theorem Ordered.at {place : Pop} (h : Ordered f rest) (hdeleted : ∀ item, f.consumer ≠ .deleted item)
    (hplace : ∀ item, place ≠ .deleted item) (hseen : Seen { f with consumer := place } rest) :
    Ordered { f with consumer := place } rest := by
  have hnodes : nodes { f with consumer := place } rest = f.nodes rest := by
    rw [nodes_eq hdeleted]
    exact nodes_eq hplace
  refine ⟨?_, ?_, ?_, h.unlinked, ?_, ?_, h.exchangedOnce, ?_, h.createdOnce, hseen, h.items,
    fun _ => h.valid hdeleted⟩ <;> rw [hnodes]
  · exact h.nodup
  · exact h.live
  · exact h.last
  · exact h.joined
  · exact h.exchanged
  · exact h.created

/-- Nothing is queued exactly where `out_` is `in_`. -/
theorem Ordered.rest_eq_nil_iff (h : Ordered f rest) (hdeleted : ∀ item, f.consumer ≠ .deleted item) :
    rest = [] ↔ f.out_ = f.in_ := by
  have hlast := h.last
  have hnodup := h.nodup
  rw [nodes_eq hdeleted] at hlast hnodup
  constructor
  · rintro rfl
    exact Option.some.inj hlast
  · intro heq
    rcases rest with - | ⟨a, rest⟩
    · rfl
    · rw [List.getLast?_cons_cons, ← heq] at hlast
      exact absurd (List.mem_of_getLast? hlast) (List.nodup_cons.1 hnodup).1

/-- **The next item** is the one `out_` is linked to, or the push of it is
between its two steps. -/
theorem Ordered.joined_out (h : Ordered f (item :: rest))
    (hdeleted : ∀ item, f.consumer ≠ .deleted item) : f.Joined f.out_ item :=
  h.joined _ _ (nodes_eq hdeleted ▸ adjacent_cons_cons)

/-- A link of `out_` is to the next item. -/
theorem Ordered.eq_cons (h : Ordered f rest) (hdeleted : ∀ item, f.consumer ≠ .deleted item)
    (hlink : f.next f.out_ = some item) : ∃ rest', rest = item :: rest' := by
  rcases rest with - | ⟨a, rest⟩
  · have hunlinked := h.unlinked
    rw [← (h.rest_eq_nil_iff hdeleted).1 rfl, hlink] at hunlinked
    cases hunlinked
  · rcases h.joined_out hdeleted with ha | ⟨hnone, -⟩
    · rw [hlink, Option.some.injEq] at ha
      exact ⟨rest, by rw [ha]⟩
    · rw [hlink] at hnone
      cases hnone

/-- **The deletion** takes `out_` from the items, all of which stay. -/
theorem Ordered.delete (h : Ordered f rest) (hconsumer : f.consumer = .loadedNext item) :
    Ordered { f with
      heap := Function.update f.heap f.out_ none
      consumer := .deleted item } rest := by
  have hdeleted : ∀ item, f.consumer ≠ .deleted item := by simp [hconsumer]
  have hlink : f.next f.out_ = some item := by
    have hseen := h.seen
    unfold Seen at hseen
    rwa [hconsumer] at hseen
  obtain ⟨rest, rfl⟩ := h.eq_cons hdeleted hlink
  have hnodup := h.nodup
  have hlive := h.live
  have hlast := h.last
  rw [nodes_eq hdeleted] at hnodup hlive hlast
  have hnext : ∀ n ≠ f.out_, next { f with
      heap := Function.update f.heap f.out_ none
      consumer := .deleted item } n = f.next n := fun n hn =>
    next_congr (Function.update_of_ne hn _ _)
  have hne : ∀ n ∈ item :: rest, n ≠ f.out_ := fun n hn hcon =>
    (List.nodup_cons.1 hnodup).1 (hcon ▸ hn)
  have hold : ∀ n, f.next n = none → n ≠ f.out_ := by
    intro n hn hcon
    rw [hcon, hlink] at hn
    cases hn
  refine ⟨(List.nodup_cons.1 hnodup).2, fun n hn => ?_, List.getLast?_cons_cons ▸ hlast,
    (hnext _ (hold _ h.unlinked)).trans h.unlinked, fun a b hab => ?_, fun p i o hp => ?_,
    h.exchangedOnce, fun p i hp => ?_, h.createdOnce, rfl, ?_, fun hcon => absurd rfl (hcon item)⟩
  · have heap : Function.update f.heap f.out_ none n = f.heap n :=
      Function.update_of_ne (hne n hn) _ _
    exact heap.trans_ne (hlive n (List.mem_cons_of_mem _ hn))
  · have hab' : Adjacent (f.nodes (item :: rest)) a b := by
      rw [nodes_eq hdeleted]
      exact adjacent_cons_iff.2 (Or.inr hab)
    rcases h.joined a b hab' with hab' | ⟨hnone, hp⟩
    · exact Or.inl ((hnext a (hne a hab.mem_left)).trans hab')
    · exact Or.inr ⟨(hnext a (hne a hab.mem_left)).trans hnone, hp⟩
  · obtain ⟨hadjacent, hnone⟩ := h.exchanged p i o hp
    rw [nodes_eq hdeleted] at hadjacent
    refine ⟨?_, (hnext o (hold o hnone)).trans hnone⟩
    rcases adjacent_cons_iff.1 hadjacent with ⟨ho, -⟩ | hadjacent
    · exact absurd ho.symm (hold o hnone)
    · exact hadjacent
  · obtain ⟨hheap, hnone, hmem⟩ := h.created p i hp
    rw [nodes_eq hdeleted] at hmem
    have hi := hold i hnone
    have heap : Function.update f.heap f.out_ none i = f.heap i := Function.update_of_ne hi _ _
    exact ⟨heap.trans_ne hheap, (hnext i hi).trans hnone,
      fun hcon => hmem (List.mem_cons_of_mem _ hcon)⟩
  · rw [h.items]
    exact congrArg _ (map_entry_congr fun n hn =>
      entry_congr (Function.update_of_ne (hne n hn) _ _)).symm

/-- **The move** makes the next item `out_` and returns it. -/
theorem Ordered.advance (h : Ordered f rest) (hconsumer : f.consumer = .deleted item) :
    Ordered { f with
      out_ := item
      consumer := .idle
      popped := f.popped ++ [f.entry item] } rest.tail := by
  have hhead : rest.head? = some item := by
    have hseen := h.seen
    unfold Seen at hseen
    rwa [hconsumer] at hseen
  obtain ⟨rest, rfl⟩ := List.head?_eq_some_iff.1 hhead
  have hnodes : nodes { f with
      out_ := item
      consumer := .idle
      popped := f.popped ++ [f.entry item] } rest = f.nodes (item :: rest) := by
    unfold nodes
    rw [hconsumer]
  refine ⟨?_, ?_, ?_, h.unlinked, ?_, ?_, h.exchangedOnce, ?_, h.createdOnce, trivial, ?_,
    fun _ e he => ?_⟩
  · rw [List.tail_cons, hnodes]
    exact h.nodup
  · rw [List.tail_cons, hnodes]
    exact h.live
  · rw [List.tail_cons, hnodes]
    exact h.last
  · rw [List.tail_cons, hnodes]
    exact h.joined
  · rw [List.tail_cons, hnodes]
    exact h.exchanged
  · rw [List.tail_cons, hnodes]
    exact h.created
  · rw [h.items, List.map_cons, ← List.singleton_append, ← List.append_assoc]
    rfl
  · rw [List.getLast?_concat, Option.some.injEq] at he
    exact he

/-! ## What the parties may rely on -/

/-- **In every state** the items popped are a prefix of those pushed, the
link a producer is about to store is one of an item that is not deleted,
and the item returned last is where and what it was, unless the consumer
is in the middle of the next pop. -/
structure Kept (f : MpscFifo P α) : Prop where
  prefix_ : f.popped <+: f.pushed
  writable : ∀ p item oldIn, f.producer p = .exchanged item oldIn → f.heap oldIn ≠ none
  valid : (∀ item, f.consumer ≠ .deleted item) →
    f.heap f.out_ ≠ none ∧ ∀ e, f.popped.getLast? = some e → f.entry f.out_ = e

/-- **At every step** a pop returns `nullptr` only where all is popped or
the push of the next item is between its two steps, and an item is
deleted only with its link stored and no producer left to write to it. -/
def Safe (f : MpscFifo P α) (a : Action P α) : Prop :=
  (f.ReturnsNull a → f.popped = f.pushed ∨
    ∃ p item, f.producer p = .exchanged item f.out_ ∧
      f.pushed[f.popped.length]? = some (f.entry item)) ∧
  ∀ item, f.Deletes item a → (∃ next, f.next item = some next) ∧
    ∀ p other, f.producer p ≠ .exchanged other item ∧ f.producer p ≠ .created item

theorem Ordered.kept (h : Ordered f rest) : Kept f where
  prefix_ := ⟨rest.map f.entry, h.items.symm⟩
  writable p item oldIn hp := h.live oldIn (h.exchanged p item oldIn hp).1.mem_left
  valid hdeleted := ⟨h.live _ (nodes_eq hdeleted ▸ List.mem_cons_self), h.valid hdeleted⟩

theorem Ordered.safe (h : Ordered f rest) (a : Action P α) : Safe f a := by
  refine ⟨fun hnull => ?_, fun item hdelete => ?_⟩
  · cases a with
    | loadIn =>
      obtain ⟨hidle, heq⟩ := hnull
      have hnil := (h.rest_eq_nil_iff (by simp [hidle])).2 heq
      left
      rw [h.items, hnil, List.map_nil, List.append_nil]
    | loadNext =>
      obtain ⟨hloaded, hnone⟩ := hnull
      have hdeleted : ∀ item, f.consumer ≠ .deleted item := by simp [hloaded]
      have hseen := h.seen
      unfold Seen at hseen
      rw [hloaded] at hseen
      obtain ⟨item, rest, rfl⟩ := List.exists_cons_of_ne_nil hseen
      rcases h.joined_out hdeleted with hlink | ⟨-, p, hp⟩
      · rw [hnone] at hlink
        cases hlink
      · refine Or.inr ⟨p, item, hp, ?_⟩
        rw [h.items]
        simp
    | _ => exact hnull.elim
  · cases a with
    | delete =>
      obtain ⟨rfl, item, hloaded⟩ := hdelete
      have hseen := h.seen
      unfold Seen at hseen
      rw [hloaded] at hseen
      refine ⟨⟨item, hseen⟩, fun p other => ⟨fun hp => ?_, fun hp => ?_⟩⟩
      · rw [(h.exchanged p other _ hp).2] at hseen
        cases hseen
      · rw [(h.created p _ hp).2.1] at hseen
        cases hseen
    | _ => exact hdelete.elim

/-! ## The producers' steps -/

variable [DecidableEq P]

/-- A producer that is not in the middle of a push and stays out of it. -/
theorem exchanged_update_iff {v : Push} {i o : ℕ} (hv : ∀ i o, v ≠ .exchanged i o)
    (hp : ∀ i o, f.producer p ≠ .exchanged i o) :
    Function.update f.producer p v q = .exchanged i o ↔ f.producer q = .exchanged i o := by
  by_cases hq : q = p
  · rw [hq, Function.update_self]
    exact iff_of_false (hv i o) (hp i o)
  · rw [Function.update_of_ne hq]

/-- **What one producer at most has, one at most has after a step** of one
of them, which gets it only if no other has it. -/
theorem update_once {v : Push} {R : Push → Prop}
    (honce : ∀ q q', R (f.producer q) → R (f.producer q') → q = q')
    (hnew : R v → ∀ q, ¬ R (f.producer q)) {q q' : P}
    (hq : R (Function.update f.producer p v q))
    (hq' : R (Function.update f.producer p v q')) : q = q' := by
  by_cases hqp : q = p
  · by_cases hqp' : q' = p
    · rw [hqp, hqp']
    · rw [hqp, Function.update_self] at hq
      rw [Function.update_of_ne hqp'] at hq'
      exact absurd hq' (hnew hq q')
  · rw [Function.update_of_ne hqp] at hq
    by_cases hqp' : q' = p
    · rw [hqp', Function.update_self] at hq'
      exact absurd hq (hnew hq' q)
    · rw [Function.update_of_ne hqp'] at hq'
      exact honce q q' hq hq'

/-- An item that no one else knows joins the heap. -/
theorem Ordered.create (h : Ordered f rest) (hidle : f.producer p = .idle)
    (hfree : f.heap item = none) :
    Ordered { f with
      heap := Function.update f.heap item (some ⟨data, none⟩)
      producer := Function.update f.producer p (.created item) } rest := by
  have hne : ∀ n, f.heap n ≠ none → n ≠ item := fun n hn hcon => hn (hcon ▸ hfree)
  have hheap : ∀ n, f.heap n ≠ none →
      Function.update f.heap item (some ⟨data, none⟩) n = f.heap n := fun n hn =>
    Function.update_of_ne (hne n hn) _ _
  have hnext : ∀ n, next { f with
      heap := Function.update f.heap item (some ⟨data, none⟩)
      producer := Function.update f.producer p (.created item) } n = f.next n := by
    intro n
    by_cases hn : f.heap n = none
    · rw [next_of_none hn]
      by_cases hitem : n = item
      · simp [next, hitem]
      · exact next_of_none ((Function.update_of_ne hitem _ _).trans hn)
    · exact next_congr (hheap n hn)
  have hexchanged : ∀ q i o, Function.update f.producer p (.created item) q = .exchanged i o ↔
      f.producer q = .exchanged i o := fun q i o =>
    exchanged_update_iff (fun _ _ => Push.noConfusion) (fun _ _ => hidle ▸ Push.noConfusion)
  refine ⟨h.nodup, fun n hn => ?_, h.last, (hnext _).trans h.unlinked, fun a b hab => ?_,
    fun q i o hq => ?_, fun q q' i i' o hq hq' => ?_, fun q i hq => ?_, fun q q' i hq hq' => ?_,
    ?_, ?_, fun hdeleted e he => ?_⟩
  · exact (hheap n (h.live n hn)).trans_ne (h.live n hn)
  · rcases h.joined a b hab with hlink | ⟨hnone, q, hq⟩
    · exact Or.inl ((hnext a).trans hlink)
    · exact Or.inr ⟨(hnext a).trans hnone, q, (hexchanged q b a).2 hq⟩
  · obtain ⟨hadjacent, hnone⟩ := h.exchanged q i o ((hexchanged q i o).1 hq)
    exact ⟨hadjacent, (hnext o).trans hnone⟩
  · exact h.exchangedOnce q q' i i' o ((hexchanged q i o).1 hq) ((hexchanged q' i' o).1 hq')
  · by_cases hqp : q = p
    · simp only [hqp, Function.update_self, Push.created.injEq] at hq
      subst hq
      refine ⟨by simp, (hnext item).trans (next_of_none hfree), fun hmem => ?_⟩
      exact h.live item hmem hfree
    · simp only [Function.update_of_ne hqp] at hq
      obtain ⟨hlive, hnone, hmem⟩ := h.created q i hq
      exact ⟨(hheap i hlive).trans_ne hlive, (hnext i).trans hnone, hmem⟩
  · refine update_once (R := (· = .created i)) (fun q q' => h.createdOnce q q' i)
      (fun hv q hq => ?_) hq hq'
    -- another producer's item was live already
    rw [Push.created.injEq] at hv
    exact (h.created q i hq).1 (hv ▸ hfree)
  · have hseen := h.seen
    unfold Seen at hseen ⊢
    dsimp only
    split <;> simp_all
  · rw [h.items]
    refine congrArg _ (map_entry_congr fun n hn => ?_).symm
    exact entry_congr (hheap n (h.live n (mem_nodes_of_mem hn)))
  · rw [← h.valid hdeleted e he]
    exact entry_congr (hheap _ (h.live _ (nodes_eq hdeleted ▸ List.mem_cons_self)))

/-- **The exchange** puts the item last. Its link from the item that was
last is missing. -/
theorem Ordered.exchange (h : Ordered f rest) (hcreated : f.producer p = .created item) :
    Ordered { f with
      in_ := item
      producer := Function.update f.producer p (.exchanged item f.in_)
      pushed := f.pushed ++ [f.entry item] } (rest ++ [item]) := by
  obtain ⟨hlive, hnone, hmem⟩ := h.created p item hcreated
  have hnodes : nodes { f with
      in_ := item
      producer := Function.update f.producer p (.exchanged item f.in_)
      pushed := f.pushed ++ [f.entry item] } (rest ++ [item]) = f.nodes rest ++ [item] := by
    unfold nodes
    dsimp only
    split <;> rfl
  have hother : ∀ q i o, f.producer q = .exchanged i o →
      Function.update f.producer p (.exchanged item f.in_) q = .exchanged i o := by
    intro q i o hq
    have hqp : q ≠ p := by
      intro hcon
      rw [hcon, hcreated] at hq
      cases hq
    rw [Function.update_of_ne hqp, hq]
  -- no push but this one follows the item that was last
  have hlast : ∀ q i, f.producer q ≠ .exchanged i f.in_ := fun q i hq =>
    (h.exchanged q i f.in_ hq).1.ne_last h.nodup h.last
  refine ⟨?_, ?_, ?_, hnone, ?_, fun q i o hq => ?_, fun q q' i i' o hq hq' => ?_,
    fun q i hq => ?_, fun q q' i hq hq' => ?_, ?_, ?_, fun hdeleted e he => h.valid hdeleted e he⟩
  · rw [hnodes]
    exact List.nodup_append.2 ⟨h.nodup, List.nodup_singleton item, fun a ha b hb hab =>
      hmem (List.mem_singleton.1 hb ▸ hab ▸ ha)⟩
  · rw [hnodes]
    intro n hn
    rcases List.mem_append.1 hn with hn | hn
    · exact h.live n hn
    · exact List.mem_singleton.1 hn ▸ hlive
  · rw [hnodes]
    exact List.getLast?_concat
  · rw [hnodes]
    intro a b hab
    rcases adjacent_concat_iff.1 hab with hab | ⟨ha, rfl⟩
    · rcases h.joined a b hab with hlink | ⟨hlink, q, hq⟩
      · exact Or.inl hlink
      · exact Or.inr ⟨hlink, q, hother q b a hq⟩
    · rw [h.last, Option.some.injEq] at ha
      subst ha
      exact Or.inr ⟨h.unlinked, p, Function.update_self ..⟩
  · rw [hnodes]
    by_cases hqp : q = p
    · simp only [hqp, Function.update_self, Push.exchanged.injEq] at hq
      obtain ⟨rfl, rfl⟩ := hq
      exact ⟨adjacent_concat_iff.2 (Or.inr ⟨h.last, rfl⟩), h.unlinked⟩
    · simp only [Function.update_of_ne hqp] at hq
      obtain ⟨hadjacent, hlink⟩ := h.exchanged q i o hq
      exact ⟨adjacent_concat_iff.2 (Or.inl hadjacent), hlink⟩
  · refine update_once (R := fun v => ∃ i, v = .exchanged i o) ?_ ?_ ⟨i, hq⟩ ⟨i', hq'⟩
    · rintro q q' ⟨i, hq⟩ ⟨i', hq'⟩
      exact h.exchangedOnce q q' i i' o hq hq'
    · rintro ⟨_, hv⟩ q ⟨j, hq⟩
      rw [Push.exchanged.injEq] at hv
      exact hlast q j (hv.2 ▸ hq)
  · rw [hnodes]
    have hqp : q ≠ p := fun hcon => by simp [hcon] at hq
    simp only [Function.update_of_ne hqp] at hq
    obtain ⟨hlive', hnone', hmem'⟩ := h.created q i hq
    refine ⟨hlive', hnone', fun hi => ?_⟩
    rcases List.mem_append.1 hi with hi | hi
    · exact hmem' hi
    · exact hqp (h.createdOnce q p i hq (List.mem_singleton.1 hi ▸ hcreated))
  · refine update_once (R := (· = .created i)) (fun q q' => h.createdOnce q q' i)
      (fun hv => ?_) hq hq'
    cases hv
  · have hseen := h.seen
    unfold Seen at hseen ⊢
    dsimp only
    split <;> simp_all [next]
  · simp only [h.items, List.map_append, List.map_cons, List.map_nil, List.append_assoc]
    rfl

/-- **The store** joins the item to the one before it. -/
theorem Ordered.store (h : Ordered f rest) (hexchanged : f.producer p = .exchanged item oldIn) :
    Ordered { f with
      heap := setNext f.heap oldIn item
      producer := Function.update f.producer p .idle } rest := by
  obtain ⟨hadjacent, hnone⟩ := h.exchanged p item oldIn hexchanged
  have hlive := h.live oldIn hadjacent.mem_left
  have hself : next { f with
      heap := setNext f.heap oldIn item
      producer := Function.update f.producer p .idle } oldIn = some item := by
    obtain ⟨i, hi⟩ := Option.ne_none_iff_exists'.1 hlive
    simp [next, setNext, hi]
  have hnext : ∀ n ≠ oldIn, next { f with
      heap := setNext f.heap oldIn item
      producer := Function.update f.producer p .idle } n = f.next n := fun n hn =>
    next_congr (setNext_of_ne hn)
  have hentry : ∀ n, entry { f with
      heap := setNext f.heap oldIn item
      producer := Function.update f.producer p .idle } n = f.entry n := by
    intro n
    simp only [entry, setNext_map_data]
  have hproducer : ∀ q, q ≠ p → Function.update f.producer p .idle q = f.producer q := fun q hq =>
    Function.update_of_ne hq _ _
  have hold : ∀ n, f.next n ≠ none → n ≠ oldIn := fun n hn hcon => hn (hcon ▸ hnone)
  refine ⟨h.nodup, fun n hn => ?_, h.last, ?_, fun a b hab => ?_, fun q i o hq => ?_,
    fun q q' i i' o hq hq' => ?_, fun q i hq => ?_, fun q q' i hq hq' => ?_, ?_, ?_,
    fun hdeleted e he => ?_⟩
  · exact fun hcon => h.live n hn (setNext_eq_none_iff.1 hcon)
  · have hne : f.in_ ≠ oldIn := fun hcon => hadjacent.ne_last h.nodup (hcon ▸ h.last)
    rw [hnext _ hne, h.unlinked]
  · by_cases ha : a = oldIn
    · subst ha
      rw [hab.right_unique hadjacent h.nodup]
      exact Or.inl hself
    · rcases h.joined a b hab with hlink | ⟨hlink, q, hq⟩
      · exact Or.inl ((hnext a ha).trans hlink)
      · refine Or.inr ⟨(hnext a ha).trans hlink, q, ?_⟩
        refine (hproducer q fun hcon => ha ?_).trans hq
        rw [hcon, hexchanged] at hq
        injection hq with _ hq
        exact hq.symm
  · have hqp : q ≠ p := fun hcon => by simp [hcon] at hq
    replace hq := (hproducer q hqp).symm.trans hq
    obtain ⟨hadjacent', hnone'⟩ := h.exchanged q i o hq
    have ho : o ≠ oldIn := fun hcon => hqp (h.exchangedOnce q p i item o hq (hcon ▸ hexchanged))
    exact ⟨hadjacent', (hnext o ho).trans hnone'⟩
  · refine update_once (R := fun v => ∃ i, v = .exchanged i o) ?_ ?_ ⟨i, hq⟩ ⟨i', hq'⟩
    · rintro q q' ⟨i, hq⟩ ⟨i', hq'⟩
      exact h.exchangedOnce q q' i i' o hq hq'
    · rintro ⟨_, hv⟩
      cases hv
  · have hqp : q ≠ p := fun hcon => by simp [hcon] at hq
    replace hq := (hproducer q hqp).symm.trans hq
    obtain ⟨hlive', hnone', hmem'⟩ := h.created q i hq
    have hi : i ≠ oldIn := fun hcon => hmem' (hcon ▸ hadjacent.mem_left)
    exact ⟨fun hcon => hlive' (setNext_eq_none_iff.1 hcon), (hnext i hi).trans hnone', hmem'⟩
  · refine update_once (R := (· = .created i)) (fun q q' => h.createdOnce q q' i)
      (fun hv => ?_) hq hq'
    cases hv
  · have hseen := h.seen
    unfold Seen at hseen ⊢
    dsimp only
    split
    · trivial
    · simpa [*] using hseen
    · rename_i n hconsumer
      rw [hconsumer] at hseen
      rw [hnext f.out_ (hold _ (by simp [hseen])), hseen]
    · simpa [*] using hseen
  · rw [h.items]
    exact congrArg _ (map_entry_congr fun n _ => hentry n).symm
  · rw [← h.valid hdeleted e he]
    exact hentry _

/-! ## Runs -/

/-- **The step lemma.** -/
theorem Ordered.step (h : Ordered f rest) (a : Action P α) : ∃ rest', Ordered (f.step a) rest' := by
  cases a with
  | create p item data =>
    unfold MpscFifo.step
    dsimp only
    split
    · rename_i hidle hfree
      exact ⟨rest, h.create hidle hfree⟩
    · exact ⟨rest, h⟩
  | exchange p =>
    unfold MpscFifo.step
    dsimp only
    split
    · rename_i item hcreated
      exact ⟨rest ++ [item], h.exchange hcreated⟩
    · exact ⟨rest, h⟩
  | store p =>
    unfold MpscFifo.step
    dsimp only
    split
    · rename_i item oldIn hexchanged
      exact ⟨rest, h.store hexchanged⟩
    · exact ⟨rest, h⟩
  | loadIn =>
    unfold MpscFifo.step
    dsimp only
    split
    · rename_i hidle
      have hdeleted : ∀ item, f.consumer ≠ .deleted item := by simp [hidle]
      split
      · exact ⟨rest, h⟩
      · rename_i hne
        exact ⟨rest, h.at hdeleted (by simp) fun hnil => hne ((h.rest_eq_nil_iff hdeleted).1 hnil)⟩
    · exact ⟨rest, h⟩
  | loadNext =>
    unfold MpscFifo.step
    dsimp only
    split
    · rename_i hloaded
      have hdeleted : ∀ item, f.consumer ≠ .deleted item := by simp [hloaded]
      split
      · exact ⟨rest, h.at hdeleted (by simp) trivial⟩
      · rename_i item hlink
        exact ⟨rest, h.at hdeleted (by simp) hlink⟩
    · exact ⟨rest, h⟩
  | delete =>
    unfold MpscFifo.step
    dsimp only
    split
    · rename_i item hloaded
      exact ⟨rest, h.delete hloaded⟩
    · exact ⟨rest, h⟩
  | advance =>
    unfold MpscFifo.step
    dsimp only
    split
    · rename_i item hdeleted
      exact ⟨rest.tail, h.advance hdeleted⟩
    · exact ⟨rest, h⟩

end MpscFifo

end Uberos
