import Mathlib.Algebra.Group.Nat.Defs
import Mathlib.Logic.Function.Basic
import Mathlib.Tactic.Common
/-!
# The queue of many producers and one consumer

`MpscFifo` of `common/MpscFifo.hpp`, of which any number of producers push
and one consumer pops. A push exchanges `in_` and then stores the link of
the item it found there; a pop reads `in_`, reads the link of `out_`,
deletes `out_` and moves on. Each of these is one step here, and the
steps of all parties interleave as they like. Between its two steps a
push leaves the items behind it cut off from those before it.

A step that its party is not at leaves the fifo as it is. The addresses
of items are natural numbers, and an address is taken again once the item
at it has been deleted.
-/

namespace Uberos

/-- Where a producer is. -/
inductive Push
  | idle
  /-- It has made an item, which is its own. -/
  | created (item : ℕ)
  /-- It has exchanged `in_` and not yet stored `oldIn->next`. -/
  | exchanged (item oldIn : ℕ)
  deriving DecidableEq

/-- Where the consumer is in `pop_unknown`. -/
inductive Pop
  | idle
  /-- `out_` was not `in_`. -/
  | loadedIn
  /-- `out_->next` was not null. -/
  | loadedNext (item : ℕ)
  /-- `out_` is deleted, and not yet moved. -/
  | deleted (item : ℕ)
  deriving DecidableEq

/-- `MpscFifo::Item`. -/
structure FifoItem (α : Type*) where
  data : α
  next : Option ℕ

/-- The fields of the fifo, the items that are not deleted, where each
party is, and what was pushed and popped so far. -/
structure MpscFifo (P α : Type*) where
  out_ : ℕ
  in_ : ℕ
  heap : ℕ → Option (FifoItem α)
  producer : P → Push
  consumer : Pop
  /-- The items in the order in which they were exchanged into `in_`. -/
  pushed : List (ℕ × Option α)
  /-- The items in the order in which they were returned. -/
  popped : List (ℕ × Option α)

namespace MpscFifo

/-- A step of one of the parties. -/
inductive Action (P α : Type*)
  /-- `new Item`, at an address that is free. -/
  | create (p : P) (item : ℕ) (data : α)
  /-- `in_.exchange(&item)`. -/
  | exchange (p : P)
  /-- `oldIn->next.store(&item)`. -/
  | store (p : P)
  /-- `out_==in_.load()`. -/
  | loadIn
  /-- `out_->next.load()`. -/
  | loadNext
  /-- `delete out_`. -/
  | delete
  /-- `out_ = item`. -/
  | advance

variable {P α : Type*}

/-- `MpscFifo()`, with its first item at `item`. -/
def new (P : Type*) (item : ℕ) (data : α) : MpscFifo P α where
  out_ := item
  in_ := item
  heap := Function.update (fun _ => none) item (some ⟨data, none⟩)
  producer _ := .idle
  consumer := .idle
  pushed := []
  popped := []

/-- `item->next`. -/
def next (f : MpscFifo P α) (item : ℕ) : Option ℕ := (f.heap item).bind FifoItem.next

/-- An item and what it holds. -/
def entry (f : MpscFifo P α) (item : ℕ) : ℕ × Option α := (item, (f.heap item).map FifoItem.data)

/-- `item->next = link`. -/
def setNext (heap : ℕ → Option (FifoItem α)) (item link : ℕ) : ℕ → Option (FifoItem α) :=
  Function.update heap item ((heap item).map fun i => { i with next := some link })

variable [DecidableEq P]

/-- One step. -/
def step (f : MpscFifo P α) : Action P α → MpscFifo P α
  | .create p item data =>
    match f.producer p, f.heap item with
    | .idle, none =>
      { f with
        heap := Function.update f.heap item (some ⟨data, none⟩)
        producer := Function.update f.producer p (.created item) }
    | _, _ => f
  | .exchange p =>
    match f.producer p with
    | .created item =>
      { f with
        in_ := item
        producer := Function.update f.producer p (.exchanged item f.in_)
        pushed := f.pushed ++ [f.entry item] }
    | _ => f
  | .store p =>
    match f.producer p with
    | .exchanged item oldIn =>
      { f with
        heap := setNext f.heap oldIn item
        producer := Function.update f.producer p .idle }
    | _ => f
  | .loadIn =>
    match f.consumer with
    | .idle => if f.out_ = f.in_ then f else { f with consumer := .loadedIn }
    | _ => f
  | .loadNext =>
    match f.consumer with
    | .loadedIn =>
      match f.next f.out_ with
      | none => { f with consumer := .idle }
      | some item => { f with consumer := .loadedNext item }
    | _ => f
  | .delete =>
    match f.consumer with
    | .loadedNext item =>
      { f with heap := Function.update f.heap f.out_ none, consumer := .deleted item }
    | _ => f
  | .advance =>
    match f.consumer with
    | .deleted item =>
      { f with out_ := item, consumer := .idle, popped := f.popped ++ [f.entry item] }
    | _ => f

/-- `pop_unknown` returns `nullptr` at this step. -/
def ReturnsNull (f : MpscFifo P α) : Action P α → Prop
  | .loadIn => f.consumer = .idle ∧ f.out_ = f.in_
  | .loadNext => f.consumer = .loadedIn ∧ f.next f.out_ = none
  | _ => False

/-- This step deletes the item. -/
def Deletes (f : MpscFifo P α) (item : ℕ) : Action P α → Prop
  | .delete => f.out_ = item ∧ ∃ next, f.consumer = .loadedNext next
  | _ => False

end MpscFifo

end Uberos
