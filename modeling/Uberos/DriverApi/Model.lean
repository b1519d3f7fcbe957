import Uberos.Target
import Uberos.PodArray
import Uberos.Library.Run
import Uberos.Library.Span
/-!
# A driver's memory subscriptions

`subscribe_memory`, `unsubscribe_memory` and `is_subscribed_to_memory` of
`kernel/DriverApi.cpp`, on the ranges of one driver. The loops are over
indices of the array they edit, as in the source; `fuel` bounds their
turns. What a call finds around it, the heap and the other drivers, is its
`Environment`. The mapping a successful call asks for is its answer.
-/

namespace Uberos

open Library

/-- `MemoryRange`, from its start up to its end. -/
abbrev MemoryRange := Span ℕ

namespace DriverApi

variable (T : Target)

/-- `Physical + size`, in a word. -/
def wordEnd (start size : ℕ) : ℕ := (start + size) % T.wordSize

/-! ## Asking -/

/-- The loop of `is_subscribed_to_memory`. -/
def isSubscribedLoop (start stop : ℕ) : List MemoryRange → Bool
  | [] => false
  | subscribed :: ranges =>
    if subscribed.start ≥ stop then false
    else if subscribed.stop ≤ start then isSubscribedLoop start stop ranges
    else true

/-- `is_subscribed_to_memory(start, _size)`. -/
def isSubscribedToMemory (subscribedMemory : List MemoryRange) (start _size : ℕ) : Bool :=
  isSubscribedLoop start (wordEnd T start _size) subscribedMemory

/-! ## Subscribing -/

/-- The `while` of `subscribe_memory`: the range at `i` takes in those
after it that start at or before `stop`. -/
def growLoop (stop i : ℕ) : ℕ → List MemoryRange → List MemoryRange
  | 0, ranges => ranges
  | fuel + 1, ranges =>
    match ranges[i]?, ranges[i + 1]? with
    | some subscribed, some next =>
      if next.start ≤ stop then
        growLoop stop i fuel (PodArray.remove
          (ranges.set i ⟨subscribed.start, max subscribed.stop next.stop⟩) (i + 1))
      else ranges
    | _, _ => ranges

/-- What a successful subscription answers with: the physical address, or
a mapping of the range from the high end of the address space. -/
inductive Answer
  | address (start : ℕ)
  | mapPhysicalHigh (start size : ℕ)
  deriving DecidableEq, Repr

/-- The `for` of `subscribe_memory`, from index `i`; `true` where it
inserted the range before another. -/
def subscribeLoop (start stop : ℕ) : ℕ → ℕ → List MemoryRange → Bool × List MemoryRange
  | 0, _, ranges => (false, ranges)
  | fuel + 1, i, ranges =>
    match ranges[i]? with
    | none => (false, PodArray.pushBack ranges ⟨start, stop⟩)
    | some subscribed =>
      if subscribed.start > stop then (true, PodArray.insert ranges i ⟨start, stop⟩)
      else if subscribed.stop < start then subscribeLoop start stop fuel (i + 1) ranges
      else
        let newStart := if start < subscribed.start then start else subscribed.start
        if stop > subscribed.stop then
          (false, growLoop stop i ranges.length (ranges.set i ⟨newStart, stop⟩))
        else (false, ranges.set i ⟨newStart, subscribed.stop⟩)

/-- What a subscription finds around it: the heap, and of every other
driver whether it is active and what it is subscribed to. -/
structure Environment where
  heap : ℕ
  heapSize : ℕ
  others : List (Bool × List MemoryRange)
  deriving DecidableEq, Repr

/-- `subscribe_memory(start, size)`. -/
def subscribeMemory (env : Environment) (subscribedMemory : List MemoryRange) (start size : ℕ) :
    Except String (Answer × List MemoryRange) :=
  if start < wordEnd T env.heap env.heapSize ∧ wordEnd T start size > env.heap then
    .error "Memory not available - Overlaps heap"
  else if env.others.any fun (active, ranges) => active && isSubscribedToMemory T ranges start size then
    .error "Memory not available - Already in use"
  else
    match subscribeLoop start (wordEnd T start size) (subscribedMemory.length + 1) 0 subscribedMemory with
    | (true, ranges) => .ok (.address start, ranges)
    | (false, ranges) => .ok (.mapPhysicalHigh start size, ranges)

/-! ## Unsubscribing -/

/-- The `for` of `unsubscribe_memory`, from index `i`. A removal leaves
`i` where it is. -/
def unsubscribeLoop (start stop : ℕ) : ℕ → ℕ → List MemoryRange → List MemoryRange
  | 0, _, ranges => ranges
  | fuel + 1, i, ranges =>
    match ranges[i]? with
    | none => ranges
    | some subscribed =>
      if subscribed.start ≥ stop then ranges
      else if subscribed.stop ≤ start then unsubscribeLoop start stop fuel (i + 1) ranges
      else if subscribed.start ≥ start ∧ subscribed.stop ≤ stop then
        unsubscribeLoop start stop fuel i (PodArray.remove ranges i)
      else if start > subscribed.start then
        let left := ranges.set i ⟨subscribed.start, start⟩
        if subscribed.stop > stop then
          unsubscribeLoop start stop fuel (i + 1)
            (PodArray.insert left (i + 1) ⟨stop, subscribed.stop⟩)
        else unsubscribeLoop start stop fuel (i + 1) left
      else if stop < subscribed.stop then
        unsubscribeLoop start stop fuel (i + 1) (ranges.set i ⟨stop, subscribed.stop⟩)
      else unsubscribeLoop start stop fuel (i + 1) ranges

/-- `unsubscribe_memory(start, _size)`. Every turn but one that splits a
range leaves one range fewer ahead, and that one is followed by the last. -/
def unsubscribeMemory (subscribedMemory : List MemoryRange) (start _size : ℕ) : List MemoryRange :=
  unsubscribeLoop start (wordEnd T start _size) (subscribedMemory.length + 2) 0 subscribedMemory

/-- `unsubscribe_all_memory()`. -/
def unsubscribeAllMemory (subscribedMemory : List MemoryRange) : List MemoryRange :=
  PodArray.clear subscribedMemory

end DriverApi

end Uberos
