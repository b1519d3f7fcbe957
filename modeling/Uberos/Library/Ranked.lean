import Mathlib.Data.List.Find
import Mathlib.Data.List.Nodup
import Mathlib.Order.Basic
/-!
# Lists in the order of a rank

A list whose elements have ranks that do not fall is kept so by whatever
puts an element among the others, above those of no higher a rank and
below those of no lower a one. `Among` is that, with something said of
what the element is put below; the four ways to find a place below, after
an element or before one, on top of a rank or at its bottom, are instances
of it.
-/

namespace Library

variable {α β : Type*} [LinearOrder β] {rank : α → β} {r : β} {x y other : α}
variable {before after others xs : List α} {under : α → Prop}

/-- The ranks do not go down. -/
def InRanks (rank : α → β) (xs : List α) : Prop := xs.Pairwise fun x y => rank x ≤ rank y

instance (rank : α → β) (xs : List α) : Decidable (InRanks rank xs) :=
  inferInstanceAs (Decidable (xs.Pairwise _))

/-- **An element put among others**: above those of no higher a rank,
below those of no lower a one, of which `under` holds. -/
def Among (rank : α → β) (r : β) (x : α) (others xs : List α) (under : α → Prop) : Prop :=
  ∃ before after, others = before ++ after ∧ xs = before ++ x :: after ∧
    (∀ y ∈ before, rank y ≤ r) ∧ ∀ y ∈ after, r ≤ rank y ∧ under y

theorem Among.perm (h : Among rank r x others xs under) : xs.Perm (x :: others) := by
  obtain ⟨before, after, rfl, rfl, -⟩ := h
  exact List.perm_middle

/-- The order of ranks is kept. -/
theorem Among.inRanks (h : Among rank (rank x) x others xs under) (hranks : InRanks rank others) :
    InRanks rank xs := by
  obtain ⟨before, after, rfl, rfl, hbefore, hafter⟩ := h
  rw [InRanks, List.pairwise_append] at hranks
  rw [InRanks, List.pairwise_append, List.pairwise_cons]
  refine ⟨hranks.1, ⟨fun y hy => (hafter y hy).1, hranks.2.1⟩, ?_⟩
  intro y hy z hz
  rcases List.mem_cons.1 hz with rfl | hz
  · exact hbefore y hy
  · exact hranks.2.2 y hy z hz

/-- Ranks are read of the elements there are. -/
theorem Among.congr {rank' : α → β} (h : Among rank r x others xs under)
    (hranks : ∀ y ∈ others, rank' y = rank y) : Among rank' r x others xs under := by
  obtain ⟨before, after, rfl, rfl, hbefore, hafter⟩ := h
  refine ⟨before, after, rfl, rfl, fun y hy => ?_, fun y hy => ?_⟩
  · rw [hranks y (List.mem_append_left _ hy)]
    exact hbefore y hy
  · rw [hranks y (List.mem_append_right _ hy)]
    exact hafter y hy

theorem InRanks.congr {rank' : α → β} (h : InRanks rank xs) (hranks : ∀ x ∈ xs, rank' x = rank x) :
    InRanks rank' xs := by
  refine h.imp_of_mem fun {x y} hx hy hle => ?_
  rwa [hranks x hx, hranks y hy]

variable [DecidableEq α]

/-- Without the element, the others are as they were. -/
theorem Among.erase (h : Among rank r x others xs under) (hx : x ∉ others) :
    xs.erase x = others := by
  obtain ⟨before, after, rfl, rfl, -⟩ := h
  rw [List.erase_append_right _ fun hmem => hx (List.mem_append_left _ hmem), List.erase_cons_head]

/-! ## Ways to find a place -/

/-- After an element. -/
def putAfter (other x : α) : List α → List α
  | [] => []
  | first :: rest => if first = other then first :: x :: rest else first :: putAfter other x rest

/-- Before an element. -/
def putBefore (other x : α) : List α → List α
  | [] => []
  | first :: rest => if first = other then x :: first :: rest else first :: putBefore other x rest

/-- On top of a rank: after the last of no higher a one. -/
def putLast (rank : α → β) (r : β) (x : α) (others : List α) : List α :=
  match others.reverse.find? fun other => rank other ≤ r with
  | some other => putAfter other x others
  | none => x :: others

/-- At the bottom of a rank: before the first of no lower a one. -/
def putFirst (rank : α → β) (r : β) (x : α) (others : List α) : List α :=
  match others.find? fun other => rank other ≥ r with
  | some other => putBefore other x others
  | none => others ++ [x]

theorem putAfter_append (h : other ∉ before) :
    putAfter other x (before ++ other :: after) = before ++ other :: x :: after := by
  induction before with
  | nil => exact if_pos rfl
  | cons first before ih =>
    rw [List.mem_cons, not_or] at h
    rw [List.cons_append, putAfter, if_neg (Ne.symm h.1), ih h.2]
    rfl

theorem putBefore_append (h : other ∉ before) :
    putBefore other x (before ++ other :: after) = before ++ x :: other :: after := by
  induction before with
  | nil => exact if_pos rfl
  | cons first before ih =>
    rw [List.mem_cons, not_or] at h
    rw [List.cons_append, putBefore, if_neg (Ne.symm h.1), ih h.2]
    rfl

theorem among_putAfter (hranks : InRanks rank others) (hothers : others = before ++ other :: after)
    (hother : other ∉ before) :
    Among rank (rank other) x others (putAfter other x others) (· ∈ after) := by
  rw [InRanks, hothers, List.pairwise_append] at hranks
  refine ⟨before ++ [other], after, ?_, ?_, ?_, ?_⟩
  · rw [hothers, List.append_assoc, List.singleton_append]
  · rw [hothers, putAfter_append hother, List.append_assoc, List.singleton_append]
  · intro y hy
    rcases List.mem_append.1 hy with hy | hy
    · exact hranks.2.2 y hy other List.mem_cons_self
    · rw [List.mem_singleton.1 hy]
  · intro y hy
    exact ⟨List.rel_of_pairwise_cons hranks.2.1 hy, hy⟩

theorem among_putBefore (hranks : InRanks rank others)
    (hothers : others = before ++ other :: after) (hother : other ∉ before) :
    Among rank (rank other) x others (putBefore other x others) (· ∈ other :: after) := by
  rw [InRanks, hothers, List.pairwise_append] at hranks
  refine ⟨before, other :: after, hothers, ?_, ?_, ?_⟩
  · rw [hothers, putBefore_append hother]
  · intro y hy
    exact hranks.2.2 y hy other List.mem_cons_self
  · intro y hy
    refine ⟨?_, hy⟩
    rcases List.mem_cons.1 hy with rfl | hy
    · exact le_rfl
    · exact List.rel_of_pairwise_cons hranks.2.1 hy

/-- **On top of its rank, an element is below those of higher ones.** -/
theorem among_putLast (hranks : InRanks rank others) (hnodup : others.Nodup) :
    Among rank r x others (putLast rank r x others) fun y => r < rank y := by
  rw [putLast]
  split
  · rename_i other hfind
    -- the first from the top of no higher a rank; those above it are all higher
    obtain ⟨hle, above, below, hreverse, habove⟩ := List.find?_eq_some_iff_append.1 hfind
    have hothers : others = below.reverse ++ other :: above.reverse := by
      rw [← others.reverse_reverse, hreverse]
      simp
    have hother : other ∉ below.reverse := by
      intro hmem
      rw [hothers] at hnodup
      exact List.disjoint_of_nodup_append hnodup hmem List.mem_cons_self
    obtain ⟨before, after, heq, hput, hbefore, hafter⟩ := among_putAfter (x := x) hranks hothers hother
    refine ⟨before, after, heq, hput, ?_, ?_⟩
    · intro y hy
      exact (hbefore y hy).trans (of_decide_eq_true hle)
    · intro y hy
      have hhigher := habove y (List.mem_reverse.1 (hafter y hy).2)
      simp only [Bool.not_eq_true', decide_eq_false_iff_not, not_le] at hhigher
      exact ⟨hhigher.le, hhigher⟩
  · rename_i hfind
    -- all of the others are higher, and it is put at the bottom
    refine ⟨[], others, rfl, rfl, fun y hy => absurd hy List.not_mem_nil, ?_⟩
    intro y hy
    have hhigher := List.find?_eq_none.1 hfind y (List.mem_reverse.2 hy)
    simp only [decide_eq_true_eq, not_le] at hhigher
    exact ⟨hhigher.le, hhigher⟩

/-- **At the bottom of a rank, an element is below those of the rank** and
of higher ones. -/
theorem among_putFirst (hranks : InRanks rank others) :
    Among rank r x others (putFirst rank r x others) fun y => y ∈ others ∧ r ≤ rank y := by
  rw [putFirst]
  split
  · rename_i other hfind
    obtain ⟨hle, before, after, hothers, hbefore⟩ := List.find?_eq_some_iff_append.1 hfind
    have hlower : ∀ y ∈ before, rank y < r := by
      intro y hy
      simpa using hbefore y hy
    have hrank : r ≤ rank other := of_decide_eq_true hle
    have hother : other ∉ before := fun hmem => absurd (hlower other hmem) (not_lt.2 hrank)
    rw [InRanks, hothers, List.pairwise_append] at hranks
    refine ⟨before, other :: after, hothers, ?_, fun y hy => (hlower y hy).le, ?_⟩
    · rw [hothers, putBefore_append hother]
    · intro y hy
      have hhigher : r ≤ rank y := by
        rcases List.mem_cons.1 hy with rfl | hy
        · exact hrank
        · exact hrank.trans (List.rel_of_pairwise_cons hranks.2.1 hy)
      exact ⟨hhigher, hothers ▸ List.mem_append_right _ hy, hhigher⟩
  · rename_i hfind
    -- all of the others are lower, and it is put on top
    refine ⟨others, [], (List.append_nil _).symm, rfl, ?_, fun y hy => absurd hy List.not_mem_nil⟩
    · intro y hy
      have hlower := List.find?_eq_none.1 hfind y hy
      simp only [ge_iff_le, decide_eq_true_eq, not_le] at hlower
      exact hlower.le

end Library
