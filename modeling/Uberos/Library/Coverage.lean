import Mathlib.Data.List.Count
import Mathlib.Data.List.Perm.Basic
import Mathlib.Algebra.BigOperators.Intervals
import Mathlib.Algebra.Order.BigOperators.Group.Finset
/-!
# Extents and what they cover

An extent is a start and a length, a list of them covers a point as often
as it has extents with that point. Counting is what makes ownership
arguments compose: a split, a merge and a reordering each leave the count
of every point as it was, disjointness is a count of one at most, and a
partition is an equality of counts.
-/

namespace Library

/-- The points from `start` on, `length` of them. -/
structure Extent where
  start : ℕ
  length : ℕ
  deriving DecidableEq, Repr

namespace Extent

/-- The first point after the extent. -/
def stop (e : Extent) : ℕ := e.start + e.length

instance : Membership ℕ Extent := ⟨fun e x => e.start ≤ x ∧ x < e.stop⟩

theorem mem_def {e : Extent} {x : ℕ} : x ∈ e ↔ e.start ≤ x ∧ x < e.start + e.length := Iff.rfl

instance (e : Extent) (x : ℕ) : Decidable (x ∈ e) := inferInstanceAs (Decidable (_ ∧ _))

/-- No point in common. -/
def Apart (e e' : Extent) : Prop := ∀ x, x ∈ e → x ∉ e'

/-- Two extents that do not meet end where the other starts, or are
empty. -/
theorem apart_iff {e e' : Extent} :
    Apart e e' ↔ e.length = 0 ∨ e'.length = 0 ∨ e.stop ≤ e'.start ∨ e'.stop ≤ e.start := by
  simp only [Apart, mem_def, stop]
  constructor
  · intro h
    by_contra hcon
    push Not at hcon
    have := h (max e.start e'.start) (by omega)
    omega
  · intro h x hx hx'
    omega

instance (e e' : Extent) : Decidable (Apart e e') := decidable_of_iff _ apart_iff.symm

end Extent

/-- How many of the extents have the point. -/
def cover (es : List Extent) (x : ℕ) : ℕ := es.countP (x ∈ ·)

variable {e e' : Extent} {es es' : List Extent} {x : ℕ}

@[simp] theorem cover_nil : cover [] x = 0 := rfl

theorem cover_cons : cover (e :: es) x = (if x ∈ e then 1 else 0) + cover es x := by
  simp only [cover, List.countP_cons, decide_eq_true_eq]
  omega

theorem cover_append : cover (es ++ es') x = cover es x + cover es' x :=
  List.countP_append

/-- Order does not matter. -/
theorem cover_perm (h : es.Perm es') : cover es x = cover es' x := h.countP_eq _

/-- **An extent covers what its two parts cover.** -/
theorem cover_split (s a b : ℕ) :
    cover (⟨s, a + b⟩ :: es) x = cover (⟨s, a⟩ :: ⟨s + a, b⟩ :: es) x := by
  have hparts : x ∈ (⟨s, a + b⟩ : Extent) ↔
      x ∈ (⟨s, a⟩ : Extent) ∨ x ∈ (⟨s + a, b⟩ : Extent) := by
    simp only [Extent.mem_def]
    omega
  have hapart : x ∈ (⟨s, a⟩ : Extent) → x ∉ (⟨s + a, b⟩ : Extent) := by
    simp only [Extent.mem_def]
    omega
  simp only [cover_cons, hparts]
  split <;> split <;> split <;> simp_all

theorem cover_pos_iff : 0 < cover es x ↔ ∃ e ∈ es, x ∈ e := by
  simp only [cover, List.countP_pos_iff, decide_eq_true_eq]

/-- A point of an extent of the list is covered. -/
theorem cover_pos (he : e ∈ es) (hx : x ∈ e) : 0 < cover es x := cover_pos_iff.2 ⟨e, he, hx⟩

/-- **Disjoint is covered once at most.** -/
theorem pairwise_apart_iff : es.Pairwise Extent.Apart ↔ ∀ x, cover es x ≤ 1 := by
  induction es with
  | nil => simp
  | cons e es ih =>
    rw [List.pairwise_cons, ih]
    simp only [cover_cons]
    constructor
    · rintro ⟨hapart, hrest⟩ x
      split
      · rename_i hx
        have : ¬ 0 < cover es x := by
          intro hpos
          obtain ⟨e', he', hx'⟩ := cover_pos_iff.1 hpos
          exact hapart e' he' x hx hx'
        omega
      · have := hrest x
        omega
    · intro h
      refine ⟨fun e' he' x hx hx' => ?_, fun x => ?_⟩
      · have := h x
        have := cover_pos he' hx'
        rw [if_pos hx] at *
        omega
      · have := h x
        omega

/-- **What is covered in a row is in one extent** where no extent starts
at the end of the one the row begins in. -/
theorem stop_le_of_covered {a stop : ℕ} (honce : ∀ x, cover es x ≤ 1) (he : e ∈ es) (ha : a ∈ e)
    (hend : ∀ e' ∈ es, e'.start ≠ e.stop) (hrow : ∀ x, a ≤ x → x < stop → 0 < cover es x) :
    stop ≤ e.stop := by
  by_contra hlt
  rw [Extent.mem_def] at ha
  obtain ⟨e', he', hx⟩ := cover_pos_iff.1 (hrow e.stop (by rw [Extent.stop]; omega) (by omega))
  have hstart := hend e' he'
  rw [Extent.mem_def] at hx
  have hne : e ≠ e' := by
    rintro rfl
    exact absurd hx.2 (Nat.lt_irrefl _)
  have : Std.Symm Extent.Apart := ⟨fun _ _ h x hx hx' => h x hx' hx⟩
  -- the point before it is in both
  refine (pairwise_apart_iff.2 honce).forall he he' hne (e.stop - 1) ?_ ?_
  · rw [Extent.mem_def, Extent.stop]
    omega
  · rw [Extent.mem_def]
    rw [Extent.stop] at hx hstart ⊢
    omega

/-- **Extents below a bound that are covered once at most are no longer
together than the bound.** -/
theorem sum_length_le {n : ℕ} (hstop : ∀ e ∈ es, e.stop ≤ n) (honce : ∀ x, cover es x ≤ 1) :
    (es.map Extent.length).sum ≤ n := by
  have hsum : (es.map Extent.length).sum = ∑ x ∈ Finset.range n, cover es x := by
    clear honce
    induction es with
    | nil => simp
    | cons e es ih =>
      have hlen : (∑ x ∈ Finset.range n, if x ∈ e then 1 else 0) = e.length := by
        have hfilter : (Finset.range n).filter (· ∈ e) = Finset.Ico e.start e.stop := by
          ext x
          have := hstop e (List.mem_cons_self ..)
          simp only [Finset.mem_filter, Finset.mem_range, Extent.mem_def, Finset.mem_Ico,
            Extent.stop] at *
          omega
        rw [← Finset.card_filter, hfilter, Nat.card_Ico, Extent.stop, Nat.add_sub_cancel_left]
      rw [List.map_cons, List.sum_cons, ih fun e he => hstop e (List.mem_cons_of_mem _ he)]
      simp only [cover_cons, Finset.sum_add_distrib, hlen]
  calc (es.map Extent.length).sum = ∑ x ∈ Finset.range n, cover es x := hsum
    _ ≤ ∑ _x ∈ Finset.range n, 1 := Finset.sum_le_sum fun x _ => honce x
    _ = n := by rw [← Finset.card_eq_sum_ones, Finset.card_range]

end Library
