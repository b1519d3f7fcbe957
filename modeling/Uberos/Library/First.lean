import Mathlib.Data.Fintype.EquivFin
import Mathlib.Order.Fin.Basic
import Mathlib.Order.WellFounded
/-!
# The first of what there is

What a search is to return that looks for the first index with a property
and has a value for there being none.
-/

namespace Library

variable {n : ℕ} {P : Fin n → Prop} {missing answer other : ℕ} {i : Fin n}

/-- `i` is the first of `P`. -/
def IsFirst (P : Fin n → Prop) (i : Fin n) : Prop := P i ∧ ∀ j < i, ¬ P j

/-- **A search returns the first of `P`**, and `missing` just when there is
none. -/
structure Finds (P : Fin n → Prop) (missing answer : ℕ) : Prop where
  first : ∀ i, IsFirst P i → answer = i
  missing_iff : answer = missing ↔ ∀ i, ¬ P i

/-- There is a first, or there is none. -/
theorem isFirst_or_none (P : Fin n → Prop) : (∃ i, IsFirst P i) ∨ ∀ i, ¬ P i := by
  by_cases h : ∃ i, P i
  · obtain ⟨i, hi, hmin⟩ := WellFounded.has_min wellFounded_lt {i | P i} h
    exact Or.inl ⟨i, hi, fun j hj hP => hmin j hP hj⟩
  · exact Or.inr fun i hi => h ⟨i, hi⟩

/-- What a search is to return is one value. -/
theorem Finds.unique (h : Finds P missing answer) (h' : Finds P missing other) :
    answer = other := by
  rcases isFirst_or_none P with ⟨i, hi⟩ | hnone
  · rw [h.first i hi, h'.first i hi]
  · rw [h.missing_iff.2 hnone, h'.missing_iff.2 hnone]

/-- Where there is a first, that is what is to be returned. -/
theorem finds_iff_of_first (hi : IsFirst P i) (hne : i.val ≠ missing) :
    Finds P missing answer ↔ answer = i := by
  constructor
  · intro h
    exact h.first i hi
  · rintro rfl
    refine ⟨fun j hj => ?_, iff_of_false hne fun h => h i hi.1⟩
    rcases lt_trichotomy i j with hlt | heq | hlt
    · exact absurd hi.1 (hj.2 i hlt)
    · rw [heq]
    · exact absurd hj.1 (hi.2 j hlt)

/-- Where there is none, `missing` is. -/
theorem finds_iff_of_none (hnone : ∀ i, ¬ P i) :
    Finds P missing answer ↔ answer = missing := by
  constructor
  · intro h
    exact h.missing_iff.2 hnone
  · intro h
    exact ⟨fun i hi => absurd hi.1 (hnone i), iff_of_true h hnone⟩

/-- The search of a range by a test of it. -/
theorem find?_range_of_first {test : ℕ → Bool} {size i : ℕ} (hlt : i < size)
    (hi : test i = true) (hbefore : ∀ j < i, test j = false) :
    (List.range size).find? test = some i := by
  rw [List.find?_range_eq_some]
  refine ⟨hi, List.mem_range.2 hlt, ?_⟩
  intro j hj
  rw [hbefore j hj, Bool.not_false]

/-- A search that nothing passes. -/
theorem find?_range_of_none {test : ℕ → Bool} {size : ℕ} (hnone : ∀ j < size, test j = false) :
    (List.range size).find? test = none := by
  rw [List.find?_eq_none]
  intro j hj
  rw [hnone j (List.mem_range.1 hj)]
  decide

/-- **A search of the whole range by the right test.** -/
theorem finds_find? {test : ℕ → Bool} (htest : ∀ i : Fin n, test i = true ↔ P i)
    (hn : n ≤ missing) : Finds P missing (((List.range n).find? test).getD missing) := by
  rcases isFirst_or_none P with ⟨i, hi⟩ | hnone
  · have hlt : i.val < n := i.isLt
    have hfind : (List.range n).find? test = some i.val := by
      refine find?_range_of_first hlt ((htest i).2 hi.1) fun j hj => ?_
      rw [← Bool.not_eq_true, htest ⟨j, by omega⟩]
      exact hi.2 _ hj
    rw [finds_iff_of_first hi (by omega), hfind]
    rfl
  · have hfind : (List.range n).find? test = none := by
      refine find?_range_of_none fun j hj => ?_
      rw [← Bool.not_eq_true, htest ⟨j, hj⟩]
      exact hnone _
    rw [finds_iff_of_none hnone, hfind]
    rfl

end Library
