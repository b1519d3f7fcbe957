import Uberos.AllocationMask.Search
import Mathlib.Data.Finset.Card
/-!
# The claimed indices of the allocation mask

What a mask itself takes for claimed: the bits set before
`afterLastTaken`, whatever its user holds. A claim that is met adds one
index, not always the one it answers, and the release of what a claim
answered takes away that index and no other.
-/

namespace Uberos

namespace AllocationMask

variable {m m' : AllocationMask} {T : Target} {index i : ℕ}

/-- The indices whose bits are set before the end of what was taken. -/
def claimedIndices (m : AllocationMask) : Finset ℕ :=
  (Finset.range m.count).filter fun i => i < m.afterLastTaken ∧ bitAt m.data i = true

theorem mem_claimedIndices :
    i ∈ claimedIndices m ↔ i < m.count ∧ i < m.afterLastTaken ∧ bitAt m.data i = true := by
  rw [claimedIndices, Finset.mem_filter, Finset.mem_range]

/-- **A mask and its storage**, as the constructor makes them. -/
structure Sized (m : AllocationMask) : Prop where
  count_mod : m.count % 32 = 0
  length_data : m.data.length = m.count / 8

/-- The size is rounded down. -/
theorem count_new_le (T : Target) (_count : ℕ) : (new T _count).count ≤ _count :=
  (Nat.div_mul_le_self _ _).trans (Nat.div_mul_le_self _ _)

theorem sized_new (T : Target) (_count : ℕ) : Sized (new T _count) :=
  ⟨new_count_mod T _count, new_length_data T _count⟩

/-- No index is left to claim: a cursor is at the end, or the search
finds no open byte. -/
def Exhausted (m : AllocationMask) : Prop :=
  m.count ≤ m.earliestFree ∨ m.count ≤ m.afterLastTaken ∧ ∀ byte, ¬ FirstOpen m byte

instance Exhausted.decidable (m : AllocationMask) : Decidable (Exhausted m) :=
  decidable_of_iff
    (m.count ≤ m.earliestFree ∨
      m.count ≤ m.afterLastTaken ∧ ∀ byte < m.count, ¬ FirstOpen m byte)
    (or_congr Iff.rfl <| and_congr Iff.rfl
      ⟨fun h byte hfirst => h byte (by have := hfirst.2.1; omega) hfirst, fun h byte _ => h byte⟩)

/-- The index is the claim's own: the open byte it finds, if it has to
search, is the first of a group of 32. -/
def FindsGroup (m : AllocationMask) : Prop :=
  m.count ≤ m.afterLastTaken → ∀ byte, FirstOpen m byte → byte % 32 = 0

instance FindsGroup.decidable (m : AllocationMask) : Decidable (FindsGroup m) :=
  decidable_of_iff
    (m.count ≤ m.afterLastTaken → ∀ byte < m.count, FirstOpen m byte → byte % 32 = 0)
    ⟨fun h hle byte hfirst => h hle byte (by have := hfirst.2.1; omega) hfirst,
      fun h hle byte _ => h hle byte⟩

/-! ## Sizes -/

/-- Neither the size nor the storage of a mask changes. -/
theorem claim_size (m : AllocationMask) :
    (claim T m).2.count = m.count ∧ (claim T m).2.data.length = m.data.length := by
  unfold claim
  split
  · exact ⟨rfl, rfl⟩
  split
  · exact ⟨rfl, List.length_set⟩
  split
  · exact ⟨rfl, List.length_set⟩
  · exact ⟨rfl, rfl⟩

theorem Sized.claim (h : Sized m) (T : Target) : Sized (claim T m).2 := by
  obtain ⟨hcount, hlength⟩ := claim_size (T := T) m
  refine ⟨by rw [hcount]; exact h.count_mod, ?_⟩
  rw [hcount, hlength]
  exact h.length_data

theorem Sized.release (h : Sized m) (index : ℕ) : Sized (m.release index) where
  count_mod := h.count_mod
  length_data := by
    simp only [AllocationMask.release, clearByte, List.length_set]
    exact h.length_data

/-! ## Claims -/

/-- The bit of an index that was not claimed is set, and no cursor moves
back over one that was. -/
theorem claimedIndices_mark (h : Sized m) {e a : ℕ} (hi : i < m.count) (ha : i < a)
    (hle : m.afterLastTaken ≤ a)
    (hpass : ∀ k < m.count, k < a → k < m.afterLastTaken ∨ k = i) :
    claimedIndices { m with
      data := orByte m.data (i / 8) (i % 8)
      earliestFree := e
      afterLastTaken := a } = insert i (claimedIndices m) := by
  ext k
  have hset := bitAt_orByte_index (i := k) (div_lt_length h.count_mod h.length_data hi)
  rw [Finset.mem_insert, mem_claimedIndices, mem_claimedIndices]
  simp only [hset]
  constructor
  · rintro ⟨hk, hka, rfl | hbit⟩
    · exact Or.inl rfl
    · rcases hpass k hk hka with hlt | rfl
      · exact Or.inr ⟨hk, hlt, hbit⟩
      · exact Or.inl rfl
  · rintro (rfl | ⟨hk, hka, hbit⟩)
    · exact ⟨hi, ha, Or.inl rfl⟩
    · exact ⟨hk, by omega, Or.inr hbit⟩

/-- **What a claim does to the claimed indices**: where it is refused
nothing, and where it is met it adds one, which is the one it answers if
it finds its own group. -/
theorem Sized.claim_cases (h : Sized m) (hT : T.wordBytes = 4) :
    (Exhausted m ∧ ∃ e m', AllocationMask.claim T m = (.error e, m') ∧
      claimedIndices m' = claimedIndices m) ∨
    (¬ Exhausted m ∧ ∃ index i m', AllocationMask.claim T m = (.ok index, m') ∧
      i ∉ claimedIndices m ∧ claimedIndices m' = insert i (claimedIndices m) ∧
      index < m.count ∧ (index = i ↔ FindsGroup m) ∧
      (index % 256 < 8 ∨ index + 1 = m'.afterLastTaken)) := by
  have hcount := h.count_mod
  rcases AllocationMask.claim_cases (T := T) (m := m) (by omega) (fun hT' => by omega) with
    ⟨hle, hclaim⟩ | ⟨hef, hlt, hclaim⟩ | ⟨hle, byte, hfirst, hclaim⟩ |
      ⟨hef, hle, hnone, e, he, -, hclaim⟩
  · exact Or.inl ⟨Or.inl hle, _, _, hclaim, rfl⟩
  · -- from the end of the mask
    refine Or.inr ⟨?_, _, m.afterLastTaken, _, hclaim, ?_, ?_, hlt, ?_, Or.inr rfl⟩
    · rintro (hcon | ⟨hcon, -⟩) <;> omega
    · intro hmem
      exact absurd (mem_claimedIndices.1 hmem).2.1 (lt_irrefl _)
    · exact claimedIndices_mark h hlt (Nat.lt_succ_self _) (Nat.le_succ _) fun k _ hk => by omega
    · exact iff_of_true rfl fun hcon => by omega
  · -- from the first open byte
    obtain ⟨hlt8, hopen, -⟩ := openBit_spec hfirst.2.2.1
    have hbyte := hfirst.2.1
    have hdiv : (8 * byte + openBit m.data byte) / 8 = byte := by omega
    have hmod : (8 * byte + openBit m.data byte) % 8 = openBit m.data byte := by omega
    have hmark := claimedIndices_mark (i := 8 * byte + openBit m.data byte)
      (e := byte / 32 * 256 + openBit m.data byte + 1)
      (a := max m.afterLastTaken (byte / 32 * 256 + openBit m.data byte + 1)) h (by omega)
      (by omega) (le_max_left _ _) fun k hk _ => by omega
    rw [hdiv, hmod] at hmark
    refine Or.inr ⟨?_, _, _, _, hclaim, ?_, hmark, by omega, ?_, Or.inl (by omega)⟩
    · rintro (hcon | ⟨-, hcon⟩)
      · have := hfirst.1
        omega
      · exact hcon byte hfirst
    · intro hmem
      rw [(mem_claimedIndices.1 hmem).2.2] at hopen
      cases hopen
    · refine ⟨fun heq _ other hother => ?_, fun hgroup => ?_⟩
      · rw [hother.unique hfirst]
        omega
      · have := hgroup hle byte hfirst
        omega
  · refine Or.inl ⟨Or.inr ⟨hle, hnone⟩, _, _, hclaim, ?_⟩
    ext k
    simp only [mem_claimedIndices]
    constructor
    · rintro ⟨hk, -, hbit⟩
      exact ⟨hk, by omega, hbit⟩
    · rintro ⟨hk, -, hbit⟩
      exact ⟨hk, by omega, hbit⟩

/-- A claim is met where an index is left to claim. -/
theorem Sized.claim_ok_iff (h : Sized m) (hT : T.wordBytes = 4) :
    (∃ index, (AllocationMask.claim T m).1 = .ok index) ↔ ¬ Exhausted m := by
  rcases h.claim_cases hT with ⟨hex, e, m', hclaim, -⟩ | ⟨hex, index, i, m', hclaim, -⟩ <;>
    rw [hclaim]
  · exact iff_of_false (fun ⟨index, hok⟩ => by cases hok) (not_not_intro hex)
  · exact iff_of_true ⟨index, rfl⟩ hex

/-! ## Releases -/

/-- **A release takes away the index it is given** where its bit is
cleared or it is the last one taken, and no other. -/
theorem Sized.claimedIndices_release (h : Sized m) (hi : index < m.count)
    (hfree : index % 256 < 8 ∨ index + 1 = m.afterLastTaken) :
    claimedIndices (m.release index) = (claimedIndices m).erase index := by
  have hclear := fun k => bitAt_clearByte (i := k) (div_lt_length h.count_mod h.length_data hi)
  ext k
  rw [release_eq, Finset.mem_erase, mem_claimedIndices, mem_claimedIndices]
  simp only [hclear]
  constructor
  · rintro ⟨hk, hka, hbit, hne⟩
    refine ⟨fun heq => ?_, hk, ?_, hbit⟩
    · subst heq
      rcases hfree with hlow | htop
      · exact hne ⟨rfl, by omega⟩
      · rw [if_pos htop] at hka
        exact absurd hka (lt_irrefl _)
    · split at hka <;> omega
  · rintro ⟨hne, hk, hka, hbit⟩
    refine ⟨hk, ?_, hbit, fun hcon => hne hcon.1⟩
    split <;> omega

end AllocationMask

end Uberos
