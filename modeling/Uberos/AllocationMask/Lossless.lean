import Uberos.AllocationMask.Search
import Mathlib.Data.Finset.Card
/-!
# No index is lost

`release` shifts by the whole index where the byte's bit is the index
modulo eight, and the search answers no index at 8 or above modulo 256.
An index released elsewhere comes back only from the end of the mask, so
only where it was the last one taken. While every release is of one of
these two kinds the cursors bound the free indices and no claim is
refused that could be met; the first release of another kind loses its
index for good.
-/

namespace Uberos

namespace AllocationMask

open Library

variable {T : Target} {u : User} {op : Op}

/-- **What one operation promises**: a claim is refused only where every
index is held, and a released index can be claimed, by the very next
claim if any other and by a later one if it. -/
def Lossless (T : Target) (u : User) : Op → Prop
  | .claim => (∃ e, (claim T u.mask).1 = .error e) ↔ ∀ i < u.mask.count, i ∈ u.claimed
  | .release index =>
    (∃ j, (claim T (u.mask.release index)).1 = .ok j) ∧
      ∃ ops, Along (step T) Held (step T u (.release index)) ops ∧
        (claim T (run (step T) (step T u (.release index)) ops).mask).1 = .ok index

/-- The releases that free their index: of a bit the shift and the search
both reach, or from the end. -/
def Frees (u : User) : Op → Prop
  | .claim => True
  | .release index => index % 256 < 8 ∨ index + 1 = u.mask.afterLastTaken

instance Frees.decidable (u : User) : ∀ op, Decidable (Frees u op)
  | .claim => inferInstanceAs (Decidable True)
  | .release _ => inferInstanceAs (Decidable (_ ∨ _))

/-! ## Steps of any mask -/

/-- Whatever the mask, what the search finds is an open byte of it. -/
theorem search_found {m : AllocationMask} {e : ℕ} (h : search T m = .found e) :
    e < m.count ∧ byteAt m.data (e / 8) ≠ 0xff := by
  unfold search at h
  split at h
  · rename_i e' hseek
    injection h with h
    subst h
    exact ⟨(seekByte_found hseek).2.1, (seekByte_found hseek).2.2.1⟩
  · exact ⟨(seekByte_found h).2.1, (seekByte_found h).2.2.1⟩

/-- And where it finds none it has come to the end. -/
theorem search_passed {m : AllocationMask} {e : ℕ} (h : search T m = .passed e) : m.count ≤ e := by
  unfold search at h
  split at h
  · cases h
  · exact (seekByte_passed (by omega) h).2.2.1.resolve_right (by simp)

/-- **Where a claim's answer comes from**: the end of the mask, or the
first eight indices of a group of 256; and no claim moves
`afterLastTaken` down but to the end of the mask. -/
theorem claim_answer (m : AllocationMask) :
    (∀ index, (claim T m).1 = .ok index → index = m.afterLastTaken ∨ index % 256 < 8) ∧
      (m.afterLastTaken ≤ (claim T m).2.afterLastTaken ∨ m.count ≤ (claim T m).2.afterLastTaken) ∧
      (claim T m).2.count = m.count := by
  unfold claim
  split
  · exact ⟨nofun, Or.inl le_rfl, rfl⟩
  split
  · refine ⟨fun index h => Or.inl ?_, Or.inl (Nat.le_succ _), rfl⟩
    injection h with h
    exact h.symm
  split
  · rename_i e hsearch
    have hopen := (search_found hsearch).2
    refine ⟨fun index h => Or.inr ?_, Or.inl (le_max_left _ _), rfl⟩
    injection h with h
    have hindex : (take m e).1 = index := h
    rw [take_index hopen] at hindex
    have := (openBit_spec hopen).1
    omega
  · rename_i e hsearch
    exact ⟨nofun, Or.inr (search_passed hsearch), rfl⟩

/-- What one operation makes of the mask. -/
theorem step_claim_mask : (step T u .claim).mask = (claim T u.mask).2 := by
  simp only [step]
  split <;> rename_i hres <;> rw [hres]

theorem step_count (u : User) (op : Op) : (step T u op).mask.count = u.mask.count := by
  cases op with
  | claim => rw [step_claim_mask, (claim_answer u.mask).2.2]
  | release index => rfl

/-! ## Tracked masks -/

/-- What a run keeps while its releases free their indices: the bits
below `afterLastTaken` say what is held, and the cursors bound what is
free. -/
structure Tracked (u : User) : Prop where
  count_mod : u.mask.count % 32 = 0
  length_data : u.mask.data.length = u.mask.count / 8
  cursors_le : u.mask.earliestFree ≤ u.mask.afterLastTaken
  held_lt : ∀ i ∈ u.claimed, i < u.mask.count ∧ i < u.mask.afterLastTaken
  held_set : ∀ i ∈ u.claimed, bitAt u.mask.data i = true
  free_clear : ∀ i < u.mask.count, i < u.mask.afterLastTaken → i ∉ u.claimed →
    bitAt u.mask.data i = false ∧ i % 256 < 8 ∧ u.mask.earliestFree ≤ i

/-- A new mask holds nothing. -/
theorem tracked_new (T : Target) (_count : ℕ) : Tracked (User.new T _count) where
  count_mod := new_count_mod T _count
  length_data := new_length_data T _count
  cursors_le := le_rfl
  held_lt := fun i hi => absurd hi (Finset.notMem_empty i)
  held_set := fun i hi => absurd hi (Finset.notMem_empty i)
  free_clear := fun i _ hi => absurd hi (Nat.not_lt_zero i)

namespace Tracked

theorem byte_lt (h : Tracked u) {i : ℕ} (hi : i < u.mask.count) : i / 8 < u.mask.data.length :=
  div_lt_length h.count_mod h.length_data hi

/-- Once claimed to its end the mask is worn: the search reaches every
clear bit, so none lies at 8 or above modulo 32. -/
theorem worn (h : Tracked u) (hle : u.mask.count ≤ u.mask.afterLastTaken) :
    Worn u.mask.data u.mask.count := by
  intro i hi hi8
  by_cases hheld : i ∈ u.claimed
  · exact h.held_set i hheld
  · have := (h.free_clear i hi (by omega) hheld).2.1
    omega

/-- A free index below `afterLastTaken` puts an open byte in the
search's way. -/
theorem exists_firstOpen (h : Tracked u) {i : ℕ} (hi : i < u.mask.count)
    (ha : i < u.mask.afterLastTaken) (hfree : i ∉ u.claimed) : ∃ byte, FirstOpen u.mask byte := by
  obtain ⟨hclear, -, hle⟩ := h.free_clear i hi ha hfree
  exact AllocationMask.exists_firstOpen hi hle hclear

/-- What the search finds is free, and is its byte's own index: a bit
that is clear lies in the first byte of a group of 32. -/
theorem found (h : Tracked u) {byte : ℕ} (hle : u.mask.count ≤ u.mask.afterLastTaken)
    (hfirst : FirstOpen u.mask byte) :
    byte / 32 * 256 + openBit u.mask.data byte = 8 * byte + openBit u.mask.data byte ∧
      openBit u.mask.data byte < 8 ∧ 8 * byte + openBit u.mask.data byte < u.mask.count ∧
      8 * byte + openBit u.mask.data byte ∉ u.claimed := by
  obtain ⟨hlt8, hopen, -⟩ := openBit_spec hfirst.2.2.1
  have hcount := h.count_mod
  have hbyte := hfirst.2.1
  have hlt : 8 * byte + openBit u.mask.data byte < u.mask.count := by omega
  have hfree : 8 * byte + openBit u.mask.data byte ∉ u.claimed := by
    intro hheld
    rw [h.held_set _ hheld] at hopen
    cases hopen
  have := (h.free_clear _ hlt (by omega) hfree).2.1
  exact ⟨by omega, hlt8, hlt, hfree⟩

/-- What a claim answers is one of the mask's indices and was free. -/
theorem claim_free (h : Tracked u) {index : ℕ} (hok : (claim T u.mask).1 = .ok index) :
    index < u.mask.count ∧ index ∉ u.claimed := by
  rcases claim_cases (T := T) (by have := h.count_mod; omega) (fun _ => h.worn) with
    ⟨-, hclaim⟩ | ⟨-, hlt, hclaim⟩ | ⟨hle, byte, hfirst, hclaim⟩ | ⟨-, hle, -, e, he, -, hclaim⟩ <;>
    rw [hclaim] at hok
  · cases hok
  · injection hok with hok
    subst hok
    exact ⟨hlt, fun hmem => absurd (h.held_lt _ hmem).2 (lt_irrefl _)⟩
  · injection hok with hok
    obtain ⟨heq, -, hlt, hfree⟩ := h.found hle hfirst
    rw [heq] at hok
    subst hok
    exact ⟨hlt, hfree⟩
  · cases hok

/-- **A claim is refused exactly where every index is held.** -/
theorem claim_error_iff (h : Tracked u) :
    (∃ e, (claim T u.mask).1 = .error e) ↔ ∀ i < u.mask.count, i ∈ u.claimed := by
  constructor
  · rintro ⟨e, herr⟩ i hi
    by_contra hfree
    rcases claim_cases (T := T) (by have := h.count_mod; omega) (fun _ => h.worn) with
      ⟨hle, -⟩ | ⟨-, -, hclaim⟩ | ⟨-, byte, -, hclaim⟩ | ⟨-, hle, hnone, -⟩
    · have := h.cursors_le
      have := (h.free_clear i hi (by omega) hfree).2.2
      omega
    · rw [hclaim] at herr
      cases herr
    · rw [hclaim] at herr
      cases herr
    · obtain ⟨byte, hfirst⟩ := h.exists_firstOpen hi (by omega) hfree
      exact hnone byte hfirst
  · intro hall
    rcases hres : (claim T u.mask).1 with e | index
    · exact ⟨e, rfl⟩
    · obtain ⟨hlt, hfree⟩ := h.claim_free hres
      exact absurd (hall index hlt) hfree

/-- **A claim is met while an index is free.** -/
theorem claim_ok (h : Tracked u) {i : ℕ} (hi : i < u.mask.count) (hfree : i ∉ u.claimed) :
    ∃ j, (claim T u.mask).1 = .ok j := by
  rcases hres : (claim T u.mask).1 with e | j
  · exact absurd (h.claim_error_iff.1 ⟨e, hres⟩ i hi) hfree
  · exact ⟨j, rfl⟩

end Tracked

/-- **Setting the bit of a free index keeps them**, with cursors that pass
over no other free one. -/
theorem Tracked.mark (h : Tracked u) {i e a : ℕ} (hi : i < u.mask.count) (ha : i < a)
    (hcursors : e ≤ a) (hle : u.mask.afterLastTaken ≤ a)
    (hpass : ∀ k < u.mask.count, k < a → k < u.mask.afterLastTaken ∨ k = i)
    (hearliest : ∀ k, k ≠ i → bitAt u.mask.data k = false → u.mask.earliestFree ≤ k → e ≤ k) :
    Tracked ⟨{ u.mask with
      data := orByte u.mask.data (i / 8) (i % 8)
      earliestFree := e
      afterLastTaken := a }, insert i u.claimed⟩ := by
  have hset := fun k => bitAt_orByte_index (i := k) (h.byte_lt hi)
  refine ⟨h.count_mod, ?_, hcursors, ?_, ?_, ?_⟩
  · simp only [orByte, List.length_set]
    exact h.length_data
  · intro k hk
    rcases Finset.mem_insert.1 hk with rfl | hk
    · exact ⟨hi, ha⟩
    · exact ⟨(h.held_lt k hk).1, lt_of_lt_of_le (h.held_lt k hk).2 hle⟩
  · intro k hk
    rcases Finset.mem_insert.1 hk with rfl | hk
    · exact (hset _).2 (Or.inl rfl)
    · exact (hset k).2 (Or.inr (h.held_set k hk))
  · intro k hk hka hfree
    rw [Finset.mem_insert, not_or] at hfree
    obtain ⟨hclear, hmod, hge⟩ :=
      h.free_clear k hk ((hpass k hk hka).resolve_right hfree.1) hfree.2
    refine ⟨?_, hmod, hearliest k hfree.1 hclear hge⟩
    rw [Bool.eq_false_iff, Ne, hset, not_or, Bool.not_eq_true]
    exact ⟨hfree.1, hclear⟩

/-- A claim keeps the bits and the cursors. -/
theorem Tracked.claim (h : Tracked u) : Tracked (step T u .claim) := by
  rcases claim_cases (T := T) (by have := h.count_mod; omega) (fun _ => h.worn) with
    ⟨-, hclaim⟩ | ⟨-, hlt, hclaim⟩ | ⟨hle, byte, hfirst, hclaim⟩ | ⟨-, hle, hnone, e, he, -, hclaim⟩
  · simp only [AllocationMask.step, hclaim]
    exact h
  · simp only [AllocationMask.step, hclaim]
    exact h.mark hlt (Nat.lt_succ_self _) (Nat.le_succ_of_le h.cursors_le) (Nat.le_succ _)
      (fun k _ hk => by omega) fun k _ _ hge => hge
  · obtain ⟨heq, hlt8, hlt, -⟩ := h.found hle hfirst
    have hdiv : (8 * byte + openBit u.mask.data byte) / 8 = byte := by omega
    have hmod : (8 * byte + openBit u.mask.data byte) % 8 = openBit u.mask.data byte := by omega
    have hmark := h.mark hlt (Nat.lt_succ_self _ |>.trans_le (le_max_right u.mask.afterLastTaken _))
      (le_max_right _ _) (le_max_left _ _) (fun k hk _ => by omega) fun k hne hclear hge => ?_
    · rw [hdiv, hmod] at hmark
      simp only [AllocationMask.step, hclaim, heq]
      exact hmark
    · -- every bit from the cursor up to the one taken is set
      by_contra hlow
      have hset := hfirst.set_below hge (i := k) (by omega)
      rw [hclear] at hset
      cases hset
  · simp only [AllocationMask.step, hclaim]
    refine ⟨h.count_mod, h.length_data, le_rfl, ?_, h.held_set, ?_⟩
    · intro i hi
      have := (h.held_lt i hi).1
      exact ⟨this, by simp only; omega⟩
    · intro i hi _ hfree
      obtain ⟨byte, hfirst⟩ := h.exists_firstOpen hi (by simp only at hi; omega) hfree
      exact absurd hfirst (hnone byte)

/-- A release that frees its index keeps them too. -/
theorem Tracked.release (h : Tracked u) {index : ℕ} (hheld : index ∈ u.claimed)
    (hfrees : index % 256 < 8 ∨ index + 1 = u.mask.afterLastTaken) :
    Tracked (step T u (.release index)) := by
  have hlt := h.held_lt index hheld
  have hclear := fun i => bitAt_clearByte (i := i) (h.byte_lt hlt.1)
  simp only [AllocationMask.step, release_eq]
  refine ⟨h.count_mod, ?_, ?_, ?_, ?_, ?_⟩
  · simp only [clearByte, List.length_set]
    exact h.length_data
  · have := h.cursors_le
    simp only
    split <;> omega
  · intro i hi
    obtain ⟨hne, hi⟩ := Finset.mem_erase.1 hi
    have := h.held_lt i hi
    refine ⟨this.1, ?_⟩
    simp only
    split <;> omega
  · intro i hi
    obtain ⟨hne, hi⟩ := Finset.mem_erase.1 hi
    exact (hclear i).2 ⟨h.held_set i hi, fun hcon => hne hcon.1⟩
  · intro i hi ha hfree
    rw [Finset.mem_erase, not_and] at hfree
    simp only at hi ha ⊢
    rw [Bool.eq_false_iff, Ne, hclear]
    by_cases heq : i = index
    · have hmod : index % 256 < 8 := by
        rcases hfrees with hmod | hlast
        · exact hmod
        · rw [if_pos hlast] at ha
          omega
      subst heq
      exact ⟨fun hcon => hcon.2 ⟨rfl, by omega⟩, hmod, min_le_left _ _⟩
    · obtain ⟨hbit, hmod, hge⟩ := h.free_clear i hi (by split at ha <;> omega) (hfree heq)
      refine ⟨fun hcon => ?_, hmod, le_trans (min_le_right _ _) hge⟩
      rw [hbit] at hcon
      cases hcon.1

/-- **The step lemma.** -/
theorem Tracked.step (h : Tracked u) (hheld : Held u op) (hfrees : Frees u op) :
    Tracked (step T u op) := by
  cases op with
  | claim => exact h.claim
  | release index => exact h.release hheld hfrees

/-- **A free index is reached by claiming.** Each claim takes one of the
free indices, of which there are finitely many. -/
theorem Tracked.reached (h : Tracked u) {i : ℕ} (hi : i < u.mask.count) (hfree : i ∉ u.claimed) :
    ∃ ops, Along (AllocationMask.step T) Held u ops ∧
      (AllocationMask.claim T (run (AllocationMask.step T) u ops).mask).1 = .ok i := by
  induction hn : (Finset.range u.mask.count \ u.claimed).card using Nat.strong_induction_on
    generalizing u with
  | _ n ih =>
    obtain ⟨j, hj⟩ := h.claim_ok (T := T) hi hfree
    by_cases hij : j = i
    · exact ⟨[], trivial, by rw [run_nil, hj, hij]⟩
    · obtain ⟨hjlt, hjfree⟩ := h.claim_free hj
      have hstep : (AllocationMask.step T u .claim).claimed = insert j u.claimed := by
        simp only [AllocationMask.step]
        split
        · rename_i hres
          rw [hres] at hj
          injection hj with hj
          rw [hj]
        · rename_i hres
          rw [hres] at hj
          cases hj
      have hcount := step_count (T := T) u .claim
      have hfewer : (Finset.range u.mask.count \ insert j u.claimed).card < n := by
        rw [← hn]
        refine Finset.card_lt_card ⟨Finset.sdiff_subset_sdiff le_rfl (Finset.subset_insert _ _),
          fun hsub => ?_⟩
        have := hsub (Finset.mem_sdiff.2 ⟨Finset.mem_range.2 hjlt, hjfree⟩)
        exact (Finset.mem_sdiff.1 this).2 (Finset.mem_insert_self _ _)
      obtain ⟨ops, hops, hres⟩ := ih _ hfewer (h.claim (T := T)) (by rw [hcount]; exact hi)
        (by rw [hstep, Finset.mem_insert, not_or]; exact ⟨Ne.symm hij, hfree⟩)
        (by rw [hcount, hstep])
      exact ⟨.claim :: ops, ⟨trivial, hops⟩, hres⟩

/-! ## Lost indices -/

/-- Free, below `afterLastTaken`, and where the search answers nothing. -/
structure Lost (i : ℕ) (u : User) : Prop where
  lt_count : i < u.mask.count
  lt_last : i < u.mask.afterLastTaken
  unreached : 8 ≤ i % 256
  free : i ∉ u.claimed

/-- No claim answers a lost index. -/
theorem Lost.claim_ne {i : ℕ} (h : Lost i u) : (claim T u.mask).1 ≠ .ok i := by
  intro hok
  have := h.lt_last
  have := h.unreached
  rcases (claim_answer u.mask).1 i hok with heq | hmod <;> omega

/-- **A lost index stays lost.** Only the index at `afterLastTaken` moves
it down, and that one is held. -/
theorem Lost.step {i : ℕ} (h : Lost i u) (hheld : Held u op) : Lost i (step T u op) := by
  have hlt := h.lt_last
  cases op with
  | claim =>
    have hcount := h.lt_count
    refine ⟨by rw [step_count]; exact hcount, ?_, h.unreached, fun hmem => ?_⟩
    · rw [step_claim_mask]
      rcases (claim_answer (T := T) u.mask).2.1 with hle | hle <;> omega
    · simp only [AllocationMask.step] at hmem
      split at hmem
      · rename_i index mask hres
        rcases Finset.mem_insert.1 hmem with heq | hmem
        · exact h.claim_ne (T := T) (by rw [hres, heq])
        · exact h.free hmem
      · exact h.free hmem
  | release index =>
    refine ⟨by rw [step_count]; exact h.lt_count, ?_, h.unreached,
      fun hmem => h.free (Finset.mem_of_mem_erase hmem)⟩
    have hne : i ≠ index := fun heq => h.free (heq ▸ hheld)
    simp only [AllocationMask.step, release_eq]
    split <;> omega

/-- A claim refused with an index free breaks the promise. -/
theorem not_lossless {e : String} {i : ℕ} (hi : i < u.mask.count) (hfree : i ∉ u.claimed)
    (herr : (claim T u.mask).1 = .error e) : ¬ Lossless T u .claim := fun h =>
  hfree (h.1 ⟨e, herr⟩ i hi)

/-! ## The runs -/

/-- **A step keeps the promise exactly when it frees its index.** -/
theorem lossless_iff_frees (h : Tracked u) (hheld : Held u op) :
    Lossless T u op ↔ Frees u op := by
  cases op with
  | claim => exact iff_of_true h.claim_error_iff trivial
  | release index =>
    have hlt := h.held_lt index hheld
    constructor
    · rintro ⟨-, ops, hops, hres⟩
      by_contra hfrees
      rw [Frees, not_or] at hfrees
      have hlost : Lost index (AllocationMask.step T u (.release index)) := by
        refine ⟨hlt.1, ?_, by omega, Finset.notMem_erase index u.claimed⟩
        simp only [AllocationMask.step, release_eq]
        rw [if_neg hfrees.2]
        exact hlt.2
      exact (run_invariant hops hlost fun _ _ h hheld => h.step hheld).claim_ne hres
    · intro hfrees
      have hnext := h.release (T := T) hheld hfrees
      exact ⟨hnext.claim_ok hlt.1 (Finset.notMem_erase index u.claimed),
        hnext.reached hlt.1 (Finset.notMem_erase index u.claimed)⟩

/-- **A run loses no index exactly when each of its releases frees its
index**: one below 8 modulo 256, or the last one taken. -/
theorem lossless_run_iff (T : Target) (_count : ℕ) (ops : List Op)
    (hheld : Along (step T) Held (User.new T _count) ops) :
    Along (step T) (Lossless T) (User.new T _count) ops ↔
      Along (step T) Frees (User.new T _count) ops :=
  along_iff_of_invariant hheld (tracked_new T _count)
    (fun _ _ h hheld => lossless_iff_frees h hheld) fun _ _ h hheld hfrees => h.step hheld hfrees

/-- Index 3 is released and claimed again. -/
theorem lossless_run_frees :
    Along (step .x86_32) (Lossless .x86_32) (User.new .x86_32 32)
      (List.replicate 32 .claim ++ [.release 3, .claim]) :=
  (lossless_run_iff .x86_32 32 _ (by decide +kernel)).2 (by decide +kernel)

/-- **Index 8 is lost**: released from a mask of which all else is held,
it is refused to the next claim. -/
theorem lossless_run_broken :
    Along (step .x86_32) Held (User.new .x86_32 32)
        (List.replicate 32 .claim ++ [.release 8, .claim]) ∧
      ¬ Along (step .x86_32) (Lossless .x86_32) (User.new .x86_32 32)
        (List.replicate 32 .claim ++ [.release 8, .claim]) := by
  refine ⟨by decide +kernel, fun h => ?_⟩
  obtain ⟨-, -, hrefused, -⟩ := along_append.1 h
  exact (not_lossless (e := "No allocation pages remain") (i := 8) (by decide +kernel)
    (by decide +kernel) (by decide +kernel)) hrefused

end AllocationMask

end Uberos
