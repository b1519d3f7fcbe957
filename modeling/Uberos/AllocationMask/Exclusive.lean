import Uberos.AllocationMask.Search
/-!
# No index is handed out twice

What `claim` finds and what it answers part ways: the cursor is masked
with `~0xff` where the byte's own bits end at 8, so a search that stops
at any byte but the first of its 32 answers an index of that first byte
and marks another. A run in which no search stops there hands out each
index once and touches no other bit; a run in which one does has broken
the promise at that step.
-/

namespace Uberos

namespace AllocationMask

open Library

variable {T : Target} {u : User} {op : Op}

/-- **What one operation promises**: a claimed index is one of the mask's
and is not held at that moment, and no bit changes but the one of the
index returned or given. -/
def Exclusive (T : Target) (u : User) : Op → Prop
  | .claim =>
    (∀ index, (claim T u.mask).1 = .ok index → index < u.mask.count ∧ index ∉ u.claimed) ∧
      ∀ j, (claim T u.mask).1 ≠ .ok j → bitAt (claim T u.mask).2.data j = bitAt u.mask.data j
  | .release index => ∀ j, j ≠ index → bitAt (u.mask.release index).data j = bitAt u.mask.data j

/-- **The search stops at the first byte of a group of 32**, or is not
made, the mask having its end to claim from. -/
def StopsAtGroup (u : User) : Op → Prop
  | .claim => u.mask.count ≤ u.mask.afterLastTaken → ∀ byte, FirstOpen u.mask byte → byte % 32 = 0
  | .release _ => True

instance StopsAtGroup.decidable (u : User) (op : Op) : Decidable (StopsAtGroup u op) :=
  match op with
  | .claim =>
    decidable_of_iff (u.mask.count ≤ u.mask.afterLastTaken →
        ∀ byte < u.mask.count, FirstOpen u.mask byte → byte % 32 = 0)
      ⟨fun h hle byte hfirst => h hle byte (by have := hfirst.2.1; omega) hfirst,
        fun h hle byte _ => h hle byte⟩
  | .release _ => inferInstanceAs (Decidable True)

/-- What a run keeps while its searches stop there: held indices are
marked and below `afterLastTaken`, and the bits a release leaves alone
stay set once claimed. -/
structure Marked (u : User) : Prop where
  count_mod : u.mask.count % 32 = 0
  length_data : u.mask.data.length = u.mask.count / 8
  held_lt : ∀ i ∈ u.claimed, i < u.mask.count ∧ i < u.mask.afterLastTaken
  held_set : ∀ i ∈ u.claimed, bitAt u.mask.data i = true
  worn : ∀ i < u.mask.count, i < u.mask.afterLastTaken → 8 ≤ i % 32 → bitAt u.mask.data i = true

namespace Marked

theorem worn_of_le (h : Marked u) (hle : u.mask.count ≤ u.mask.afterLastTaken) :
    Worn u.mask.data u.mask.count :=
  fun i hi hi8 => h.worn i hi (by omega) hi8

theorem byte_lt (h : Marked u) {i : ℕ} (hi : i < u.mask.count) : i / 8 < u.mask.data.length :=
  div_lt_length h.count_mod h.length_data hi

/-- The first open byte lies in the storage. -/
theorem firstOpen_lt (h : Marked u) {byte : ℕ} (hfirst : FirstOpen u.mask byte) :
    byte < u.mask.data.length := by
  have := h.byte_lt hfirst.2.1
  rwa [Nat.mul_div_cancel_left _ (by decide)] at this

end Marked

/-- A new mask holds nothing. -/
theorem marked_new (T : Target) (_count : ℕ) : Marked (User.new T _count) where
  count_mod := new_count_mod T _count
  length_data := new_length_data T _count
  held_lt := fun i hi => absurd hi (Finset.notMem_empty i)
  held_set := fun i hi => absurd hi (Finset.notMem_empty i)
  worn := fun i _ hi => absurd hi (Nat.not_lt_zero i)

/-- A mask with its cursors moved keeps its marks, if `afterLastTaken`
passes no index that is not marked. -/
theorem Marked.cursors (h : Marked u) {e : ℕ} (hle : u.mask.count ≤ u.mask.afterLastTaken)
    (he : u.mask.count ≤ e) :
    Marked ⟨{ u.mask with earliestFree := e, afterLastTaken := e }, u.claimed⟩ where
  count_mod := h.count_mod
  length_data := h.length_data
  held_lt := fun i hi => ⟨(h.held_lt i hi).1, by have := (h.held_lt i hi).1; simp only; omega⟩
  held_set := h.held_set
  worn := fun i hi _ => h.worn i hi (by simp only at hi; omega)

/-- Marking an index and adding it to the held ones keeps the marks. -/
theorem Marked.mark (h : Marked u) {index eF aLT : ℕ} (hlt : index < u.mask.count)
    (haLT : index < aLT) (hle : u.mask.afterLastTaken ≤ aLT)
    (hpass : ∀ i < u.mask.count, i < aLT → i < u.mask.afterLastTaken ∨ i = index) :
    Marked ⟨{ u.mask with
      data := orByte u.mask.data (index / 8) (index % 8)
      earliestFree := eF
      afterLastTaken := aLT }, insert index u.claimed⟩ := by
  have hset := fun i => bitAt_orByte_index (i := i) (h.byte_lt hlt)
  refine ⟨h.count_mod, ?_, ?_, ?_, ?_⟩
  · simp only [orByte, List.length_set]
    exact h.length_data
  · intro i hi
    rcases Finset.mem_insert.1 hi with rfl | hi
    · exact ⟨hlt, haLT⟩
    · exact ⟨(h.held_lt i hi).1, lt_of_lt_of_le (h.held_lt i hi).2 hle⟩
  · intro i hi
    rcases Finset.mem_insert.1 hi with rfl | hi
    · exact (hset i).2 (Or.inl rfl)
    · exact (hset i).2 (Or.inr (h.held_set i hi))
  · intro i hi ha hi8
    rcases hpass i hi ha with ha | rfl
    · exact (hset i).2 (Or.inr (h.worn i hi ha hi8))
    · exact (hset i).2 (Or.inl rfl)

/-- Releasing a held index keeps the marks of the others. -/
theorem Marked.release (h : Marked u) {index : ℕ} (hheld : index ∈ u.claimed) :
    Marked ⟨u.mask.release index, u.claimed.erase index⟩ := by
  have hlt := h.held_lt index hheld
  have hclear := fun i => bitAt_clearByte (i := i) (h.byte_lt hlt.1)
  rw [release_eq]
  refine ⟨h.count_mod, ?_, ?_, ?_, ?_⟩
  · simp only [clearByte, List.length_set]
    exact h.length_data
  · intro i hi
    obtain ⟨hne, hi⟩ := Finset.mem_erase.1 hi
    have := h.held_lt i hi
    refine ⟨this.1, ?_⟩
    simp only
    split <;> omega
  · intro i hi
    obtain ⟨hne, hi⟩ := Finset.mem_erase.1 hi
    exact (hclear i).2 ⟨h.held_set i hi, fun hcon => hne hcon.1⟩
  · intro i hi ha hi8
    refine (hclear i).2 ⟨h.worn i hi ?_ hi8, by omega⟩
    simp only at ha
    split at ha <;> omega

/-- **The step lemma.** A step whose search stops at a group of 32 keeps
the marks. -/
theorem Marked.step (h : Marked u) (hheld : Held u op) (hstop : StopsAtGroup u op) :
    Marked (step T u op) := by
  cases op with
  | release index => exact h.release hheld
  | claim =>
    rcases claim_cases (T := T) (by have := h.count_mod; omega)
        (fun _ => h.worn_of_le) with
      ⟨-, hclaim⟩ | ⟨-, hlt, hclaim⟩ | ⟨hle, byte, hfirst, hclaim⟩ | ⟨-, hle, -, e, he, -, hclaim⟩
    · simp only [AllocationMask.step, hclaim]
      exact h
    · simp only [AllocationMask.step, hclaim]
      exact h.mark hlt (Nat.lt_succ_self _) (Nat.le_succ _) fun i _ hi => by omega
    · have hgroup := hstop hle byte hfirst
      have hlt8 := (openBit_spec hfirst.2.2.1).1
      have hcount := h.count_mod
      have hbyte := hfirst.2.1
      have hindex : byte / 32 * 256 + openBit u.mask.data byte =
          8 * byte + openBit u.mask.data byte := by omega
      simp only [AllocationMask.step, hclaim, hindex]
      have hdiv : byte = (8 * byte + openBit u.mask.data byte) / 8 := by omega
      have hmod : openBit u.mask.data byte = (8 * byte + openBit u.mask.data byte) % 8 := by omega
      have hdata : orByte u.mask.data byte (openBit u.mask.data byte) =
          orByte u.mask.data ((8 * byte + openBit u.mask.data byte) / 8)
            ((8 * byte + openBit u.mask.data byte) % 8) := by rw [← hdiv, ← hmod]
      rw [hdata]
      exact h.mark (by omega) (by omega) (by omega) fun i hi _ => Or.inl (by omega)
    · simp only [AllocationMask.step, hclaim]
      exact h.cursors hle he

/-- **A step keeps the promise exactly when its search stops at a group
of 32.** Where it stops at another byte the bit marked is that byte's,
and the index answered is not. -/
theorem exclusive_iff_stopsAtGroup (h : Marked u) (hheld : Held u op) :
    Exclusive T u op ↔ StopsAtGroup u op := by
  cases op with
  | release index =>
    have hbyte := h.byte_lt (h.held_lt index hheld).1
    refine iff_of_true (fun j hj => ?_) trivial
    rw [release_eq, Bool.eq_iff_iff]
    exact (bitAt_clearByte hbyte).trans (and_iff_left fun hcon => hj hcon.1)
  | claim =>
    simp only [Exclusive, StopsAtGroup]
    rcases claim_cases (T := T) (by have := h.count_mod; omega)
        (fun _ => h.worn_of_le) with
      ⟨hle, hclaim⟩ | ⟨-, hlt, hclaim⟩ | ⟨hle, byte, hfirst, hclaim⟩ |
      ⟨-, -, hnone, e, -, -, hclaim⟩
    · refine iff_of_true ?_ fun _ byte hfirst => ?_
      · simp [hclaim]
      · have := h.count_mod
        have := hfirst.1
        have := hfirst.2.1
        omega
    · refine iff_of_true ?_ fun hcon => absurd hcon (by omega)
      simp only [hclaim]
      refine ⟨fun index hindex => ?_, fun j hj => ?_⟩
      · injection hindex with hindex
        subst hindex
        exact ⟨hlt, fun hmem => absurd (h.held_lt _ hmem).2 (lt_irrefl _)⟩
      · have hne : j ≠ u.mask.afterLastTaken := fun hcon => hj (by rw [hcon])
        rw [Bool.eq_iff_iff, bitAt_orByte_index (h.byte_lt hlt)]
        exact or_iff_right hne
    · simp only [hclaim]
      obtain ⟨hlt8, hopen, -⟩ := openBit_spec hfirst.2.2.1
      have hmarked : ∀ j, bitAt (orByte u.mask.data byte (openBit u.mask.data byte)) j = true ↔
          j = 8 * byte + openBit u.mask.data byte ∨ bitAt u.mask.data j = true := fun _ =>
        bitAt_orByte (h.firstOpen_lt hfirst) hlt8
      constructor
      · -- the bit marked is that of the byte found, which the answer has to name
        rintro ⟨-, hframe⟩ - byte' hfirst'
        rw [hfirst'.unique hfirst]
        by_contra hgroup
        have hkeep := hframe (8 * byte + openBit u.mask.data byte) fun hcon => by
          injection hcon with hcon
          omega
        rw [hopen, (hmarked _).2 (Or.inl rfl)] at hkeep
        cases hkeep
      · intro hgroup
        have hmod := hgroup hle byte hfirst
        have hcount := h.count_mod
        have hbyte := hfirst.2.1
        refine ⟨fun index hindex => ?_, fun j hj => ?_⟩
        · injection hindex with hindex
          have hindex' : index = 8 * byte + openBit u.mask.data byte := by omega
          subst hindex'
          refine ⟨by omega, fun hmem => ?_⟩
          rw [h.held_set _ hmem] at hopen
          cases hopen
        · have hne : j ≠ 8 * byte + openBit u.mask.data byte := fun hcon =>
            hj (by rw [hcon]; congr 1; omega)
          rw [Bool.eq_iff_iff, hmarked]
          exact or_iff_right hne
    · refine iff_of_true ?_ fun _ byte hfirst => absurd hfirst (hnone byte)
      simp [hclaim]

/-- **A run hands out each index once, and touches no other bit, exactly
when each of its searches stops at the first byte of a group of 32.** -/
theorem exclusive_run_iff (T : Target) (_count : ℕ) (ops : List Op)
    (hheld : Along (step T) Held (User.new T _count) ops) :
    Along (step T) (Exclusive T) (User.new T _count) ops ↔
      Along (step T) StopsAtGroup (User.new T _count) ops :=
  along_iff_of_invariant hheld (marked_new T _count)
    (fun _ _ h hheld => exclusive_iff_stopsAtGroup h hheld) fun _ _ h hheld hstop => h.step hheld hstop

/-- A search that stops in the first byte: index 3 is released and
claimed again. -/
theorem exclusive_run_found :
    Along (step .x86_32) (Exclusive .x86_32) (User.new .x86_32 32)
      (List.replicate 32 .claim ++ [.release 3, .claim]) :=
  (exclusive_run_iff .x86_32 32 _ (by decide +kernel)).2 (by decide +kernel)

/-- **The promise is broken at 64 pages**: with all of them claimed,
releasing index 32 and claiming again answers index 0, which is held. -/
theorem exclusive_run_twice :
    Along (step .x86_32) Held (User.new .x86_32 64)
        (List.replicate 64 .claim ++ [.release 32, .claim]) ∧
      ¬ Along (step .x86_32) (Exclusive .x86_32) (User.new .x86_32 64)
        (List.replicate 64 .claim ++ [.release 32, .claim]) := by
  refine ⟨by decide +kernel, fun h => ?_⟩
  obtain ⟨-, -, ⟨hnew, -⟩, -⟩ := along_append.1 h
  exact (hnew 0 (by decide +kernel)).2 (by decide +kernel)

end AllocationMask

end Uberos
