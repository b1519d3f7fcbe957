import Uberos.AllocationMask.Claimed
/-!
# What the cursors guarantee

The two fields are documented: no unset bit lies before `earliestFree`, and
no set one from `afterLastTaken` onwards. A release of the last index taken
moves the latter below a bit that the shift may not have cleared, and a search
that finds nothing goes on by eight to where it leaves both of them.
-/

namespace Uberos

namespace AllocationMask

open Library

variable {T : Target} {u : User} {m : AllocationMask} {op : Op}

/-- **The documented guarantees**, with cursors that are no further than the
end of the mask. -/
structure Guaranteed (m : AllocationMask) : Prop where
  set_before : ∀ i < m.count, i < m.earliestFree → bitAt m.data i = true
  unset_onwards : ∀ i < m.count, m.afterLastTaken ≤ i → bitAt m.data i = false
  earliestFree_le : m.earliestFree ≤ m.count
  afterLastTaken_le : m.afterLastTaken ≤ m.count

/-- What is released is claimed: the user holds it, or the mask has it marked. -/
def Claimed (u : User) : Op → Prop
  | .claim => True
  | .release index =>
    index ∈ u.claimed ∨ index < u.mask.count ∧ bitAt u.mask.data index = true

/-- **The last index taken is released where the shift clears its bit, and a
search that finds nothing is one from a byte's first bit.** -/
def KeepsCursors (u : User) : Op → Prop
  | .claim => u.mask.count ≤ u.mask.afterLastTaken → (∀ byte, ¬FirstOpen u.mask byte) →
      u.mask.earliestFree % 8 = 0
  | .release index => index + 1 = u.mask.afterLastTaken → index % 32 < 8

instance Claimed.decidable (u : User) (op : Op) : Decidable (Claimed u op) :=
  match op with
  | .claim => isTrue trivial
  | .release _ => inferInstanceAs (Decidable (_ ∨ _))

/-- A search finds none beyond the count. -/
theorem forall_not_firstOpen_iff :
    (∀ byte < m.count, ¬FirstOpen m byte) ↔ ∀ byte, ¬FirstOpen m byte := by
  refine ⟨fun h byte hfirst => ?_, fun h byte _ => h byte⟩
  have hlt := hfirst.2.1
  exact h byte (by omega) hfirst

instance KeepsCursors.decidable (u : User) (op : Op) : Decidable (KeepsCursors u op) :=
  match op with
  | .claim =>
    have : Decidable (∀ byte, ¬FirstOpen u.mask byte) := decidable_of_iff _ forall_not_firstOpen_iff
    inferInstanceAs (Decidable (_ → _ → _))
  | .release _ => inferInstanceAs (Decidable (_ → _))

/-! ## Where a search ends -/

/-- The loops go on by eight, or by `Reg`s. -/
theorem seekByte_mod {data : List (BitVec 8)} {count : ℕ} {stop : ℕ → Bool} {fuel e e' : ℕ}
    (h : seekByte data count stop fuel e = .passed e') : e' % 8 = e % 8 := by
  induction fuel generalizing e with
  | zero =>
    injection h with h
    rw [h]
  | succ fuel ih =>
    rw [seekByte] at h
    split at h
    · split at h
      · rw [ih h, Nat.add_mod_right]
      · cases h
    · injection h with h
      rw [h]

theorem seekReg_mod (T : Target) (data : List (BitVec 8)) (count fuel e : ℕ) :
    seekReg T data count fuel e % 8 = e % 8 := by
  induction fuel generalizing e with
  | zero => rfl
  | succ fuel ih =>
    rw [seekReg]
    split
    · split
      · rfl
      · rw [ih, Nat.add_mul_mod_self_left]
    · rfl

theorem search_mod {e : ℕ} (h : search T m = .passed e) : e % 8 = m.earliestFree % 8 := by
  unfold search at h
  split at h
  · cases h
  · next e' hseek => rw [seekByte_mod h, seekReg_mod, seekByte_mod hseek]

/-- A claim that is refused leaves the cursor where it was in its byte. -/
theorem earliestFree_mod_of_error {message : String} (h : (claim T m).1 = .error message) :
    (claim T m).2.earliestFree % 8 = m.earliestFree % 8 := by
  unfold claim at h ⊢
  split at h
  · next hfull => rw [if_pos hfull]
  · next hfree =>
    rw [if_neg hfree]
    split at h
    · cases h
    · next hend =>
      rw [if_neg hend]
      split at h
      · cases h
      · next e hsearch => exact search_mod hsearch

/-! ## What a run keeps -/

/-- **The guarantees, and what they rest on.** The bits a release never clears
are set once claimed, and what the user holds is marked. -/
structure Sound (u : User) : Prop extends Guaranteed u.mask, Sized u.mask where
  worn : ∀ i < u.mask.count, i < u.mask.afterLastTaken → 8 ≤ i % 32 → bitAt u.mask.data i = true
  held_set : ∀ i ∈ u.claimed, i < u.mask.count ∧ bitAt u.mask.data i = true

theorem sound_new (T : Target) (_count : ℕ) : Sound (User.new T _count) where
  set_before := fun i _ hi => absurd hi (Nat.not_lt_zero i)
  unset_onwards := by
    intro i hi _
    have hbyte : i / 8 < (AllocationMask.new T _count).data.length :=
      div_lt_length (new_count_mod T _count) (new_length_data T _count) hi
    rw [User.new, bitAt, byteAt, List.getD_eq_getElem?_getD, List.getElem?_eq_getElem hbyte]
    simp only [AllocationMask.new, List.getElem_replicate, Option.getD_some]
    exact BitVec.getLsbD_zero
  earliestFree_le := Nat.zero_le _
  afterLastTaken_le := Nat.zero_le _
  toSized := sized_new T _count
  worn := fun i _ hi => absurd hi (Nat.not_lt_zero i)
  held_set := fun i hi => absurd hi (Finset.notMem_empty i)

namespace Sound

theorem byte_lt (h : Sound u) {i : ℕ} (hi : i < u.mask.count) : i / 8 < u.mask.data.length :=
  div_lt_length h.count_mod h.length_data hi

theorem worn_of_le (h : Sound u) (hle : u.mask.count ≤ u.mask.afterLastTaken) :
    Worn u.mask.data u.mask.count :=
  fun i hi hi8 => h.worn i hi (by omega) hi8

/-- What is claimed lies below `afterLastTaken`, and is marked. -/
theorem claimed_lt (h : Sound u) {index : ℕ} (hclaimed : Claimed u (.release index)) :
    index < u.mask.count ∧ index < u.mask.afterLastTaken ∧ bitAt u.mask.data index = true := by
  obtain ⟨hlt, hset⟩ : index < u.mask.count ∧ bitAt u.mask.data index = true :=
    hclaimed.elim (h.held_set index) id
  refine ⟨hlt, ?_, hset⟩
  by_contra hle
  rw [h.unset_onwards index hlt (by omega)] at hset
  cases hset

/-- Every bit below the first open one is set. -/
theorem set_below (h : Sound u) {byte i : ℕ} (hfirst : FirstOpen u.mask byte)
    (hi : i < 8 * byte + openBit u.mask.data byte) : bitAt u.mask.data i = true := by
  have hbyte := hfirst.2.1
  have hend := h.earliestFree_le
  rcases Nat.lt_or_ge i u.mask.earliestFree with hbefore | hfrom
  · exact h.set_before i (by omega) hbefore
  · exact hfirst.set_below hfrom hi

end Sound

/-! ## What one operation does -/

/-- A bit is set, and the cursors pass over none that is not, and over no
index but that one. -/
theorem Sound.mark (h : Sound u) {i j e a : ℕ} (hi : i < u.mask.count) (hia : i < a)
    (he : e ≤ u.mask.count) (ha : a ≤ u.mask.count) (hle : u.mask.afterLastTaken ≤ a)
    (hpass : ∀ k < a, k < u.mask.afterLastTaken ∨ k = i)
    (hset : ∀ k < e, bitAt u.mask.data k = true ∨ k = i)
    (hj : j < u.mask.count ∧ (bitAt u.mask.data j = true ∨ j = i)) :
    Sound ⟨{ u.mask with
      data := orByte u.mask.data (i / 8) (i % 8)
      earliestFree := e
      afterLastTaken := a }, insert j u.claimed⟩ := by
  have hmark := fun k => bitAt_orByte_index (i := k) (h.byte_lt hi)
  refine ⟨⟨?_, ?_, he, ha⟩, ⟨h.count_mod, ?_⟩, ?_, ?_⟩
  · intro k _ hk
    exact (hmark k).2 (hset k hk).symm
  · intro k hk hak
    rw [Bool.eq_false_iff, Ne, hmark, not_or, Bool.not_eq_true]
    exact ⟨by simp only at hak; omega, h.unset_onwards k hk (Nat.le_trans hle hak)⟩
  · simp only [orByte, List.length_set]
    exact h.length_data
  · intro k hk hka hk8
    rcases hpass k hka with hlt | heq
    · exact (hmark k).2 (Or.inr (h.worn k hk hlt hk8))
    · exact (hmark k).2 (Or.inl heq)
  · intro k hk
    rcases Finset.mem_insert.1 hk with rfl | hk
    · exact ⟨hj.1, (hmark k).2 hj.2.symm⟩
    · exact ⟨(h.held_set k hk).1, (hmark k).2 (Or.inr (h.held_set k hk).2)⟩

/-- The cursors are both set to the end. -/
theorem Sound.ended (h : Sound u) (hset : ∀ i < u.mask.count, bitAt u.mask.data i = true) :
    Sound ⟨{ u.mask with earliestFree := u.mask.count, afterLastTaken := u.mask.count },
      u.claimed⟩ where
  set_before := fun i hi _ => hset i hi
  unset_onwards := fun _ hi hle => absurd hi (Nat.not_lt.2 hle)
  earliestFree_le := le_rfl
  afterLastTaken_le := le_rfl
  toSized := ⟨h.count_mod, h.length_data⟩
  worn := fun i hi _ _ => hset i hi
  held_set := h.held_set

/-- **A claim**, from the end of the mask, from its first open bit, or refused. -/
theorem Sound.claim (h : Sound u) (T : Target) :
    KeepsCursors u .claim ∧ Sound (step T u .claim) ∨
      ¬KeepsCursors u .claim ∧ ¬Guaranteed (step T u .claim).mask := by
  have hcount := h.count_mod
  have hend := h.earliestFree_le
  rcases claim_cases (T := T) (m := u.mask) (by omega) (fun _ => h.worn_of_le) with
    ⟨hle, hclaim⟩ | ⟨-, hlt, hclaim⟩ | ⟨hle, byte, hfirst, hclaim⟩ |
      ⟨hef, hle, hnone, e, he, he8, hclaim⟩
  · refine Or.inl ⟨fun _ _ => by omega, ?_⟩
    simp only [step, hclaim]
    exact h
  · refine Or.inl ⟨fun hle => absurd hlt (Nat.not_lt.2 hle), ?_⟩
    simp only [step, hclaim]
    refine h.mark hlt (Nat.lt_succ_self _) hend hlt (Nat.le_succ _) (fun k hk => by omega) ?_
      ⟨hlt, Or.inr rfl⟩
    exact fun k hk => Or.inl (h.set_before k (Nat.lt_of_lt_of_le hk hend) hk)
  · refine Or.inl ⟨fun _ hnone => absurd hfirst (hnone byte), ?_⟩
    obtain ⟨hlt8, -, -⟩ := openBit_spec hfirst.2.2.1
    have hset := fun i => h.set_below (i := i) hfirst
    have hbyte := hfirst.2.1
    have hlast := h.afterLastTaken_le
    simp only [step, hclaim]
    generalize openBit u.mask.data byte = bit at hlt8 hset
    have hdiv : (8 * byte + bit) / 8 = byte := by omega
    have hmod : (8 * byte + bit) % 8 = bit := by omega
    -- what is answered is the open bit, or a set one before it
    have hbelow : ∀ k ≤ byte / 32 * 256 + bit, bitAt u.mask.data k = true ∨ k = 8 * byte + bit := by
      intro k hk
      rcases Nat.lt_or_ge k (8 * byte + bit) with hlt | hge
      · exact Or.inl (hset k hlt)
      · exact Or.inr (by omega)
    have hmark := h.mark (i := 8 * byte + bit) (j := byte / 32 * 256 + bit)
      (e := byte / 32 * 256 + bit + 1) (a := max u.mask.afterLastTaken (byte / 32 * 256 + bit + 1))
      (by omega) (by omega) (by omega) (by omega) (le_max_left _ _) (fun k hk => by omega)
      (fun k hk => hbelow k (Nat.le_of_lt_succ hk)) ⟨by omega, hbelow _ le_rfl⟩
    rwa [hdiv, hmod] at hmark
  · have hwhere : e % 8 = u.mask.earliestFree % 8 := by
      have herror := earliestFree_mod_of_error (T := T) (m := u.mask) (congrArg Prod.fst hclaim)
      rwa [hclaim] at herror
    by_cases hzero : u.mask.earliestFree % 8 = 0
    · obtain rfl : e = u.mask.count := by omega
      refine Or.inl ⟨fun _ _ => hzero, ?_⟩
      simp only [step, hclaim]
      refine h.ended fun i hi => ?_
      by_contra hclear
      rw [Bool.not_eq_true] at hclear
      rcases Nat.lt_or_ge i u.mask.earliestFree with hbefore | hfrom
      · rw [h.set_before i hi hbefore] at hclear
        cases hclear
      · obtain ⟨byte, hfirst⟩ := exists_firstOpen hi hfrom hclear
        exact hnone byte hfirst
    · refine Or.inr ⟨fun hkeeps => hzero (hkeeps hle hnone), fun hbound => ?_⟩
      have hpast := hbound.earliestFree_le
      simp only [step, hclaim] at hpast
      omega

/-- **A release**, of the last index taken or of another. -/
theorem Sound.release (h : Sound u) {index : ℕ} (hclaimed : Claimed u (.release index))
    (T : Target) :
    KeepsCursors u (.release index) ∧ Sound (step T u (.release index)) ∨
      ¬KeepsCursors u (.release index) ∧ ¬Guaranteed (step T u (.release index)).mask := by
  obtain ⟨hlt, htaken, hset⟩ := h.claimed_lt hclaimed
  have hclear := fun i => bitAt_clearByte (i := i) (h.byte_lt hlt)
  have hlast := h.afterLastTaken_le
  by_cases hkeeps : index + 1 = u.mask.afterLastTaken → index % 32 < 8
  · refine Or.inl ⟨hkeeps, ?_⟩
    simp only [step, release_eq]
    refine ⟨⟨?_, ?_, ?_, ?_⟩, ⟨h.count_mod, ?_⟩, ?_, ?_⟩
    · intro i hi hbefore
      simp only at hbefore
      exact (hclear i).2 ⟨h.set_before i hi (by omega), fun hsame => by omega⟩
    · intro i hi honwards
      simp only at honwards ⊢
      rw [Bool.eq_false_iff, Ne, hclear]
      rintro ⟨hbit, hother⟩
      split at honwards
      · next hend =>
        -- the one that is released, or one that was beyond the cursor
        rcases Nat.lt_or_ge i u.mask.afterLastTaken with hbelow | hbeyond
        · exact hother ⟨by omega, by have := hkeeps hend; omega⟩
        · rw [h.unset_onwards i hi hbeyond] at hbit
          cases hbit
      · rw [h.unset_onwards i hi honwards] at hbit
        cases hbit
    · exact Nat.le_trans (Nat.min_le_left _ _) (Nat.le_of_lt hlt)
    · simp only
      split <;> omega
    · simp only [clearByte, List.length_set]
      exact h.length_data
    · intro i hi hbelow hi8
      simp only at hbelow
      refine (hclear i).2 ⟨h.worn i hi ?_ hi8, by omega⟩
      split at hbelow <;> omega
    · intro i hi
      obtain ⟨hne, hi⟩ := Finset.mem_erase.1 hi
      exact ⟨(h.held_set i hi).1, (hclear i).2 ⟨(h.held_set i hi).2, fun hsame => hne hsame.1⟩⟩
  · refine Or.inr ⟨hkeeps, fun hbound => ?_⟩
    rw [Classical.not_imp] at hkeeps
    -- its bit is left set, right behind the cursor
    have hunset := hbound.unset_onwards index
    simp only [step, release_eq, if_pos hkeeps.1] at hunset
    have hbit := (hclear index).2 ⟨hset, fun hsame => hkeeps.2 hsame.2⟩
    rw [hunset hlt le_rfl] at hbit
    cases hbit

/-- **The step lemma.** -/
theorem Sound.step (h : Sound u) (hclaimed : Claimed u op) (T : Target) :
    KeepsCursors u op ∧ Sound (step T u op) ∨
      ¬KeepsCursors u op ∧ ¬Guaranteed (AllocationMask.step T u op).mask := by
  cases op with
  | claim => exact h.claim T
  | release index => exact h.release hclaimed T

/-! ## The result -/

/-- A user that releases what it holds releases what is claimed. -/
theorem along_claimed_of_held {ops : List Op} (h : Along (step T) Held u ops) :
    Along (step T) Claimed u ops := by
  refine h.imp fun u op hheld => ?_
  cases op with
  | claim => exact hheld
  | release index => exact Or.inl hheld

end AllocationMask

end Uberos
