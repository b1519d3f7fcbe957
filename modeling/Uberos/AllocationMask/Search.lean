import Uberos.AllocationMask.Model
import Mathlib.Tactic.IntervalCases
/-!
# The search of the allocation mask

What the bytes say of the bits, what the three search loops find, and
what `claim` and `release` do in each of their cases. The `Reg` loop
compares with a 32-bit constant, so on a 64-bit target it can pass a
`Reg` whose upper half is clear; `Worn`, which holds once the mask has
been claimed to its end, is what rules that out.
-/

namespace Uberos

namespace AllocationMask

variable {data : List (BitVec 8)} {T : Target} {m : AllocationMask}

/-! ## The storage -/

/-- The constructor rounds the size down to whole `Reg`s, on either target. -/
theorem new_count_mod (T : Target) (_count : ℕ) : (AllocationMask.new T _count).count % 32 = 0 := by
  rcases T.wordBytes_eq with h | h <;>
    simp only [AllocationMask.new, h] <;> omega

/-- And clears a byte for each eight indices. -/
theorem new_length_data (T : Target) (_count : ℕ) :
    (AllocationMask.new T _count).data.length = (AllocationMask.new T _count).count / 8 := by
  rcases T.wordBytes_eq with h | h <;>
    simp only [AllocationMask.new, h, List.length_replicate] <;> omega

/-- The byte of an index lies in the storage. -/
theorem div_lt_length (hcount : m.count % 32 = 0) (hdata : m.data.length = m.count / 8) {i : ℕ}
    (hi : i < m.count) : i / 8 < m.data.length := by
  rw [hdata]
  omega

/-! ## Bits and bytes -/

theorem byteAt_set {byte c : ℕ} {v : BitVec 8} (h : byte < data.length) :
    byteAt (data.set byte v) c = if byte = c then v else byteAt data c := by
  rw [byteAt, byteAt, List.getD_eq_getElem?_getD, List.getElem?_set, List.getD_eq_getElem?_getD]
  split <;> simp_all

/-- **Setting a bit sets that bit.** -/
theorem bitAt_orByte {byte k i : ℕ} (hbyte : byte < data.length) (hk : k < 8) :
    bitAt (orByte data byte k) i = true ↔ i = 8 * byte + k ∨ bitAt data i = true := by
  have hlt : i % 8 < 8 := Nat.mod_lt _ (by decide)
  rw [orByte, bitAt, byteAt_set hbyte, bitAt]
  split
  · rename_i hb
    rw [BitVec.getLsbD_or, BitVec.getLsbD_shiftLeft, BitVec.getLsbD_one, hb]
    simp only [hlt, Bool.or_eq_true, Bool.and_eq_true, Bool.not_eq_true', decide_eq_true_eq,
      decide_eq_false_iff_not, true_and, Nat.ofNat_pos]
    rw [or_comm]
    refine or_congr ?_ Iff.rfl
    omega
  · constructor
    · exact Or.inr
    · rintro (rfl | h)
      · omega
      · exact h

/-- Setting the bit of an index, as the two halves of `claim` address it. -/
theorem bitAt_orByte_index {index i : ℕ} (hbyte : index / 8 < data.length) :
    bitAt (orByte data (index / 8) (index % 8)) i = true ↔ i = index ∨ bitAt data i = true := by
  rw [bitAt_orByte hbyte (Nat.mod_lt _ (by decide)), Nat.div_add_mod]

/-- **Clearing with the whole index clears the bit only where the index
modulo 32 is below 8**: elsewhere the shifted one lies above the byte. -/
theorem bitAt_clearByte {index i : ℕ} (hbyte : index / 8 < data.length) :
    bitAt (clearByte data (index / 8) index) i = true ↔
      bitAt data i = true ∧ ¬ (i = index ∧ index % 32 < 8) := by
  have hlt : i % 8 < 8 := Nat.mod_lt _ (by decide)
  rw [clearByte, bitAt, byteAt_set hbyte, bitAt]
  split
  · rename_i hb
    rw [BitVec.getLsbD_and, BitVec.getLsbD_setWidth, BitVec.getLsbD_not,
      BitVec.getLsbD_shiftLeft, BitVec.getLsbD_one, hb]
    simp only [hlt, show i % 8 < 32 by omega, Bool.and_eq_true, Bool.not_eq_true', Bool.and_eq_false_iff,
      Bool.not_eq_false', decide_eq_true_eq, decide_eq_false_iff_not, true_and, not_true, false_or]
    refine and_congr_right fun _ => ?_
    omega
  · exact ⟨fun h => ⟨h, by omega⟩, fun h => h.1⟩

/-- A byte is full when its eight bits are set. -/
theorem byteAt_eq_full_iff {byte : ℕ} :
    byteAt data byte = 0xff ↔ ∀ k < 8, bitAt data (8 * byte + k) = true := by
  constructor
  · intro h k hk
    rw [bitAt, show (8 * byte + k) / 8 = byte by omega, h, show (8 * byte + k) % 8 = k by omega]
    interval_cases k <;> rfl
  · intro h
    refine BitVec.eq_of_getLsbD_eq fun k hk => ?_
    have := h k hk
    rw [bitAt, show (8 * byte + k) / 8 = byte by omega, show (8 * byte + k) % 8 = k by omega] at this
    rw [this]
    interval_cases k <;> rfl

/-- **`__builtin_ctz` of the complement is the lowest open bit.** -/
theorem openBit_spec {byte : ℕ} (h : byteAt data byte ≠ 0xff) :
    openBit data byte < 8 ∧ bitAt data (8 * byte + openBit data byte) = false ∧
      ∀ k < openBit data byte, bitAt data (8 * byte + k) = true := by
  have hbit : ∀ k < 8, bitAt data (8 * byte + k) = (byteAt data byte).getLsbD k := by
    intro k hk
    rw [bitAt, show (8 * byte + k) / 8 = byte by omega, show (8 * byte + k) % 8 = k by omega]
  have hnot : ∀ k < 8, (~~~((byteAt data byte).setWidth 32)).getLsbD k =
      !bitAt data (8 * byte + k) := by
    intro k hk
    rw [hbit k hk, BitVec.getLsbD_not, BitVec.getLsbD_setWidth]
    simp [show k < 32 by omega]
  obtain ⟨k, hk, hopen⟩ : ∃ k < 8, bitAt data (8 * byte + k) = false := by
    by_contra hall
    push Not at hall
    exact h (byteAt_eq_full_iff.2 fun k hk => by simpa using hall k hk)
  rcases hfind : (List.range 32).find? fun i => (~~~((byteAt data byte).setWidth 32)).getLsbD i
    with - | i
  · rw [List.find?_range_eq_none] at hfind
    have := hfind k (by omega)
    rw [hnot k hk, hopen] at this
    simp at this
  · have hopenBit : openBit data byte = i := by rw [openBit, builtinCtz, hfind]; rfl
    obtain ⟨hi, -, hleast⟩ := List.find?_range_eq_some.1 hfind
    rw [hopenBit]
    have hik : i ≤ k := by
      by_contra hlt
      have := hleast k (by omega)
      rw [hnot k hk, hopen] at this
      simp at this
    refine ⟨by omega, ?_, fun j hj => ?_⟩
    · rw [hnot i (by omega)] at hi
      simpa using hi
    · have := hleast j hj
      rw [hnot j (by omega)] at this
      simpa using this

/-! ## The loops -/

/-- The bytes from `a` up to `b` are full. -/
def FullBetween (data : List (BitVec 8)) (a b : ℕ) : Prop :=
  ∀ c, a ≤ c → c < b → byteAt data c = 0xff

instance FullBetween.decidable (data : List (BitVec 8)) (a b : ℕ) : Decidable (FullBetween data a b) :=
  decidable_of_iff (∀ c < b, a ≤ c → byteAt data c = 0xff)
    ⟨fun h c ha hb => h c hb ha, fun h c hb ha => h c ha hb⟩

theorem FullBetween.empty {a b : ℕ} (h : b ≤ a) : FullBetween data a b :=
  fun c hac hcb => by omega

theorem FullBetween.append {a b c : ℕ} (hab : FullBetween data a b) (hbc : FullBetween data b c) :
    FullBetween data a c := fun d had hdc =>
  (Nat.lt_or_ge d b).elim (fun h => hab d had h) fun h => hbc d h hdc

/-- A byte loop that stops at an open byte has passed full ones only. -/
theorem seekByte_found {count : ℕ} {stop : ℕ → Bool} {fuel e e' : ℕ}
    (h : seekByte data count stop fuel e = .found e') :
    e ≤ e' ∧ e' < count ∧ byteAt data (e' / 8) ≠ 0xff ∧ FullBetween data (e / 8) (e' / 8) := by
  induction fuel generalizing e with
  | zero => cases h
  | succ fuel ih =>
    rw [seekByte] at h
    split at h
    · rename_i hguard
      split at h
      · rename_i hfull
        obtain ⟨hle, hlt, hopen, hbetween⟩ := ih h
        refine ⟨by omega, hlt, hopen, FullBetween.append (b := (e + 8) / 8) (fun c hc hc' => ?_)
          hbetween⟩
        rw [show c = e / 8 by omega]
        exact hfull
      · rename_i hopen
        injection h with h
        subst h
        exact ⟨le_rfl, hguard.1, hopen, FullBetween.empty le_rfl⟩
    · cases h

/-- A byte loop that runs to its end has passed full bytes only, and
stands at the first cursor its guard refuses. -/
theorem seekByte_passed {count : ℕ} {stop : ℕ → Bool} {fuel e e' : ℕ} (hfuel : count ≤ e + 8 * fuel)
    (h : seekByte data count stop fuel e = .passed e') :
    e ≤ e' ∧ (e' = e ∨ e' < count + 8) ∧ (count ≤ e' ∨ stop e' = true) ∧
      FullBetween data (e / 8) (e' / 8) := by
  induction fuel generalizing e with
  | zero =>
    injection h with h
    subst h
    exact ⟨le_rfl, Or.inl rfl, Or.inl (by omega), FullBetween.empty le_rfl⟩
  | succ fuel ih =>
    rw [seekByte] at h
    split at h
    · rename_i hguard
      split at h
      · rename_i hfull
        obtain ⟨hle, hend, hstop, hbetween⟩ := ih (by omega) h
        refine ⟨by omega, Or.inr (by omega), hstop,
          FullBetween.append (b := (e + 8) / 8) (fun c hc hc' => ?_) hbetween⟩
        rw [show c = e / 8 by omega]
        exact hfull
      · cases h
    · rename_i hguard
      injection h with h
      subst h
      refine ⟨le_rfl, Or.inl rfl, ?_, FullBetween.empty le_rfl⟩
      by_contra hcon
      simp only [not_or, not_le, Bool.not_eq_true] at hcon
      exact hguard hcon

/-- **A mask claimed to its end.** The bits a release never clears, those
of the indices at 8 or above modulo 32, are set. -/
def Worn (data : List (BitVec 8)) (count : ℕ) : Prop :=
  ∀ i < count, 8 ≤ i % 32 → bitAt data i = true

/-- The byte at a place of a number spelled in bytes. -/
theorem foldr_byte {f : ℕ → ℕ} (hf : ∀ i, f i < 256) {is : List ℕ} {i : ℕ} (hi : i < is.length) :
    is.foldr (fun i acc => f i + 256 * acc) 0 / 256 ^ i % 256 = f is[i] := by
  induction is generalizing i with
  | nil => exact absurd hi (Nat.not_lt_zero _)
  | cons first is ih =>
    have hlt := hf first
    rw [List.foldr_cons]
    cases i with
    | zero =>
      rw [Nat.pow_zero, Nat.div_one, Nat.add_mul_mod_self_left, Nat.mod_eq_of_lt hlt]
      rfl
    | succ i =>
      rw [Nat.pow_succ', ← Nat.div_div_eq_div_mul, Nat.add_mul_div_left _ _ (by decide),
        Nat.div_eq_of_lt hlt, Nat.zero_add]
      exact ih (Nat.lt_of_succ_lt_succ hi)

/-- The bytes of a `Reg`. -/
theorem byte_reg {k i : ℕ} (hi : i < T.wordBytes) :
    (byteAt data (T.wordBytes * k + i)).toNat = reg T data k / 256 ^ i % 256 := by
  have hlength : i < (List.range T.wordBytes).length := by rwa [List.length_range]
  rw [reg, foldr_byte (fun i => (byteAt data (T.wordBytes * k + i)).isLt) hlength,
    List.getElem_range]

/-- In a worn mask a `Reg` that equals `~0u` is full. On a 32-bit target
the constant is the full `Reg`; on a 64-bit one it is a `Reg` whose upper
half is clear, of which a worn mask has none. -/
theorem fullBetween_of_reg {count k : ℕ} (hworn : T.wordBytes = 8 → Worn data count)
    (hk : 8 * T.wordBytes * (k + 1) ≤ count) (h : reg T data k = 0xffffffff) :
    FullBetween data (T.wordBytes * k) (T.wordBytes * (k + 1)) := by
  have hbyte : ∀ i < T.wordBytes,
      (byteAt data (T.wordBytes * k + i)).toNat = 0xffffffff / 256 ^ i % 256 := by
    intro i hi
    rw [byte_reg hi, h]
  rcases T.wordBytes_eq with hT | hT
  · rw [hT] at hbyte ⊢
    intro c hc hc'
    obtain ⟨i, hi, rfl⟩ : ∃ i < 4, c = 4 * k + i := ⟨c - 4 * k, by omega, by omega⟩
    refine BitVec.eq_of_toNat_eq ((hbyte i hi).trans ?_)
    interval_cases i <;> rfl
  · -- the sixth byte would be clear, and it is one whose bits are never cleared
    rw [hT] at hbyte hk
    have h5 : byteAt data (8 * k + 5) = 0 :=
      BitVec.eq_of_toNat_eq ((hbyte 5 (by decide)).trans rfl)
    have hset := hworn hT (8 * (8 * k + 5)) (by omega) (by omega)
    rw [bitAt, show 8 * (8 * k + 5) / 8 = 8 * k + 5 by omega, h5] at hset
    simp at hset

/-- The `Reg` loop passes full bytes only, and not the end of the mask. -/
theorem seekReg_spec {count e : ℕ} (fuel : ℕ) (hworn : T.wordBytes = 8 → Worn data count)
    (he : e % (8 * T.wordBytes) = 0) :
    e ≤ seekReg T data count fuel e ∧ seekReg T data count fuel e ≤ max e count ∧
      FullBetween data (e / 8) (seekReg T data count fuel e / 8) := by
  induction fuel generalizing e with
  | zero => exact ⟨le_rfl, le_max_left _ _, FullBetween.empty le_rfl⟩
  | succ fuel ih =>
    rw [seekReg]
    split
    · rename_i hle
      split
      · exact ⟨le_rfl, le_max_left _ _, FullBetween.empty le_rfl⟩
      · rename_i hreg
        rw [not_not] at hreg
        obtain ⟨k, rfl⟩ := Nat.dvd_of_mod_eq_zero he
        have hdiv : 8 * T.wordBytes * k / 8 = T.wordBytes * k := by
          rw [Nat.mul_assoc, Nat.mul_div_cancel_left _ (by decide)]
        have hdiv' : (8 * T.wordBytes * k + 8 * T.wordBytes) / 8 = T.wordBytes * (k + 1) := by
          rw [← Nat.mul_succ, Nat.mul_assoc, Nat.mul_div_cancel_left _ (by decide)]
        have hpos : 0 < T.wordBytes := by rcases T.wordBytes_eq with h | h <;> omega
        rw [hdiv, Nat.mul_div_cancel_left _ hpos] at hreg
        have hfull := fullBetween_of_reg hworn (by rw [Nat.mul_succ]; exact hle) hreg
        obtain ⟨h1, h2, h3⟩ := ih (e := 8 * T.wordBytes * k + 8 * T.wordBytes)
          (by rw [← Nat.mul_succ]; exact Nat.mul_mod_right _ _)
        rw [hdiv'] at h3
        refine ⟨by omega, by omega, ?_⟩
        rw [hdiv]
        exact hfull.append h3
    · exact ⟨le_rfl, le_max_left _ _, FullBetween.empty le_rfl⟩

/-- The first byte at or after the cursor with an open bit. -/
def FirstOpen (m : AllocationMask) (byte : ℕ) : Prop :=
  m.earliestFree / 8 ≤ byte ∧ 8 * byte < m.count ∧ byteAt m.data byte ≠ 0xff ∧
    FullBetween m.data (m.earliestFree / 8) byte

instance FirstOpen.decidable (m : AllocationMask) (byte : ℕ) : Decidable (FirstOpen m byte) :=
  inferInstanceAs (Decidable (_ ∧ _ ∧ _ ∧
    FullBetween m.data (m.earliestFree / 8) byte))

/-- There is one such byte at most. -/
theorem FirstOpen.unique {b b' : ℕ} (h : FirstOpen m b) (h' : FirstOpen m b') : b = b' := by
  rcases Nat.lt_trichotomy b b' with hlt | heq | hgt
  · exact absurd (h'.2.2.2 b h.1 hlt) h.2.2.1
  · exact heq
  · exact absurd (h.2.2.2 b' h'.1 hgt) h'.2.2.1

/-- From the cursor up to the lowest open bit of that byte, every bit is set. -/
theorem FirstOpen.set_below {byte i : ℕ} (hfirst : FirstOpen m byte) (hfrom : m.earliestFree ≤ i)
    (hi : i < 8 * byte + openBit m.data byte) : bitAt m.data i = true := by
  obtain ⟨-, -, hleast⟩ := openBit_spec hfirst.2.2.1
  rcases Nat.lt_or_ge (i / 8) byte with hpassed | hlast
  · have hfull := hfirst.2.2.2 (i / 8) (Nat.div_le_div_right hfrom) hpassed
    have hbit := byteAt_eq_full_iff.1 hfull (i % 8) (Nat.mod_lt _ (by decide))
    rwa [Nat.div_add_mod] at hbit
  · have hbit := hleast (i - 8 * byte) (by omega)
    have hindex : 8 * byte + (i - 8 * byte) = i := by omega
    rwa [hindex] at hbit

/-- An unset bit at or after the cursor is of such a byte, or of a later one. -/
theorem exists_firstOpen {i : ℕ} (hi : i < m.count) (hle : m.earliestFree ≤ i)
    (hclear : bitAt m.data i = false) : ∃ byte, FirstOpen m byte := by
  have hopen : byteAt m.data (i / 8) ≠ 0xff := by
    intro hfull
    have hbit := byteAt_eq_full_iff.1 hfull (i % 8) (Nat.mod_lt _ (by decide))
    rw [Nat.div_add_mod, hclear] at hbit
    cases hbit
  have hex : ∃ byte, m.earliestFree / 8 ≤ byte ∧ byteAt m.data byte ≠ 0xff :=
    ⟨i / 8, Nat.div_le_div_right hle, hopen⟩
  classical
  obtain ⟨hge, hne⟩ := Nat.find_spec hex
  have hmin := Nat.find_min' hex ⟨Nat.div_le_div_right hle, hopen⟩
  refine ⟨Nat.find hex, hge, by omega, hne, fun c hc hlt => ?_⟩
  by_contra hcon
  exact Nat.find_min hex hlt ⟨hc, hcon⟩

/-- **The search finds the first open byte**, and where there is none
leaves the cursor at the end of the mask or less than a byte beyond. -/
theorem search_cases (hworn : T.wordBytes = 8 → Worn m.data m.count)
    (he : m.earliestFree < m.count) :
    (∃ e, search T m = .found e ∧ FirstOpen m (e / 8)) ∨
      ∃ e, search T m = .passed e ∧ m.count ≤ e ∧ e < m.count + 8 ∧
        FullBetween m.data (m.earliestFree / 8) (e / 8) := by
  rcases h₁ : seekByte m.data m.count (fun e => e % (8 * T.wordBytes) == 0) m.count m.earliestFree
    with e | e
  · refine Or.inl ⟨e, by rw [search, h₁], ?_⟩
    obtain ⟨hle, hlt, hopen, hfull⟩ := seekByte_found h₁
    exact ⟨Nat.div_le_div_right hle, by omega, hopen, hfull⟩
  · obtain ⟨hle, hend, hstop, hfull⟩ := seekByte_passed (by omega) h₁
    -- the second loop does nothing where the first ran to the end of the mask
    have hreg : e ≤ seekReg T m.data m.count m.count e ∧
        seekReg T m.data m.count m.count e < m.count + 8 ∧
        FullBetween m.data (e / 8) (seekReg T m.data m.count m.count e / 8) := by
      rcases hstop with hcount | halign
      · have hpos : 0 < T.wordBytes := by rcases T.wordBytes_eq with h | h <;> omega
        obtain ⟨n, hn⟩ : ∃ n, m.count = n + 1 := ⟨m.count - 1, by omega⟩
        have hstay : seekReg T m.data m.count m.count e = e := by
          rw [hn, seekReg, if_neg (by omega)]
        rw [hstay]
        exact ⟨le_rfl, by omega, FullBetween.empty le_rfl⟩
      · obtain ⟨h1, h2, h3⟩ := seekReg_spec m.count hworn (by simpa using halign)
        exact ⟨h1, by omega, h3⟩
    rcases h₂ : seekByte m.data m.count (fun _ => false) m.count
        (seekReg T m.data m.count m.count e) with e' | e'
    · refine Or.inl ⟨e', by rw [search, h₁]; exact h₂, ?_⟩
      obtain ⟨hle', hlt', hopen', hfull'⟩ := seekByte_found h₂
      exact ⟨Nat.div_le_div_right (by omega), by omega, hopen', (hfull.append hreg.2.2).append hfull'⟩
    · refine Or.inr ⟨e', by rw [search, h₁]; exact h₂, ?_⟩
      obtain ⟨hle', hend', hstop', hfull'⟩ := seekByte_passed (by omega) h₂
      refine ⟨hstop'.resolve_right (by simp), by omega, (hfull.append hreg.2.2).append hfull'⟩

/-! ## The operations, case by case -/

/-- What `take` answers: the open bit of the cursor's byte, with the
cursor's bits below 256 dropped. -/
theorem take_index {e : ℕ} (hopen : byteAt m.data (e / 8) ≠ 0xff) :
    (take m e).1 = e / 256 * 256 + openBit m.data (e / 8) := by
  have hlt : openBit m.data (e / 8) < 2 ^ 8 := by have := (openBit_spec hopen).1; omega
  have hor := Nat.two_pow_add_eq_or_of_lt hlt (e / 256)
  simp only [take, Nat.add_sub_cancel]
  rw [show e / 256 * 256 = 2 ^ 8 * (e / 256) by omega, ← hor]

/-- The condition of the roll-back loop is never true: a shifted one is
not zero, and a byte masked with `false` is. -/
theorem rollBack_eq (earliestFree n : ℕ) : rollBack data earliestFree n = n := by
  have htest : ∀ a, rollBackTest data a = false := by
    intro a
    have hlt : (a - 1) % 8 < 8 := Nat.mod_lt _ (by decide)
    have hne : (1#32 <<< ((a - 1) % 8)) ≠ 0 := by
      generalize (a - 1) % 8 = k at hlt
      interval_cases k <;> decide
    simp only [rollBackTest, if_neg hne]
    simp
  cases n with
  | zero => rfl
  | succ n => rw [rollBack, if_neg (by simp [htest])]

/-- **The four ways of `claim`**: refused at the first cursor, from the
end of the mask, from its first open byte, and refused by the search. -/
theorem claim_cases (hcount : m.count % 8 = 0)
    (hworn : T.wordBytes = 8 → m.count ≤ m.afterLastTaken → Worn m.data m.count) :
    (m.count ≤ m.earliestFree ∧ claim T m = (.error "No allocation pages remain", m)) ∨
    (m.earliestFree < m.count ∧ m.afterLastTaken < m.count ∧
      claim T m = (.ok m.afterLastTaken,
        { m with
          data := orByte m.data (m.afterLastTaken / 8) (m.afterLastTaken % 8)
          afterLastTaken := m.afterLastTaken + 1 })) ∨
    (m.count ≤ m.afterLastTaken ∧ ∃ byte, FirstOpen m byte ∧
      claim T m = (.ok (byte / 32 * 256 + openBit m.data byte),
        { m with
          data := orByte m.data byte (openBit m.data byte)
          earliestFree := byte / 32 * 256 + openBit m.data byte + 1
          afterLastTaken := max m.afterLastTaken (byte / 32 * 256 + openBit m.data byte + 1) })) ∨
    (m.earliestFree < m.count ∧ m.count ≤ m.afterLastTaken ∧ (∀ byte, ¬ FirstOpen m byte) ∧
      ∃ e, m.count ≤ e ∧ e < m.count + 8 ∧
        claim T m = (.error "No allocation pages remain",
          { m with earliestFree := e, afterLastTaken := e })) := by
  by_cases he : m.count ≤ m.earliestFree
  · exact Or.inl ⟨he, by rw [claim, if_pos he]⟩
  by_cases ha : m.afterLastTaken < m.count
  · exact Or.inr (Or.inl ⟨by omega, ha, by rw [claim, if_neg he, if_pos ha]⟩)
  rcases search_cases (T := T) (fun hT => hworn hT (by omega)) (by omega) with
    ⟨e, hsearch, hfirst⟩ | ⟨e, hsearch, hle, hlt, hfull⟩
  · refine Or.inr (Or.inr (Or.inl ⟨by omega, e / 8, hfirst, ?_⟩))
    have hindex := take_index hfirst.2.2.1
    rw [show e / 256 = e / 8 / 32 by omega] at hindex
    rw [claim, if_neg he, if_neg ha, hsearch]
    simp only [take, Nat.add_sub_cancel] at hindex ⊢
    rw [hindex]
  · refine Or.inr (Or.inr (Or.inr ⟨by omega, by omega, fun byte hfirst => ?_, e, hle, hlt, ?_⟩))
    · exact hfirst.2.2.1 (hfull byte hfirst.1 (by have := hfirst.2.1; omega))
    · rw [claim, if_neg he, if_neg ha, hsearch]

/-- What `release` does to the cursors. -/
theorem release_eq (index : ℕ) :
    m.release index =
      { m with
        data := clearByte m.data (index / 8) index
        earliestFree := min index m.earliestFree
        afterLastTaken :=
          if index + 1 = m.afterLastTaken then index else m.afterLastTaken } := by
  rw [release]
  simp only [rollBack_eq]
  congr 1
  split <;> omega

end AllocationMask

end Uberos
