import Uberos.Bitmask.Model
import Uberos.Library.Run
import Mathlib.Data.Fintype.Basic
import Mathlib.Data.Finset.Erase
/-!
# The bitmasks as sets

A mask beside the set that the same operations build. The narrower two
masks do not store what is set in them; the wider two are searched with a
test that fails from bit 31 of a bucket on.
-/

namespace Uberos

namespace Bitmask

open Library

/-- What is done to a mask. -/
inductive Op
  | set (bit : BitVec 8) (value : Bool)
  | clear

/-- A set of the bits of a mask after an operation of the mask. A bit it
does not have is no member. -/
def Op.apply {width : ℕ} (bits : Finset (Fin width)) : Op → Finset (Fin width)
  | .set bit value =>
    if h : bit.toNat < width then
      if value then insert ⟨bit.toNat, h⟩ bits else bits.erase ⟨bit.toNat, h⟩
    else bits
  | .clear => ∅

variable {Mask : Type} (methods : Methods Mask)

/-- A mask, and the set built by the same operations. -/
structure Built where
  mask : Mask
  bits : Finset (Fin methods.width)

/-- A mask as it is constructed, and the set of its bits. -/
def Built.start (mask : Mask) : Built methods where
  mask
  bits := {i | methods.get mask (BitVec.ofNat 8 i) = true}

variable {methods}

/-- One operation, on both. -/
def Built.step (s : Built methods) (op : Op) : Built methods where
  mask :=
    match op with
    | .set bit value => methods.set s.mask bit value
    | .clear => methods.clear s.mask
  bits := op.apply s.bits

/-! ## What it is for -/

/-- The mask has the bits of the set. -/
def Stored (s : Built methods) : Prop :=
  ∀ i, methods.get s.mask (BitVec.ofNat 8 i.val) = true ↔ i ∈ s.bits

/-- **The mask is the set**: in what it has, in whether it has any, and in
the first it has and has not, whatever a shift that is too wide gives. -/
structure Refines (s : Built methods) : Prop where
  get : Stored s
  hasAny : methods.hasAny s.mask = true ↔ s.bits.Nonempty
  firstTrue : ∀ beyond,
    Finds (· ∈ s.bits) (~~~0#8).toNat (methods.getFirstTrue beyond s.mask).toNat
  firstFalse : ∀ beyond,
    Finds (· ∉ s.bits) (~~~0#8).toNat (methods.getFirstFalse beyond s.mask).toNat

/-- A bit is set to what it is. -/
def Unchanged (s : Built methods) : Op → Prop
  | .set bit value => ∀ i : Fin methods.width, i.val = bit.toNat → (i ∈ s.bits ↔ value = true)
  | .clear => True

/-- **The first member is no further in its bucket than the sign of an
`int`**, and below the sign there is a bit that is no member, or there is
no member from there up. -/
def Searchable (s : Built methods) : Prop :=
  (∀ i, IsFirst (· ∈ s.bits) i → i.val % 64 ≤ 31) ∧
    ((∃ i ∉ s.bits, i.val < 31) ∨ ∀ i ∈ s.bits, ¬ (31 ≤ i.val ∧ i.val < 64))

/-! ## What is stored -/

variable {s : Built methods} {op : Op}

/-- What a set is after a bit of it is set. -/
theorem mem_apply_set {width : ℕ} {bits : Finset (Fin width)} {bit : BitVec 8} {value : Bool}
    {i : Fin width} :
    i ∈ (Op.set bit value).apply bits ↔
      if i.val = bit.toNat then value = true else i ∈ bits := by
  rw [Op.apply]
  by_cases hlt : bit.toNat < width
  · have heq : i = ⟨bit.toNat, hlt⟩ ↔ i.val = bit.toNat := Fin.ext_iff
    rw [dif_pos hlt]
    cases value with
    | true =>
      rw [if_pos rfl, Finset.mem_insert, heq]
      by_cases hi : i.val = bit.toNat <;> simp [hi]
    | false =>
      rw [if_neg (by decide), Finset.mem_erase, ne_eq, heq]
      by_cases hi : i.val = bit.toNat <;> simp [hi]
  · rw [dif_neg hlt, if_neg]
    omega

/-- A mask is stored as it is constructed. -/
theorem stored_start (mask : Mask) : Stored (Built.start methods mask) := by
  intro i
  rw [Built.start, Finset.mem_filter_univ]

/-- **What leaves its mask as it was is right just where nothing was to
change.** -/
theorem stored_step_iff (hset : ∀ mask bit value, methods.set mask bit value = mask)
    (hclear : ∀ mask bit, methods.get (methods.clear mask) bit = false) (h : Stored s) :
    Stored (s.step op) ↔ Unchanged s op := by
  cases op with
  | set bit value =>
    simp only [Stored, Built.step, Unchanged, hset, h _, mem_apply_set]
    refine forall_congr' fun i => ?_
    by_cases hi : i.val = bit.toNat <;> simp [hi]
  | clear =>
    refine iff_of_true (fun i => ?_) trivial
    simp only [Built.step, hclear, Op.apply, Finset.notMem_empty, Bool.false_eq_true]

/-! ## What is searched -/

/-- **What the searches return** of the set a mask has, where a shift that
is too wide gives `beyond`. -/
structure Searched (s : Built methods) : Prop where
  first_true : ∀ beyond i, IsFirst (· ∈ s.bits) i →
    (methods.getFirstTrue beyond s.mask).toNat = 64 * (i.val / 64) + min (i.val % 64) 31
  no_true : ∀ beyond, (∀ i, i ∉ s.bits) → methods.getFirstTrue beyond s.mask = ~~~0#8
  first_false : ∀ beyond i, IsFirst (· ∉ s.bits) i → i.val < 31 →
    (methods.getFirstFalse beyond s.mask).toNat = i
  sign_false : ∀ beyond, (∀ i, i.val < 31 → i ∈ s.bits) →
    (∀ i ∈ s.bits, ¬ (31 ≤ i.val ∧ i.val < 64)) →
    (methods.getFirstFalse beyond s.mask).toNat = 31
  beyond_false : (∀ i, i.val < 31 → i ∈ s.bits) → (∃ i ∈ s.bits, 31 ≤ i.val ∧ i.val < 64) →
    (methods.getFirstFalse (fun _ => 0) s.mask).toNat ≠
      (methods.getFirstFalse (fun _ => BitVec.allOnes 32) s.mask).toNat

/-- **A mask so searched is the set just where that is searchable.** -/
theorem Searched.refines_iff (h : Searched s) (hwidth : 64 ≤ methods.width)
    (hwidth' : methods.width ≤ 256)
    (hany : Stored s → (methods.hasAny s.mask = true ↔ s.bits.Nonempty)) :
    Refines s ↔ Stored s ∧ Searchable s := by
  have hmissing : (~~~0#8).toNat = 255 := rfl
  constructor
  · intro href
    refine ⟨href.get, fun i hi => ?_, ?_⟩
    · have hfound := (href.firstTrue fun _ => 0).first i hi
      rw [h.first_true _ i hi] at hfound
      omega
    · by_contra hnot
      rw [not_or] at hnot
      have hlower : ∀ i : Fin methods.width, i.val < 31 → i ∈ s.bits := by
        intro i hi
        by_contra hmem
        exact hnot.1 ⟨i, hmem, hi⟩
      have hupper : ∃ i ∈ s.bits, 31 ≤ i.val ∧ i.val < 64 := by
        by_contra hnone
        exact hnot.2 fun i hi hin => hnone ⟨i, hi, hin⟩
      -- the two shifts have different bits found, and a search has one answer
      exact h.beyond_false hlower hupper ((href.firstFalse _).unique (href.firstFalse _))
  · rintro ⟨hstored, htrue, hfalse⟩
    refine ⟨hstored, hany hstored, fun beyond => ?_, fun beyond => ?_⟩
    · rcases isFirst_or_none (· ∈ s.bits) with ⟨i, hi⟩ | hnone
      · have hi31 := htrue i hi
        rw [finds_iff_of_first hi (by omega), h.first_true beyond i hi]
        omega
      · rw [finds_iff_of_none hnone, h.no_true beyond hnone]
    · by_cases hopen : ∃ i ∉ s.bits, i.val < 31
      · obtain ⟨j, hj, hj31⟩ := hopen
        rcases isFirst_or_none (· ∉ s.bits) with ⟨i, hi⟩ | hnone
        · have hij : i.val ≤ j.val := by
            by_contra hlt
            exact hi.2 j (by omega) hj
          rw [finds_iff_of_first hi (by omega), h.first_false beyond i hi (by omega)]
        · exact absurd hj (hnone j)
      · have hlower : ∀ i : Fin methods.width, i.val < 31 → i ∈ s.bits := by
          intro i hi
          by_contra hmem
          exact hopen ⟨i, hmem, hi⟩
        have hupper := hfalse.resolve_left hopen
        have hsign : IsFirst (· ∉ s.bits) (⟨31, by omega⟩ : Fin methods.width) := by
          refine ⟨fun hmem => ?_, fun j hj => ?_⟩
          · exact hupper _ hmem ⟨Nat.le_refl 31, show 31 < 64 by decide⟩
          · exact not_not.2 (hlower j hj)
        have hne : (31 : ℕ) ≠ (~~~0#8).toNat := by decide
        rw [finds_iff_of_first hsign hne, h.sign_false beyond hlower hupper]

/-! ## The widths -/

/-- A bit of a mask as its index. -/
theorem toNat_ofNat_of_lt {w i : ℕ} (hw : w ≤ 256) (hi : i < w) : (BitVec.ofNat 8 i).toNat = i := by
  rw [BitVec.toNat_ofNat, Nat.mod_eq_of_lt (by omega)]

/-- What a search found, as it is returned. -/
theorem toNat_answer {found : Option ℕ} (h : ∀ i, found = some i → i < 256) :
    (answer found).toNat = found.getD 255 := by
  cases found with
  | none => rfl
  | some i => exact toNat_ofNat_of_lt (w := 256) (by decide) (h i rfl)

theorem stored32_iff {s : Built methods32} :
    Stored s ↔ ∀ i : Fin 32, s.mask.getLsbD i = true ↔ i ∈ s.bits := by
  refine forall_congr' fun (i : Fin 32) => ?_
  refine iff_congr ?_ Iff.rfl
  show Bitmask32.get s.mask (BitVec.ofNat 8 i.val).toNat = true ↔ s.mask.getLsbD i = true
  rw [toNat_ofNat_of_lt (w := 32) (by decide) i.isLt, Bitmask32.get, decide_eq_true_eq]
  exact and_one_shiftLeft_ne_zero s.mask i.isLt

theorem stored64_iff {s : Built methods64} :
    Stored s ↔ ∀ i : Fin 64, s.mask.getLsbD i = true ↔ i ∈ s.bits := by
  refine forall_congr' fun (i : Fin 64) => ?_
  refine iff_congr ?_ Iff.rfl
  show Bitmask64.get s.mask (BitVec.ofNat 8 i.val).toNat = true ↔ s.mask.getLsbD i = true
  rw [toNat_ofNat_of_lt (w := 64) (by decide) i.isLt, Bitmask64.get, decide_eq_true_eq]
  exact and_one_shiftLeft_ne_zero s.mask i.isLt

/-- The bit of a bucket. -/
theorem get256_iff {mask : Bitmask256} {bit : BitVec 8} :
    mask.get bit = true ↔ (mask (Bitmask256.bucket bit)).getLsbD (bit.toNat % 64) = true := by
  rw [Bitmask256.get, decide_eq_true_eq, Bitmask256.bucketMask]
  exact and_one_shiftLeft_ne_zero _ (Nat.mod_lt _ (by decide))

/-- A word has no bit just where it is zero. -/
theorem eq_zero_of_getLsbD {w : ℕ} {bits : BitVec w} (h : ∀ i < w, bits.getLsbD i = false) :
    bits = 0 := by
  refine BitVec.eq_of_getLsbD_eq fun i hi => ?_
  rw [h i hi]
  exact BitVec.getLsbD_zero.symm

/-- A mask of one word has any bit just where the set has. -/
theorem ne_zero_iff_nonempty {w : ℕ} {mask : BitVec w} {bits : Finset (Fin w)}
    (h : ∀ i : Fin w, mask.getLsbD i = true ↔ i ∈ bits) : mask ≠ 0 ↔ bits.Nonempty := by
  constructor
  · intro hne
    by_contra hnone
    rw [Finset.not_nonempty_iff_eq_empty] at hnone
    refine hne (eq_zero_of_getLsbD fun i hi => ?_)
    rw [← Bool.not_eq_true, h ⟨i, hi⟩, hnone]
    exact Finset.notMem_empty _
  · rintro ⟨i, hi⟩ hzero
    rw [← h i, hzero] at hi
    simp at hi

/-- **32 bits are searched as they should be.** -/
theorem refines32_iff {s : Built methods32} : Refines s ↔ Stored s := by
  refine ⟨fun h => h.get, fun h => ?_⟩
  have hbit := stored32_iff.1 h
  have htest (i : Fin 32) : Bitmask32.isTrue s.mask i = true ↔ i ∈ s.bits :=
    (Bitmask32.isTrue_iff i.isLt).trans (hbit i)
  refine ⟨h, ?_, fun beyond => ?_, fun beyond => ?_⟩
  · exact decide_eq_true_iff.trans (ne_zero_iff_nonempty hbit)
  · show Finds (· ∈ s.bits) 255 (Bitmask32.getFirstTrue s.mask).toNat
    rw [Bitmask32.getFirstTrue, toNat_answer fun i hi => ?_]
    · exact finds_find? htest (by decide)
    · have hmem := List.mem_range.1 (List.mem_of_find?_eq_some hi)
      omega
  · show Finds (· ∉ s.bits) 255 (Bitmask32.getFirstFalse s.mask).toNat
    rw [Bitmask32.getFirstFalse, toNat_answer fun i hi => ?_]
    · refine finds_find? (fun i => ?_) (by decide)
      rw [Bool.not_eq_true', ← Bool.not_eq_true]
      exact not_congr (htest i)
    · have hmem := List.mem_range.1 (List.mem_of_find?_eq_some hi)
      omega

/-- **How 64 bits are searched.** -/
theorem searched64 {s : Built methods64} (h : Stored s) : Searched s := by
  have hbit := stored64_iff.1 h
  have hfalse {i : ℕ} (hi : i < 64) (hmem : (⟨i, hi⟩ : Fin 64) ∉ s.bits) :
      s.mask.getLsbD i = false := by
    rw [← Bool.not_eq_true]
    exact fun htrue => hmem ((hbit ⟨i, hi⟩).1 htrue)
  have hlower (hall : ∀ i : Fin 64, i.val < 31 → i ∈ s.bits) (j : ℕ) (hj : j < 31) :
      s.mask.getLsbD j = true := (hbit ⟨j, by omega⟩).2 (hall _ hj)
  refine ⟨fun beyond (i : Fin 64) hi => ?_, fun beyond hnone => ?_,
    fun beyond (i : Fin 64) hi h31 => ?_, fun beyond hall hupper => ?_,
    fun hall ⟨(k : Fin 64), hk, hk31, _⟩ => ?_⟩
  · have hlt : i.val < 64 := i.isLt
    have hfind := Bitmask256.find_true_of_first beyond ((hbit i).2 hi.1)
      fun j hj => hfalse (by omega) (hi.2 _ hj)
    show (Bitmask64.getFirstTrue s.mask beyond).toNat = _
    rw [Bitmask64.getFirstTrue, hfind, toNat_answer fun j hj => ?_]
    · rw [Option.getD_some]
      omega
    · cases hj
      omega
  · have hzero : s.mask = 0 := eq_zero_of_getLsbD fun i hi => hfalse hi (hnone _)
    show Bitmask64.getFirstTrue s.mask beyond = _
    rw [Bitmask64.getFirstTrue, hzero, Bitmask256.find_true_zero]
    rfl
  · have hfind := Bitmask256.find_false_low beyond h31 (hfalse i.isLt hi.1)
      fun j hj => (hbit ⟨j, by omega⟩).2 (not_not.1 (hi.2 _ hj))
    show (Bitmask64.getFirstFalse s.mask beyond).toNat = _
    rw [Bitmask64.getFirstFalse, hfind]
    exact toNat_ofNat_of_lt (w := 64) (by decide) i.isLt
  · have hfind := Bitmask256.find_false_sign beyond (hlower hall) fun j hj => by
      rcases Nat.lt_or_ge j 64 with hlt | hge
      · exact hfalse hlt fun hmem => hupper _ hmem ⟨hj, hlt⟩
      · exact BitVec.getLsbD_of_ge _ j hge
    show (Bitmask64.getFirstFalse s.mask beyond).toNat = _
    rw [Bitmask64.getFirstFalse, hfind]
    rfl
  · show (Bitmask64.getFirstFalse s.mask _).toNat ≠ (Bitmask64.getFirstFalse s.mask _).toNat
    rw [Bitmask64.getFirstFalse, Bitmask64.getFirstFalse,
      Bitmask256.find_false_nothing (hlower hall) hk31 ((hbit k).2 hk),
      Bitmask256.find_false_ones (hlower hall) hk31 ((hbit k).2 hk)]
    decide

/-! ### 256 bits -/

/-- The answer of the four buckets is that of what was found. -/
theorem getFirstFalse256_eq (beyond : ℕ → BitVec 32) (mask : Bitmask256) :
    mask.getFirstFalse beyond =
      answer ([0, 1, 2, 3].findSome? fun i : Fin 4 =>
        ((List.range 64).find? (Bitmask256.isFalse beyond (mask i))).map
          fun i2 => 64 * i.val + i2) := by
  rw [Bitmask256.getFirstFalse]
  split <;> rename_i hfound <;> rw [hfound] <;> rfl

/-- **A bit of 256 by its bucket.** -/
theorem stored256_iff {s : Built methods256} :
    Stored s ↔ ∀ i : Fin 256,
      (s.mask ⟨i.val / 64, by omega⟩).getLsbD (i.val % 64) = true ↔ i ∈ s.bits := by
  refine forall_congr' fun (i : Fin 256) => ?_
  refine iff_congr ?_ Iff.rfl
  have hi : (BitVec.ofNat 8 i.val).toNat = i := toNat_ofNat_of_lt (w := 256) (by decide) i.isLt
  have hbucket : Bitmask256.bucket (BitVec.ofNat 8 i.val) = ⟨i.val / 64, by omega⟩ :=
    Fin.ext (congrArg (· / 64) hi)
  show s.mask.get (BitVec.ofNat 8 i.val) = true ↔ _
  rw [get256_iff, hbucket, hi]

/-- A bit of a bucket by what it is of 256. -/
theorem Stored.getLsbD256 {s : Built methods256} (h : Stored s) (bucket : Fin 4) {k : ℕ}
    (hk : k < 64) : (s.mask bucket).getLsbD k = true ↔
      (⟨64 * bucket.val + k, by omega⟩ : Fin 256) ∈ s.bits := by
  refine Iff.trans ?_ (stored256_iff.1 h _)
  have hbucket : (⟨(64 * bucket.val + k) / 64, by omega⟩ : Fin 4) = bucket :=
    Fin.ext (by dsimp only; omega)
  have hrest : (64 * bucket.val + k) % 64 = k := by omega
  rw [hbucket, hrest]

/-- A bit of the first bucket. -/
theorem Stored.getLsbD256_low {s : Built methods256} (h : Stored s) (i : Fin 256)
    (hi : i.val < 64) : (s.mask 0).getLsbD i.val = true ↔ i ∈ s.bits := by
  have heq : (⟨64 * (0 : Fin 4).val + i.val, by omega⟩ : Fin 256) = i := Fin.ext (by simp)
  rw [h.getLsbD256 0 hi, heq]

/-- A bit that is no member. -/
theorem Stored.getLsbD256_eq_false {s : Built methods256} (h : Stored s) (bucket : Fin 4) {k : ℕ}
    (hk : k < 64) (hmem : (⟨64 * bucket.val + k, by omega⟩ : Fin 256) ∉ s.bits) :
    (s.mask bucket).getLsbD k = false := by
  rw [← Bool.not_eq_true]
  exact fun htrue => hmem ((h.getLsbD256 bucket hk).1 htrue)

/-- **A bit of 256 is set**, and no other. -/
theorem get256_set {mask : Bitmask256} {bit bit' : BitVec 8} {value : Bool} :
    (mask.set bit value).get bit' = true ↔
      if bit' = bit then value = true else mask.get bit' = true := by
  have hmask (k : ℕ) : (Bitmask256.bucketMask bit).getLsbD k = decide (k = bit.toNat % 64) := by
    rw [Bitmask256.bucketMask, BitVec.getLsbD_shiftLeft, BitVec.getLsbD_one]
    by_cases hk : k = bit.toNat % 64
    · simp [hk]
      omega
    · simp [hk]
      omega
  have hk : bit'.toNat % 64 < 64 := Nat.mod_lt _ (by decide)
  rw [get256_iff, get256_iff, Bitmask256.set]
  by_cases hbucket : Bitmask256.bucket bit' = Bitmask256.bucket bit
  · have hdiv : bit'.toNat / 64 = bit.toNat / 64 := congrArg Fin.val hbucket
    have hvalue : (if value then Bitmask256.bucketMask bit else 0).getLsbD (bit'.toNat % 64) =
        (value && decide (bit'.toNat % 64 = bit.toNat % 64)) := by
      cases value with
      | true => rw [if_pos rfl, hmask, Bool.true_and]
      | false => exact BitVec.getLsbD_zero
    rw [hbucket, Function.update_self, BitVec.getLsbD_or, BitVec.getLsbD_and, BitVec.getLsbD_not,
      hmask, hvalue]
    by_cases hmod : bit'.toNat % 64 = bit.toNat % 64
    · have heq : bit' = bit := BitVec.eq_of_toNat_eq (by omega)
      rw [if_pos heq]
      simp [hmod]
    · have hne : bit' ≠ bit := fun heq => hmod (by rw [heq])
      rw [if_neg hne]
      simp [hmod, hk]
  · have hne : bit' ≠ bit := fun heq => hbucket (by rw [heq])
    rw [Function.update_of_ne hbucket, if_neg hne]

/-- **256 bits are stored as they are set.** -/
theorem stored256_step {s : Built methods256} (op : Op) (h : Stored s) : Stored (s.step op) := by
  intro i
  cases op with
  | set bit value =>
    have hi : (BitVec.ofNat 8 i.val).toNat = i := toNat_ofNat_of_lt (w := 256) (by decide) i.isLt
    have heq : BitVec.ofNat 8 i.val = bit ↔ i.val = bit.toNat := by
      rw [← BitVec.toNat_inj, hi]
    refine Iff.trans ?_ mem_apply_set.symm
    show (s.mask.set bit value).get (BitVec.ofNat 8 i.val) = true ↔ _
    rw [get256_set]
    by_cases hib : i.val = bit.toNat
    · rw [if_pos (heq.2 hib), if_pos hib]
    · rw [if_neg (mt heq.1 hib), if_neg hib]
      exact h i
  | clear =>
    show Bitmask256.empty.get (BitVec.ofNat 8 i.val) = true ↔ i ∈ (∅ : Finset (Fin 256))
    rw [get256_iff, Bitmask256.empty]
    simp

/-- What is found in the first bucket is returned. -/
theorem getFirstFalse_of_bucket {beyond : ℕ → BitVec 32} {mask : Bitmask256} {i : ℕ}
    (hfind : (List.range 64).find? (Bitmask256.isFalse beyond (mask 0)) = some i) :
    mask.getFirstFalse beyond = BitVec.ofNat 8 i := by
  rw [getFirstFalse256_eq, List.findSome?_cons, hfind, Option.map_some]
  show BitVec.ofNat 8 (64 * 0 + i) = BitVec.ofNat 8 i
  rw [Nat.mul_zero, Nat.zero_add]

/-- If there is nothing in it, what is returned is beyond it. -/
theorem getFirstFalse_ne_of_none {beyond : ℕ → BitVec 32} {mask : Bitmask256} {i : ℕ}
    (hfind : (List.range 64).find? (Bitmask256.isFalse beyond (mask 0)) = none) (hi : i < 64) :
    (mask.getFirstFalse beyond).toNat ≠ i := by
  rw [getFirstFalse256_eq, List.findSome?_cons, hfind, Option.map_none]
  dsimp only
  have hfound : ∀ found, [1, 2, 3].findSome? (fun b : Fin 4 =>
      ((List.range 64).find? (Bitmask256.isFalse beyond (mask b))).map fun k => 64 * b.val + k) =
        some found → 64 ≤ found ∧ found < 256 := by
    intro found h
    obtain ⟨b, hb, hmap⟩ := List.exists_of_findSome?_eq_some h
    obtain ⟨k, hk, rfl⟩ := Option.map_eq_some_iff.1 hmap
    have hk64 := List.mem_range.1 (List.mem_of_find?_eq_some hk)
    have hpos : b.val ≠ 0 := by
      intro hzero
      have hb0 : b = 0 := Fin.ext hzero
      rw [hb0] at hb
      simp at hb
    omega
  rw [toNat_answer fun found h => (hfound found h).2]
  cases h : [1, 2, 3].findSome? (fun b : Fin 4 =>
      ((List.range 64).find? (Bitmask256.isFalse beyond (mask b))).map fun k => 64 * b.val + k) with
  | none =>
    rw [Option.getD_none]
    omega
  | some found =>
    have hrange := hfound found h
    rw [Option.getD_some]
    omega

/-- The first member is found no further than the sign in its bucket. -/
theorem Stored.getFirstTrue256_of_first {s : Built methods256} (h : Stored s)
    (beyond : ℕ → BitVec 32) {i : Fin 256} (hi : IsFirst (· ∈ s.bits) i) :
    (s.mask.getFirstTrue beyond).toNat = 64 * (i.val / 64) + min (i.val % 64) 31 := by
  have hk : (s.mask ⟨i.val / 64, by omega⟩).getLsbD (i.val % 64) = true :=
    (stored256_iff.1 h i).2 hi.1
  have hfind := Bitmask256.find_true_of_first beyond hk fun j hj =>
    h.getLsbD256_eq_false _ (by omega) (hi.2 _ (show 64 * (i.val / 64) + j < i.val by omega))
  have hsome := Bitmask256.findSome_of_first
    (fun b => ((List.range 64).find? fun k => !Bitmask256.isFalse beyond (s.mask b) k).map
      fun k => 64 * b.val + k)
    ⟨i.val / 64, by omega⟩
    (congrArg (Option.map fun k => 64 * (i.val / 64) + k) hfind) fun j hj => ?_
  · rw [Bitmask256.getFirstTrue, hsome]
    refine toNat_ofNat_of_lt (w := 256) (by decide) ?_
    show 64 * (i.val / 64) + min (i.val % 64) 31 < 256
    omega
  · -- the buckets before it are empty
    have hj' : j.val < i.val / 64 := hj
    have hzero : s.mask j = 0 := eq_zero_of_getLsbD fun k hk =>
      h.getLsbD256_eq_false j hk (hi.2 _ (show 64 * j.val + k < i.val by omega))
    rw [hzero, Bitmask256.find_true_zero]
    rfl

/-- **How 256 bits are searched.** -/
theorem searched256 {s : Built methods256} (h : Stored s) : Searched s := by
  have hlower (hall : ∀ i : Fin 256, i.val < 31 → i ∈ s.bits) (j : ℕ) (hj : j < 31) :
      (s.mask 0).getLsbD j = true :=
    (h.getLsbD256_low ⟨j, by omega⟩ (show j < 64 by omega)).2 (hall _ hj)
  refine ⟨fun beyond (i : Fin 256) hi => h.getFirstTrue256_of_first beyond hi,
    fun beyond hnone => ?_, fun beyond (i : Fin 256) hi h31 => ?_, fun beyond hall hupper => ?_,
    fun hall ⟨(k : Fin 256), hk, hk31, hk64⟩ => ?_⟩
  · have hzero (bucket : Fin 4) : s.mask bucket = 0 := eq_zero_of_getLsbD fun k hk =>
      h.getLsbD256_eq_false bucket hk (hnone _)
    show Bitmask256.getFirstTrue beyond s.mask = _
    simp only [Bitmask256.getFirstTrue, hzero, Bitmask256.find_true_zero]
    rfl
  · have hopen : (s.mask 0).getLsbD i.val = false := by
      rw [← Bool.not_eq_true, h.getLsbD256_low i (by omega)]
      exact hi.1
    have hfind := Bitmask256.find_false_low beyond h31 hopen fun j hj =>
      (h.getLsbD256_low ⟨j, by omega⟩ (show j < 64 by omega)).2 (not_not.1 (hi.2 _ hj))
    show (Bitmask256.getFirstFalse beyond s.mask).toNat = _
    rw [getFirstFalse_of_bucket hfind]
    exact toNat_ofNat_of_lt (w := 256) (by decide) i.isLt
  · have hfind := Bitmask256.find_false_sign beyond (hlower hall) fun j hj => by
      rcases Nat.lt_or_ge j 64 with hlt | hge
      · refine h.getLsbD256_eq_false 0 hlt fun hin => hupper _ hin ?_
        show 31 ≤ 64 * 0 + j ∧ 64 * 0 + j < 64
        omega
      · exact BitVec.getLsbD_of_ge _ j hge
    show (Bitmask256.getFirstFalse beyond s.mask).toNat = _
    rw [getFirstFalse_of_bucket hfind]
    rfl
  · have hset := (h.getLsbD256_low k hk64).2 hk
    have hnothing := Bitmask256.find_false_nothing (hlower hall) hk31 hset
    have hones := Bitmask256.find_false_ones (hlower hall) hk31 hset
    show (Bitmask256.getFirstFalse _ s.mask).toNat ≠ (Bitmask256.getFirstFalse _ s.mask).toNat
    rw [getFirstFalse_of_bucket hnothing]
    exact (getFirstFalse_ne_of_none hones (by decide)).symm

/-- A mask of four words has any bit just where the set has. -/
theorem Stored.hasAny256_iff {s : Built methods256} (h : Stored s) :
    s.mask.hasAny = true ↔ s.bits.Nonempty := by
  have hany : s.mask.hasAny = true ↔ ∃ bucket, s.mask bucket ≠ 0 := by
    simp only [Bitmask256.hasAny, Bool.or_eq_true, decide_eq_true_eq, or_assoc]
    constructor
    · rintro (h | h | h | h)
      · exact ⟨0, h⟩
      · exact ⟨1, h⟩
      · exact ⟨2, h⟩
      · exact ⟨3, h⟩
    · rintro ⟨bucket, h⟩
      match bucket with
      | 0 => exact Or.inl h
      | 1 => exact Or.inr (Or.inl h)
      | 2 => exact Or.inr (Or.inr (Or.inl h))
      | 3 => exact Or.inr (Or.inr (Or.inr h))
  refine hany.trans ⟨fun ⟨bucket, hne⟩ => ?_, fun ⟨(i : Fin 256), hi⟩ => ?_⟩
  · by_contra hnone
    rw [Finset.not_nonempty_iff_eq_empty] at hnone
    refine hne (eq_zero_of_getLsbD fun k hk => h.getLsbD256_eq_false bucket hk ?_)
    rw [hnone]
    exact Finset.notMem_empty _
  · refine ⟨⟨i.val / 64, by omega⟩, fun hzero => ?_⟩
    have hget := (stored256_iff.1 h i).2 hi
    rw [hzero] at hget
    exact absurd hget (by simp)

/-- **64 bits are the set where they store it and it is searchable.** -/
theorem refines64_iff {s : Built methods64} : Refines s ↔ Stored s ∧ Searchable s := by
  by_cases hstored : Stored s
  · refine (searched64 hstored).refines_iff (by decide) (by decide) fun h => ?_
    exact decide_eq_true_iff.trans (ne_zero_iff_nonempty (stored64_iff.1 h))
  · exact iff_of_false (fun h => hstored h.get) fun h => hstored h.1

/-- **And so are 256.** -/
theorem refines256_iff {s : Built methods256} : Refines s ↔ Stored s ∧ Searchable s := by
  by_cases hstored : Stored s
  · exact (searched256 hstored).refines_iff (by decide) (by decide) Stored.hasAny256_iff
  · exact iff_of_false (fun h => hstored h.get) fun h => hstored h.1

/-! ## Runs -/

/-- A mask of 32 bits without any, into which bit 3 is to be set. -/
theorem not_refines_set :
    ¬ Throughout Built.step Refines (Built.start methods32 0) [.set 3 true] := by
  intro h
  have hget := h.2.get (3 : Fin 32)
  exact absurd (hget.2 (by decide)) (by decide)

/-- **The masks are sets as far as they store and as their searches reach**:
the narrower two as long as each bit is set to what it was, the wider two as
long as the sets are searchable. -/
theorem refines_run_iff_searchable (mask32 : BitVec 32) (mask64 : BitVec 64)
    (mask256 : Bitmask256) (ops : List Op) :
    (Throughout Built.step Refines (Built.start methods32 mask32) ops ↔
      Along Built.step Unchanged (Built.start methods32 mask32) ops) ∧
    (Throughout Built.step Refines (Built.start methods64 mask64) ops ↔
      Along Built.step Unchanged (Built.start methods64 mask64) ops ∧
        Throughout Built.step Searchable (Built.start methods64 mask64) ops) ∧
    (Throughout Built.step Refines (Built.start methods256 mask256) ops ↔
      Throughout Built.step Searchable (Built.start methods256 mask256) ops) := by
  refine ⟨?_, ?_, ?_⟩
  · rw [throughout_congr fun _ => refines32_iff]
    refine throughout_iff_along (stored_start mask32) (fun s op h => ?_) ops
    exact stored_step_iff (fun _ _ _ => rfl) (fun _ _ => by simp [Bitmask32.get, Bitmask32.clear]) h
  · rw [throughout_congr fun _ => refines64_iff, throughout_and]
    refine and_congr ?_ Iff.rfl
    refine throughout_iff_along (stored_start mask64) (fun s op h => ?_) ops
    exact stored_step_iff (fun _ _ _ => rfl) (fun _ _ => by simp [Bitmask64.get, Bitmask64.clear]) h
  · rw [throughout_congr fun _ => refines256_iff, throughout_and]
    have hstored : Throughout Built.step Stored (Built.start methods256 mask256) ops :=
      throughout_of_invariant along_true (stored_start mask256)
        (fun s op h _ => stored256_step op h) fun s h => h
    exact and_iff_right hstored

end Bitmask

end Uberos
