import Mathlib.Data.BitVec
import Uberos.Bitmask.Model
import Uberos.Library.Run
/-!
# The hardware timers of a driver

`claim_timer`, `release_timer` and `find_and_claim_timer` of
`drivers/Timer.inl`, on the `Bitmask256` of each timer driver. What a
device has in timers, `get_timer_count`, none of them asks. The mask is
tested with a shift of an `int`, of which the language says nothing once
it is as wide; what it gives then is a parameter.
-/

namespace Uberos

open Library

namespace Timer

variable {Driver : Type*} [DecidableEq Driver] (beyond : ℕ → BitVec 32)

/-- `claim_timer`. The identifier is a `U8`, compared as an `int`. -/
def claimTimer (timersInUse : Bitmask256) : Option (BitVec 8) × Bitmask256 :=
  let id := timersInUse.getFirstFalse beyond
  if (id.toNat : ℤ) = ~~~0 then (none, timersInUse) else (some id, timersInUse.set id true)

/-- `release_timer`. -/
def releaseTimer (timersInUse : Bitmask256) (id : BitVec 8) : Bitmask256 :=
  timersInUse.set id false

/-- A loop of `find_and_claim_timer`, over the drivers it tries. -/
def claimFirst (timersInUse : Driver → Bitmask256) :
    List Driver → Option (Driver × BitVec 8 × Bitmask256)
  | [] => none
  | timer :: timers =>
    match claimTimer beyond (timersInUse timer) with
    | (some id, mask) => some (timer, id, mask)
    | (none, _) => claimFirst timersInUse timers

/-- `find_and_claim_timer`: the driver, the identifier and its mask then.
Which driver is found by default, and which are active or can be started,
are what they are at the call. -/
def findAndClaimTimer (timersInUse : Driver → Bitmask256) (timer : Option Driver)
    (drivers : List Driver) (active startable : Driver → Bool) :
    Option (Driver × BitVec 8 × Bitmask256) :=
  timer.bind fun timer =>
    claimFirst beyond timersInUse (timer :: drivers.filter active ++ drivers.filter startable)

/-- The masks of the timer drivers, and the identifiers held of each. -/
structure Timers (Driver : Type*) where
  timersInUse : Driver → Bitmask256
  held : Driver → List (BitVec 8)

/-- Drivers as they are constructed. -/
def Timers.new : Timers Driver := ⟨fun _ => .empty, fun _ => []⟩

variable (Driver) in
/-- What is asked of the drivers. -/
inductive Op
  | claim (timer : Driver)
  | release (timer : Driver) (id : BitVec 8)
  | findAndClaim (timer : Option Driver) (drivers : List Driver) (active startable : Driver → Bool)

/-- A driver's mask is another, and an identifier of it held. -/
def Timers.hold (s : Timers Driver) (timer : Driver) (id : BitVec 8) (mask : Bitmask256) :
    Timers Driver :=
  { timersInUse := Function.update s.timersInUse timer mask
    held := Function.update s.held timer (id :: s.held timer) }

/-- One call. -/
def step (s : Timers Driver) : Op Driver → Timers Driver
  | .claim timer =>
    match claimTimer beyond (s.timersInUse timer) with
    | (some id, mask) => s.hold timer id mask
    | (none, _) => s
  | .release timer id =>
    { timersInUse := Function.update s.timersInUse timer (releaseTimer (s.timersInUse timer) id)
      held := Function.update s.held timer ((s.held timer).erase id) }
  | .findAndClaim timer drivers active startable =>
    match findAndClaimTimer beyond s.timersInUse timer drivers active startable with
    | some (timer, id, mask) => s.hold timer id mask
    | none => s

/-- **What is released is held.** -/
def Legal (s : Timers Driver) : Op Driver → Prop
  | .release timer id => id ∈ s.held timer
  | .claim _ | .findAndClaim _ _ _ _ => True

end Timer

/-!
## Who owns a timer

A claim takes the first open bit of the mask, whatever the device has in
timers and whatever the queue does with timer 0, and it is never refused:
that no bit is open is an `int` of −1, which no `U8` is. The first claim
of a driver is given timer 0. What does hold is that identifiers are
distinct and the least that are free, as long as fewer than 32 are held
when one is claimed.
-/

namespace Timer

open Library

variable {Driver : Type*} [DecidableEq Driver] {beyond : ℕ → BitVec 32} {s : Timers Driver}
variable {op : Op Driver} {mask : Bitmask256} {bit id : BitVec 8} {timerCount : Driver → ℕ}

/-! ## What it is for -/

/-- **The identifiers held of a driver are distinct, are timers of its
device and are not timer 0**, which `TimerQueue` programs. -/
def Owned (timerCount : Driver → ℕ) (s : Timers Driver) : Prop :=
  ∀ timer, (s.held timer).Nodup ∧ ∀ id ∈ s.held timer, id.toNat < timerCount timer ∧ id ≠ 0

/-- None that could be held is free. -/
def Exhausted (timerCount : Driver → ℕ) (s : Timers Driver) (timer : Driver) : Prop :=
  ∀ id : BitVec 8, id.toNat < timerCount timer → id ≠ 0 → id ∈ s.held timer

/-- **A call leaves the timers owned**, and a claim is refused just when
none is free. -/
def Meets (beyond : ℕ → BitVec 32) (timerCount : Driver → ℕ) (s : Timers Driver)
    (op : Op Driver) : Prop :=
  Owned timerCount (step beyond s op) ∧
    ∀ timer, op = .claim timer →
      ((claimTimer beyond (s.timersInUse timer)).1 = none ↔ Exhausted timerCount s timer)

/-- Nothing is claimed. -/
def Unclaimed (_ : Timers Driver) : Op Driver → Prop
  | .claim _ => False
  | .release _ _ => True
  | .findAndClaim timer _ _ _ => timer = none

/-! ## No claim is refused -/

/-- **A claim returns the first open bit**, or whatever stands for none. -/
theorem claimTimer_eq (mask : Bitmask256) :
    claimTimer beyond mask =
      (some (mask.getFirstFalse beyond), mask.set (mask.getFirstFalse beyond) true) := by
  rw [claimTimer, if_neg]
  -- the complement of zero is negative
  have hneg : ~~~(0 : ℤ) = -1 := rfl
  rw [hneg]
  omega

omit [DecidableEq Driver] in
/-- **The driver found by default is the one that is claimed of.** -/
theorem findAndClaimTimer_some (timersInUse : Driver → Bitmask256) (timer : Driver)
    (drivers : List Driver) (active startable : Driver → Bool) :
    findAndClaimTimer beyond timersInUse (some timer) drivers active startable =
      some (timer, (timersInUse timer).getFirstFalse beyond,
        (timersInUse timer).set ((timersInUse timer).getFirstFalse beyond) true) := by
  rw [findAndClaimTimer, Option.bind_some, List.cons_append, claimFirst, claimTimer_eq]

/-! ## The first open bit -/

variable {bits : BitVec 64} {i : ℕ}

/-- **A bit of the low word is tested as it should be, where the high word
is empty**: bit 31 of an `int` is its sign, which the extension copies
upwards. -/
theorem isFalse_iff (hhigh : ∀ j, 32 ≤ j → bits.getLsbD j = false) (hi : i < 32) :
    Bitmask256.isFalse beyond bits i = true ↔ bits.getLsbD i = false := by
  rcases Nat.lt_or_ge i 31 with hlt | hge
  · rw [Bitmask256.isFalse_low hlt, Bool.not_eq_true']
  · obtain rfl : i = 31 := by omega
    rw [Bitmask256.isFalse_sign]
    refine ⟨fun h => h 31 (Nat.le_refl _), fun hopen j hj => ?_⟩
    rcases Nat.eq_or_lt_of_le hj with rfl | hlt
    · exact hopen
    · exact hhigh j hlt

/-- **The first open bit of the low word is found**, if there is one. -/
theorem getFirstFalse_eq (hhigh : ∀ j, 32 ≤ j → (mask 0).getLsbD j = false) (hi : i < 32)
    (hopen : (mask 0).getLsbD i = false) (hbefore : ∀ j < i, (mask 0).getLsbD j = true) :
    mask.getFirstFalse beyond = BitVec.ofNat 8 i := by
  have hfind : (List.range 64).find? (Bitmask256.isFalse beyond (mask 0)) = some i := by
    refine find?_range_of_first (by omega) ((isFalse_iff hhigh hi).2 hopen) fun j hj => ?_
    rw [← Bool.not_eq_true, isFalse_iff hhigh (by omega), hbefore j hj]
    decide
  rw [Bitmask256.getFirstFalse, List.findSome?_cons, hfind]
  simp

/-- A mask that is empty has bit 0. -/
theorem getFirstFalse_empty : Bitmask256.empty.getFirstFalse beyond = 0 :=
  getFirstFalse_eq (i := 0) (fun j _ => by simp [Bitmask256.empty]) (by omega)
    (by simp [Bitmask256.empty]) fun j hj => by omega

/-! ## Every claim takes timer 0 -/

/-- **A driver that nothing was claimed of gives timer 0**, and what has
that is not owned. -/
theorem not_owned_hold (hid : id = 0) (timer : Driver) :
    ¬ Owned timerCount (s.hold timer id mask) := by
  intro howned
  have hmem : id ∈ (s.hold timer id mask).held timer := by
    simp only [Timers.hold, Function.update_self, List.mem_cons, true_or]
  exact ((howned timer).2 id hmem).2 hid

/-- **Over a run the timers are owned as long as none is claimed.** -/
theorem owned_run_iff (timerCount : Driver → ℕ) (ops : List (Op Driver))
    (hlegal : Along (step beyond) Legal .new ops) :
    Along (step beyond) (Meets beyond timerCount) .new ops ↔
      Along (step beyond) Unclaimed .new ops := by
  refine along_iff_of_invariant (I := fun s => s = .new) hlegal rfl ?_ ?_
  · rintro s op rfl hop
    cases op with
    | claim timer =>
      -- it is given timer 0
      refine iff_of_false (fun hmeets => ?_) (fun hnot => hnot)
      have howned := hmeets.1
      rw [step, claimTimer_eq] at howned
      exact not_owned_hold getFirstFalse_empty timer howned
    | release timer id => exact absurd hop List.not_mem_nil
    | findAndClaim timer drivers active startable =>
      rcases timer with - | timer
      · refine iff_of_true ⟨fun timer => ⟨List.nodup_nil, fun id hid => ?_⟩, fun timer heq => ?_⟩ rfl
        · cases hid
        · cases heq
      · refine iff_of_false (fun hmeets => ?_) (Option.some_ne_none timer)
        have howned := hmeets.1
        rw [step, findAndClaimTimer_some] at howned
        exact not_owned_hold getFirstFalse_empty timer howned
  · rintro s op rfl hop hunclaimed
    cases op with
    | claim timer => exact absurd hunclaimed id
    | release timer id => exact absurd hop List.not_mem_nil
    | findAndClaim timer drivers active startable =>
      obtain rfl : timer = none := hunclaimed
      rfl

/-- Two drivers of which none is found to be claimed of. -/
theorem owned_run_iff_unclaimed :
    Along (step fun _ => 0) (Meets (fun _ => 0) fun _ => 3) (.new : Timers Bool)
      [.findAndClaim none [true, false] (fun _ => true) fun _ => true] :=
  (owned_run_iff _ _ (by exact ⟨trivial, trivial⟩)).2 ⟨rfl, trivial⟩

/-- A device of three timers is claimed of, and gives the first. -/
theorem not_owned_run :
    ¬ Along (step fun _ => 0) (Meets (fun _ => 0) fun _ => 3) (.new : Timers Unit)
      [.claim ()] :=
  fun h => absurd ((h.1.1 ()).2 0 (by decide +kernel)).2 (by decide)

/-! ## What identifiers are -/

/-- The low word of each mask has the identifiers that are held, none of
them twice and all below 32. -/
def Marked (s : Timers Driver) : Prop :=
  ∀ timer, (s.held timer).Nodup ∧ (∀ id ∈ s.held timer, id.toNat < 32) ∧
    ∀ j, (s.timersInUse timer).low.getLsbD j = true ↔ ∃ id ∈ s.held timer, id.toNat = j

/-- **A driver that is claimed of holds fewer than 32.** -/
def Spare (s : Timers Driver) : Op Driver → Prop
  | .claim timer => (s.held timer).length < 32
  | .release _ _ => True
  | .findAndClaim timer _ _ _ => ∀ d ∈ timer, (s.held d).length < 32

/-- A bit of the low word that is set or cleared. -/
theorem set_getLsbD (hid : id.toNat < 32) (value : Bool) (j : ℕ) :
    (mask.set id value 0).getLsbD j = if j = id.toNat then value else (mask 0).getLsbD j := by
  have hbucket : Bitmask256.bucket id = 0 := by
    simp only [Bitmask256.bucket, Fin.ext_iff]
    show id.toNat / 64 = 0
    omega
  have hmod : id.toNat % 64 = id.toNat := Nat.mod_eq_of_lt (by omega)
  rw [Bitmask256.set, hbucket, Function.update_self, Bitmask256.bucketMask, hmod]
  have hone : ∀ j, (1#64 <<< id.toNat).getLsbD j = decide (j = id.toNat) := by
    intro j
    simp only [BitVec.getLsbD_shiftLeft, BitVec.getLsbD_one]
    by_cases hj : j = id.toNat
    · subst hj
      simp
      omega
    · simp [hj]
      omega
  have hvalue : (if value then 1#64 <<< id.toNat else 0).getLsbD j =
      (value && decide (j = id.toNat)) := by
    cases value
    · exact BitVec.getLsbD_zero
    · rw [if_pos rfl, hone, Bool.true_and]
  rw [BitVec.getLsbD_or, BitVec.getLsbD_and, BitVec.getLsbD_not, hone, hvalue]
  by_cases hj : j = id.toNat
  · subst hj
    simp
  · have hout : ¬ j < 64 → (mask 0).getLsbD j = false := fun hge =>
      BitVec.getLsbD_of_ge _ _ (by omega)
    generalize (mask 0).getLsbD j = b at hout ⊢
    rw [if_neg hj, decide_eq_false hj, Bool.and_false, Bool.or_false, Bool.not_false, Bool.and_true]
    by_cases hlt : j < 64
    · rw [decide_eq_true hlt, Bool.and_true]
    · rw [hout hlt, Bool.false_and]

/-- Fewer than 32 identifiers leave one below 32, and a least one. -/
theorem exists_free {held : List (BitVec 8)} (hlength : held.length < 32) :
    ∃ i < 32, (∀ id ∈ held, id.toNat ≠ i) ∧ ∀ j < i, ∃ id ∈ held, id.toNat = j := by
  have hexists : ∃ i, i < 32 ∧ ∀ id ∈ held, id.toNat ≠ i := by
    by_contra hall
    push Not at hall
    have hsub : List.range 32 ⊆ held.map BitVec.toNat := by
      intro i hi
      obtain ⟨id, hid, rfl⟩ := hall i (List.mem_range.1 hi)
      exact List.mem_map_of_mem hid
    have hle := (List.subperm_of_subset List.nodup_range hsub).length_le
    rw [List.length_range, List.length_map] at hle
    omega
  have hleast := Nat.find_spec hexists
  refine ⟨Nat.find hexists, hleast.1, hleast.2, fun j hj => ?_⟩
  have hnot := Nat.find_min hexists hj
  push Not at hnot
  exact hnot (by omega)

omit [DecidableEq Driver] in
/-- **A claim of a driver that holds fewer than 32 takes the least
identifier that is free.** -/
theorem Marked.getFirstFalse (h : Marked s) (beyond : ℕ → BitVec 32) {timer : Driver}
    (hspare : (s.held timer).length < 32) :
    ∃ i < 32, (s.timersInUse timer).getFirstFalse beyond = BitVec.ofNat 8 i ∧
      (∀ id ∈ s.held timer, id.toNat ≠ i) ∧ ∀ j < i, ∃ id ∈ s.held timer, id.toNat = j := by
  obtain ⟨-, hlow, hbits⟩ := h timer
  obtain ⟨i, hi, hfree, hbefore⟩ := exists_free hspare
  refine ⟨i, hi, getFirstFalse_eq (fun j hj => ?_) hi ?_ fun j hj => ?_, hfree, hbefore⟩
  · rw [← Bool.not_eq_true, hbits]
    rintro ⟨id, hid, rfl⟩
    have hlt := hlow id hid
    omega
  · rw [← Bool.not_eq_true, hbits]
    rintro ⟨id, hid, heq⟩
    exact hfree id hid heq
  · rw [hbits]
    exact hbefore j hj

/-- An identifier more is held, and its bit set. -/
theorem Marked.hold (h : Marked s) {timer : Driver} {i : ℕ} (hi : i < 32)
    (hfree : ∀ id ∈ s.held timer, id.toNat ≠ i) :
    Marked (s.hold timer (BitVec.ofNat 8 i)
      ((s.timersInUse timer).set (BitVec.ofNat 8 i) true)) := by
  have hid : (BitVec.ofNat 8 i).toNat = i := by
    rw [BitVec.toNat_ofNat]
    exact Nat.mod_eq_of_lt (by omega)
  intro d
  by_cases hd : d = timer
  · subst hd
    obtain ⟨hnodup, hlow, hbits⟩ := h d
    simp only [Timers.hold, Function.update_self]
    refine ⟨List.nodup_cons.2 ⟨fun hmem => hfree _ hmem hid, hnodup⟩, fun id hmem => ?_, fun j => ?_⟩
    · rcases List.mem_cons.1 hmem with rfl | hmem
      · omega
      · exact hlow id hmem
    · rw [set_getLsbD (by omega), hid, List.exists_mem_cons_iff, hid, ← hbits]
      by_cases hj : j = i
      · simp [hj]
      · rw [if_neg hj]
        exact (or_iff_right (Ne.symm hj)).symm
  · simp only [Timers.hold, Function.update_of_ne hd]
    exact h d

/-- One is held no longer, and its bit cleared. -/
theorem Marked.release (h : Marked s) {timer : Driver} (hid : id ∈ s.held timer) :
    Marked (step beyond s (.release timer id)) := by
  intro d
  by_cases hd : d = timer
  · subst hd
    obtain ⟨hnodup, hlow, hbits⟩ := h d
    simp only [step, releaseTimer, Function.update_self]
    refine ⟨hnodup.erase id, fun other hmem => hlow other (List.mem_of_mem_erase hmem), fun j => ?_⟩
    rw [set_getLsbD (hlow id hid)]
    split
    · rename_i hj
      subst hj
      refine iff_of_false Bool.false_ne_true ?_
      rintro ⟨other, hmem, heq⟩
      rw [hnodup.mem_erase_iff] at hmem
      exact hmem.1 (BitVec.eq_of_toNat_eq heq)
    · rename_i hj
      rw [hbits]
      refine ⟨fun ⟨other, hmem, heq⟩ => ⟨other, ?_, heq⟩,
        fun ⟨other, hmem, heq⟩ => ⟨other, List.mem_of_mem_erase hmem, heq⟩⟩
      rw [hnodup.mem_erase_iff]
      exact ⟨fun hsame => hj (by rw [← heq, hsame]), hmem⟩
  · simp only [step, Function.update_of_ne hd]
    exact h d

/-- **The step lemma.** -/
theorem Marked.step (h : Marked s) (hlegal : Legal s op) (hspare : Spare s op) :
    Marked (step beyond s op) := by
  cases op with
  | claim timer =>
    obtain ⟨i, hi, hfirst, hfree, -⟩ := h.getFirstFalse beyond hspare
    rw [Timer.step, claimTimer_eq, hfirst]
    exact h.hold hi hfree
  | release timer id => exact h.release hlegal
  | findAndClaim timer drivers active startable =>
    rcases timer with - | timer
    · exact h
    · obtain ⟨i, hi, hfirst, hfree, -⟩ := h.getFirstFalse beyond (hspare timer rfl)
      rw [Timer.step, findAndClaimTimer_some, hfirst]
      exact h.hold hi hfree

/-- **In a run that claims only of drivers that hold fewer than 32, the
identifiers held are distinct**, and each was the least free one. -/
theorem distinct_run (ops : List (Op Driver)) (hlegal : Along (step beyond) Legal .new ops)
    (hspare : Along (step beyond) Spare .new ops) :
    Throughout (step beyond) (fun s => ∀ timer, (s.held timer).Nodup) .new ops := by
  refine throughout_of_invariant (hlegal.and hspare) (I := Marked) ?_
    (fun _ _ h hop => h.step hop.1 hop.2) fun _ h timer => (h timer).1
  refine fun timer => ⟨List.nodup_nil, fun id hid => absurd hid List.not_mem_nil, fun j => ?_⟩
  simp [Timers.new, Bitmask256.empty]

end Timer

end Uberos
