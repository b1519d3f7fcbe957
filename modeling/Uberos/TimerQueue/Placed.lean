import Mathlib.Algebra.Group.Nat.Defs
import Uberos.SleepTimer.Waiting
/-!
# Where an entry is placed

`schedule` puts an entry before the first that it finds lower than. By the
comparison, which takes the difference of two times round the turn of 64
bits, a time is lower than any that is later, and than one that is more
than `0xfffffffc` earlier as well.
-/

namespace Uberos

namespace TimerQueue

variable {Callback Data : Type} {q : TimerQueue Callback Data} {important : Bool}
variable {entries zeroed : List (Scheduled Callback Data)} {entry existing : Scheduled Callback Data}

/-- A queue with one entry more, as `schedule` leaves it. -/
def placed (entry : Scheduled Callback Data) (entries : List (Scheduled Callback Data)) :
    List (Scheduled Callback Data) :=
  match position entry.time entries with
  | some i => PodArray.insert entries i entry
  | none => PodArray.pushBack entries entry

/-- Sorted by the deadline. -/
def Ascending (entries : List (Scheduled Callback Data)) : Prop :=
  entries.Pairwise fun entry entry' => entry.time ≤ entry'.time

/-- **The comparison is right of a time**: no entry that is not later is
earlier by more than `0xfffffffc`, unless its time is zero, and the first
that is later is not later by a turn less that. -/
def InReach (time : BitVec 64) (entries : List (Scheduled Callback Data)) : Prop :=
  (∀ existing ∈ entries, existing.time ≤ time →
      existing.time = 0 ∨ time.toNat ≤ existing.time.toNat + 0xfffffffc) ∧
    ∀ existing ∈ entries.find? (fun existing => decide (time < existing.time)),
      existing.time.toNat + 0xfffffffc < time.toNat + 2 ^ 64

instance (time : BitVec 64) (entries : List (Scheduled Callback Data)) :
    Decidable (InReach time entries) := inferInstanceAs (Decidable (_ ∧ _))

/-! ## The comparison -/

theorem lower_iff (time existing : BitVec 64) : lower time existing = true ↔
    0xfffffffc < (2 ^ 64 - existing.toNat + time.toNat) % 2 ^ 64 := by
  have hshift : ((0xffffffff#32 <<< 2).setWidth 64).toNat = 0xfffffffc := by decide
  rw [lower, decide_eq_true_eq, BitVec.lt_def, hshift, BitVec.toNat_sub]

theorem lower_iff_of_le {time existing : BitVec 64} (h : existing ≤ time) :
    lower time existing = true ↔ existing.toNat + 0xfffffffc < time.toNat := by
  have hlt := time.isLt
  rw [BitVec.le_def] at h
  rw [lower_iff]
  omega

theorem lower_iff_of_lt {time existing : BitVec 64} (h : time < existing) :
    lower time existing = true ↔ existing.toNat + 0xfffffffc < time.toNat + 2 ^ 64 := by
  have hlt := existing.isLt
  rw [BitVec.lt_def] at h
  rw [lower_iff]
  omega

/-! ## One entry more -/

/-- The entry goes before the first or is placed among the others. -/
theorem placed_cons (entry existing : Scheduled Callback Data)
    (entries : List (Scheduled Callback Data)) : placed entry (existing :: entries) =
      if existing.time ≠ 0 ∧ lower entry.time existing.time = true then entry :: existing :: entries
      else existing :: placed entry entries := by
  have hfirst : (existing.time ≠ 0 && lower entry.time existing.time) = true ↔
      existing.time ≠ 0 ∧ lower entry.time existing.time = true := by
    simp only [Bool.and_eq_true, decide_eq_true_eq]
  rw [placed, position, List.findIdx?_cons]
  by_cases hlower : existing.time ≠ 0 ∧ lower entry.time existing.time = true
  · rw [if_pos (hfirst.2 hlower), if_pos hlower]
    rfl
  · rw [if_neg (fun hcon => hlower (hfirst.1 hcon)), if_neg hlower, placed, position]
    cases entries.findIdx? fun existing => existing.time ≠ 0 && lower entry.time existing.time with
    | none => rfl
    | some i => rfl

theorem placed_perm (entry : Scheduled Callback Data) (entries : List (Scheduled Callback Data)) :
    (placed entry entries).Perm (entry :: entries) := by
  induction entries with
  | nil => exact List.Perm.refl _
  | cons existing entries ih =>
    rw [placed_cons]
    split
    · exact List.Perm.refl _
    · exact (ih.cons existing).trans (List.Perm.swap entry existing entries)

/-- Behind those that are set to zero. -/
theorem placed_zeroed (hzero : ∀ entry ∈ zeroed, entry.time = 0) :
    placed entry (zeroed ++ entries) = zeroed ++ placed entry entries := by
  induction zeroed with
  | nil => rfl
  | cons existing zeroed ih =>
    have hfirst : existing.time = 0 := hzero existing List.mem_cons_self
    rw [List.cons_append, placed_cons, if_neg fun hcon => hcon.1 hfirst,
      ih fun entry hentry => hzero entry (List.mem_cons_of_mem _ hentry), List.cons_append]

/-- **An entry is placed in order just where the comparison is right.** -/
theorem ascending_placed_iff (h : Ascending entries) :
    Ascending (placed entry entries) ↔ InReach entry.time entries := by
  induction entries with
  | nil =>
    refine iff_of_true (List.pairwise_singleton _ _) ⟨fun existing hmem => ?_, fun existing hmem => ?_⟩
    · exact absurd hmem List.not_mem_nil
    · cases hmem
  | cons existing entries ih =>
    obtain ⟨hfirst, hrest⟩ := List.pairwise_cons.1 h
    rw [placed_cons]
    by_cases hle : existing.time ≤ entry.time
    · -- it is to go behind the first
      have hnot : ¬ entry.time < existing.time := BitVec.not_lt.2 hle
      have hreach : InReach entry.time (existing :: entries) ↔
          (existing.time = 0 ∨ entry.time.toNat ≤ existing.time.toNat + 0xfffffffc) ∧
            InReach entry.time entries := by
        simp only [InReach, List.forall_mem_cons, hle, forall_const, List.find?_cons, hnot,
          decide_false, and_assoc]
      -- it is put in front all the same where it is lower than one that is earlier
      rw [hreach]
      split
      · rename_i hlower
        rw [lower_iff_of_le hle] at hlower
        refine iff_of_false (fun hcon => ?_) fun hcon => ?_
        · have hback := (List.pairwise_cons.1 hcon).1 existing List.mem_cons_self
          rw [BitVec.le_def] at hback
          omega
        · rcases hcon.1 with hzero | hnear
          · exact hlower.1 hzero
          · omega
      · rename_i hlower
        rw [not_and_or, not_not, lower_iff_of_le hle] at hlower
        have hnear : existing.time = 0 ∨ entry.time.toNat ≤ existing.time.toNat + 0xfffffffc :=
          hlower.imp id Nat.not_lt.1
        rw [← ih hrest, Ascending, List.pairwise_cons]
        refine ⟨fun hcon => ⟨hnear, hcon.2⟩, fun hcon => ⟨fun other hother => ?_, hcon.2⟩⟩
        rcases List.mem_cons.1 ((placed_perm entry entries).mem_iff.1 hother) with rfl | hother
        · exact hle
        · exact hfirst other hother
    · -- all are later, and it is to go in front
      have hlt : entry.time < existing.time := BitVec.not_le.1 hle
      have hlater : ∀ other ∈ existing :: entries, entry.time < other.time := by
        intro other hother
        rcases List.mem_cons.1 hother with rfl | hother
        · exact hlt
        · exact BitVec.not_le.1 fun hback => hle (BitVec.le_trans (hfirst other hother) hback)
      have hnonzero : existing.time ≠ 0 := by
        rintro hzero
        rw [hzero] at hlt
        exact absurd hlt (BitVec.not_lt_zero)
      have hreach : InReach entry.time (existing :: entries) ↔
          existing.time.toNat + 0xfffffffc < entry.time.toNat + 2 ^ 64 := by
        rw [InReach, List.find?_cons, decide_eq_true hlt]
        refine ⟨fun hcon => hcon.2 existing rfl, fun hcon => ⟨fun other hother hback => ?_, ?_⟩⟩
        · exact absurd hback (BitVec.not_le.2 (hlater other hother))
        · rintro other ⟨⟩
          exact hcon
      rw [hreach, ← lower_iff_of_lt hlt]
      split
      · rename_i hlower
        refine iff_of_true (List.pairwise_cons.2 ⟨fun other hother => ?_, h⟩) hlower.2
        exact BitVec.le_of_lt (hlater other hother)
      · rename_i hlower
        refine iff_of_false (fun hcon => ?_) fun hcon => hlower ⟨hnonzero, hcon⟩
        have hmem : entry ∈ placed entry entries :=
          (placed_perm entry entries).mem_iff.2 List.mem_cons_self
        exact hle ((List.pairwise_cons.1 hcon).1 entry hmem)

/-- **And it goes behind those of its own deadline.** -/
theorem filter_placed (h : Ascending (placed entry entries)) (time : BitVec 64) :
    (placed entry entries).filter (fun other => decide (other.time = time)) =
      entries.filter (fun other => decide (other.time = time)) ++
        [entry].filter fun other => decide (other.time = time) := by
  induction entries with
  | nil => rfl
  | cons existing entries ih =>
    rw [placed_cons] at h ⊢
    split
    · rename_i hlower
      rw [if_pos hlower] at h
      obtain ⟨hbefore, hentries⟩ := List.pairwise_cons.1 h
      obtain ⟨hbehind, -⟩ := List.pairwise_cons.1 hentries
      -- the others are later, and so of no deadline that is the entry's
      have hfirst : ¬ existing.time ≤ entry.time := by
        intro hle
        have hback := hbefore existing List.mem_cons_self
        rw [lower_iff_of_le hle] at hlower
        rw [BitVec.le_def] at hback
        omega
      have hlater : ∀ other ∈ existing :: entries, other.time ≠ entry.time := by
        intro other hother heq
        rcases List.mem_cons.1 hother with rfl | hother
        · exact hfirst (BitVec.le_of_eq heq)
        · exact hfirst (heq ▸ hbehind other hother)
      rw [List.filter_cons, List.filter_singleton]
      by_cases htime : entry.time = time
      · have hnone : (existing :: entries).filter (fun other => decide (other.time = time)) = [] := by
          refine List.filter_eq_nil_iff.2 fun other hother => ?_
          rw [decide_eq_true_eq, ← htime]
          exact hlater other hother
        rw [hnone, decide_eq_true htime, if_pos rfl]
        rfl
      · rw [decide_eq_false htime, if_neg Bool.false_ne_true]
        exact (List.append_nil _).symm
    · rename_i hlower
      rw [if_neg hlower] at h
      obtain ⟨-, hrest⟩ := List.pairwise_cons.1 h
      rw [List.filter_cons, List.filter_cons, ih hrest]
      split <;> rfl

/-- **`schedule` places its entry.** -/
theorem queue_scheduleOn_placed (q : TimerQueue Callback Data) (important : Bool)
    (usecs : BitVec 32) (callback : Callback) (data : Data) :
    (q.scheduleOn important usecs callback data).2.queue important =
      placed (q.entryOf usecs callback data) (q.queue important) := by
  rw [queue_scheduleOn_self, placed]
  rfl

end TimerQueue

end Uberos
