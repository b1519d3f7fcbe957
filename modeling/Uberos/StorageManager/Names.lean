import Mathlib.Algebra.Group.Nat.Defs
import Mathlib.Data.List.Nodup
import Uberos.StorageManager.Model
/-!
# Which names are unique

A name is a prefix and a number. The numbers of one prefix only rise, so
that two names of one prefix differ; names of two prefixes are the same
where the longer prefix goes on with the digits the other's number begins
with. Nothing else makes two names the same, as long as the characters
stay in the buffers of their strings.
-/

namespace Uberos

namespace StorageManager

open Library String8

variable {T : Target} {s : StorageManager} {u : Usage} {op : Op} {ops : List Op}
variable {options : AllocationOptions} {driveNames : List DriveName} {drives : List Drive}
variable {controller index buffer : ℕ}

/-! ## What it is for -/

/-- **The names of all entries are distinct, and a name that was returned
finds the entry it was returned for.** -/
def Unique (u : Usage) : Prop :=
  (u.manager.drives.map Drive.name).Nodup ∧
    ∀ (i : ℕ) (issue : Issue), u.issues[i]? = some issue →
      u.manager.findDriveByName issue.returned = some i

/-- The name fits the buffer of its string, and the array of drives has
room to grow. -/
def Stored (u : Usage) : Op → Prop
  | .allocate options _ _ _ =>
    (cString options.namePrefix).length + (u.manager.number options).length < localBufferSize ∧
      u.manager.drives.length + 1 + u.manager.drives.length / 2 < 2 ^ 32
  | .release _ | .setId _ _ => True

instance (u : Usage) : ∀ op, Decidable (Stored u op)
  | .allocate _ _ _ _ => inferInstanceAs (Decidable (_ ∧ _))
  | .release _ | .setId _ _ => inferInstanceAs (Decidable True)

/-- The second prefix is the first and the digits its number begins with,
and the second number is the rest of them. -/
def Extends (namePrefix number namePrefix' number' : List Char) : Prop :=
  ∃ digits ≠ [], namePrefix' = namePrefix ++ digits ∧ number = digits ++ number'

/-- **No prefix goes on with the digits of another's number.** -/
def Unclashed (u : Usage) : Op → Prop
  | .allocate options _ _ _ => ∀ issue ∈ u.issues,
    ¬Extends issue.namePrefix issue.number (cString options.namePrefix) (u.manager.number options) ∧
      ¬Extends (cString options.namePrefix) (u.manager.number options) issue.namePrefix issue.number
  | .release _ | .setId _ _ => True

/-- The name of an issue. -/
def Issue.name (issue : Issue) : List Char := issue.namePrefix ++ issue.number

/-! ## Counters -/

/-- The count of a prefix, or zero. -/
def countOf (driveNames : List DriveName) (namePrefix : List Char) : ℕ :=
  (countUp namePrefix driveNames).1

theorem countUp_found {existing : DriveName} {namePrefix : List Char}
    (h : Equals existing.namePrefix namePrefix) :
    countUp namePrefix (existing :: driveNames) =
      (existing.count, { existing with count := (existing.count + 1) % 2 ^ 32 } :: driveNames) := by
  rw [countUp, if_pos h]

theorem countUp_passed {existing : DriveName} {namePrefix : List Char}
    (h : ¬Equals existing.namePrefix namePrefix) :
    countUp namePrefix (existing :: driveNames) =
      ((countUp namePrefix driveNames).1, existing :: (countUp namePrefix driveNames).2) := by
  rw [countUp, if_neg h]

/-- The count of the first of the prefix. -/
theorem countOf_cons (existing : DriveName) (driveNames : List DriveName) (namePrefix : List Char) :
    countOf (existing :: driveNames) namePrefix =
      if existing.namePrefix = cString namePrefix then existing.count
      else countOf driveNames namePrefix := by
  rw [countOf]
  split
  · rename_i h
    rw [countUp_found h]
  · rename_i h
    rw [countUp_passed h]
    rfl

/-- **Of all counts, one goes up.** -/
theorem countOf_countUp (driveNames : List DriveName) (namePrefix other : List Char)
    (hsmall : countOf driveNames namePrefix + 1 < 2 ^ 32) :
    countOf (countUp namePrefix driveNames).2 other =
      if cString namePrefix = cString other then countOf driveNames namePrefix + 1
      else countOf driveNames other := by
  induction driveNames with
  | nil =>
    rw [countUp, countOf_cons]
    rfl
  | cons existing driveNames ih =>
    rw [countOf_cons] at hsmall ⊢
    by_cases heq : existing.namePrefix = cString namePrefix
    · rw [if_pos heq] at hsmall ⊢
      rw [countUp_found heq, countOf_cons, countOf_cons, heq, Nat.mod_eq_of_lt hsmall]
      split <;> rfl
    · rw [if_neg heq] at hsmall ⊢
      rw [countUp_passed heq, countOf_cons, countOf_cons]
      by_cases hother : existing.namePrefix = cString other
      · rw [if_pos hother, if_pos hother, if_neg fun h => heq (hother.trans h.symm)]
      · rw [if_neg hother, if_neg hother]
        exact ih hsmall

/-- A C string read again is itself. -/
theorem cString_cString (text : List Char) : cString (cString text) = cString text :=
  cString_eq null_notMem_cString

theorem countOf_congr {namePrefix other : List Char} (h : cString namePrefix = cString other) :
    countOf driveNames namePrefix = countOf driveNames other := by
  induction driveNames with
  | nil => rfl
  | cons existing driveNames ih => rw [countOf_cons, countOf_cons, h, ih]

/-! ## The invariant -/

/-- The drives have the names that were issued, which are distinct, and
the counts have passed the numbers of their prefixes. -/
structure Kept (u : Usage) : Prop where
  names : u.manager.drives.map Drive.name = u.issues.map Issue.name
  returned : ∀ issue ∈ u.issues, issue.returned = issue.name ∧ cString issue.name = issue.name
  counted : ∀ issue ∈ u.issues, 0 < countOf u.manager.driveNames issue.namePrefix ∧
    (issue.number = [] ∨ ∃ k, k ≤ countOf u.manager.driveNames issue.namePrefix ∧ k < 2 ^ 32 ∧
      issue.number = utoa k)
  few : ∀ namePrefix, countOf u.manager.driveNames namePrefix ≤ u.manager.drives.length
  nodup : (u.issues.map Issue.name).Nodup

theorem kept_new : Kept ⟨new, []⟩ where
  names := rfl
  returned _ h := absurd h List.not_mem_nil
  counted _ h := absurd h List.not_mem_nil
  few _ := Nat.le_refl 0
  nodup := List.nodup_nil

/-- The first drive of a name is found where the name is first. -/
theorem findDriveByName_eq (s : StorageManager) (name : List Char) :
    s.findDriveByName name = (s.drives.map Drive.name).findIdx? (· = cString name) := by
  rw [findDriveByName, List.findIdx?_map]
  rfl

/-- **Where the names are kept they are unique.** -/
theorem Kept.unique (h : Kept u) : Unique u := by
  refine ⟨h.names ▸ h.nodup, fun i issue hissue => ?_⟩
  have hmem := List.mem_of_getElem? hissue
  obtain ⟨hreturned, hname⟩ := h.returned issue hmem
  have hi : (u.issues.map Issue.name)[i]? = some issue.name := by
    rw [List.getElem?_map, hissue]
    rfl
  rw [findDriveByName_eq, h.names, hreturned, hname, List.findIdx?_eq_some_iff_getElem]
  obtain ⟨hlt, hget⟩ := List.getElem?_eq_some_iff.1 hi
  refine ⟨hlt, by simpa using hget, fun j hj heq => ?_⟩
  -- an earlier entry of the name would be the same entry
  have hsame := (List.Nodup.getElem_inj_iff h.nodup).1 ((by simpa using heq :
    (u.issues.map Issue.name)[j] = issue.name).trans hget.symm)
  omega

/-! ## Calls -/

/-- The names of the drives are no one's to change. -/
theorem changeFirst_names (name : List Char) {change : Drive → Drive}
    (hchange : ∀ drive, (change drive).name = drive.name) (drives : List Drive) :
    (changeFirst name change drives).map Drive.name = drives.map Drive.name := by
  induction drives with
  | nil => rfl
  | cons drive drives ih =>
    rw [changeFirst]
    split
    · rw [List.map_cons, List.map_cons, hchange]
    · rw [List.map_cons, List.map_cons, ih]

/-- A change of the drives that keeps their names. -/
theorem Kept.rename (h : Kept u) (hnames : drives.map Drive.name = u.manager.drives.map Drive.name) :
    Kept ⟨{ u.manager with drives := drives }, u.issues⟩ where
  names := hnames.trans h.names
  returned := h.returned
  counted := h.counted
  few namePrefix := by
    have hlength := congrArg List.length hnames
    rw [List.length_map, List.length_map] at hlength
    rw [show drives.length = u.manager.drives.length from hlength]
    exact h.few namePrefix
  nodup := h.nodup

/-- The issue of a call. -/
def issueOf (s : StorageManager) (options : AllocationOptions) : Issue :=
  ⟨cString options.namePrefix, s.number options, cString options.namePrefix ++ s.number options⟩

theorem cString_append_of_digits {text digits : List Char} (htext : cString text = text)
    (hdigits : '\x00' ∉ digits) : cString (text ++ digits) = text ++ digits := by
  refine cString_eq fun h => ?_
  rcases List.mem_append.1 h with h | h
  · rw [← htext] at h
    exact null_notMem_cString h
  · exact hdigits h

theorem null_notMem_number (s : StorageManager) (options : AllocationOptions) :
    '\x00' ∉ s.number options := by
  rw [number]
  split
  · exact fun h => absurd (isDigit_of_mem_utoa h) (by decide)
  · exact List.not_mem_nil

/-- **A call returns its prefix and its number**, and adds a drive of that
name. -/
theorem step_allocate (hstored : Stored u (.allocate options controller index buffer)) :
    step T u (.allocate options controller index buffer) =
      ⟨⟨(countUp options.namePrefix u.manager.driveNames).2,
        u.manager.drives ++ [⟨(u.manager.issueOf options).name, some controller, index,
          options.systemMapping⟩]⟩, u.issues ++ [u.manager.issueOf options]⟩ := by
  have hname : cString ((u.manager.issueOf options).name) = (u.manager.issueOf options).name :=
    cString_append_of_digits (cString_cString _) (null_notMem_number _ _)
  have happend : (if (countUp options.namePrefix u.manager.driveNames).1 > 0 ∨
      options.singular = false then String8.append T buffer (String8.new options.namePrefix)
        (utoa (((countUp options.namePrefix u.manager.driveNames).1 + 1) % 2 ^ 32))
      else String8.new options.namePrefix) = (u.manager.issueOf options).name := by
    have hfits := hstored.1
    rw [Issue.name, issueOf]
    dsimp only
    rw [number] at hfits ⊢
    split
    · rename_i hcond
      rw [if_pos hcond] at hfits
      rw [append_eq (by rw [cString_utoa]; exact hfits), cString_utoa]
      rfl
    · rw [List.append_nil]
      rfl
  simp only [step, allocateName, happend, hname, PodArray.pushBack]
  rfl

/-- What a call is to count stays small. -/
theorem Kept.count_lt (h : Kept u) (hstored : Stored u (.allocate options controller index buffer)) :
    countOf u.manager.driveNames options.namePrefix + 1 < 2 ^ 32 := by
  have hfew := h.few options.namePrefix
  have hroom := hstored.2
  omega

/-- **The numbers of one prefix differ.** -/
theorem Kept.number_ne (h : Kept u) (hstored : Stored u (.allocate options controller index buffer))
    {issue : Issue} (hissue : issue ∈ u.issues)
    (hsame : issue.namePrefix = cString options.namePrefix) :
    issue.number ≠ u.manager.number options := by
  obtain ⟨hpos, hnumber⟩ := h.counted issue hissue
  have hlt := h.count_lt hstored
  rw [hsame, countOf_congr (cString_cString options.namePrefix)] at hpos hnumber
  have hnew : u.manager.number options =
      utoa (countOf u.manager.driveNames options.namePrefix + 1) := by
    rw [number]
    exact (if_pos (Or.inl hpos)).trans (congrArg utoa (Nat.mod_eq_of_lt hlt))
  rw [hnew]
  rcases hnumber with hnone | ⟨k, hk, hk', hnumber⟩
  · rw [hnone]
    exact (utoa_ne_nil _).symm
  · rw [hnumber]
    intro heq
    have := utoa_injective hk' hlt heq
    omega

/-- **A new name is an old one exactly where prefixes clash.** -/
theorem Kept.fresh_iff (h : Kept u) (hstored : Stored u (.allocate options controller index buffer)) :
    (u.manager.issueOf options).name ∉ u.issues.map Issue.name ↔
      Unclashed u (.allocate options controller index buffer) := by
  simp only [List.mem_map, not_exists, not_and, Unclashed]
  refine forall₂_congr fun issue hissue => ?_
  rw [← not_or, not_iff_not, Issue.name, Issue.name, List.append_eq_append_iff]
  have hne := h.number_ne hstored hissue
  constructor
  · rintro (⟨digits, hprefixes, hnumbers⟩ | ⟨digits, hprefixes, hnumbers⟩)
    · refine Or.inl ⟨digits, ?_, hprefixes, hnumbers⟩
      rintro rfl
      rw [List.append_nil] at hprefixes
      exact hne hprefixes.symm hnumbers
    · refine Or.inr ⟨digits, ?_, hprefixes, hnumbers⟩
      rintro rfl
      rw [List.append_nil] at hprefixes
      exact hne hprefixes hnumbers.symm
  · rintro (⟨digits, -, hprefixes, hnumbers⟩ | ⟨digits, -, hprefixes, hnumbers⟩)
    · exact Or.inl ⟨digits, hprefixes, hnumbers⟩
    · exact Or.inr ⟨digits, hprefixes, hnumbers⟩

/-- An allocation without a clash keeps the names. -/
theorem Kept.allocate (h : Kept u) (hstored : Stored u (.allocate options controller index buffer))
    (hfresh : (u.manager.issueOf options).name ∉ u.issues.map Issue.name) :
    Kept (step T u (.allocate options controller index buffer)) := by
  have hlt := h.count_lt hstored
  have hcount := fun other => countOf_countUp u.manager.driveNames options.namePrefix other hlt
  have hgrows : ∀ other, countOf u.manager.driveNames other ≤
      countOf (countUp options.namePrefix u.manager.driveNames).2 other := by
    intro other
    rw [hcount]
    split
    · rename_i hsame
      rw [countOf_congr hsame]
      omega
    · exact Nat.le_refl _
  rw [step_allocate hstored]
  refine ⟨?_, fun issue hissue => ?_, fun issue hissue => ?_, fun other => ?_, ?_⟩
  · rw [List.map_append, List.map_append, h.names]
    rfl
  · rcases List.mem_append.1 hissue with hissue | hissue
    · exact h.returned issue hissue
    · rw [List.mem_singleton.1 hissue]
      exact ⟨rfl, cString_append_of_digits (cString_cString _) (null_notMem_number _ _)⟩
  · rcases List.mem_append.1 hissue with hissue | hissue
    · obtain ⟨hpos, hnumber⟩ := h.counted issue hissue
      have hle := hgrows issue.namePrefix
      refine ⟨Nat.lt_of_lt_of_le hpos hle, hnumber.imp_right ?_⟩
      rintro ⟨k, hk, hsmall, hnumber⟩
      exact ⟨k, Nat.le_trans hk hle, hsmall, hnumber⟩
    · rw [List.mem_singleton.1 hissue]
      dsimp only [issueOf]
      rw [hcount, cString_cString, if_pos rfl]
      refine ⟨Nat.succ_pos _, ?_⟩
      rw [number]
      split
      · exact Or.inr ⟨_, Nat.le_refl _, hlt, congrArg utoa (Nat.mod_eq_of_lt hlt)⟩
      · exact Or.inl rfl
  · rw [hcount, List.length_append, List.length_singleton]
    have hfew := h.few options.namePrefix
    have hother := h.few other
    split <;> omega
  · rw [List.map_append, List.map_cons, List.map_nil, ← List.concat_eq_append]
    exact h.nodup.concat hfresh

/-- **The step lemma.** -/
theorem Kept.step (h : Kept u) (hstored : Stored u op) (hunclashed : Unclashed u op) :
    Kept (step T u op) := by
  cases op with
  | allocate options controller index buffer =>
    exact h.allocate hstored ((h.fresh_iff hstored).2 hunclashed)
  | release name =>
    apply h.rename
    apply changeFirst_names
    intro drive
    rfl
  | setId name driveId =>
    apply h.rename
    apply changeFirst_names
    intro drive
    rfl

/-- **A call leaves the names unique exactly where it does not clash.** -/
theorem Kept.unique_step_iff (h : Kept u) (hstored : Stored u op) :
    Unique (StorageManager.step T u op) ↔ Unclashed u op := by
  refine ⟨fun hunique => ?_, fun hunclashed => (h.step hstored hunclashed).unique⟩
  cases op with
  | allocate options controller index buffer =>
    have hnodup := hunique.1
    rw [step_allocate hstored, List.map_append, h.names, List.map_cons, List.map_nil,
      ← List.concat_eq_append, List.nodup_concat] at hnodup
    exact (h.fresh_iff hstored).1 hnodup.1
  | release name => trivial
  | setId name driveId => trivial

/-! ## Runs -/

/-- **Over every run whose names fit their strings, the names are unique
for ever exactly where no call's prefix clashes with another's.** -/
theorem unique_run_iff (T : Target) (ops : List Op)
    (hstored : Along (step T) Stored ⟨new, []⟩ ops) :
    Throughout (step T) Unique ⟨new, []⟩ ops ↔ Along (step T) Unclashed ⟨new, []⟩ ops :=
  throughout_iff_along_of_legal hstored kept_new (fun _ h => h.unique)
    (fun _ _ h hstored => h.unique_step_iff hstored)
    fun _ _ h hstored hunclashed => h.step hstored hunclashed

/-- Two prefixes, one released and one singular. -/
theorem unique_run_iff_pata :
    let ops : List Op := [.allocate ⟨"pata".toList, true, false⟩ 7 0 0,
      .allocate ⟨"cdrom".toList, false, true⟩ 8 0 0, .release "pata1".toList,
      .allocate ⟨"pata".toList, true, false⟩ 7 1 0, .allocate ⟨"cdrom".toList, false, true⟩ 8 1 0]
    Throughout (step .x86_32) Unique ⟨new, []⟩ ops ↔
      Along (step .x86_32) Unclashed ⟨new, []⟩ ops :=
  unique_run_iff .x86_32 _ (by decide)

/-- **A prefix that ends in a digit is given the name of another's
drive.** -/
theorem not_unique_run :
    ¬Unique (run (step .x86_32) ⟨new, []⟩
      [.allocate ⟨"cd".toList, false, false⟩ 7 0 0, .allocate ⟨"cd1".toList, false, true⟩ 8 0 0]) :=
  fun h => absurd h.1 (by decide)

/-! ## Prefixes that end in letters -/

/-- The prefix does not end in a digit. -/
def Lettered (text : List Char) : Prop := ∀ c ∈ text.getLast?, c.isDigit = false

/-- A prefix that does not end in a digit extends none. -/
theorem Lettered.not_extends {namePrefix number namePrefix' number' : List Char}
    (h : Lettered namePrefix') (hnumber : ∀ c ∈ number, c.isDigit = true) :
    ¬Extends namePrefix number namePrefix' number' := by
  rintro ⟨digits, hne, rfl, rfl⟩
  have hlast := List.getLast_mem hne
  have hdigit := hnumber _ (List.mem_append_left number' hlast)
  have hletter := h (digits.getLast hne) (by
    rw [List.getLast?_append_of_ne_nil _ hne, List.getLast?_eq_getLast_of_ne_nil hne]
    rfl)
  rw [hdigit] at hletter
  cases hletter

theorem isDigit_of_mem_number {c : Char} (hc : c ∈ s.number options) : c.isDigit = true := by
  rw [number] at hc
  split at hc
  · exact isDigit_of_mem_utoa hc
  · exact absurd hc List.not_mem_nil

/-- What is allocated is, as long as it fits, named by such a prefix. -/
def LetteredOp : Op → Prop
  | .allocate options _ _ _ => Lettered (cString options.namePrefix)
  | .release _ | .setId _ _ => True

/-- **Prefixes that do not end in digits keep the names unique.** -/
theorem unique_run_of_lettered (T : Target) (ops : List Op)
    (hstored : Along (step T) (fun u op => Stored u op ∧ LetteredOp op) ⟨new, []⟩ ops) :
    Throughout (step T) Unique ⟨new, []⟩ ops := by
  refine throughout_of_invariant (I := fun u => Kept u ∧ ∀ issue ∈ u.issues,
    Lettered issue.namePrefix ∧ ∀ c ∈ issue.number, c.isDigit = true) hstored
    ⟨kept_new, fun _ h => absurd h List.not_mem_nil⟩ (fun u op h hop => ?_) fun _ h => h.1.unique
  obtain ⟨hkept, hletters⟩ := h
  obtain ⟨hfits, hlettered⟩ := hop
  cases op with
  | allocate options controller index buffer =>
    refine ⟨hkept.step hfits fun issue hissue => ?_, fun issue hissue => ?_⟩
    · obtain ⟨hletter, hdigits⟩ := hletters issue hissue
      exact ⟨Lettered.not_extends hlettered hdigits,
        hletter.not_extends fun c hc => isDigit_of_mem_number hc⟩
    · rw [step_allocate hfits] at hissue
      rcases List.mem_append.1 hissue with hissue | hissue
      · exact hletters issue hissue
      · rw [List.mem_singleton.1 hissue]
        exact ⟨hlettered, fun c hc => isDigit_of_mem_number hc⟩
  | release name => exact ⟨hkept.step trivial trivial, hletters⟩
  | setId name driveId => exact ⟨hkept.step trivial trivial, hletters⟩

end StorageManager

end Uberos
