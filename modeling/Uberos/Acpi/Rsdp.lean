import Mathlib.Data.List.Basic
import Mathlib.Data.Nat.Notation
import Uberos.Library.Scan
/-!
# The search for the RSDP

`find_rsdp` of `drivers/x86/system/Acpi.cpp` on a machine with a BIOS, over
memory by address. The search over a window and the check of what it finds
are logged apart.
-/

namespace Uberos

open Library Library.Scan

namespace Acpi

/-- Memory, by address. -/
abbrev Memory := ℕ → UInt8

/-- So many bytes. -/
def Memory.slice (m : Memory) (address bytes : ℕ) : List UInt8 :=
  (List.range bytes).map fun i => m (address + i)

/-- A read, by what reads. -/
inductive Read
  /-- `find_rsdp_in_memory` -/
  | scan (address bytes : ℕ)
  /-- `validate_rsdp` -/
  | check (address : ℕ)
  deriving DecidableEq, Repr

/-- A program that reads memory. -/
abbrev Program := Scan Memory Read

/-- `"RSD PTR "` -/
def signature : List UInt8 := [0x52, 0x53, 0x44, 0x20, 0x50, 0x54, 0x52, 0x20]

/-- `sizeof(RsdpDescriptor)` -/
def descriptorBytes : ℕ := 20

/-- `sizeof(RsdpDescriptor_v2)` -/
def descriptor2Bytes : ℕ := 36

/-- The offset of `revision`. -/
def revisionOffset : ℕ := 15

/-- A turn of the loop of `find_rsdp_in_memory`: `possible` and `length`. -/
def findTurn : ℕ × ℕ → Program ((ℕ × ℕ) ⊕ Option ℕ)
  | (possible, length) => do
    let bytes ← .read (·.slice possible 8) (.scan possible 8)
    if bytes = signature then pure (.inr (some possible))
    else if length < 16 then pure (.inr none)
    else pure (.inl (possible + 16, length - 16))

/-- `find_rsdp_in_memory(start, length)` -/
def findRsdpInMemory (start length : ℕ) : Program (Option ℕ) := .loop findTurn (start, length)

/-- A checksum of so many bytes from one on. -/
def checksumLoop : (left byte : ℕ) → (checksum : UInt8) → Program UInt8
  | 0, _, checksum => pure checksum
  | left + 1, byte, checksum => do
    let value ← .read (· byte) (.check byte)
    checksumLoop left (byte + 1) (checksum + value)

/-- `validate_rsdp` -/
def validateRsdp (rsdp : ℕ) : Program Bool := do
  let checksum ← checksumLoop descriptorBytes rsdp 0
  if checksum ≠ 0 then pure false
  else do
    let revision ← .read (· (rsdp + revisionOffset)) (.check (rsdp + revisionOffset))
    if 2 ≤ revision then do
      let extendedChecksum ← checksumLoop (descriptor2Bytes - descriptorBytes)
        (rsdp + descriptorBytes) 0
      if extendedChecksum ≠ 0 then pure false else pure true
    else pure true

/-- `get_possible_ebda()`: the BIOS's, or null where that is out of place. -/
structure Ebda where
  address : ℕ
  address_le : address + 0x400 ≤ 0xa0000

/-- `find_rsdp_in_bios()` -/
def findRsdpInBios (ebda : Ebda) : Program (Option ℕ) := findRsdpInMemory ebda.address 0x400

/-- `find_rsdp()`: what is found in the EBDA is not kept. -/
def findRsdp (ebda : Ebda) : Program (Option ℕ) := do
  let _ ← findRsdpInBios ebda
  let rsdp ← findRsdpInMemory 0xe0000 (0xfffff - 0xe0000)
  match rsdp with
  | none => pure none
  | some rsdp => do
    let isValid ← validateRsdp rsdp
    if isValid then pure (some rsdp) else pure none

/-! ## What it is for -/

/-- The signature stands at an address. -/
def Signed (m : Memory) (address : ℕ) : Prop := m.slice address 8 = signature

instance (m : Memory) (address : ℕ) : Decidable (Signed m address) :=
  inferInstanceAs (Decidable (_ = _))

/-- The sum of so many bytes. -/
def Memory.sum (m : Memory) (address : ℕ) : ℕ → UInt8
  | 0 => 0
  | bytes + 1 => m address + sum m (address + 1) bytes

/-- **A descriptor**: the signature, and checksums that are right. -/
structure IsDescriptor (m : Memory) (address : ℕ) : Prop where
  signed : Signed m address
  checksum : m.sum address descriptorBytes = 0
  extendedChecksum : 2 ≤ m (address + revisionOffset) → m.sum address descriptor2Bytes = 0

/-- A read of the search is inside one of the windows. -/
def Inside (ebda : Ebda) : Read → Prop
  | .scan address bytes =>
    (ebda.address ≤ address ∧ address + bytes ≤ ebda.address + 0x400) ∨
      (0xe0000 ≤ address ∧ address + bytes ≤ 0x100000)
  | .check _ => True

/-- The positions of the windows that are aligned to 16 bytes. -/
def Position (ebda : Ebda) (address : ℕ) : Prop :=
  (∃ k < 64, address = ebda.address + 16 * k) ∨ ∃ k < 0x2000, address = 0xe0000 + 16 * k

/-- **The search is right**: it ends and reads only inside the windows, what
it finds is a descriptor in one of them, and it finds one where there is. -/
def FindsRsdp (m : Memory) (ebda : Ebda) : Prop :=
  ∃ rsdp, Meets (Inside ebda) m (findRsdp ebda) rsdp ∧
    (∀ address, rsdp = some address → Position ebda address ∧ IsDescriptor m address) ∧
    (rsdp = none → ∀ address, Position ebda address → ¬IsDescriptor m address)

variable {m : Memory} {ebda : Ebda} {P : Read → Prop} {start length address n : ℕ}

/-! ## The search -/

/-- The first of a position and so many after it where the signature stands. -/
def searched (m : Memory) : (start more : ℕ) → Option ℕ
  | start, 0 => if Signed m start then some start else none
  | start, more + 1 => if Signed m start then some start else searched m (start + 16) more

/-- The positions that are read on the way there. -/
def SearchReads (P : Read → Prop) (m : Memory) : (start more : ℕ) → Prop
  | start, 0 => P (.scan start 8)
  | start, more + 1 =>
    P (.scan start 8) ∧ (¬Signed m start → SearchReads P m (start + 16) more)

theorem yields_findTurn (start length : ℕ) :
    Yields P m (findTurn (start, length))
      (if Signed m start then .inr (some start)
        else if length < 16 then .inr none else .inl (start + 16, length - 16))
      (P (.scan start 8)) := by
  intro result
  rw [findTurn, yields_read.meets_bind, and_comm]
  refine and_congr_left fun _ => ?_
  by_cases hsigned : Signed m start
  · have hslice : m.slice start 8 = signature := hsigned
    rw [if_pos hslice, if_pos hsigned, meets_pure]
  · have hslice : m.slice start 8 ≠ signature := hsigned
    rw [if_neg hslice, if_neg hsigned]
    split
    · exact meets_pure
    · exact meets_pure

/-- **The search of a window**: its length is looked at after the read, so
there is one more position than it has room for where it is a multiple. -/
theorem yields_findRsdpInMemory (start length : ℕ) :
    Yields P m (findRsdpInMemory start length) (searched m start (length / 16))
      (SearchReads P m start (length / 16)) := by
  rw [findRsdpInMemory]
  induction hmore : length / 16 generalizing start length with
  | zero =>
    have hturn := yields_findTurn (P := P) (m := m) start length
    rw [if_pos (by omega : length < 16)] at hturn
    rw [searched, SearchReads]
    by_cases hsigned : Signed m start
    · rw [if_pos hsigned] at hturn ⊢
      exact hturn.loop_done
    · rw [if_neg hsigned] at hturn ⊢
      exact hturn.loop_done
  | succ more ih =>
    have hturn := yields_findTurn (P := P) (m := m) start length
    rw [if_neg (by omega : ¬length < 16)] at hturn
    rw [searched, SearchReads]
    by_cases hsigned : Signed m start
    · rw [if_pos hsigned] at hturn ⊢
      refine hturn.loop_done.congr ?_ fun _ => rfl
      exact (and_iff_left fun hnot => absurd hsigned hnot).symm
    · rw [if_neg hsigned] at hturn ⊢
      refine (hturn.loop_more (ih (start + 16) (length - 16) (by omega))).congr ?_ fun _ => rfl
      exact and_congr_right fun _ => (imp_iff_right hsigned).symm

/-- A position counted from the one before the start. -/
theorem next_position (start k : ℕ) : start + 16 * (k + 1) = start + 16 + 16 * k := by omega

/-- What is found is signed, and nothing before it is. -/
theorem searched_eq_some {more : ℕ} : searched m start more = some address ↔
    ∃ n ≤ more, address = start + 16 * n ∧ Signed m address ∧
      ∀ k < n, ¬Signed m (start + 16 * k) := by
  induction more generalizing start with
  | zero =>
    rw [searched]
    constructor
    · intro h
      split at h
      · rename_i hsigned
        obtain rfl := Option.some.inj h
        exact ⟨0, Nat.le_refl 0, rfl, hsigned, fun k hk => absurd hk (Nat.not_lt_zero k)⟩
      · cases h
    · rintro ⟨n, hn, rfl, hsigned, -⟩
      obtain rfl := Nat.le_zero.mp hn
      exact if_pos hsigned
  | succ more ih =>
    rw [searched]
    by_cases hsigned : Signed m start
    · rw [if_pos hsigned, Option.some_inj]
      constructor
      · rintro rfl
        exact ⟨0, Nat.zero_le _, rfl, hsigned, fun k hk => absurd hk (Nat.not_lt_zero k)⟩
      · rintro ⟨n, -, rfl, -, hbefore⟩
        obtain rfl | hpos := Nat.eq_zero_or_pos n
        · rfl
        · exact absurd hsigned (hbefore 0 hpos)
    · rw [if_neg hsigned, ih]
      constructor
      · rintro ⟨n, hn, rfl, hsigned', hbefore⟩
        refine ⟨n + 1, by omega, by omega, hsigned', fun k hk => ?_⟩
        obtain _ | k := k
        · exact hsigned
        · have hnot := hbefore k (by omega)
          rwa [← next_position] at hnot
      · rintro ⟨n, hn, rfl, hsigned', hbefore⟩
        obtain _ | n := n
        · exact absurd hsigned' hsigned
        · refine ⟨n, by omega, by omega, hsigned', fun k hk => ?_⟩
          have hnot := hbefore (k + 1) (by omega)
          rwa [next_position] at hnot

/-- Every position is read that nothing is found before. -/
theorem searchReads_iff {more : ℕ} : SearchReads P m start more ↔
    ∀ n ≤ more, (∀ k < n, ¬Signed m (start + 16 * k)) → P (.scan (start + 16 * n) 8) := by
  induction more generalizing start with
  | zero =>
    rw [SearchReads]
    refine ⟨fun h n hn _ => ?_, fun h => h 0 (Nat.le_refl 0) (by simp)⟩
    obtain rfl := Nat.le_zero.mp hn
    exact h
  | succ more ih =>
    rw [SearchReads, ih]
    constructor
    · rintro ⟨hfirst, hrest⟩ n hn hbefore
      obtain _ | n := n
      · exact hfirst
      · have hread := hrest (hbefore 0 (by omega)) n (by omega) fun k hk => by
          have hnot := hbefore (k + 1) (by omega)
          rwa [next_position] at hnot
        rwa [← next_position] at hread
    · intro h
      refine ⟨h 0 (Nat.zero_le _) (by simp), fun hsigned n hn hbefore => ?_⟩
      have hread := h (n + 1) (by omega) fun k hk => by
        obtain _ | k := k
        · exact hsigned
        · have hnot := hbefore k (by omega)
          rwa [← next_position] at hnot
      rwa [next_position] at hread

/-! ## The check -/

theorem yields_checksumLoop (left byte : ℕ) (checksum : UInt8) :
    Yields (Inside ebda) m (checksumLoop left byte checksum) (checksum + m.sum byte left) True := by
  induction left generalizing byte checksum with
  | zero => exact yields_pure.congr Iff.rfl fun _ => (UInt8.add_zero checksum).symm
  | succ left ih =>
    rw [Memory.sum, ← UInt8.add_assoc]
    exact ((yields_read (P := Inside ebda)).bind (ih (byte + 1) _)).congr
      (iff_of_true ⟨trivial, trivial⟩ trivial) fun _ => rfl

theorem sum_add (m : Memory) (address first more : ℕ) :
    m.sum address (first + more) = m.sum address first + m.sum (address + first) more := by
  induction first generalizing address with
  | zero => rw [Nat.zero_add, Memory.sum, UInt8.zero_add, Nat.add_zero]
  | succ first ih =>
    rw [show first + 1 + more = first + more + 1 by omega, Memory.sum, Memory.sum, ih,
      UInt8.add_assoc, show address + 1 + first = address + (first + 1) by omega]

/-- The checksums of a descriptor are right. -/
def Checked (m : Memory) (address : ℕ) : Prop :=
  m.sum address descriptorBytes = 0 ∧
    (2 ≤ m (address + revisionOffset) → m.sum address descriptor2Bytes = 0)

instance (m : Memory) (address : ℕ) : Decidable (Checked m address) :=
  inferInstanceAs (Decidable (_ ∧ _))

theorem isDescriptor_iff : IsDescriptor m address ↔ Signed m address ∧ Checked m address :=
  ⟨fun h => ⟨h.signed, h.checksum, h.extendedChecksum⟩, fun h => ⟨h.1, h.2.1, h.2.2⟩⟩

/-- **The check is the right one**: where the first checksum is zero, the
rest of the structure sums to what all of it does. -/
theorem yields_validateRsdp :
    Yields (Inside ebda) m (validateRsdp address) (decide (Checked m address)) True := by
  have hsplit : m.sum address descriptor2Bytes = m.sum address descriptorBytes +
      m.sum (address + descriptorBytes) (descriptor2Bytes - descriptorBytes) :=
    sum_add m address descriptorBytes (descriptor2Bytes - descriptorBytes)
  intro result
  rw [validateRsdp, (yields_checksumLoop _ _ _).meets_bind, true_and, UInt8.zero_add]
  by_cases hchecksum : m.sum address descriptorBytes = 0
  · rw [hchecksum, UInt8.zero_add] at hsplit
    rw [if_neg (not_not.mpr hchecksum), yields_read.meets_bind]
    by_cases hrevision : 2 ≤ m (address + revisionOffset)
    · rw [if_pos hrevision, (yields_checksumLoop _ _ _).meets_bind, UInt8.zero_add, ← hsplit]
      by_cases hextended : m.sum address descriptor2Bytes = 0
      · rw [if_neg (not_not.mpr hextended), decide_eq_true ⟨hchecksum, fun _ => hextended⟩]
        simp [Inside]
      · have hnot : ¬Checked m address := fun h => hextended (h.2 hrevision)
        rw [if_pos hextended, decide_eq_false hnot]
        simp [Inside]
    · rw [if_neg hrevision, decide_eq_true ⟨hchecksum, fun h => absurd h hrevision⟩]
      simp [Inside]
  · have hnot : ¬Checked m address := fun h => hchecksum h.1
    rw [if_pos hchecksum, decide_eq_false hnot, meets_pure, and_true]

/-! ## The result -/

/-- The first position of the upper window where the signature stands. -/
def upper (m : Memory) : Option ℕ := searched m 0xe0000 0x1fff

/-- The reads of the upper window are inside. -/
theorem searchReads_upper : SearchReads (Inside ebda) m 0xe0000 0x1fff := by
  rw [searchReads_iff]
  intro n hn _
  exact Or.inr ⟨by omega, by omega⟩

/-- What `find_rsdp` gives: the first that is signed in the upper window, if
it is right. -/
theorem yields_findRsdp :
    Yields (Inside ebda) m (findRsdp ebda) ((upper m).filter fun rsdp => decide (Checked m rsdp))
      (SearchReads (Inside ebda) m ebda.address 0x40) := by
  have hbios : Yields (Inside ebda) m (findRsdpInBios ebda) _ _ :=
    yields_findRsdpInMemory ebda.address 0x400
  have hupper : Yields (Inside ebda) m (findRsdpInMemory 0xe0000 (0xfffff - 0xe0000)) _ _ :=
    yields_findRsdpInMemory 0xe0000 (0xfffff - 0xe0000)
  intro result
  rw [findRsdp, hbios.meets_bind, hupper.meets_bind, and_comm]
  refine and_congr ?_ Iff.rfl
  rw [and_iff_right searchReads_upper]
  change Meets _ _ (match upper m with | none => _ | some rsdp => _) _ ↔ _
  cases hfound : upper m with
  | none => exact meets_pure
  | some rsdp =>
    dsimp only
    rw [yields_validateRsdp.meets_bind, true_and]
    by_cases hchecked : Checked m rsdp
    · rw [Option.filter_some_pos (by simpa using hchecked), if_pos (by simpa using hchecked)]
      exact meets_pure
    · rw [Option.filter_some_neg (by simpa using hchecked), if_neg (by simpa using hchecked)]
      exact meets_pure

/-- **The read behind the EBDA** is made where nothing is found in it. -/
theorem searchReads_ebda :
    SearchReads (Inside ebda) m ebda.address 0x40 ↔
      ∃ k < 64, Signed m (ebda.address + 16 * k) := by
  have hle := ebda.address_le
  rw [searchReads_iff]
  constructor
  · intro h
    by_contra hnone
    have hread := h 64 (Nat.le_refl _) fun k hk hsigned => hnone ⟨k, hk, hsigned⟩
    obtain ⟨-, hend⟩ | ⟨hstart, -⟩ := hread
    · omega
    · omega
  · rintro ⟨k, hk, hsigned⟩ n hn hbefore
    have hlt : n ≤ k := by
      by_contra hgt
      exact hbefore k (by omega) hsigned
    exact Or.inl ⟨by omega, by omega⟩

/-- **The search is right exactly where** there is a signature in the EBDA,
and the first one in the upper window is a descriptor's, or there is no
descriptor in either window. -/
theorem findsRsdp_iff (m : Memory) (ebda : Ebda) :
    FindsRsdp m ebda ↔
      (∃ k < 64, Signed m (ebda.address + 16 * k)) ∧
        ((∃ n < 0x2000, IsDescriptor m (0xe0000 + 16 * n) ∧
            ∀ k < n, ¬Signed m (0xe0000 + 16 * k)) ∨
          ∀ address, Position ebda address → ¬IsDescriptor m address) := by
  have hupper : ∀ address, upper m = some address ↔ _ := fun address => searched_eq_some
  rw [← searchReads_ebda]
  constructor
  · rintro ⟨rsdp, hmeets, hfound, hmissing⟩
    obtain ⟨rfl, hreads⟩ := (yields_findRsdp rsdp).mp hmeets
    refine ⟨hreads, ?_⟩
    cases hresult : (upper m).filter fun rsdp => decide (Checked m rsdp) with
    | none => exact Or.inr (hmissing hresult)
    | some address =>
      obtain ⟨hsome, -⟩ := Option.filter_eq_some_iff.mp hresult
      obtain ⟨n, hn, rfl, -, hbefore⟩ := (hupper address).mp hsome
      exact Or.inl ⟨n, by omega, (hfound _ hresult).2, hbefore⟩
  · rintro ⟨hreads, h⟩
    refine ⟨_, (yields_findRsdp _).mpr ⟨rfl, hreads⟩, ?_, ?_⟩
    · intro address hresult
      obtain ⟨hsome, hchecked⟩ := Option.filter_eq_some_iff.mp hresult
      obtain ⟨n, hn, rfl, hsigned, -⟩ := (hupper address).mp hsome
      exact ⟨Or.inr ⟨n, by omega, rfl⟩, isDescriptor_iff.mpr ⟨hsigned, by simpa using hchecked⟩⟩
    · intro hresult
      refine h.resolve_left ?_
      rintro ⟨n, hn, hdescriptor, hbefore⟩
      have hsome := (hupper _).mpr ⟨n, by omega, rfl, hdescriptor.signed, hbefore⟩
      rw [hsome, Option.filter_some_pos (by simpa using (isDescriptor_iff.mp hdescriptor).2)]
        at hresult
      cases hresult

/-- Memory without a signature. -/
def blankMemory : Memory := fun _ => 0

/-- The search reads behind the EBDA. -/
theorem not_findsRsdp_blankMemory : ¬FindsRsdp blankMemory ⟨0x9fc00, by decide⟩ := by
  rintro ⟨rsdp, hmeets, -⟩
  obtain ⟨-, hreads⟩ := (yields_findRsdp rsdp).mp hmeets
  obtain ⟨k, -, hsigned⟩ := searchReads_ebda.mp hreads
  have hslice : blankMemory.slice (0x9fc00 + 16 * k) 8 = [0, 0, 0, 0, 0, 0, 0, 0] := rfl
  rw [Signed, hslice] at hsigned
  exact absurd hsigned (by decide)

end Acpi

end Uberos
