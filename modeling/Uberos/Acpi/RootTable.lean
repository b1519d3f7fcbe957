import Mathlib.Data.List.Induction
import Uberos.Acpi.Rsdp
/-!
# The root table

What `_on_start` of `drivers/x86/system/Acpi.cpp` does once an RSDP is
found, and `find_entry_with_signature` after it, in a build for 32 bits.
One page is mapped of the root table, whatever length it says it has, and
of a table that it lists as many bytes are copied as that one says it has.
Of what is logged only that is modelled which is read from the tables, and
an entry is never null, so that it is not asked whether it is.
-/

namespace Uberos

open Library Library.Scan

namespace Acpi

/-- An access, by what it goes to. -/
inductive Access
  /-- The RSDP, which is mapped where it is. -/
  | rsdp (address bytes : ℕ)
  /-- The root table at an address, from an offset on. -/
  | root (address offset bytes : ℕ)
  /-- `memory::read_physical` -/
  | physical (address bytes : ℕ)
  /-- The copy of a table of a length, from an offset on. -/
  | entry (length offset bytes : ℕ)
  deriving DecidableEq, Repr

/-- A program that goes through the tables. -/
abbrev Walk := Scan Memory Access

/-- A number of so many bytes, the lowest first. -/
def Memory.word (m : Memory) (address : ℕ) : ℕ → ℕ
  | 0 => 0
  | bytes + 1 => (m address).toNat + 256 * word m (address + 1) bytes

/-- `sizeof(Acpi::TableHeader)` -/
def headerBytes : ℕ := 36

/-- Where the kernel's mapping has the page of a physical address, which is
never the last one of the address space. -/
structure Mapped (address : ℕ) where
  virtualAddress : ℕ
  offset_eq : virtualAddress % 4096 = address % 4096
  below : virtualAddress + 4096 < 2 ^ 32

/-- `rootTableHeader`, which is `xsdt` or `rsdt`. -/
structure Root where
  isXsdt : Bool
  address : ℕ
  mapped : Mapped address

/-- What `subscribe_memory` returns for a physical address. -/
abbrev Subscribe := (address : ℕ) → Option (Mapped address)

/-- A table that is subscribed to. -/
def Root.subscribe (subscribe : Subscribe) (isXsdt : Bool) (address : ℕ) : Option Root :=
  (subscribe address).map fun mapped => { isXsdt, address, mapped }

/-- `Box<Sdt>`: where it was copied from, and how much. -/
structure Sdt where
  address : ℕ
  length : ℕ
  deriving DecidableEq, Repr

/-- `common/Maybe.hpp` -/
inductive Maybe
  | no
  | maybe
  | yes
  deriving DecidableEq, Repr

/-- What the driver knows of the machine. -/
structure Flags where
  hasLpcIsaDevices : Maybe := .maybe
  hasPs2 : Maybe := .maybe
  isVgaProbeable : Maybe := .maybe
  hasMsi : Maybe := .maybe
  hasOspmAspm : Maybe := .maybe
  hasCmosRtc : Maybe := .maybe
  deriving DecidableEq, Repr

/-- `bootArchitectureFlags`, of which the low byte is read. -/
def Flags.ofData (data : UInt8) : Flags where
  hasLpcIsaDevices := if data.toNat.testBit 0 then .maybe else .no
  hasPs2 := if data.toNat.testBit 1 then .yes else .no
  isVgaProbeable := if !data.toNat.testBit 2 then .yes else .no
  hasMsi := if !data.toNat.testBit 3 then .yes else .no
  hasOspmAspm := if !data.toNat.testBit 4 then .yes else .no
  hasCmosRtc := if !data.toNat.testBit 5 then .yes else .no

/-- `"FACP"` -/
def facp : List UInt8 := [0x46, 0x41, 0x43, 0x50]

/-- The offset of `bootArchitectureFlags`. -/
def bootArchitectureFlagsOffset : ℕ := 109

namespace Root

variable (r : Root) (revision : UInt8)

/-- `sizeof(sdts[0])` -/
def pointerBytes : ℕ := if r.isXsdt then 8 else 4

/-- A number in the table. -/
def word (offset bytes : ℕ) : Walk ℕ :=
  .read (·.word (r.address + offset) bytes) (.root r.address offset bytes)

/-- Some bytes of it. -/
def bytes (offset bytes : ℕ) : Walk (List UInt8) :=
  .read (·.slice (r.address + offset) bytes) (.root r.address offset bytes)

/-- `rootTableHeader->length` -/
def length : Walk ℕ := r.word 4 4

/-- `get_sdt_count()` -/
def getSdtCount : Walk ℕ := do
  let length ← r.length
  pure ((length + (2 ^ 32 - headerBytes)) % 2 ^ 32 / r.pointerBytes)

/-- `get_sdt(i)`: its header is read, and then all of it. -/
def getSdt (i : ℕ) : Walk Sdt := do
  let address ← r.word (headerBytes + r.pointerBytes * i) r.pointerBytes
  let address := address % 2 ^ 32
  let length ← .read (·.word (address + 4) 4) (.physical address headerBytes)
  let _ ← .read (·.slice address length) (.physical address length)
  pure ⟨address, length⟩

/-- A turn of the loop for the checksum: the offset of `byte`, and
`checksum`. -/
def checksumTurn : ℕ × UInt8 → Walk ((ℕ × UInt8) ⊕ UInt8)
  | (offset, checksum) => do
    let length ← r.length
    if r.mapped.virtualAddress + offset < (r.mapped.virtualAddress + length) % 2 ^ 32 then do
      let value ← .read (· (r.address + offset)) (.root r.address offset 1)
      pure (.inl (offset + 1, checksum + value))
    else pure (.inr checksum)

/-- The checksum of the table. -/
def checksum : Walk UInt8 := .loop r.checksumTurn (0, 0)

end Root

/-- Some bytes of a copy. -/
def Sdt.bytes (s : Sdt) (offset bytes : ℕ) : Walk (List UInt8) :=
  .read (·.slice (s.address + offset) bytes) (.entry s.length offset bytes)

/-- What was printed of the tables, and what is known from them: the
signatures and the OEMs. -/
structure Listing where
  listed : List (List UInt8 × List UInt8) := []
  flags : Flags := {}
  deriving DecidableEq, Repr

/-- What is done for an entry. -/
def Sdt.list (s : Sdt) (revision : UInt8) (listing : Listing) : Walk Listing := do
  let signature ← s.bytes 0 4
  let oemId ← s.bytes 10 6
  let listing := { listing with listed := listing.listed ++ [(signature, oemId)] }
  if signature = facp ∧ 2 ≤ revision then do
    let data ← .read (· (s.address + bootArchitectureFlagsOffset))
      (.entry s.length bootArchitectureFlagsOffset 1)
    pure { listing with flags := .ofData data }
  else pure listing

/-- A turn of the loop over the entries. -/
def Root.entryTurn (r : Root) (revision : UInt8) : ℕ × Listing → Walk ((ℕ × Listing) ⊕ Listing)
  | (i, listing) => do
    let count ← r.getSdtCount
    if i < count then do
      let entry ← r.getSdt i
      let listing ← entry.list revision listing
      pure (.inl (i + 1, listing))
    else pure (.inr listing)

/-- The driver as it was started. -/
structure Started where
  root : Root
  oemTableId : List UInt8
  oemId : List UInt8
  listing : Listing

/-- What comes once the checksum is right. -/
def Root.list (r : Root) (revision : UInt8) : Walk Started := do
  let oemTableId ← r.bytes 16 8
  let oemId ← r.bytes 10 6
  let listing ← .loop (r.entryTurn revision) (0, {})
  pure ⟨r, oemTableId, oemId, listing⟩

/-- What comes once a root table is found. -/
def Root.start (r : Root) (revision : UInt8) : Walk (Except String Started) := do
  let checksum ← r.checksum
  if checksum ≠ 0 then pure (.error "ACPI descriptor table was not valid ")
  else .ok <$> r.list revision

/-- The XSDT, where the RSDP has it and it can be had. -/
def findXsdt (subscribe : Subscribe) (rsdp : ℕ) (revision : UInt8) : Walk (Option Root) :=
  if 2 ≤ revision then do
    let xsdtAddress ← .read (·.word (rsdp + 24) 8) (.rsdp (rsdp + 24) 8)
    pure (Root.subscribe subscribe true (xsdtAddress % 2 ^ 32))
  else pure none

/-- `rootTableHeader`: the RSDT, where there is no XSDT. -/
def findRoot (subscribe : Subscribe) (rsdp : ℕ) (revision : UInt8) : Walk (Option Root) := do
  let xsdt ← findXsdt subscribe rsdp revision
  if xsdt.isSome then pure xsdt
  else do
    let rsdtAddress ← .read (·.word (rsdp + 16) 4) (.rsdp (rsdp + 16) 4)
    pure (Root.subscribe subscribe false rsdtAddress)

/-- `_on_start()`, from the RSDP on. -/
def onStart (subscribe : Subscribe) (rsdp : ℕ) : Walk (Except String Started) := do
  let revision ← .read (· (rsdp + revisionOffset)) (.rsdp (rsdp + revisionOffset) 1)
  let root ← findRoot subscribe rsdp revision
  match root with
  | none => pure (.error "ACPI descriptor table not found (no valid XSDT or RSDT found)")
  | some root => root.start revision

/-- A turn of the loop of `find_entry_with_signature`. -/
def Root.findTurn (r : Root) (count : ℕ) (signature : List UInt8) (i : ℕ) :
    Walk (ℕ ⊕ Option Sdt) :=
  if i < count then do
    let entry ← r.getSdt i
    let found ← entry.bytes 0 4
    if found = signature then pure (.inr (some entry)) else pure (.inl (i + 1))
  else pure (.inr none)

/-- `find_entry_with_signature(signature)` -/
def Root.findEntryWithSignature (r : Root) (signature : List UInt8) : Walk (Option Sdt) := do
  let count ← r.getSdtCount
  .loop (r.findTurn count signature) 0

/-- What a driver does that needs a table: the one for ACPI is started, and
asked for it. -/
def startAndFind (subscribe : Subscribe) (rsdp : ℕ) (signature : List UInt8) :
    Walk (Except String (Started × Option Sdt)) := do
  let started ← onStart subscribe rsdp
  match started with
  | .error message => pure (.error message)
  | .ok started => do
    let found ← started.root.findEntryWithSignature signature
    pure (.ok (started, found))

/-! ## What it is for -/

/-- **An access to what is mapped and copied**: the one page of the root
table that is mapped, a range that `read_physical` reads exactly, and as
much of a table as was copied. -/
def Access.Inside : Access → Prop
  | rsdp _ _ => True
  | root address offset bytes => address % 4096 + offset + bytes ≤ 4096
  | physical address bytes => address < 2 ^ 32 - 4096 ∧ address + bytes ≤ 2 ^ 32 - 4096
  | entry length offset bytes => offset + bytes ≤ length

/-- The tables whose flags are kept. -/
def Sdt.IsFadt (m : Memory) (revision : UInt8) (s : Sdt) : Prop :=
  m.slice s.address 4 = facp ∧ 2 ≤ revision

instance (m : Memory) (revision : UInt8) : DecidablePred (Sdt.IsFadt m revision) := fun _ =>
  inferInstanceAs (Decidable (_ ∧ _))

/-- The flags of the last table that has some. -/
def Flags.of (m : Memory) (revision : UInt8) (tables : List Sdt) : Flags :=
  match (tables.filter (Sdt.IsFadt m revision)).getLast? with
  | none => {}
  | some s => .ofData (m (s.address + bootArchitectureFlagsOffset))

/-- What is to be known of some tables. -/
def Listing.of (m : Memory) (revision : UInt8) (tables : List Sdt) : Listing where
  listed := tables.map fun s => (m.slice s.address 4, m.slice (s.address + 10) 6)
  flags := .of m revision tables

/-- A table that can be copied, and is as long as what is read of it. -/
structure Sdt.Sound (m : Memory) (revision : UInt8) (s : Sdt) : Prop where
  header_le : s.address + headerBytes ≤ 2 ^ 32 - 4096
  le : s.address + s.length ≤ 2 ^ 32 - 4096
  oemId_le : 16 ≤ s.length
  flags_le : s.IsFadt m revision → 110 ≤ s.length

namespace Root

variable (m : Memory) (r : Root) (revision : UInt8)

/-- The length that the table says it has. -/
def bytesOf : ℕ := m.word (r.address + 4) 4

/-- An entry of it. -/
def sdt (i : ℕ) : Sdt :=
  let address := m.word (r.address + (headerBytes + r.pointerBytes * i)) r.pointerBytes % 2 ^ 32
  ⟨address, m.word (address + 4) 4⟩

/-- The tables that it lists. -/
def tables : List Sdt :=
  (List.range ((r.bytesOf m - headerBytes) / r.pointerBytes)).map (r.sdt m)

/-- Its bytes sum to zero. -/
def Valid : Prop := m.sum r.address (r.bytesOf m) = 0

instance : Decidable (r.Valid m) := inferInstanceAs (Decidable (_ = _))

/-- **A table that can be gone through**: it ends in the page that it
begins in, and where its checksum is right it has a header, and the tables
that it lists are sound. -/
structure Sound : Prop where
  length_le : r.address % 4096 + 8 ≤ 4096
  le : r.address % 4096 + r.bytesOf m ≤ 4096
  header_le : r.Valid m → headerBytes ≤ r.bytesOf m
  tables : r.Valid m → ∀ s ∈ r.tables m, s.Sound m revision

/-- The driver with what it lists. -/
def started : Started :=
  ⟨r, m.slice (r.address + 16) 8, m.slice (r.address + 10) 6, .of m revision (r.tables m)⟩

/-- What starting comes to. -/
def outcome : Except String Started :=
  if r.Valid m then .ok (r.started m revision) else .error "ACPI descriptor table was not valid "

end Root

/-- The root table: the XSDT, where there is one that can be had, or else
the RSDT. -/
def rootOf (m : Memory) (subscribe : Subscribe) (rsdp : ℕ) : Option Root :=
  if 2 ≤ m (rsdp + revisionOffset) then
    (Root.subscribe subscribe true (m.word (rsdp + 24) 8 % 2 ^ 32)).or
      (Root.subscribe subscribe false (m.word (rsdp + 16) 4))
  else Root.subscribe subscribe false (m.word (rsdp + 16) 4)

/-! ## Words -/

variable {m : Memory} {r : Root} {revision : UInt8} {listing : Listing} {s : Sdt} {i : ℕ}

theorem word_lt (m : Memory) (address bytes : ℕ) : m.word address bytes < 256 ^ bytes := by
  induction bytes generalizing address with
  | zero => exact Nat.one_pos
  | succ bytes ih =>
    have hlow := (m address).toNat_lt
    have hhigh := ih (address + 1)
    rw [Memory.word, Nat.pow_succ]
    omega

theorem bytesOf_lt (m : Memory) (r : Root) : r.bytesOf m < 2 ^ 32 := word_lt m _ 4

theorem pointerBytes_eq (r : Root) : r.pointerBytes = 4 ∨ r.pointerBytes = 8 := by
  unfold Root.pointerBytes
  cases r.isXsdt
  · exact Or.inl rfl
  · exact Or.inr rfl

/-! ## The checksum -/

theorem yields_length :
    Yields Access.Inside m r.length (r.bytesOf m) (Access.Inside (.root r.address 4 4)) :=
  yields_read

/-- What a turn of a loop reads and what the rest of it does. -/
theorem turn_and_rest_iff {A : Prop} {B : ℕ → Prop} {n : ℕ} (hi : i < n) :
    (A ∧ B i) ∧ A ∧ (∀ j, i + 1 ≤ j → j < n → B j) ↔ A ∧ ∀ j, i ≤ j → j < n → B j := by
  constructor
  · rintro ⟨⟨hA, hfirst⟩, -, hrest⟩
    refine ⟨hA, fun j hle hlt => ?_⟩
    rcases Nat.eq_or_lt_of_le hle with rfl | hgt
    · exact hfirst
    · exact hrest j hgt hlt
  · rintro ⟨hA, hall⟩
    exact ⟨⟨hA, hall i le_rfl hi⟩, hA, fun j hle hlt => hall j (Nat.le_of_succ_le hle) hlt⟩

/-- So much of the checksum as is left, where the sum of the length and the
address does not wrap. -/
theorem yields_checksumTurns {left offset : ℕ} (checksum : UInt8)
    (hwrap : r.mapped.virtualAddress + r.bytesOf m < 2 ^ 32) (hleft : offset + left = r.bytesOf m) :
    Yields Access.Inside m (.loop r.checksumTurn (offset, checksum))
      (checksum + m.sum (r.address + offset) left)
      (Access.Inside (.root r.address 4 4) ∧
        ∀ j, offset ≤ j → j < r.bytesOf m → Access.Inside (.root r.address j 1)) := by
  induction left generalizing offset checksum with
  | zero =>
    have hturn : Yields Access.Inside m (r.checksumTurn (offset, checksum)) (.inr checksum)
        (Access.Inside (.root r.address 4 4)) := by
      intro result
      rw [Root.checksumTurn, yields_length.meets_bind, Nat.mod_eq_of_lt hwrap,
        if_neg (by omega), meets_pure, and_comm]
    refine hturn.loop_done.congr ?_ fun _ => (UInt8.add_zero checksum).symm
    exact (and_iff_left fun j hle hlt => absurd hlt (by omega)).symm
  | succ left ih =>
    have hturn : Yields Access.Inside m (r.checksumTurn (offset, checksum))
        (.inl (offset + 1, checksum + m (r.address + offset)))
        (Access.Inside (.root r.address 4 4) ∧ Access.Inside (.root r.address offset 1)) := by
      intro result
      rw [Root.checksumTurn, yields_length.meets_bind, Nat.mod_eq_of_lt hwrap,
        if_pos (by omega), yields_read.meets_bind, meets_pure]
      exact and_rotate.symm
    refine (hturn.loop_more (ih _ (by omega))).congr ?_ fun _ => ?_
    · have hlt : offset < r.bytesOf m := by omega
      exact turn_and_rest_iff (B := fun j => Access.Inside (.root r.address j 1)) hlt
    · rw [Memory.sum, UInt8.add_assoc, Nat.add_assoc]

/-- **The checksum**: where the sum of the length and the address wraps, not
a byte is read for it. -/
theorem yields_checksum :
    Yields Access.Inside m r.checksum
      (if r.mapped.virtualAddress + r.bytesOf m < 2 ^ 32 then m.sum r.address (r.bytesOf m) else 0)
      (r.address % 4096 + 8 ≤ 4096 ∧ (r.mapped.virtualAddress + r.bytesOf m < 2 ^ 32 →
        r.address % 4096 + r.bytesOf m ≤ 4096)) := by
  have hbytes := bytesOf_lt m r
  by_cases hwrap : r.mapped.virtualAddress + r.bytesOf m < 2 ^ 32
  · rw [if_pos hwrap]
    refine (yields_checksumTurns 0 hwrap (Nat.zero_add _)).congr ?_ fun _ => UInt8.zero_add _
    refine and_congr Iff.rfl ?_
    rw [imp_iff_right hwrap]
    refine ⟨fun hall => ?_, fun hle j _ hlt => ?_⟩
    · by_contra hgt
      have hlast := hall (r.bytesOf m - 1) (Nat.zero_le _) (by omega)
      have hlast : r.address % 4096 + (r.bytesOf m - 1) + 1 ≤ 4096 := hlast
      omega
    · show r.address % 4096 + j + 1 ≤ 4096
      omega
  · rw [if_neg hwrap]
    have hturn : Yields Access.Inside m (r.checksumTurn (0, 0)) (.inr 0)
        (Access.Inside (.root r.address 4 4)) := by
      intro result
      rw [Root.checksumTurn, yields_length.meets_bind, if_neg (by omega), meets_pure, and_comm]
    refine hturn.loop_done.congr ?_ fun _ => rfl
    exact (and_iff_left fun h => absurd h hwrap).symm

/-! ## The entries -/

/-- What is done for the entries, one after the other. -/
def Listing.add (m : Memory) (revision : UInt8) (listing : Listing) (s : Sdt) : Listing where
  listed := listing.listed ++ [(m.slice s.address 4, m.slice (s.address + 10) 6)]
  flags :=
    if s.IsFadt m revision then .ofData (m (s.address + bootArchitectureFlagsOffset))
    else listing.flags

/-- **Going through all entries leaves the flags of the last that has
some.** -/
theorem foldl_add (m : Memory) (revision : UInt8) (tables : List Sdt) :
    tables.foldl (Listing.add m revision) {} = .of m revision tables := by
  induction tables using List.reverseRecOn with
  | nil => rfl
  | append_singleton tables s ih =>
    rw [List.foldl_append, ih, List.foldl_cons, List.foldl_nil]
    unfold Listing.add Listing.of Flags.of
    rw [List.map_append, List.filter_append]
    by_cases hfadt : s.IsFadt m revision
    · simp [hfadt]
    · simp [hfadt]

/-- The count of the entries, where the table has no header. -/
theorem count_of_lt (h : r.bytesOf m < headerBytes) :
    4096 < (r.bytesOf m + (2 ^ 32 - headerBytes)) % 2 ^ 32 / r.pointerBytes := by
  have hheader : headerBytes = 36 := rfl
  rw [Nat.mod_eq_of_lt (by omega), hheader]
  rcases pointerBytes_eq r with hbytes | hbytes <;> rw [hbytes] <;> omega

/-- It where it has one. -/
theorem count_of_le (h : headerBytes ≤ r.bytesOf m) :
    (r.bytesOf m + (2 ^ 32 - headerBytes)) % 2 ^ 32 / r.pointerBytes =
      (r.bytesOf m - headerBytes) / r.pointerBytes := by
  have hbytes := bytesOf_lt m r
  have hheader : headerBytes = 36 := rfl
  have hcount : (r.bytesOf m + (2 ^ 32 - headerBytes)) % 2 ^ 32 = r.bytesOf m - headerBytes := by
    omega
  rw [hcount]

theorem yields_getSdtCount :
    Yields Access.Inside m r.getSdtCount
      ((r.bytesOf m + (2 ^ 32 - headerBytes)) % 2 ^ 32 / r.pointerBytes)
      (Access.Inside (.root r.address 4 4)) := by
  intro result
  rw [Root.getSdtCount, yields_length.meets_bind, meets_pure, and_comm]

/-- An entry is inside the page. -/
def EntryInside (r : Root) (i : ℕ) : Prop :=
  Access.Inside (.root r.address (headerBytes + r.pointerBytes * i) r.pointerBytes)

/-- A table can be copied. -/
def Copied (s : Sdt) : Prop :=
  Access.Inside (.physical s.address headerBytes) ∧ Access.Inside (.physical s.address s.length)

theorem yields_getSdt :
    Yields Access.Inside m (r.getSdt i) (r.sdt m i) (EntryInside r i ∧ Copied (r.sdt m i)) := by
  intro result
  rw [Root.getSdt, Root.word, yields_read.meets_bind, yields_read.meets_bind,
    yields_read.meets_bind, meets_pure, EntryInside, Copied]
  exact ⟨fun ⟨hentry, hheader, hall, heq⟩ => ⟨heq, hentry, hheader, hall⟩,
    fun ⟨heq, hentry, hheader, hall⟩ => ⟨hentry, hheader, hall, heq⟩⟩

theorem yields_list :
    Yields Access.Inside m (s.list revision listing) (listing.add m revision s)
      (16 ≤ s.length ∧ (s.IsFadt m revision → 110 ≤ s.length)) := by
  have hoem : Access.Inside (.entry s.length 0 4) ∧ Access.Inside (.entry s.length 10 6) ↔
      16 ≤ s.length := by
    unfold Access.Inside
    omega
  intro result
  rw [Sdt.list, Sdt.bytes, Sdt.bytes, yields_read.meets_bind, yields_read.meets_bind, ← and_assoc,
    hoem, and_left_comm, Listing.add]
  refine and_congr_right fun _ => ?_
  by_cases hfadt : s.IsFadt m revision
  · have hif : m.slice (s.address + 0) 4 = facp ∧ 2 ≤ revision := hfadt
    have hflags : Access.Inside (.entry s.length bootArchitectureFlagsOffset 1) ↔
        110 ≤ s.length := Iff.rfl
    rw [if_pos hif, if_pos hfadt, yields_read.meets_bind, meets_pure, imp_iff_right hfadt, hflags,
      and_comm]
    exact Iff.rfl
  · have hif : ¬(m.slice (s.address + 0) 4 = facp ∧ 2 ≤ revision) := hfadt
    rw [if_neg hif, if_neg hfadt, meets_pure]
    exact (and_iff_left fun h => absurd h hfadt).symm

/-- What a turn for an entry needs. -/
def EntrySound (m : Memory) (r : Root) (revision : UInt8) (i : ℕ) : Prop :=
  EntryInside r i ∧ (r.sdt m i).Sound m revision

theorem sound_iff : s.Sound m revision ↔
    Copied s ∧ 16 ≤ s.length ∧ (s.IsFadt m revision → 110 ≤ s.length) := by
  constructor
  · rintro ⟨hheader, hle, hoem, hflags⟩
    have hheader' : s.address + 36 ≤ 2 ^ 32 - 4096 := hheader
    exact ⟨⟨⟨by omega, hheader⟩, by omega, hle⟩, hoem, hflags⟩
  · rintro ⟨⟨⟨-, hheader⟩, -, hle⟩, hoem, hflags⟩
    exact ⟨hheader, hle, hoem, hflags⟩

variable {count left : ℕ}

theorem yields_entryTurn
    (hcount : count = (r.bytesOf m + (2 ^ 32 - headerBytes)) % 2 ^ 32 / r.pointerBytes)
    (hi : i < count) :
    Yields Access.Inside m (r.entryTurn revision (i, listing))
      (.inl (i + 1, listing.add m revision (r.sdt m i)))
      (Access.Inside (.root r.address 4 4) ∧ EntrySound m r revision i) := by
  intro result
  rw [Root.entryTurn, yields_getSdtCount.meets_bind, if_pos (hcount ▸ hi), yields_getSdt.meets_bind,
    yields_list.meets_bind, meets_pure, EntrySound, sound_iff]
  tauto

/-- **The loop over the entries.** -/
theorem yields_entries
    (hcount : count = (r.bytesOf m + (2 ^ 32 - headerBytes)) % 2 ^ 32 / r.pointerBytes)
    (hleft : i + left = count) :
    Yields Access.Inside m (.loop (r.entryTurn revision) (i, listing))
      (((List.range' i left).map (r.sdt m)).foldl (Listing.add m revision) listing)
      (Access.Inside (.root r.address 4 4) ∧
        ∀ j, i ≤ j → j < count → EntrySound m r revision j) := by
  induction left generalizing i listing with
  | zero =>
    have hturn : Yields Access.Inside m (r.entryTurn revision (i, listing)) (.inr listing)
        (Access.Inside (.root r.address 4 4)) := by
      intro result
      rw [Root.entryTurn, yields_getSdtCount.meets_bind, if_neg (by omega), meets_pure, and_comm]
    refine hturn.loop_done.congr ?_ fun _ => rfl
    exact (and_iff_left fun j hle hlt => absurd hlt (by omega)).symm
  | succ left ih =>
    have hturn : Yields Access.Inside m (r.entryTurn revision (i, listing)) _ _ :=
      yields_entryTurn hcount (by omega)
    exact (hturn.loop_more (ih (by omega))).congr (turn_and_rest_iff (by omega)) fun _ => rfl

/-- Not all entries are inside that reach beyond the page. -/
theorem not_forall_entryInside (hpos : 0 < count)
    (hbeyond : 4096 < r.address % 4096 + headerBytes + r.pointerBytes * count) :
    ¬∀ j, 0 ≤ j → j < count → EntrySound m r revision j := by
  intro hall
  obtain ⟨hlast, -⟩ := hall (count - 1) (Nat.zero_le _) (by omega)
  have hlast : r.address % 4096 + (headerBytes + r.pointerBytes * (count - 1)) + r.pointerBytes ≤
    4096 := hlast
  rcases pointerBytes_eq r with hbytes | hbytes <;> rw [hbytes] at hlast hbeyond <;> omega

/-- **The entries are sound just where the tables are**, in a page that the
table ends in. -/
theorem forall_entrySound_iff (hle : r.address % 4096 + r.bytesOf m ≤ 4096)
    (hheader : headerBytes ≤ r.bytesOf m) :
    (∀ j, 0 ≤ j → j < (r.bytesOf m - headerBytes) / r.pointerBytes → EntrySound m r revision j) ↔
      ∀ s ∈ r.tables m, s.Sound m revision := by
  unfold Root.tables
  rw [List.forall_mem_map]
  constructor
  · intro hall j hj
    exact (hall j (Nat.zero_le _) (List.mem_range.1 hj)).2
  · intro hall j _ hj
    refine ⟨?_, hall j (List.mem_range.2 hj)⟩
    show r.address % 4096 + (headerBytes + r.pointerBytes * j) + r.pointerBytes ≤ 4096
    rcases pointerBytes_eq r with hbytes | hbytes <;> rw [hbytes] at hj ⊢ <;> omega

/-! ## The start -/

theorem meets_list_iff {started : Started}
    (hcount : count = (r.bytesOf m + (2 ^ 32 - headerBytes)) % 2 ^ 32 / r.pointerBytes) :
    Meets Access.Inside m (r.list revision) started ↔
      Access.Inside (.root r.address 16 8) ∧ Access.Inside (.root r.address 10 6) ∧
        (Access.Inside (.root r.address 4 4) ∧
          ∀ j, 0 ≤ j → j < count → EntrySound m r revision j) ∧
        (⟨r, m.slice (r.address + 16) 8, m.slice (r.address + 10) 6,
          .of m revision ((List.range count).map (r.sdt m))⟩ : Started) = started := by
  rw [Root.list, Root.bytes, Root.bytes, yields_read.meets_bind, yields_read.meets_bind,
    (yields_entries hcount (Nat.zero_add count)).meets_bind, meets_pure, foldl_add,
    List.range_eq_range']

/-- What comes once the checksum is right, for a table that ends in its
page. -/
theorem yields_list_of_le (hlength : r.address % 4096 + 8 ≤ 4096)
    (hle : r.address % 4096 + r.bytesOf m ≤ 4096) :
    Yields Access.Inside m (r.list revision) (r.started m revision)
      (headerBytes ≤ r.bytesOf m ∧ ∀ s ∈ r.tables m, s.Sound m revision) := by
  have hsize : headerBytes = 36 := rfl
  intro result
  rw [meets_list_iff rfl]
  by_cases hheader : headerBytes ≤ r.bytesOf m
  · have hoem : Access.Inside (.root r.address 16 8) ∧ Access.Inside (.root r.address 10 6) ∧
        Access.Inside (.root r.address 4 4) := by
      unfold Access.Inside
      omega
    rw [count_of_le hheader, forall_entrySound_iff hle hheader]
    constructor
    · rintro ⟨-, -, ⟨-, htables⟩, heq⟩
      exact ⟨heq, hheader, htables⟩
    · rintro ⟨heq, -, htables⟩
      exact ⟨hoem.1, hoem.2.1, ⟨hoem.2.2, htables⟩, heq⟩
  · constructor
    · rintro ⟨-, -, ⟨-, hall⟩, -⟩
      have hcount := count_of_lt (Nat.lt_of_not_le hheader)
      refine absurd hall (not_forall_entryInside (by omega) ?_)
      rcases pointerBytes_eq r with hbytes | hbytes <;> rw [hbytes] at hcount ⊢ <;> omega
    · rintro ⟨-, h, -⟩
      exact absurd h hheader

/-- A table that goes beyond its page is not gone through. -/
theorem not_meets_list (hbeyond : 8192 ≤ r.address % 4096 + r.bytesOf m) (started : Started) :
    ¬Meets Access.Inside m (r.list revision) started := by
  have hsize : headerBytes = 36 := rfl
  have hheader : headerBytes ≤ r.bytesOf m := by omega
  rw [meets_list_iff rfl, count_of_le hheader]
  rintro ⟨-, -, ⟨-, hall⟩, -⟩
  refine not_forall_entryInside ?_ ?_ hall
  · rcases pointerBytes_eq r with hbytes | hbytes <;> rw [hbytes] <;> omega
  · rcases pointerBytes_eq r with hbytes | hbytes <;> rw [hbytes] <;> omega

/-- **Starting with a root table.** Where the sum of the length and the
address wraps, the checksum is zero as it stands, but the entries go beyond
the page. -/
theorem yields_start :
    Yields Access.Inside m (r.start revision) (r.outcome m revision) (r.Sound m revision) := by
  have hbytes := bytesOf_lt m r
  have hbelow := r.mapped.below
  have hoffset := r.mapped.offset_eq
  intro result
  rw [Root.start, yields_checksum.meets_bind]
  by_cases hwrap : r.mapped.virtualAddress + r.bytesOf m < 2 ^ 32
  · rw [if_pos hwrap, imp_iff_right hwrap]
    by_cases hvalid : r.Valid m
    · have hzero : ¬m.sum r.address (r.bytesOf m) ≠ 0 := not_not.2 hvalid
      rw [if_neg hzero, Root.outcome, if_pos hvalid]
      constructor
      · rintro ⟨⟨hlength, hle⟩, hlist⟩
        obtain ⟨heq, hheader, htables⟩ :=
          (((yields_list_of_le hlength hle).map Except.ok) result).1 hlist
        exact ⟨heq, hlength, hle, fun _ => hheader, fun _ => htables⟩
      · rintro ⟨heq, hlength, hle, hheader, htables⟩
        exact ⟨⟨hlength, hle⟩, (((yields_list_of_le hlength hle).map Except.ok) result).2
          ⟨heq, hheader hvalid, htables hvalid⟩⟩
    · have hsound : r.Sound m revision ↔
          r.address % 4096 + 8 ≤ 4096 ∧ r.address % 4096 + r.bytesOf m ≤ 4096 :=
        ⟨fun h => ⟨h.length_le, h.le⟩, fun h => ⟨h.1, h.2, fun h => absurd h hvalid, fun h =>
          absurd h hvalid⟩⟩
      have hnonzero : m.sum r.address (r.bytesOf m) ≠ 0 := hvalid
      rw [if_pos hnonzero, meets_pure, hsound, Root.outcome, if_neg hvalid, and_comm]
  · rw [if_neg hwrap, if_neg (not_not.2 rfl)]
    have hbeyond : 8192 ≤ r.address % 4096 + r.bytesOf m := by omega
    constructor
    · rintro ⟨-, hlist⟩
      obtain ⟨started, hlist, -⟩ := meets_bind.1 hlist
      exact absurd hlist (not_meets_list hbeyond started)
    · rintro ⟨-, hsound⟩
      exact absurd hsound.le (by omega)

theorem yields_findXsdt (subscribe : Subscribe) (rsdp : ℕ) :
    Yields Access.Inside m (findXsdt subscribe rsdp revision)
      (if 2 ≤ revision then Root.subscribe subscribe true (m.word (rsdp + 24) 8 % 2 ^ 32)
        else none) True := by
  have hread : Access.Inside (.rsdp (rsdp + 24) 8) := trivial
  intro result
  rw [findXsdt, and_true]
  split
  · rw [yields_read.meets_bind, and_iff_right hread, meets_pure]
  · exact meets_pure

/-- **The root table is found.** -/
theorem yields_findRoot (subscribe : Subscribe) (rsdp : ℕ) :
    Yields Access.Inside m (findRoot subscribe rsdp (m (rsdp + revisionOffset)))
      (rootOf m subscribe rsdp) True := by
  intro result
  rw [findRoot, (yields_findXsdt subscribe rsdp).meets_bind, true_and, and_true, rootOf]
  have hrsdt : Access.Inside (.rsdp (rsdp + 16) 4) := trivial
  by_cases hrevision : 2 ≤ m (rsdp + revisionOffset)
  · rw [if_pos hrevision, if_pos hrevision]
    cases Root.subscribe subscribe true (m.word (rsdp + 24) 8 % 2 ^ 32) with
    | some xsdt => exact meets_pure
    | none =>
      rw [Option.none_or, if_neg (by simp), yields_read.meets_bind, and_iff_right hrsdt, meets_pure]
  · rw [if_neg hrevision, if_neg hrevision, if_neg (by simp), yields_read.meets_bind,
      and_iff_right hrsdt, meets_pure]

/-- What starting comes to. -/
def startedOf (m : Memory) (subscribe : Subscribe) (rsdp : ℕ) : Except String Started :=
  match rootOf m subscribe rsdp with
  | none => .error "ACPI descriptor table not found (no valid XSDT or RSDT found)"
  | some root => root.outcome m (m (rsdp + revisionOffset))

/-- **Starting needs the root table that is found to be sound.** -/
theorem yields_onStart (subscribe : Subscribe) (rsdp : ℕ) :
    Yields Access.Inside m (onStart subscribe rsdp) (startedOf m subscribe rsdp)
      (∀ root ∈ rootOf m subscribe rsdp, root.Sound m (m (rsdp + revisionOffset))) := by
  have hrsdp : Access.Inside (.rsdp (rsdp + revisionOffset) 1) := trivial
  intro result
  rw [onStart, yields_read.meets_bind, and_iff_right hrsdp,
    (yields_findRoot subscribe rsdp).meets_bind, true_and, startedOf]
  cases rootOf m subscribe rsdp with
  | none =>
    refine meets_pure.trans (and_iff_left fun root hroot => ?_).symm
    cases hroot
  | some root =>
    refine (yields_start result).trans (and_congr_right fun _ => ?_)
    simp

/-! ## The search -/

/-- So much of the search as is left. -/
theorem yields_findTurns {signature : List UInt8}
    (hentries : ∀ j, 0 ≤ j → j < count → EntrySound m r revision j) (hleft : i + left = count) :
    Yields Access.Inside m (.loop (r.findTurn count signature) i)
      (((List.range' i left).map (r.sdt m)).find? fun s => m.slice s.address 4 = signature)
      True := by
  induction left generalizing i with
  | zero =>
    have hturn : Yields Access.Inside m (r.findTurn count signature i) (.inr none) True := by
      rw [Root.findTurn, if_neg (by omega)]
      exact yields_pure
    exact hturn.loop_done
  | succ left ih =>
    obtain ⟨hentry, hsdt⟩ := hentries i (Nat.zero_le _) (by omega)
    obtain ⟨hcopied, hoem, -⟩ := sound_iff.1 hsdt
    have hsignature : Access.Inside (.entry (r.sdt m i).length 0 4) := by
      unfold Access.Inside
      omega
    have hturn : Yields Access.Inside m (r.findTurn count signature i)
        (if m.slice (r.sdt m i).address 4 = signature then .inr (some (r.sdt m i))
          else .inl (i + 1)) True := by
      intro result
      rw [Root.findTurn, if_pos (by omega), yields_getSdt.meets_bind,
        and_iff_right ⟨hentry, hcopied⟩, Sdt.bytes, yields_read.meets_bind,
        and_iff_right hsignature, and_true]
      show Meets _ _ (if m.slice (r.sdt m i).address 4 = signature then _ else _) _ ↔ _
      split
      · exact meets_pure
      · exact meets_pure
    rw [List.range'_succ, List.map_cons]
    by_cases hfound : m.slice (r.sdt m i).address 4 = signature
    · rw [if_pos hfound] at hturn
      rw [List.find?_cons_of_pos (by simpa using hfound)]
      exact hturn.loop_done
    · rw [if_neg hfound] at hturn
      rw [List.find?_cons_of_neg (by simpa using hfound)]
      exact (hturn.loop_more (ih (by omega))).congr and_self_iff fun _ => rfl

/-- **The search for a table**, in a root table that is sound: the first
that has the signature. -/
theorem yields_findEntryWithSignature (h : r.Sound m revision) (hvalid : r.Valid m)
    (signature : List UInt8) :
    Yields Access.Inside m (r.findEntryWithSignature signature)
      ((r.tables m).find? fun s => m.slice s.address 4 = signature) True := by
  have hheader := h.header_le hvalid
  have hentries := (forall_entrySound_iff h.le hheader).2 (h.tables hvalid)
  have hlength : Access.Inside (.root r.address 4 4) := h.length_le
  refine ((yields_getSdtCount.bind ?_).congr (iff_of_true ⟨hlength, trivial⟩ trivial) fun _ => rfl)
  rw [count_of_le hheader, Root.tables, List.range_eq_range']
  exact yields_findTurns hentries (Nat.zero_add _)

/-! ## The result -/

/-- What the driver comes to that asks for a table. -/
def startedAndFound (m : Memory) (subscribe : Subscribe) (rsdp : ℕ) (signature : List UInt8) :
    Except String (Started × Option Sdt) :=
  (startedOf m subscribe rsdp).map fun started =>
    (started, (started.root.tables m).find? fun s => m.slice s.address 4 = signature)

/-- **The driver starts and finds the table that it is asked for without an
access to anything that is not mapped or copied, just where the root table
can be gone through**: it ends in the page that it begins in, has a header
if its checksum is right, and lists tables that can be copied and are as
long as what is read of them. -/
theorem startAndFind_meets_iff (m : Memory) (subscribe : Subscribe) (rsdp : ℕ)
    (signature : List UInt8) (result : Except String (Started × Option Sdt)) :
    Meets Access.Inside m (startAndFind subscribe rsdp signature) result ↔
      startedAndFound m subscribe rsdp signature = result ∧
        ∀ root ∈ rootOf m subscribe rsdp, root.Sound m (m (rsdp + revisionOffset)) := by
  rw [startAndFind, (yields_onStart subscribe rsdp).meets_bind, startedAndFound, and_comm]
  refine and_congr_left fun hsound => ?_
  unfold startedOf
  cases hroot : rootOf m subscribe rsdp with
  | none => exact meets_pure
  | some root =>
    have hsound := hsound root hroot
    dsimp only
    by_cases hvalid : root.Valid m
    · rw [Root.outcome, if_pos hvalid]
      have hfind := yields_findEntryWithSignature hsound hvalid signature
      exact hfind.meets_bind.trans ((and_iff_right trivial).trans meets_pure)
    · rw [Root.outcome, if_neg hvalid]
      exact meets_pure

end Acpi

end Uberos
