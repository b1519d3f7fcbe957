import Mathlib.Algebra.Group.Nat.Defs
import Uberos.Ide.Polling
/-!
# Addressing the sectors of an IDE disk

`AtaDisk::read_data` and `select_drive` of `drivers/x86/storage/Ide.cpp`: what
is written to the registers of the channel, and what a drive reads off them
under 28-bit and 48-bit addressing.
-/

namespace Uberos

namespace Ide

inductive Register
  | data
  | features
  | sectorCount
  | lbaLow
  | lbaMedium
  | lbaHigh
  | driveSelect
  | command
  | control
  deriving DecidableEq, Repr

inductive Drive
  | master
  | slave
  deriving DecidableEq, Repr

/-- `(U8)drive` -/
def Drive.toUInt8 : Drive → UInt8
  | master => 0
  | slave => 1

/-- A `write8`. -/
structure Write where
  register : Register
  value : UInt8
  deriving DecidableEq, Repr

/-- `select_drive`: what it writes before its pause. -/
def selectDrive (drive : Drive) (extra : UInt8 := 0) : Write :=
  ⟨.driveSelect, (0xa0 : UInt8) ||| drive.toUInt8 <<< 4 ||| extra⟩

/-- A disk. `get_sector_size()` gives a `U32`. -/
structure AtaDisk where
  drive : Drive
  sectorSize : UInt64
  sectorSize_pos : 0 < sectorSize.toNat
  sectorSize_lt : sectorSize.toNat < 2 ^ 32

namespace AtaDisk

variable (disk : AtaDisk)

/-- `address/sectorSize` -/
def sector (address : UInt64) : UInt64 := address / disk.sectorSize

/-- `(sectorOffset + length + (sectorSize-1)) / sectorSize` -/
def sectorCount (address length : UInt64) : UInt64 :=
  (address % disk.sectorSize + length + (disk.sectorSize - 1)) / disk.sectorSize

/-- The writes under 48-bit addressing. -/
def program48 (sector sectorCount : UInt64) : List Write :=
  [selectDrive disk.drive 0x40,
    ⟨.sectorCount, 0⟩,
    ⟨.sectorCount, sectorCount.toUInt8⟩,
    ⟨.lbaHigh, (sector >>> 40).toUInt8⟩,
    ⟨.lbaMedium, (sector >>> 32).toUInt8⟩,
    ⟨.lbaLow, (sector >>> 24).toUInt8⟩,
    ⟨.lbaHigh, (sector >>> 16).toUInt8⟩,
    ⟨.lbaMedium, (sector >>> 8).toUInt8⟩,
    ⟨.lbaLow, (sector >>> 0).toUInt8⟩]

/-- The writes under 28-bit addressing. -/
def program28 (sector sectorCount : UInt64) : List Write :=
  [selectDrive disk.drive ((0x40 : UInt64) ||| sector >>> 24).toUInt8,
    ⟨.sectorCount, sectorCount.toUInt8⟩,
    ⟨.lbaHigh, (sector >>> 16).toUInt8⟩,
    ⟨.lbaMedium, (sector >>> 8).toUInt8⟩,
    ⟨.lbaLow, (sector >>> 0).toUInt8⟩]

/-- `read_data`: its writes in order, or the failure of the wait. -/
def readData (trace : Trace) (address length : UInt64) : Except String (List Write) := do
  let _ ← waitForStatus trace (1000 * 1000)
  if disk.sector address > 0x0fffffff then
    pure (disk.program48 (disk.sector address) (disk.sectorCount address length))
  else
    pure (disk.program28 (disk.sector address) (disk.sectorCount address length))

end AtaDisk

/-! ## What a drive reads -/

/-- A register with the value before the last one written to it. -/
structure Latch where
  previous : UInt8
  current : UInt8
  deriving DecidableEq, Repr

/-- The registers of a drive. -/
abbrev Registers := Register → Latch

/-- A write to them. -/
def Registers.write (registers : Registers) (w : Write) : Registers := fun register =>
  if register = w.register then ⟨(registers register).current, w.value⟩ else registers register

/-- Writes to them in order. -/
def Registers.after (registers : Registers) (writes : List Write) : Registers :=
  writes.foldl Registers.write registers

/-- A run of sectors of a drive. -/
structure Extent where
  drive : Drive
  first : ℕ
  count : ℕ
  deriving DecidableEq, Repr

/-- An addressing scheme. -/
inductive Scheme
  | lba28
  | lba48
  deriving DecidableEq, Repr

/-- Bit 4 of the drive register. -/
def selectedDrive (select : UInt8) : Drive := if select &&& 0x10 = 0 then .master else .slave

/-- What the registers of the address hold last. -/
def Registers.low24 (registers : Registers) : ℕ :=
  (registers .lbaHigh).current.toNat * 2 ^ 16 + (registers .lbaMedium).current.toNat * 2 ^ 8 +
    (registers .lbaLow).current.toNat

/-- What they held before. -/
def Registers.high24 (registers : Registers) : ℕ :=
  (registers .lbaHigh).previous.toNat * 2 ^ 16 + (registers .lbaMedium).previous.toNat * 2 ^ 8 +
    (registers .lbaLow).previous.toNat

/-- A count of which zero stands for the most there is. -/
def orMost (most count : ℕ) : ℕ := if count = 0 then most else count

/-- **What a scheme reads off the registers**, where bit 6 of the drive
register says that it is an address. -/
def Scheme.decode (scheme : Scheme) (registers : Registers) : Option Extent :=
  let select := (registers .driveSelect).current
  let count := registers .sectorCount
  if select &&& 0x40 = 0 then none
  else match scheme with
    | .lba28 => some {
        drive := selectedDrive select
        first := (select &&& 0x0f).toNat * 2 ^ 24 + registers.low24
        count := orMost 256 count.current.toNat }
    | .lba48 => some {
        drive := selectedDrive select
        first := registers.high24 * 2 ^ 24 + registers.low24
        count := orMost 65536 (count.previous.toNat * 256 + count.current.toNat) }

/-! ## What it is for -/

/-- A run of sectors is those that have a byte of a range in them. -/
def Covers (sectorSize address length first count : ℕ) : Prop :=
  ∀ sector, first ≤ sector ∧ sector < first + count ↔
    ∃ byte, address ≤ byte ∧ byte < address + length ∧ byte / sectorSize = sector

/-- The number of sectors of a range. -/
def sectorsCovered (sectorSize address length : ℕ) : ℕ :=
  (address + length - 1) / sectorSize - address / sectorSize + 1

/-- What a scheme can express. -/
def Scheme.Expresses : Scheme → Extent → Prop
  | lba28, extent => 1 ≤ extent.count ∧ extent.count ≤ 256 ∧ extent.first + extent.count ≤ 2 ^ 28
  | lba48, extent => 1 ≤ extent.count ∧ extent.count ≤ 65536 ∧ extent.first + extent.count ≤ 2 ^ 48

namespace AtaDisk

variable (disk : AtaDisk) (trace : Trace) (registers : Registers) (address length : UInt64)

/-- The scheme that is selected, by the first sector. -/
def scheme : Scheme :=
  if 0x0fffffff < address.toNat / disk.sectorSize.toNat then .lba48 else .lba28

/-- The sectors of a range of a disk. -/
structure IsExtent (extent : Extent) : Prop where
  drive_eq : extent.drive = disk.drive
  first_eq : extent.first = address.toNat / disk.sectorSize.toNat
  covers : Covers disk.sectorSize.toNat address.toNat length.toNat extent.first extent.count

/-- **A range is addressed**: what is written decodes to its sectors, whatever
the registers held, and where nothing is written the wait has failed or the
scheme cannot express them. -/
structure Addresses : Prop where
  decodes : ∀ writes, disk.readData trace address length = .ok writes →
    ∃ extent, (disk.scheme address).decode (registers.after writes) = some extent ∧
      disk.IsExtent address length extent ∧ (disk.scheme address).Expresses extent
  fails : ∀ message, disk.readData trace address length = .error message →
    waitForStatus trace (1000 * 1000) = .error message ∨
      ∀ extent, disk.IsExtent address length extent → ¬(disk.scheme address).Expresses extent

end AtaDisk

variable {disk : AtaDisk} {trace : Trace} {registers : Registers} {address length : UInt64}

/-! ## Sectors -/

section Sectors

variable {sectorSize start bytes first count sector : ℕ}

/-- The sectors of a range are those from its first byte's to its last
byte's. -/
theorem touched_iff (hsize : 0 < sectorSize) (hbytes : 1 ≤ bytes) :
    (∃ byte, start ≤ byte ∧ byte < start + bytes ∧ byte / sectorSize = sector) ↔
      start / sectorSize ≤ sector ∧ sector ≤ (start + bytes - 1) / sectorSize := by
  constructor
  · rintro ⟨byte, hge, hlt, rfl⟩
    exact ⟨Nat.div_le_div_right hge, Nat.div_le_div_right (by omega)⟩
  · rintro ⟨hge, hle⟩
    have hend : sector * sectorSize ≤ start + bytes - 1 := (Nat.le_div_iff_mul_le hsize).mp hle
    obtain hbefore | hafter := Nat.lt_or_ge (sector * sectorSize) start
    · refine ⟨start, Nat.le_refl _, by omega, ?_⟩
      have hge' : sector ≤ start / sectorSize :=
        (Nat.le_div_iff_mul_le hsize).mpr (Nat.le_of_lt hbefore)
      omega
    · exact ⟨sector * sectorSize, hafter, by omega, Nat.mul_div_cancel _ hsize⟩

/-- **How many sectors cover a range.** -/
theorem covers_iff (hsize : 0 < sectorSize) (hbytes : 1 ≤ bytes) :
    Covers sectorSize start bytes (start / sectorSize) count ↔
      count = sectorsCovered sectorSize start bytes := by
  have hle : start / sectorSize ≤ (start + bytes - 1) / sectorSize :=
    Nat.div_le_div_right (by omega)
  rw [sectorsCovered]
  constructor
  · intro h
    have hlast := (h ((start + bytes - 1) / sectorSize)).mpr
      ((touched_iff hsize hbytes).mpr ⟨hle, Nat.le_refl _⟩)
    have hnext : ¬(start + bytes - 1) / sectorSize + 1 < start / sectorSize + count := by
      intro hlt
      have htouched := (h ((start + bytes - 1) / sectorSize + 1)).mp ⟨by omega, hlt⟩
      have hnot := ((touched_iff hsize hbytes).mp htouched).2
      omega
    omega
  · rintro rfl sector
    rw [touched_iff hsize hbytes]
    constructor
    · rintro ⟨hge, hlt⟩
      exact ⟨hge, by omega⟩
    · rintro ⟨hge, hlast⟩
      exact ⟨hge, by omega⟩

/-- The count as it is computed. -/
theorem sectorsCovered_eq (hsize : 0 < sectorSize) (hbytes : 1 ≤ bytes) :
    (start % sectorSize + bytes + (sectorSize - 1)) / sectorSize =
      sectorsCovered sectorSize start bytes := by
  have hrest : start % sectorSize + bytes + (sectorSize - 1) =
      start % sectorSize + bytes - 1 + sectorSize := by omega
  have hstart := Nat.div_add_mod start sectorSize
  have hend : start + bytes - 1 =
      start % sectorSize + bytes - 1 + sectorSize * (start / sectorSize) := by omega
  rw [sectorsCovered, hrest, hend, Nat.add_div_right _ hsize, Nat.add_mul_div_left _ _ hsize,
    Nat.add_sub_cancel]

end Sectors

namespace AtaDisk

theorem toNat_sector (disk : AtaDisk) (address : UInt64) :
    (disk.sector address).toNat = address.toNat / disk.sectorSize.toNat :=
  UInt64.toNat_div _ _

/-- **The count does not wrap around** where it is one that a scheme has. -/
theorem toNat_sectorCount (hlength : 1 ≤ length.toNat) :
    (disk.sectorCount address length).toNat =
        sectorsCovered disk.sectorSize.toNat address.toNat length.toNat ∨
      65536 < sectorsCovered disk.sectorSize.toNat address.toNat length.toNat := by
  have hpos := disk.sectorSize_pos
  have hlt := disk.sectorSize_lt
  have hoffset : address.toNat % disk.sectorSize.toNat < disk.sectorSize.toNat :=
    Nat.mod_lt _ hpos
  have hlast : (disk.sectorSize - 1).toNat = disk.sectorSize.toNat - 1 :=
    UInt64.toNat_sub_of_le _ _ (UInt64.le_iff_toNat_le.mpr hpos)
  have hcount : (disk.sectorCount address length).toNat =
      (address.toNat % disk.sectorSize.toNat + length.toNat + (disk.sectorSize.toNat - 1)) %
        2 ^ 64 / disk.sectorSize.toNat := by
    rw [sectorCount, UInt64.toNat_div, UInt64.toNat_add, UInt64.toNat_add, UInt64.toNat_mod,
      hlast, Nat.mod_add_mod]
  rw [hcount, ← sectorsCovered_eq hpos hlength]
  obtain hsmall | hlarge := Nat.lt_or_ge
    (address.toNat % disk.sectorSize.toNat + length.toNat + (disk.sectorSize.toNat - 1)) (2 ^ 64)
  · rw [Nat.mod_eq_of_lt hsmall]
    exact Or.inl rfl
  · have hle : 65537 * disk.sectorSize.toNat ≤
        address.toNat % disk.sectorSize.toNat + length.toNat + (disk.sectorSize.toNat - 1) := by
      omega
    exact Or.inr ((Nat.le_div_iff_mul_le hpos).mpr hle)

end AtaDisk

/-! ## What the writes decode to -/

theorem toNat_byte (value : UInt64) (shift : UInt64) (hshift : shift.toNat < 64) :
    (value >>> shift).toUInt8.toNat = value.toNat / 2 ^ shift.toNat % 256 := by
  rw [UInt64.toNat_toUInt8, UInt64.toNat_shiftRight, Nat.mod_eq_of_lt hshift,
    Nat.shiftRight_eq_div_pow]

/-- The drive register under 28-bit addressing. -/
theorem select_lba28 (drive : Drive) (nibble : UInt8) (h : nibble.toNat < 16) :
    (selectDrive drive ((0x40 : UInt8) ||| nibble)).value &&& 0x40 ≠ 0 ∧
      selectedDrive (selectDrive drive ((0x40 : UInt8) ||| nibble)).value = drive ∧
      (selectDrive drive ((0x40 : UInt8) ||| nibble)).value &&& 0x0f = nibble := by
  have hall : ∀ (drive : Drive) (n : Fin 16),
      (selectDrive drive ((0x40 : UInt8) ||| UInt8.ofNat n)).value &&& 0x40 ≠ 0 ∧
        selectedDrive (selectDrive drive ((0x40 : UInt8) ||| UInt8.ofNat n)).value = drive ∧
        (selectDrive drive ((0x40 : UInt8) ||| UInt8.ofNat n)).value &&& 0x0f = UInt8.ofNat n := by
    intro drive
    cases drive
    · decide
    · decide
  have hnibble := hall drive ⟨nibble.toNat, h⟩
  rwa [UInt8.ofNat_toNat] at hnibble

/-- The drive register under 48-bit addressing. -/
theorem select_lba48 (drive : Drive) :
    (selectDrive drive 0x40).value &&& 0x40 ≠ 0 ∧
      selectedDrive (selectDrive drive 0x40).value = drive := by
  cases drive
  · decide
  · decide

namespace AtaDisk

variable {sector count : UInt64}

/-- **28-bit addressing**: a sector that has room in it is read back. -/
theorem decode_program28 (hsector : sector.toNat < 2 ^ 28) :
    Scheme.lba28.decode (registers.after (disk.program28 sector count)) =
      some ⟨disk.drive, sector.toNat, orMost 256 (count.toNat % 256)⟩ := by
  have hnibble : (sector >>> 24).toUInt8.toNat = sector.toNat / 2 ^ 24 := by
    rw [toNat_byte _ _ (by decide)]
    exact Nat.mod_eq_of_lt (by simp; omega)
  have hextra : ((0x40 : UInt64) ||| sector >>> 24).toUInt8 =
      (0x40 : UInt8) ||| (sector >>> 24).toUInt8 := UInt64.toUInt8_or _ _
  obtain ⟨hlba, hdrive, hlow⟩ :=
    select_lba28 disk.drive (sector >>> 24).toUInt8 (by rw [hnibble]; omega)
  have hcurrent : ((registers.after (disk.program28 sector count)) .driveSelect).current =
      (selectDrive disk.drive ((0x40 : UInt8) ||| (sector >>> 24).toUInt8)).value :=
    congrArg (fun extra => (selectDrive disk.drive extra).value) hextra
  have hlow24 : (registers.after (disk.program28 sector count)).low24 =
      (sector >>> 16).toUInt8.toNat * 2 ^ 16 + (sector >>> 8).toUInt8.toNat * 2 ^ 8 +
        (sector >>> 0).toUInt8.toNat := rfl
  have hcount : ((registers.after (disk.program28 sector count)) .sectorCount).current.toNat =
      count.toNat % 256 := UInt64.toNat_toUInt8 count
  rw [toNat_byte _ _ (by decide), toNat_byte _ _ (by decide), toNat_byte _ _ (by decide)] at hlow24
  have hfirst : sector.toNat / 2 ^ 24 * 2 ^ 24 +
      (registers.after (disk.program28 sector count)).low24 = sector.toNat := by
    rw [hlow24]
    simp
    omega
  rw [Scheme.decode]
  simp only [hcurrent, if_neg hlba, hdrive, hlow, hnibble, hcount, hfirst]

/-- **48-bit addressing**: what is left of the sector is read back. -/
theorem decode_program48 :
    Scheme.lba48.decode (registers.after (disk.program48 sector count)) =
      some ⟨disk.drive, sector.toNat % 2 ^ 48, orMost 65536 (count.toNat % 256)⟩ := by
  obtain ⟨hlba, hdrive⟩ := select_lba48 disk.drive
  have hcurrent : ((registers.after (disk.program48 sector count)) .driveSelect).current =
      (selectDrive disk.drive 0x40).value := rfl
  have hlow24 : (registers.after (disk.program48 sector count)).low24 =
      (sector >>> 16).toUInt8.toNat * 2 ^ 16 + (sector >>> 8).toUInt8.toNat * 2 ^ 8 +
        (sector >>> 0).toUInt8.toNat := rfl
  have hhigh24 : (registers.after (disk.program48 sector count)).high24 =
      (sector >>> 40).toUInt8.toNat * 2 ^ 16 + (sector >>> 32).toUInt8.toNat * 2 ^ 8 +
        (sector >>> 24).toUInt8.toNat := rfl
  have hcount : ((registers.after (disk.program48 sector count)) .sectorCount).current.toNat =
      count.toNat % 256 := UInt64.toNat_toUInt8 count
  have hprevious :
      ((registers.after (disk.program48 sector count)) .sectorCount).previous.toNat = 0 := rfl
  rw [toNat_byte _ _ (by decide), toNat_byte _ _ (by decide), toNat_byte _ _ (by decide)] at hlow24
  rw [toNat_byte _ _ (by decide), toNat_byte _ _ (by decide), toNat_byte _ _ (by decide)]
    at hhigh24
  have hfirst : (registers.after (disk.program48 sector count)).high24 * 2 ^ 24 +
      (registers.after (disk.program48 sector count)).low24 = sector.toNat % 2 ^ 48 := by
    rw [hlow24, hhigh24]
    simp
    omega
  rw [Scheme.decode]
  simp only [hcurrent, if_neg hlba, hdrive, hcount, hprevious, hfirst, Nat.zero_mul, Nat.zero_add]

end AtaDisk

/-! ## The result -/

theorem orMost_mod {most count : ℕ} (hpos : 1 ≤ count) (hle : count ≤ most) :
    orMost most (count % most) = count := by
  obtain hlt | rfl := Nat.lt_or_eq_of_le hle
  · rw [Nat.mod_eq_of_lt hlt, orMost, if_neg (by omega)]
  · rw [Nat.mod_self, orMost, if_pos rfl]

/-- A count in one register, where there are two. -/
theorem orMost_byte {count : ℕ} (hpos : 1 ≤ count) (hle : count ≤ 65536) :
    orMost 65536 (count % 256) = count ↔ count ≤ 255 ∨ count = 65536 := by
  rw [orMost]
  split
  · omega
  · omega

namespace AtaDisk

/-- `address/sectorSize` -/
def first (disk : AtaDisk) (address : UInt64) : ℕ := address.toNat / disk.sectorSize.toNat

/-- How many sectors cover the range. -/
def covered (disk : AtaDisk) (address length : UInt64) : ℕ :=
  sectorsCovered disk.sectorSize.toNat address.toNat length.toNat

theorem covered_pos : 1 ≤ disk.covered address length := Nat.succ_pos _

/-- There is one run of sectors that is right. -/
theorem isExtent_iff (hlength : 1 ≤ length) {extent : Extent} :
    disk.IsExtent address length extent ↔
      extent = ⟨disk.drive, disk.first address, disk.covered address length⟩ := by
  have hcovers : ∀ count, Covers disk.sectorSize.toNat address.toNat length.toNat
      (disk.first address) count ↔ count = disk.covered address length := fun _ =>
    covers_iff disk.sectorSize_pos (UInt64.le_iff_toNat_le.mp hlength)
  constructor
  · intro h
    obtain ⟨drive, first, count⟩ := extent
    obtain rfl : drive = disk.drive := h.drive_eq
    obtain rfl : first = disk.first address := h.first_eq
    rw [Extent.mk.injEq]
    exact ⟨rfl, rfl, (hcovers _).mp h.covers⟩
  · rintro rfl
    exact ⟨rfl, rfl, (hcovers _).mpr rfl⟩

theorem sectorCount_eq (hlength : 1 ≤ length) (h : disk.covered address length ≤ 65536) :
    (disk.sectorCount address length).toNat = disk.covered address length :=
  (toNat_sectorCount (UInt64.le_iff_toNat_le.mp hlength)).resolve_right (Nat.not_lt_of_le h)

/-- What is written where the drive is not busy at first. -/
theorem readData_ready (h : Ready notBusy trace 0) :
    disk.readData trace address length = .ok
      (if 0x0fffffff < disk.first address then
          disk.program48 (disk.sector address) (disk.sectorCount address length)
        else disk.program28 (disk.sector address) (disk.sectorCount address length)) := by
  have hsector : (disk.sector address > 0x0fffffff) = (0x0fffffff < disk.first address) := by
    rw [GT.gt, UInt64.lt_iff_toNat_lt, toNat_sector]
    rfl
  rw [readData, waitForStatus, poll_ready h]
  simp only [hsector]
  split <;> rfl

theorem readData_not_ready (h : ¬Ready notBusy trace 0) :
    disk.readData trace address length = .error "timeout waiting on status" := by
  rw [readData, waitForStatus, poll_not_ready h]
  rfl

/-- A range is addressed where what is written decodes to the one run of
sectors that is right. -/
theorem addresses_ready (hlength : 1 ≤ length) {writes : List Write}
    (hwrites : disk.readData trace address length = .ok writes) :
    disk.Addresses trace registers address length ↔
      (disk.scheme address).decode (registers.after writes) =
          some ⟨disk.drive, disk.first address, disk.covered address length⟩ ∧
        (disk.scheme address).Expresses
          ⟨disk.drive, disk.first address, disk.covered address length⟩ := by
  constructor
  · intro haddresses
    obtain ⟨extent, hdecode, hextent, hexpresses⟩ := haddresses.decodes writes hwrites
    obtain rfl := (isExtent_iff hlength).mp hextent
    exact ⟨hdecode, hexpresses⟩
  · rintro ⟨hdecode, hexpresses⟩
    refine ⟨fun writes' hwrites' => ?_, fun message hmessage => ?_⟩
    · obtain rfl : writes = writes' := Except.ok.inj (hwrites.symm.trans hwrites')
      exact ⟨_, hdecode, (isExtent_iff hlength).mpr rfl, hexpresses⟩
    · rw [hwrites] at hmessage
      cases hmessage

/-- **A range is addressed exactly where** the wait fails, or its sectors are
all within the scheme that the first of them selects and there are at most 256
of them under 28-bit addressing, and at most 255 or the 65536 that zero stands
for under 48-bit addressing. -/
theorem addresses_iff (disk : AtaDisk) (trace : Trace) (registers : Registers)
    (address length : UInt64) (hlength : 1 ≤ length) :
    disk.Addresses trace registers address length ↔
      ¬Ready notBusy trace 0 ∨
      (disk.first address + disk.covered address length ≤ 2 ^ 28 ∧
        disk.covered address length ≤ 256) ∨
      (2 ^ 28 ≤ disk.first address ∧
        disk.first address + disk.covered address length ≤ 2 ^ 48 ∧
        (disk.covered address length ≤ 255 ∨ disk.covered address length = 65536)) := by
  have hpos : 1 ≤ disk.covered address length := covered_pos
  have hcount : disk.covered address length ≤ 65536 →
      (disk.sectorCount address length).toNat = disk.covered address length :=
    sectorCount_eq hlength
  by_cases hready : Ready notBusy trace 0
  · rw [addresses_ready hlength (readData_ready hready), or_iff_right fun hnot => hnot hready]
    by_cases hfirst : 0x0fffffff < disk.first address
    · have hscheme : disk.scheme address = .lba48 := if_pos hfirst
      have hsector : (disk.sector address).toNat = disk.first address := toNat_sector disk address
      rw [hscheme, if_pos hfirst, decode_program48, hsector, Option.some_inj, Extent.mk.injEq,
        Scheme.Expresses, and_iff_right rfl]
      constructor
      · rintro ⟨⟨-, hdecoded⟩, -, hle, hend⟩
        rw [hcount hle, orMost_byte hpos hle] at hdecoded
        exact Or.inr ⟨by omega, hend, hdecoded⟩
      · rintro (⟨hend, -⟩ | ⟨-, hend, hvalue⟩)
        · omega
        · have hle : disk.covered address length ≤ 65536 := by omega
          rw [hcount hle, orMost_byte hpos hle]
          exact ⟨⟨Nat.mod_eq_of_lt (by omega), hvalue⟩, hpos, hle, hend⟩
    · have hscheme : disk.scheme address = .lba28 := if_neg hfirst
      have hsector : (disk.sector address).toNat = disk.first address := toNat_sector disk address
      rw [hscheme, if_neg hfirst, decode_program28 (by omega), hsector, Option.some_inj,
        Extent.mk.injEq, Scheme.Expresses, and_iff_right rfl, and_iff_right rfl]
      constructor
      · rintro ⟨-, -, hle, hend⟩
        exact Or.inl ⟨hend, hle⟩
      · rintro (⟨hend, hle⟩ | ⟨hlarge, -⟩)
        · rw [hcount (by omega), orMost_mod hpos hle]
          exact ⟨rfl, hpos, hle, hend⟩
        · omega
  · refine iff_of_true ⟨fun writes hwrites => ?_, fun message hmessage => Or.inl ?_⟩
      (Or.inl hready)
    · rw [readData_not_ready hready] at hwrites
      cases hwrites
    · rw [readData_not_ready hready] at hmessage
      obtain rfl := Except.error.inj hmessage
      exact poll_not_ready hready

theorem size_pos : 0 < (512 : UInt64).toNat := by decide

theorem size_lt : (512 : UInt64).toNat < 2 ^ 32 := by decide

/-- A master with sectors of 512 bytes. -/
def masterDisk : AtaDisk := ⟨.master, 512, size_pos, size_lt⟩

/-- Never busy. -/
def idle : Trace := ⟨0, fun _ => ⟨0x40, 1⟩⟩

/-- Registers that were not written. -/
def clearRegisters : Registers := fun _ => ⟨0, 0⟩

/-- A range from the middle of a sector to the middle of another. -/
theorem addresses_middle : masterDisk.Addresses idle clearRegisters 1000 5000 :=
  (addresses_iff masterDisk idle clearRegisters 1000 5000 (by decide)).mpr
    (Or.inr (Or.inl (by decide)))

/-- 257 sectors are addressed as one. -/
theorem not_addresses_257 : ¬masterDisk.Addresses idle clearRegisters 0 (257 * 512) := by
  have hready : Ready notBusy idle 0 := by decide
  rw [addresses_ready (by decide) (readData_ready hready)]
  rintro ⟨hdecode, -⟩
  exact absurd hdecode (by decide)

end AtaDisk

end Ide

end Uberos
