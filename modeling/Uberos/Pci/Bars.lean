import Mathlib.Algebra.Group.Nat.Defs
import Uberos.Pci.Registers
import Uberos.Pci.Scan
/-!
# The bars that are recorded

What the loop of `scan_function` records of a decoder, and of all those of
a device. A register that decodes nothing is sized as four gigabytes, and
a pair by the upper half of where it is instead of what is read back of
it. A pair that begins at the last register is cleared past the six.
-/

namespace Uberos

open Library

namespace Pci

variable {config config' : ConfigSpace} {location : Location} {device : PciDevice} {i : ℕ}
variable {bits exponent block : ℕ} {prefetchable : Bool}

/-! ## What is recorded -/

/-- The numbers of a bar: of memory its address and size, and of an io port. -/
def Bar.numbers (bar : Bar) : ℕ × ℕ × ℕ × ℕ :=
  (bar.memoryAddress.toNat, bar.memorySize.toNat, bar.ioPort.toNat, bar.ioSize.toNat)

namespace Decoder

/-- **What the loop records** of a decoder. -/
def written : Decoder → List (ℕ × ℕ × ℕ × ℕ)
  | unimplemented => [(0, 2 ^ 32, 0, 0)]
  | io bits exponent block =>
    [(0, 0, block * 2 ^ exponent % 2 ^ 16, (2 ^ 32 - (2 ^ bits - 2 ^ exponent)) % 2 ^ 16)]
  | memory16 bits exponent block _ =>
    [(block * 2 ^ exponent % 2 ^ 16, 2 ^ 16 - (2 ^ bits - 2 ^ exponent) % 2 ^ 16, 0, 0)]
  | memory32 exponent block _ =>
    [(block * 2 ^ exponent, 2 ^ 32 - (2 ^ 32 - 2 ^ exponent), 0, 0)]
  | memory64 exponent block _ =>
    [(block * 2 ^ exponent,
      (2 ^ 64 - (block * 2 ^ exponent / 2 ^ 32 * 2 ^ 32 + (2 ^ 64 - 2 ^ exponent) % 2 ^ 32)) % 2 ^ 64,
      0, 0), (0, 0, 0, 0)]

/-- Powers up to a bound. -/
theorem pow_le {m n : ℕ} (h : m ≤ n) : 2 ^ m ≤ 2 ^ n := Nat.pow_le_pow_right (by decide) h

/-- A block is below what is decoded. -/
theorem address_lt {least : ℕ} (h : Fits least bits exponent block) :
    block * 2 ^ exponent + 2 ^ exponent ≤ 2 ^ bits := by
  obtain ⟨-, hlt, hblock⟩ := h
  calc block * 2 ^ exponent + 2 ^ exponent = (block + 1) * 2 ^ exponent := (Nat.succ_mul _ _).symm
    _ ≤ 2 ^ (bits - exponent) * 2 ^ exponent := Nat.mul_le_mul_right _ hblock
    _ = 2 ^ bits := by rw [← Nat.pow_add, Nat.sub_add_cancel (Nat.le_of_lt hlt)]

/-- A size of less than a word of 16 bits. -/
theorem pow_lt_iff (exponent : ℕ) : 2 ^ exponent < 2 ^ 16 ↔ exponent < 16 :=
  Nat.pow_lt_pow_iff_right (by decide)

/-- A size of a word of 16 bits or more is so many of them. -/
theorem exists_pow_eq (h : 16 ≤ exponent) :
    ∃ words, 2 ^ exponent = 2 ^ 16 * words ∧ 0 < words ∧ (words = 1 ↔ exponent ≤ 16) := by
  refine ⟨2 ^ (exponent - 16), ?_, Nat.two_pow_pos _, ?_⟩
  · rw [← Nat.pow_add, Nat.add_sub_cancel' h]
  · rw [Nat.pow_eq_one]
    omega

/-- **What is recorded is what is to be** of the decoders that are sized. -/
theorem written_eq_iff {decoder : Decoder} (h : decoder.Legal) :
    decoder.written = decoder.expected ↔ decoder.Sized := by
  cases decoder with
  | unimplemented =>
    refine iff_of_false ?_ id
    decide
  | io bits exponent block =>
    obtain ⟨hbits, hfits⟩ := h
    have hpos := Nat.two_pow_pos exponent
    have hle := pow_le (Nat.le_of_lt hfits.2.1)
    simp only [written, expected, Sized, List.cons.injEq, Prod.mk.injEq, and_true, true_and]
    rw [← pow_lt_iff exponent]
    rcases hbits with rfl | rfl
    · omega
    · omega
  | memory16 bits exponent block prefetchable =>
    obtain ⟨hbits, hfits⟩ := h
    have hpos := Nat.two_pow_pos exponent
    have hle := pow_le (Nat.le_of_lt hfits.2.1)
    simp only [written, expected, Sized, List.cons.injEq, Prod.mk.injEq, and_true]
    have hsize : 2 ^ 16 - (2 ^ bits - 2 ^ exponent) % 2 ^ 16 = 2 ^ exponent ↔ exponent ≤ 16 := by
      rcases Nat.lt_or_ge exponent 16 with hlt | hge
      · have hpow := (pow_lt_iff exponent).mpr hlt
        rcases hbits with rfl | rfl
        · omega
        · omega
      · obtain ⟨words, heq, hwords, hone⟩ := exists_pow_eq hge
        rcases hbits with rfl | rfl
        · exact absurd hfits.2.1 (by omega)
        · rw [heq] at hle ⊢
          omega
    rw [hsize]
    omega
  | memory32 exponent block prefetchable =>
    have hfits : Fits 4 32 exponent block := h
    have hle : 2 ^ exponent ≤ 2 ^ 32 := pow_le (Nat.le_of_lt hfits.2.1)
    simp only [written, expected, Sized, List.cons.injEq, Prod.mk.injEq, and_true, true_and, iff_true]
    exact Nat.sub_sub_self hle
  | memory64 exponent block prefetchable =>
    have hpos := Nat.two_pow_pos exponent
    have hfits : Fits 4 64 exponent block := h
    have haddress := address_lt hfits
    have hlt : 2 ^ exponent < 2 ^ 64 := Nat.pow_lt_pow_right (by decide) hfits.2.1
    simp only [written, expected, Sized, List.cons.injEq, Prod.mk.injEq, and_true, true_and]
    generalize block * 2 ^ exponent = address at haddress ⊢
    generalize 2 ^ exponent = size at hpos haddress hlt ⊢
    have hmask : 2 ^ 64 - size + size = 2 ^ 64 := Nat.sub_add_cancel (Nat.le_of_lt hlt)
    generalize 2 ^ 64 - size = mask at hmask ⊢
    have hboth : address / 2 ^ 32 * 2 ^ 32 + mask % 2 ^ 32 < 2 ^ 64 := by omega
    rcases Nat.eq_zero_or_pos (address / 2 ^ 32 * 2 ^ 32 + mask % 2 ^ 32) with hzero | hboth'
    · rw [hzero]
      omega
    · rw [Nat.mod_eq_of_lt (by omega)]
      omega

end Decoder

/-! ## What is read of a decoder -/

/-- An address has nothing below its size. -/
theorem dvd_address {least : ℕ} (h : Fits least bits exponent block) :
    2 ^ least ∣ block * 2 ^ exponent ∧ 2 ^ least ∣ 2 ^ bits - 2 ^ exponent :=
  ⟨Nat.dvd_trans (Nat.pow_dvd_pow 2 h.1) (Nat.dvd_mul_left _ _),
    Nat.dvd_sub (Nat.pow_dvd_pow 2 (Nat.le_trans h.1 (Nat.le_of_lt h.2.1)))
      (Nat.pow_dvd_pow 2 h.1)⟩

/-- **What is read of a register** of an address: its address, in the bits
between two, and with ones written to it those that can be written, if
none of its type are among them. -/
theorem toNat_read (lower upper : ℕ) {least : ℕ} {type : BitVec 32} (h : Fits least bits exponent block)
    (hlower : lower ≤ least) (hle : lower ≤ upper) (hupper : upper ≤ 32)
    (htype : type &&& BitVec.ofNat 32 (2 ^ upper - 2 ^ lower) = 0#32) :
    ((Decoder.register type bits exponent block).value
        &&& BitVec.ofNat 32 (2 ^ upper - 2 ^ lower)).toNat = block * 2 ^ exponent % 2 ^ upper ∧
      ((((Decoder.register type bits exponent block).value
          &&& ~~~(Decoder.register type bits exponent block).writable)
          ||| (Decoder.register type bits exponent block).writable)
        &&& BitVec.ofNat 32 (2 ^ upper - 2 ^ lower)).toNat
        = (2 ^ bits - 2 ^ exponent) % 2 ^ upper := by
  obtain ⟨haddress, hmask⟩ := dvd_address h
  have hdvd : 2 ^ lower ∣ 2 ^ least := Nat.pow_dvd_pow 2 hlower
  have hnot := address_and_not (Nat.le_of_lt h.2.1) h.2.2
  simp only [Decoder.register]
  rw [or_and_eq htype, ones_and_eq htype hnot,
    toNat_and_mask hle hupper (Nat.dvd_trans hdvd haddress),
    toNat_and_mask hle hupper (Nat.dvd_trans hdvd hmask)]
  exact ⟨rfl, rfl⟩

/-- The bits of a type are read as they are. -/
theorem read_type (upper : ℕ) {least : ℕ} {type kept : BitVec 32} (h : Fits least bits exponent block)
    (hupper : upper ≤ least) (hkept : kept.toNat < 2 ^ upper) :
    (Decoder.register type bits exponent block).value &&& kept = type &&& kept := by
  have haddress : BitVec.ofNat 32 (block * 2 ^ exponent) &&& kept = 0#32 := by
    refine BitVec.eq_of_toNat_eq (Nat.eq_of_testBit_eq fun k => ?_)
    rw [BitVec.toNat_and, Nat.testBit_and, BitVec.toNat_ofNat, Nat.testBit_mod_two_pow,
      Nat.testBit_mul_two_pow]
    by_cases hk : k < upper
    · have hexponent : ¬exponent ≤ k := by
        have hleast := h.1
        omega
      simp only [hexponent, decide_false, Bool.false_and, Bool.and_false]
      exact (Nat.zero_testBit k).symm
    · rw [Nat.testBit_lt_two_pow (Nat.lt_of_lt_of_le hkept (Decoder.pow_le (Nat.le_of_not_lt hk))),
        Bool.and_false]
      exact (Nat.zero_testBit k).symm
  have hcomm : (Decoder.register type bits exponent block).value
      = type ||| BitVec.ofNat 32 (block * 2 ^ exponent) := BitVec.or_comm _ _
  rw [hcomm, or_and_eq haddress]

theorem mask_mod (hbits : bits ≤ 32) : (2 ^ bits - 2 ^ exponent) % 2 ^ 32 = 2 ^ bits - 2 ^ exponent := by
  have hle := Decoder.pow_le hbits
  have hpos := Nat.two_pow_pos exponent
  exact Nat.mod_eq_of_lt (by omega)

section

variable {least : ℕ} {type : BitVec 32}

/-- What a register reads as, and with ones written to it. -/
theorem readBar_eq {register : Register} (hregister : config location (ConfigSpace.bar0 + i * 4) = register) :
    config.readBar location i = register.value ∧
      (config.writeBar location i 0xffffffff).readBar location i
        = register.value &&& ~~~register.writable ||| register.writable := by
  have hread : config.readBar location i = register.value := congrArg Register.value hregister
  exact ⟨hread, by rw [ConfigSpace.readBar_ones, hread, hregister]⟩

/-- **An io port** is recorded by a word of its address and of its size. -/
theorem sizeIo_numbers (bar : Bar) (hbits : bits ≤ 32) (h : Fits 2 bits exponent block)
    (hregister : config location (ConfigSpace.bar0 + i * 4)
      = Decoder.register 0b1 bits exponent block) :
    (config.sizeIo location i bar (config.readBar location i)).2.numbers
      = (0, 0, block * 2 ^ exponent % 2 ^ 16,
        (2 ^ 32 - (2 ^ bits - 2 ^ exponent)) % 2 ^ 16) := by
  obtain ⟨hread, hones⟩ := readBar_eq hregister
  obtain ⟨haddress, -⟩ := toNat_read 2 16 h (Nat.le_refl 2) (by decide)
    (by decide) (by decide : 0b1#32 &&& BitVec.ofNat 32 (2 ^ 16 - 2 ^ 2) = 0#32)
  obtain ⟨-, hmask⟩ := toNat_read 2 32 h (Nat.le_refl 2) (by decide)
    (by decide) (by decide : 0b1#32 &&& BitVec.ofNat 32 (2 ^ 32 - 2 ^ 2) = 0#32)
  rw [mask_mod hbits] at hmask
  have hport : ((config.readBar location i &&& 0xfffc).setWidth 16).toNat
      = block * 2 ^ exponent % 2 ^ 16 := by
    rw [BitVec.toNat_setWidth, hread]
    exact (congrArg (· % 2 ^ 16) haddress).trans (Nat.mod_mod _ _)
  have hsize : ((~~~(((config.writeBar location i 0xffffffff).readBar location i
        &&& 0xfffffffc).setWidth 64 ||| 0xffffffff00000000#64) + 1).setWidth 16).toNat
      = (2 ^ 32 - (2 ^ bits - 2 ^ exponent)) % 2 ^ 16 := by
    rw [BitVec.toNat_setWidth, toNat_size_ones, hones]
    exact congrArg (fun mask => (2 ^ 32 - mask) % 2 ^ 16) hmask
  simp only [ConfigSpace.sizeIo, Bar.numbers, hport, hsize]
  rfl

/-- The type of a memory address. -/
theorem read_typeBits {type : BitVec 32} (h : Fits 4 bits exponent block)
    (hregister : config location (ConfigSpace.bar0 + i * 4)
      = Decoder.register (Decoder.typeBits type prefetchable) bits exponent block) :
    ((config.readBar location i &&& 0b110) >>> 1).toNat
      = ((Decoder.typeBits type prefetchable &&& 0b110) >>> 1).toNat := by
  obtain ⟨hread, -⟩ := readBar_eq hregister
  rw [hread, read_type 3 h (by decide) (by decide)]

/-- **A memory address of 16 bits** is recorded by those of it and of its
size. -/
theorem sizeMemory_numbers16 (h : Fits 4 bits exponent block)
    (hregister : config location (ConfigSpace.bar0 + i * 4)
      = Decoder.register (Decoder.typeBits 0b010 prefetchable) bits exponent block) :
    (config.sizeMemory location i (config.readBar location i)).2.numbers
        = (block * 2 ^ exponent % 2 ^ 16, 2 ^ 16 - (2 ^ bits - 2 ^ exponent) % 2 ^ 16, 0, 0) ∧
      (config.sizeMemory location i (config.readBar location i)).2.size = ._16bit := by
  obtain ⟨hread, hones⟩ := readBar_eq hregister
  have hkept : Decoder.typeBits 0b010 prefetchable &&& BitVec.ofNat 32 (2 ^ 16 - 2 ^ 4) = 0#32 := by
    cases prefetchable <;> decide
  have htype : ((config.readBar location i &&& 0b110) >>> 1).toNat = 0b01 := by
    rw [read_typeBits h hregister]
    cases prefetchable <;> decide
  obtain ⟨haddress, hmask⟩ := toNat_read 4 16 h (Nat.le_refl 4) (by decide)
    (by decide) hkept
  have hmemory : ((config.readBar location i &&& 0xfff0).setWidth 64).toNat
      = block * 2 ^ exponent % 2 ^ 16 := by
    rw [BitVec.toNat_setWidth, hread]
    refine (congrArg (· % 2 ^ 64) haddress).trans (Nat.mod_eq_of_lt ?_)
    omega
  have hlow : ((config.writeBar location i 0xffffffff).readBar location i &&& 0xfff0).toNat
      = (2 ^ bits - 2 ^ exponent) % 2 ^ 16 := by
    rw [hones]
    exact hmask
  have hword : ((config.writeBar location i 0xffffffff).readBar location i &&& 0xfff0).toNat
      < 2 ^ 16 := by
    omega
  have hsize := toNat_size_ones16 hword
  rw [hlow] at hsize
  refine ⟨?_, by simp only [ConfigSpace.sizeMemory, htype]⟩
  simp only [ConfigSpace.sizeMemory, htype, Bar.numbers, hmemory, hsize]
  rfl

/-- **One of 32 bits** is recorded as it is. -/
theorem sizeMemory_numbers32 (h : Fits 4 32 exponent block)
    (hregister : config location (ConfigSpace.bar0 + i * 4)
      = Decoder.register (Decoder.typeBits 0b000 prefetchable) 32 exponent block) :
    (config.sizeMemory location i (config.readBar location i)).2.numbers
        = (block * 2 ^ exponent, 2 ^ 32 - (2 ^ 32 - 2 ^ exponent), 0, 0) ∧
      (config.sizeMemory location i (config.readBar location i)).2.size = ._32bit := by
  obtain ⟨hread, hones⟩ := readBar_eq hregister
  have hlt := Decoder.address_lt h
  have hpos := Nat.two_pow_pos exponent
  have hkept : Decoder.typeBits 0b000 prefetchable &&& BitVec.ofNat 32 (2 ^ 32 - 2 ^ 4) = 0#32 := by
    cases prefetchable <;> decide
  have htype : ((config.readBar location i &&& 0b110) >>> 1).toNat = 0b00 := by
    rw [read_typeBits h hregister]
    cases prefetchable <;> decide
  obtain ⟨haddress, hmask⟩ := toNat_read 4 32 h (Nat.le_refl 4) (by decide)
    (by decide) hkept
  rw [Nat.mod_eq_of_lt (by omega)] at haddress
  rw [mask_mod (Nat.le_refl 32)] at hmask
  have hmemory : ((config.readBar location i &&& 0xfffffff0).setWidth 64).toNat
      = block * 2 ^ exponent := by
    rw [BitVec.toNat_setWidth, hread]
    refine (congrArg (· % 2 ^ 64) haddress).trans (Nat.mod_eq_of_lt ?_)
    omega
  have hlow : ((config.writeBar location i 0xffffffff).readBar location i &&& 0xfffffff0).toNat
      = 2 ^ 32 - 2 ^ exponent := by
    rw [hones]
    exact hmask
  have hsize := toNat_size_ones
    ((config.writeBar location i 0xffffffff).readBar location i &&& 0xfffffff0)
  rw [hlow] at hsize
  refine ⟨?_, by simp only [ConfigSpace.sizeMemory, htype]⟩
  simp only [ConfigSpace.sizeMemory, htype, Bar.numbers, hmemory, hsize]
  rfl

/-- What decodes nothing is recorded as of all that 32 bits decode. -/
theorem sizeMemory_numbers_unimplemented
    (hregister : config location (ConfigSpace.bar0 + i * 4) = ⟨0, 0⟩) :
    (config.sizeMemory location i (config.readBar location i)).2.numbers = (0, 2 ^ 32, 0, 0) ∧
      (config.sizeMemory location i (config.readBar location i)).2.size = ._32bit := by
  obtain ⟨hread, hones⟩ := readBar_eq hregister
  have hread' : config.readBar location i = 0#32 := hread
  have hones' : (config.writeBar location i 0xffffffff).readBar location i = 0#32 :=
    hones.trans (by decide)
  have htype : ((config.readBar location i &&& 0b110) >>> 1).toNat = 0b00 := by
    rw [hread']
    rfl
  have hmemory : ((config.readBar location i &&& 0xfffffff0).setWidth 64).toNat = 0 := by
    rw [hread']
    rfl
  have hlow : ((config.writeBar location i 0xffffffff).readBar location i &&& 0xfffffff0).toNat
      = 0 := by
    rw [hones']
    rfl
  have hsize := toNat_size_ones
    ((config.writeBar location i 0xffffffff).readBar location i &&& 0xfffffff0)
  rw [hlow, Nat.sub_zero] at hsize
  refine ⟨?_, by simp only [ConfigSpace.sizeMemory, htype]⟩
  simp only [ConfigSpace.sizeMemory, htype, Bar.numbers, hmemory, hsize]
  rfl

/-- **One of 64 bits** is recorded as it is, with a size that is short of
all by the upper half of it and what is read of the lower. -/
theorem sizeMemory_numbers64 (h : Fits 4 64 exponent block)
    (hregister : config location (ConfigSpace.bar0 + i * 4)
      = Decoder.register (Decoder.typeBits 0b100 prefetchable) 64 exponent block)
    (hsecond : (config location (ConfigSpace.bar0 + (i + 1) * 4)).value
      = BitVec.ofNat 32 (block * 2 ^ exponent / 2 ^ 32)) :
    (config.sizeMemory location i (config.readBar location i)).2.numbers
        = (block * 2 ^ exponent,
          (2 ^ 64 - (block * 2 ^ exponent / 2 ^ 32 * 2 ^ 32 + (2 ^ 64 - 2 ^ exponent) % 2 ^ 32))
            % 2 ^ 64, 0, 0) ∧
      (config.sizeMemory location i (config.readBar location i)).2.size = ._64bit := by
  obtain ⟨hread, hones⟩ := readBar_eq hregister
  have hlt := Decoder.address_lt h
  have hpos := Nat.two_pow_pos exponent
  have hkept : Decoder.typeBits 0b100 prefetchable &&& BitVec.ofNat 32 (2 ^ 32 - 2 ^ 4) = 0#32 := by
    cases prefetchable <;> decide
  have htype : ((config.readBar location i &&& 0b110) >>> 1).toNat = 0b10 := by
    rw [read_typeBits h hregister]
    cases prefetchable <;> decide
  obtain ⟨haddress, hmask⟩ := toNat_read 4 32 h (Nat.le_refl 4) (by decide)
    (by decide) hkept
  have hhigh : (config.readBar location (i + 1)).toNat = block * 2 ^ exponent / 2 ^ 32 := by
    rw [ConfigSpace.readBar, ConfigSpace.readConfig32, hsecond, BitVec.toNat_ofNat,
      Nat.mod_eq_of_lt (by omega)]
  have hmemory : ((config.readBar location i &&& 0xfffffff0).setWidth 64
      ||| (config.readBar location (i + 1)).setWidth 64 <<< 32).toNat = block * 2 ^ exponent := by
    have hlow : (config.readBar location i &&& 0xfffffff0).toNat
        = block * 2 ^ exponent % 2 ^ 32 := by
      rw [hread]
      exact haddress
    rw [toNat_or_shiftLeft, hhigh, hlow]
    omega
  -- the first register is read back with ones written to both
  have hboth : ((config.writeBar location i 0xffffffff).writeBar location (i + 1)
      0xffffffff).readBar location i = (config.writeBar location i 0xffffffff).readBar location i :=
    ConfigSpace.readBar_writeBar_of_ne _ (by omega)
  have hlow : (((config.writeBar location i 0xffffffff).writeBar location (i + 1)
      0xffffffff).readBar location i &&& 0xfffffff0).toNat = (2 ^ 64 - 2 ^ exponent) % 2 ^ 32 := by
    rw [hboth, hones]
    exact hmask
  have hsize := toNat_size (((config.writeBar location i 0xffffffff).writeBar location (i + 1)
      0xffffffff).readBar location i &&& 0xfffffff0) (config.readBar location (i + 1))
  rw [hlow, hhigh] at hsize
  refine ⟨?_, by simp only [ConfigSpace.sizeMemory, htype]⟩
  simp only [ConfigSpace.sizeMemory, htype, Bar.numbers, hmemory, hsize]
  rfl

end

end Pci

end Uberos
