import Uberos.Pci.Model
import Mathlib.Algebra.Group.Nat.Defs
/-!
# What is left in the registers

A register that is written and then written with what was in it holds
that again, whatever bits it decodes. So the sizing of the bars of a
function changes nothing of the configuration space but its command.
-/

namespace Uberos.Pci

variable {config config' config'' : ConfigSpace} {location : Location} {offset offset' i : ℕ}

/-! ## A register -/

/-- What is written over is as it was. -/
theorem Register.write_write (register : Register) (value : BitVec 32) :
    (register.write value).write register.value = register := by
  obtain ⟨old, writable⟩ := register
  have hbits : (old &&& ~~~writable ||| value &&& writable) &&& ~~~writable ||| old &&& writable
      = old := by
    ext k hk
    simp only [BitVec.getElem_or, BitVec.getElem_and, BitVec.getElem_not]
    cases old[k] <;> cases value[k] <;> cases writable[k] <;> rfl
  exact congrArg (Register.mk · writable) hbits

/-- With all ones written, the bits are read that are decoded, and those
that are fixed to one. -/
theorem Register.write_ones (register : Register) :
    (register.write 0xffffffff).value = register.value &&& ~~~register.writable ||| register.writable := by
  have hones : 0xffffffff#32 &&& register.writable = register.writable := BitVec.allOnes_and
  rw [Register.write]
  exact congrArg (register.value &&& ~~~register.writable ||| ·) hones

/-! ## The configuration space -/

namespace ConfigSpace

theorem set_self (register : Register) : config.set location offset register location offset
    = register := by
  rw [set, Function.update_self, Function.update_self]

theorem set_of_ne (register : Register) (hne : offset' ≠ offset) (other : Location) :
    config.set location offset register other offset' = config other offset' := by
  rw [set]
  by_cases hother : other = location
  · rw [hother, Function.update_self, Function.update_of_ne hne]
  · rw [Function.update_of_ne hother]

theorem set_set (register register' : Register) :
    (config.set location offset register).set location offset register'
      = config.set location offset register' := by
  rw [set, set, set, Function.update_self, Function.update_idem, Function.update_idem]

theorem set_comm (register register' : Register) (hne : offset ≠ offset') :
    (config.set location offset register).set location offset' register'
      = (config.set location offset' register').set location offset register := by
  rw [set, set, set, set, Function.update_self, Function.update_self, Function.update_idem,
    Function.update_idem, Function.update_comm hne.symm]

theorem set_eq_self : config.set location offset (config location offset) = config := by
  rw [set, Function.update_eq_self, Function.update_eq_self]

/-- **A register that is written and written back** leaves the space as it
was. -/
theorem writeBar_writeBar (value : BitVec 32) :
    (config.writeBar location i value).writeBar location i (config.readBar location i) = config := by
  rw [writeBar, writeBar, writeConfig32, writeConfig32, set_self, set_set, readBar, readConfig32,
    Register.write_write, set_eq_self]

theorem readBar_writeBar_of_ne {j : ℕ} (value : BitVec 32) (hne : j ≠ i) :
    (config.writeBar location i value).readBar location j = config.readBar location j := by
  have hoffset : bar0 + j * 4 ≠ bar0 + i * 4 := by omega
  rw [readBar, readConfig32, writeBar, writeConfig32, set_of_ne _ hoffset, readBar, readConfig32]

/-- Two registers are written one after the other, in either order. -/
theorem writeBar_comm {j : ℕ} (value value' : BitVec 32) (hne : i ≠ j) :
    (config.writeBar location i value).writeBar location j value'
      = (config.writeBar location j value').writeBar location i value := by
  have hoffset : bar0 + i * 4 ≠ bar0 + j * 4 := by omega
  rw [writeBar, writeBar, writeBar, writeBar, writeConfig32, writeConfig32, writeConfig32,
    writeConfig32, set_of_ne _ hoffset.symm, set_of_ne _ hoffset, set_comm _ _ hoffset]

/-- What is read of a bar with all ones written to it. -/
theorem readBar_ones : (config.writeBar location i 0xffffffff).readBar location i
    = config.readBar location i &&& ~~~(config location (bar0 + i * 4)).writable |||
      (config location (bar0 + i * 4)).writable := by
  rw [readBar, readConfig32, writeBar, writeConfig32, set_self, Register.write_ones, readBar,
    readConfig32]

/-! ## The sizing of a bar -/

variable (config location i) in
/-- **Sizing leaves the registers as they were**, of an io port, -/
theorem sizeIo_config (bar : Bar) :
    (config.sizeIo location i bar (config.readBar location i)).1 = config :=
  writeBar_writeBar _

variable (config location i) in
/-- and of a memory address, one register or two. -/
theorem sizeMemory_config :
    (config.sizeMemory location i (config.readBar location i)).1 = config := by
  rw [sizeMemory]
  split
  · -- the second register is written back last, and the first before it
    have hne : i ≠ i + 1 := by omega
    have hsecond : config.readBar location (i + 1)
        = (config.writeBar location i 0xffffffff).readBar location (i + 1) :=
      (readBar_writeBar_of_ne _ hne.symm).symm
    change ((((config.writeBar location i 0xffffffff).writeBar location (i + 1)
      0xffffffff).writeBar location i (config.readBar location i)).writeBar location (i + 1)
        (config.readBar location (i + 1))) = config
    rw [writeBar_comm _ (config.readBar location (i + 1)) hne, hsecond, writeBar_writeBar,
      writeBar_writeBar]
  · exact writeBar_writeBar _
  · exact writeBar_writeBar _

/-! ## All but the command -/

/-- **The registers are the same**, but for the commands. -/
def Same (config config' : ConfigSpace) : Prop :=
  ∀ location, ∀ offset ≠ command, config' location offset = config location offset

theorem Same.refl (config : ConfigSpace) : config.Same config := fun _ _ _ => rfl

theorem Same.trans (h : config.Same config') (h' : config'.Same config'') :
    config.Same config'' :=
  fun location offset hne => (h' location offset hne).trans (h location offset hne)

theorem Same.readConfig32 (h : config.Same config') (hne : offset ≠ command) :
    config'.readConfig32 location offset = config.readConfig32 location offset :=
  congrArg Register.value (h location offset hne)

theorem Same.readBar (h : config.Same config') :
    config'.readBar location i = config.readBar location i := by
  refine h.readConfig32 ?_
  rw [bar0, command]
  omega

theorem same_enableSpace (bit : ℕ) (enable : Bool) :
    config.Same (config.enableSpace location bit enable) := by
  intro other offset hne
  rw [enableSpace]
  split
  · exact set_of_ne _ hne other
  · exact set_of_ne _ hne other

/-- The spaces of a device are disabled. -/
def disable (config : ConfigSpace) (location : Location) : ConfigSpace :=
  (config.enableMemorySpace location false).enableIoSpace location false

theorem same_disable : config.Same (config.disable location) :=
  (same_enableSpace 1 false).trans (same_enableSpace 0 false)

end ConfigSpace

/-! ## The loop -/

/-- A turn of the loop disables the device, and leaves the rest as it was. -/
theorem scanBar_config (config : ConfigSpace) (device : PciDevice) (i : ℕ) :
    (scanBar config device i).1 = config.disable device.location := by
  unfold scanBar
  dsimp only
  split
  · exact ConfigSpace.sizeIo_config (config.disable device.location) _ i (device.bar i)
  · have hconfig := ConfigSpace.sizeMemory_config (config.disable device.location) device.location i
    split
    · exact hconfig
    · exact hconfig

/-- The device that a turn of the loop is of. -/
theorem scanBar_location (config : ConfigSpace) (device : PciDevice) (i : ℕ) :
    (scanBar config device i).2.1.location = device.location := by
  rw [scanBar]
  dsimp only
  split
  · rfl
  · split
    · rfl
    · rfl

/-- **The bars of a function are sized with its registers as they were.** -/
theorem scanBars_same (passes : ℕ) (config : ConfigSpace) (device : PciDevice) (i : ℕ) :
    config.Same (scanBars passes config device i).1 ∧
      (scanBars passes config device i).2.location = device.location := by
  induction passes generalizing config device i with
  | zero => exact ⟨.refl config, rfl⟩
  | succ passes ih =>
    rw [scanBars]
    split
    · have hconfig := scanBar_config config device i
      have hlocation := scanBar_location config device i
      obtain ⟨hsame, hdevice⟩ := ih (scanBar config device i).1 (scanBar config device i).2.1
        ((scanBar config device i).2.2 + 1)
      refine ⟨?_, hdevice.trans hlocation⟩
      rw [hconfig] at hsame
      have hall := ConfigSpace.same_disable.trans hsame
      rw [← hconfig] at hall
      exact hall
    · exact ⟨.refl config, rfl⟩

end Uberos.Pci

/-!
## What base address registers decode

A register that decodes an address has the bits of its type, which are
fixed, and those of the address from its size on, which can be written.
With ones written to those, the size can be read back from them, if the
bits that are not there are taken to be ones.
-/

namespace Uberos.Pci

/-! ## Decoders -/

/-- What a base address register decodes, or a pair of them: blocks of a
power of two, of which it is at one. -/
inductive Decoder
  | unimplemented
  | io (bits exponent block : ℕ)
  | memory16 (bits exponent block : ℕ) (prefetchable : Bool)
  | memory32 (exponent block : ℕ) (prefetchable : Bool)
  | memory64 (exponent block : ℕ) (prefetchable : Bool)
  deriving DecidableEq, Repr

/-- A block lies within the bits that are decoded. -/
def Fits (least bits exponent block : ℕ) : Prop :=
  least ≤ exponent ∧ exponent < bits ∧ block < 2 ^ (bits - exponent)

instance (least bits exponent block : ℕ) : Decidable (Fits least bits exponent block) :=
  inferInstanceAs (Decidable (_ ∧ _))

namespace Decoder

/-- **What is legal**: an io port of 16 bits or 32, and a memory address of
16 bits, or of the 20 that are below a megabyte, or of 32, or of 64. -/
def Legal : Decoder → Prop
  | unimplemented => True
  | io bits exponent block => (bits = 16 ∨ bits = 32) ∧ Fits 2 bits exponent block
  | memory16 bits exponent block _ => (bits = 16 ∨ bits = 20) ∧ Fits 4 bits exponent block
  | memory32 exponent block _ => Fits 4 32 exponent block
  | memory64 exponent block _ => Fits 4 64 exponent block

/-- The bits of a type, with that of memory that can be prefetched. -/
def typeBits (type : BitVec 32) (prefetchable : Bool) : BitVec 32 :=
  type ||| if prefetchable then 0b1000 else 0

/-- A register of an address of so many bits. -/
def register (type : BitVec 32) (bits exponent block : ℕ) : Register where
  value := BitVec.ofNat 32 (block * 2 ^ exponent) ||| type
  writable := BitVec.ofNat 32 (2 ^ bits - 2 ^ exponent)

/-- The registers. -/
def registers : Decoder → List Register
  | unimplemented => [⟨0, 0⟩]
  | io bits exponent block => [register 0b1 bits exponent block]
  | memory16 bits exponent block prefetchable =>
    [register (typeBits 0b010 prefetchable) bits exponent block]
  | memory32 exponent block prefetchable =>
    [register (typeBits 0b000 prefetchable) 32 exponent block]
  | memory64 exponent block prefetchable =>
    [register (typeBits 0b100 prefetchable) 64 exponent block,
      ⟨BitVec.ofNat 32 (block * 2 ^ exponent / 2 ^ 32),
        BitVec.ofNat 32 ((2 ^ 64 - 2 ^ exponent) / 2 ^ 32)⟩]

/-- What is to be recorded: memory, its address and its size, and an io
port, the same. The second of a pair is empty. -/
def expected : Decoder → List (ℕ × ℕ × ℕ × ℕ)
  | unimplemented => [(0, 0, 0, 0)]
  | io _ exponent block => [(0, 0, block * 2 ^ exponent, 2 ^ exponent)]
  | memory16 _ exponent block _ => [(block * 2 ^ exponent, 2 ^ exponent, 0, 0)]
  | memory32 exponent block _ => [(block * 2 ^ exponent, 2 ^ exponent, 0, 0)]
  | memory64 exponent block _ => [(block * 2 ^ exponent, 2 ^ exponent, 0, 0), (0, 0, 0, 0)]

/-- **What is sized**: an io port that a word tells, with its size, memory
of 16 bits that are as many, and a pair whose second register has all the
ones that its size leaves. -/
def Sized : Decoder → Prop
  | unimplemented => False
  | io _ exponent block => exponent < 16 ∧ block * 2 ^ exponent < 2 ^ 16
  | memory16 _ exponent block _ => exponent ≤ 16 ∧ block * 2 ^ exponent < 2 ^ 16
  | memory32 _ _ _ => True
  | memory64 exponent block _ =>
    block * 2 ^ exponent / 2 ^ 32 = (2 ^ 64 - 2 ^ exponent) / 2 ^ 32

end Decoder

/-! ## Bits -/

variable {least bits exponent block k : ℕ}

/-- The bits that can be written are those from the size on. -/
theorem testBit_mask (hle : exponent ≤ bits) :
    (2 ^ bits - 2 ^ exponent).testBit k = (decide (exponent ≤ k) && decide (k < bits)) := by
  have hsplit : 2 ^ bits - 2 ^ exponent = 2 ^ exponent * (2 ^ (bits - exponent) - 1) := by
    rw [Nat.mul_sub_one, ← Nat.pow_add, Nat.add_sub_cancel' hle]
  rw [hsplit, Nat.testBit_two_pow_mul, Nat.testBit_two_pow_sub_one]
  by_cases hk : exponent ≤ k
  · have hiff : k - exponent < bits - exponent ↔ k < bits := by omega
    simp only [hk, decide_true, Bool.true_and, hiff]
  · simp only [ge_iff_le, hk, decide_false, Bool.false_and]

/-- So are those of an address. -/
theorem testBit_address (hblock : block < 2 ^ (bits - exponent))
    (htrue : (block * 2 ^ exponent).testBit k = true) : exponent ≤ k ∧ k < bits := by
  rw [Nat.testBit_mul_two_pow, Bool.and_eq_true, decide_eq_true_eq] at htrue
  refine ⟨htrue.1, ?_⟩
  by_contra hk
  have hzero := Nat.testBit_lt_two_pow (x := block) (i := k - exponent)
    (Nat.lt_of_lt_of_le hblock (Nat.pow_le_pow_right (by decide) (by omega)))
  rw [hzero] at htrue
  exact absurd htrue.2 (by decide)

theorem bit_kept : ∀ address type kept : Bool, (type && kept) = false →
    ((address || type) && kept) = (address && kept) := by
  decide

theorem bit_ones : ∀ address type writable kept : Bool, (type && kept) = false →
    (address && !writable) = false →
    (((address || type) && !writable || writable) && kept) = (writable && kept) := by
  decide

section

variable {address type writable kept : BitVec 32}

/-- **What is kept of a register** that has an address and a type, of bits
that the type has none of: its address, -/
theorem or_and_eq (htype : type &&& kept = 0#32) : (address ||| type) &&& kept = address &&& kept := by
  ext j hj
  have htype' : (type[j] && kept[j]) = false := by
    rw [← BitVec.getElem_and, htype]
    exact BitVec.getElem_zero hj
  rw [BitVec.getElem_and, BitVec.getElem_or, BitVec.getElem_and, bit_kept _ _ _ htype']

/-- and with ones written to it, the bits that can be. -/
theorem ones_and_eq (htype : type &&& kept = 0#32) (haddress : address &&& ~~~writable = 0#32) :
    ((address ||| type) &&& ~~~writable ||| writable) &&& kept = writable &&& kept := by
  ext j hj
  have htype' : (type[j] && kept[j]) = false := by
    rw [← BitVec.getElem_and, htype]
    exact BitVec.getElem_zero hj
  have haddress' : (address[j] && !writable[j]) = false := by
    rw [← BitVec.getElem_not, ← BitVec.getElem_and, haddress]
    exact BitVec.getElem_zero hj
  rw [BitVec.getElem_and, BitVec.getElem_or, BitVec.getElem_and, BitVec.getElem_or,
    BitVec.getElem_not, BitVec.getElem_and, bit_ones _ _ _ _ htype' haddress']

end

/-- An address has no bits but those that can be written. -/
theorem address_and_not (hle : exponent ≤ bits) (hblock : block < 2 ^ (bits - exponent)) :
    BitVec.ofNat 32 (block * 2 ^ exponent) &&& ~~~BitVec.ofNat 32 (2 ^ bits - 2 ^ exponent)
      = 0#32 := by
  ext j hj
  rw [BitVec.getElem_and, BitVec.getElem_not, BitVec.getElem_zero, ← BitVec.getLsbD_eq_getElem,
    ← BitVec.getLsbD_eq_getElem, BitVec.getLsbD_ofNat, BitVec.getLsbD_ofNat, testBit_mask hle]
  cases htrue : (block * 2 ^ exponent).testBit j with
  | false => rw [Bool.and_false, Bool.false_and]
  | true =>
    obtain ⟨hexponent, hbits⟩ := testBit_address hblock htrue
    simp only [hj, hexponent, hbits, decide_true, Bool.and_self, Bool.not_true, Bool.and_false]

/-! ## Numbers -/

/-- **The bits of a number between two** are what it has of the upper one,
if it is a multiple of the lower. -/
theorem toNat_and_mask {n lower upper : ℕ} (hle : lower ≤ upper) (hupper : upper ≤ 32)
    (hn : 2 ^ lower ∣ n) :
    (BitVec.ofNat 32 n &&& BitVec.ofNat 32 (2 ^ upper - 2 ^ lower)).toNat = n % 2 ^ upper := by
  obtain ⟨m, rfl⟩ := hn
  refine Nat.eq_of_testBit_eq fun k => ?_
  rw [BitVec.toNat_and, Nat.testBit_and, BitVec.testBit_toNat, BitVec.testBit_toNat,
    BitVec.getLsbD_ofNat, BitVec.getLsbD_ofNat, testBit_mask hle, Nat.testBit_mod_two_pow,
    Nat.testBit_two_pow_mul]
  by_cases hk : k < upper
  · have hlt : k < 32 := by omega
    by_cases hlower : lower ≤ k
    · simp only [hk, hlt, hlower, decide_true, Bool.true_and, Bool.and_true]
    · simp only [hk, hlower, decide_false, Bool.false_and, Bool.and_false]
  · simp only [hk, decide_false, Bool.and_false, Bool.false_and]

/-- A word above another, as a number. -/
theorem toNat_or_shiftLeft (low high : BitVec 32) :
    (low.setWidth 64 ||| high.setWidth 64 <<< 32).toNat = high.toNat * 2 ^ 32 + low.toNat := by
  have hlow := low.isLt
  have hhigh := high.isLt
  rw [BitVec.toNat_or, BitVec.toNat_shiftLeft, BitVec.toNat_setWidth, BitVec.toNat_setWidth,
    Nat.mod_eq_of_lt (by omega : low.toNat < 2 ^ 64),
    Nat.mod_eq_of_lt (by omega : high.toNat < 2 ^ 64), Nat.shiftLeft_eq, Nat.mod_eq_of_lt (by omega),
    Nat.or_comm, ← Nat.shiftLeft_eq, ← Nat.shiftLeft_add_eq_or_of_lt hlow, Nat.shiftLeft_eq]

/-- **A size** is what the bits that are read, below the ones above them,
are short of all. -/
theorem toNat_size (low high : BitVec 32) :
    (~~~(low.setWidth 64 ||| high.setWidth 64 <<< 32) + 1).toNat
      = (2 ^ 64 - (high.toNat * 2 ^ 32 + low.toNat)) % 2 ^ 64 := by
  refine (congrArg BitVec.toNat (BitVec.neg_eq_not_add _).symm).trans ?_
  rw [BitVec.toNat_neg, toNat_or_shiftLeft]

/-- Below 32 ones. -/
theorem toNat_size_ones (low : BitVec 32) :
    (~~~(low.setWidth 64 ||| 0xffffffff00000000#64) + 1).toNat = 2 ^ 32 - low.toNat := by
  have hsize := toNat_size low 0xffffffff#32
  have hlow := low.isLt
  have hones : (0xffffffff#32).toNat = 2 ^ 32 - 1 := rfl
  rw [hones] at hsize
  refine hsize.trans ?_
  omega

/-- Below 48 ones, of a number of 16 bits. -/
theorem toNat_size_ones16 {low : BitVec 32} (hlow : low.toNat < 2 ^ 16) :
    (~~~(low.setWidth 64 ||| 0xffffffffffff0000#64) + 1).toNat = 2 ^ 16 - low.toNat := by
  have hsplit : low.setWidth 64 ||| 0xffffffffffff0000#64
      = (low ||| 0xffff0000#32).setWidth 64 ||| 0xffffffff00000000#64 := by
    have hsetWidth : (low ||| 0xffff0000#32).setWidth 64
        = low.setWidth 64 ||| 0xffff0000#64 := BitVec.setWidth_or
    rw [hsetWidth, BitVec.or_assoc]
    rfl
  have hor : (low ||| 0xffff0000#32).toNat = 0xffff0000 + low.toNat := by
    have hshift : (0xffff0000#32).toNat = 0xffff <<< 16 := rfl
    rw [BitVec.toNat_or, hshift, Nat.or_comm, ← Nat.shiftLeft_add_eq_or_of_lt hlow]
    rfl
  rw [hsplit, toNat_size_ones, hor]
  omega

end Uberos.Pci
