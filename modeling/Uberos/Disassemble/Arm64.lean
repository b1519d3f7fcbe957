import Mathlib.Algebra.Group.Nat.Defs
import Uberos.Library.Words
/-!
# The disassembler of arm64

`disassemble::arm64::read` of `common/disassemble/arm64.cpp`, with `bits` and
`sign_extend` of `common/stdlib.hpp`. A shift of an `int` by its width or more
is undefined, and so is then all that `read` gives.
-/

namespace Uberos

open Library

namespace Disassemble

/-- `bits(data, start, end)` -/
def bits (data : BitVec 32) (start last : ℕ) : BitVec 32 :=
  (data &&& ((1#32 <<< (last - start + 1)) - 1#32) <<< start) >>> start

/-- `1<<bits`, of an `int`. -/
def shiftOne (bits : ℕ) : Option (BitVec 32) := if bits < 32 then some (1#32 <<< bits) else none

/-- `sign_extend(number, numbits)`, of a `U64`. What is an `int` is extended
with its sign. -/
def signExtend (number : BitVec 64) (numbits : ℕ) : Option (BitVec 64) := do
  let sign ← shiftOne (numbits - 1)
  if number &&& sign.signExtend 64 ≠ 0#64 then do
    let above ← shiftOne numbits
    return number ||| (~~~(above - 1#32)).signExtend 64
  else return number

/-- `InstructionGroup` -/
inductive InstructionGroup
  | unknown
  | reserved
  | dataProcessing
  | branchAndSystem
  | loadsStores
  | registers
  | floatingPointing
  deriving DecidableEq, Repr

/-- `InstructionType`, of which these are given. -/
inductive InstructionType
  | unknown
  | adr
  | adrp
  | udf
  | ld1
  | ld1r
  | ld2
  | ld2r
  | ld3
  | ld3r
  | ld4
  | ld4r
  | st1
  | st2
  | st3
  | st4
  deriving DecidableEq, Repr

/-- `Instruction` -/
structure Instruction where
  group : InstructionGroup := .unknown
  type : InstructionType := .unknown
  opcode : BitVec 32 := 0
  rd : BitVec 8 := ~~~0
  imm : BitVec 64 := 0
  deriving DecidableEq

/-- The types that follow `ld1` and `st1`. -/
def loads : List InstructionType := [.ld1, .ld1r, .ld2, .ld2r, .ld3, .ld3r, .ld4, .ld4r]
def stores : List InstructionType := [.st1, .st2, .st3, .st4]

/-- `InstructionType::st1 - 1 + selem` -/
def storeOf (selem : ℕ) : InstructionType := stores.getD (selem - 1) .unknown

/-- `InstructionType::ld1 - 1 + (selem*2 - 1)` -/
def loadOf (selem : ℕ) : InstructionType := loads.getD (selem * 2 - 2) .unknown

/-- `InstructionType::ld1r - 1 + (selem*2 - 1)` -/
def replicateOf (selem : ℕ) : InstructionType := loads.getD (selem * 2 - 1) .unknown

/-- The data processing instructions with an immediate: of these only the
ones that are relative to `pc` are read. -/
def readImmediate (data : BitVec 32) (pc : BitVec 64) (instruction : Instruction) :
    Option Instruction :=
  let op0 := bits data 23 25
  if op0 >>> 1 = 0#32 then
    let op := bits data 31 31
    let immlo := bits data 29 30
    let immhi := bits data 5 23
    let rd := bits data 0 4
    if rd.toNat ≥ 32 then some instruction
    else if op = 0#32 then do
      let imm ← signExtend ((immhi <<< 2 ||| immlo).setWidth 64) 21
      some { instruction with type := .adr, rd := rd.setWidth 8, imm := imm + pc }
    else do
      let imm ← signExtend (((immhi <<< 2 ||| immlo) <<< 12).setWidth 64) 32
      some { instruction with
        type := .adrp
        rd := rd.setWidth 8
        imm := imm + (pc &&& (~~~0xfff#32).signExtend 64) }
  else some instruction

/-- The loads and stores. The first of the branches looks for its opcode in
all of `data`; those after the second give nothing. -/
def readLoadsStores (data : BitVec 32) (instruction : Instruction) : Instruction :=
  let op0 := bits data 28 31
  let op1 := bits data 26 26
  let op2 := bits data 23 24
  let op3 := bits data 16 21
  if op0 &&& ~~~4#32 = 0#32 ∧ op1 = 1#32 ∧ (op2 = 0#32 ∨ op2 = 1#32) ∧
      op3 &&& ~~~0x1f#32 = 0#32 then
    let l := bits data 22 22
    let typeOf (selem : ℕ) := if l = 0#32 then storeOf selem else loadOf selem
    match data.toNat with
    | 0x0 => { instruction with type := typeOf 4 }
    | 0x2 => { instruction with type := typeOf 1 }
    | 0x4 => { instruction with type := typeOf 3 }
    | 0x6 => { instruction with type := typeOf 1 }
    | 0x7 => { instruction with type := typeOf 1 }
    | 0x8 => { instruction with type := typeOf 2 }
    | 0xa => { instruction with type := typeOf 1 }
    | _ => instruction
  else if op0 &&& ~~~4#32 = 0#32 ∧ op1 = 1#32 ∧ (op2 = 2#32 ∨ op2 = 3#32) then
    let l := bits data 22 22
    let r := bits data 21 21
    let opcode := bits data 13 15
    let scale := opcode >>> 1
    let selem := (((opcode &&& 1#32) <<< 1 ||| r) + 1#32).toNat
    if scale = 3#32 then { instruction with type := replicateOf selem }
    else if l = 0#32 then { instruction with type := storeOf selem }
    else { instruction with type := loadOf selem }
  else instruction

/-- **`read(data, pc)`.** -/
def read (data : BitVec 32) (pc : BitVec 64) : Option Instruction :=
  let opcode := bits data 25 28
  let instruction : Instruction := { opcode := opcode }
  if opcode = 0b0000#32 then
    let op1 := bits data 16 24
    if op1 ≠ 0#32 then some instruction
    else some { instruction with
      group := .reserved
      type := .udf
      imm := (bits data 0 15).setWidth 64 }
  else if opcode = 0b0001#32 then some instruction
  else if opcode = 0b0010#32 then some instruction
  else if opcode = 0b0011#32 then some instruction
  else if opcode &&& 0b1110#32 = 0b1000#32 then
    readImmediate data pc { instruction with group := .dataProcessing }
  else if opcode &&& 0b1110#32 = 0b1010#32 then
    some { instruction with group := .branchAndSystem }
  else if opcode &&& 0b0101#32 = 0b0100#32 then
    some (readLoadsStores data { instruction with group := .loadsStores })
  else if opcode &&& 0b0111#32 = 0b0101#32 then
    some { instruction with group := .registers }
  else if opcode &&& 0b0111#32 = 0b0111#32 then
    some { instruction with group := .floatingPointing }
  else some instruction

/-! ## What it is for -/

/-- The word is an ADR or an ADRP, -/
def IsRelative (data : BitVec 32) : Prop := data.extractLsb' 24 5 = 0b10000#5

/-- and it is an ADRP. -/
def IsPage (data : BitVec 32) : Prop := data.getLsbD 31 = true

/-- `immhi:immlo` -/
def immediate (data : BitVec 32) : BitVec 21 := data.extractLsb' 5 19 ++ data.extractLsb' 29 2

instance (data : BitVec 32) : Decidable (IsRelative data) := inferInstanceAs (Decidable (_ = _))

instance (data : BitVec 32) : Decidable (IsPage data) := inferInstanceAs (Decidable (_ = _))

/-- The address that is meant. -/
def target (data : BitVec 32) (pc : BitVec 64) : BitVec 64 :=
  if IsPage data then (pc &&& ~~~0xfff#64) + (immediate data).signExtend 64 <<< 12
  else pc + (immediate data).signExtend 64

/-- **The target is read.** -/
def Reads (data : BitVec 32) (pc : BitVec 64) : Prop :=
  ∃ instruction, read data pc = some instruction ∧ instruction.imm = target data pc

/-- **A page is ahead, by less than 2 GiB.** -/
def PageAhead (data : BitVec 32) : Prop := IsPage data → (immediate data).toNat < 2 ^ 19

variable {data : BitVec 32} {pc : BitVec 64} {start last k : ℕ}

/-! ## The fields -/

/-- What `bits` cuts out. -/
theorem toNat_bits (hle : start ≤ last) (hlast : last < 32) (hpart : last - start < 31) :
    (bits data start last).toNat = data.toNat / 2 ^ start % 2 ^ (last - start + 1) := by
  have hpos : 1 < 2 ^ (last - start + 1) := Nat.one_lt_two_pow (Nat.succ_ne_zero _)
  have hlt : 2 ^ (last - start + 1) < 2 ^ 32 := Nat.pow_lt_pow_right (by decide) (by omega)
  have hmask : (1#32 <<< (last - start + 1)) - 1#32 =
      BitVec.ofNat 32 (2 ^ (last - start + 1) - 1) := by
    refine BitVec.eq_of_toNat_eq ?_
    rw [BitVec.toNat_sub, BitVec.toNat_shiftLeft, BitVec.toNat_ofNat, BitVec.toNat_ofNat,
      Nat.shiftLeft_eq, Nat.one_mod_eq_one.2 (by decide), Nat.one_mul, Nat.mod_eq_of_lt hlt]
    rw [Nat.mod_eq_of_lt (by omega : 2 ^ (last - start + 1) - 1 < 2 ^ 32)]
    omega
  have hfield := toNat_ushiftRight_and data start (by omega : last - start + 1 ≤ 32)
  have hroom : (((data >>> start) &&& BitVec.ofNat 32 (2 ^ (last - start + 1) - 1)) <<< start).toNat
      = data.toNat / 2 ^ start % 2 ^ (last - start + 1) * 2 ^ start := by
    rw [toNat_shiftLeft_of_lt (n := last - start + 1) ?_ (by omega), hfield]
    rw [hfield]
    exact Nat.mod_lt _ (by omega)
  rw [bits, hmask, and_shiftLeft, BitVec.toNat_ushiftRight, hroom, Nat.shiftRight_eq_div_pow,
    Nat.mul_div_cancel _ (Nat.two_pow_pos start)]

/-- A field of a word that is a number. -/
theorem bits_eq {n : ℕ} (hle : start ≤ last) (hlast : last < 32) (hpart : last - start < 31)
    (h : data.toNat / 2 ^ start % 2 ^ (last - start + 1) = n) :
    bits data start last = BitVec.ofNat 32 n := by
  refine BitVec.eq_of_toNat_eq ?_
  have hlt := (bits data start last).isLt
  rw [toNat_bits hle hlast hpart, h] at hlt
  rw [toNat_bits hle hlast hpart, h, BitVec.toNat_ofNat, Nat.mod_eq_of_lt hlt]

theorem isRelative_iff : IsRelative data ↔ data.toNat / 2 ^ 24 % 2 ^ 5 = 16 := by
  rw [IsRelative, ← BitVec.toNat_inj, BitVec.extractLsb'_toNat, Nat.shiftRight_eq_div_pow]
  rfl

theorem isPage_iff : IsPage data ↔ data.toNat / 2 ^ 31 % 2 = 1 := by
  rw [IsPage, BitVec.getLsbD, Nat.testBit_eq_decide_div_mod_eq, decide_eq_true_eq]

/-- The offset as it is put together. -/
theorem immediate_eq (data : BitVec 32) :
    bits data 5 23 <<< 2 ||| bits data 29 30 = (immediate data).setWidth 32 := by
  have hhi : (bits data 5 23).toNat = data.toNat / 2 ^ 5 % 2 ^ 19 :=
    toNat_bits (by decide) (by decide) (by decide)
  have hlo : (bits data 29 30).toNat = data.toNat / 2 ^ 29 % 2 ^ 2 :=
    toNat_bits (by decide) (by decide) (by decide)
  have himmediate : (immediate data).toNat =
      data.toNat / 2 ^ 5 % 2 ^ 19 * 2 ^ 2 + data.toNat / 2 ^ 29 % 2 ^ 2 := by
    rw [immediate, BitVec.toNat_append, BitVec.extractLsb'_toNat, BitVec.extractLsb'_toNat,
      Nat.shiftRight_eq_div_pow, Nat.shiftRight_eq_div_pow,
      ← Nat.shiftLeft_add_eq_or_of_lt (Nat.mod_lt _ (by decide)), Nat.shiftLeft_eq]
  have hwidth : ((immediate data).setWidth 32).toNat = (immediate data).toNat := by
    rw [BitVec.toNat_setWidth, Nat.mod_eq_of_lt (Nat.lt_trans (immediate data).isLt (by decide))]
  refine BitVec.eq_of_toNat_eq ?_
  have hwhole : (bits data 5 23 <<< 2).toNat = data.toNat / 2 ^ 5 % 2 ^ 19 * 2 ^ 2 := by
    rw [toNat_shiftLeft_of_lt (n := 19) ?_ (by decide), hhi]
    rw [hhi]
    exact Nat.mod_lt _ (by decide)
  have hlow : (bits data 29 30).toNat < 2 ^ 2 := by
    rw [hlo]
    exact Nat.mod_lt _ (by decide)
  rw [BitVec.or_comm, toNat_or_of_dvd hlow (hwhole ▸ Nat.dvd_mul_left _ _), hwhole, hlo, hwidth,
    himmediate, Nat.add_comm]

/-! ## The extensions -/

/-- The sign of an ADR is its bit 20. -/
theorem signExtend_offset (v : BitVec 21) :
    signExtend (v.setWidth 64) 21 = some (v.signExtend 64) := by
  have hsign : (1#32 <<< 20).signExtend 64 = BitVec.twoPow 64 20 := by decide
  have habove : (~~~((1#32 <<< 21) - 1#32)).signExtend 64 = BitVec.ofNat 64 (2 ^ 64 - 2 ^ 21) := by
    decide
  have hbit : (v.setWidth 64).getLsbD 20 = v.msb := by
    rw [BitVec.getLsbD_setWidth, BitVec.msb_eq_getLsbD_last]
    rfl
  have hgoes : signExtend (v.setWidth 64) 21 =
      if v.setWidth 64 &&& (1#32 <<< 20).signExtend 64 ≠ 0#64 then
        some (v.setWidth 64 ||| (~~~((1#32 <<< 21) - 1#32)).signExtend 64)
      else some (v.setWidth 64) := rfl
  rw [hgoes, hsign, habove, BitVec.and_twoPow, hbit]
  cases hmsb : v.msb with
  | false =>
    rw [if_neg Bool.false_ne_true, if_neg (fun h => h rfl),
      BitVec.signExtend_eq_setWidth_of_msb_false hmsb]
  | true =>
    have hv : (v.setWidth 64).toNat = v.toNat := by
      rw [BitVec.toNat_setWidth, Nat.mod_eq_of_lt (Nat.lt_trans v.isLt (by decide))]
    have hlt : (v.setWidth 64).toNat < 2 ^ 21 := hv ▸ v.isLt
    have hmask : (BitVec.ofNat 64 (2 ^ 64 - 2 ^ 21)).toNat = 2 ^ 64 - 2 ^ 21 := by decide
    rw [if_pos rfl, if_pos (by decide)]
    refine congrArg some (BitVec.eq_of_toNat_eq ?_)
    rw [toNat_or_of_dvd hlt (hmask ▸ by decide), hv, hmask, BitVec.toNat_signExtend, hmsb,
      if_pos rfl, hv]

/-- Of an ADRP bit 20 is shifted out, and bit 19 is the sign: to extend it is
undefined. -/
theorem signExtend_page (v : BitVec 21) :
    signExtend ((v.setWidth 32 <<< 12).setWidth 64) 32 =
      if v.getLsbD 19 then none else some ((v.setWidth 32 <<< 12).setWidth 64) := by
  have hbit : (v.setWidth 32 <<< 12).setWidth 64 &&& (1#32 <<< 31).signExtend 64 =
      (v.setWidth 32 <<< 12).setWidth 64 &&& BitVec.twoPow 64 31 := by
    refine BitVec.eq_of_getLsbD_eq fun i hi => ?_
    rw [BitVec.getLsbD_and, BitVec.getLsbD_and]
    rcases Nat.lt_or_ge i 32 with hlow | hhigh
    · have hpow : 1#32 <<< 31 = BitVec.twoPow 32 31 := rfl
      rw [hpow, BitVec.getLsbD_signExtend, BitVec.getLsbD_twoPow, BitVec.getLsbD_twoPow,
        if_pos hlow, decide_eq_true hi]
      rfl
    · have hzero : ((v.setWidth 32 <<< 12).setWidth 64).getLsbD i = false := by
        rw [BitVec.getLsbD_setWidth, BitVec.getLsbD_of_ge _ _ hhigh, Bool.and_false]
      rw [hzero, Bool.false_and, Bool.false_and]
  have hsign : ((v.setWidth 32 <<< 12).setWidth 64).getLsbD 31 = v.getLsbD 19 := by
    simp
  have hgoes : signExtend ((v.setWidth 32 <<< 12).setWidth 64) 32 =
      if (v.setWidth 32 <<< 12).setWidth 64 &&& (1#32 <<< 31).signExtend 64 ≠ 0#64 then none
      else some ((v.setWidth 32 <<< 12).setWidth 64) := rfl
  rw [hgoes, hbit, BitVec.and_twoPow, hsign]
  cases v.getLsbD 19 with
  | false => rw [if_neg Bool.false_ne_true, if_neg Bool.false_ne_true, if_neg fun h => h rfl]
  | true => rw [if_pos rfl, if_pos rfl, if_pos (by decide)]

/-! ## What is read -/

/-- An ADR or ADRP is read as one. -/
theorem read_relative (h : IsRelative data) (pc : BitVec 64) :
    read data pc = readImmediate data pc { opcode := 0b1000#32, group := .dataProcessing } := by
  rw [isRelative_iff] at h
  have hopcode : bits data 25 28 = 0b1000#32 :=
    bits_eq (by decide) (by decide) (by decide) (by omega)
  rw [read, hopcode]
  rfl

/-- It has a register, and is one of the two by its bit 31. -/
theorem readImmediate_relative (h : IsRelative data) (pc : BitVec 64) (instruction : Instruction) :
    readImmediate data pc instruction =
      if IsPage data then
        (signExtend (((immediate data).setWidth 32 <<< 12).setWidth 64) 32).bind fun imm =>
          some { instruction with
            type := .adrp
            rd := (bits data 0 4).setWidth 8
            imm := imm + (pc &&& (~~~0xfff#32).signExtend 64) }
      else
        (signExtend (((immediate data).setWidth 32).setWidth 64) 21).bind fun imm =>
          some { instruction with
            type := .adr
            rd := (bits data 0 4).setWidth 8
            imm := imm + pc } := by
  have hop0 : bits data 23 25 >>> 1 = 0#32 := by
    rw [isRelative_iff] at h
    refine BitVec.eq_of_toNat_eq ?_
    rw [BitVec.toNat_ushiftRight, toNat_bits (by decide) (by decide) (by decide),
      Nat.shiftRight_eq_div_pow]
    change data.toNat / 2 ^ 23 % 2 ^ 3 / 2 ^ 1 = 0
    omega
  have hrd : ¬(bits data 0 4).toNat ≥ 32 := by
    rw [toNat_bits (by decide) (by decide) (by decide)]
    exact Nat.not_le_of_lt (Nat.mod_lt _ (by decide))
  have hop : bits data 31 31 = 0#32 ↔ ¬IsPage data := by
    rw [isPage_iff, ← BitVec.toNat_inj, toNat_bits (by decide) (by decide) (by decide)]
    change data.toNat / 2 ^ 31 % 2 ^ 1 = 0 ↔ _
    omega
  rw [readImmediate]
  dsimp only
  rw [if_pos hop0, if_neg hrd, immediate_eq]
  by_cases hpage : IsPage data
  · rw [if_neg (mt hop.1 fun hnot => hnot hpage), if_pos hpage]
    rfl
  · rw [if_pos (hop.2 hpage), if_neg hpage]
    rfl

/-- **An ADR's target is read.** -/
theorem reads_offset (h : IsRelative data) (hpage : ¬IsPage data) (pc : BitVec 64) :
    Reads data pc := by
  have hwiden : ((immediate data).setWidth 32).setWidth 64 = (immediate data).setWidth 64 := by
    refine BitVec.eq_of_toNat_eq ?_
    rw [BitVec.toNat_setWidth, BitVec.toNat_setWidth, BitVec.toNat_setWidth,
      Nat.mod_eq_of_lt (Nat.lt_trans (immediate data).isLt (by decide))]
  have hread := readImmediate_relative h pc { opcode := 0b1000#32, group := .dataProcessing }
  rw [if_neg hpage, hwiden, signExtend_offset] at hread
  refine ⟨_, (read_relative h pc).trans hread, ?_⟩
  rw [target, if_neg hpage, BitVec.add_comm]

theorem getLsbD_immediate {i : ℕ} :
    (immediate data).getLsbD i = true ↔ (immediate data).toNat / 2 ^ i % 2 = 1 := by
  rw [BitVec.getLsbD, Nat.testBit_eq_decide_div_mod_eq, decide_eq_true_eq]

/-- **An ADRP's is where its bits 19 and 20 are clear**: bit 20 is lost, and
bit 19 is taken for it. -/
theorem reads_page_iff (h : IsRelative data) (hpage : IsPage data) (pc : BitVec 64) :
    Reads data pc ↔ (immediate data).toNat < 2 ^ 19 := by
  have hlt := (immediate data).isLt
  have hmask : (~~~0xfff#32).signExtend 64 = ~~~0xfff#64 := by decide
  have hread := readImmediate_relative h pc { opcode := 0b1000#32, group := .dataProcessing }
  rw [if_pos hpage, signExtend_page] at hread
  rw [Reads, read_relative h, hread, target, if_pos hpage]
  by_cases hbit : (immediate data).getLsbD 19 = true
  · -- bit 19 is extended, which is undefined
    rw [if_pos hbit]
    rw [getLsbD_immediate] at hbit
    exact iff_of_false (fun ⟨_, hnone, _⟩ => Option.some_ne_none _ hnone.symm) (by omega)
  · rw [if_neg hbit, hmask]
    rw [getLsbD_immediate] at hbit
    have hshift : (((immediate data).setWidth 32 <<< 12).setWidth 64).toNat =
        (immediate data).toNat * 2 ^ 12 % 2 ^ 32 := by
      rw [BitVec.toNat_setWidth, BitVec.toNat_shiftLeft, BitVec.toNat_setWidth, Nat.shiftLeft_eq,
        Nat.mod_eq_of_lt (Nat.lt_trans hlt (by decide)),
        Nat.mod_eq_of_lt (Nat.lt_trans (Nat.mod_lt _ (Nat.two_pow_pos 32)) (by decide))]
    have hmeant : ((immediate data).signExtend 64 <<< 12).toNat = ((immediate data).toNat +
        if (immediate data).msb then 2 ^ 64 - 2 ^ 21 else 0) * 2 ^ 12 % 2 ^ 64 := by
      rw [BitVec.toNat_shiftLeft, BitVec.toNat_signExtend, BitVec.toNat_setWidth, Nat.shiftLeft_eq,
        Nat.mod_eq_of_lt (Nat.lt_trans hlt (by decide))]
    have hmsb : (immediate data).msb = true ↔ 2 ^ 20 ≤ (immediate data).toNat := by
      rw [BitVec.msb_eq_decide, decide_eq_true_eq]
    constructor
    · rintro ⟨instruction, heq, himm⟩
      obtain rfl := Option.some.inj heq
      have hsame := congrArg BitVec.toNat
        (BitVec.add_left_inj _ |>.1 (himm.trans (BitVec.add_comm _ _)))
      rw [hshift, hmeant] at hsame
      split at hsame
      · rename_i hsign
        rw [hmsb] at hsign
        omega
      · rename_i hsign
        rw [hmsb] at hsign
        omega
    · intro hless
      refine ⟨_, rfl, ?_⟩
      change ((immediate data).setWidth 32 <<< 12).setWidth 64 + _ = _
      have hsame : ((immediate data).setWidth 32 <<< 12).setWidth 64 =
          (immediate data).signExtend 64 <<< 12 := by
        refine BitVec.eq_of_toNat_eq ?_
        rw [hshift, hmeant, if_neg (mt hmsb.1 (by omega))]
        omega
      rw [hsame, BitVec.add_comm]

/-! ## The result -/

/-- **The target is read exactly of an ADR, and of an ADRP whose page is
ahead by less than 2 GiB.** -/
theorem reads_iff (data : BitVec 32) (pc : BitVec 64) (h : IsRelative data) :
    Reads data pc ↔ PageAhead data := by
  by_cases hpage : IsPage data
  · rw [reads_page_iff h hpage]
    exact ⟨fun hless _ => hless, fun hahead => hahead hpage⟩
  · exact iff_of_true (reads_offset h hpage pc) fun h => absurd h hpage

/-- The address of the instruction before this one, in the first register. -/
theorem reads_iff_before : IsRelative 0x10ffffe0#32 ∧
    (Reads 0x10ffffe0#32 0x80000#64 ↔ PageAhead 0x10ffffe0#32) :=
  ⟨by decide, reads_iff _ _ (by decide)⟩

/-- **The page before this one** is undefined, and that of 4 GiB before is this
one. -/
theorem not_reads_before : ¬Reads 0xf0ffffe0#32 0x80000#64 ∧ ¬Reads 0x90800000#32 0x80000#64 := by
  rw [reads_page_iff (by decide) (by decide), reads_page_iff (by decide) (by decide)]
  decide

end Disassemble

end Uberos
