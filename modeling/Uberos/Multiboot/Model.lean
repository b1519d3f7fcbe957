import Mathlib.Algebra.Group.Nat.Defs
import Uberos.Stdlib
import Uberos.Target
/-!
# What the boot loader hands over

`init_multiboot1` and `init_multiboot2` of
`kernel/arch/x86-ibm-bios/kernel.cpp`, over a memory of bytes. A pointer
is a word; what is read is logged with its place, so that it can be said
to be inside a map or not. Of the structures in `lib/multiboot` stand the
offsets of the fields that are read.
-/

namespace Uberos

open Library Library.Scan

namespace Multiboot

/-- Memory, by address. -/
abbrev Memory := ℕ → UInt8

/-- The number in so many bytes, the lowest first. -/
def Memory.number (m : Memory) (address : ℕ) : ℕ → ℕ
  | 0 => 0
  | bytes + 1 => (m address).toNat + 256 * m.number (address + 1) bytes

/-- What a read is part of. -/
inductive Part
  /-- `multiboot1_info`, or a tag. -/
  | info
  | commandLine
  /-- The entries of a memory map. -/
  | map
  deriving DecidableEq, Repr

/-- A read. -/
structure Read where
  part : Part
  address : ℕ
  bytes : ℕ
  deriving DecidableEq, Repr

/-- A program that reads memory. -/
abbrev Program := Scan Memory Read

/-- A `U32`. -/
def u32 (part : Part) (address : ℕ) : Program ℕ := .read (·.number address 4) ⟨part, address, 4⟩

/-- A `U64`. -/
def u64 (part : Part) (address : ℕ) : Program ℕ := .read (·.number address 8) ⟨part, address, 8⟩

/-- Where the kernel is. -/
structure Image where
  /-- `__start` -/
  start : ℕ
  /-- `__end` -/
  stop : ℕ
  /-- `memory::heap.address` -/
  heap : ℕ

/-- What is set at boot. -/
structure Boot where
  isSafemode : Bool := false
  heapSize : ℕ := 1 * 1024 * 1024
  totalMemory : ℕ := 0
  multiboot1 : ℕ := 0
  multiboot2_framebuffer : ℕ := 0
  deriving DecidableEq, Repr

variable (T : Target)

/-- A pointer, some bytes further on. -/
def advance (pointer bytes : ℕ) : ℕ := (pointer + bytes) % T.wordSize

/-- A `const char*`. -/
def text (pointer : ℕ) : Stdlib.Text Memory Read := fun i =>
  .read (· (advance T pointer i)) ⟨.commandLine, advance T pointer i, 1⟩

/-- `"safemode"` -/
def safemode : List UInt8 := [0x73, 0x61, 0x66, 0x65, 0x6d, 0x6f, 0x64, 0x65]

/-- `param == cmdline || param[-1] == ' '`. -/
def beginsWord (cmdline param : ℕ) : Program Bool :=
  if param = 0 then pure true else (fun c => decide (c = 0x20)) <$> text T cmdline (param - 1)

/-- What is done where `safemode` is found: it must be a word. -/
def checkWord (cmdline param : ℕ) (boot : Boot) : Program Boot := do
  let begins ← beginsWord T cmdline param
  if begins then do
    let next ← text T cmdline (param + 8)
    if next = 0x20 ∨ next = 0 then pure { boot with isSafemode := true } else pure boot
  else pure boot

/-- `init_commandline_parameter(cmdline)`. -/
def initCommandlineParameter (cmdline : ℕ) (boot : Boot) : Program Boot := do
  let param ← Stdlib.strstr (text T cmdline) (Stdlib.literal safemode)
  match param with
  | none => pure boot
  | some param => checkWord T cmdline param boot

/-- `addr + len`, of an entry of either map. -/
def regionEnd (addr len : ℕ) : ℕ := (addr + len) % 2 ^ 64

/-- The kernel lies in a region. -/
def Image.In (image : Image) (addr len : ℕ) : Prop :=
  addr ≤ image.start ∧ image.stop ≤ regionEnd addr len

instance (image : Image) (addr len : ℕ) : Decidable (image.In addr len) :=
  inferInstanceAs (Decidable (_ ∧ _))

/-- `(UPtr)(addr + len) - memory::heap.address`. -/
def heapSizeOf (image : Image) (addr len : ℕ) : ℕ :=
  (regionEnd addr len % T.wordSize + T.wordSize - image.heap) % T.wordSize

/-- `memory::totalMemory = maxAddress + 1`. -/
def withTotal (boot : Boot) (maxAddress : ℕ) : Boot :=
  { boot with totalMemory := (maxAddress + 1) % 2 ^ 64 }

/-- A turn of the loop over a memory map: `addr`, `len` and `type` of an
entry stand in it from `region` on, and the two maps differ in how the
loop is bounded and in how it goes on. -/
def mapTurn (image : Image) (region : ℕ) (within : ℕ → Program Bool) (next : ℕ → Program ℕ)
    (boot : Boot) : ℕ × ℕ → Program ((ℕ × ℕ) ⊕ Boot)
  | (entry, maxAddress) => do
    let isWithin ← within entry
    if isWithin then do
      let type ← u32 .map (entry + region + 16)
      if type ≠ 1 then do
        let entry ← next entry
        pure (.inl (entry, maxAddress))
      else do
        let addr ← u64 .map (entry + region)
        let len ← u64 .map (entry + region + 8)
        if image.In addr len then
          let boot := { boot with heapSize := heapSizeOf T image addr len }
          pure (.inr (withTotal boot (regionEnd addr len)))
        else do
          let entry ← next entry
          pure (.inl (entry, regionEnd addr len))
    else pure (.inr (withTotal boot maxAddress))

/-! ## multiboot1 -/

/-- `sizeof(multiboot1_memory_map_t)`. -/
def map1Bytes : ℕ := 24

/-- `mmap < mmap + multiboot->mmap_length`: what is added to a pointer is
scaled by the size of an entry. -/
def within1 (multiboot mmap : ℕ) : Program Bool :=
  (fun mmap_length => decide (mmap < advance T mmap (map1Bytes * mmap_length))) <$>
    u32 .info (multiboot + 44)

/-- `(size_t)mmap + sizeof(mmap->size) + mmap->size`. -/
def next1 (mmap : ℕ) : Program ℕ := (fun size => advance T mmap (4 + size)) <$> u32 .map mmap

/-- A turn of the loop over the map of `multiboot1`. -/
def map1Turn (image : Image) (multiboot : ℕ) (boot : Boot) :
    ℕ × ℕ → Program ((ℕ × ℕ) ⊕ Boot) :=
  mapTurn T image 4 (within1 T multiboot) (next1 T) boot

/-- `init_multiboot1(magic, multiboot)`. -/
def initMultiboot1 (image : Image) (magic multiboot : ℕ) (boot : Boot) : Program Boot :=
  if magic ≠ 0x2BADB002 then pure boot
  else do
    let boot := { boot with multiboot1 := multiboot }
    let flags ← u32 .info multiboot
    let boot ← if flags &&& 4 ≠ 0 then do
        let cmdline ← u32 .info (multiboot + 16)
        initCommandlineParameter T cmdline boot
      else pure boot
    let mmap_addr ← u32 .info (multiboot + 48)
    .loop (map1Turn T image multiboot boot) (mmap_addr, 0)

/-! ## multiboot2 -/

/-- `(void*)entry < (U8*)&info + info.size`. -/
def within2 (info entry : ℕ) : Program Bool :=
  (fun size => decide (entry < advance T info size)) <$> u32 .info (info + 4)

/-- `(U8*)entry + info.entry_size`. -/
def next2 (info entry : ℕ) : Program ℕ := advance T entry <$> u32 .info (info + 8)

/-- A turn of the loop over the map of a tag of `multiboot2`. -/
def map2Turn (image : Image) (info : ℕ) (boot : Boot) : ℕ × ℕ → Program ((ℕ × ℕ) ⊕ Boot) :=
  mapTurn T image 0 (within2 T info) (next2 T info) boot

/-- The body of the loop over the tags, by the type of a tag. -/
def tagBody (image : Image) (tag type : ℕ) (boot : Boot) : Program Boot :=
  match type with
  | 1 => initCommandlineParameter T (advance T tag 8) boot
  | 6 => .loop (map2Turn T image tag boot) (advance T tag 16, 0)
  | 8 => pure { boot with multiboot2_framebuffer := tag }
  | _ => pure boot

/-- `(tag->size + 7) & ~7`. -/
def tagBytes (size : ℕ) : ℕ := (size + 7) % 2 ^ 32 / 8 * 8

/-- A turn of the loop over the tags. -/
def tagTurn (image : Image) : ℕ × Boot → Program ((ℕ × Boot) ⊕ Boot)
  | (tag, boot) => do
    let type ← u32 .info tag
    if type = 0 then pure (.inr boot)
    else do
      let boot ← tagBody T image tag type boot
      let size ← u32 .info (tag + 4)
      pure (.inl (advance T tag (tagBytes size), boot))

/-- `init_multiboot2(magic, multiboot)`. -/
def initMultiboot2 (image : Image) (magic multiboot : ℕ) (boot : Boot) : Program Boot :=
  if magic ≠ 0x36D76289 then pure boot
  else if multiboot % 8 ≠ 0 then pure boot
  else .loop (tagTurn T image) (advance T multiboot 8, boot)

end Multiboot

end Uberos
