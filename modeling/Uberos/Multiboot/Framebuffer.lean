import Uberos.DriverApi.Mapped
import Uberos.Graphics2d.Accessed
/-!
# The framebuffer of the boot loader

`init_multiboot1` and `init_multiboot2` of
`drivers/x86/graphics/MultibootFramebuffer.cpp`: a description is checked and
its format found, memory is subscribed to, and the buffer is set up. The number
of bytes is the pitch times the width, of 32 bits.
-/

namespace Uberos

open Library

namespace Multiboot

/-- What both versions say of a framebuffer. -/
structure FramebufferCommon where
  framebufferAddr : BitVec 64
  framebufferPitch : BitVec 32
  framebufferWidth : BitVec 32
  framebufferHeight : BitVec 32
  framebufferBpp : BitVec 8
  framebufferType : BitVec 8
  deriving DecidableEq, Repr

/-- And of its colours. -/
structure FramebufferColours where
  framebufferRedFieldPosition : BitVec 8
  framebufferRedMaskSize : BitVec 8
  framebufferGreenFieldPosition : BitVec 8
  framebufferGreenMaskSize : BitVec 8
  framebufferBlueFieldPosition : BitVec 8
  framebufferBlueMaskSize : BitVec 8
  deriving DecidableEq, Repr

/-- `multiboot1_info`, of which the framebuffer is the end. -/
structure Multiboot1Info extends FramebufferCommon, FramebufferColours
  deriving DecidableEq, Repr

/-- `multiboot2_tag_framebuffer` -/
structure Multiboot2TagFramebuffer extends FramebufferColours where
  common : FramebufferCommon
  deriving DecidableEq, Repr

namespace FramebufferColours

variable (c : FramebufferColours)

/-- The sizes of the masks. -/
def masks (red green blue : BitVec 8) : Prop :=
  c.framebufferRedMaskSize = red ∧ c.framebufferGreenMaskSize = green ∧
    c.framebufferBlueMaskSize = blue

/-- The positions of the fields. -/
def fields (red green blue : BitVec 8) : Prop :=
  c.framebufferRedFieldPosition = red ∧ c.framebufferGreenFieldPosition = green ∧
    c.framebufferBlueFieldPosition = blue

instance (red green blue : BitVec 8) : Decidable (c.masks red green blue) :=
  inferInstanceAs (Decidable (_ ∧ _ ∧ _))

instance (red green blue : BitVec 8) : Decidable (c.fields red green blue) :=
  inferInstanceAs (Decidable (_ ∧ _ ∧ _))

/-- The `switch` over `framebuffer_bpp`. -/
def bufferFormat (framebufferBpp : BitVec 8) : Except String (BufferFormat × BufferFormatOrder) :=
  if framebufferBpp = 16 then
    if c.masks 5 6 5 ∧ c.fields 11 5 0 then .ok (.rgb565, .bgra)
    else if c.masks 5 6 5 ∧ c.fields 0 5 11 then .ok (.rgb565, .argb)
    else .error "unsupported 16bit framebuffer rgb configuration"
  else if framebufferBpp = 24 then
    if c.masks 8 8 8 ∧ c.fields 16 8 0 then .ok (.rgb8, .bgra)
    else if c.masks 8 8 8 ∧ c.fields 0 8 16 then .ok (.rgb8, .argb)
    else .error "unsupported 16bit framebuffer rgb configuration"
  else if framebufferBpp = 32 then
    if c.masks 8 8 8 ∧ c.fields 16 8 0 then .ok (.rgba8, .bgra)
    else if c.masks 8 8 8 ∧ c.fields 8 16 24 then .ok (.rgba8, .argb)
    else .error "unsupported 16bit framebuffer rgb configuration"
  else .error "unsupported 16bit framebuffer rgb configuration"

end FramebufferColours

namespace FramebufferCommon

variable (c : FramebufferCommon)

/-- `(UPtr)framebuffer_addr` -/
def start (T : Target) : ℕ := c.framebufferAddr.toNat % T.wordSize

/-- `framebuffer_pitch*framebuffer_width` -/
def byteCount : BitVec 32 := c.framebufferPitch * c.framebufferWidth

/-- The tests of the address and of the `framebuffer_type`, of which one that is
not named passes. -/
def check : Except String Unit :=
  if c.framebufferAddr = 0 then .error "no multiboot framebuffer was provided"
  else if c.framebufferType = 0 then
    .error "multiboot framebuffer is indexes, which is not supported "
  else if c.framebufferType = 2 then .error "no graphical multiboot framebuffer was provided"
  else .ok ()

end FramebufferCommon

/-- The variables of the driver, and the memory it is subscribed to. -/
structure MultibootFramebuffer where
  framebuffer : Graphics2d.Buffer
  defaultWidth : BitVec 32
  defaultHeight : BitVec 32
  defaultFormat : BufferFormat
  memory : DriverApi.MappedMemory

namespace MultibootFramebuffer

/-- Before it is started. -/
def new (memory : DriverApi.MappedMemory) : MultibootFramebuffer where
  framebuffer := ⟨.rgba8, .argb, 0, 0, 0, 0⟩
  defaultWidth := 0
  defaultHeight := 0
  defaultFormat := .grey8
  memory := memory

variable (T : Target) (env : DriverApi.Environment) (s : MultibootFramebuffer)

/-- What the two functions have in common, unless an assertion fails. -/
def init (common : FramebufferCommon) (colours : FramebufferColours) :
    Option (Except String Unit × MultibootFramebuffer) :=
  match common.check, colours.bufferFormat common.framebufferBpp with
  | .error message, _ => some (.error message, s)
  | .ok (), .error message => some (.error message, s)
  | .ok (), .ok (format, formatOrder) =>
    match s.memory.subscribe T env (common.start T) common.byteCount.toNat .writeCombining with
    | none => none
    | some (.error message, memory) => some (.error message, { s with memory := memory })
    | some (.ok address, memory) =>
      some (.ok (), {
        framebuffer := {
          format := format
          order := formatOrder
          address := address
          stride := common.framebufferPitch
          width := common.framebufferWidth
          height := common.framebufferHeight }
        defaultWidth := common.framebufferWidth
        defaultHeight := common.framebufferHeight
        defaultFormat := format
        memory := memory })

/-- **`init_multiboot1`.** -/
def initMultiboot1 (multiboot : Multiboot1Info) :
    Option (Except String Unit × MultibootFramebuffer) :=
  init T env s multiboot.toFramebufferCommon multiboot.toFramebufferColours

/-- **`init_multiboot2`.** -/
def initMultiboot2 (multiboot : Multiboot2TagFramebuffer) :
    Option (Except String Unit × MultibootFramebuffer) :=
  init T env s multiboot.common multiboot.toFramebufferColours

end MultibootFramebuffer

/-- A description, of either version. -/
inductive Description
  | multiboot1 (info : Multiboot1Info)
  | multiboot2 (tag : Multiboot2TagFramebuffer)

namespace Description

/-- What it says of the framebuffer. -/
def common : Description → FramebufferCommon
  | multiboot1 info => info.toFramebufferCommon
  | multiboot2 tag => tag.common

/-- And of its colours. -/
def colours : Description → FramebufferColours
  | multiboot1 info => info.toFramebufferColours
  | multiboot2 tag => tag.toFramebufferColours

/-- It is handed to the function of its version. -/
def init (T : Target) (env : DriverApi.Environment) (s : MultibootFramebuffer) :
    Description → Option (Except String Unit × MultibootFramebuffer)
  | multiboot1 info => s.initMultiboot1 T env info
  | multiboot2 tag => s.initMultiboot2 T env tag

end Description

/-! ## What it is for -/

/-- **The screen is covered**: the bytes subscribed to, from the buffer's address
on, are as many as the pitch times the width, and every byte that is accessed
is one of them. -/
structure Covered (c : FramebufferCommon) (b : Graphics2d.Buffer) : Prop where
  count : c.byteCount.toNat = c.framebufferPitch.toNat * c.framebufferWidth.toNat
  accesses : ∀ a, b.Accesses a → b.address ≤ a ∧ a < b.address + c.byteCount.toNat

/-- **The screen is no higher than wide**, and 32 bits hold its pitch times its
width. -/
def FramebufferCommon.Landscape (c : FramebufferCommon) : Prop :=
  (c.framebufferWidth = 0 ∨ c.framebufferHeight ≤ c.framebufferWidth) ∧
    c.framebufferPitch.toNat * c.framebufferWidth.toNat < 2 ^ 32

/-! ## A description that is accepted -/

variable {T : Target} {env : DriverApi.Environment} {s s' : MultibootFramebuffer}

/-- **The buffer is set up by the description**, at the address that the
subscription answers with. -/
theorem framebuffer_of_init {d : Description} (h : d.init T env s = some (.ok (), s')) :
    ∃ format order address, d.colours.bufferFormat d.common.framebufferBpp = .ok (format, order) ∧
      s'.framebuffer = ⟨format, order, address, d.common.framebufferPitch,
        d.common.framebufferWidth, d.common.framebufferHeight⟩ := by
  have hinit : s.init T env d.common d.colours = some (.ok (), s') := by
    cases d with
    | multiboot1 info => exact h
    | multiboot2 tag => exact h
  rw [MultibootFramebuffer.init] at hinit
  split at hinit
  · cases hinit
  · cases hinit
  · next format order _ hformat =>
    split at hinit
    · cases hinit
    · cases hinit
    · next address memory hsubscribe =>
      cases hinit
      exact ⟨format, order, address, hformat, rfl⟩

/-! ## The result -/

theorem toNat_byteCount_iff (c : FramebufferCommon) :
    c.byteCount.toNat = c.framebufferPitch.toNat * c.framebufferWidth.toNat ↔
      c.framebufferPitch.toNat * c.framebufferWidth.toNat < 2 ^ 32 := by
  have hlt := c.byteCount.isLt
  constructor
  · intro h
    omega
  · intro h
    rw [FramebufferCommon.byteCount, BitVec.toNat_mul, Nat.mod_eq_of_lt h]

/-- What is covered of a buffer that is set up by a description. -/
theorem covered_buffer_iff (c : FramebufferCommon) {format : BufferFormat}
    (order : BufferFormatOrder) (address : ℕ)
    (hpitch : c.framebufferWidth.toNat * format.size ≤ c.framebufferPitch.toNat) :
    Covered c ⟨format, order, address, c.framebufferPitch, c.framebufferWidth,
      c.framebufferHeight⟩ ↔ c.Landscape := by
  have hcount := toNat_byteCount_iff c
  have hrows (h : c.framebufferPitch.toNat * c.framebufferWidth.toNat < 2 ^ 32) :=
    Graphics2d.Buffer.accesses_square_iff
      (b := ⟨format, order, address, _, _, c.framebufferHeight⟩) hpitch h
  constructor
  · intro hcovered
    have hlt := hcount.1 hcovered.count
    have haccesses := hcovered.accesses
    rw [hcovered.count] at haccesses
    exact ⟨(hrows hlt).1 haccesses, hlt⟩
  · rintro ⟨hwide, hlt⟩
    refine ⟨hcount.2 hlt, ?_⟩
    rw [hcount.2 hlt]
    exact (hrows hlt).2 hwide

/-- **The screen is covered exactly where it is no higher than wide** and 32 bits
count what is subscribed to, for every description that is accepted. -/
theorem covered_iff (d : Description) (haccepted : d.init T env s = some (.ok (), s'))
    (hpitch : d.common.framebufferWidth.toNat * s'.framebuffer.format.size ≤
      d.common.framebufferPitch.toNat) :
    Covered d.common s'.framebuffer ↔ d.common.Landscape := by
  obtain ⟨format, order, address, -, hbuffer⟩ := framebuffer_of_init haccepted
  rw [hbuffer] at hpitch ⊢
  exact covered_buffer_iff d.common order address hpitch

/-- A description, of 16 bits a pixel, as the boot loader may give it. -/
def screen (width height : BitVec 32) : Description :=
  .multiboot2 {
    common := ⟨0xe0000000, 2 * width, width, height, 16, 1⟩
    toFramebufferColours := ⟨11, 5, 5, 6, 0, 5⟩ }

/-- What is accepted leaves a state. -/
theorem exists_of_isOk (result : Option (Except String Unit × MultibootFramebuffer))
    (h : (result.any fun r => r.1.isOk) = true) : ∃ s', result = some (.ok (), s') := by
  cases result with
  | none => cases h
  | some answer =>
    obtain ⟨message | ok, s'⟩ := answer
    · cases h
    · exact ⟨s', rfl⟩

theorem format_screen {width height : BitVec 32}
    (h : (screen width height).init T env s = some (.ok (), s')) :
    s'.framebuffer.format = .rgb565 := by
  obtain ⟨format, order, address, hformat, hbuffer⟩ := framebuffer_of_init h
  have hscreen : (screen width height).colours.bufferFormat
      (screen width height).common.framebufferBpp = .ok (.rgb565, .bgra) := rfl
  rw [hscreen] at hformat
  cases hformat
  rw [hbuffer]

/-- A screen of 64 by 48. -/
theorem covered_landscape : ∃ s', (screen 64 48).init .x86_32 ⟨0x100000, 0x100000, []⟩
    (.new (.new Mmu.heapTables fun _ _ => default)) = some (.ok (), s') ∧
      Covered (screen 64 48).common s'.framebuffer := by
  obtain ⟨s', haccepted⟩ := exists_of_isOk ((screen 64 48).init .x86_32
    ⟨0x100000, 0x100000, []⟩ (.new (.new Mmu.heapTables fun _ _ => default))) (by decide +kernel)
  refine ⟨s', haccepted, (covered_iff _ haccepted ?_).2 ⟨Or.inr (by decide), by decide⟩⟩
  rw [format_screen haccepted]
  decide

/-- **A screen of 768 by 1024** is subscribed to for its first 768 rows, which
are whole pages. -/
theorem not_covered_portrait : ¬∀ (d : Description) (s' : MultibootFramebuffer),
    d.init .x86_32 ⟨0x100000, 0x100000, []⟩ (.new (.new Mmu.heapTables fun _ _ => default)) =
      some (.ok (), s') →
    d.common.framebufferWidth.toNat * s'.framebuffer.format.size ≤
      d.common.framebufferPitch.toNat → Covered d.common s'.framebuffer := by
  intro hall
  obtain ⟨s', haccepted⟩ := exists_of_isOk ((screen 768 1024).init .x86_32
    ⟨0x100000, 0x100000, []⟩ (.new (.new Mmu.heapTables fun _ _ => default))) (by decide +kernel)
  have hformat := format_screen haccepted
  have hcovered := hall _ s' haccepted (by rw [hformat]; decide)
  obtain ⟨format, order, address, -, hbuffer⟩ := framebuffer_of_init haccepted
  rw [hbuffer] at hformat hcovered
  obtain rfl : format = .rgb565 := hformat
  have hlandscape := (covered_buffer_iff _ order address (by decide)).1 hcovered
  exact absurd hlandscape.1 (by decide)

end Multiboot

end Uberos
