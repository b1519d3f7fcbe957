import Mathlib.Algebra.Group.Nat.Defs
import Mathlib.Algebra.GroupWithZero.Nat
import Mathlib.Data.List.Nodup
import Mathlib.Data.List.TakeWhile
import Mathlib.Logic.Function.Basic
import Uberos.Library.Stores
import Uberos.Target
/-!
# The messages of the mailbox

`get_PropertyTag_size` and `send_messages` of
`kernel/arch/raspi/mailbox.cpp`. The tags are gone through three times: to
reserve the message, to write it, and to read what the device has left in
it. What is written is by its offset from the start of the message.
-/

namespace Uberos

open Library

namespace Mailbox

/-- `PropertyTag` -/
inductive PropertyTag
  | nullTag
  | getBoardRevision
  | getArmMemory
  | getVcMemory
  | allocateBuffer
  | releaseBuffer
  | getClock
  | getActualClock
  | getMinClock
  | getMaxClock
  | setClock
  | getVoltage
  | getMinVoltage
  | getMaxVoltage
  | setVoltage
  | getTemperature
  | getMaxTemperature
  | getPhysicalDimensions
  | testPhysicalDimensions
  | setPhysicalDimensions
  | getVirtualDimensions
  | testVirtualDimensions
  | setVirtualDimensions
  | getBitsPerPixel
  | testBitsPerPixel
  | setBitsPerPixel
  | getPixelOrder
  | testPixelOrder
  | setPixelOrder
  | getAlphaMode
  | testAlphaMode
  | setAlphaMode
  | getBytesPerRow
  | getVirtualOffset
  | testVirtualOffset
  | setVirtualOffset
  | getOverscanOffset
  | testOverscanOffset
  | setOverscanOffset
  | setCursorInfo
  | setCursorState
  /-- Where `ARCH_RASPI3` is defined. -/
  | setDisplayGamma
  deriving DecidableEq, Repr

namespace PropertyTag

/-- `(U32)tag` -/
def value : PropertyTag → ℕ
  | nullTag => 0
  | getBoardRevision => 0x10002
  | getArmMemory => 0x10005
  | getVcMemory => 0x10006
  | allocateBuffer => 0x40001
  | releaseBuffer => 0x48001
  | getClock => 0x30002
  | getActualClock => 0x30047
  | getMinClock => 0x30007
  | getMaxClock => 0x30004
  | setClock => 0x38002
  | getVoltage => 0x30003
  | getMinVoltage => 0x30008
  | getMaxVoltage => 0x30005
  | setVoltage => 0x38003
  | getTemperature => 0x30006
  | getMaxTemperature => 0x3000a
  | getPhysicalDimensions => 0x40003
  | testPhysicalDimensions => 0x44003
  | setPhysicalDimensions => 0x48003
  | getVirtualDimensions => 0x40004
  | testVirtualDimensions => 0x44004
  | setVirtualDimensions => 0x48004
  | getBitsPerPixel => 0x40005
  | testBitsPerPixel => 0x44005
  | setBitsPerPixel => 0x48005
  | getPixelOrder => 0x40006
  | testPixelOrder => 0x44006
  | setPixelOrder => 0x48006
  | getAlphaMode => 0x40007
  | testAlphaMode => 0x44007
  | setAlphaMode => 0x48007
  | getBytesPerRow => 0x40008
  | getVirtualOffset => 0x40009
  | testVirtualOffset => 0x44009
  | setVirtualOffset => 0x48009
  | getOverscanOffset => 0x4000a
  | testOverscanOffset => 0x4400a
  | setOverscanOffset => 0x4800a
  | setCursorInfo => 0x8010
  | setCursorState => 0x8011
  | setDisplayGamma => 0x8012

end PropertyTag

/-- `sizeof(U32)` -/
def sizeofU32 : ℕ := 4

/-!
`sizeof` of the structures of `PropertyMessage::Data`, by their fields. The
largest, `cursorInfo`, is that of the union.
-/

namespace Data

def getClockResult : ℕ := sizeofU32 * 2
def setClock : ℕ := sizeofU32 * 3
def setVoltage : ℕ := sizeofU32 * 2
def getVoltageResult : ℕ := setVoltage
def getTemperatureResult : ℕ := sizeofU32 * 2
def virtualOffset : ℕ := sizeofU32 * 2
def screenOverscan : ℕ := sizeofU32 * 4
def cursorInfo : ℕ := sizeofU32 * 6
def cursorState : ℕ := sizeofU32 * 4
def gamma : ℕ := sizeofU32 * 2

end Data

/-- `get_PropertyTag_size`, in a build for the third model or another. -/
def getPropertyTagSize (raspi3 : Bool) : PropertyTag → ℕ
  | .getBoardRevision => 4
  | .getArmMemory | .getVcMemory => 8
  | .allocateBuffer | .getPhysicalDimensions | .testPhysicalDimensions | .setPhysicalDimensions
  | .getVirtualDimensions | .testVirtualDimensions | .setVirtualDimensions => 8
  | .getClock | .getActualClock | .getMinClock | .getMaxClock => Data.getClockResult
  | .setClock => Data.setClock
  | .getVoltage | .getMinVoltage | .getMaxVoltage => Data.getVoltageResult
  | .setVoltage => Data.setVoltage
  | .getTemperature | .getMaxTemperature => Data.getTemperatureResult
  | .getBitsPerPixel | .testBitsPerPixel | .setBitsPerPixel | .getPixelOrder | .testPixelOrder
  | .setPixelOrder | .getAlphaMode | .testAlphaMode | .setAlphaMode | .getBytesPerRow => 4
  | .getVirtualOffset | .testVirtualOffset | .setVirtualOffset => Data.virtualOffset
  | .getOverscanOffset | .testOverscanOffset | .setOverscanOffset => Data.screenOverscan
  | .setCursorInfo => Data.cursorInfo
  | .setCursorState => Data.cursorState
  | .setDisplayGamma => if raspi3 then Data.gamma else 0
  | .releaseBuffer | .nullTag => 0

/-- `PropertyMessage` -/
structure PropertyMessage where
  tag : PropertyTag
  data : Fin Data.cursorInfo → UInt8

variable (T : Target) (raspi3 : Bool)

/-- An `unsigned` that is added to. -/
def add (i n : ℕ) : ℕ := (i + n) % 2 ^ 32

/-- `align(x, alignment)`, of an `unsigned`. -/
def align (x alignment : ℕ) : ℕ :=
  add x (if x % alignment ≠ 0 then alignment - x % alignment else 0)

/-! ## The size -/

/-- The loop that adds up the size, up to `null_tag`. -/
def sizing : List PropertyMessage → (messageSize : ℕ) → ℕ
  | [], messageSize => messageSize
  | message :: tags, messageSize =>
    if message.tag = .nullTag then messageSize
    else sizing tags (add messageSize (sizeofU32 * 3 + getPropertyTagSize raspi3 message.tag))

/-- `messageSize`, with the header of the end tag. -/
def messageSize (tags : List PropertyMessage) : ℕ :=
  align (add (sizing raspi3 tags 0) (sizeofU32 * 3)) 16

/-- What `alloca` is asked for. -/
def allocated (tags : List PropertyMessage) : ℕ := add (messageSize raspi3 tags) 15

/-- `message`, of what `alloca` gives: that is, the pointer aligned. -/
def messageOf (stack : ℕ) : ℕ := stack + if stack % 16 ≠ 0 then 16 - stack % 16 else 0

/-! ## What is written -/

/-- The bytes of a U32. -/
def word (x : ℕ) : List UInt8 :=
  [.ofNat x, .ofNat (x / 2 ^ 8), .ofNat (x / 2 ^ 16), .ofNat (x / 2 ^ 24)]

/-- Bytes that are written from an offset of the message on. -/
def writes (offset : ℕ) (bytes : List UInt8) : List (ℕ × UInt8) :=
  bytes.mapIdx fun k byte => ((offset + k) % T.wordSize, byte)

/-- The offset of `tags[i]`, after `size` and `req_res_code`. -/
def tagsOffset (i : ℕ) : ℕ := sizeofU32 * 2 + sizeofU32 * i

/-- `i`, after a tag. -/
def nextIndex (tag : PropertyTag) (i : ℕ) : ℕ :=
  add (add (add (add i 1) 1) 1) (getPropertyTagSize raspi3 tag / 4)

/-- A tag's header and data are written. -/
def writesOf (message : PropertyMessage) (i : ℕ) : List (ℕ × UInt8) :=
  let size := getPropertyTagSize raspi3 message.tag
  writes T (tagsOffset i) (word message.tag.value) ++
    writes T (tagsOffset (add i 1)) (word size) ++
    writes T (tagsOffset (add (add i 1) 1)) (word 0) ++
    writes T (tagsOffset (add (add (add i 1) 1) 1)) ((List.ofFn message.data).take size)

/-- The loop that writes the tags, tag by tag; the end tag is last. -/
def packing : List PropertyMessage → (i : ℕ) → List (List (ℕ × UInt8))
  | [], i => [writes T (tagsOffset i) (word 0)]
  | message :: tags, i =>
    if message.tag = .nullTag then [writes T (tagsOffset i) (word 0)]
    else writesOf T raspi3 message i :: packing tags (nextIndex raspi3 message.tag i)

/-- `BufferReqResCode::request` and `response_error` -/
def request : List UInt8 := word 0
def responseError : List UInt8 := word 0x80000001

/-- `size` and `req_res_code` are written, and the tags. -/
def packed (tags : List PropertyMessage) : List (ℕ × UInt8) :=
  writes T 0 (word (messageSize raspi3 tags)) ++ writes T sizeofU32 request ++
    (packing T raspi3 tags 0).flatten

/-! ## What is read back -/

/-- A tag's data, from the message. -/
def PropertyMessage.read (message : PropertyMessage) (reply : ℕ → UInt8) (i : ℕ) :
    PropertyMessage :=
  { message with
    data := fun k =>
      if k.val < getPropertyTagSize raspi3 message.tag then
        reply ((tagsOffset (add i 3) + k.val) % T.wordSize)
      else message.data k }

/-- The loop that reads the tags. -/
def reading (reply : ℕ → UInt8) : List PropertyMessage → (i : ℕ) → List PropertyMessage
  | [], _ => []
  | message :: tags, i =>
    if message.tag = .nullTag then message :: tags
    else message.read T raspi3 reply i ::
      reading reply tags (add (add i 3) (getPropertyTagSize raspi3 message.tag / 4))

/-- **`send_messages`**, with what the device makes of the message, if it
responds. -/
def sendMessages (respond : (ℕ → UInt8) → Option (ℕ → UInt8)) (tags : List PropertyMessage)
    (memory : ℕ → UInt8) : Bool × List PropertyMessage :=
  match respond (perform id (packed T raspi3 tags) memory) with
  | none => (false, tags)
  | some reply =>
    let code := (List.range sizeofU32).map fun k => reply (sizeofU32 + k)
    if code = request then (false, tags)
    else if code = responseError then (false, tags)
    else (true, reading T raspi3 reply tags 0)

variable {T raspi3} {message : PropertyMessage} {tags : List PropertyMessage} {i : ℕ}

/-! ## What it is for -/

/-- The messages before `null_tag`. -/
def listed (tags : List PropertyMessage) : List PropertyMessage :=
  tags.takeWhile fun message => message.tag ≠ .nullTag

variable (raspi3) in
/-- The bytes of a header and its data. -/
def space (message : PropertyMessage) : ℕ :=
  sizeofU32 * 3 + getPropertyTagSize raspi3 message.tag

variable (raspi3) in
/-- The bytes of all of them. -/
def spaces (tags : List PropertyMessage) : ℕ := (tags.map (space raspi3)).sum

variable (raspi3) in
/-- Where a message's header is to be. -/
def slot (tags : List PropertyMessage) (j : ℕ) : ℕ :=
  sizeofU32 * 2 + spaces raspi3 ((listed tags).take j)

/-- The device leaves a tag's data at the tag's own place. -/
def Returned (raspi3 : Bool) (tags tags' : List PropertyMessage) (reply : ℕ → UInt8) : Prop :=
  ∀ (j : ℕ) (message : PropertyMessage), (listed tags)[j]? = some message →
    tags'[j]? = some { message with
      data := fun k =>
        if k.val < getPropertyTagSize raspi3 message.tag then
          reply (slot raspi3 tags j + sizeofU32 * 3 + k.val)
        else message.data k }

variable (T raspi3) in
/-- **The message is packed**: it lies in what is reserved, nothing is written
outside it, each tag is at its place, which no other tag shares, and is read
back from there. -/
structure Packs (tags : List PropertyMessage) : Prop where
  reserved : ∀ stack, stack ≤ messageOf stack ∧
    messageOf stack + messageSize raspi3 tags ≤ stack + allocated raspi3 tags
  inside : ∀ write ∈ packed T raspi3 tags, write.1 < messageSize raspi3 tags
  placed : ∀ (j : ℕ) (message : PropertyMessage), (listed tags)[j]? = some message →
    (packing T raspi3 tags 0)[j]?.map (List.map Prod.fst) =
      some (List.range' (slot raspi3 tags j) (space raspi3 message))
  apart : (packing T raspi3 tags 0).Pairwise fun tag later =>
    ∀ write ∈ tag, ∀ write' ∈ later, write.1 ≠ write'.1
  returned : ∀ respond memory tags', sendMessages T raspi3 respond tags memory = (true, tags') →
    ∃ reply, respond (perform id (packed T raspi3 tags) memory) = some reply ∧
      Returned raspi3 tags tags' reply

variable (raspi3) in
/-- **The message is of less than 2^32 bytes**, the end tag's header and what
aligns it included. -/
def Fits (tags : List PropertyMessage) : Prop :=
  spaces raspi3 (listed tags) + sizeofU32 * 3 + 15 < 2 ^ 32

/-! ## Sizes -/

theorem size_mem (raspi3 : Bool) (tag : PropertyTag) :
    getPropertyTagSize raspi3 tag ∈ [0, 4, 8, 12, 16, 24] := by
  cases raspi3 <;> cases tag <;> decide

/-- What `i += size/4` relies on. -/
theorem size_dvd (raspi3 : Bool) (tag : PropertyTag) : 4 ∣ getPropertyTagSize raspi3 tag :=
  (by decide : ∀ size ∈ [0, 4, 8, 12, 16, 24], 4 ∣ size) _ (size_mem raspi3 tag)

/-- No tag reads or writes beyond its data. -/
theorem size_le (raspi3 : Bool) (tag : PropertyTag) :
    getPropertyTagSize raspi3 tag ≤ Data.cursorInfo :=
  (by decide : ∀ size ∈ [0, 4, 8, 12, 16, 24], size ≤ Data.cursorInfo) _ (size_mem raspi3 tag)

theorem add_of_lt {n : ℕ} (h : i + n < 2 ^ 32) : add i n = i + n := Nat.mod_eq_of_lt h

theorem listed_cons_of_null (h : message.tag = .nullTag) : listed (message :: tags) = [] := by
  rw [listed, List.takeWhile_cons_of_neg (by simpa using h)]

theorem listed_cons (h : message.tag ≠ .nullTag) :
    listed (message :: tags) = message :: listed tags :=
  List.takeWhile_cons_of_pos (by simpa using h)

theorem spaces_cons (message : PropertyMessage) (tags : List PropertyMessage) :
    spaces raspi3 (message :: tags) = space raspi3 message + spaces raspi3 tags :=
  List.sum_cons

variable (raspi3) in
/-- All words are whole. -/
theorem spaces_dvd (tags : List PropertyMessage) : 4 ∣ spaces raspi3 tags := by
  induction tags with
  | nil => exact Nat.dvd_zero 4
  | cons message tags ih =>
    rw [spaces_cons]
    exact Nat.dvd_add (Nat.dvd_add (Nat.dvd_mul_right 4 3) (size_dvd raspi3 message.tag)) ih

/-- The first pass adds up the spaces, in 32 bits. -/
theorem sizing_eq (tags : List PropertyMessage) {size : ℕ} (hsize : size < 2 ^ 32) :
    sizing raspi3 tags size = (size + spaces raspi3 (listed tags)) % 2 ^ 32 := by
  induction tags generalizing size with
  | nil => exact (Nat.mod_eq_of_lt hsize).symm
  | cons message tags ih =>
    rw [sizing]
    split
    · rename_i hnull
      rw [listed_cons_of_null hnull]
      exact (Nat.mod_eq_of_lt hsize).symm
    · rename_i hnull
      have hnext : add size (sizeofU32 * 3 + getPropertyTagSize raspi3 message.tag) < 2 ^ 32 :=
        Nat.mod_lt _ (Nat.two_pow_pos 32)
      rw [ih hnext, listed_cons hnull, spaces_cons, add, Nat.mod_add_mod, Nat.add_assoc]
      rfl

/-- What is reserved is as good as none of it where it does not fit. -/
theorem messageSize_le (raspi3 : Bool) (tags : List PropertyMessage) :
    messageSize raspi3 tags + 16 ≤ 2 ^ 32 := by
  rw [messageSize, align]
  have hlt : add (sizing raspi3 tags 0) (sizeofU32 * 3) < 2 ^ 32 :=
    Nat.mod_lt _ (Nat.two_pow_pos 32)
  generalize add (sizing raspi3 tags 0) (sizeofU32 * 3) = size at hlt
  rw [add]
  split <;> omega

/-- **Where the message fits, there is room for all of it.** -/
theorem le_messageSize (h : Fits raspi3 tags) :
    spaces raspi3 (listed tags) + sizeofU32 * 3 ≤ messageSize raspi3 tags := by
  rw [Fits] at h
  have hsize : add (sizing raspi3 tags 0) (sizeofU32 * 3) =
      spaces raspi3 (listed tags) + sizeofU32 * 3 := by
    rw [sizing_eq tags (Nat.two_pow_pos 32), Nat.zero_add, Nat.mod_eq_of_lt (by omega),
      add_of_lt (by omega)]
  rw [messageSize, align, hsize]
  generalize spaces raspi3 (listed tags) + sizeofU32 * 3 = size at h
  rw [add]
  split <;> omega

/-! ## The offsets that are written -/

theorem two_pow_le_wordSize (T : Target) : 2 ^ 32 ≤ T.wordSize :=
  Nat.pow_le_pow_right (by decide) (by rcases T.wordBytes_eq with h | h <;> omega)

theorem map_fst_writes (T : Target) (offset : ℕ) (bytes : List UInt8) :
    (writes T offset bytes).map Prod.fst =
      (List.range' offset bytes.length).map (· % T.wordSize) := by
  refine List.ext_getElem (by simp [writes]) fun k h h' => ?_
  simp [writes]

theorem length_word (x : ℕ) : (word x).length = 4 := rfl

theorem length_data (raspi3 : Bool) (message : PropertyMessage) :
    ((List.ofFn message.data).take (getPropertyTagSize raspi3 message.tag)).length =
      getPropertyTagSize raspi3 message.tag := by
  rw [List.length_take, List.length_ofFn, Nat.min_eq_left (size_le raspi3 message.tag)]

theorem tagsOffset_add (i n : ℕ) : tagsOffset (i + n) = tagsOffset i + 4 * n := by
  simp only [tagsOffset, sizeofU32]
  omega

/-- A tag's header and its data follow one another. -/
theorem map_fst_writesOf (T : Target) (raspi3 : Bool) (message : PropertyMessage)
    (hi : i + 9 < 2 ^ 32) : (writesOf T raspi3 message i).map Prod.fst =
      (List.range' (tagsOffset i) (space raspi3 message)).map (· % T.wordSize) := by
  rw [writesOf, add_of_lt (by omega : i + 1 < _), add_of_lt (by omega : i + 1 + 1 < _),
    add_of_lt (by omega : i + 1 + 1 + 1 < _)]
  simp only [List.map_append, map_fst_writes, length_word, length_data, tagsOffset_add]
  simp only [← List.map_append, List.range'_append_1]
  rfl

theorem nextIndex_eq (raspi3 : Bool) (tag : PropertyTag) (hi : i + 9 < 2 ^ 32) :
    nextIndex raspi3 tag i = i + 3 + getPropertyTagSize raspi3 tag / 4 := by
  have hsize := size_le raspi3 tag
  have hmax : Data.cursorInfo = 24 := rfl
  rw [nextIndex, add_of_lt (by omega : i + 1 < _), add_of_lt (by omega : i + 1 + 1 < _),
    add_of_lt (by omega : i + 1 + 1 + 1 < _), add_of_lt (by omega)]

/-- The next tag is right after it. -/
theorem tagsOffset_nextIndex (raspi3 : Bool) (message : PropertyMessage) (hi : i + 9 < 2 ^ 32) :
    tagsOffset (nextIndex raspi3 message.tag i) = tagsOffset i + space raspi3 message := by
  have hwhole := Nat.mul_div_cancel' (size_dvd raspi3 message.tag)
  rw [nextIndex_eq raspi3 message.tag hi, tagsOffset_add, tagsOffset_add, space]
  simp only [sizeofU32]
  omega

/-- The index is far from wrapping, where its offset does not. -/
theorem index_add_lt (h : tagsOffset i ≤ 2 ^ 32) : i + 9 < 2 ^ 32 := by
  simp only [tagsOffset, sizeofU32] at h
  omega

theorem map_mod_range' (T : Target) {offset n : ℕ} (h : offset + n ≤ 2 ^ 32) :
    (List.range' offset n).map (· % T.wordSize) = List.range' offset n := by
  have hword := two_pow_le_wordSize T
  refine List.map_congr_left (fun x hx => ?_) |>.trans (List.map_id _)
  rw [List.mem_range'_1] at hx
  exact Nat.mod_eq_of_lt (by omega)

theorem packing_of_null (h : listed tags = []) :
    packing T raspi3 tags i = [writes T (tagsOffset i) (word 0)] := by
  cases tags with
  | nil => rfl
  | cons message tags =>
    rw [packing]
    split
    · rfl
    · rename_i hnull
      rw [listed_cons hnull] at h
      cases h

/-- **What the second pass writes lies on end**, as far as no offset wraps. -/
theorem map_fst_packing (tags : List PropertyMessage)
    (h : tagsOffset i + spaces raspi3 (listed tags) + 4 ≤ 2 ^ 32) :
    (packing T raspi3 tags i).flatten.map Prod.fst =
      List.range' (tagsOffset i) (spaces raspi3 (listed tags) + 4) := by
  induction tags generalizing i with
  | nil =>
    have hend : tagsOffset i + 4 ≤ 2 ^ 32 := h
    rw [packing, List.flatten_singleton, map_fst_writes, length_word, map_mod_range' T hend]
    rfl
  | cons message tags ih =>
    by_cases hnull : message.tag = .nullTag
    · rw [listed_cons_of_null hnull] at h ⊢
      have hend : tagsOffset i + 4 ≤ 2 ^ 32 := h
      rw [packing_of_null (listed_cons_of_null hnull), List.flatten_singleton, map_fst_writes,
        length_word, map_mod_range' T hend]
      rfl
    · rw [listed_cons hnull, spaces_cons] at h ⊢
      have hi : i + 9 < 2 ^ 32 := index_add_lt (by omega)
      have hnext := tagsOffset_nextIndex raspi3 message hi
      rw [packing, if_neg hnull, List.flatten_cons, List.map_append,
        map_fst_writesOf T raspi3 message hi, map_mod_range' T (by omega), ih (by omega), hnext,
        List.range'_append_1, Nat.add_assoc]

/-- **Every offset up to the end is written**, also where the end is beyond
what an offset can be. -/
theorem mem_packing {x : ℕ} (tags : List PropertyMessage) (hle : tagsOffset i ≤ x)
    (hx : x < 2 ^ 32) (hlt : x < tagsOffset i + spaces raspi3 (listed tags) + 4) :
    x ∈ (packing T raspi3 tags i).flatten.map Prod.fst := by
  have hword := two_pow_le_wordSize T
  have hmem : ∀ n, x < tagsOffset i + n →
      x ∈ (List.range' (tagsOffset i) n).map (· % T.wordSize) := fun n hn =>
    List.mem_map.2 ⟨x, List.mem_range'_1.2 ⟨hle, hn⟩, Nat.mod_eq_of_lt (by omega)⟩
  induction tags generalizing i with
  | nil =>
    rw [packing, List.flatten_singleton, map_fst_writes]
    exact hmem 4 hlt
  | cons message tags ih =>
    by_cases hnull : message.tag = .nullTag
    · rw [listed_cons_of_null hnull] at hlt
      rw [packing_of_null (listed_cons_of_null hnull), List.flatten_singleton, map_fst_writes]
      exact hmem 4 hlt
    · rw [listed_cons hnull, spaces_cons] at hlt
      have hi : i + 9 < 2 ^ 32 := index_add_lt (by omega)
      have hnext := tagsOffset_nextIndex raspi3 message hi
      rw [packing, if_neg hnull, List.flatten_cons, List.map_append, List.mem_append,
        map_fst_writesOf T raspi3 message hi]
      -- it is in this tag, or in one of those after it
      rcases Nat.lt_or_ge x (tagsOffset i + space raspi3 message) with hin | hafter
      · exact Or.inl (hmem _ hin)
      · refine Or.inr (ih (by omega) (by omega) fun n hn => ?_)
        exact List.mem_map.2 ⟨x, List.mem_range'_1.2 ⟨by omega, hn⟩, Nat.mod_eq_of_lt (by omega)⟩

/-! ## The three passes agree -/

/-- A tag that is listed is written at its place. -/
theorem map_fst_packing_getElem? {j : ℕ} (tags : List PropertyMessage)
    (h : tagsOffset i + spaces raspi3 (listed tags) + 4 ≤ 2 ^ 32)
    (hj : (listed tags)[j]? = some message) :
    (packing T raspi3 tags i)[j]?.map (List.map Prod.fst) =
      some (List.range' (tagsOffset i + spaces raspi3 ((listed tags).take j))
        (space raspi3 message)) := by
  induction tags generalizing i j with
  | nil => simp [listed] at hj
  | cons first tags ih =>
    by_cases hnull : first.tag = .nullTag
    · rw [listed_cons_of_null hnull] at hj
      simp at hj
    · rw [listed_cons hnull] at h hj ⊢
      rw [spaces_cons] at h
      have hi : i + 9 < 2 ^ 32 := index_add_lt (by omega)
      have hnext := tagsOffset_nextIndex raspi3 first hi
      rw [packing, if_neg hnull]
      cases j with
      | zero =>
        obtain rfl : first = message := by simpa using hj
        rw [List.getElem?_cons_zero, Option.map_some, map_fst_writesOf T raspi3 first hi,
          map_mod_range' T (by omega)]
        rfl
      | succ j =>
        rw [List.getElem?_cons_succ] at hj ⊢
        rw [ih (by omega) hj, List.take_succ_cons, spaces_cons, hnext, Nat.add_assoc]

/-- And read back from there. -/
theorem reading_getElem? {j : ℕ} (tags : List PropertyMessage) (reply : ℕ → UInt8)
    (h : tagsOffset i + spaces raspi3 (listed tags) + 4 ≤ 2 ^ 32)
    (hj : (listed tags)[j]? = some message) :
    (reading T raspi3 reply tags i)[j]? = some { message with
      data := fun k =>
        if k.val < getPropertyTagSize raspi3 message.tag then
          reply (tagsOffset i + spaces raspi3 ((listed tags).take j) + sizeofU32 * 3 + k.val)
        else message.data k } := by
  induction tags generalizing i j with
  | nil => simp [listed] at hj
  | cons first tags ih =>
    by_cases hnull : first.tag = .nullTag
    · rw [listed_cons_of_null hnull] at hj
      simp at hj
    · rw [listed_cons hnull] at h hj ⊢
      rw [spaces_cons] at h
      have hi : i + 9 < 2 ^ 32 := index_add_lt (by omega)
      have hnext := tagsOffset_nextIndex raspi3 first hi
      have hindex : add (add i 3) (getPropertyTagSize raspi3 first.tag / 4) =
          nextIndex raspi3 first.tag i := by
        have hsize := size_le raspi3 first.tag
        have hmax : Data.cursorInfo = 24 := rfl
        rw [nextIndex_eq raspi3 first.tag hi, add_of_lt (by omega : i + 3 < _),
          add_of_lt (by omega)]
      rw [reading, if_neg hnull, hindex]
      cases j with
      | zero =>
        obtain rfl : first = message := by simpa using hj
        rw [List.getElem?_cons_zero, PropertyMessage.read, add_of_lt (by omega), tagsOffset_add]
        congr 2
        funext k
        split
        · -- the data is in the tag's space, which does not wrap
          rename_i hk
          have hword := two_pow_le_wordSize T
          have hspace : space raspi3 first = 12 + getPropertyTagSize raspi3 first.tag := rfl
          rw [Nat.mod_eq_of_lt (by omega)]
          rfl
        · rfl
      | succ j =>
        rw [List.getElem?_cons_succ] at hj ⊢
        rw [ih (by omega) hj, List.take_succ_cons, spaces_cons, hnext, Nat.add_assoc (tagsOffset i)]

/-- The head of the message is before the tags. -/
theorem map_fst_packed (h : Fits raspi3 tags) : (packed T raspi3 tags).map Prod.fst =
    List.range' 0 (spaces raspi3 (listed tags) + sizeofU32 * 3) := by
  rw [Fits] at h
  have hzero : tagsOffset 0 = 8 := rfl
  have hword : sizeofU32 = 4 := rfl
  rw [packed, List.map_append, List.map_append, map_fst_packing tags (by omega), map_fst_writes,
    map_fst_writes, length_word, request, length_word, map_mod_range' T (by omega),
    map_mod_range' T (by omega), hzero, hword, List.range'_append_1]
  have hhead := List.range'_append_1 (s := 0) (m := 8) (n := spaces raspi3 (listed tags) + 4)
  rw [Nat.zero_add] at hhead
  rw [hhead]
  congr 1
  omega

theorem reserved (raspi3 : Bool) (tags : List PropertyMessage) (stack : ℕ) :
    stack ≤ messageOf stack ∧
      messageOf stack + messageSize raspi3 tags ≤ stack + allocated raspi3 tags := by
  have hle := messageSize_le raspi3 tags
  rw [allocated, add_of_lt (by omega), messageOf]
  split <;> omega

/-- What `send_messages` reads, where it succeeds. -/
theorem returned_of_sendMessages (h : Fits raspi3 tags)
    {respond : (ℕ → UInt8) → Option (ℕ → UInt8)} {memory : ℕ → UInt8}
    {tags' : List PropertyMessage}
    (hsent : sendMessages T raspi3 respond tags memory = (true, tags')) :
    ∃ reply, respond (perform id (packed T raspi3 tags) memory) = some reply ∧
      Returned raspi3 tags tags' reply := by
  rw [Fits] at h
  have hzero : tagsOffset 0 = 8 := rfl
  have hword : sizeofU32 = 4 := rfl
  rw [sendMessages] at hsent
  cases hreply : respond (perform id (packed T raspi3 tags) memory) with
  | none => simp [hreply] at hsent
  | some reply =>
    rw [hreply] at hsent
    refine ⟨reply, rfl, fun j message hj => ?_⟩
    have htags : reading T raspi3 reply tags 0 = tags' := by
      simp only at hsent
      split at hsent
      · cases hsent
      · split at hsent
        · cases hsent
        · exact congrArg Prod.snd hsent
    rw [← htags, reading_getElem? tags reply (by omega) hj]
    rfl

/-- **What fits is packed.** -/
theorem packs_of_fits (h : Fits raspi3 tags) : Packs T raspi3 tags := by
  have hsize := le_messageSize h
  have hoffsets := map_fst_packed (T := T) h
  have hroom : tagsOffset 0 + spaces raspi3 (listed tags) + 4 ≤ 2 ^ 32 := by
    have hzero : tagsOffset 0 = 8 := rfl
    have hword : sizeofU32 = 4 := rfl
    rw [Fits] at h
    omega
  refine ⟨reserved raspi3 tags, fun write hwrite => ?_,
    fun j message hj => map_fst_packing_getElem? tags hroom hj, ?_,
    fun respond memory tags' hsent => returned_of_sendMessages h hsent⟩
  · have hmem := List.mem_map_of_mem (f := Prod.fst) hwrite
    rw [hoffsets, List.mem_range'_1] at hmem
    omega
  · -- no offset is written twice
    have hnodup : ((packing T raspi3 tags 0).flatten.map Prod.fst).Nodup := by
      rw [map_fst_packing tags hroom]
      exact List.nodup_range'
    rw [List.map_flatten, List.nodup_flatten, List.pairwise_map] at hnodup
    refine hnodup.2.imp fun hdisjoint write hwrite write' hwrite' heq => ?_
    exact hdisjoint (List.mem_map_of_mem hwrite) (heq ▸ List.mem_map_of_mem hwrite')

/-- **What does not fit is written beyond what is reserved.** -/
theorem fits_of_inside (h : ∀ write ∈ packed T raspi3 tags, write.1 < messageSize raspi3 tags) :
    Fits raspi3 tags := by
  rw [Fits]
  by_contra hnot
  have hword : sizeofU32 = 4 := rfl
  have hzero : tagsOffset 0 = 8 := rfl
  obtain ⟨words, hwords⟩ := spaces_dvd raspi3 (listed tags)
  have hmem : 2 ^ 32 - 16 ∈ (packing T raspi3 tags 0).flatten.map Prod.fst :=
    mem_packing tags (by omega) (by omega) (by omega)
  obtain ⟨write, hwrite, hoffset⟩ := List.mem_map.1 hmem
  have hinside := h write (List.mem_append_right _ hwrite)
  have hle := messageSize_le raspi3 tags
  omega

/-! ## The result -/

/-- **`send_messages` packs the tags exactly where the message fits.** -/
theorem packs_iff (T : Target) (raspi3 : Bool) (tags : List PropertyMessage) :
    Packs T raspi3 tags ↔ Fits raspi3 tags :=
  ⟨fun h => fits_of_inside h.inside, packs_of_fits⟩

/-- A cursor's pixels, by their address. -/
def cursor : PropertyMessage := ⟨.setCursorInfo, fun _ => 0⟩

theorem spaces_replicate (n : ℕ) :
    spaces raspi3 (listed (List.replicate n cursor)) = 36 * n := by
  have hlisted : listed (List.replicate n cursor) = List.replicate n cursor := by
    rw [listed, List.takeWhile_eq_self_iff]
    intro message hmessage
    rw [List.eq_of_mem_replicate hmessage]
    rfl
  have hspace : space raspi3 cursor = 36 := rfl
  rw [hlisted, spaces, List.map_replicate, hspace, List.sum_replicate_nat, Nat.mul_comm]

/-- **More than a hundred million cursors** are given sixteen bytes. -/
theorem not_packs_cursors : ¬Packs .arm64 true (List.replicate 119304647 cursor) := by
  intro h
  have hfits := fits_of_inside h.inside
  rw [Fits, spaces_replicate] at hfits
  exact absurd hfits (by decide)

end Mailbox

end Uberos
