import Mathlib.Algebra.Group.Nat.Defs
import Mathlib.Algebra.Ring.Int.Defs
import Mathlib.Logic.Function.Basic
/-!
# Decimal numerals

`utoa` and `itoa` of `common/stdlib.cpp`. Each type has a `static` buffer of
its own. It is by offset, with the memory on both sides of it, and is
written from its end on backwards; what is written is logged, the last first.
-/

namespace Uberos

namespace Stdlib

/-- The types that are converted. -/
inductive Integer
  | U16
  | U32
  | U64
  | I16
  | I32
  | I64
  deriving DecidableEq, Repr

namespace Integer

/-- `sizeof(number)` -/
def sizeof : Integer → ℕ
  | U16 | I16 => 2
  | U32 | I32 => 4
  | U64 | I64 => 8

def signed : Integer → Bool
  | U16 | U32 | U64 => false
  | I16 | I32 | I64 => true

def min (type : Integer) : ℤ := if type.signed then -2 ^ (8 * type.sizeof - 1) else 0

def max (type : Integer) : ℤ :=
  if type.signed then 2 ^ (8 * type.sizeof - 1) - 1 else 2 ^ (8 * type.sizeof) - 1

/-- A value of a type. -/
abbrev Value (type : Integer) := { x : ℤ // type.min ≤ x ∧ x ≤ type.max }

end Integer

/-- `digits_binary(bits, isSigned)` -/
def digitsBinary (bits : ℕ) (isSigned : Bool) : ℕ := bits * 8 - if isSigned then 1 else 0

/-- `digits_decimal(bits, isSigned)` -/
def digitsDecimal (bits : ℕ) (isSigned : Bool) : ℕ := digitsBinary bits isSigned * 643 / 2136 + 1

/-- `sizeof(buffer)` and `sizeof(internalBuffer)` -/
def bufferSize (type : Integer) : ℕ := digitsDecimal type.sizeof false + 1

/-- The buffer with the memory around it, and the pointer `character` into
it. -/
structure Writer where
  buffer : ℤ → UInt8
  character : ℤ
  writes : List ℤ

namespace Writer

/-- The null at the end, and `character = end`. -/
def start (size : ℕ) (buffer : ℤ → UInt8) : Writer where
  buffer := Function.update buffer (size - 1) 0
  character := size - 2
  writes := [(size - 1 : ℤ)]

/-- `*character-- = byte` -/
def put (writer : Writer) (byte : UInt8) : Writer where
  buffer := Function.update writer.buffer writer.character byte
  character := writer.character - 1
  writes := writer.character :: writer.writes

/-- The loop over the digits. -/
def digits (number : ℕ) (writer : Writer) : Writer :=
  if number / 10 > 0 then digits (number / 10) (writer.put (.ofNat (number % 10 + 0x30)))
  else writer.put (.ofNat (number % 10 + 0x30))
termination_by number
decreasing_by omega

end Writer

/-- `'-'` -/
def minus : UInt8 := 0x2d

/-- `_utoa` -/
def utoa (type : Integer) (number : type.Value) (buffer : ℤ → UInt8) : Writer :=
  (Writer.start (bufferSize type) buffer).digits number.val.toNat

/-- `numberAbs`, an `unsigned`. The negation that overflows wraps around. -/
def numberAbs (number : ℤ) : ℕ := ((if number < 0 then -number else number) % 2 ^ 32).toNat

/-- `_itoa`, without a buffer of the caller's. -/
def itoa (type : Integer) (number : type.Value) (buffer : ℤ → UInt8) : Writer :=
  let writer := (Writer.start (bufferSize type) buffer).digits (numberAbs number.val)
  if number.val < 0 then writer.put minus else writer

/-- **`utoa` and `itoa`**, that of the type. What they return is
`character+1`. -/
def toNumeral (type : Integer) (number : type.Value) (buffer : ℤ → UInt8) : Writer :=
  if type.signed then itoa type number buffer else utoa type number buffer

/-! ## What it is for -/

/-- A character as a byte. -/
def byteOf (c : Char) : UInt8 := .ofNat c.toNat

/-- The decimal digits of a number, without leading zeros. -/
def digitsOf (n : ℕ) : List UInt8 := (Nat.toDigits 10 n).map byteOf

/-- The sign of a numeral. -/
def signOf (x : ℤ) : List UInt8 := if x < 0 then [minus] else []

/-- The numeral of an integer. -/
def numeral (x : ℤ) : List UInt8 := signOf x ++ digitsOf x.natAbs

/-- A string is at a pointer, with its end. -/
structure StringAt (buffer : ℤ → UInt8) (pointer : ℤ) (string : List UInt8) : Prop where
  bytes : ∀ (i : ℕ) (h : i < string.length), buffer (pointer + i) = string[i]
  nul : buffer (pointer + string.length) = 0

/-- **A number is converted**: what is returned is its numeral, and what is
written is inside the buffer. -/
def Converts (type : Integer) (number : type.Value) : Prop :=
  ∀ buffer, StringAt (toNumeral type number buffer).buffer
      ((toNumeral type number buffer).character + 1) (numeral number.val) ∧
    ∀ offset ∈ (toNumeral type number buffer).writes, 0 ≤ offset ∧ offset < bufferSize type

/-- **There is room for the sign, and the number is an `unsigned`.** -/
def HasRoom : Integer → ℤ → Prop
  | .U16, _ | .U32, _ | .U64, _ => True
  | .I16, x => -10 ^ 4 < x
  | .I32, x => -10 ^ 9 < x
  | .I64, x => -2 ^ 32 < x ∧ x < 2 ^ 32

variable {type : Integer} {size n : ℕ} {x : ℤ} {buffer : ℤ → UInt8} {pointer : ℤ}
  {string string' : List UInt8} {writer : Writer} {byte : UInt8}

/-! ## What is written -/

/-- **A string is written**, up to the null: it begins after the pointer, and
what is written is from there to the end of the buffer. -/
structure Written (size : ℕ) (string : List UInt8) (writer : Writer) : Prop where
  character : writer.character + 1 + string.length = size - 1
  string : StringAt writer.buffer (writer.character + 1) string
  writes : ∀ offset, offset ∈ writer.writes ↔ writer.character < offset ∧ offset < size

theorem written_start (size : ℕ) (buffer : ℤ → UInt8) :
    Written size [] (Writer.start size buffer) where
  character := by
    change (size : ℤ) - 2 + 1 + 0 = size - 1
    omega
  string := by
    refine ⟨fun i h => absurd h (Nat.not_lt_zero i), ?_⟩
    change Function.update buffer ((size : ℤ) - 1) 0 ((size : ℤ) - 2 + 1 + 0) = 0
    rw [show (size : ℤ) - 2 + 1 + 0 = size - 1 by omega]
    exact Function.update_self _ _ _
  writes offset := by
    change offset ∈ [(size : ℤ) - 1] ↔ (size : ℤ) - 2 < offset ∧ offset < size
    rw [List.mem_singleton]
    omega

/-- A byte goes before the string. -/
theorem Written.put (h : Written size string writer) (byte : UInt8) :
    Written size (byte :: string) (writer.put byte) where
  character := by
    have hcharacter := h.character
    change writer.character - 1 + 1 + ((byte :: string).length : ℤ) = _
    rw [List.length_cons]
    omega
  string := by
    have hbuffer : (writer.put byte).buffer = Function.update writer.buffer writer.character byte :=
      rfl
    have hpointer : (writer.put byte).character + 1 = writer.character :=
      Int.sub_add_cancel writer.character 1
    rw [hbuffer, hpointer]
    refine ⟨fun i hi => ?_, ?_⟩
    · cases i with
      | zero =>
        rw [Int.natCast_zero, Int.add_zero, Function.update_self]
        rfl
      | succ i =>
        have hbyte := h.string.bytes i (Nat.lt_of_succ_lt_succ hi)
        rw [Function.update_of_ne (by omega), List.getElem_cons_succ, ← hbyte]
        exact congrArg writer.buffer (by omega)
    · have hnul := h.string.nul
      rw [List.length_cons, Function.update_of_ne (by omega), ← hnul]
      exact congrArg writer.buffer (by omega)
  writes offset := by
    change offset ∈ writer.character :: writer.writes ↔ writer.character - 1 < offset ∧ _
    have hcharacter := h.character
    rw [List.mem_cons, h.writes]
    omega

theorem byteOf_digitChar (h : n < 10) : byteOf n.digitChar = .ofNat (n + 0x30) := by
  rw [byteOf, Nat.toNat_digitChar_of_lt_ten h, Nat.add_comm]

theorem digitsOf_eq (n : ℕ) : digitsOf n =
    (if n / 10 > 0 then digitsOf (n / 10) else []) ++ [.ofNat (n % 10 + 0x30)] := by
  rw [digitsOf, Nat.toDigits_eq_if (by decide)]
  split
  · rename_i hlt
    rw [if_neg (by omega), Nat.mod_eq_of_lt hlt, List.map_singleton, byteOf_digitChar hlt]
    rfl
  · rename_i hge
    rw [if_pos (by omega), List.map_append, List.map_singleton,
      byteOf_digitChar (Nat.mod_lt n (by decide))]
    rfl

/-- **The loop writes the digits**, before what there is. -/
theorem Written.digits (h : Written size string writer) (n : ℕ) :
    Written size (digitsOf n ++ string) (writer.digits n) := by
  induction n using Nat.strong_induction_on generalizing writer string with
  | _ n ih =>
    have hput := h.put (.ofNat (n % 10 + 0x30))
    rw [Writer.digits, digitsOf_eq]
    split
    · have hrest := ih (n / 10) (by omega) hput
      rwa [List.append_assoc]
    · exact hput

variable (type) in
/-- What `utoa` writes. -/
theorem written_utoa (number : type.Value) (buffer : ℤ → UInt8) :
    Written (bufferSize type) (digitsOf number.val.toNat) (utoa type number buffer) := by
  have h := (written_start (bufferSize type) buffer).digits number.val.toNat
  rwa [List.append_nil] at h

/-- What `itoa` writes: the digits may be those of another number. -/
theorem written_itoa (number : type.Value) (buffer : ℤ → UInt8) :
    Written (bufferSize type) (signOf number.val ++ digitsOf (numberAbs number.val))
      (itoa type number buffer) := by
  have h := (written_start (bufferSize type) buffer).digits (numberAbs number.val)
  rw [List.append_nil] at h
  rw [itoa, signOf]
  split
  · exact h.put minus
  · exact h

/-! ## What is returned -/

theorem isDigit_toNat {c : Char} (h : c ∈ Nat.toDigits 10 n) : 48 ≤ c.toNat ∧ c.toNat ≤ 57 := by
  have hdigit := Nat.isDigit_of_mem_toDigits (by decide) (by decide) h
  simpa [Char.isDigit, UInt32.le_iff_toNat_le] using hdigit

theorem toNat_byteOf {c : Char} (h : c ∈ Nat.toDigits 10 n) : (byteOf c).toNat = c.toNat := by
  have hrange := isDigit_toNat h
  rw [byteOf, UInt8.toNat_ofNat', Nat.mod_eq_of_lt (by omega)]

/-- A digit is neither the null nor the sign. -/
theorem ne_of_mem_digitsOf (h : byte ∈ digitsOf n) : byte ≠ 0 ∧ byte ≠ minus := by
  obtain ⟨c, hc, rfl⟩ := List.mem_map.1 h
  have hrange := isDigit_toNat hc
  have hbyte := toNat_byteOf hc
  refine ⟨fun heq => ?_, fun heq => ?_⟩
  · rw [heq] at hbyte
    change 0 = c.toNat at hbyte
    omega
  · rw [heq] at hbyte
    change 45 = c.toNat at hbyte
    omega

/-- **A number is told by its digits.** -/
theorem digitsOf_injective {m : ℕ} (h : digitsOf n = digitsOf m) : n = m := by
  have hback : ∀ n, (digitsOf n).map (fun byte => Char.ofNat byte.toNat) = Nat.toDigits 10 n := by
    intro n
    rw [digitsOf, List.map_map]
    refine (List.map_congr_left fun c hc => ?_).trans (List.map_id _)
    rw [Function.comp_apply, toNat_byteOf hc, Char.ofNat_toNat, id]
  have hdigits : Nat.toDigits 10 n = Nat.toDigits 10 m := by rw [← hback, ← hback, h]
  rw [← Nat.ofDigitChars_ten_toDigits (n := n), hdigits, Nat.ofDigitChars_ten_toDigits]

theorem ne_zero_of_mem_signOf (h : byte ∈ signOf x) : byte ≠ 0 := by
  rw [signOf] at h
  split at h
  · rw [List.mem_singleton.1 h]
    decide
  · cases h

theorem ne_zero_of_mem (h : byte ∈ signOf x ++ digitsOf n) : byte ≠ 0 :=
  (List.mem_append.1 h).elim ne_zero_of_mem_signOf fun h => (ne_of_mem_digitsOf h).1

/-- A string ends with its null, so that there is one only at a pointer. -/
theorem StringAt.length_le (h : StringAt buffer pointer string)
    (h' : StringAt buffer pointer string') (hne : ∀ byte ∈ string', byte ≠ 0) :
    string'.length ≤ string.length := by
  refine Nat.le_of_not_lt fun hlt => ?_
  have hbyte := h'.bytes string.length hlt
  rw [h.nul] at hbyte
  exact hne _ (List.getElem_mem hlt) hbyte.symm

theorem StringAt.unique (h : StringAt buffer pointer string) (h' : StringAt buffer pointer string')
    (hne : ∀ byte ∈ string, byte ≠ 0) (hne' : ∀ byte ∈ string', byte ≠ 0) : string = string' := by
  refine List.ext_getElem (Nat.le_antisymm (h'.length_le h hne) (h.length_le h' hne')) ?_
  intro i hi hi'
  rw [← h.bytes i hi, ← h'.bytes i hi']

/-- **What is converted**, where a sign and digits are written: the digits
are the number's, and they fit with the sign. -/
theorem written_iff (h : Written size (signOf x ++ digitsOf n) writer) :
    (StringAt writer.buffer (writer.character + 1) (numeral x) ∧
        ∀ offset ∈ writer.writes, 0 ≤ offset ∧ offset < size) ↔
      n = x.natAbs ∧ (signOf x ++ digitsOf n).length < size := by
  have hcharacter := h.character
  have hbounds : (∀ offset ∈ writer.writes, 0 ≤ offset ∧ offset < size) ↔
      (signOf x ++ digitsOf n).length < size := by
    refine ⟨fun hall => ?_, fun hlt offset hoffset => ?_⟩
    · have hfirst := (h.writes (writer.character + 1)).2 (by omega)
      have hzero := hall _ hfirst
      omega
    · have hrange := (h.writes offset).1 hoffset
      omega
  rw [hbounds]
  refine and_congr_left fun _ => ⟨fun hstring => ?_, ?_⟩
  · have heq := h.string.unique hstring (fun _ => ne_zero_of_mem) fun _ => ne_zero_of_mem
    exact digitsOf_injective (List.append_cancel_left heq)
  · rintro rfl
    exact h.string

/-! ## How much room there is -/

theorem length_digitsOf_le {k : ℕ} (hk : 0 < k) : (digitsOf n).length ≤ k ↔ n < 10 ^ k := by
  rw [digitsOf, List.length_map]
  exact Nat.length_toDigits_le_iff (by decide) hk

theorem length_signOf (x : ℤ) : (signOf x).length = if x < 0 then 1 else 0 := by
  rw [signOf]
  split <;> rfl

theorem signOf_of_nonneg (h : 0 ≤ x) : signOf x = [] := if_neg (Int.not_lt.2 h)

/-- An unsigned number fits: `643/2136` is more than the logarithm of 2. -/
theorem converts_unsigned (number : type.Value) (hsigned : type.signed = false) :
    Converts type number := by
  intro buffer
  obtain ⟨x, hmin, hmax⟩ := number
  have hnonneg : 0 ≤ x := by
    rw [Integer.min, hsigned] at hmin
    exact hmin
  have hwritten := written_utoa type ⟨x, hmin, hmax⟩ buffer
  have hcall : toNumeral type ⟨x, hmin, hmax⟩ buffer = utoa type ⟨x, hmin, hmax⟩ buffer := by
    rw [toNumeral, hsigned]
    rfl
  have hsplit : digitsOf x.toNat = signOf x ++ digitsOf x.toNat := by
    rw [signOf_of_nonneg hnonneg, List.nil_append]
  rw [hsplit] at hwritten
  rw [hcall]
  refine (written_iff hwritten).2 ⟨by omega, ?_⟩
  rw [← hsplit]
  refine Nat.lt_succ_of_le ((length_digitsOf_le (Nat.succ_pos _)).2 ?_)
  rw [Integer.max, hsigned] at hmax
  cases type with
  | U16 => change x.toNat < 10 ^ 5; change x ≤ 2 ^ 16 - 1 at hmax; omega
  | U32 => change x.toNat < 10 ^ 10; change x ≤ 2 ^ 32 - 1 at hmax; omega
  | U64 => change x.toNat < 10 ^ 20; change x ≤ 2 ^ 64 - 1 at hmax; omega
  | I16 => cases hsigned
  | I32 => cases hsigned
  | I64 => cases hsigned

/-- A signed number is converted where it is an `unsigned` without its sign,
and its digits leave room for the sign. -/
theorem converts_signed (number : type.Value) (hsigned : type.signed = true) :
    Converts type number ↔ numberAbs number.val = number.val.natAbs ∧
      (signOf number.val).length + (digitsOf (numberAbs number.val)).length < bufferSize type := by
  have hcall : ∀ buffer, toNumeral type number buffer = itoa type number buffer := by
    intro buffer
    rw [toNumeral, hsigned]
    rfl
  have hiff := fun buffer => written_iff (written_itoa number buffer)
  rw [List.length_append] at hiff
  simp only [Converts, hcall, hiff]
  exact ⟨fun h => h fun _ => 0, fun h _ => h⟩

/-- The digits with the sign, of a type of so many digits. -/
theorem length_lt_iff {k : ℕ} (hk : 0 < k) : (signOf x).length + (digitsOf n).length < k + 2 ↔
    (0 ≤ x → n < 10 ^ (k + 1)) ∧ (x < 0 → n < 10 ^ k) := by
  rw [length_signOf, ← length_digitsOf_le hk, ← length_digitsOf_le (Nat.succ_pos k)]
  split <;> omega

theorem numberAbs_of_lt (h : x.natAbs < 2 ^ 32) : numberAbs x = x.natAbs := by
  rw [numberAbs]
  split <;> omega

theorem numberAbs_lt (x : ℤ) : numberAbs x < 2 ^ 32 := by
  rw [numberAbs]
  split <;> omega

/-- Four digits have room, with a sign. -/
theorem converts_I16 (hrange : Integer.I16.min ≤ x ∧ x ≤ Integer.I16.max) :
    Converts .I16 ⟨x, hrange⟩ ↔ -10 ^ 4 < x := by
  have hbounds : -2 ^ 15 ≤ x ∧ x ≤ 2 ^ 15 - 1 := hrange
  have habs : numberAbs x = x.natAbs := numberAbs_of_lt (by omega)
  rw [converts_signed _ rfl]
  change numberAbs x = x.natAbs ∧
    (signOf x).length + (digitsOf (numberAbs x)).length < 4 + 2 ↔ -10 ^ 4 < x
  rw [habs, length_lt_iff (by decide)]
  omega

/-- Nine digits have. -/
theorem converts_I32 (hrange : Integer.I32.min ≤ x ∧ x ≤ Integer.I32.max) :
    Converts .I32 ⟨x, hrange⟩ ↔ -10 ^ 9 < x := by
  have hbounds : -2 ^ 31 ≤ x ∧ x ≤ 2 ^ 31 - 1 := hrange
  have habs : numberAbs x = x.natAbs := numberAbs_of_lt (by omega)
  rw [converts_signed _ rfl]
  change numberAbs x = x.natAbs ∧
    (signOf x).length + (digitsOf (numberAbs x)).length < 9 + 2 ↔ -10 ^ 9 < x
  rw [habs, length_lt_iff (by decide)]
  omega

/-- Of 64 bits there is room for all, and 32 are converted. -/
theorem converts_I64 (hrange : Integer.I64.min ≤ x ∧ x ≤ Integer.I64.max) :
    Converts .I64 ⟨x, hrange⟩ ↔ -2 ^ 32 < x ∧ x < 2 ^ 32 := by
  have hlt := numberAbs_lt x
  rw [converts_signed _ rfl]
  change numberAbs x = x.natAbs ∧
    (signOf x).length + (digitsOf (numberAbs x)).length < 19 + 2 ↔ -2 ^ 32 < x ∧ x < 2 ^ 32
  rw [length_lt_iff (by decide)]
  refine ⟨fun ⟨heq, _⟩ => by omega, fun h => ?_⟩
  have heq : numberAbs x = x.natAbs := numberAbs_of_lt (by omega)
  exact ⟨heq, by omega⟩

/-! ## The result -/

/-- **A number is converted exactly where there is room for it.** -/
theorem converts_iff (type : Integer) (number : type.Value) :
    Converts type number ↔ HasRoom type number.val := by
  obtain ⟨x, hrange⟩ := number
  cases type with
  | U16 => exact iff_of_true (converts_unsigned _ rfl) trivial
  | U32 => exact iff_of_true (converts_unsigned _ rfl) trivial
  | U64 => exact iff_of_true (converts_unsigned _ rfl) trivial
  | I16 => exact converts_I16 hrange
  | I32 => exact converts_I32 hrange
  | I64 => exact converts_I64 hrange

/-- **The least value of each signed type** is not converted: the sign of the
first two is before the buffer, and of the third there is only a 0. -/
theorem not_converts_min : ¬Converts .I16 ⟨-2 ^ 15, by decide⟩ ∧
    ¬Converts .I32 ⟨-2 ^ 31, by decide⟩ ∧ ¬Converts .I64 ⟨-2 ^ 63, by decide⟩ := by
  rw [converts_I16, converts_I32, converts_I64]
  decide

end Stdlib

end Uberos
