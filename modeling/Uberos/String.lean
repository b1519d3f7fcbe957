import Mathlib.Algebra.Group.Nat.Defs
import Mathlib.Data.List.TakeWhile
import Mathlib.Tactic.Common
import Uberos.Target
/-!
# Strings

`String8` of `common/String.hpp` as its `length` characters, and `utoa` of
`common/stdlib.cpp`. Up to 15 characters stand in a buffer that shares its
memory with the pointer and the size a longer string has instead.
-/

namespace Uberos

/-- What is read of a `const char*`: up to the first null. -/
def cString (text : List Char) : List Char := text.takeWhile (· ≠ '\x00')

namespace String8

variable (T : Target)

/-- `localBufferSize`. -/
def localBufferSize : ℕ := max 8 (16 / 1)

/-- `is_local_string()`. -/
def IsLocal (s : List Char) : Prop := s.length + 1 ≤ localBufferSize

instance (s : List Char) : Decidable (IsLocal s) := inferInstanceAs (Decidable (_ ≤ _))

/-- A number as it stands in so many bytes of memory. -/
def bytes (number : ℕ) : ℕ → List Char
  | 0 => []
  | count + 1 => Char.ofNat (number % 256) :: bytes (number / 256) count

/-- `resize` of a local string that is to be longer than its buffer: the
pointer and the size are set before the characters they are set over are
copied. -/
def resizeLocal (buffer newSize : ℕ) (s : List Char) : List Char :=
  let written := bytes buffer T.wordBytes ++ bytes newSize 4
  written.take s.length ++ s.drop written.length

/-- `append(source)`, with the address of the buffer a resize is given. -/
def append (buffer : ℕ) (s source : List Char) : List Char :=
  let source := cString source
  if source.length < 1 then s
  else if IsLocal s ∧ s.length + source.length + 1 > localBufferSize then
    resizeLocal T buffer (s.length + source.length) s ++ source
  else s ++ source

/-- The constructor. An empty string has nothing to lose to a resize. -/
def new (data : List Char) : List Char := cString data

/-- `==` of a string and a `const char*`. -/
def Equals (s b : List Char) : Prop := s = cString b

instance (s b : List Char) : Decidable (Equals s b) := inferInstanceAs (Decidable (_ = _))

variable {T} {s source : List Char} {buffer : ℕ}

theorem cString_eq (h : '\x00' ∉ s) : cString s = s := by
  rw [cString, List.takeWhile_eq_self_iff]
  intro c hc
  simpa using fun heq : c = '\x00' => h (heq ▸ hc)

theorem null_notMem_cString : '\x00' ∉ cString s := by
  intro h
  simpa using List.mem_takeWhile_imp h

/-- **What fits the buffer is appended.** -/
theorem append_eq (hfits : s.length + (cString source).length < localBufferSize) :
    append T buffer s source = s ++ cString source := by
  rw [append]
  split
  · rename_i hempty
    rw [List.length_eq_zero_iff.1 (Nat.lt_one_iff.1 hempty), List.append_nil]
  · rw [if_neg (by omega)]

/-- **A string that leaves its buffer does not keep its characters.** -/
example : append .x86_32 0x41414141 "a name of 15 ch".toList "1".toList =
    "AAAA\x10\x00\x00\x00f 15 ch1".toList := by decide

end String8

/-! ## Numbers -/

/-- The loop of `_utoa`, which writes from the end of a buffer of so many
digits. -/
def utoaLoop : ℕ → ℕ → List Char → List Char
  | 0, _, written => written
  | slots + 1, number, written =>
    let written := Char.ofNat (number % 10 + '0'.toNat) :: written
    if number / 10 > 0 then utoaLoop slots (number / 10) written else written

/-- `utoa(number)` of a `U32`, in a buffer of ten digits. -/
def utoa (number : ℕ) : List Char := utoaLoop 10 number []

/-- The number that digits spell after others that spell `high`. -/
def spelled (high : ℕ) (text : List Char) : ℕ :=
  text.foldl (fun high c => 10 * high + (c.toNat - '0'.toNat)) high

variable {number number' slots : ℕ} {written : List Char}

theorem digit_toNat : ∀ d < 10, (Char.ofNat (d + '0'.toNat)).toNat - '0'.toNat = d := by decide

theorem digit_isDigit : ∀ d < 10, (Char.ofNat (d + '0'.toNat)).isDigit = true := by decide

/-- The loop spells its number before what is written already. -/
theorem spelled_utoaLoop (hslots : number < 10 ^ slots) (written : List Char) :
    spelled 0 (utoaLoop slots number written) = spelled number written := by
  induction slots generalizing number written with
  | zero =>
    obtain rfl : number = 0 := by simpa using hslots
    rfl
  | succ slots ih =>
    have hdigit := digit_toNat (number % 10) (Nat.mod_lt _ (by decide))
    rw [Nat.pow_succ] at hslots
    rw [utoaLoop]
    split
    · rw [ih (Nat.div_lt_of_lt_mul (by omega)), spelled, List.foldl_cons, hdigit,
        Nat.div_add_mod]
      rfl
    · rw [spelled, List.foldl_cons, hdigit, show 10 * 0 + number % 10 = number by omega]
      rfl

/-- **`utoa` spells its number**, and so tells numbers apart. -/
theorem spelled_utoa (h : number < 2 ^ 32) : spelled 0 (utoa number) = number :=
  spelled_utoaLoop (Nat.lt_trans h (by decide)) []

theorem utoa_injective (h : number < 2 ^ 32) (h' : number' < 2 ^ 32)
    (heq : utoa number = utoa number') : number = number' := by
  rw [← spelled_utoa h, heq, spelled_utoa h']

theorem utoaLoop_ne_nil (hwritten : written ≠ []) : utoaLoop slots number written ≠ [] := by
  induction slots generalizing number written with
  | zero => exact hwritten
  | succ slots ih =>
    rw [utoaLoop]
    split
    · exact ih (List.cons_ne_nil _ _)
    · exact List.cons_ne_nil _ _

theorem utoa_ne_nil (number : ℕ) : utoa number ≠ [] := by
  rw [utoa, utoaLoop]
  split
  · exact utoaLoop_ne_nil (List.cons_ne_nil _ _)
  · exact List.cons_ne_nil _ _

theorem isDigit_of_mem_utoaLoop (hwritten : ∀ c ∈ written, c.isDigit = true) :
    ∀ c ∈ utoaLoop slots number written, c.isDigit = true := by
  induction slots generalizing number written with
  | zero => exact hwritten
  | succ slots ih =>
    have hdigit := digit_isDigit (number % 10) (Nat.mod_lt _ (by decide))
    have hmore : ∀ c ∈ Char.ofNat (number % 10 + '0'.toNat) :: written, c.isDigit = true := by
      intro c hc
      rcases List.mem_cons.1 hc with rfl | hc
      · exact hdigit
      · exact hwritten c hc
    rw [utoaLoop]
    split
    · exact ih hmore
    · exact hmore

/-- Every character is a digit, -/
theorem isDigit_of_mem_utoa {c : Char} (hc : c ∈ utoa number) : c.isDigit = true :=
  isDigit_of_mem_utoaLoop (fun _ hc => absurd hc List.not_mem_nil) c hc

/-- and none is null. -/
theorem cString_utoa (number : ℕ) : cString (utoa number) = utoa number :=
  String8.cString_eq fun h => absurd (isDigit_of_mem_utoa h) (by decide)

end Uberos
