import Mathlib.Algebra.Group.Nat.Defs
import Mathlib.Algebra.Ring.Int.Defs
import Mathlib.Data.List.DropRight
import Mathlib.Data.List.GetD
import Mathlib.Logic.Function.Basic
/-!
# The strings of an ATA info block

`Infoblock::_copy_string` of `drivers/x86/storage/ide/InfoBlock.hpp`. The
buffer is by offset, with the memory on both sides of it; it has a byte more
than the field. What is read and written is logged, the last first.
-/

namespace Uberos

namespace Ide

/-- A field of an even length, `C8 data[length]`. -/
structure Field where
  data : List UInt8
  even : data.length % 2 = 0

/-- A byte that is read or written. -/
inductive Access
  | data (index : ℕ)
  | buffer (offset : ℤ)
  deriving DecidableEq, Repr

/-- The buffer with the memory around it, and the pointer `c` into it. -/
structure Copy where
  buffer : ℤ → UInt8
  c : ℤ
  accesses : List Access

/-- `' '` -/
def space : UInt8 := 0x20

namespace Copy

/-- `*(c++) = data[index]` -/
def take (copy : Copy) (field : Field) (index : UInt32) : Copy where
  buffer := Function.update copy.buffer copy.c (field.data.getD index.toNat 0)
  c := copy.c + 1
  accesses := .buffer copy.c :: .data index.toNat :: copy.accesses

/-- `*c = '\0'` -/
def terminate (copy : Copy) : Copy :=
  { copy with
    buffer := Function.update copy.buffer copy.c 0
    accesses := .buffer copy.c :: copy.accesses }

/-- `c[-1]` is read. -/
def peek (copy : Copy) : Copy := { copy with accesses := .buffer (copy.c - 1) :: copy.accesses }

/-- `--c` -/
def back (copy : Copy) : Copy := { copy with c := copy.c - 1 }

/-- The loop that copies, in so many turns. `i` is an `unsigned`. -/
def copyLoop (field : Field) : (turns : ℕ) → (i : UInt32) → Copy → Option Copy
  | 0, _, _ => none
  | turns + 1, i, copy =>
    if i.toNat < field.data.length then
      copyLoop field turns (i + 2) ((copy.take field (i + 1)).take field (i + 0))
    else some copy

/-- The loop that trims, in so many turns. -/
def trimLoop : (turns : ℕ) → Copy → Option Copy
  | 0, _ => none
  | turns + 1, copy =>
    if copy.buffer (copy.c - 1) = space then trimLoop turns copy.peek.back.terminate
    else some copy.peek

end Copy

/-- `_copy_string`, with so many turns for each loop. The buffer is `static`:
it has what the last call left. -/
def copyString (turns : ℕ) (field : Field) (buffer : ℤ → UInt8) : Option Copy := do
  let copy ← Copy.copyLoop field turns 0 ⟨buffer, 0, []⟩
  Copy.trimLoop turns copy.terminate

/-! ## What it is for -/

/-- The bytes of a field with every two of them swapped. -/
def swapped : List UInt8 → List UInt8
  | first :: second :: rest => second :: first :: swapped rest
  | rest => rest

/-- The string of a field. -/
def text (field : Field) : List UInt8 := (swapped field.data).rdropWhile (· == space)

/-- Inside the field, or inside the buffer. -/
def Inside (field : Field) : Access → Prop
  | .data index => index < field.data.length
  | .buffer offset => 0 ≤ offset ∧ offset ≤ field.data.length

/-- A string is at the start of a buffer, with its end. -/
structure Holds (buffer : ℤ → UInt8) (string : List UInt8) : Prop where
  bytes : ∀ (i : ℕ) (h : i < string.length), buffer i = string[i]
  nul : buffer string.length = 0

/-- **A field is copied**: it ends, its string is what it leaves, and it reads
and writes inside the field and the buffer only. -/
def CopiesString (field : Field) (buffer : ℤ → UInt8) : Prop :=
  ∃ turns copy, copyString turns field buffer = some copy ∧ Holds copy.buffer (text field) ∧
    ∀ access ∈ copy.accesses, Inside field access

variable {field : Field} {copy copy' : Copy} {turns n : ℕ} {i : UInt32} {buffer : ℤ → UInt8}

/-! ## The copy -/

theorem length_swapped (bytes : List UInt8) : (swapped bytes).length = bytes.length := by
  fun_induction swapped bytes with
  | case1 first second rest ih => simp [ih]
  | case2 rest h => rfl

/-- The byte that goes to an even place, and the one that goes after it. -/
theorem getD_swapped (bytes : List UInt8) (k : ℕ) (h : 2 * k + 1 < bytes.length) :
    (swapped bytes).getD (2 * k) 0 = bytes.getD (2 * k + 1) 0 ∧
      (swapped bytes).getD (2 * k + 1) 0 = bytes.getD (2 * k) 0 := by
  induction bytes using swapped.induct generalizing k with
  | case1 first second rest ih =>
    cases k with
    | zero => exact ⟨rfl, rfl⟩
    | succ k =>
      rw [List.length_cons, List.length_cons] at h
      exact ih k (by omega)
  | case2 rest hrest =>
    match rest, h with
    | first :: second :: rest, _ => exact (hrest first second rest rfl).elim

/-- **So many bytes are copied**, and nothing else was touched. -/
structure Copied (field : Field) (n : ℕ) (copy : Copy) : Prop where
  c_eq : copy.c = n
  bytes : ∀ j < n, copy.buffer j = (swapped field.data).getD j 0
  inside : ∀ access ∈ copy.accesses, Inside field access

theorem copied_zero : Copied field 0 ⟨buffer, 0, []⟩ where
  c_eq := rfl
  bytes j hj := absurd hj (Nat.not_lt_zero j)
  inside _ haccess := absurd haccess List.not_mem_nil

/-- A byte is copied after so many. -/
theorem Copied.take {index : UInt32} (h : Copied field n copy) (hn : n < field.data.length)
    (hindex : index.toNat < field.data.length)
    (hbyte : (swapped field.data).getD n 0 = field.data.getD index.toNat 0) :
    Copied field (n + 1) (copy.take field index) where
  c_eq := by
    have hc := h.c_eq
    change copy.c + 1 = _
    omega
  bytes j hj := by
    have hc := h.c_eq
    change Function.update copy.buffer copy.c _ _ = _
    obtain hlt | rfl : j < n ∨ j = n := by omega
    · rw [Function.update_of_ne (by omega)]
      exact h.bytes j hlt
    · rw [hc, Function.update_self]
      exact hbyte.symm
  inside access haccess := by
    have hc := h.c_eq
    obtain rfl | hrest := List.mem_cons.mp haccess
    · exact ⟨by omega, by omega⟩
    · obtain rfl | hrest := List.mem_cons.mp hrest
      · exact hindex
      · exact h.inside access hrest

/-- A turn of the loop copies two bytes. -/
theorem Copied.turn (h : Copied field i.toNat copy) (heven : i.toNat % 2 = 0)
    (hi : i.toNat < field.data.length) (hlength : field.data.length < 2 ^ 32) :
    (i + 2).toNat % 2 = 0 ∧ (i + 2).toNat = i.toNat + 2 ∧
      Copied field (i + 2).toNat ((copy.take field (i + 1)).take field (i + 0)) := by
  have hfield := field.even
  have hone : (i + 1).toNat = i.toNat + 1 := by
    rw [UInt32.toNat_add]
    exact Nat.mod_eq_of_lt (by simp; omega)
  have htwo : (i + 2).toNat = i.toNat + 2 := by
    rw [UInt32.toNat_add]
    exact Nat.mod_eq_of_lt (by simp; omega)
  have hsame : i + 0 = i := UInt32.add_zero i
  obtain ⟨hfirst, hsecond⟩ := getD_swapped field.data (i.toNat / 2) (by omega)
  rw [show 2 * (i.toNat / 2) = i.toNat by omega] at hfirst hsecond
  refine ⟨by omega, htwo, ?_⟩
  rw [htwo, hsame]
  exact (h.take hi (by omega) (by rw [hone]; exact hfirst)).take (by omega) hi hsecond

/-- What the loop leaves. -/
theorem copied_of_copyLoop (hlength : field.data.length < 2 ^ 32)
    (h : Copied field i.toNat copy) (heven : i.toNat % 2 = 0) (hi : i.toNat ≤ field.data.length)
    (hresult : copy.copyLoop field turns i = some copy') :
    Copied field field.data.length copy' := by
  induction turns generalizing i copy with
  | zero => cases hresult
  | succ turns ih =>
    rw [Copy.copyLoop] at hresult
    split at hresult
    · rename_i hlt
      have hfield := field.even
      obtain ⟨heven', hnext, hturn⟩ := h.turn heven hlt hlength
      exact ih hturn heven' (by omega) hresult
    · obtain rfl := Option.some.inj hresult
      rwa [show i.toNat = field.data.length by omega] at h

/-- It ends where the field is not longer than an `unsigned` is wide. -/
theorem exists_copyLoop (hlength : field.data.length < 2 ^ 32)
    (h : Copied field i.toNat copy) (heven : i.toNat % 2 = 0) (hi : i.toNat ≤ field.data.length)
    (hturns : field.data.length < i.toNat + turns) :
    ∃ copy', copy.copyLoop field turns i = some copy' := by
  induction turns generalizing i copy with
  | zero => exact absurd hturns (Nat.not_lt_of_le hi)
  | succ turns ih =>
    rw [Copy.copyLoop]
    split
    · rename_i hlt
      have hfield := field.even
      obtain ⟨heven', hnext, hturn⟩ := h.turn heven hlt hlength
      exact ih hturn heven' (by omega) (by omega)
    · exact ⟨copy, rfl⟩

/-- **It does not end** where it is: `i` is less than the length for ever. -/
theorem copyLoop_eq_none (hlength : 2 ^ 32 ≤ field.data.length) :
    copy.copyLoop field turns i = none := by
  induction turns generalizing i copy with
  | zero => rfl
  | succ turns ih =>
    have hi : i.toNat < 2 ^ 32 := i.toNat_lt
    rw [Copy.copyLoop, if_pos (by omega)]
    exact ih

/-! ## The trimming -/

/-- **So much of the string is left to trim.** -/
structure Trimming (field : Field) (string : List UInt8) (copy : Copy) : Prop where
  c_eq : copy.c = string.length
  length_le : string.length ≤ field.data.length
  holds : Holds copy.buffer string
  inside : ∀ access ∈ copy.accesses, Inside field access

theorem Copied.trimming (h : Copied field field.data.length copy) :
    Trimming field (swapped field.data) copy.terminate where
  c_eq := by rw [length_swapped]; exact h.c_eq
  length_le := Nat.le_of_eq (length_swapped _)
  holds := by
    have hc := h.c_eq
    refine ⟨fun j hj => ?_, ?_⟩
    · rw [length_swapped] at hj
      change Function.update copy.buffer copy.c 0 j = _
      rw [Function.update_of_ne (by omega), h.bytes j hj]
      exact List.getD_eq_getElem _ _ _
    · rw [length_swapped, ← hc]
      exact Function.update_self _ _ _
  inside access haccess := by
    have hc := h.c_eq
    obtain rfl | hrest := List.mem_cons.mp haccess
    · exact ⟨by omega, by omega⟩
    · exact h.inside access hrest

section Trim

variable {string : List UInt8} {last : UInt8}

/-- What is read is the last byte, inside the buffer. -/
theorem Trimming.peek (h : Trimming field (string ++ [last]) copy) :
    copy.buffer (copy.c - 1) = last ∧ ∀ access ∈ copy.peek.accesses, Inside field access := by
  have hc := h.c_eq
  have hle := h.length_le
  rw [List.length_append, List.length_singleton] at hc hle
  constructor
  · have hlast := h.holds.bytes string.length (by simp)
    rw [List.getElem_concat_length rfl] at hlast
    rw [← hlast]
    exact congrArg copy.buffer (by omega)
  · intro access haccess
    obtain rfl | hrest := List.mem_cons.mp haccess
    · exact ⟨by omega, by omega⟩
    · exact h.inside access hrest

/-- A space is taken off. -/
theorem Trimming.back (h : Trimming field (string ++ [last]) copy) :
    Trimming field string copy.peek.back.terminate := by
  have hc := h.c_eq
  have hle := h.length_le
  rw [List.length_append, List.length_singleton] at hc hle
  refine ⟨by change copy.c - 1 = _; omega, by omega, ⟨fun j hj => ?_, ?_⟩, ?_⟩
  · have hbyte := h.holds.bytes j (by simp; omega)
    rw [List.getElem_append_left hj] at hbyte
    change Function.update copy.buffer (copy.c - 1) 0 j = _
    rw [Function.update_of_ne (by omega), hbyte]
  · change Function.update copy.buffer (copy.c - 1) 0 string.length = _
    rw [show copy.c - 1 = string.length by omega]
    exact Function.update_self _ _ _
  · intro access haccess
    obtain rfl | hrest := List.mem_cons.mp haccess
    · change 0 ≤ copy.c - 1 ∧ copy.c - 1 ≤ _
      omega
    · exact h.peek.2 access hrest

/-- **A string with something in it is trimmed**, from its end. -/
theorem exists_trimLoop (h : Trimming field string copy) (hbyte : ∃ byte ∈ string, byte ≠ space)
    (hturns : string.length < turns) :
    ∃ copy', copy.trimLoop turns = some copy' ∧
      Holds copy'.buffer (string.rdropWhile (· == space)) ∧
      ∀ access ∈ copy'.accesses, Inside field access := by
  induction string using List.reverseRecOn generalizing copy turns with
  | nil =>
    obtain ⟨byte, hmem, -⟩ := hbyte
    cases hmem
  | append_singleton string last ih =>
    rw [List.length_append, List.length_singleton] at hturns
    obtain ⟨turns, rfl⟩ : ∃ more, turns = more + 1 := ⟨turns - 1, by omega⟩
    obtain ⟨hpeek, hinside⟩ := h.peek
    rw [Copy.trimLoop, hpeek]
    by_cases hspace : last = space
    · obtain ⟨byte, hmem, hne⟩ := hbyte
      obtain hmem | hmem := List.mem_append.mp hmem
      · rw [if_pos hspace, List.rdropWhile_concat_pos _ _ _ (by simpa using hspace)]
        exact ih h.back ⟨byte, hmem, hne⟩ (by omega)
      · exact absurd ((List.mem_singleton.mp hmem).trans hspace) hne
    · rw [if_neg hspace, List.rdropWhile_concat_neg _ _ _ (by simpa using hspace)]
      exact ⟨copy.peek, rfl, h.holds, hinside⟩

/-- What was read and written stays in the log. -/
theorem mem_accesses_of_trimLoop {access : Access} (hresult : copy.trimLoop turns = some copy')
    (h : access ∈ copy.accesses) : access ∈ copy'.accesses := by
  induction turns generalizing copy with
  | zero => cases hresult
  | succ turns ih =>
    rw [Copy.trimLoop] at hresult
    split at hresult
    · exact ih hresult (List.mem_cons_of_mem _ (List.mem_cons_of_mem _ h))
    · obtain rfl := Option.some.inj hresult
      exact List.mem_cons_of_mem _ h

/-- **A string of spaces only is trimmed past its start.** -/
theorem mem_accesses_of_spaces (h : Trimming field string copy)
    (hspaces : ∀ byte ∈ string, byte = space) (hresult : copy.trimLoop turns = some copy') :
    .buffer (-1) ∈ copy'.accesses := by
  induction string using List.reverseRecOn generalizing copy turns with
  | nil =>
    have hc := h.c_eq
    have hpeek : .buffer (-1) ∈ copy.peek.accesses := by
      rw [Copy.peek, hc]
      exact List.mem_cons_self
    cases turns with
    | zero => cases hresult
    | succ turns =>
      rw [Copy.trimLoop] at hresult
      split at hresult
      · exact mem_accesses_of_trimLoop hresult (List.mem_cons_of_mem _ hpeek)
      · obtain rfl := Option.some.inj hresult
        exact hpeek
  | append_singleton string last ih =>
    have hlast : last = space := hspaces last (by simp)
    cases turns with
    | zero => cases hresult
    | succ turns =>
      rw [Copy.trimLoop, h.peek.1, if_pos hlast] at hresult
      exact ih h.back (fun byte hmem => hspaces byte (by simp [hmem])) hresult

end Trim

/-! ## The result -/

/-- Swapping keeps what bytes there are. -/
theorem mem_swapped {byte : UInt8} (bytes : List UInt8) :
    byte ∈ swapped bytes ↔ byte ∈ bytes := by
  fun_induction swapped bytes with
  | case1 first second rest ih =>
    simp only [List.mem_cons, ih]
    exact or_left_comm
  | case2 rest h => exact Iff.rfl

/-- The byte before the buffer is read where there are spaces only. -/
theorem mem_accesses_of_copyString (hlength : field.data.length < 2 ^ 32)
    (hspaces : ∀ byte ∈ field.data, byte = space)
    (hresult : copyString turns field buffer = some copy) : .buffer (-1) ∈ copy.accesses := by
  obtain ⟨copied, hcopy, htrim⟩ := Option.bind_eq_some_iff.mp hresult
  have hcopied : Copied field field.data.length copied :=
    copied_of_copyLoop hlength copied_zero rfl (Nat.zero_le _) hcopy
  exact mem_accesses_of_spaces hcopied.trimming
    (fun byte hmem => hspaces byte ((mem_swapped _).mp hmem)) htrim

/-- A field with something in it is copied. -/
theorem copiesString_of_ne (hlength : field.data.length < 2 ^ 32)
    (hbyte : ∃ byte ∈ field.data, byte ≠ space) : CopiesString field buffer := by
  have hzero : Copied field (0 : UInt32).toNat ⟨buffer, 0, []⟩ := copied_zero
  obtain ⟨copied, hcopy⟩ :
      ∃ copied, Copy.copyLoop field (field.data.length + 1) 0 ⟨buffer, 0, []⟩ = some copied :=
    exists_copyLoop hlength hzero rfl (Nat.zero_le _) (by simp)
  have hcopied : Copied field field.data.length copied :=
    copied_of_copyLoop hlength hzero rfl (Nat.zero_le _) hcopy
  obtain ⟨byte, hmem, hne⟩ := hbyte
  obtain ⟨copy, htrim, hholds, hinside⟩ := exists_trimLoop hcopied.trimming
    ⟨byte, (mem_swapped _).mpr hmem, hne⟩ (by rw [length_swapped]; exact Nat.lt_succ_self _)
  refine ⟨field.data.length + 1, copy, ?_, hholds, hinside⟩
  rw [copyString, hcopy]
  exact htrim

/-- **A field is copied exactly where** it has something but spaces, and is no
longer than an `unsigned` is wide. -/
theorem copiesString_iff (field : Field) (buffer : ℤ → UInt8) :
    CopiesString field buffer ↔
      field.data.length < 2 ^ 32 ∧ ∃ byte ∈ field.data, byte ≠ space := by
  constructor
  · rintro ⟨turns, copy, hresult, -, hinside⟩
    obtain hlength | hlength := Nat.lt_or_ge field.data.length (2 ^ 32)
    · refine ⟨hlength, ?_⟩
      by_contra hnone
      have hspaces : ∀ byte ∈ field.data, byte = space := by
        intro byte hmem
        by_contra hne
        exact hnone ⟨byte, hmem, hne⟩
      have hbefore := hinside _ (mem_accesses_of_copyString hlength hspaces hresult)
      exact absurd hbefore.1 (by decide)
    · rw [copyString, copyLoop_eq_none hlength] at hresult
      cases hresult
  · rintro ⟨hlength, hbyte⟩
    exact copiesString_of_ne hlength hbyte

theorem even_spaces : [space, space].length % 2 = 0 := rfl

/-- Spaces only. -/
def spaces : Field := ⟨[space, space], even_spaces⟩

/-- What is before the buffer is read. -/
theorem not_copiesString_spaces : ¬CopiesString spaces fun _ => 0 := by
  rintro ⟨turns, copy, hresult, -, hinside⟩
  have hlength : spaces.data.length < 2 ^ 32 := by simp [spaces]
  have hspaces : ∀ byte ∈ spaces.data, byte = space := by
    intro byte hmem
    simpa [spaces] using hmem
  have hbefore := hinside _ (mem_accesses_of_copyString hlength hspaces hresult)
  exact absurd hbefore.1 (by decide)

end Ide

end Uberos
