import Mathlib.Data.Int.Notation
import Mathlib.Tactic.Common
import Uberos.Library.Scan
/-!
# Strings, and the search for one in another

`strlen`, `strncmp`, `strchr` and `strstr` of `common/stdlib.cpp`, over
texts that are read a character at a time: what a `const char*` points to
and a literal are both such texts. A search ends at the first place where
the needle is found, or at the null; it finds the needle also where the
text ends inside it. `memcmp` compares two such texts as bytes.
-/

namespace Uberos

open Library Library.Scan

namespace Stdlib

variable {μ ρ : Type}

/-- What a `const char*` points to: the character so many further on. -/
abbrev Text (μ ρ : Type) := ℕ → Scan μ ρ UInt8

/-- A literal, with its null. -/
def literal (characters : List UInt8) : Text μ ρ := fun i => pure (characters.getD i 0)

/-- `*str1 - *str2`, of a `char` that is signed. -/
def difference (a b : UInt8) : ℤ := a.toInt8.toInt - b.toInt8.toInt

/-- A turn of `strlen`: one character more, unless it is the null. -/
def strlenTurn (str : Text μ ρ) (length : ℕ) : Scan μ ρ (ℕ ⊕ ℕ) := do
  let character ← str length
  if character = 0 then pure (.inr length) else pure (.inl (length + 1))

/-- `strlen(str)`. -/
def strlen (str : Text μ ρ) : Scan μ ρ ℕ := .loop (strlenTurn str) 0

/-- `strncmp(str1, str2, length)`. -/
def strncmp (str1 str2 : Text μ ρ) : ℕ → Scan μ ρ ℤ
  | 0 => pure 0
  | length + 1 => do
    let a ← str1 0
    if a = 0 then pure 0
    else do
      let b ← str2 0
      if b = 0 then pure 0
      else if difference a b ≠ 0 then pure (difference a b)
      else strncmp (fun i => str1 (i + 1)) (fun i => str2 (i + 1)) length

/-- `memcmp(a, b, bytes)`. -/
def memcmp (a b : Text μ ρ) : ℕ → Scan μ ρ ℤ
  | 0 => pure 0
  | bytes + 1 => do
    let x ← a 0
    let y ← b 0
    if difference x y ≠ 0 then pure (difference x y)
    else memcmp (fun i => a (i + 1)) (fun i => b (i + 1)) bytes

/-- A turn of `strchr`. -/
def strchrTurn (str : Text μ ρ) (c : UInt8) (at_ : ℕ) : Scan μ ρ (ℕ ⊕ Option ℕ) := do
  let character ← str at_
  if character = 0 then pure (.inr none)
  else if character = c then pure (.inr (some at_))
  else pure (.inl (at_ + 1))

/-- `strchr(str, c)`, from a character of the text on. -/
def strchr (str : Text μ ρ) (c : UInt8) (start : ℕ) : Scan μ ρ (Option ℕ) :=
  .loop (strchrTurn str c) start

/-- A turn of `strstr`, for a needle of a length. -/
def strstrTurn (haystack needle : Text μ ρ) (length search : ℕ) :
    Scan μ ρ (ℕ ⊕ Option ℕ) := do
  let first ← needle 0
  let candidate ← strchr haystack first search
  match candidate with
  | none => pure (.inr none)
  | some search => do
    let diff ← strncmp (fun i => haystack (search + i)) needle length
    if diff = 0 then pure (.inr (some search)) else pure (.inl (search + 1))

/-- `strstr(haystack, needle)`. -/
def strstr (haystack needle : Text μ ρ) : Scan μ ρ (Option ℕ) := do
  let length ← strlen needle
  if length = 0 then pure (some 0) else .loop (strstrTurn haystack needle length) 0

/-! ## What is read -/

/-- A text's characters, and which of them may be read. -/
def Shows (P : ρ → Prop) (m : μ) (str : Text μ ρ) (characters : ℕ → UInt8)
    (inside : ℕ → Prop) : Prop :=
  ∀ i, Yields P m (str i) (characters i) (inside i)

variable {P : ρ → Prop} {m : μ} {str str1 str2 : Text μ ρ} {inside inside1 inside2 : ℕ → Prop}
  {characters text name : ℕ → UInt8} {n : ℕ}

theorem shows_literal (characters : List UInt8) :
    Shows P m (literal characters : Text μ ρ) (fun i => characters.getD i 0) fun _ => True :=
  fun _ => yields_pure

theorem Shows.drop (h : Shows P m str characters inside) (k : ℕ) :
    Shows P m (fun i => str (k + i)) (fun i => characters (k + i)) fun i => inside (k + i) :=
  fun i => h (k + i)

theorem Shows.tail (h : Shows P m str characters inside) :
    Shows P m (fun i => str (i + 1)) (fun i => characters (i + 1)) fun i => inside (i + 1) :=
  fun i => h (i + 1)

/-! ## One loop -/

/-- **`strlen` reads up to the null.** -/
theorem meets_strlen (h : Shows P m str characters inside) :
    Meets P m (strlen str) n ↔
      (∀ i < n, inside i ∧ characters i ≠ 0) ∧ inside n ∧ characters n = 0 := by
  have hmore : ∀ s s', Meets P m (strlenTurn str s) (.inl s') ↔
      (inside s ∧ characters s ≠ 0) ∧ s' = s + 1 := by
    intro s s'
    simp only [strlenTurn, (h _).meets_bind, meets_ite, meets_pure]
    grind
  have hdone : ∀ s n, Meets P m (strlenTurn str s) (.inr n) ↔
      (inside s ∧ characters s = 0) ∧ n = s := by
    intro s n
    simp only [strlenTurn, (h _).meets_bind, meets_ite, meets_pure]
    grind
  rw [strlen, meets_loop, reaches_iff_of_count hmore hdone]
  constructor
  · rintro ⟨k, hall, hend, rfl⟩
    simpa using And.intro hall hend
  · rintro ⟨hall, hend⟩
    exact ⟨n, by simpa using hall, by simpa using hend, (Nat.zero_add n).symm⟩

/-- **`strchr` reads up to the character or the null.** -/
theorem meets_strchr (h : Shows P m str characters inside) {c : UInt8} {start : ℕ}
    {found : Option ℕ} :
    Meets P m (strchr str c start) found ↔
      ∃ n, (∀ i < n, inside (start + i) ∧ characters (start + i) ≠ 0 ∧
          characters (start + i) ≠ c) ∧ inside (start + n) ∧
        ((characters (start + n) = 0 ∧ found = none) ∨
          (characters (start + n) ≠ 0 ∧ characters (start + n) = c ∧
            found = some (start + n))) := by
  have hmore : ∀ s s', Meets P m (strchrTurn str c s) (.inl s') ↔
      (inside s ∧ characters s ≠ 0 ∧ characters s ≠ c) ∧ s' = s + 1 := by
    intro s s'
    simp only [strchrTurn, (h _).meets_bind, meets_ite, meets_pure]
    grind
  have hdone : ∀ s found, Meets P m (strchrTurn str c s) (.inr found) ↔ inside s ∧
      ((characters s = 0 ∧ found = none) ∨
        (characters s ≠ 0 ∧ characters s = c ∧ found = some s)) := by
    intro s found
    simp only [strchrTurn, (h _).meets_bind, meets_ite, meets_pure]
    grind
  rw [strchr, meets_loop, reaches_iff_of_count hmore hdone]

/-! ## The comparison -/

/-- Texts that go on, and are equal, for some characters. -/
def Agree (a b : ℕ → UInt8) (n : ℕ) : Prop := ∀ i < n, a i ≠ 0 ∧ b i ≠ 0 ∧ a i = b i

theorem agree_succ {a b : ℕ → UInt8} : Agree a b (n + 1) ↔
    (a 0 ≠ 0 ∧ b 0 ≠ 0 ∧ a 0 = b 0) ∧ Agree (fun i => a (i + 1)) (fun i => b (i + 1)) n :=
  Nat.forall_lt_succ_left

/-- What `strncmp` calls equal: as far as both texts go on, they are. -/
def SameUpTo (a b : ℕ → UInt8) (n : ℕ) : Prop :=
  ∀ j < n, Agree a b j → a j = 0 ∨ b j = 0 ∨ a j = b j

/-- The characters of the first text that `strncmp` reads are inside. -/
def Compared (a b : ℕ → UInt8) (inside : ℕ → Prop) (n : ℕ) : Prop :=
  ∀ j < n, Agree a b j → inside j

theorem difference_eq_zero {a b : UInt8} : difference a b = 0 ↔ a = b := by
  rw [difference, Int.sub_eq_zero, Int8.toInt_inj]
  exact ⟨fun h => congrArg Int8.toUInt8 h, fun h => congrArg UInt8.toInt8 h⟩

/-- The value of `strncmp`. -/
def comparison (a b : ℕ → UInt8) : ℕ → ℤ
  | 0 => 0
  | n + 1 =>
    if a 0 = 0 ∨ b 0 = 0 then 0
    else if difference (a 0) (b 0) ≠ 0 then difference (a 0) (b 0)
    else comparison (fun i => a (i + 1)) (fun i => b (i + 1)) n

/-- **`strncmp` finds texts equal also where one of them ends.** -/
theorem comparison_eq_zero {a b : ℕ → UInt8} : comparison a b n = 0 ↔ SameUpTo a b n := by
  induction n generalizing a b with
  | zero => exact iff_of_true rfl fun j hj => absurd hj (Nat.not_lt_zero j)
  | succ n ih =>
    rw [comparison, SameUpTo, Nat.forall_lt_succ_left]
    have htail : ∀ j, Agree a b (j + 1) ↔ _ := fun j => agree_succ
    simp only [htail]
    by_cases hzero : a 0 = 0 ∨ b 0 = 0
    · rw [if_pos hzero]
      refine iff_of_true rfl ⟨fun _ => ?_, fun j _ h => ?_⟩
      · exact hzero.elim Or.inl fun h => Or.inr (Or.inl h)
      · exact absurd hzero (by grind)
    · by_cases heq : a 0 = b 0
      · rw [if_neg hzero, if_neg (not_not.2 (difference_eq_zero.2 heq)), ih]
        simp only [SameUpTo]
        grind
      · rw [if_neg hzero, if_pos (mt difference_eq_zero.1 heq), difference_eq_zero]
        refine iff_of_false heq fun h => ?_
        have hhead := h.1 fun i hi => absurd hi (Nat.not_lt_zero i)
        grind

/-- The characters of the second text are read where the first goes on. -/
def ComparedWith (a b : ℕ → UInt8) (inside : ℕ → Prop) (n : ℕ) : Prop :=
  ∀ j < n, Agree a b j → a j ≠ 0 → inside j

/-- What is compared of two texts, by the first character and the rest. -/
theorem compared_succ {a b : ℕ → UInt8} {inside : ℕ → Prop} :
    Compared a b inside (n + 1) ↔ inside 0 ∧ ((a 0 ≠ 0 ∧ b 0 ≠ 0 ∧ a 0 = b 0) →
      Compared (fun i => a (i + 1)) (fun i => b (i + 1)) (fun i => inside (i + 1)) n) := by
  rw [Compared, Nat.forall_lt_succ_left]
  simp only [agree_succ, Compared]
  grind [Agree]

theorem comparedWith_succ {a b : ℕ → UInt8} {inside : ℕ → Prop} :
    ComparedWith a b inside (n + 1) ↔ (a 0 ≠ 0 → inside 0) ∧
      ((a 0 ≠ 0 ∧ b 0 ≠ 0 ∧ a 0 = b 0) →
        ComparedWith (fun i => a (i + 1)) (fun i => b (i + 1)) (fun i => inside (i + 1)) n) := by
  rw [ComparedWith, Nat.forall_lt_succ_left]
  simp only [agree_succ, ComparedWith]
  grind [Agree]

/-- **`strncmp` reads up to the first difference or the end of a text.** -/
theorem meets_strncmp_iff (h1 : Shows P m str1 text inside1) (h2 : Shows P m str2 name inside2)
    {d : ℤ} : Meets P m (strncmp str1 str2 n) d ↔ Compared text name inside1 n ∧
      ComparedWith text name inside2 n ∧ comparison text name n = d := by
  induction n generalizing str1 str2 text name inside1 inside2 with
  | zero =>
    rw [strncmp, meets_pure, comparison, and_iff_right, and_iff_right]
    · exact fun j hj => absurd hj (Nat.not_lt_zero j)
    · exact fun j hj => absurd hj (Nat.not_lt_zero j)
  | succ n ih =>
    have htail := ih h1.tail h2.tail
    rw [strncmp, (h1 0).meets_bind, compared_succ, comparedWith_succ, comparison]
    simp only [meets_ite, (h2 0).meets_bind, meets_pure, htail]
    have hdiff : difference (text 0) (name 0) = 0 ↔ _ := difference_eq_zero
    grind

/-- The same where all of the second text may be read. -/
theorem meets_strncmp (h1 : Shows P m str1 text inside1) (h2 : Shows P m str2 name inside2)
    (hname : ∀ i < n, inside2 i) {d : ℤ} :
    Meets P m (strncmp str1 str2 n) d ↔
      Compared text name inside1 n ∧ comparison text name n = d := by
  have hwith : ComparedWith text name inside2 n := fun j hj _ _ => hname j hj
  rw [meets_strncmp_iff h1 h2, and_iff_right hwith]

/-- The value of `memcmp`. -/
def byteComparison (a b : ℕ → UInt8) : ℕ → ℤ
  | 0 => 0
  | n + 1 =>
    if difference (a 0) (b 0) ≠ 0 then difference (a 0) (b 0)
    else byteComparison (fun i => a (i + 1)) (fun i => b (i + 1)) n

theorem byteComparison_eq_zero {a b : ℕ → UInt8} :
    byteComparison a b n = 0 ↔ ∀ i < n, a i = b i := by
  induction n generalizing a b with
  | zero => exact iff_of_true rfl fun i hi => absurd hi (Nat.not_lt_zero i)
  | succ n ih =>
    rw [byteComparison, Nat.forall_lt_succ_left]
    by_cases heq : a 0 = b 0
    · rw [if_neg (not_not.2 (difference_eq_zero.2 heq)), ih]
      exact (and_iff_right heq).symm
    · rw [if_pos (mt difference_eq_zero.1 heq), difference_eq_zero]
      exact iff_of_false heq fun h => heq h.1

/-- What `memcmp` reads of the second text is inside. -/
def BytesCompared (a b : ℕ → UInt8) (inside : ℕ → Prop) (n : ℕ) : Prop :=
  ∀ j < n, (∀ i < j, a i = b i) → inside j

/-- **`memcmp` reads up to the first difference.** -/
theorem yields_memcmp (h1 : Shows P m str1 name inside1) (h2 : Shows P m str2 text inside2)
    (hname : ∀ i < n, inside1 i) :
    Yields P m (memcmp str1 str2 n) (byteComparison name text n)
      (BytesCompared name text inside2 n) := by
  induction n generalizing str1 str2 text name inside1 inside2 with
  | zero =>
    refine yields_pure.congr ?_ fun _ => rfl
    exact iff_of_true trivial fun j hj => absurd hj (Nat.not_lt_zero j)
  | succ n ih =>
    have htail := ih h1.tail h2.tail fun i hi => hname (i + 1) (Nat.succ_lt_succ hi)
    have hfirst : inside1 0 := hname 0 (Nat.succ_pos n)
    have hcompared : BytesCompared name text inside2 (n + 1) ↔ inside2 0 ∧
        (name 0 = text 0 →
          BytesCompared (fun i => name (i + 1)) (fun i => text (i + 1))
            (fun i => inside2 (i + 1)) n) := by
      rw [BytesCompared, Nat.forall_lt_succ_left]
      simp only [Nat.forall_lt_succ_left, BytesCompared]
      grind
    intro d
    have hdiff : difference (name 0) (text 0) = 0 ↔ _ := difference_eq_zero
    rw [memcmp, (h1 0).meets_bind, (h2 0).meets_bind, hcompared, byteComparison]
    simp only [meets_ite, meets_pure, htail d, hfirst, true_and]
    grind

/-! ## The search -/

/-- `strncmp` finds the name, of a length, at a character of the text. -/
def FoundAt (text name : ℕ → UInt8) (n k : ℕ) : Prop :=
  text k = name 0 ∧ SameUpTo (fun i => text (k + i)) name n

/-- The characters read to compare the name with the text there are inside. -/
def ComparedAt (text name : ℕ → UInt8) (inside : ℕ → Prop) (n k : ℕ) : Prop :=
  Compared (fun i => text (k + i)) name (fun i => inside (k + i)) n

/-- What a search ends with at a character. -/
def SearchEnds (text name : ℕ → UInt8) (n k : ℕ) (found : Option ℕ) : Prop :=
  (text k = 0 ∧ found = none) ∨ (FoundAt text name n k ∧ found = some k)

variable {haystack needle : Text μ ρ} {k : ℕ} {found : Option ℕ}

theorem inside_of_comparedAt (h : ComparedAt text name inside n k) (hn : 0 < n) : inside k :=
  h 0 hn fun i hi => absurd hi (Nat.not_lt_zero i)

/-- Where the name cannot begin, one character is read. -/
theorem comparedAt_of_ne (hne : text k = 0 ∨ text k ≠ name 0) (h : inside k) :
    ComparedAt text name inside n k := by
  intro j hj hagree
  rcases j with - | j
  · exact h
  · obtain ⟨hzero, -, heq⟩ := hagree 0 (Nat.succ_pos j)
    exact absurd heq (hne.resolve_left hzero)

/-- A turn goes on to the next character that may begin the name. -/
theorem meets_strstrTurn (h1 : Shows P m haystack text inside1) (h2 : Shows P m needle name inside2)
    (hname : ∀ i < n, inside2 i) (hn : 0 < n) {s : ℕ} {r : ℕ ⊕ Option ℕ} :
    Meets P m (strstrTurn haystack needle n s) r ↔
      ∃ k, (∀ i < k, inside1 (s + i) ∧ text (s + i) ≠ 0 ∧ text (s + i) ≠ name 0) ∧
        inside1 (s + k) ∧ ((text (s + k) = 0 ∧ r = .inr none) ∨
          (text (s + k) ≠ 0 ∧ text (s + k) = name 0 ∧ ComparedAt text name inside1 n (s + k) ∧
            r = if comparison (fun i => text (s + k + i)) name n = 0 then .inr (some (s + k))
              else .inl (s + k + 1))) := by
  have hfirst : inside2 0 := hname 0 hn
  rw [strstrTurn, (h2 0).meets_bind, and_iff_right hfirst, Scan.meets_bind]
  constructor
  · rintro ⟨found, hfound, hrest⟩
    obtain ⟨k, hall, hinside, (⟨hzero, rfl⟩ | ⟨hne, heq, rfl⟩)⟩ := (meets_strchr h1).1 hfound
    · exact ⟨k, hall, hinside, Or.inl ⟨hzero, (meets_pure.1 hrest).symm⟩⟩
    · obtain ⟨d, hd, hlast⟩ := Scan.meets_bind.1 hrest
      obtain ⟨hcompared, rfl⟩ := (meets_strncmp (h1.drop (s + k)) h2 hname).1 hd
      refine ⟨k, hall, hinside, Or.inr ⟨hne, heq, hcompared, ?_⟩⟩
      split
      · rename_i hsame
        rw [if_pos hsame] at hlast
        exact (meets_pure.1 hlast).symm
      · rename_i hsame
        rw [if_neg hsame] at hlast
        exact (meets_pure.1 hlast).symm
  · rintro ⟨k, hall, hinside, (⟨hzero, rfl⟩ | ⟨hne, heq, hcompared, rfl⟩)⟩
    · exact ⟨none, (meets_strchr h1).2 ⟨k, hall, hinside, Or.inl ⟨hzero, rfl⟩⟩, meets_pure.2 rfl⟩
    · refine ⟨some (s + k), (meets_strchr h1).2 ⟨k, hall, hinside, Or.inr ⟨hne, heq, rfl⟩⟩, ?_⟩
      have hdiff := (meets_strncmp (h1.drop (s + k)) h2 hname).2 ⟨hcompared, rfl⟩
      refine Scan.meets_bind.2 ⟨_, hdiff, ?_⟩
      split
      · exact meets_pure.2 rfl
      · exact meets_pure.2 rfl

/-- What the search goes past, from one character up to another: it is
read, and neither the null nor the name is there. -/
def Passed (text name : ℕ → UInt8) (inside : ℕ → Prop) (n s k : ℕ) : Prop :=
  ∀ i, s ≤ i → i < k → (text i ≠ 0 ∧ ¬FoundAt text name n i) ∧ ComparedAt text name inside n i

variable {s : ℕ}

/-- A turn goes past the characters the name does not begin with. -/
theorem passed_of_ne (h : ∀ i < k, inside (s + i) ∧ text (s + i) ≠ 0 ∧ text (s + i) ≠ name 0) :
    Passed text name inside n s (s + k) := by
  intro i hle hlt
  obtain ⟨hinside, hzero, hne⟩ := h (i - s) (by omega)
  rw [Nat.add_sub_cancel' hle] at hinside hzero hne
  exact ⟨⟨hzero, fun hfound => hne hfound.1⟩, comparedAt_of_ne (Or.inr hne) hinside⟩

/-- One more is passed where the name only begins, and the rest after it. -/
theorem Passed.next {k' : ℕ} (h : Passed text name inside n s k)
    (hnot : text k ≠ 0 ∧ ¬FoundAt text name n k) (hcompared : ComparedAt text name inside n k)
    (hrest : Passed text name inside n (k + 1) k') : Passed text name inside n s k' := by
  intro i hle hlt
  rcases Nat.lt_trichotomy i k with hbefore | rfl | hafter
  · exact h i hle hbefore
  · exact ⟨hnot, hcompared⟩
  · exact hrest i hafter hlt

/-- **A search that ends has passed everything before its end.** -/
theorem passed_of_reaches (h1 : Shows P m haystack text inside1)
    (h2 : Shows P m needle name inside2) (hname : ∀ i < n, inside2 i) (hn : 0 < n)
    (h : Reaches (fun s r => Meets P m (strstrTurn haystack needle n s) r) s found) :
    ∃ k, s ≤ k ∧ Passed text name inside1 n s k ∧ ComparedAt text name inside1 n k ∧
      SearchEnds text name n k found := by
  induction h with
  | @done s found hturn =>
    obtain ⟨k, hall, hinside, hend⟩ := (meets_strstrTurn h1 h2 hname hn).1 hturn
    refine ⟨s + k, Nat.le_add_right s k, passed_of_ne hall, ?_⟩
    rcases hend with ⟨hzero, hfound⟩ | ⟨-, heq, hcompared, hfound⟩
    · exact ⟨comparedAt_of_ne (Or.inl hzero) hinside, Or.inl ⟨hzero, Sum.inr.inj hfound⟩⟩
    -- `strncmp` tells whether the name that begins there goes on
    · split at hfound
      · rename_i hsame
        have hfoundAt : FoundAt text name n (s + k) := ⟨heq, comparison_eq_zero.1 hsame⟩
        exact ⟨hcompared, Or.inr ⟨hfoundAt, Sum.inr.inj hfound⟩⟩
      · cases hfound
  | @more s s' found hturn hrest ih =>
    obtain ⟨k, hall, hinside, hend⟩ := (meets_strstrTurn h1 h2 hname hn).1 hturn
    obtain ⟨k', hle, hpassed, hlast⟩ := ih
    rcases hend with ⟨-, hgoes⟩ | ⟨hzero, heq, hcompared, hgoes⟩
    · cases hgoes
    · split at hgoes
      · cases hgoes
      · rename_i hdiff
        obtain rfl : s' = s + k + 1 := Sum.inl.inj hgoes
        have hnot : ¬FoundAt text name n (s + k) := fun h => hdiff (comparison_eq_zero.2 h.2)
        exact ⟨k', by omega, (passed_of_ne hall).next ⟨hzero, hnot⟩ hcompared hpassed, hlast⟩

/-- The first character on the way that a turn may stop at. -/
theorem exists_first_stop (hsk : s ≤ k) (hstop : text k = 0 ∨ text k = name 0) :
    ∃ p, s + p ≤ k ∧ (text (s + p) = 0 ∨ text (s + p) = name 0) ∧
      ∀ i < p, text (s + i) ≠ 0 ∧ text (s + i) ≠ name 0 := by
  -- there is one at the end, so there is a first one
  have hexists : ∃ i, text (s + i) = 0 ∨ text (s + i) = name 0 := by
    refine ⟨k - s, ?_⟩
    rwa [Nat.add_sub_cancel' hsk]
  refine ⟨Nat.find hexists, ?_, Nat.find_spec hexists, fun i hi =>
    not_or.1 (Nat.find_min hexists hi)⟩
  have hle : Nat.find hexists ≤ k - s := by
    refine Nat.find_min' hexists ?_
    rwa [Nat.add_sub_cancel' hsk]
  omega

/-- **Where everything before an end can be passed, the search gets there.** -/
theorem reaches_of_passed (h1 : Shows P m haystack text inside1)
    (h2 : Shows P m needle name inside2) (hname : ∀ i < n, inside2 i ∧ name i ≠ 0) (hn : 0 < n)
    (hsk : s ≤ k) (hpassed : Passed text name inside1 n s k)
    (hcompared : ComparedAt text name inside1 n k) (hend : SearchEnds text name n k found) :
    Reaches (fun s r => Meets P m (strstrTurn haystack needle n s) r) s found := by
  have hturn := fun s r => meets_strstrTurn (r := r) (s := s) h1 h2 (fun i hi => (hname i hi).1) hn
  -- by induction on what is left up to there
  induction hk : k - s using Nat.strong_induction_on generalizing s with
  | _ left ih =>
    obtain ⟨p, hpk, hp, hfirst⟩ := exists_first_stop hsk (hend.imp And.left fun h => h.1.1)
    have hall : ∀ i < p, inside1 (s + i) ∧ text (s + i) ≠ 0 ∧ text (s + i) ≠ name 0 := by
      intro i hi
      obtain ⟨-, hread⟩ := hpassed (s + i) (by omega) (by omega)
      exact ⟨inside_of_comparedAt hread hn, hfirst i hi⟩
    rcases Nat.lt_or_eq_of_le hpk with hlt | rfl
    · -- the name begins there, and goes on otherwise
      obtain ⟨⟨hzero, hnot⟩, hread⟩ := hpassed (s + p) (by omega) hlt
      have heq := hp.resolve_left hzero
      have hdiff : comparison (fun i => text (s + p + i)) name n ≠ 0 :=
        fun h => hnot ⟨heq, comparison_eq_zero.1 h⟩
      refine .more ((hturn s _).2 ⟨p, hall, inside_of_comparedAt hread hn,
        Or.inr ⟨hzero, heq, hread, ?_⟩⟩) (ih (k - (s + p + 1)) (by omega) (by omega) ?_ rfl)
      · rw [if_neg hdiff]
      · exact fun i hle hlt => hpassed i (by omega) hlt
    · have hinside := inside_of_comparedAt hcompared hn
      rcases hend with ⟨hzero, rfl⟩ | ⟨⟨heq, hsame⟩, rfl⟩
      · exact .done ((hturn s _).2 ⟨p, hall, hinside, Or.inl ⟨hzero, rfl⟩⟩)
      · have hzero : text (s + p) ≠ 0 := heq ▸ (hname 0 hn).2
        refine .done ((hturn s _).2 ⟨p, hall, hinside, Or.inr ⟨hzero, heq, hcompared, ?_⟩⟩)
        rw [if_pos (comparison_eq_zero.2 hsame)]

/-- From the first character on. -/
theorem passed_zero_iff : Passed text name inside n 0 k ∧ ComparedAt text name inside n k ↔
    (∀ i < k, text i ≠ 0 ∧ ¬FoundAt text name n i) ∧ ∀ i ≤ k, ComparedAt text name inside n i := by
  constructor
  · rintro ⟨hpassed, hlast⟩
    refine ⟨fun i hi => (hpassed i (Nat.zero_le i) hi).1, fun i hi => ?_⟩
    rcases Nat.lt_or_eq_of_le hi with hlt | rfl
    · exact (hpassed i (Nat.zero_le i) hlt).2
    · exact hlast
  · rintro ⟨hnot, hcompared⟩
    exact ⟨fun i _ hi => ⟨hnot i hi, hcompared i (Nat.le_of_lt hi)⟩, hcompared k (Nat.le_refl k)⟩

/-- **`strstr` reads up to where `strncmp` finds the needle, or to the
null.** -/
theorem meets_strstr (h1 : Shows P m haystack text inside1) (h2 : Shows P m needle name inside2)
    (hlength : Meets P m (strlen needle) n) (hn : 0 < n) :
    Meets P m (strstr haystack needle) found ↔
      ∃ k, (∀ i < k, text i ≠ 0 ∧ ¬FoundAt text name n i) ∧
        (∀ i ≤ k, ComparedAt text name inside1 n i) ∧ SearchEnds text name n k found := by
  have hname : ∀ i < n, inside2 i ∧ name i ≠ 0 := ((meets_strlen h2).1 hlength).1
  rw [strstr, Scan.meets_bind]
  constructor
  · rintro ⟨n', hn', hrest⟩
    obtain rfl := hn'.unique hlength
    rw [if_neg hn.ne', meets_loop] at hrest
    obtain ⟨k, -, hpassed, hlast, hend⟩ :=
      passed_of_reaches h1 h2 (fun i hi => (hname i hi).1) hn hrest
    obtain ⟨hnot, hcompared⟩ := passed_zero_iff.1 ⟨hpassed, hlast⟩
    exact ⟨k, hnot, hcompared, hend⟩
  · rintro ⟨k, hnot, hcompared, hend⟩
    obtain ⟨hpassed, hlast⟩ := passed_zero_iff.2 ⟨hnot, hcompared⟩
    refine ⟨n, hlength, ?_⟩
    rw [if_neg hn.ne', meets_loop]
    exact reaches_of_passed h1 h2 hname hn (Nat.zero_le k) hpassed hlast hend

end Stdlib

end Uberos
