import Mathlib.Data.List.GetD
import Mathlib.Data.List.Infix
import Uberos.Stdlib
/-!
# Strings that end inside the compared range

What `strncmp` and `strstr` of `common/stdlib.cpp` find in strings that end
with a null. `strncmp` takes a string that ends for one that is equal up to
there; so `strstr` finds, at the end of a string, what only begins there.
-/

namespace Uberos

open Library Library.Scan

namespace Stdlib

/-! ## What it is for -/

/-- The characters before a null. -/
structure CString where
  characters : List UInt8
  ne_zero : ∀ c ∈ characters, c ≠ 0

/-- The strings that a function is given. -/
inductive Argument
  | str1
  | str2
  deriving DecidableEq, Repr

namespace CString

def length (s : CString) : ℕ := s.characters.length

/-- A character of the string, its null, or what is in the memory after it. -/
def charAt (s : CString) (after : ℕ → UInt8) (i : ℕ) : UInt8 :=
  if i ≤ s.length then s.characters.getD i 0 else after i

/-- The string as it is read. -/
def text (s : CString) (argument : Argument) (after : ℕ → UInt8) : Text Unit (Argument × ℕ) :=
  fun i => .read (fun _ => s.charAt after i) (argument, i)

end CString

/-- What is read is no further on than the nulls. -/
def Inside (str1 str2 : CString) : Argument × ℕ → Prop
  | (.str1, i) => i ≤ str1.length
  | (.str2, i) => i ≤ str2.length

/-- The needle is in the haystack there. -/
def OccursAt (haystack needle : CString) (p : ℕ) : Prop :=
  p ≤ haystack.length ∧ needle.characters <+: haystack.characters.drop p

/-- The first place where it is, or none. -/
def First (haystack needle : CString) : Option ℕ → Prop
  | none => ∀ p, ¬OccursAt haystack needle p
  | some p => OccursAt haystack needle p ∧ ∀ q < p, ¬OccursAt haystack needle q

/-- **`strstr` finds the first occurrence**, reading no further than the
nulls. -/
def Finds (haystack needle : CString) : Prop :=
  ∀ after after', ∃ found, Meets (Inside haystack needle) ()
    (strstr (haystack.text .str1 after) (needle.text .str2 after')) found ∧
      First haystack needle found

/-- **`strncmp` tells whether the first `n` characters agree**, reading no
further than the nulls. -/
def Tells (a b : CString) (n : ℕ) : Prop :=
  ∀ after after', ∃ d, Meets (Inside a b) ()
    (strncmp (a.text .str1 after) (b.text .str2 after') n) d ∧
      (d = 0 ↔ a.characters.take n = b.characters.take n)

/-- The first string ends within `n` characters, where the second goes on. -/
def EndsWithin (a b : CString) (n : ℕ) : Prop :=
  a.characters <+: b.characters ∧ a.length < b.length ∧ a.length < n

/-- **The haystack holds the needle, or does not end in what the needle
begins with.** -/
def HoldsOrEndsApart (haystack needle : CString) : Prop :=
  needle.characters <:+: haystack.characters ∨
    ∀ suffix, suffix <:+ haystack.characters → suffix ≠ [] → ¬suffix <+: needle.characters

/-! ## Texts that spell a string -/

/-- The characters are those of a string, with its null. -/
structure Spells (f : ℕ → UInt8) (l : List UInt8) : Prop where
  characters : ∀ i ≤ l.length, f i = l.getD i 0
  ne_zero : ∀ c ∈ l, c ≠ 0

variable {f g : ℕ → UInt8} {l l' : List UInt8} {n k : ℕ} {c : UInt8}
variable {s a b haystack needle : CString} {argument : Argument} {after after' : ℕ → UInt8}

theorem CString.spells (s : CString) (after : ℕ → UInt8) :
    Spells (s.charAt after) s.characters where
  characters _ hi := if_pos hi
  ne_zero := s.ne_zero

theorem Spells.head (h : Spells f (c :: l)) : f 0 = c ∧ c ≠ 0 :=
  ⟨h.characters 0 (Nat.zero_le _), h.ne_zero c List.mem_cons_self⟩

theorem Spells.nil (h : Spells f []) : f 0 = 0 := h.characters 0 (Nat.le_refl 0)

theorem Spells.tail (h : Spells f (c :: l)) : Spells (fun i => f (i + 1)) l where
  characters i hi := h.characters (i + 1) (Nat.succ_le_succ hi)
  ne_zero c hc := h.ne_zero c (List.mem_cons_of_mem _ hc)

theorem Spells.drop (h : Spells f l) (hk : k ≤ l.length) :
    Spells (fun i => f (k + i)) (l.drop k) where
  characters i hi := by
    rw [List.length_drop] at hi
    rw [h.characters (k + i) (by omega), List.getD_eq_getElem?_getD, List.getD_eq_getElem?_getD,
      List.getElem?_drop]
  ne_zero c hc := h.ne_zero c (List.mem_of_mem_drop hc)

/-- The null is where the string ends. -/
theorem Spells.eq_zero_iff (h : Spells f l) (hk : k ≤ l.length) : f k = 0 ↔ k = l.length := by
  rw [h.characters k hk]
  rcases Nat.lt_or_eq_of_le hk with hlt | rfl
  · rw [List.getD_eq_getElem _ _ hlt]
    exact iff_of_false (h.ne_zero _ (List.getElem_mem hlt)) (Nat.ne_of_lt hlt)
  · exact iff_of_true (List.getD_eq_default _ _ (Nat.le_refl _)) rfl

/-- Texts agree as far as both go on. -/
theorem Agree.le_length (h : Agree f g n) (hf : Spells f l) (hg : Spells g l') :
    n ≤ l.length ∧ n ≤ l'.length := by
  constructor
  · refine Nat.le_of_not_lt fun hlt => (h l.length hlt).1 ?_
    exact (hf.eq_zero_iff (Nat.le_refl _)).2 rfl
  · refine Nat.le_of_not_lt fun hlt => (h l'.length hlt).2.1 ?_
    exact (hg.eq_zero_iff (Nat.le_refl _)).2 rfl

/-- **What `strncmp` finds equal**: one is how the other begins. -/
theorem comparison_eq_zero_iff (hf : Spells f l) (hg : Spells g l') :
    comparison f g n = 0 ↔ l.take n <+: l'.take n ∨ l'.take n <+: l.take n := by
  induction n generalizing f g l l' with
  | zero => simp [comparison]
  | succ n ih =>
    cases l with
    | nil =>
      rw [comparison, if_pos (Or.inl hf.nil)]
      exact iff_of_true rfl (Or.inl List.nil_prefix)
    | cons c l =>
      cases l' with
      | nil =>
        rw [comparison, if_pos (Or.inr hg.nil)]
        exact iff_of_true rfl (Or.inr List.nil_prefix)
      | cons c' l' =>
        obtain ⟨hc, hzero⟩ := hf.head
        obtain ⟨hc', hzero'⟩ := hg.head
        rw [comparison, hc, hc', if_neg (by simp [hzero, hzero']), List.take_succ_cons,
          List.take_succ_cons, List.cons_prefix_cons, List.cons_prefix_cons]
        by_cases heq : c = c'
        · rw [if_neg (not_not.2 (difference_eq_zero.2 heq)), ih hf.tail hg.tail]
          simp [heq]
        · rw [if_pos (mt difference_eq_zero.1 heq), difference_eq_zero]
          simp [heq, Ne.symm heq]

theorem CString.shows (s : CString) (argument : Argument) (after : ℕ → UInt8)
    (P : Argument × ℕ → Prop) :
    Shows P () (s.text argument after) (s.charAt after) fun i => P (argument, i) :=
  fun _ => yields_read

/-! ## The comparison -/

/-- `strncmp` reads no further than the nulls. -/
theorem meets_strncmp_text (a b : CString) (after after' : ℕ → UInt8) (n : ℕ) :
    Meets (Inside a b) () (strncmp (a.text .str1 after) (b.text .str2 after') n)
      (comparison (a.charAt after) (b.charAt after') n) := by
  refine (meets_strncmp_iff (a.shows .str1 after _) (b.shows .str2 after' _)).2 ⟨?_, ?_, rfl⟩
  · exact fun j _ hagree => (hagree.le_length (a.spells after) (b.spells after')).1
  · exact fun j _ hagree _ => (hagree.le_length (a.spells after) (b.spells after')).2

/-- One is how the other begins, and they differ, where one of them ends. -/
theorem take_prefix_imp_iff : (a.characters.take n <+: b.characters.take n →
    a.characters.take n = b.characters.take n) ↔ ¬EndsWithin a b n := by
  constructor
  · rintro h ⟨hstarts, hlt, hn⟩
    have htake : a.characters.take n = a.characters := List.take_of_length_le (Nat.le_of_lt hn)
    rw [htake] at h
    have heq := h (List.prefix_take_iff.2 ⟨hstarts, Nat.le_of_lt hn⟩)
    have hlength := congrArg List.length heq
    rw [List.length_take] at hlength
    rw [CString.length, CString.length] at hlt
    rw [CString.length] at hn
    omega
  · intro h hstarts
    refine hstarts.eq_of_length_le (Nat.le_of_not_lt fun hlt => h ?_)
    rw [List.length_take, List.length_take] at hlt
    have htake : a.characters.take n = a.characters := List.take_of_length_le (by omega)
    rw [htake] at hstarts
    refine ⟨hstarts.trans (List.take_prefix _ _), ?_, ?_⟩
    · rw [CString.length, CString.length]
      omega
    · rw [CString.length]
      omega

/-- **`strncmp` tells exactly where neither string ends within `n` characters
and the other goes on.** -/
theorem tells_iff_not_endsWithin : Tells a b n ↔ ¬EndsWithin a b n ∧ ¬EndsWithin b a n := by
  have hvalue : Tells a b n ↔
      ((a.characters.take n <+: b.characters.take n ∨ b.characters.take n <+: a.characters.take n) ↔
        a.characters.take n = b.characters.take n) := by
    constructor
    · intro h
      obtain ⟨d, hd, hiff⟩ := h (fun _ => 0) fun _ => 0
      rw [hd.unique (meets_strncmp_text a b _ _ n)] at hiff
      exact (comparison_eq_zero_iff (a.spells _) (b.spells _)).symm.trans hiff
    · intro h after after'
      refine ⟨_, meets_strncmp_text a b after after' n, ?_⟩
      exact (comparison_eq_zero_iff (a.spells after) (b.spells after')).trans h
  rw [hvalue, ← take_prefix_imp_iff, ← take_prefix_imp_iff]
  constructor
  · exact fun h => ⟨fun hab => h.1 (Or.inl hab), fun hba => (h.1 (Or.inr hba)).symm⟩
  · rintro ⟨hab, hba⟩
    refine ⟨fun h => h.elim hab fun h => (hba h).symm, fun h => Or.inl ?_⟩
    rw [h]

/-! ## The search -/

/-- What `strstr` stops at: the needle, or the end of the haystack where it is
how the needle begins. -/
def MatchesAt (haystack needle : CString) (k : ℕ) : Prop :=
  k < haystack.length ∧ (needle.characters <+: haystack.characters.drop k ∨
    haystack.characters.drop k <+: needle.characters)

theorem foundAt_iff (hneedle : needle.characters ≠ []) (hk : k ≤ haystack.length) :
    FoundAt (haystack.charAt after) (needle.charAt after') needle.length k ↔
      MatchesAt haystack needle k := by
  have hdrop := (haystack.spells after).drop hk
  have hname := needle.spells after'
  have hwhole : needle.characters.take needle.length = needle.characters := List.take_length
  rw [FoundAt, ← comparison_eq_zero, comparison_eq_zero_iff hdrop hname, MatchesAt, hwhole]
  have hlength : (haystack.characters.drop k).length = haystack.length - k := List.length_drop
  generalize haystack.characters.drop k = rest at hdrop hlength
  obtain ⟨c, name, hcons⟩ := List.exists_cons_of_ne_nil hneedle
  have hfirst : needle.charAt after' 0 = c ∧ c ≠ 0 := by
    rw [hcons] at hname
    exact hname.head
  rw [hfirst.1]
  cases rest with
  | nil =>
    -- at the null nothing is found
    have hnull := hdrop.nil
    simp only [Nat.add_zero] at hnull
    rw [hnull]
    refine iff_of_false (fun h => hfirst.2 h.1.symm) fun h => ?_
    rw [List.length_nil] at hlength
    omega
  | cons c' rest =>
    have hhead := hdrop.head.1
    simp only [Nat.add_zero] at hhead
    have hlt : k < haystack.length := by
      rw [List.length_cons] at hlength
      omega
    have htake : (c' :: rest).take needle.length <+: needle.characters ∨
        needle.characters <+: (c' :: rest).take needle.length ↔
          needle.characters <+: c' :: rest ∨ c' :: rest <+: needle.characters := by
      rcases Nat.le_total needle.length (c' :: rest).length with hle | hle
      · have hlong : (c' :: rest).take needle.length <+: needle.characters →
            needle.characters <+: c' :: rest := by
          intro h
          have heq := h.eq_of_length (by rw [List.length_take, Nat.min_eq_left hle]; rfl)
          rw [← heq]
          exact List.take_prefix _ _
        constructor
        · exact fun h => Or.inl (h.elim hlong fun h => h.trans (List.take_prefix _ _))
        · rintro (h | h)
          · exact Or.inr (List.prefix_take_iff.2 ⟨h, Nat.le_refl _⟩)
          · exact Or.inl ((List.take_prefix _ _).trans h)
      · rw [List.take_of_length_le hle]
        exact or_comm
    have hsame : needle.characters <+: c' :: rest ∨ c' :: rest <+: needle.characters → c' = c := by
      rw [hcons, List.cons_prefix_cons, List.cons_prefix_cons]
      exact fun h => h.elim (fun h => h.1.symm) fun h => h.1
    rw [hhead, htake]
    exact ⟨fun h => ⟨hlt, h.2⟩, fun h => ⟨hsame h.2, h.2⟩⟩

theorem meets_strlen_text (haystack needle : CString) (after' : ℕ → UInt8) :
    Meets (Inside haystack needle) () (strlen (needle.text .str2 after')) needle.length := by
  refine (meets_strlen (needle.shows .str2 after' _)).2 ⟨fun i hi => ⟨Nat.le_of_lt hi, ?_⟩,
    Nat.le_refl _, ?_⟩
  · exact fun hnull => Nat.ne_of_lt hi
      (((needle.spells after').eq_zero_iff (Nat.le_of_lt hi)).1 hnull)
  · exact ((needle.spells after').eq_zero_iff (Nat.le_refl _)).2 rfl

/-- What is compared at a place of the haystack is not beyond its null. -/
theorem comparedAt_text (hk : k ≤ haystack.length) :
    ComparedAt (haystack.charAt after) (needle.charAt after')
      (fun i => Inside haystack needle (.str1, i)) n k := by
  intro j _ hagree
  have hle := (hagree.le_length ((haystack.spells after).drop hk) (needle.spells after')).1
  rw [List.length_drop] at hle
  change k + j ≤ haystack.length
  rw [CString.length] at hk ⊢
  omega

variable (haystack) in
/-- **`strstr` ends at the first match**, or at the null. -/
theorem exists_meets_strstr (hneedle : needle.characters ≠ []) (after after' : ℕ → UInt8) :
    ∃ k found, (∀ i < k, ¬MatchesAt haystack needle i) ∧ Meets (Inside haystack needle) ()
        (strstr (haystack.text .str1 after) (needle.text .str2 after')) found ∧
      ((k = haystack.length ∧ found = none) ∨ (MatchesAt haystack needle k ∧ found = some k)) := by
  have hexists : ∃ k, k = haystack.length ∨ MatchesAt haystack needle k := ⟨_, Or.inl rfl⟩
  classical
  -- the first place at which the search may stop
  have hle : Nat.find hexists ≤ haystack.length := Nat.find_min' hexists (Or.inl rfl)
  have hbefore := fun i hi => not_or.1 (Nat.find_min hexists (m := i) hi)
  have hstop := Nat.find_spec hexists
  generalize Nat.find hexists = k at hle hbefore hstop
  have hmeets : ∀ found, Meets (Inside haystack needle) ()
      (strstr (haystack.text .str1 after) (needle.text .str2 after')) found ↔ _ := fun _ =>
    meets_strstr (haystack.shows .str1 after _) (needle.shows .str2 after' _)
      (meets_strlen_text haystack needle after') (List.length_pos_of_ne_nil hneedle)
  have hpassed : ∀ i < k, haystack.charAt after i ≠ 0 ∧
      ¬FoundAt (haystack.charAt after) (needle.charAt after') needle.length i := by
    intro i hi
    obtain ⟨hne, hnot⟩ := hbefore i hi
    have hi' : i ≤ haystack.length := Nat.le_trans (Nat.le_of_lt hi) hle
    rw [foundAt_iff hneedle hi']
    exact ⟨fun hnull => hne (((haystack.spells after).eq_zero_iff hi').1 hnull), hnot⟩
  have hread : ∀ i ≤ k, ComparedAt (haystack.charAt after) (needle.charAt after')
      (fun i => Inside haystack needle (.str1, i)) needle.length i :=
    fun i hi => comparedAt_text (Nat.le_trans hi hle)
  rcases hstop with hend | hmatch
  · refine ⟨k, none, fun i hi => (hbefore i hi).2, (hmeets none).2 ⟨k, hpassed, hread, ?_⟩,
      Or.inl ⟨hend, rfl⟩⟩
    exact Or.inl ⟨((haystack.spells after).eq_zero_iff hle).2 hend, rfl⟩
  · refine ⟨k, some k, fun i hi => (hbefore i hi).2, (hmeets (some k)).2 ⟨k, hpassed, hread, ?_⟩,
      Or.inr ⟨hmatch, rfl⟩⟩
    exact Or.inr ⟨(foundAt_iff hneedle hle).2 hmatch, rfl⟩

/-- An occurrence is a match. -/
theorem OccursAt.matchesAt (h : OccursAt haystack needle k) (hneedle : needle.characters ≠ []) :
    MatchesAt haystack needle k := by
  refine ⟨Nat.lt_of_le_of_ne h.1 ?_, Or.inl h.2⟩
  rintro rfl
  have hnil := h.2
  rw [CString.length, List.drop_length, List.prefix_nil] at hnil
  exact hneedle hnil

/-- A match before an occurrence is one itself. -/
theorem MatchesAt.occursAt_of_le {p : ℕ} (h : MatchesAt haystack needle k)
    (hp : OccursAt haystack needle p) (hle : k ≤ p) : OccursAt haystack needle k := by
  refine ⟨Nat.le_of_lt h.1, h.2.elim id fun hstarts => ?_⟩
  -- the haystack goes on for at least the length of the needle
  have hlength := hp.2.length_le
  rw [List.length_drop] at hlength
  have heq := hstarts.eq_of_length_le (by rw [List.length_drop]; omega)
  rw [heq]

theorem exists_occursAt_iff :
    (∃ p, OccursAt haystack needle p) ↔ needle.characters <:+: haystack.characters := by
  constructor
  · rintro ⟨p, -, hstarts⟩
    exact hstarts.isInfix.trans (List.drop_suffix _ _).isInfix
  · rintro ⟨before, rest, heq⟩
    refine ⟨before.length, ?_, ?_⟩
    · rw [CString.length, ← heq, List.length_append, List.length_append]
      omega
    · rw [← heq, List.append_assoc, List.drop_left]
      exact List.prefix_append _ _

/-- **`strstr` finds the first occurrence exactly where there is one, or the
haystack does not end in what the needle begins with.** -/
theorem finds_iff : Finds haystack needle ↔ HoldsOrEndsApart haystack needle := by
  by_cases hneedle : needle.characters = []
  · -- an empty needle is at the start
    refine iff_of_true (fun after after' => ?_) (Or.inl ?_)
    · refine ⟨some 0, meets_bind.2 ⟨_, meets_strlen_text haystack needle after', ?_⟩, ?_⟩
      · rw [CString.length, hneedle]
        exact meets_pure.2 rfl
      · refine ⟨⟨Nat.zero_le _, ?_⟩, fun q hq => absurd hq (Nat.not_lt_zero q)⟩
        rw [hneedle]
        exact List.nil_prefix
    · rw [hneedle]
      exact List.nil_infix
  rw [HoldsOrEndsApart, ← exists_occursAt_iff]
  constructor
  · intro h
    refine Classical.or_iff_not_imp_left.2 fun hnone suffix hsuffix hne hstarts => ?_
    obtain ⟨k, found, hbefore, hmeets, hstop⟩ :=
      exists_meets_strstr haystack hneedle (fun _ => 0) fun _ => 0
    obtain ⟨found', hmeets', hfirst⟩ := h (fun _ => 0) fun _ => 0
    obtain rfl := hmeets'.unique hmeets
    rcases hstop with ⟨hk, -⟩ | ⟨-, rfl⟩
    · -- the suffix is a match, and was not passed
      obtain ⟨before, heq⟩ := hsuffix
      have hlength := congrArg List.length heq
      rw [List.length_append] at hlength
      have hpos := List.length_pos_of_ne_nil hne
      have hlt : before.length < haystack.length := by
        rw [CString.length]
        omega
      refine hbefore before.length (hk ▸ hlt) ⟨hlt, Or.inr ?_⟩
      rw [← heq, List.drop_left]
      exact hstarts
    · exact hnone ⟨k, hfirst.1⟩
  · intro h after after'
    obtain ⟨k, found, hbefore, hmeets, hstop⟩ :=
      exists_meets_strstr haystack hneedle after after'
    refine ⟨found, hmeets, ?_⟩
    have hnot : ∀ q < k, ¬OccursAt haystack needle q :=
      fun q hq hoccurs => hbefore q hq (hoccurs.matchesAt hneedle)
    rcases hstop with ⟨hk, rfl⟩ | ⟨hmatch, rfl⟩
    · intro p hp
      exact hnot p (hk ▸ (hp.matchesAt hneedle).1) hp
    · refine ⟨?_, hnot⟩
      rcases h with ⟨p, hp⟩ | hapart
      · exact hmatch.occursAt_of_le hp (Nat.le_of_not_lt fun hlt => hnot p hlt hp)
      · refine ⟨Nat.le_of_lt hmatch.1, hmatch.2.resolve_right fun hstarts => ?_⟩
        refine hapart _ (List.drop_suffix k _) (fun hnil => ?_) hstarts
        rw [List.drop_eq_nil_iff] at hnil
        exact absurd hmatch.1 (Nat.not_lt_of_le hnil)

/-! ## The result -/

/-- **Strings are searched and compared exactly where none ends within what is
compared.** -/
theorem searches_iff (haystack needle a b : CString) (n : ℕ) :
    (Finds haystack needle ↔ HoldsOrEndsApart haystack needle) ∧
      (Tells a b n ↔ ¬EndsWithin a b n ∧ ¬EndsWithin b a n) :=
  ⟨finds_iff, tells_iff_not_endsWithin⟩

/-- The word that is searched for on a command line. -/
def safemodeWord : CString where
  characters := "safemode".toList.map fun c => .ofNat c.toNat
  ne_zero := by
    rintro c hc rfl
    exact absurd hc (by decide)

/-- What is left of it where it is cut off. -/
def safe : CString where
  characters := "safe".toList.map fun c => .ofNat c.toNat
  ne_zero := by
    rintro c hc rfl
    exact absurd hc (by decide)

/-- **A command line of `safe`** has `safemode` in it, to `strstr`, and is
equal to it. -/
theorem not_searches_safe : ¬Finds safe safemodeWord ∧ ¬Tells safe safemodeWord 8 := by
  rw [finds_iff, tells_iff_not_endsWithin]
  refine ⟨fun h => ?_, fun h => h.1 ?_⟩
  · rcases h with hinfix | hapart
    · exact absurd hinfix.length_le (by decide)
    · exact hapart _ (List.suffix_refl _) (by decide) (by decide)
  · exact ⟨by decide, by decide, by decide⟩

end Stdlib

end Uberos
