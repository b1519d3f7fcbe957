import Mathlib.Algebra.Group.Nat.Defs
import Mathlib.Algebra.GroupWithZero.Nat
import Mathlib.Data.List.Induction
import Mathlib.Logic.Function.Basic
import Mathlib.Logic.Nontrivial.Defs
import Mathlib.Tactic.Common
/-!
# Stores

What is in a memory after values of several cells each are stored to it,
one after another.
-/

namespace Library

variable {β : Type}

/-- A value is stored, by its cells. -/
def store (memory : ℕ → β) (data : ℕ) : List β → ℕ → β
  | [] => memory
  | cell :: cells => store (Function.update memory data cell) (data + 1) cells

/-- A value is stored so many times on end. -/
def fill (memory : ℕ → β) (cells : List β) (data : ℕ) : ℕ → ℕ → β
  | 0 => memory
  | length + 1 => fill (store memory data cells) cells (data + cells.length) length

variable {memory : ℕ → β} {cells : List β} {data length a i : ℕ}

/-- What is outside a value stays as it is. -/
theorem store_of_outside (h : a < data ∨ data + cells.length ≤ a) :
    store memory data cells a = memory a := by
  induction cells generalizing memory data with
  | nil => rfl
  | cons cell cells ih =>
    rw [List.length_cons] at h
    rw [store, ih (by omega), Function.update_of_ne (by omega)]

/-- **A value's cells are where it is stored.** -/
theorem store_at (hi : i < cells.length) :
    store memory data cells (data + i) = cells[i] := by
  induction cells generalizing memory data i with
  | nil => exact absurd hi (Nat.not_lt_zero i)
  | cons cell cells ih =>
    rw [store]
    cases i with
    | zero => rw [store_of_outside (Or.inl (by omega)), Nat.add_zero, Function.update_self]; rfl
    | succ i =>
      rw [List.length_cons] at hi
      have hnext : data + (i + 1) = data + 1 + i := by omega
      rw [hnext, ih (by omega)]
      rfl

/-- What is outside all of them stays as it is. -/
theorem fill_of_outside (h : a < data ∨ data + length * cells.length ≤ a) :
    fill memory cells data length a = memory a := by
  induction length generalizing memory data with
  | zero => rfl
  | succ length ih =>
    rw [Nat.succ_mul] at h
    rw [fill, ih (by omega), store_of_outside (by omega)]

variable (memory data) in
/-- **A value's cells are wherever it is stored.** -/
theorem fill_at {turn : ℕ} (hturn : turn < length) (hi : i < cells.length) :
    fill memory cells data length (data + turn * cells.length + i) = cells[i] := by
  induction length generalizing memory data turn with
  | zero => exact absurd hturn (Nat.not_lt_zero turn)
  | succ length ih =>
    rw [fill]
    cases turn with
    | zero =>
      rw [Nat.zero_mul, Nat.add_zero, fill_of_outside (Or.inl (by omega)), store_at hi]
    | succ turn =>
      have hnext : data + (turn + 1) * cells.length + i
          = data + cells.length + turn * cells.length + i := by
        rw [Nat.succ_mul]
        omega
      rw [hnext, ih _ _ (by omega)]

/-- What is stored is stored already. -/
theorem store_eq_self (h : ∀ i (hi : i < cells.length), memory (data + i) = cells[i]) :
    store memory data cells = memory := by
  funext a
  by_cases ha : a < data ∨ data + cells.length ≤ a
  · exact store_of_outside ha
  · obtain ⟨i, rfl⟩ : ∃ i, a = data + i := ⟨a - data, by omega⟩
    have hi : i < cells.length := by omega
    rw [store_at hi, h i hi]

/-! ## In place -/

section InPlace

variable {κ α : Type*} [DecidableEq κ]

/-- One after another, cells are given what is made of the cells then. -/
def inPlace (value : (κ → α) → κ → α) (cells : κ → α) : List κ → κ → α
  | [] => cells
  | key :: keys => inPlace value (Function.update cells key (value cells key)) keys

variable {value : (κ → α) → κ → α} {cells : κ → α} {key : κ} {keys : List κ}

/-- The others stay as they are. -/
theorem inPlace_of_not_mem (h : key ∉ keys) : inPlace value cells keys key = cells key := by
  induction keys generalizing cells with
  | nil => rfl
  | cons first keys ih =>
    rw [List.mem_cons, not_or] at h
    rw [inPlace, ih h.2, Function.update_of_ne h.1]

/-- **It is as if all were made of the cells before**, if none is made of one
that comes before it. -/
theorem inPlace_of_mem (horder : keys.Pairwise fun key later => key ≠ later ∧
    ∀ cells x, value (Function.update cells key x) later = value cells later) (h : key ∈ keys) :
    inPlace value cells keys key = value cells key := by
  induction keys generalizing cells with
  | nil => exact absurd h List.not_mem_nil
  | cons first keys ih =>
    rw [List.pairwise_cons] at horder
    rw [inPlace]
    rcases List.mem_cons.mp h with rfl | hlater
    · have hnot : key ∉ keys := fun hmem => (horder.1 key hmem).1 rfl
      rw [inPlace_of_not_mem hnot, Function.update_self]
    · rw [ih horder.2 hlater, (horder.1 key hlater).2]

end InPlace

/-!
## Copies

What a sequence of copies, each from a place of one store to a place of
another, leaves in the latter.
-/

section Copies

variable {σ τ β : Type} [DecidableEq τ] {source : σ → β} {target : τ → β}
variable {copies : List (τ × σ)} {a : τ} {s : σ}

/-- The copies are made one after another. -/
def perform (source : σ → β) (copies : List (τ × σ)) (target : τ → β) : τ → β :=
  copies.foldl (fun target c => Function.update target c.1 (source c.2)) target

/-- A place that nothing is copied to stays as it is. -/
theorem perform_of_forall_not_mem (h : ∀ s, (a, s) ∉ copies) :
    perform source copies target a = target a := by
  induction copies generalizing target with
  | nil => rfl
  | cons c copies ih =>
    have hrest : ∀ s, (a, s) ∉ copies := fun s hs => h s (List.mem_cons_of_mem _ hs)
    have hne : a ≠ c.1 := by
      rintro rfl
      exact h c.2 List.mem_cons_self
    exact (ih hrest).trans (Function.update_of_ne hne _ _)

/-- **A place that one thing only is copied to** has that. -/
theorem perform_of_mem (h : (a, s) ∈ copies) (hone : ∀ s', (a, s') ∈ copies → s' = s) :
    perform source copies target a = source s := by
  induction copies generalizing target with
  | nil => cases h
  | cons c copies ih =>
    have hrest : ∀ s', (a, s') ∈ copies → s' = s := fun s' hs =>
      hone s' (List.mem_cons_of_mem _ hs)
    by_cases hlater : (a, s) ∈ copies
    · exact ih hlater hrest
    · have hnone : ∀ s', (a, s') ∉ copies := by
        intro s' hs
        rw [hrest s' hs] at hs
        exact hlater hs
      obtain rfl : (a, s) = c := (List.mem_cons.1 h).resolve_right hlater
      exact (perform_of_forall_not_mem hnone).trans (Function.update_self _ _ _)

end Copies

/-!
## Accesses of several widths

A range is copied by accesses of so many bytes each, in an address space that
wraps around. Each access reads all of its bytes before it writes them.
-/

section Accesses

variable {w : ℕ} {β : Type}

/-- The bytes at `src` and on are copied to `dest` and on. -/
structure Access (w : ℕ) where
  dest : BitVec w
  src : BitVec w
  bytes : ℕ

/-- A memory, the pointers into it, and the accesses, the last first. -/
structure Copying (w : ℕ) (β : Type) where
  memory : BitVec w → β
  dest : BitVec w
  src : BitVec w
  accesses : List (Access w)

namespace Copying

/-- So many bytes are copied at once, and the pointers go on. -/
def move (c : Copying w β) (bytes : ℕ) : Copying w β where
  memory a := if (a - c.dest).toNat < bytes then c.memory (c.src + (a - c.dest)) else c.memory a
  dest := c.dest + BitVec.ofNat w bytes
  src := c.src + BitVec.ofNat w bytes
  accesses := ⟨c.dest, c.src, bytes⟩ :: c.accesses

/-- One access after another. -/
def moves (c : Copying w β) (widths : List ℕ) : Copying w β := widths.foldl move c

/-- Nothing is copied yet. -/
def start (memory : BitVec w → β) (dest src : BitVec w) : Copying w β := ⟨memory, dest, src, []⟩

end Copying

/-- An address of the range. -/
def InRange (start : BitVec w) (size : ℕ) (a : BitVec w) : Prop := (a - start).toNat < size

/-- Ranges that do not overlap. -/
def Apart (dest src : BitVec w) (size : ℕ) : Prop :=
  ∀ a, InRange dest size a → ¬InRange src size a

variable (β) in
/-- **A range is copied exactly**: as a byte at a time would copy it, and
without an access to anything else. -/
structure CopiesExactly (dest src : BitVec w) (size : ℕ) (widths : List ℕ) : Prop where
  memory : ∀ memory : BitVec w → β, ((Copying.start memory dest src).moves widths).memory =
    ((Copying.start memory dest src).moves (List.replicate size 1)).memory
  inside : ∀ memory : BitVec w → β,
    ∀ access ∈ ((Copying.start memory dest src).moves widths).accesses, ∀ a,
      (InRange access.dest access.bytes a → InRange dest size a) ∧
        (InRange access.src access.bytes a → InRange src size a)

variable {c : Copying w β} {memory : BitVec w → β} {dest src : BitVec w} {size n p : ℕ}
  {widths : List ℕ}

theorem moves_concat (c : Copying w β) (widths : List ℕ) (n : ℕ) :
    c.moves (widths ++ [n]) = (c.moves widths).move n :=
  List.foldl_append

/-- The pointers are so many bytes further on. -/
theorem pointers_moves (c : Copying w β) (widths : List ℕ) :
    (c.moves widths).dest = c.dest + BitVec.ofNat w widths.sum ∧
      (c.moves widths).src = c.src + BitVec.ofNat w widths.sum := by
  induction widths generalizing c with
  | nil => exact ⟨(BitVec.add_zero _).symm, (BitVec.add_zero _).symm⟩
  | cons n widths ih =>
    obtain ⟨hdest, hsrc⟩ := ih (c.move n)
    rw [List.sum_cons, BitVec.ofNat_add, ← BitVec.add_assoc, ← BitVec.add_assoc]
    exact ⟨hdest, hsrc⟩

/-- An access is made after those before it. -/
theorem mem_accesses_moves {access : Access w} : access ∈ (c.moves widths).accesses ↔
    access ∈ c.accesses ∨ ∃ before n after, widths = before ++ n :: after ∧
      access = ⟨c.dest + BitVec.ofNat w before.sum, c.src + BitVec.ofNat w before.sum, n⟩ := by
  induction widths using List.reverseRecOn with
  | nil => exact ⟨Or.inl, fun h => h.elim id fun ⟨_, _, _, h, _⟩ => by simp at h⟩
  | append_singleton widths n ih =>
    obtain ⟨hdest, hsrc⟩ := pointers_moves c widths
    rw [moves_concat, Copying.move, List.mem_cons, ih, hdest, hsrc]
    constructor
    · rintro (rfl | hc | ⟨before, n', after, rfl, rfl⟩)
      · exact Or.inr ⟨widths, n, [], rfl, rfl⟩
      · exact Or.inl hc
      · exact Or.inr ⟨before, n', after ++ [n], by simp, rfl⟩
    · rintro (hc | ⟨before, n', after, heq, rfl⟩)
      · exact Or.inr (Or.inl hc)
      · -- it is the last one, or one of those before
        induction after using List.reverseRecOn with
        | nil =>
          obtain ⟨rfl, hlast⟩ := List.append_inj' heq rfl
          obtain rfl := List.singleton_inj.1 hlast
          exact Or.inl rfl
        | append_singleton after last _ =>
          rw [← List.cons_append, ← List.append_assoc] at heq
          exact Or.inr (Or.inr ⟨before, n', after, (List.append_inj' heq rfl).1, rfl⟩)

/-- A range further on. -/
theorem inRange_add {a : BitVec w} (h : p + n ≤ 2 ^ w) : InRange (dest + BitVec.ofNat w p) n a ↔
    p ≤ (a - dest).toNat ∧ (a - dest).toNat < p + n := by
  have hsub : a - (dest + BitVec.ofNat w p) = a - dest - BitVec.ofNat w p := by grind
  have hlt := (a - dest).isLt
  rw [InRange, hsub, BitVec.toNat_sub, BitVec.toNat_ofNat]
  generalize (a - dest).toNat = d at hlt
  rcases Nat.lt_or_eq_of_le (Nat.le_trans (Nat.le_add_right p n) h) with hp | rfl
  · rw [Nat.mod_eq_of_lt hp]
    rcases Nat.lt_or_ge d p with hd | hd
    · rw [Nat.mod_eq_of_lt (by omega)]
      omega
    · have hwrap : 2 ^ w - p + d = d - p + 2 ^ w := by omega
      rw [hwrap, Nat.add_mod_right, Nat.mod_eq_of_lt (by omega)]
      omega
  · rw [Nat.mod_self, Nat.sub_zero, Nat.add_mod_left, Nat.mod_eq_of_lt hlt]
    omega

/-- **What is copied so far**, of a range that is apart from its copy. -/
theorem memory_moves (hapart : Apart dest src size) (hsize : size ≤ 2 ^ w)
    (hsum : widths.sum ≤ size) (a : BitVec w) :
    ((Copying.start memory dest src).moves widths).memory a =
      if (a - dest).toNat < widths.sum then memory (src + (a - dest)) else memory a := by
  induction widths using List.reverseRecOn generalizing a with
  | nil => rfl
  | append_singleton widths n ih =>
    rw [List.sum_append, List.sum_singleton] at hsum ⊢
    have hbefore := fun a => ih (Nat.le_trans (Nat.le_add_right _ _) hsum) a
    obtain ⟨hdest, hsrc⟩ := pointers_moves (Copying.start memory dest src) widths
    have hrange : InRange (dest + BitVec.ofNat w widths.sum) n a ↔ _ :=
      inRange_add (Nat.le_trans hsum hsize)
    rw [moves_concat, Copying.move, hdest, hsrc]
    simp only [Copying.start] at hbefore ⊢
    rw [InRange] at hrange
    simp only [hrange]
    by_cases hnow : widths.sum ≤ (a - dest).toNat ∧ (a - dest).toNat < widths.sum + n
    · have hread : src + BitVec.ofNat w widths.sum + (a - (dest + BitVec.ofNat w widths.sum)) =
          src + (a - dest) := by
        grind
      -- what is read is of the source, where nothing was written
      have hsource : ¬(src + (a - dest) - dest).toNat < widths.sum := by
        intro hlt
        have hin : InRange src size (src + (a - dest)) := by
          have hcancel : src + (a - dest) - src = a - dest := by grind
          rw [InRange, hcancel]
          omega
        exact hapart _ (Nat.lt_of_lt_of_le hlt (by omega)) hin
      rw [if_pos hnow, hread, hbefore, if_neg hsource, if_pos hnow.2]
    · rw [if_neg hnow, hbefore]
      by_cases hlt : (a - dest).toNat < widths.sum
      · rw [if_pos hlt, if_pos (by omega)]
      · rw [if_neg hlt, if_neg (by omega)]

/-- Some access is the one that goes beyond a number of bytes. -/
theorem exists_access_beyond (h : size < widths.sum) :
    ∃ before n after, widths = before ++ n :: after ∧ before.sum ≤ size ∧
      size < before.sum + n := by
  induction widths using List.reverseRecOn with
  | nil => exact absurd h (Nat.not_lt_zero _)
  | append_singleton widths n ih =>
    rw [List.sum_append, List.sum_singleton] at h
    rcases Nat.lt_or_ge size widths.sum with hlt | hge
    · obtain ⟨before, n', after, rfl, hle, hlt⟩ := ih hlt
      exact ⟨before, n', after ++ [n], by simp, hle, hlt⟩
    · exact ⟨widths, n, [], rfl, hge, h⟩

theorem sum_replicate_one (size : ℕ) : (List.replicate size 1).sum = size := by
  rw [List.sum_replicate_nat, Nat.mul_one]

/-- How far an address of the range is from another. -/
theorem toNat_add_sub_add (start : BitVec w) (hp : p ≤ n) (hn : n < 2 ^ w) :
    (start + BitVec.ofNat w n - (start + BitVec.ofNat w p)).toNat = n - p := by
  have hdiff : start + BitVec.ofNat w n - (start + BitVec.ofNat w p) = BitVec.ofNat w (n - p) := by
    have hsplit := BitVec.ofNat_add (n := w) (n - p) p
    rw [Nat.sub_add_cancel hp] at hsplit
    rw [hsplit]
    grind
  rw [hdiff, BitVec.toNat_ofNat, Nat.mod_eq_of_lt (by omega)]

theorem toNat_add_sub (start : BitVec w) (hn : n < 2 ^ w) :
    (start + BitVec.ofNat w n - start).toNat = n := by
  have h := toNat_add_sub_add start (Nat.zero_le n) hn
  rwa [BitVec.add_zero] at h

/-- What goes beyond the range writes right behind it. -/
theorem CopiesExactly.sum_le [Nonempty β] (h : CopiesExactly β dest src size widths)
    (hsize : size < 2 ^ w) : widths.sum ≤ size := by
  refine Nat.le_of_not_lt fun hmore => ?_
  obtain ⟨x⟩ := ‹Nonempty β›
  obtain ⟨before, n, after, hwidths, hle, hlt⟩ := exists_access_beyond hmore
  have haccess : ⟨dest + BitVec.ofNat w before.sum, src + BitVec.ofNat w before.sum, n⟩ ∈
      ((Copying.start (fun _ => x) dest src).moves widths).accesses :=
    mem_accesses_moves.2 (Or.inr ⟨before, n, after, hwidths, rfl⟩)
  have hin := (h.inside _ _ haccess (dest + BitVec.ofNat w size)).1
  rw [InRange, InRange, toNat_add_sub_add dest hle hsize, toNat_add_sub dest hsize] at hin
  have hwritten : size - before.sum < n := by omega
  exact Nat.lt_irrefl size (hin hwritten)

/-- What falls short of the range leaves its last cell as it was. -/
theorem CopiesExactly.le_sum [Nontrivial β] (h : CopiesExactly β dest src size widths)
    (hapart : Apart dest src size) (hsize : size < 2 ^ w) : size ≤ widths.sum := by
  refine Nat.le_of_not_lt fun hless => ?_
  obtain ⟨x, y, hxy⟩ := exists_pair_ne β
  have hlt : size - 1 < 2 ^ w := by omega
  have hlast := toNat_add_sub dest hlt
  have hread : src + (dest + BitVec.ofNat w (size - 1) - dest) ≠
      dest + BitVec.ofNat w (size - 1) := by
    intro heq
    refine hapart (dest + BitVec.ofNat w (size - 1)) ?_ ?_
    · rw [InRange, hlast]
      omega
    · have hsame : dest + BitVec.ofNat w (size - 1) - src =
          dest + BitVec.ofNat w (size - 1) - dest := by grind
      rw [InRange, hsame, hlast]
      omega
  have hmemory := congrFun (h.memory fun a => if a = dest + BitVec.ofNat w (size - 1) then x else y)
    (dest + BitVec.ofNat w (size - 1))
  rw [memory_moves hapart (Nat.le_of_lt hsize) (Nat.le_of_lt hless),
    memory_moves hapart (Nat.le_of_lt hsize) (Nat.le_of_eq (sum_replicate_one size)),
    sum_replicate_one, hlast, if_neg (Nat.not_lt.2 (by omega)), if_pos rfl,
    if_pos (by omega), if_neg hread] at hmemory
  exact hxy hmemory

/-- **A range is copied exactly where the accesses have its size.** -/
theorem copiesExactly_iff [Nontrivial β] (hapart : Apart dest src size) (hsize : size < 2 ^ w) :
    CopiesExactly β dest src size widths ↔ widths.sum = size := by
  constructor
  · exact fun h => Nat.le_antisymm (h.sum_le hsize) (h.le_sum hapart hsize)
  · intro hsum
    refine ⟨fun memory => funext fun a => ?_, fun memory access haccess a => ?_⟩
    · rw [memory_moves hapart (Nat.le_of_lt hsize) (Nat.le_of_eq hsum), hsum,
        memory_moves hapart (Nat.le_of_lt hsize) (Nat.le_of_eq (sum_replicate_one size)),
        sum_replicate_one]
    · rw [mem_accesses_moves] at haccess
      obtain hnone | ⟨before, n, after, rfl, rfl⟩ := haccess
      · cases hnone
      · rw [List.sum_append, List.sum_cons] at hsum
        have hrange : before.sum + n ≤ 2 ^ w := by omega
        have hin : ∀ start : BitVec w, InRange (start + BitVec.ofNat w before.sum) n a →
            InRange start size a := by
          intro start ha
          have hbounds := (inRange_add hrange).1 ha
          rw [InRange]
          omega
        exact ⟨hin dest, hin src⟩

end Accesses

/-!
## Through a buffer

What is put into a buffer that is emptied into a store whenever it is full,
and once more at the end.
-/

section Buffered

variable {α β : Type}

/-- Cells are stored from a place on. -/
def storeFrom (memory : ℤ → β) (data : ℤ) (cells : List β) : ℤ → β := fun a =>
  if a < data then memory a else (cells[(a - data).toNat]?).getD (memory a)

variable {memory : ℤ → β} {data a : ℤ} {cells cells' : List β} {i : ℕ}

theorem storeFrom_at (hi : i < cells.length) :
    storeFrom memory data cells (data + i) = cells[i] := by
  have hoffset : (data + i - data).toNat = i := by omega
  rw [storeFrom, if_neg (by omega), hoffset, List.getElem?_eq_getElem hi, Option.getD_some]

theorem storeFrom_of_outside (h : a < data ∨ data + cells.length ≤ a) :
    storeFrom memory data cells a = memory a := by
  rw [storeFrom]
  split
  · rfl
  · rw [List.getElem?_eq_none (by omega), Option.getD_none]

@[simp] theorem storeFrom_nil : storeFrom memory data [] = memory :=
  funext fun _ => storeFrom_of_outside (by rw [List.length_nil]; omega)

/-- **What is stored at once is stored piece by piece.** -/
theorem storeFrom_append : storeFrom memory data (cells ++ cells') =
    storeFrom (storeFrom memory data cells) (data + cells.length) cells' := by
  funext a
  by_cases hbefore : a < data + cells.length
  · rw [storeFrom_of_outside (Or.inl hbefore)]
    by_cases ha : a < data
    · rw [storeFrom_of_outside (Or.inl ha), storeFrom_of_outside (Or.inl ha)]
    · obtain ⟨i, rfl⟩ : ∃ i : ℕ, a = data + i := ⟨(a - data).toNat, by omega⟩
      have hi : i < cells.length := by omega
      rw [storeFrom_at hi, storeFrom_at (by rw [List.length_append]; omega),
        List.getElem_append_left hi]
  · by_cases hafter : data + (cells ++ cells').length ≤ a
    · rw [storeFrom_of_outside (Or.inr hafter)]
      rw [List.length_append] at hafter
      rw [storeFrom_of_outside (Or.inr (by omega)), storeFrom_of_outside (Or.inr (by omega))]
    · rw [List.length_append] at hafter
      obtain ⟨i, rfl⟩ : ∃ i : ℕ, a = data + cells.length + i :=
        ⟨(a - (data + cells.length)).toNat, by omega⟩
      have hi : i < cells'.length := by omega
      have hplace : data + cells.length + (i : ℤ) = data + ((cells.length + i : ℕ) : ℤ) := by omega
      rw [storeFrom_at hi, hplace, storeFrom_at (by rw [List.length_append]; omega),
        List.getElem_append_right (Nat.le_add_right _ _)]
      congr 1
      omega

theorem storeFrom_of_getElem? {cell : β} (h : cells[i]? = some cell) :
    storeFrom memory data cells (data + i) = cell := by
  obtain ⟨hi, hcell⟩ := List.getElem?_eq_some_iff.1 h
  rw [storeFrom_at hi, hcell]

/-- The cells of items of one size. -/
theorem length_flatMap_of_width {encode : α → List β} {width : ℕ}
    (hwidth : ∀ item, (encode item).length = width) (items : List α) :
    (items.flatMap encode).length = items.length * width := by
  induction items with
  | nil => rw [List.flatMap_nil, List.length_nil, List.length_nil, Nat.zero_mul]
  | cons item items ih =>
    rw [List.flatMap_cons, List.length_append, hwidth, ih, List.length_cons, Nat.succ_mul,
      Nat.add_comm]

/-- **A cell is found by its item and its place in it.** -/
theorem getElem?_flatMap_of_width {encode : α → List β} {width : ℕ}
    (hwidth : ∀ item, (encode item).length = width) {items : List α} {j k : ℕ} {item : α}
    (hitem : items[j]? = some item) (hk : k < width) :
    (items.flatMap encode)[j * width + k]? = (encode item)[k]? := by
  induction items generalizing j with
  | nil => cases hitem
  | cons first items ih =>
    rw [List.flatMap_cons]
    cases j with
    | zero =>
      obtain rfl := Option.some.inj hitem
      rw [Nat.zero_mul, Nat.zero_add, List.getElem?_append_left (by rw [hwidth]; exact hk)]
    | succ j =>
      have hplace : (j + 1) * width + k - width = j * width + k := by
        rw [Nat.succ_mul]
        omega
      rw [List.getElem?_append_right (by rw [hwidth, Nat.succ_mul]; omega), hwidth, hplace]
      exact ih hitem

/-- A buffer with room for another item, and where it is emptied to. -/
structure Sink (α β : Type) (capacity : ℕ) where
  memory : ℤ → β
  address : ℤ
  pending : List α
  room : pending.length < capacity

namespace Sink

variable {capacity : ℕ} (encode : α → List β) (s : Sink α β capacity)

/-- Its items are stored, and it starts again behind them. -/
def flushed (pending : List α) (hcapacity : 0 < capacity) : Sink α β capacity where
  memory := storeFrom s.memory s.address (pending.flatMap encode)
  address := s.address + (pending.flatMap encode).length
  pending := []
  room := hcapacity

/-- An item is put into it, and all are stored if it is full. -/
def put (item : α) : Sink α β capacity :=
  if h : (s.pending ++ [item]).length < capacity then
    { s with pending := s.pending ++ [item], room := h }
  else s.flushed encode (s.pending ++ [item]) (Nat.zero_lt_of_lt s.room)

/-- What is left is stored, if there is any. -/
def close : ℤ → β :=
  if s.pending = [] then s.memory
  else storeFrom s.memory s.address (s.pending.flatMap encode)

variable {encode s} {items : List α}

theorem close_eq : s.close encode = storeFrom s.memory s.address (s.pending.flatMap encode) := by
  rw [close]
  split
  · rename_i hempty
    rw [hempty, List.flatMap_nil, storeFrom_nil]
  · rfl

/-- What a store comes to if the rest is stored behind what is pending. -/
theorem storeFrom_put {item : α} (rest : List β) :
    storeFrom (s.put encode item).memory (s.put encode item).address
        ((s.put encode item).pending.flatMap encode ++ rest) =
      storeFrom s.memory s.address ((s.pending ++ [item]).flatMap encode ++ rest) := by
  rw [put]
  split
  · rfl
  · rw [flushed, List.flatMap_nil, List.nil_append, ← storeFrom_append]

/-- **It does not matter when the buffer is emptied**: in the end all items
are stored one behind the other. -/
theorem close_foldl_put : (items.foldl (put encode) s).close encode =
    storeFrom s.memory s.address ((s.pending ++ items).flatMap encode) := by
  induction items generalizing s with
  | nil => rw [List.foldl_nil, close_eq, List.append_nil]
  | cons item items ih =>
    rw [List.foldl_cons, ih, List.flatMap_append, storeFrom_put, ← List.flatMap_append,
      List.append_assoc, List.singleton_append]

end Sink

end Buffered

end Library
