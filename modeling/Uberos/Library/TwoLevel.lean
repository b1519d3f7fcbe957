import Mathlib.Data.Option.Basic
import Mathlib.Logic.Function.Basic
import Mathlib.Tactic.Common
/-!
# Two-level tables

A directory that names a table for some of its indices, and tables that
hold an entry for each of theirs. A key is looked up by its quotient in
the directory and by its remainder in the table. Where no table is named
twice, writing the entry of a key changes the lookup of that key only,
and installing a table that is not named yet changes those of the keys
it is for.
-/

namespace Library

/-- A directory, and the tables it may name. -/
structure TwoLevel (Entry : Type*) where
  slot : ℕ → Option ℕ
  table : ℕ → ℕ → Entry

namespace TwoLevel

variable {Entry : Type*} {t : TwoLevel Entry} {width key key' d s : ℕ} {entry : Entry}

/-- The entry of a key. -/
def lookup (t : TwoLevel Entry) (width key : ℕ) : Option Entry :=
  (t.slot (key / width)).map fun s => t.table s (key % width)

/-- Writing an entry of a table. -/
def write (t : TwoLevel Entry) (s i : ℕ) (entry : Entry) : TwoLevel Entry :=
  { t with table := Function.update t.table s (Function.update (t.table s) i entry) }

/-- Naming a table that holds these entries. -/
def install (t : TwoLevel Entry) (d s : ℕ) (entries : ℕ → Entry) : TwoLevel Entry where
  slot := Function.update t.slot d (some s)
  table := Function.update t.table s entries

/-- No table is named twice. -/
def Distinct (t : TwoLevel Entry) : Prop :=
  ∀ d d' s, t.slot d = some s → t.slot d' = some s → d = d'

@[simp] theorem write_slot (i : ℕ) : (t.write s i entry).slot = t.slot := rfl

@[simp] theorem install_slot_self (entries : ℕ → Entry) :
    (t.install d s entries).slot d = some s := Function.update_self ..

theorem install_slot_of_ne (entries : ℕ → Entry) {d' : ℕ} (hd : d' ≠ d) :
    (t.install d s entries).slot d' = t.slot d' := Function.update_of_ne hd ..

theorem lookup_of_slot (hslot : t.slot (key / width) = some s) :
    t.lookup width key = some (t.table s (key % width)) := by
  rw [lookup, hslot, Option.map_some]

theorem lookup_eq_none_iff : t.lookup width key = none ↔ t.slot (key / width) = none :=
  Option.map_eq_none_iff

theorem Distinct.write (h : t.Distinct) (i : ℕ) : (t.write s i entry).Distinct := h

/-- The written key. -/
theorem lookup_write_self (hslot : t.slot (key / width) = some s) :
    (t.write s (key % width) entry).lookup width key = some entry := by
  have hslot' : (t.write s (key % width) entry).slot (key / width) = some s := hslot
  rw [lookup_of_slot hslot']
  simp [TwoLevel.write]

/-- **Every other key keeps its entry.** -/
theorem Distinct.lookup_write (h : t.Distinct) (hslot : t.slot (key / width) = some s)
    (hne : key' ≠ key) :
    (t.write s (key % width) entry).lookup width key' = t.lookup width key' := by
  unfold lookup
  rw [write_slot]
  rcases hslot' : t.slot (key' / width) with - | s'
  · rfl
  · simp only [Option.map_some, Option.some.injEq, TwoLevel.write]
    by_cases hs : s' = s
    · subst hs
      have hquotient := h _ _ _ hslot' hslot
      -- in the same table, so elsewhere in it
      have hremainder : key' % width ≠ key % width := fun heq => hne <| by
        rw [← Nat.div_add_mod key' width, ← Nat.div_add_mod key width, hquotient, heq]
      rw [Function.update_self, Function.update_of_ne hremainder]
    · rw [Function.update_of_ne hs]

/-- A table no index names can be installed. -/
theorem Distinct.install (h : t.Distinct) (hfresh : ∀ d, t.slot d ≠ some s)
    (entries : ℕ → Entry) : (t.install d s entries).Distinct := by
  intro a b s' ha hb
  by_cases had : a = d
  · by_cases hbd : b = d
    · rw [had, hbd]
    · rw [had, install_slot_self, Option.some.injEq] at ha
      rw [install_slot_of_ne _ hbd, ← ha] at hb
      exact absurd hb (hfresh b)
  · rw [install_slot_of_ne _ had] at ha
    by_cases hbd : b = d
    · rw [hbd, install_slot_self, Option.some.injEq] at hb
      rw [← hb] at ha
      exact absurd ha (hfresh a)
    · rw [install_slot_of_ne _ hbd] at hb
      exact h a b s' ha hb

/-- The keys of the installed table. -/
theorem lookup_install_self (entries : ℕ → Entry) (hkey : key / width = d) :
    (t.install d s entries).lookup width key = some (entries (key % width)) := by
  rw [lookup_of_slot (s := s) (by rw [hkey, install_slot_self])]
  simp [TwoLevel.install]

/-- **The keys of the others keep their entries.** -/
theorem lookup_install_of_ne (hfresh : ∀ d, t.slot d ≠ some s) (entries : ℕ → Entry)
    (hkey : key / width ≠ d) :
    (t.install d s entries).lookup width key = t.lookup width key := by
  unfold lookup
  rw [install_slot_of_ne _ hkey]
  rcases hslot : t.slot (key / width) with - | s'
  · rfl
  · have hs : s' ≠ s := fun heq => hfresh _ (heq ▸ hslot)
    simp [TwoLevel.install, hs]

end TwoLevel

end Library
