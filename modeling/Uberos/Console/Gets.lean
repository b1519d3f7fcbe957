import Mathlib.Algebra.Group.Nat.Defs
import Mathlib.Tactic.Common
import Uberos.Library.Run
/-!
# Reading a line

`automatic_gets` of `kernel/console.cpp`, one character that `getc`
returns after the other. What is typed is put into the buffer and echoed,
a backspace takes it back from both, and the sequences of the cursor keys
are read and dropped.
-/

namespace Uberos

namespace Console

open Library

/-- Which `getc` comes next. -/
inductive Place
  | ground
  /-- After `\e`. -/
  | escape
  /-- After `\e[` and so many parameters. -/
  | params (paramCount : ℕ)
  /-- None, the line has ended. -/
  | returned
  deriving DecidableEq, Repr

/-- What is put out: a character, or `"\e[D \e[D"`. -/
inductive Echo
  | char (c : BitVec 8)
  | erase
  deriving DecidableEq, Repr

/-- The variables of `automatic_gets`, and what it has put out. -/
structure Gets where
  place : Place
  i : BitVec 32
  buffer : List (BitVec 8)
  echo : List Echo
  deriving DecidableEq, Repr

namespace Gets

/-- `buffer[i] = c`, within the buffer. -/
def write (buffer : List (BitVec 8)) (i : BitVec 32) (c : BitVec 8) : Option (List (BitVec 8)) :=
  if i.toNat < buffer.length then some (buffer.set i.toNat c) else none

/-- `i`, which the loop starts with putting back into the buffer. -/
def position (length : BitVec 32) (g : Gets) : BitVec 32 :=
  if g.i ≥ length then length - 1 else g.i

/-- A parameter of a sequence. -/
def isParam (c : BitVec 8) : Bool := (0x30 ≤ c && c ≤ 0x3f) || (0x20 ≤ c && c ≤ 0x2f)

/-- What is done with a character. -/
def step (length : BitVec 32) (g : Gets) (c : BitVec 8) : Option Gets :=
  match g.place with
  | .ground =>
    let i := g.position length
    if c = 0x0d ∨ c = 0x0a then
      (write g.buffer i 0).map fun buffer => { g with place := .returned, i := i, buffer := buffer }
    else if c = 0x1b then some { g with place := .escape, i := i }
    else if 0x20 ≤ c ∧ c ≤ 0x7e then
      (write g.buffer i c).map fun buffer =>
        { g with i := i + 1, buffer := buffer, echo := g.echo ++ [.char c] }
    else if c = 0x09 then some { g with i := i }
    else if c = 0x7f then
      if i > 0 then some { g with i := i - 1, echo := g.echo ++ [.erase] }
      else some { g with i := i }
    else some { g with i := i }
  | .escape => some { g with place := if c = 0x5b then .params 0 else .ground }
  | .params paramCount =>
    some { g with
      place := if paramCount < 7 ∧ isParam c then .params (paramCount + 1) else .ground }
  | .returned => some g

/-- As it starts. -/
def start (buffer : List (BitVec 8)) : Gets := ⟨.ground, 0, buffer, []⟩

end Gets

/-! ## What it is for -/

/-- A key that changes the line. -/
inductive Key
  | type (c : BitVec 8)
  | erase
  deriving DecidableEq, Repr

/-- Where a character leads. -/
def Place.next : Place → BitVec 8 → Place
  | .ground, c =>
    if c = 0x0d ∨ c = 0x0a then .returned else if c = 0x1b then .escape else .ground
  | .escape, c => if c = 0x5b then .params 0 else .ground
  | .params paramCount, c =>
    if paramCount < 7 ∧ Gets.isParam c then .params (paramCount + 1) else .ground
  | .returned, _ => .returned

/-- The key a character is. -/
def Place.key : Place → BitVec 8 → Option Key
  | .ground, c =>
    if 0x20 ≤ c ∧ c ≤ 0x7e then some (.type c) else if c = 0x7f then some .erase else none
  | _, _ => none

/-- The keys of an input. -/
def keys : Place → List (BitVec 8) → List Key
  | _, [] => []
  | place, c :: input => (place.key c).toList ++ keys (place.next c) input

/-- **A line with room for so many characters**: what is typed is added
where there is room, and the last is erased. -/
def edit (capacity : ℕ) (line : List (BitVec 8)) : Key → List (BitVec 8)
  | .type c => if line.length < capacity then line ++ [c] else line
  | .erase => line.dropLast

/-- How many characters are typed without there being room. -/
def overflows (capacity : ℕ) : List (BitVec 8) → List Key → ℕ
  | _, [] => 0
  | line, .type c :: keys =>
    (if line.length < capacity then 0 else 1) +
      overflows capacity (edit capacity line (.type c)) keys
  | line, .erase :: keys => overflows capacity (edit capacity line .erase) keys

/-- What can be seen of the line: `"\e[D \e[D"` overwrites the last
character. -/
def shown (echo : List Echo) : List (BitVec 8) :=
  echo.foldl (fun line e => match e with
    | .char c => line ++ [c]
    | .erase => line.dropLast) []

/-! ## One character -/

variable {length : BitVec 32} {g : Gets} {line buffer : List (BitVec 8)} {c : BitVec 8}
variable {excess capacity : ℕ}

theorem shown_char (echo : List Echo) : shown (echo ++ [.char c]) = shown echo ++ [c] := by
  rw [shown, List.foldl_append]
  rfl

theorem shown_erase (echo : List Echo) : shown (echo ++ [.erase]) = (shown echo).dropLast := by
  rw [shown, List.foldl_append]
  rfl

namespace Gets

/-- **What is seen** is longer than the line by what found no room, and is
the line if all did. -/
structure Sees (g : Gets) (line : List (BitVec 8)) (excess : ℕ) : Prop where
  length : (shown g.echo).length = line.length + excess
  same : excess = 0 → shown g.echo = line

/-- **The buffer starts with the line**, and `i` is behind it, or one
further where the line is full. -/
structure Holds (length : BitVec 32) (g : Gets) (line : List (BitVec 8)) : Prop where
  size : g.buffer.length = length.toNat
  position : (g.position length).toNat = line.length
  fits : line.length < length.toNat
  taken : g.buffer.take line.length = line
  printable : ∀ c ∈ line, c ≠ 0

theorem position_eq_self (h : g.i.toNat < length.toNat) : g.position length = g.i := by
  rw [Gets.position, if_neg]
  exact BitVec.not_le.2 (BitVec.lt_def.2 h)

theorem write_eq_some {i : BitVec 32} (h : i.toNat < buffer.length) :
    write buffer i c = some (buffer.set i.toNat c) := if_pos h

/-- `i` is put back, and that is all. -/
theorem Holds.stay (h : Holds length g line) (place : Place) :
    Holds length { g with place := place, i := g.position length } line := by
  have hlt : (g.position length).toNat < length.toNat := h.position ▸ h.fits
  refine ⟨h.size, ?_, h.fits, h.taken, h.printable⟩
  rw [position_eq_self hlt]
  exact h.position

/-- **A character is typed** where there is room. -/
theorem Holds.type_room (h : Holds length g line) (hc : c ≠ 0)
    (hroom : line.length < length.toNat - 1) :
    Holds length { g with
      i := g.position length + 1
      buffer := g.buffer.set (g.position length).toNat c
      echo := g.echo ++ [.char c] } (line ++ [c]) := by
  have hlt := length.isLt
  have hnext : (g.position length + 1).toNat = line.length + 1 := by
    rw [BitVec.toNat_add, h.position]
    exact Nat.mod_eq_of_lt (by simpa using (by omega : line.length + 1 < 2 ^ 32))
  refine ⟨?_, ?_, ?_, ?_, ?_⟩
  · rw [List.length_set]
    exact h.size
  · rw [position_eq_self (by rw [hnext]; omega), hnext, List.length_append, List.length_singleton]
  · rw [List.length_append, List.length_singleton]
    omega
  · have hsize := h.size
    rw [h.position, List.length_append, List.length_singleton, List.take_succ_eq_append_getElem
      (by rw [List.length_set]; omega), List.take_set_of_le le_rfl, h.taken,
      List.getElem_set_self]
  · intro d hd
    rcases List.mem_append.1 hd with hd | hd
    · exact h.printable d hd
    · rwa [List.mem_singleton.1 hd]

/-- Where there is none it is put where the null will be. -/
theorem Holds.type_full (h : Holds length g line) (hfull : ¬ line.length < length.toNat - 1) :
    Holds length { g with
      i := g.position length + 1
      buffer := g.buffer.set (g.position length).toNat c
      echo := g.echo ++ [.char c] } line := by
  have hlt := length.isLt
  have hfits := h.fits
  have hlength : g.position length + 1 = length := by
    apply BitVec.eq_of_toNat_eq
    rw [BitVec.toNat_add, h.position, show (1 : BitVec 32).toNat = 1 from rfl]
    omega
  refine ⟨?_, ?_, h.fits, ?_, h.printable⟩
  · rw [List.length_set]
    exact h.size
  · rw [Gets.position, if_pos (BitVec.le_def.2 (by rw [hlength])), BitVec.toNat_sub,
      show (1 : BitVec 32).toNat = 1 from rfl]
    omega
  · rw [h.position, List.take_set_of_le le_rfl]
    exact h.taken

/-- **The last character is erased.** -/
theorem Holds.erase (h : Holds length g line) (hpos : 0 < (g.position length).toNat) :
    Holds length { g with
      i := g.position length - 1
      echo := g.echo ++ [.erase] } line.dropLast := by
  have hlt := length.isLt
  have hfits := h.fits
  have hback : (g.position length - 1).toNat = line.length - 1 := by
    rw [BitVec.toNat_sub, h.position, show (1 : BitVec 32).toNat = 1 from rfl]
    rw [h.position] at hpos
    omega
  refine ⟨h.size, ?_, ?_, ?_, fun d hd => h.printable d (List.mem_of_mem_dropLast hd)⟩
  · rw [position_eq_self (by rw [hback]; omega), hback, List.length_dropLast]
  · rw [List.length_dropLast]
    omega
  · rw [List.length_dropLast, ← Nat.min_eq_left (Nat.sub_le line.length 1), ← List.take_take,
      h.taken, List.dropLast_eq_take]

/-- **The null ends the line.** -/
theorem Holds.ends (h : Holds length g line) :
    (g.buffer.set (g.position length).toNat 0).takeWhile (· ≠ 0) = line := by
  have hsize := h.size
  have hfits := h.fits
  have hsplit : g.buffer.set (g.position length).toNat 0 =
      line ++ 0 :: g.buffer.drop (line.length + 1) := by
    rw [h.position, List.set_eq_take_append_cons_drop, if_pos (by omega), h.taken]
  rw [hsplit, List.takeWhile_append_of_pos (by simpa using h.printable),
    List.takeWhile_cons_of_neg (by simp), List.append_nil]

/-- **What has been read so far** holds the line, or has ended it. -/
def Reads (length : BitVec 32) (g : Gets) (line : List (BitVec 8)) : Prop :=
  match g.place with
  | .returned => g.buffer.takeWhile (· ≠ 0) = line
  | _ => Holds length g line

theorem reads_of_ne (hplace : g.place ≠ .returned) :
    Reads length g line ↔ Holds length g line := by
  rw [Reads]
  split
  · next h => exact absurd h hplace
  · exact Iff.rfl

theorem Sees.type_room (h : g.Sees line excess) {g' : Gets}
    (hecho : g'.echo = g.echo ++ [.char c]) :
    g'.Sees (line ++ [c]) excess := by
  refine ⟨?_, fun hexcess => ?_⟩
  · rw [hecho, shown_char, List.length_append, h.length, List.length_append]
    omega
  · rw [hecho, shown_char, h.same hexcess]

theorem Sees.type_full (h : g.Sees line excess) {g' : Gets}
    (hecho : g'.echo = g.echo ++ [.char c]) :
    g'.Sees line (excess + 1) := by
  refine ⟨?_, fun hexcess => absurd hexcess (Nat.succ_ne_zero _)⟩
  rw [hecho, shown_char, List.length_append, h.length, List.length_singleton]
  rfl

theorem Sees.erase (h : g.Sees line excess) {g' : Gets} (hecho : g'.echo = g.echo ++ [.erase])
    (hpos : 0 < line.length) : g'.Sees line.dropLast excess := by
  refine ⟨?_, fun hexcess => ?_⟩
  · rw [hecho, shown_erase, List.length_dropLast, h.length, List.length_dropLast]
    omega
  · rw [hecho, shown_erase, h.same hexcess]

theorem Sees.stay (h : g.Sees line excess) {g' : Gets} (hecho : g'.echo = g.echo) :
    g'.Sees line excess := ⟨by rw [hecho, h.length], fun hexcess => by rw [hecho, h.same hexcess]⟩

/-- **It reads the line**, of which all is seen. -/
structure Follows (length : BitVec 32) (g : Gets) (line : List (BitVec 8)) (excess : ℕ) :
    Prop where
  reads : Reads length g line
  sees : g.Sees line excess

/-- A key that is typed or erased, where there is one. -/
theorem step_key (h : Holds length g line) (hsees : g.Sees line excess)
    (hplace : g.place = .ground) (hend : ¬ (c = 0x0d ∨ c = 0x0a)) (hescape : c ≠ 0x1b) :
    ∃ g', g.step length c = some g' ∧ g'.place = .ground ∧
      Follows length g' ((Place.ground.key c).toList.foldl (edit (length.toNat - 1)) line)
        (excess + overflows (length.toNat - 1) line (Place.ground.key c).toList) := by
  have hsize : (g.position length).toNat < g.buffer.length := by
    rw [h.position, h.size]
    exact h.fits
  have hstay : Follows length { g with i := g.position length } line excess :=
    ⟨(reads_of_ne (by simp [hplace])).2 (h.stay g.place), hsees.stay rfl⟩
  simp only [step, hplace, if_neg hend, if_neg hescape, Place.key]
  by_cases hprint : 0x20 ≤ c ∧ c ≤ 0x7e
  · have hzero : c ≠ 0 := by
      rintro rfl
      exact absurd hprint.1 (by decide)
    rw [if_pos hprint, if_pos hprint, write_eq_some hsize]
    refine ⟨_, rfl, rfl, ?_⟩
    by_cases hroom : line.length < length.toNat - 1
    · simp only [Option.toList_some, List.foldl_cons, List.foldl_nil, edit, overflows, if_pos hroom]
      exact ⟨(reads_of_ne (by simp)).2 (hplace ▸ h.type_room hzero hroom), hsees.type_room rfl⟩
    · simp only [Option.toList_some, List.foldl_cons, List.foldl_nil, edit, overflows, if_neg hroom]
      exact ⟨(reads_of_ne (by simp)).2 (hplace ▸ h.type_full hroom), hsees.type_full rfl⟩
  rw [if_neg hprint, if_neg hprint]
  by_cases htab : c = 0x09
  · rw [if_pos htab, if_neg (by rw [htab]; decide)]
    exact ⟨_, rfl, rfl, hplace ▸ hstay⟩
  rw [if_neg htab]
  by_cases hback : c = 0x7f
  · rw [if_pos hback, if_pos hback]
    simp only [Option.toList_some, List.foldl_cons, List.foldl_nil, edit, overflows, Nat.add_zero]
    by_cases hpos : g.position length > 0
    · rw [if_pos hpos]
      have hpos' : 0 < (g.position length).toNat := BitVec.lt_def.1 hpos
      exact ⟨_, rfl, rfl, (reads_of_ne (by simp)).2 (hplace ▸ h.erase hpos'),
        hsees.erase rfl (h.position ▸ hpos')⟩
    · rw [if_neg hpos]
      have hnil : line = [] := by
        rw [← List.length_eq_zero_iff, ← h.position]
        exact Nat.eq_zero_of_not_pos fun hlt => hpos (BitVec.lt_def.2 hlt)
      rw [hnil] at hstay ⊢
      exact ⟨_, rfl, rfl, hplace ▸ hstay⟩
  · rw [if_neg hback, if_neg hback]
    exact ⟨_, rfl, rfl, hplace ▸ hstay⟩

/-- **One character** is read, wherever it is. -/
theorem Follows.step (h : Follows length g line excess) :
    ∃ g', g.step length c = some g' ∧ g'.place = g.place.next c ∧
      Follows length g' ((g.place.key c).toList.foldl (edit (length.toNat - 1)) line)
        (excess + overflows (length.toNat - 1) line (g.place.key c).toList) := by
  obtain ⟨hreads, hsees⟩ := h
  cases hplace : g.place with
  | ground =>
    have hholds := (reads_of_ne (by simp [hplace])).1 hreads
    have hsize : (g.position length).toNat < g.buffer.length := by
      rw [hholds.position, hholds.size]
      exact hholds.fits
    by_cases hend : c = 0x0d ∨ c = 0x0a
    · have hkey : Place.ground.key c = none := by
        rcases hend with rfl | rfl
        · rfl
        · rfl
      simp only [Gets.step, hplace, Place.next, if_pos hend, write_eq_some hsize, hkey]
      exact ⟨_, rfl, rfl, hholds.ends, hsees.stay rfl⟩
    by_cases hescape : c = 0x1b
    · simp only [Gets.step, hplace, Place.next, if_neg hend, if_pos hescape]
      have hkey : Place.ground.key c = none := by rw [hescape]; rfl
      rw [hkey]
      exact ⟨_, rfl, rfl, (reads_of_ne (by simp)).2 (hholds.stay _), hsees.stay rfl⟩
    · rw [Place.next, if_neg hend, if_neg hescape]
      exact step_key hholds hsees hplace hend hescape
  | escape =>
    have hholds := (reads_of_ne (by simp [hplace])).1 hreads
    simp only [Gets.step, hplace, Place.next, Place.key]
    refine ⟨_, rfl, rfl, (reads_of_ne ?_).2 ⟨hholds.size, hholds.position, hholds.fits,
      hholds.taken, hholds.printable⟩, hsees.stay rfl⟩
    dsimp only
    split <;> simp
  | params paramCount =>
    have hholds := (reads_of_ne (by simp [hplace])).1 hreads
    simp only [Gets.step, hplace, Place.next, Place.key]
    refine ⟨_, rfl, rfl, (reads_of_ne ?_).2 ⟨hholds.size, hholds.position, hholds.fits,
      hholds.taken, hholds.printable⟩, hsees.stay rfl⟩
    dsimp only
    split <;> simp
  | returned =>
    simp only [Gets.step, hplace, Place.next, Place.key]
    exact ⟨_, rfl, hplace, hreads, hsees⟩

end Gets

/-! ## The result -/

theorem overflows_append {keys keys' : List Key} :
    overflows capacity line (keys ++ keys') =
      overflows capacity line keys +
        overflows capacity (keys.foldl (edit capacity) line) keys' := by
  induction keys generalizing line with
  | nil => simp [overflows]
  | cons key keys ih =>
    cases key with
    | type c => rw [List.cons_append, overflows, overflows, ih, Nat.add_assoc]; rfl
    | erase => rw [List.cons_append, overflows, overflows, ih]; rfl

/-- **A run of characters** is followed. -/
theorem Gets.Follows.run (h : Follows length g line excess) (input : List (BitVec 8)) :
    ∃ g', input.foldlM (Gets.step length) g = some g' ∧ g'.place = input.foldl Place.next g.place ∧
      Follows length g' ((keys g.place input).foldl (edit (length.toNat - 1)) line)
        (excess + overflows (length.toNat - 1) line (keys g.place input)) := by
  induction input generalizing g line excess with
  | nil => exact ⟨g, rfl, rfl, h⟩
  | cons c input ih =>
    obtain ⟨g', hstep, hplace, hfollows⟩ := h.step (c := c)
    obtain ⟨g'', hrun, hplace', hfollows'⟩ := ih hfollows
    refine ⟨g'', ?_, ?_, ?_⟩
    · rw [List.foldlM_cons, hstep]
      exact hrun
    · rw [hplace', hplace]
      rfl
    · rw [hplace] at hfollows'
      rw [keys, List.foldl_append, overflows_append, ← Nat.add_assoc]
      exact hfollows'

/-- **`gets` never writes outside a buffer that is not empty**, whatever
comes in; once the line has ended it has put the line into the buffer, of
as many characters as there is room for; and what is seen is the line just
as long as nothing was typed for which there was no room. -/
theorem gets_line (hsize : buffer.length = length.toNat) (hpos : 0 < length.toNat)
    (input : List (BitVec 8)) :
    ∃ g, input.foldlM (Gets.step length) (Gets.start buffer) = some g ∧
      (g.place = .returned ↔ input.foldl Place.next .ground = .returned) ∧
      (g.place = .returned → g.buffer.takeWhile (· ≠ 0) =
        (keys .ground input).foldl (edit (length.toNat - 1)) []) ∧
      (shown g.echo = (keys .ground input).foldl (edit (length.toNat - 1)) [] ↔
        overflows (length.toNat - 1) [] (keys .ground input) = 0) := by
  have hstart : Gets.Follows length (Gets.start buffer) [] 0 := by
    have hposition : (Gets.start buffer).position length = 0 :=
      Gets.position_eq_self (by simpa [Gets.start] using hpos)
    refine ⟨(Gets.reads_of_ne (by simp [Gets.start])).2 ⟨hsize, ?_, hpos, rfl, ?_⟩, rfl,
      fun _ => rfl⟩
    · rw [hposition]
      rfl
    · exact fun c hc => absurd hc List.not_mem_nil
  obtain ⟨g, hrun, hplace, hfollows⟩ := hstart.run input
  rw [Nat.zero_add] at hfollows
  refine ⟨g, hrun, by rw [hplace]; rfl, fun hreturned => ?_, fun heq => ?_, hfollows.sees.same⟩
  · have hreads := hfollows.reads
    rw [Gets.Reads, hreturned] at hreads
    exact hreads
  · have hlength := hfollows.sees.length
    rw [heq] at hlength
    exact Nat.left_eq_add.1 hlength

/-- A line of two, typed with a third character and a cursor key. -/
theorem gets_line_three :
    ∃ g, [0x61, 0x62, 0x1b, 0x5b, 0x31, 0x43, 0x63, 0x0d].foldlM (Gets.step 3)
        (Gets.start [0xff, 0xff, 0xff]) = some g ∧
      g.buffer.takeWhile (· ≠ 0) = [0x61, 0x62] ∧ shown g.echo ≠ [0x61, 0x62] := by
  obtain ⟨g, hrun, hplace, hline, hseen⟩ := @gets_line 3 [0xff, 0xff, 0xff] rfl (by decide)
    [0x61, 0x62, 0x1b, 0x5b, 0x31, 0x43, 0x63, 0x0d]
  exact ⟨g, hrun, hline (hplace.2 (by decide)), fun heq => absurd (hseen.1 heq) (by decide)⟩

end Console

end Uberos
