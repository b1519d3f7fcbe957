import Mathlib.Data.List.DropRight
import Mathlib.Tactic.Common
import Uberos.Library.Run
/-!
# The history of the log

`historyHandler`, `record` and the two parts of the history of
`kernel/logging.cpp`, and the prints of `kernel/logging.inl` that reach
it. The buffer goes round: what is before the position is the newer text,
what is behind it the older one, and each ends with a null. It is of any
size here, that of `history` being 8192. What else a print writes, to the
console and to other handlers, is left out.
-/

namespace Uberos

namespace Logging

open Library

/-- `history` and `historyPosition`, where `sizeof(history)` is
`capacity+2`. The position never is that of the last byte. -/
structure History (capacity : ℕ) where
  history : Vector (BitVec 8) (capacity + 2)
  historyPosition : Fin (capacity + 1)

namespace History

variable {capacity : ℕ}

/-- As it is at first. -/
def new (capacity : ℕ) : History capacity := ⟨Vector.replicate _ 0, 0⟩

/-- `record` -/
def record (h : History capacity) (c : BitVec 8) : History capacity :=
  let position := h.historyPosition
  let history := h.history.set position.castSucc c (Fin.isLt _)
  let history := history.set position.succ 0 (Fin.isLt _)
  if hroom : position.val + 1 < capacity + 1 then ⟨history, ⟨position.val + 1, hroom⟩⟩
  else ⟨history.set 0 0 (Nat.zero_lt_succ _), 0⟩

/-- The string that starts at a byte. -/
def string (h : History capacity) (start : ℕ) : List (BitVec 8) :=
  (h.history.toList.drop start).takeWhile (· ≠ 0)

/-- `get_history_part_1` -/
def part1 (h : History capacity) : List (BitVec 8) :=
  h.string ((h.historyPosition + 1) % (capacity + 1))

/-- `get_history_part_2` -/
def part2 (h : History capacity) : List (BitVec 8) := h.string 0

/-- Both, as `redraw` prints them. -/
def joined (h : History capacity) : List (BitVec 8) := h.part1 ++ h.part2

end History

/-- The prints, as they call `historyHandler`, and a section's two ends. -/
inductive Print
  /-- `print_start`, of any type. -/
  | start
  | inlineChar (c : BitVec 8)
  | inlineString (str : List (BitVec 8))
  /-- `print_end` -/
  | ending
  /-- `indent++` of `beginSection`. -/
  | indent
  /-- `indent--` of `endSection`. -/
  | unindent

/-- `indent` and the history. -/
structure Logger where
  indent : BitVec 32
  history : History 8190

namespace Logger

def new : Logger := ⟨0, History.new 8190⟩

/-- What a print records. -/
def recorded (indent : BitVec 32) : Print → List (BitVec 8)
  | .start => List.replicate (2 * indent.toNat) 0x20
  | .inlineChar c => [c]
  | .inlineString str => str.takeWhile (· ≠ 0)
  | .ending => [0x0a]
  | .indent => []
  | .unindent => []

/-- The indent after a print. -/
def indented (indent : BitVec 32) : Print → BitVec 32
  | .indent => indent + 1
  | .unindent => indent - 1
  | _ => indent

/-- One print. -/
def step (l : Logger) (p : Print) : Logger :=
  ⟨indented l.indent p, (recorded l.indent p).foldl History.record l.history⟩

/-- All the text that was logged. -/
def logged : BitVec 32 → List Print → List (BitVec 8)
  | _, [] => []
  | indent, p :: prints => recorded indent p ++ logged (indented indent p) prints

end Logger

/-! ## What it holds -/

namespace History

variable {capacity : ℕ} {h : History capacity} {text : List (BitVec 8)} {c : BitVec 8}

/-- **It holds the text** so far, the older part of it behind the position:
as much as there is room for, or none of it if all is before. -/
structure Holds (h : History capacity) (text newer older : List (BitVec 8)) : Prop where
  toList : h.history.toList = newer ++ 0 :: (older ++ [0])
  position : newer.length = h.historyPosition
  wraps : text.length % (capacity + 1) = newer.length
  text : text = newer ∧ older = List.replicate older.length 0 ∨ (older ++ newer) <:+ text

/-! ## Recording -/

variable {newer older : List (BitVec 8)}

theorem Holds.length (h' : h.Holds text newer older) : newer.length + older.length = capacity := by
  have hlength := congrArg List.length h'.toList
  simp only [Vector.length_toList, List.length_append, List.length_cons, List.length_nil] at hlength
  omega

theorem holds_new : (new capacity).Holds [] [] (List.replicate capacity 0) where
  toList := by
    rw [new, Vector.toList_replicate, List.nil_append, ← List.replicate_succ',
      ← List.replicate_succ]
  position := rfl
  wraps := Nat.zero_mod _
  text := Or.inl ⟨rfl, by rw [List.length_replicate]⟩

/-- What is written before the position moves. -/
theorem set_written (newer older : List (BitVec 8)) (c : BitVec 8) :
    ((newer ++ 0 :: older).set newer.length c).set (newer.length + 1) 0 =
      newer ++ c :: older.set 0 0 := by
  rw [List.set_append_right _ _ le_rfl, Nat.sub_self, List.set_cons_zero,
    List.set_append_right _ _ (Nat.le_succ _), Nat.succ_sub (le_refl _), Nat.sub_self,
    List.set_cons_succ]

/-- What `record` leaves, up to the wrap. -/
theorem Holds.toList_written (h' : h.Holds text newer older) :
    ((h.history.set h.historyPosition.castSucc c (Fin.isLt _)).set
      h.historyPosition.succ 0 (Fin.isLt _)).toList = newer ++ c :: (older ++ [0]).set 0 0 := by
  rw [Vector.toList_set, Vector.toList_set, h'.toList, Fin.val_succ, Fin.val_castSucc,
    ← h'.position, set_written]

/-- Where the position is not the last, the character follows the newer
ones and the null moves on. -/
theorem Holds.record_cons {o : BitVec 8} (h' : h.Holds text newer (o :: older)) :
    (h.record c).Holds (text ++ [c]) (newer ++ [c]) older := by
  have hlength := h'.length
  have hposition := h'.position
  rw [List.length_cons] at hlength
  have hroom : h.historyPosition.val + 1 < capacity + 1 := by omega
  rw [record, dif_pos hroom]
  refine ⟨?_, ?_, ?_, ?_⟩
  · refine h'.toList_written.trans ?_
    rw [List.cons_append, List.set_cons_zero, List.append_assoc, List.singleton_append]
  · rw [List.length_append, List.length_singleton, hposition]
  · rw [List.length_append, List.length_append, List.length_singleton, ← Nat.mod_add_mod,
      h'.wraps, Nat.mod_eq_of_lt (by omega)]
  · rcases h'.text with ⟨rfl, hzeros⟩ | ⟨lost, rfl⟩
    · refine Or.inl ⟨rfl, ?_⟩
      rw [List.length_cons, List.replicate_succ, List.cons.injEq] at hzeros
      exact hzeros.2
    · exact Or.inr ⟨lost ++ [o], by simp⟩

/-- Where it is, all there is becomes older, and the first is lost. -/
theorem Holds.record_nil (h' : h.Holds text newer []) :
    (h.record c).Holds (text ++ [c]) [] (newer ++ [c]).tail := by
  have hlength := h'.length
  have hposition := h'.position
  rw [List.length_nil] at hlength
  have hlast : ¬ h.historyPosition.val + 1 < capacity + 1 := by omega
  rw [record, dif_neg hlast]
  refine ⟨?_, rfl, ?_, Or.inr ?_⟩
  · rw [Vector.toList_set, h'.toList_written]
    rcases newer with - | ⟨n, newer⟩
    · rfl
    · simp
  · rw [List.length_append, List.length_singleton, ← Nat.mod_add_mod, h'.wraps, List.length_nil,
      show newer.length = capacity from hlength, Nat.mod_self]
  · have hsuffix : newer <:+ text := by
      rcases h'.text with ⟨rfl, -⟩ | hsuffix
      · exact List.suffix_rfl
      · exact hsuffix
    rw [List.append_nil]
    obtain ⟨lost, rfl⟩ := hsuffix
    exact (List.tail_suffix _).trans ⟨lost, by rw [List.append_assoc]⟩

/-- **A step keeps what is held.** -/
theorem Holds.record (h' : h.Holds text newer older) :
    ∃ newer' older', (h.record c).Holds (text ++ [c]) newer' older' := by
  cases older with
  | nil => exact ⟨_, _, h'.record_nil⟩
  | cons o older => exact ⟨_, _, h'.record_cons⟩

/-- **A run keeps what is held.** -/
theorem Holds.records (h' : h.Holds text newer older) (cs : List (BitVec 8)) :
    ∃ newer' older', (cs.foldl History.record h).Holds (text ++ cs) newer' older' := by
  induction cs generalizing h text newer older with
  | nil => exact ⟨newer, older, by rwa [List.append_nil]⟩
  | cons c cs ih =>
    obtain ⟨newer', older', hrecord⟩ := h'.record (c := c)
    obtain ⟨newer'', older'', hrun⟩ := ih hrecord
    rw [List.append_assoc, List.singleton_append] at hrun
    exact ⟨newer'', older'', hrun⟩

/-! ## The parts -/

theorem takeWhile_append_zero {s rest : List (BitVec 8)} (hs : ∀ c ∈ s, c ≠ 0) :
    (s ++ 0 :: rest).takeWhile (· ≠ 0) = s := by
  rw [List.takeWhile_append_of_pos (by simpa using hs), List.takeWhile_cons_of_neg (by simp),
    List.append_nil]

theorem Holds.newer_suffix (h' : h.Holds text newer older) : newer <:+ text := by
  rcases h'.text with ⟨rfl, -⟩ | hsuffix
  · exact List.suffix_rfl
  · exact (List.suffix_append older newer).trans hsuffix

theorem Holds.part2_eq (h' : h.Holds text newer older) (htext : ∀ c ∈ text, c ≠ 0) :
    h.part2 = newer := by
  have hnewer : ∀ c ∈ newer, c ≠ 0 := fun c hc => htext c (h'.newer_suffix.subset hc)
  rw [part2, string, List.drop_zero, h'.toList, takeWhile_append_zero hnewer]

/-- The last of a text, as a suffix of it. -/
theorem rtake_eq_of_suffix {s : List (BitVec 8)} (hs : s <:+ text) :
    text.rtake s.length = s := by
  obtain ⟨lost, rfl⟩ := hs
  rw [List.rtake, List.length_append, Nat.add_sub_cancel, List.drop_left]

theorem rtake_eq_self {n : ℕ} (h : text.length ≤ n) : text.rtake n = text := by
  rw [List.rtake, Nat.sub_eq_zero_of_le h, List.drop_zero]

/-- At the last position the first part is the second one again. -/
theorem Holds.part1_of_last (h' : h.Holds text newer older) (htext : ∀ c ∈ text, c ≠ 0)
    (hlast : newer.length = capacity) : h.part1 = newer := by
  rw [part1, ← h'.position, hlast, Nat.mod_self]
  exact h'.part2_eq htext

/-- Anywhere else the first part is what is behind the position. -/
theorem Holds.part1_of_lt (h' : h.Holds text newer older) (hlt : newer.length < capacity) :
    h.part1 = (older ++ [0]).takeWhile (· ≠ 0) := by
  rw [part1, ← h'.position, Nat.mod_eq_of_lt (by omega), string, h'.toList, ← List.drop_drop,
    List.drop_left, List.drop_one, List.tail_cons]

/-- **The two parts together**, by the text so far. -/
theorem Holds.joined_eq (h' : h.Holds text newer older) (htext : ∀ c ∈ text, c ≠ 0) :
    h.joined = if text.length % (capacity + 1) = capacity
      then text.rtake capacity ++ text.rtake capacity else text.rtake capacity := by
  have hlength := h'.length
  rw [joined, h'.part2_eq htext, h'.wraps]
  split
  · next hlast =>
    rw [h'.part1_of_last htext hlast, ← hlast, rtake_eq_of_suffix h'.newer_suffix]
  · next hlast =>
    rw [h'.part1_of_lt (by omega)]
    rcases h'.text with ⟨rfl, hzeros⟩ | hsuffix
    · obtain ⟨n, hn⟩ : ∃ n, older.length = n + 1 := ⟨older.length - 1, by omega⟩
      rw [hzeros, hn, List.replicate_succ, List.cons_append, List.takeWhile_cons_of_neg (by simp),
        List.nil_append, rtake_eq_self (by omega)]
    · have holder : ∀ c ∈ older, c ≠ 0 := fun c hc =>
        htext c (hsuffix.subset (List.mem_append_left _ hc))
      rw [takeWhile_append_zero holder, ← rtake_eq_of_suffix hsuffix, List.length_append,
        Nat.add_comm, hlength]

end History

/-! ## The result -/

namespace Logger

/-- What a run of prints records. -/
theorem history_run (l : Logger) (prints : List Print) :
    (run step l prints).history = (logged l.indent prints).foldl History.record l.history := by
  induction prints generalizing l with
  | nil => rfl
  | cons p prints ih => rw [run_cons, ih, logged, List.foldl_append]; rfl

/-- A text that is printed has no null in it but a character that is one. -/
theorem ne_zero_of_logged {prints : List Print}
    (h : ∀ c, Print.inlineChar c ∈ prints → c ≠ 0) (indent : BitVec 32) :
    ∀ c ∈ logged indent prints, c ≠ 0 := by
  induction prints generalizing indent with
  | nil => exact fun c hc => absurd hc List.not_mem_nil
  | cons p prints ih =>
    intro c hc
    rcases List.mem_append.1 hc with hc | hc
    · cases p with
      | start =>
        rw [(List.mem_replicate.1 hc).2]
        decide
      | inlineChar d =>
        rw [List.mem_singleton.1 hc]
        exact h d List.mem_cons_self
      | inlineString str => simpa using List.mem_takeWhile_imp hc
      | ending =>
        rw [List.mem_singleton.1 hc]
        decide
      | indent => exact absurd hc List.not_mem_nil
      | unindent => exact absurd hc List.not_mem_nil
    · exact ih (fun d hd => h d (List.mem_cons_of_mem _ hd)) _ c hc

/-- **The two parts of the history are the last 8190 characters of the
log**, or all of it where it is shorter; but where the log's length is one
less than a multiple of 8191 they are that twice. -/
theorem history_joined {prints : List Print} (h : ∀ c, Print.inlineChar c ∈ prints → c ≠ 0) :
    (run step new prints).history.joined =
      if (logged 0 prints).length % 8191 = 8190
      then (logged 0 prints).rtake 8190 ++ (logged 0 prints).rtake 8190
      else (logged 0 prints).rtake 8190 := by
  obtain ⟨newer, older, hholds⟩ := (@History.holds_new 8190).records (logged 0 prints)
  rw [List.nil_append] at hholds
  rw [history_run]
  exact hholds.joined_eq (ne_zero_of_logged h 0)

/-- A section with a line in it. -/
theorem history_joined_section :
    (run step new [.start, .inlineString [0x61, 0x62], .ending, .indent, .start, .inlineChar 0x63,
      .ending, .unindent]).history.joined = [0x61, 0x62, 0x0a, 0x20, 0x20, 0x63, 0x0a] := by
  rw [history_joined (by simp)]
  rfl

end Logger

end Logging

end Uberos
