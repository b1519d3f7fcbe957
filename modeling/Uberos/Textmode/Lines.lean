import Mathlib.Data.List.Basic
import Mathlib.Data.List.Induction
import Uberos.Textmode.Events
/-!
# Texts set line by line

A line that ends before the last column takes its cells, and one that does
not fills its row; what of it is moved is set again on the next.
-/

namespace Uberos

namespace Textmode

variable {row col : ℕ} {char : BitVec 8} {line rest text : List (BitVec 8)} {begins moves : Bool}

/-! ## Words -/

theorem wordLength_cons_of_isWord (h : isWord char) :
    wordLength (char :: text) = wordLength text + 1 := by
  rw [wordLength, List.takeWhile_cons_of_pos h, List.length_cons, wordLength]

theorem wordLength_cons_of_not_isWord (h : ¬isWord char) : wordLength (char :: text) = 0 := by
  rw [wordLength, List.takeWhile_cons_of_neg h, List.length_nil]

theorem isWord_iff : isWord char ↔ char ≠ newline ∧ ¬isBreak char := by
  simp [isWord]

variable (line) in
/-- A word that does not go on after a line is not longer than that. -/
theorem wordLength_append_le (hrest : wordLength rest = 0) :
    wordLength (line ++ rest) ≤ line.length := by
  induction line with
  | nil => exact Nat.le_of_eq hrest
  | cons c line ih =>
    by_cases hc : isWord c
    · rw [List.cons_append, wordLength_cons_of_isWord hc, List.length_cons]
      omega
    · rw [List.cons_append, wordLength_cons_of_not_isWord hc]
      omega

/-- A word is as long as what it begins with, and what goes on. -/
theorem wordLength_append_of_isWord (h : ∀ c ∈ line, isWord c) :
    wordLength (line ++ rest) = line.length + wordLength rest := by
  induction line with
  | nil => simp
  | cons c line ih =>
    rw [List.forall_mem_cons] at h
    rw [List.cons_append, wordLength_cons_of_isWord h.1, ih h.2, List.length_cons]
    omega

/-- Whether a word begins after a line. -/
def beginsAfter (begins : Bool) (line : List (BitVec 8)) : Bool :=
  line.foldl (fun _ c => isBreak c) begins

@[simp] theorem beginsAfter_nil (begins : Bool) : beginsAfter begins [] = begins := rfl

@[simp] theorem beginsAfter_cons (begins : Bool) (c : BitVec 8) (line : List (BitVec 8)) :
    beginsAfter begins (c :: line) = beginsAfter (isBreak c) line := rfl

theorem beginsAfter_of_getLast? (h : line.getLast? = some char) (begins : Bool) :
    beginsAfter begins line = isBreak char := by
  obtain ⟨init, rfl⟩ := List.getLast?_eq_some_iff.mp h
  rw [beginsAfter, List.foldl_append]
  rfl

/-! ## First lines -/

/-- A text has a first line that ends on its row, or one that does not. -/
theorem exists_line {room : ℕ} (hroom : 0 < room) (text : List (BitVec 8)) :
    (newline ∉ text ∧ text.length < room) ∨
    (∃ line rest, text = line ++ newline :: rest ∧ newline ∉ line ∧ line.length < room) ∨
    ∃ line char rest, text = line ++ char :: rest ∧ newline ∉ line ∧ char ≠ newline ∧
      line.length + 1 = room := by
  induction text generalizing room with
  | nil => exact .inl ⟨List.not_mem_nil, hroom⟩
  | cons char text ih =>
    by_cases hchar : char = newline
    · exact .inr (.inl ⟨[], text, by rw [hchar]; rfl, List.not_mem_nil, hroom⟩)
    · have hne : newline ≠ char := Ne.symm hchar
      by_cases hlast : room = 1
      · exact .inr (.inr ⟨[], char, text, rfl, List.not_mem_nil, hchar, hlast.symm⟩)
      · rcases ih (show 0 < room - 1 by omega) with
          ⟨hmem, hlen⟩ | ⟨line, rest, rfl, hmem, hlen⟩ | ⟨line, last, rest, rfl, hmem, hlast, hlen⟩
        · refine .inl ⟨List.not_mem_cons_of_ne_of_not_mem hne hmem, ?_⟩
          rw [List.length_cons]
          omega
        · refine .inr (.inl ⟨char :: line, rest, rfl,
            List.not_mem_cons_of_ne_of_not_mem hne hmem, ?_⟩)
          rw [List.length_cons]
          omega
        · refine .inr (.inr ⟨char :: line, last, rest, rfl,
            List.not_mem_cons_of_ne_of_not_mem hne hmem, hlast, ?_⟩)
          rw [List.length_cons]
          omega

/-- What begins with a newline is after a line. -/
theorem suffix_of_append (hline : newline ∉ line) (h : newline :: text <:+ line ++ rest) :
    newline :: text <:+ rest := by
  induction line with
  | nil => exact h
  | cons c line ih =>
    rw [List.mem_cons, not_or] at hline
    rcases List.suffix_cons_iff.mp h with heq | hsuffix
    · exact absurd (List.cons.inj heq).1 hline.1
    · exact ih hline.2 hsuffix

namespace Console

variable {t : Console}

/-! ## Single characters -/

theorem typeset_newline (moves begins : Bool) (row col : ℕ) (text : List (BitVec 8)) :
    t.typeset moves begins row col (newline :: text)
      = t.nextRow row (t.stopped row) fun row => t.typeset moves true row t.colStart text := by
  rw [typeset, if_pos rfl]

/-- A word is moved. -/
def Moves (t : Console) (moves begins : Bool) (col : ℕ) (text : List (BitVec 8)) : Prop :=
  moves ∧ begins ∧ col ≠ t.colStart ∧ t.colEnd < col + wordLength text

theorem not_moves_colStart : ¬t.Moves moves begins t.colStart text := fun h => h.2.2.1 rfl

theorem typeset_put (hchar : char ≠ newline) (hstays : ¬t.Moves moves begins col (char :: text)) :
    t.typeset moves begins row col (char :: text)
      = (if col + 1 < t.colEnd then t.typeset moves (isBreak char) row (col + 1) text
          else t.nextRow row (t.stopped row) fun row =>
            t.typeset moves (isBreak char) row t.colStart text).after
          (puts row col [char]) := by
  unfold Moves at hstays
  rw [typeset, if_neg hchar, if_neg hstays]

/-- At a row's start it does not matter whether a word begins. -/
theorem typeset_colStart (begins begins' : Bool) :
    t.typeset moves begins row t.colStart text = t.typeset moves begins' row t.colStart text := by
  cases text with
  | nil => rfl
  | cons char text =>
    by_cases hchar : char = newline
    · rw [hchar, typeset_newline, typeset_newline]
    · rw [typeset_put hchar not_moves_colStart, typeset_put hchar not_moves_colStart]

/-- **A word that is moved** is set from the next row's start. -/
theorem typeset_moved (hchar : char ≠ newline) (hmoves : t.Moves moves begins col (char :: text)) :
    t.typeset moves begins row col (char :: text)
      = (t.nextRow row (t.stopped row) fun row =>
          t.typeset moves true row t.colStart (char :: text)).after
        (puts row col (List.replicate (t.colEnd - col) space)) := by
  unfold Moves at hmoves
  have hset : ∀ row, t.typeset moves true row t.colStart (char :: text)
      = (if t.colStart + 1 < t.colEnd then
            t.typeset moves (isBreak char) row (t.colStart + 1) text
          else t.nextRow row (t.stopped row) fun row =>
            t.typeset moves (isBreak char) row t.colStart text).after
          (puts row t.colStart [char]) := fun row => typeset_put hchar not_moves_colStart
  rw [typeset, if_neg hchar, if_pos hmoves]
  simp only [hset]

/-! ## What stays on its row -/

variable (t) in
/-- No word of a line is moved. -/
def Stays (moves : Bool) (rest : List (BitVec 8)) : Bool → ℕ → List (BitVec 8) → Prop
  | _, _, [] => True
  | begins, col, c :: line =>
    ¬t.Moves moves begins col (c :: line ++ rest) ∧ Stays moves rest (isBreak c) (col + 1) line

theorem stays_append {line' : List (BitVec 8)} :
    t.Stays moves rest begins col (line ++ line') ↔
      t.Stays moves (line' ++ rest) begins col line ∧
        t.Stays moves rest (beginsAfter begins line) (col + line.length) line' := by
  induction line generalizing begins col with
  | nil => exact (and_iff_right trivial).symm
  | cons c line ih =>
    rw [List.cons_append, Stays, ih, Stays, beginsAfter_cons, List.length_cons, List.cons_append,
      List.append_assoc, List.cons_append, and_assoc]
    have hcol : col + 1 + line.length = col + (line.length + 1) := by omega
    rw [hcol]

/-- A line with which its last word ends stays. -/
theorem stays_of_ends (hrest : wordLength rest = 0) (hfits : col + line.length ≤ t.colEnd) :
    t.Stays moves rest begins col line := by
  induction line generalizing begins col with
  | nil => trivial
  | cons c line ih =>
    have hlen : (c :: line).length = line.length + 1 := rfl
    refine ⟨fun h => ?_, ih (by omega)⟩
    have hword := wordLength_append_le (c :: line) hrest
    have hlt := h.2.2.2
    omega

/-- And so does one that ends with a break, whatever there is after it. -/
theorem stays_of_break (hlast : line = [] ∨ ∃ c, line.getLast? = some c ∧ isBreak c)
    (hfits : col + line.length ≤ t.colEnd) : t.Stays moves rest begins col line := by
  rcases hlast with rfl | ⟨c, hc, hbreak⟩
  · trivial
  · obtain ⟨init, rfl⟩ := List.getLast?_eq_some_iff.mp hc
    rw [List.length_append, List.length_singleton] at hfits
    have hnot : ¬isWord c := fun h => (isWord_iff.mp h).2 hbreak
    refine stays_append.mpr
      ⟨stays_of_ends (wordLength_cons_of_not_isWord hnot) (by omega), ?_, trivial⟩
    intro h
    have hlt := h.2.2.2
    rw [List.cons_append, wordLength_cons_of_not_isWord hnot] at hlt
    omega

/-- So does a word that is from a row's start, however long. -/
theorem stays_of_isWord (hline : ∀ c ∈ line, isWord c)
    (hstart : begins = false ∨ col = t.colStart) :
    t.Stays moves rest begins col line := by
  induction line generalizing begins col with
  | nil => trivial
  | cons c line ih =>
    rw [List.forall_mem_cons] at hline
    refine ⟨?_, ih hline.2 (.inl (eq_false_of_ne_true (isWord_iff.mp hline.1).2))⟩
    rcases hstart with rfl | rfl
    · exact fun h => Bool.false_ne_true h.2.1
    · exact not_moves_colStart

/-! ## Lines -/

/-- **What stays is set in its cells**, up to the last of the row. -/
theorem typeset_append (hline : newline ∉ line) (hstays : t.Stays moves rest begins col line)
    (hfits : col + line.length < t.colEnd) :
    t.typeset moves begins row col (line ++ rest)
      = (t.typeset moves (beginsAfter begins line) row (col + line.length) rest).after
          (puts row col line) := by
  induction line generalizing begins col with
  | nil => rfl
  | cons c line ih =>
    rw [List.mem_cons, not_or] at hline
    rw [List.length_cons] at hfits
    have hcol : col + (line.length + 1) = col + 1 + line.length := by omega
    have hfirst : ¬t.Moves moves begins col (c :: (line ++ rest)) := hstays.1
    rw [List.cons_append, typeset_put (Ne.symm hline.1) hfirst, if_pos (by omega),
      ih hline.2 hstays.2 (by omega), ← Result.after_append, puts_cons row col c line,
      List.length_cons, hcol]
    rfl

/-- A row that is filled is left at once. -/
theorem typeset_full (hne : line ≠ []) (hline : newline ∉ line)
    (hstays : t.Stays moves rest begins col line) (hfull : col + line.length = t.colEnd) :
    t.typeset moves begins row col (line ++ rest)
      = (t.nextRow row (t.stopped row) fun row =>
          t.typeset moves true row t.colStart rest).after (puts row col line) := by
  obtain ⟨init, char, rfl⟩ := (List.eq_nil_or_concat' line).resolve_left hne
  rw [List.length_append, List.length_singleton] at hfull
  rw [List.mem_append, not_or, List.mem_singleton] at hline
  have hfirst : t.Stays moves (char :: rest) begins col init := (stays_append.mp hstays).1
  have hlast : ¬t.Moves moves (beginsAfter begins init) (col + init.length) (char :: rest) :=
    (stays_append.mp hstays).2.1
  rw [List.append_assoc, List.singleton_append, typeset_append hline.1 hfirst (by omega),
    typeset_put (Ne.symm hline.2) hlast, if_neg (by omega), ← Result.after_append, puts_append]
  congr 1
  exact nextRow_congr (fun _ => typeset_colStart _ _) fun _ => rfl

/-- A text that ends on a row, -/
theorem typeset_line (hline : newline ∉ line) (hfits : col + line.length < t.colEnd) :
    t.typeset moves begins row col line = ⟨puts row col line, ⟨row, col + line.length⟩⟩ := by
  have hset : t.typeset moves begins row col (line ++ [])
      = (t.typeset moves (beginsAfter begins line) row (col + line.length) []).after
          (puts row col line) := typeset_append hline (stays_of_ends rfl (by omega)) hfits
  rw [List.append_nil] at hset
  rw [hset, typeset, Result.after, List.append_nil]

/-- and a line that does. -/
theorem typeset_line_newline (hline : newline ∉ line) (hfits : col + line.length < t.colEnd) :
    t.typeset moves begins row col (line ++ newline :: text)
      = (t.nextRow row (t.stopped row) fun row => t.typeset moves true row t.colStart text).after
          (puts row col line) := by
  have hnot : ¬isWord newline := by decide
  rw [typeset_append hline (stays_of_ends (wordLength_cons_of_not_isWord hnot) (by omega)) hfits,
    typeset_newline]

variable (row rest begins moves) in
/-- **A line that does not end on its row fills that**, with characters or
with spaces, and what is left of it is set on the next. -/
theorem exists_typeset_full (hline : newline ∉ line) (hfull : col + line.length = t.colEnd)
    (hcol : col < t.colEnd) :
    ∃ es left, OnRow row es ∧ es.length = line.length ∧ newline ∉ left ∧
      t.typeset moves begins row col (line ++ rest)
        = (t.nextRow row (t.stopped row) fun row =>
            t.typeset moves true row t.colStart (left ++ rest)).after es := by
  induction line generalizing begins col with
  | nil => exact absurd hfull (by simp; omega)
  | cons c line ih =>
    by_cases hmoves : t.Moves moves begins col (c :: (line ++ rest))
    · have hlen : t.colEnd - col = (c :: line).length := by omega
      rw [List.mem_cons, not_or] at hline
      refine ⟨_, c :: line, onRow_puts _ _ _, ?_,
        List.not_mem_cons_of_ne_of_not_mem hline.1 hline.2, typeset_moved (Ne.symm hline.1) hmoves⟩
      rw [length_puts, List.length_replicate, hlen]
    · rw [List.mem_cons, not_or] at hline
      rw [List.length_cons] at hfull
      rw [List.cons_append, typeset_put (Ne.symm hline.1) hmoves]
      by_cases hlast : col + 1 < t.colEnd
      · obtain ⟨es, left, hes, hlen, hleft, heq⟩ := ih (isBreak c) hline.2
          (show col + 1 + line.length = t.colEnd by omega) hlast
        refine ⟨puts row col [c] ++ es, left, (onRow_puts _ _ _).append hes, ?_, hleft, ?_⟩
        · rw [List.length_append, length_puts, hlen, List.length_singleton, List.length_cons]
          omega
        · rw [if_pos hlast, heq, Result.after_append]
      · have hnil : line = [] := List.eq_nil_of_length_eq_zero (by omega)
        subst hnil
        refine ⟨puts row col [c], [], onRow_puts _ _ _, rfl, List.not_mem_nil, ?_⟩
        rw [if_neg hlast]
        congr 1
        exact nextRow_congr (fun _ => typeset_colStart _ _) fun _ => rfl

variable (row begins moves) in
/-- **A text that does not end on its row** goes on on the next, with what
comes after any of its newlines. -/
theorem exists_typeset_nextRow (hcol : col < t.colEnd)
    (h : newline ∈ text ∨ t.colEnd ≤ col + text.length) :
    ∃ es left, OnRow row es ∧ (∀ c, newline :: c <:+ text → c <:+ left) ∧
      t.typeset moves begins row col text
        = (t.nextRow row (t.stopped row) fun row =>
            t.typeset moves true row t.colStart left).after es := by
  rcases exists_line (show 0 < t.colEnd - col by omega) text with
    ⟨hline, hlen⟩ | ⟨line, rest, rfl, hline, hlen⟩ | ⟨line, last, rest, rfl, hline, hlast, hlen⟩
  · rcases h with hmem | hlong
    · exact absurd hmem hline
    · omega
  · refine ⟨_, rest, onRow_puts _ _ _, fun c hc => ?_, typeset_line_newline hline (by omega)⟩
    rcases List.suffix_cons_iff.mp (suffix_of_append hline hc) with heq | hsuffix
    · exact (List.cons.inj heq).2 ▸ List.suffix_rfl
    · exact (List.suffix_cons newline c).trans hsuffix
  · have hmem : newline ∉ line ++ [last] := by
      rw [List.mem_append, List.mem_singleton]
      exact not_or.mpr ⟨hline, Ne.symm hlast⟩
    obtain ⟨es, left, hes, -, hleft, hset⟩ := exists_typeset_full row rest begins moves hmem
      (by rw [List.length_append, List.length_singleton]; omega) hcol
    rw [List.append_assoc, List.singleton_append] at hset
    refine ⟨es, left ++ rest, hes, fun c hc => ?_, hset⟩
    have hc : newline :: c <:+ (line ++ [last]) ++ rest := by
      rw [List.append_assoc]
      exact hc
    exact ((List.suffix_cons newline c).trans (suffix_of_append hmem hc)).trans
      (List.suffix_append left rest)

/-! ## Where it goes -/

theorem startsAt_stopped (row : ℕ) : StartsAt (row + 1) (t.stopped row).events := startsAt_nil _

/-- A text is set from its row on, -/
theorem startsAt_typeset : StartsAt row (t.typeset moves begins row col text).events := by
  induction text generalizing begins row col with
  | nil => exact startsAt_nil _
  | cons char text ih =>
    by_cases hchar : char = newline
    · rw [hchar, typeset_newline]
      exact startsAt_nextRow (startsAt_stopped row) fun _ => ih
    · by_cases hmoves : t.Moves moves begins col (char :: text)
      · rw [typeset_moved hchar hmoves]
        refine (onRow_puts _ _ _).startsAt.append
          (startsAt_nextRow (startsAt_stopped row) fun r => ?_)
        rw [typeset_put hchar not_moves_colStart]
        exact StartsAt.append (onRow_puts _ _ _).startsAt
          (by split; exacts [ih, startsAt_nextRow (startsAt_stopped r) fun _ => ih])
      · rw [typeset_put hchar hmoves]
        exact StartsAt.append (onRow_puts _ _ _).startsAt
          (by split; exacts [ih, startsAt_nextRow (startsAt_stopped row) fun _ => ih])

end Console

/-- A call has scrolled, or ends on the row or below it. -/
def Result.GoesTo (row : ℕ) (result : Result) : Prop :=
  .scroll ∈ result.events ∨ row ≤ result.cursor.row

theorem Result.GoesTo.after {result : Result} (h : result.GoesTo row) (es : List Event) :
    (result.after es).GoesTo row := h.imp (List.mem_append_right es) id

theorem Result.GoesTo.of_succ {result : Result} (h : result.GoesTo (row + 1)) :
    result.GoesTo row := h.imp id Nat.le_of_succ_le

namespace Console

variable {t : Console}

theorem goesTo_nextRow {stop : Result} {go : ℕ → Result} (hstop : stop.GoesTo (row + 1))
    (hgo : ∀ r, (go r).GoesTo r) : (t.nextRow row stop go).GoesTo (row + 1) := by
  unfold nextRow
  split
  · exact hgo (row + 1)
  · split
    · exact .inl (List.mem_append_left _ (List.mem_singleton_self _))
    · exact hstop

theorem goesTo_stopped (row : ℕ) : (t.stopped row).GoesTo (row + 1) := .inr (Nat.le_refl _)

/-- and ends there or below. -/
theorem goesTo_typeset : (t.typeset moves begins row col text).GoesTo row := by
  induction text generalizing begins row col with
  | nil => exact .inr (Nat.le_refl _)
  | cons char text ih =>
    have hnext : ∀ r begins, (t.nextRow r (t.stopped r) fun row =>
        t.typeset moves begins row t.colStart text).GoesTo r := fun r begins =>
      (goesTo_nextRow (goesTo_stopped r) fun _ => ih).of_succ
    by_cases hchar : char = newline
    · rw [hchar, typeset_newline]
      exact hnext row true
    · by_cases hmoves : t.Moves moves begins col (char :: text)
      · rw [typeset_moved hchar hmoves]
        have hset : ∀ r, (t.typeset moves true r t.colStart (char :: text)).GoesTo r := by
          intro r
          rw [typeset_put hchar not_moves_colStart]
          exact Result.GoesTo.after (by split; exacts [ih, hnext r _]) _
        exact (goesTo_nextRow (goesTo_stopped row) hset).of_succ.after _
      · rw [typeset_put hchar hmoves]
        exact Result.GoesTo.after (by split; exacts [ih, hnext row _]) _

variable (row begins moves) in
/-- It ends below where it does not end on its row. -/
theorem goesTo_succ_typeset (hcol : col < t.colEnd)
    (h : newline ∈ text ∨ t.colEnd ≤ col + text.length) :
    (t.typeset moves begins row col text).GoesTo (row + 1) := by
  obtain ⟨es, left, -, -, hset⟩ := exists_typeset_nextRow row begins moves hcol h
  rw [hset]
  exact (goesTo_nextRow (goesTo_stopped row) fun _ => goesTo_typeset).after es

/-- What is done on a row only does not go below it. -/
theorem not_goesTo_succ {es : List Event} (hes : OnRow row es) :
    ¬Result.GoesTo (row + 1) ⟨es, ⟨row, col⟩⟩ := by
  rintro (hscroll | hle)
  · exact hes.scroll_not_mem hscroll
  · exact Nat.not_succ_le_self row hle

/-! ## What it is -/

/-- A character is put in the region, and on the screen. -/
def Places (t : Console) : Event → Prop
  | .setChar row col _ => row < t.rows ∧ t.colStart ≤ col ∧ col < t.colEnd
  | .scroll => True

theorem forall_places_puts (hrow : row < t.rows) (hstart : t.colStart ≤ col)
    (hcol : col + line.length ≤ t.colEnd) : ∀ e ∈ puts row col line, t.Places e := by
  intro e he
  obtain ⟨k, hk, rfl⟩ := List.mem_mapIdx.mp he
  exact ⟨hrow, by omega, by omega⟩

theorem forall_places_nextRow {stop : Result} {go : ℕ → Result} (hrow : row < t.rows)
    (hstop : ∀ e ∈ stop.events, t.Places e)
    (hgo : ∀ r < t.rows, ∀ e ∈ (go r).events, t.Places e) :
    ∀ e ∈ (t.nextRow row stop go).events, t.Places e := by
  unfold nextRow
  split
  · next hlt => exact hgo (row + 1) hlt
  · split
    · exact List.forall_mem_cons.mpr ⟨trivial, hgo (t.rows - 1) (by omega)⟩
    · exact hstop

/-- **A text is set in its region only.** -/
theorem forall_places_typeset (hrow : row < t.rows) (hstart : t.colStart ≤ col)
    (hcol : col < t.colEnd) :
    ∀ e ∈ (t.typeset moves begins row col text).events, t.Places e := by
  induction text generalizing begins row col with
  | nil => exact fun e he => absurd he List.not_mem_nil
  | cons char text ih =>
    have hlt : t.colStart < t.colEnd := Nat.lt_of_le_of_lt hstart hcol
    have hstop : ∀ row, ∀ e ∈ (t.stopped row).events, t.Places e :=
      fun _ e he => absurd he List.not_mem_nil
    have hput : ∀ row col begins, row < t.rows → t.colStart ≤ col → col < t.colEnd →
        ¬t.Moves moves begins col (char :: text) → char ≠ newline →
          ∀ e ∈ (t.typeset moves begins row col (char :: text)).events, t.Places e := by
      intro row col begins hrow hstart hcol hstays hchar
      rw [typeset_put hchar hstays]
      refine List.forall_mem_append.mpr ⟨forall_places_puts hrow hstart hcol, ?_⟩
      split
      · next hlast => exact ih hrow (by omega) hlast
      · exact forall_places_nextRow hrow (hstop row) fun _ h => ih h (Nat.le_refl _) hlt
    by_cases hchar : char = newline
    · rw [hchar, typeset_newline]
      exact forall_places_nextRow hrow (hstop row) fun _ h => ih h (Nat.le_refl _) hlt
    · by_cases hmoves : t.Moves moves begins col (char :: text)
      · rw [typeset_moved hchar hmoves]
        refine List.forall_mem_append.mpr ⟨forall_places_puts hrow hstart ?_, ?_⟩
        · rw [List.length_replicate]
          omega
        · exact forall_places_nextRow hrow (hstop row) fun r h =>
            hput r t.colStart true h (Nat.le_refl _) hlt not_moves_colStart hchar
      · exact hput row col begins hrow hstart hcol hmoves hchar

/-- What is printed, of which spaces may be what is left of a row. -/
def printed (es : List Event) : List (BitVec 8) :=
  (es.filterMap fun e => match e with
    | .setChar _ _ char => char
    | .scroll => none).filter (· ≠ space)

theorem printed_append (es es' : List Event) : printed (es ++ es') = printed es ++ printed es' := by
  rw [printed, List.filterMap_append, List.filter_append]
  rfl

theorem printed_puts (row col : ℕ) (line : List (BitVec 8)) :
    printed (puts row col line) = line.filter (· ≠ space) := by
  induction line generalizing col with
  | nil => rfl
  | cons c line ih =>
    rw [← List.singleton_append, puts_append, printed_append, ih, List.filter_append]
    rfl

theorem printed_nextRow {stop : Result} {go : ℕ → Result} (hscroll : t.autoScroll)
    (hgo : ∀ r, printed (go r).events = text) :
    printed (t.nextRow row stop go).events = text := by
  unfold nextRow
  split
  · exact hgo (row + 1)
  · exact hgo (t.rows - 1)

/-- **Every character is printed once, and in order**, where there is always a
next row. -/
theorem printed_typeset (hscroll : t.autoScroll) :
    printed (t.typeset moves begins row col text).events
      = text.filter fun c => c ≠ newline ∧ c ≠ space := by
  induction text generalizing begins row col with
  | nil => rfl
  | cons char text ih =>
    by_cases hchar : char = newline
    · rw [hchar, typeset_newline]
      exact printed_nextRow hscroll fun _ => ih
    · have hput : ∀ row col begins, ¬t.Moves moves begins col (char :: text) →
          printed (t.typeset moves begins row col (char :: text)).events
            = (char :: text).filter fun c => c ≠ newline ∧ c ≠ space := by
        intro row col begins hstays
        have hrest : printed (if col + 1 < t.colEnd then
              t.typeset moves (isBreak char) row (col + 1) text
            else t.nextRow row (t.stopped row) fun row =>
              t.typeset moves (isBreak char) row t.colStart text).events
              = text.filter fun c => c ≠ newline ∧ c ≠ space := by
          split
          · exact ih
          · exact printed_nextRow hscroll fun _ => ih
        rw [typeset_put hchar hstays, Result.after, printed_append, printed_puts, hrest]
        by_cases hspace : char = space
        · simp [hspace]
        · simp [hspace, hchar]
      by_cases hmoves : t.Moves moves begins col (char :: text)
      · have hblank : ∀ n, (List.replicate n space).filter (fun c => c ≠ space) = [] := fun n =>
          List.filter_eq_nil_iff.mpr fun c hc => by simp [List.eq_of_mem_replicate hc]
        rw [typeset_moved hchar hmoves, Result.after, printed_append, printed_puts, hblank,
          List.nil_append]
        exact printed_nextRow hscroll fun r => hput r t.colStart true not_moves_colStart
      · exact hput row col begins hmoves

end Console

end Textmode

end Uberos
