import Uberos.Textmode.Unwrapped
/-!
# Where words are moved

The loop of `WrapMode::whitespace`, row by row. A word that it moves is kept
back, but not counted in the columns of the row that it is moved to.
-/

namespace Uberos

namespace Textmode

variable {row col fromCol lastCharCol r : ℕ} {char : BitVec 8}
variable {c lastChar fromChar line done word moved rest text : List (BitVec 8)}

/-- The last word of a line. -/
theorem exists_word (hline : newline ∉ line) :
    ∃ done word, line = done ++ word ∧ (∀ c ∈ word, isWord c) ∧
      (done = [] ∨ ∃ c, done.getLast? = some c ∧ isBreak c) := by
  induction line using List.reverseRecOn with
  | nil => exact ⟨[], [], rfl, fun _ h => absurd h List.not_mem_nil, .inl rfl⟩
  | append_singleton line c ih =>
    rw [List.mem_append, not_or, List.mem_singleton] at hline
    by_cases hc : isBreak c
    · exact ⟨line ++ [c], [], (List.append_nil _).symm, fun _ h => absurd h List.not_mem_nil,
        .inr ⟨c, List.getLast?_concat, hc⟩⟩
    · obtain ⟨done, word, rfl, hword, hdone⟩ := ih hline.1
      refine ⟨done, word ++ [c], List.append_assoc .., fun x hx => ?_, hdone⟩
      rcases List.mem_append.mp hx with hx | hx
      · exact hword x hx
      · exact isWord_iff.mpr ⟨by rw [List.mem_singleton.mp hx]; exact Ne.symm hline.2,
          by rw [List.mem_singleton.mp hx]; exact hc⟩

/-- What begins in a row does not begin off it. -/
theorem not_startsOff {es es' : List Event} (hes : OnRow row es) (hne : es ≠ []) :
    ¬StartsOff row (es ++ es') := by
  cases es with
  | nil => exact absurd rfl hne
  | cons e es => exact fun h => h e rfl (hes e (List.mem_cons_self ..))

namespace Console

variable {t : Console}

theorem startsAt_whitespaceLoop :
    StartsAt row (t.whitespaceLoop lastChar lastCharCol fromChar fromCol row col c).events := by
  induction c generalizing lastChar lastCharCol fromChar fromCol row col with
  | nil => exact startsAt_finish
  | cons char c ih =>
    have hnext : ∀ {stop : Result} {lastChar fromChar : List (BitVec 8)},
        StartsAt (row + 1) stop.events → StartsAt row (t.nextRow row stop fun row =>
          t.whitespaceLoop lastChar t.colStart fromChar t.colStart row t.colStart c).events :=
      fun hstop => startsAt_nextRow hstop fun _ => ih
    rw [whitespaceLoop]
    split
    · split
      · exact (onRow_setChars _ _ _ _).startsAt.append (hnext startsAt_finish)
      · split
        · split
          · exact (onRow_setChars _ _ _ _).startsAt.append (hnext startsAt_finish)
          · exact ih
        · split
          · split
            · exact (onRow_setChars _ _ _ _).startsAt.append (hnext startsAt_finish)
            · exact ((onRow_setChars _ _ _ _).append (onRow_setChars _ _ _ _)).startsAt.append
                (hnext startsAt_finish)
          · exact ih
    · exact startsAt_finish

/-! ## Within a row -/

/-- A word is counted. -/
theorem whitespaceLoop_word (hcolEnd : t.colEnd < 2 ^ 32) (hword : ∀ c ∈ word, isWord c)
    (hfits : col + word.length < t.colEnd) :
    t.whitespaceLoop lastChar lastCharCol fromChar fromCol row col (word ++ c)
      = t.whitespaceLoop lastChar lastCharCol fromChar fromCol row (col + word.length) c := by
  induction word generalizing col with
  | nil => rfl
  | cons first word ih =>
    rw [List.forall_mem_cons] at hword
    rw [List.length_cons] at hfits
    obtain ⟨hnewline, hbreak⟩ := isWord_iff.mp hword.1
    rw [List.cons_append, whitespaceLoop, if_pos (by omega), if_neg hnewline, if_neg hbreak,
      u32_succ (by omega), if_neg (by omega), ih hword.2 (by omega), List.length_cons]
    congr 1
    omega

/-- After a break it is where the last word begins. -/
theorem whitespaceLoop_break (hcolEnd : t.colEnd < 2 ^ 32) (hline : newline ∉ line)
    (hchar : isBreak char) (hfits : col + line.length + 1 < t.colEnd) :
    t.whitespaceLoop lastChar lastCharCol fromChar fromCol row col (line ++ char :: c)
      = t.whitespaceLoop c (col + line.length + 1) fromChar fromCol row
          (col + line.length + 1) c := by
  induction line generalizing col lastChar lastCharCol with
  | nil =>
    have hnewline : char ≠ newline := by
      rintro rfl
      exact absurd hchar (by decide)
    rw [List.nil_append, whitespaceLoop, if_pos (by omega), if_neg hnewline, if_pos hchar,
      u32_succ (by omega), if_neg (by omega)]
    rfl
  | cons first line ih =>
    rw [List.mem_cons, not_or] at hline
    rw [List.length_cons] at hfits ⊢
    have hcol : col + (line.length + 1) + 1 = col + 1 + line.length + 1 := by omega
    have hlast : ¬col + 1 ≥ t.colEnd := by omega
    have hrest : col + 1 + line.length + 1 < t.colEnd := by omega
    rw [List.cons_append, whitespaceLoop, if_pos (by omega), if_neg (Ne.symm hline.1),
      u32_succ (by omega), if_neg hlast, if_neg hlast, ih hline.2 hrest, ih hline.2 hrest, ite_self,
      hcol]

variable (row fromCol lastCharCol c lastChar fromChar) in
/-- A line is counted, whatever it has for breaks. -/
theorem exists_whitespaceLoop_line (hcolEnd : t.colEnd < 2 ^ 32) (hline : newline ∉ line)
    (hfits : col + line.length < t.colEnd) :
    ∃ lastChar' lastCharCol',
      t.whitespaceLoop lastChar lastCharCol fromChar fromCol row col (line ++ c)
        = t.whitespaceLoop lastChar' lastCharCol' fromChar fromCol row (col + line.length) c := by
  induction line generalizing col lastChar lastCharCol with
  | nil => exact ⟨lastChar, lastCharCol, rfl⟩
  | cons first line ih =>
    rw [List.mem_cons, not_or] at hline
    rw [List.length_cons] at hfits ⊢
    have hcol : col + (line.length + 1) = col + 1 + line.length := by omega
    have hlast : ¬col + 1 ≥ t.colEnd := by omega
    rw [List.cons_append, whitespaceLoop, if_pos (by omega), if_neg (Ne.symm hline.1),
      u32_succ (by omega), if_neg hlast, if_neg hlast, hcol]
    split
    · exact ih _ _ hline.2 (by omega)
    · exact ih _ _ hline.2 (by omega)

/-! ## Row by row -/

variable (t) in
/-- The loop at the start of a row that something is moved to. -/
def rowLoop (lastChar : List (BitVec 8)) (row col : ℕ) (moved text : List (BitVec 8)) : Result :=
  t.whitespaceLoop lastChar col (moved ++ text) col row col text

variable (t) in
/-- Where the last word of a row begins, if it is the row's first. -/
def FirstWord (lastChar : List (BitVec 8)) (col : ℕ) (moved text : List (BitVec 8)) : Prop :=
  col ≠ t.colStart → lastChar = text ∧ moved = []

theorem firstWord_colStart : t.FirstWord lastChar t.colStart moved text :=
  fun h => absurd rfl h

theorem startsAt_rowLoop : StartsAt row (t.rowLoop lastChar row col moved text).events :=
  startsAt_whitespaceLoop

theorem rowLoop_line (hcolEnd : t.colEnd < 2 ^ 32) (hline : newline ∉ line)
    (hfits : col + line.length < t.colEnd) :
    t.rowLoop lastChar row col moved line
      = finish (moved ++ line) col row (col + line.length) [] := by
  obtain ⟨lastChar', lastCharCol', hloop⟩ := exists_whitespaceLoop_line row col col []
    lastChar (moved ++ line) hcolEnd hline hfits
  rw [List.append_nil] at hloop
  rw [rowLoop, hloop, whitespaceLoop]

variable (row lastChar moved text) in
/-- At a newline all that is kept back is written. -/
theorem exists_rowLoop_newline (hcolEnd : t.colEnd < 2 ^ 32) (hline : newline ∉ line)
    (hfits : col + line.length < t.colEnd) :
    ∃ lastChar', t.rowLoop lastChar row col moved (line ++ newline :: text)
      = (t.nextRow row (finish text t.colStart (row + 1) t.colStart (newline :: text)) fun row =>
          t.rowLoop lastChar' row t.colStart [] text).after
        (setChars row col (u32 (past (newline :: text) (moved ++ line ++ newline :: text)))
          (moved ++ line ++ newline :: text)) := by
  obtain ⟨lastChar', lastCharCol', hloop⟩ := exists_whitespaceLoop_line row col col
    (newline :: text) lastChar (moved ++ (line ++ newline :: text)) hcolEnd hline hfits
  refine ⟨lastChar'.tail, ?_⟩
  rw [rowLoop, hloop, whitespaceLoop, if_pos hfits, if_pos rfl, List.append_assoc]
  rfl

variable (row lastChar moved text) in
/-- At a break, or in a word that is from the row's start, the character of
the last column is kept back for the next row. -/
theorem exists_rowLoop_full (hcolEnd : t.colEnd < 2 ^ 32) (hline : newline ∉ line)
    (hchar : char ≠ newline) (hfull : col + line.length + 1 = t.colEnd)
    (hbreak : isBreak char ∨ (∀ c ∈ line, isWord c) ∧ col = t.colStart) :
    ∃ lastChar', t.rowLoop lastChar row col moved (line ++ char :: text)
      = (t.nextRow row ⟨[], ⟨row + 1, t.colStart⟩⟩ fun row =>
          t.rowLoop lastChar' row t.colStart [char] text).after
        (setChars row col (u32 (past (char :: text) (moved ++ line ++ char :: text)))
          (moved ++ line ++ char :: text)) := by
  by_cases hchar' : isBreak char
  · obtain ⟨lastChar', lastCharCol', hloop⟩ := exists_whitespaceLoop_line row col col
      (char :: text) lastChar (moved ++ (line ++ char :: text)) hcolEnd hline
      (show col + line.length < t.colEnd by omega)
    refine ⟨if char = space then text else char :: text, ?_⟩
    rw [rowLoop, hloop, whitespaceLoop, if_pos (by omega), if_neg hchar, if_pos hchar',
      u32_succ (by omega), if_pos (by omega), finish_self, List.append_assoc]
    rfl
  · obtain ⟨hword, hcol⟩ := hbreak.resolve_left hchar'
    refine ⟨lastChar, ?_⟩
    rw [rowLoop, whitespaceLoop_word hcolEnd hword (by omega), whitespaceLoop, if_pos (by omega),
      if_neg hchar, if_neg hchar', u32_succ (by omega), if_pos (by omega), if_pos hcol,
      finish_self, List.append_assoc]
    rfl

/-- **A word is moved**, and the rest of its row written over with spaces. -/
theorem rowLoop_moved (hcolEnd : t.colEnd < 2 ^ 32) (hcol : t.colStart ≤ col)
    (hfirst : t.FirstWord lastChar col moved (done ++ word ++ char :: text))
    (hdone : newline ∉ done)
    (hbegins : (done = [] ∧ col ≠ t.colStart) ∨ ∃ c, done.getLast? = some c ∧ isBreak c)
    (hword : ∀ c ∈ word, isWord c) (hchar : isWord char)
    (hfull : col + done.length + word.length + 1 = t.colEnd) :
    t.rowLoop lastChar row col moved (done ++ word ++ char :: text)
      = (t.nextRow row (finish (word ++ char :: text) t.colStart (row + 1) t.colStart
          (char :: text)) fun row =>
          t.rowLoop (word ++ char :: text) row t.colStart (word ++ [char]) text).after
        (setChars row col
            (u32 (past (word ++ char :: text) (moved ++ done ++ (word ++ char :: text))))
            (moved ++ done ++ (word ++ char :: text)) ++
          puts row (col + done.length) (List.replicate (word.length + 1) space)) := by
  obtain ⟨hnewline, hnot⟩ := isWord_iff.mp hchar
  -- where the word begins, and that it is not the row's start
  have hloop : t.rowLoop lastChar row col moved (done ++ word ++ char :: text)
      = t.whitespaceLoop (word ++ char :: text) (col + done.length)
          (moved ++ (done ++ word ++ char :: text)) col row (col + done.length)
          (word ++ char :: text) := by
    rcases hbegins with ⟨rfl, hne⟩ | ⟨c, hc, hbreak⟩
    · rw [rowLoop, (hfirst hne).1]
      rfl
    · obtain ⟨init, rfl⟩ := List.getLast?_eq_some_iff.mp hc
      rw [List.mem_append, not_or] at hdone
      rw [List.length_append, List.length_singleton] at hfull ⊢
      rw [rowLoop, List.append_assoc, List.append_assoc, List.singleton_append,
        whitespaceLoop_break hcolEnd hdone.1 hbreak (by omega)]
      rfl
  have hne : col + done.length ≠ t.colStart := by
    rcases hbegins with ⟨rfl, hne⟩ | ⟨c, hc, -⟩
    · exact hne
    · have hpos := List.length_pos_of_mem (List.mem_of_getLast? hc)
      omega
  have hspaces : u32 ((u32 ((col + done.length + word.length : ℕ) + 1) : ℕ)
      - (col + done.length : ℕ)) = word.length + 1 := by
    rw [u32_succ (by omega)]
    exact u32_of_eq (by omega) (by omega)
  have hlen : (List.replicate (word.length + 1) space).length = word.length + 1 :=
    List.length_replicate
  have hputs : setChars row (col + done.length) (List.replicate (word.length + 1) space).length
      (List.replicate (word.length + 1) space ++ [])
        = puts row (col + done.length) (List.replicate (word.length + 1) space) :=
    setChars_eq_puts (by omega)
  rw [List.append_nil, hlen] at hputs
  rw [hloop, whitespaceLoop_word hcolEnd hword (by omega), whitespaceLoop, if_pos (by omega),
    if_neg hnewline, if_neg hnot, if_pos (by rw [u32_succ (by omega)]; omega), if_neg hne]
  dsimp only
  rw [hspaces, hputs, List.append_assoc, List.append_assoc]
  unfold rowLoop
  simp only [List.append_assoc, List.singleton_append]

end Console

end Textmode

end Uberos
