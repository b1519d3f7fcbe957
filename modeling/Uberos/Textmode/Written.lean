import Uberos.Textmode.Words
/-!
# Texts that are written

`write_text` with each of its modes, against the setting of its text. A word
that has been moved is to be followed by a newline on its row: else the columns
that were not counted for it come to bear.
-/

namespace Uberos

namespace Textmode

namespace Console

variable {t : Console} {row col : ℕ} {char : BitVec 8}
variable {lastChar line moved rest text : List (BitVec 8)} {mode : WrapMode} {cursor : Cursor}

/-! ## What is kept is written -/

variable (text) in
/-- A text begins with what is of it up to a character. -/
theorem exists_cons_of_append (word : List (BitVec 8)) (hword : ∀ c ∈ word, isWord c)
    (hchar : isWord char) :
    ∃ first more, word ++ char :: text = first :: more ∧ isWord first := by
  cases word with
  | nil => exact ⟨char, text, rfl, hchar⟩
  | cons first word => exact ⟨first, word ++ char :: text, rfl, hword first (List.mem_cons_self ..)⟩

/-- A line up to a word that is moved is set, and then that on the next row. -/
theorem typeset_append_moved {c : BitVec 8} {word : List (BitVec 8)} (hcol : t.colStart ≤ col)
    (hline : newline ∉ line)
    (hbegins : (line = [] ∧ col ≠ t.colStart) ∨ ∃ c, line.getLast? = some c ∧ isBreak c)
    (hword : ∀ c ∈ word, isWord c) (hchar : isWord char) (hc : isWord c)
    (hfull : col + line.length + word.length + 1 = t.colEnd) :
    t.typeset true true row col (line ++ word ++ char :: c :: text)
      = (t.nextRow row (t.stopped row) fun row =>
          t.typeset true true row t.colStart (word ++ char :: c :: text)).after
        (puts row col line ++
          puts row (col + line.length) (List.replicate (word.length + 1) space)) := by
  have hlast : line = [] ∨ ∃ c, line.getLast? = some c ∧ isBreak c := hbegins.imp And.left id
  have hmoves : t.Moves true (beginsAfter true line) (col + line.length)
      (word ++ char :: c :: text) := by
    refine ⟨rfl, ?_, ?_, ?_⟩
    · rcases hbegins with ⟨rfl, -⟩ | ⟨b, hb, hbreak⟩
      · rfl
      · rw [beginsAfter_of_getLast? hb]
        exact hbreak
    · rcases hbegins with ⟨rfl, hne⟩ | ⟨b, hb, -⟩
      · exact hne
      · have hpos := List.length_pos_of_mem (List.mem_of_getLast? hb)
        omega
    · rw [wordLength_append_of_isWord hword, wordLength_cons_of_isWord hchar,
        wordLength_cons_of_isWord hc]
      omega
  have hleft : t.colEnd - (col + line.length) = word.length + 1 := by omega
  obtain ⟨first, more, hcons, hfirst⟩ := exists_cons_of_append (c :: text) word hword hchar
  rw [hcons] at hmoves
  rw [List.append_assoc, hcons, typeset_append hline (stays_of_break hlast (by omega)) (by omega),
    typeset_moved (isWord_iff.mp hfirst).1 hmoves, hleft, Result.after_append]

variable (row text) in
/-- A row that is filled before a break, or by a word that is from its start,
is left as it is. -/
theorem typeset_first_append {first : BitVec 8} (hline : newline ∉ first :: line)
    (hfull : t.colStart + line.length + 1 = t.colEnd)
    (hbreak : isBreak char ∨ (∀ c ∈ line, ¬isBreak c) ∧ (isBreak first → line = [])) :
    t.typeset true true row t.colStart (first :: line ++ char :: text)
      = (t.nextRow row (t.stopped row) fun row =>
          t.typeset true true row t.colStart (char :: text)).after
        (puts row t.colStart (first :: line)) := by
  have hlen : (first :: line).length = line.length + 1 := rfl
  refine typeset_full (List.cons_ne_nil _ _) hline ?_ (by omega)
  rcases hbreak with hchar | ⟨hwords, hfirst⟩
  · have hnot : ¬isWord char := fun h => (isWord_iff.mp h).2 hchar
    exact stays_of_ends (wordLength_cons_of_not_isWord hnot) (by omega)
  · by_cases hb : isBreak first
    · rw [hfirst hb]
      exact ⟨not_moves_colStart, trivial⟩
    · refine stays_of_isWord (fun c hc => isWord_iff.mpr ⟨fun h => hline (h ▸ hc), ?_⟩) (.inr rfl)
      rcases List.mem_cons.mp hc with rfl | hc
      · exact hb
      · exact hwords c hc

/-- **What is kept is written** as it is to be. -/
theorem rowLoop_eq_typeset_of_keptWords (hcolEnd : t.colEnd < 2 ^ 32)
    (hkept : t.KeptWords row col moved text) (hrow : row < t.rows) (hstart : t.colStart ≤ col)
    (hmoved : newline ∉ moved) (hfirst : t.FirstWord lastChar col moved text) :
    t.rowLoop lastChar row col moved text = t.typeset true true row col (moved ++ text) := by
  induction hkept generalizing lastChar with
  | @ends row col line hline hfits =>
    rw [rowLoop_line hcolEnd hline hfits, List.nil_append, finish,
      setChars_past_nil row (Nat.lt_trans hfits hcolEnd), typeset_line hline hfits]
  | @newline row col moved line text hline hfits hmore _ ih =>
    have hmem : newline ∉ moved ++ line := by
      rw [List.mem_append]
      exact not_or.mpr ⟨hmoved, hline⟩
    have hlen : col + (moved ++ line).length < t.colEnd := by
      rw [List.length_append]
      omega
    obtain ⟨lastChar', hloop⟩ := exists_rowLoop_newline row lastChar moved text hcolEnd hline
      (show col + line.length < t.colEnd by omega)
    rw [hloop, setChars_past (Nat.lt_trans hlen hcolEnd), ← List.append_assoc,
      typeset_line_newline hmem hlen]
    congr 1
    exact nextRow_congr (fun _ => ih (next_lt hrow) (Nat.le_refl _) List.not_mem_nil
      firstWord_colStart) fun hnot => absurd hmore hnot
  | @moves row col line word char c text hline hbegins hword hchar hc hfull _ hlast ih =>
    have hlen : col + line.length < t.colEnd := by omega
    rw [rowLoop_moved hcolEnd hstart hfirst hline hbegins hword hchar hfull, List.nil_append,
      setChars_past (Nat.lt_trans hlen hcolEnd), List.nil_append,
      typeset_append_moved hstart hline hbegins hword hchar hc hfull]
    congr 1
    refine nextRow_congr (fun hmore => ?_) fun hnot => ?_
    · have hmem : newline ∉ word ++ [char] := by
        rw [List.mem_append, List.mem_singleton]
        exact not_or.mpr ⟨fun hmem => (isWord_iff.mp (hword _ hmem)).1 rfl,
          Ne.symm (isWord_iff.mp hchar).1⟩
      refine (ih hmore (next_lt hrow) (Nat.le_refl _) hmem firstWord_colStart).trans ?_
      rw [List.append_assoc, List.singleton_append]
    · rw [hlast hnot]
      exact finish_self
  | @full row first line char text hline hchar hfull hbreak _ ih =>
    have hmem : newline ∉ first :: line :=
      List.not_mem_cons_of_ne_of_not_mem (List.ne_of_not_mem_cons hmoved) hline
    have hlen : t.colStart + (first :: line).length < 2 ^ 32 := by
      rw [List.length_cons]
      omega
    have hor : isBreak char ∨ (∀ c ∈ line, isWord c) ∧ t.colStart = t.colStart :=
      hbreak.imp id fun h =>
        ⟨fun c hc => isWord_iff.mpr ⟨fun h' => hline (h' ▸ hc), h.1 c hc⟩, rfl⟩
    obtain ⟨lastChar', hloop⟩ :=
      exists_rowLoop_full row lastChar [first] text hcolEnd hline hchar hfull hor
    rw [hloop, List.singleton_append, setChars_past hlen]
    refine Eq.trans ?_ (typeset_first_append row text hmem hfull hbreak).symm
    congr 1
    exact nextRow_congr (fun hmore => ih hmore (next_lt hrow) (Nat.le_refl _)
      (fun h => hchar (List.mem_singleton.mp h).symm) firstWord_colStart) fun _ => rfl

/-! ## What is not kept is not written -/

/-- What is done for a row that is filled is as long as that. -/
theorem length_of_eq_typeset {stop : Result} {go : ℕ → Result} {es : List Event}
    {moves begins : Bool}
    (hes : OnRow row es) (hstop : StartsAt (row + 1) stop.events)
    (hgo : ∀ r, StartsAt r (go r).events) (hcol : col < t.colEnd) (hline : newline ∉ line)
    (hlong : t.colEnd ≤ col + line.length)
    (h : (t.nextRow row stop go).after es = t.typeset moves begins row col (line ++ rest)) :
    col + es.length = t.colEnd := by
  have hlen : col + (line.take (t.colEnd - col)).length = t.colEnd := by
    rw [List.length_take_of_le (by omega)]
    omega
  obtain ⟨fs, left, hfs, hfull, -, hset⟩ := exists_typeset_full row
    (line.drop (t.colEnd - col) ++ rest) begins moves
    (fun hmem => hline (List.mem_of_mem_take hmem)) hlen hcol
  rw [← List.append_assoc, List.take_append_drop] at hset
  rw [hset] at h
  rw [(of_after_nextRow_eq hes hfs hstop hgo (startsAt_stopped row)
    (fun _ => startsAt_typeset) h).1,
    hfull]
  exact hlen

variable (row lastChar text) in
/-- A text that does not begin with a newline is begun on its row. -/
theorem exists_events_rowLoop (hcolEnd : t.colEnd < 2 ^ 32) (hroom : t.colStart + 1 < t.colEnd)
    (hchar : char ≠ newline) :
    ∃ es es', (t.rowLoop lastChar row t.colStart [] (char :: text)).events = es ++ es' ∧
      OnRow row es ∧ es ≠ [] := by
  have hpos : 0 < t.colEnd - t.colStart := by omega
  rcases exists_line hpos (char :: text) with
    ⟨hline, hlen⟩ | ⟨line, rest, heq, hline, hlen⟩ | ⟨line, last, rest, heq, hline, hlast, hlen⟩
  · rw [rowLoop_line hcolEnd hline (by omega), finish]
    refine ⟨_, [], (List.append_nil _).symm, onRow_setChars _ _ _ _, ?_⟩
    refine List.ne_nil_of_length_pos ?_
    rw [length_setChars, List.nil_append, past, List.length_nil, List.length_cons,
      u32_of_eq (n := text.length + 1) (by omega) (by rw [List.length_cons] at hlen; omega)]
    exact Nat.succ_pos _
  · obtain ⟨lastChar', hloop⟩ := exists_rowLoop_newline row lastChar [] rest hcolEnd hline
      (show t.colStart + line.length < t.colEnd by omega)
    rw [heq, hloop]
    refine ⟨_, _, rfl, onRow_setChars _ _ _ _, List.ne_nil_of_length_pos ?_⟩
    rw [length_setChars, past_append, u32_natCast (by rw [List.nil_append]; omega)]
    refine List.length_pos_iff.mpr fun hnil => hchar ?_
    rw [List.nil_append] at hnil
    rw [hnil] at heq
    exact (List.cons.inj heq).1
  · obtain ⟨done, word, rfl, hword, hdone⟩ := exists_word hline
    rw [List.length_append] at hlen
    by_cases hbegins : isWord last ∧ ∃ c, done.getLast? = some c ∧ isBreak c
    · obtain ⟨hlast', hb⟩ := hbegins
      rw [List.mem_append, not_or] at hline
      rw [heq, rowLoop_moved hcolEnd (Nat.le_refl _) firstWord_colStart hline.1 (.inr hb) hword
        hlast' (by omega)]
      refine ⟨_, _, rfl, (onRow_setChars _ _ _ _).append (onRow_puts _ _ _),
        List.ne_nil_of_length_pos ?_⟩
      rw [List.length_append, length_puts, List.length_replicate]
      omega
    · have hbreak : isBreak last ∨ (∀ c ∈ done ++ word, isWord c) ∧ t.colStart = t.colStart := by
        by_cases hb : isBreak last
        · exact .inl hb
        · have hnil : done = [] := hdone.resolve_right fun h =>
            hbegins ⟨isWord_iff.mpr ⟨hlast, hb⟩, h⟩
          rw [hnil]
          exact .inr ⟨hword, rfl⟩
      obtain ⟨lastChar', hloop⟩ := exists_rowLoop_full row lastChar [] rest hcolEnd hline hlast
        (by rw [List.length_append]; omega) hbreak
      rw [heq, hloop]
      refine ⟨_, _, rfl, onRow_setChars _ _ _ _, List.ne_nil_of_length_pos ?_⟩
      rw [length_setChars, past_append, List.nil_append, List.length_append, u32_natCast (by omega)]
      omega

/-- **A loop that is a row behind** stays there. -/
theorem rowLoop_ne_nextRow_typeset (hcolEnd : t.colEnd < 2 ^ 32)
    (hroom : t.colStart + 1 < t.colEnd) :
    t.rowLoop lastChar row t.colStart [] text ≠ t.nextRow row (t.stopped row) fun row =>
      t.typeset true true row t.colStart text := by
  induction text generalizing lastChar row with
  | nil =>
    intro h
    have hloop : t.rowLoop lastChar row t.colStart [] []
        = finish ([] ++ []) t.colStart row (t.colStart + ([] : List (BitVec 8)).length) [] :=
      rowLoop_line hcolEnd List.not_mem_nil (by rw [List.length_nil]; omega)
    rw [List.nil_append, finish_self, List.length_nil, Nat.add_zero] at hloop
    have hgoes : (t.nextRow row (t.stopped row) fun row =>
        t.typeset true true row t.colStart []).GoesTo (row + 1) :=
      goesTo_nextRow (goesTo_stopped row) fun _ => goesTo_typeset
    rw [← h, hloop] at hgoes
    exact not_goesTo_succ (onRow_nil row) hgoes
  | cons char text ih =>
    intro h
    by_cases hchar : char = newline
    · subst hchar
      obtain ⟨lastChar', hloop⟩ := exists_rowLoop_newline row lastChar [] text hcolEnd
        List.not_mem_nil (show t.colStart + ([] : List (BitVec 8)).length < t.colEnd by
          rw [List.length_nil]; omega)
      have hpast : u32 (past (newline :: text) (newline :: text)) = 0 := by
        rw [past, Int.sub_self]
        rfl
      have hflush : setChars row t.colStart 0 (newline :: text) = [] := rfl
      simp only [List.nil_append] at hloop
      rw [hpast, hflush, Result.after_nil] at hloop
      rw [hloop] at h
      obtain ⟨hgo, hstop⟩ := of_nextRow_eq h
      by_cases hmore : t.More row
      · have hnext := hgo hmore
        rw [typeset_newline] at hnext
        exact ih hnext
      · exact finish_ne_stopped (hstop hmore)
    · obtain ⟨es, es', hevents, hes, hne⟩ :=
        exists_events_rowLoop row lastChar text hcolEnd hroom hchar
      have hoff : StartsOff row (t.nextRow row (t.stopped row) fun row =>
          t.typeset true true row t.colStart (char :: text)).events :=
        startsOff_nextRow (startsAt_stopped row) fun _ => startsAt_typeset
      rw [← h, hevents] at hoff
      exact not_startsOff hes hne hoff

/-- A word that fits exactly is not moved, -/
theorem not_moved_of_fits {word : List (BitVec 8)} {stop : Result} {go : ℕ → Result}
    (hline : newline ∉ line) (hlast : line = [] ∨ ∃ c, line.getLast? = some c ∧ isBreak c)
    (hword : ∀ c ∈ word, isWord c) (hchar : isWord char) (hrest : wordLength rest = 0)
    (hfull : col + line.length + word.length + 1 = t.colEnd) :
    (t.nextRow row stop go).after (puts row col line ++
        puts row (col + line.length) (List.replicate (word.length + 1) space))
      ≠ t.typeset true true row col (line ++ word ++ char :: rest) := by
  intro h
  obtain ⟨first, more, hcons, hfirst⟩ := exists_cons_of_append rest word hword hchar
  have hstays : ¬t.Moves true (beginsAfter true line) (col + line.length) (first :: more) := by
    intro hmoves
    have hlt := hmoves.2.2.2
    rw [← hcons, wordLength_append_of_isWord hword, wordLength_cons_of_isWord hchar, hrest] at hlt
    omega
  rw [List.append_assoc, hcons, typeset_append hline (stays_of_break hlast (by omega)) (by omega),
    typeset_put (isWord_iff.mp hfirst).1 hstays] at h
  -- the first of the word is a space in the one, and is itself in the other
  have hevents := (Result.mk.inj h).1
  rw [List.append_assoc, List.replicate_succ, puts_cons] at hevents
  have hhead := (List.cons.inj (List.append_cancel_left hevents)).1
  have heq := Option.some.inj (Event.setChar.inj hhead).2.2
  exact absurd hfirst (by rw [← heq]; decide)

/-- and one that is after a break at the row's start is. -/
theorem not_left_of_moved {first : BitVec 8} {stop : Result} {go : ℕ → Result}
    (hword : ∀ c ∈ line, isWord c) (hchar : isWord char) (hfirst : isBreak first)
    (hne : line ≠ []) (hfull : t.colStart + line.length + 1 = t.colEnd) :
    (t.nextRow row stop go).after (puts row t.colStart (first :: line))
      ≠ t.typeset true true row t.colStart (first :: line ++ char :: rest) := by
  intro h
  obtain ⟨w, line, rfl⟩ := List.exists_cons_of_ne_nil hne
  have hfirst' : first ≠ newline := by
    rintro rfl
    exact absurd hfirst (by decide)
  have hw := hword w (List.mem_cons_self ..)
  rw [List.length_cons] at hfull
  have hmoves : t.Moves true (isBreak first) (t.colStart + 1) (w :: (line ++ char :: rest)) := by
    refine ⟨rfl, hfirst, by omega, ?_⟩
    rw [← List.cons_append, wordLength_append_of_isWord hword, wordLength_cons_of_isWord hchar,
      List.length_cons]
    omega
  have hleft : t.colEnd - (t.colStart + 1) = line.length + 1 := by omega
  rw [List.cons_append, List.cons_append, typeset_put hfirst' not_moves_colStart,
    if_pos (by omega), typeset_moved (isWord_iff.mp hw).1 hmoves, hleft, puts_cons, puts_cons,
    puts_cons, puts_nil, List.replicate_succ, puts_cons] at h
  -- the first of the word is itself in the one, and a space in the other
  have hhead := (List.cons.inj (List.cons.inj (Result.mk.inj h).1).2).1
  have heq := Option.some.inj (Event.setChar.inj hhead).2.2
  exact absurd hw (by rw [heq]; decide)

/-- **What is written is kept.** -/
theorem keptWords_of_rowLoop_eq_typeset (hcolEnd : t.colEnd < 2 ^ 32) (hrow : row < t.rows)
    (hstart : t.colStart ≤ col) (hcol : col < t.colEnd) (hmoved : newline ∉ moved)
    (hmovedCol : moved ≠ [] → col = t.colStart) (hmovedLen : t.colStart + moved.length < t.colEnd)
    (hfirst : t.FirstWord lastChar col moved text)
    (h : t.rowLoop lastChar row col moved text = t.typeset true true row col (moved ++ text)) :
    t.KeptWords row col moved text := by
  induction hn : text.length using Nat.strong_induction_on generalizing
    lastChar row col moved text with
  | _ n ih =>
    subst hn
    have hroom : 0 < t.colEnd - col := by omega
    rcases exists_line hroom text with
      ⟨hline, hlen⟩ | ⟨line, rest, rfl, hline, hlen⟩ | ⟨line, char, rest, rfl, hline, hchar, hlen⟩
    · -- the text ends in the row: at the cell after it if nothing has been moved to it
      have hmem : newline ∉ moved ++ text := by
        rw [List.mem_append]
        exact not_or.mpr ⟨hmoved, hline⟩
      rw [rowLoop_line hcolEnd hline (by omega)] at h
      by_cases hfits : col + (moved ++ text).length < t.colEnd
      · rw [typeset_line hmem hfits] at h
        have hend := (Cursor.mk.inj (Result.mk.inj h).2).2
        rw [List.length_append] at hend
        have hnil : moved = [] := List.eq_nil_of_length_eq_zero (by omega)
        rw [hnil]
        exact .ends hline (by omega)
      · have hgoes := goesTo_succ_typeset row true true hcol
          (.inr (Nat.not_lt.mp hfits))
        rw [← h, finish] at hgoes
        exact absurd hgoes (not_goesTo_succ (onRow_setChars _ _ _ _))
    · have hmem : newline ∉ moved ++ line := by
        rw [List.mem_append]
        exact not_or.mpr ⟨hmoved, hline⟩
      obtain ⟨lastChar', hloop⟩ := exists_rowLoop_newline row lastChar moved rest hcolEnd hline
        (show col + line.length < t.colEnd by omega)
      rw [hloop, ← List.append_assoc] at h
      by_cases hfits : col + (moved ++ line).length < t.colEnd
      · rw [typeset_line_newline hmem hfits] at h
        obtain ⟨hgo, hstop⟩ := of_nextRow_eq (of_after_nextRow_eq (onRow_setChars _ _ _ _)
          (onRow_puts _ _ _) startsAt_finish (fun _ => startsAt_rowLoop) (startsAt_stopped row)
          (fun _ => startsAt_typeset) h).2
        rw [List.length_append] at hfits
        by_cases hmore : t.More row
        · refine .newline hline (by omega) hmore (ih rest.length ?_ (next_lt hrow)
            (Nat.le_refl _) (by omega) List.not_mem_nil (fun hne => absurd rfl hne)
            (by rw [List.length_nil]; omega) firstWord_colStart (hgo hmore) rfl)
          rw [List.length_append, List.length_cons]
          omega
        · exact absurd (hstop hmore) finish_ne_stopped
      · -- the row is full, but is left at the newline only
        exfalso
        have hcount := length_of_eq_typeset (onRow_setChars _ _ _ _) startsAt_finish
          (fun _ => startsAt_rowLoop) hcol hmem (Nat.not_lt.mp hfits) h
        rw [length_setChars, past_append] at hcount
        rw [List.length_append] at hfits hcount
        have hfull : col + (moved ++ line).length = t.colEnd := by
          rw [List.length_append]
          unfold u32 at hcount
          omega
        have hne : moved ++ line ≠ [] := by
          intro hnil
          rw [hnil, List.length_nil] at hfull
          omega
        have hmovedNe : moved ≠ [] := by
          rintro rfl
          rw [List.length_nil] at hfits
          omega
        have hstays : t.Stays true (newline :: rest) true col (moved ++ line) :=
          stays_of_ends (wordLength_cons_of_not_isWord (by decide)) (Nat.le_of_eq hfull)
        rw [typeset_full hne hmem hstays hfull] at h
        obtain ⟨hgo, hstop⟩ := of_nextRow_eq (of_after_nextRow_eq (onRow_setChars _ _ _ _)
          (onRow_puts _ _ _) startsAt_finish (fun _ => startsAt_rowLoop) (startsAt_stopped row)
          (fun _ => startsAt_typeset) h).2
        by_cases hmore : t.More row
        · have hpos := List.length_pos_iff.mpr hmovedNe
          have hnext := hgo hmore
          rw [typeset_newline] at hnext
          exact rowLoop_ne_nextRow_typeset hcolEnd (by omega) hnext
        · exact finish_ne_stopped (hstop hmore)
    · obtain ⟨done, word, rfl, hword, hdone⟩ := exists_word hline
      rw [List.length_append] at hlen
      rw [List.mem_append, not_or] at hline
      have hmem : newline ∉ moved ++ (done ++ word) ++ [char] := by
        simp only [List.mem_append, List.mem_singleton, not_or]
        exact ⟨⟨hmoved, hline⟩, Ne.symm hchar⟩
      have hlong : t.colEnd ≤ col + (moved ++ (done ++ word) ++ [char]).length := by
        simp only [List.length_append, List.length_singleton]
        omega
      have htext : moved ++ (done ++ word ++ char :: rest)
          = moved ++ (done ++ word) ++ [char] ++ rest := by
        simp only [List.append_assoc, List.singleton_append]
      by_cases hbegins : isWord char ∧
          ((done = [] ∧ col ≠ t.colStart) ∨ ∃ c, done.getLast? = some c ∧ isBreak c)
      · obtain ⟨hchar', hbegins⟩ := hbegins
        have hfull : col + done.length + word.length + 1 = t.colEnd := by omega
        rw [rowLoop_moved hcolEnd hstart hfirst hline.1 hbegins hword hchar' hfull] at h
        by_cases hnil : moved = []
        · subst hnil
          have hput : col + done.length < 2 ^ 32 := by omega
          have hafter : t.colStart < col + done.length := by
            rcases hbegins with ⟨rfl, hne⟩ | ⟨c, hc, -⟩
            · rw [List.length_nil]
              omega
            · have hpos := List.length_pos_of_mem (List.mem_of_getLast? hc)
              omega
          rw [List.nil_append, setChars_past hput, List.nil_append] at h
          by_cases hrest : wordLength rest = 0
          · exact absurd h (not_moved_of_fits hline.1 hdone hword hchar' hrest hfull)
          · obtain ⟨c, text, rfl⟩ := List.exists_cons_of_ne_nil
              (fun hnil : rest = [] => hrest (by rw [hnil]; rfl))
            have hc : isWord c := by
              by_contra hc
              exact hrest (wordLength_cons_of_not_isWord hc)
            rw [typeset_append_moved hstart hline.1 hbegins hword hchar' hc hfull] at h
            obtain ⟨hgo, hstop⟩ := of_nextRow_eq (of_after_nextRow_eq
              ((onRow_puts _ _ _).append (onRow_puts _ _ _))
              ((onRow_puts _ _ _).append (onRow_puts _ _ _)) startsAt_finish
              (fun _ => startsAt_rowLoop) (startsAt_stopped row) (fun _ => startsAt_typeset) h).2
            refine .moves hline.1 hbegins hword hchar' hc hfull (fun hmore => ?_) fun hnot => ?_
            · have hnext := hgo hmore
              refine ih (c :: text).length ?_ (next_lt hrow) (Nat.le_refl _) (by omega) ?_
                (fun _ => rfl) ?_ firstWord_colStart (hnext.trans ?_) rfl
              · simp only [List.length_append, List.length_cons]
                omega
              · rw [List.mem_append, List.mem_singleton]
                exact not_or.mpr ⟨fun hmem => (isWord_iff.mp (hword _ hmem)).1 rfl, Ne.symm hchar⟩
              · rw [List.length_append, List.length_singleton]
                omega
              · rw [List.append_assoc, List.singleton_append]
            · have hcount := congrArg (·.events.length) (hstop hnot)
              dsimp only [finish, stopped] at hcount
              rw [length_setChars, past_append, u32_natCast (by omega), List.length_nil] at hcount
              exact List.eq_nil_of_length_eq_zero hcount
        · -- what has been moved to the row is written once more than there is room
          exfalso
          rw [htext] at h
          have hcount := length_of_eq_typeset ((onRow_setChars _ _ _ _).append (onRow_puts _ _ _))
            startsAt_finish (fun _ => startsAt_rowLoop) hcol hmem hlong h
          rw [List.length_append, length_setChars, past_append, length_puts, List.length_replicate,
            List.length_append] at hcount
          have hpos := List.length_pos_iff.mpr hnil
          unfold u32 at hcount
          omega
      · -- the character of the last column is put into the next row
        have hbreak : isBreak char ∨ (∀ c ∈ done ++ word, isWord c) ∧ col = t.colStart := by
          by_cases hb : isBreak char
          · exact .inl hb
          · rw [not_and, not_or] at hbegins
            have hnot := hbegins (isWord_iff.mpr ⟨hchar, hb⟩)
            have hnil : done = [] := hdone.resolve_right hnot.2
            refine .inr ⟨by rw [hnil]; exact hword, ?_⟩
            by_contra hne
            exact hnot.1 ⟨hnil, hne⟩
        have hmem' : newline ∉ done ++ word := by
          rw [List.mem_append]
          exact not_or.mpr hline
        have hfull : col + (done ++ word).length + 1 = t.colEnd := by
          rw [List.length_append]
          omega
        obtain ⟨lastChar', hloop⟩ :=
          exists_rowLoop_full row lastChar moved rest hcolEnd hmem' hchar hfull hbreak
        rw [hloop] at h
        have hcount := length_of_eq_typeset (onRow_setChars _ _ _ _) (startsAt_nil _)
          (fun _ => startsAt_rowLoop) hcol hmem hlong (by rw [← htext]; exact h)
        rw [length_setChars, past_append, List.length_append] at hcount
        have hone : moved.length = 1 := by
          unfold u32 at hcount
          omega
        obtain ⟨first, rfl⟩ := List.length_eq_one_iff.mp hone
        obtain rfl := hmovedCol (List.cons_ne_nil _ _)
        have hfits : t.colStart + (first :: (done ++ word)).length < 2 ^ 32 := by
          rw [List.length_cons]
          omega
        rw [List.singleton_append, setChars_past hfits] at h
        by_cases hleft : isBreak char ∨
            (∀ c ∈ done ++ word, ¬isBreak c) ∧ (isBreak first → done ++ word = [])
        · have hset := typeset_first_append row rest
            (List.not_mem_cons_of_ne_of_not_mem (List.ne_of_not_mem_cons hmoved) hmem') hfull hleft
          obtain ⟨hgo, -⟩ := of_nextRow_eq (of_after_nextRow_eq (onRow_puts _ _ _)
            (onRow_puts _ _ _) (startsAt_nil _) (fun _ => startsAt_rowLoop) (startsAt_stopped row)
            (fun _ => startsAt_typeset) (h.trans hset)).2
          refine .full hmem' hchar hfull hleft fun hmore => ih rest.length ?_ (next_lt hrow)
            (Nat.le_refl _) hcol (fun hmem => hchar (List.mem_singleton.mp hmem).symm)
            (fun _ => rfl) hmovedLen firstWord_colStart (hgo hmore) rfl
          rw [List.length_append, List.length_cons]
          omega
        · exfalso
          rw [not_or] at hleft
          have hwords := (hbreak.resolve_left hleft.1).1
          have hnot : ¬(isBreak first → done ++ word = []) := fun h' =>
            hleft.2 ⟨fun c hc => (isWord_iff.mp (hwords c hc)).2, h'⟩
          rw [Classical.not_imp] at hnot
          exact not_left_of_moved hwords (isWord_iff.mpr ⟨hchar, hleft.1⟩) hnot.1 hnot.2 hfull h

/-! ## The modes -/

/-- **Where a text is written as it is to be.** -/
theorem writes_iff (hinside : t.Inside cursor) :
    t.Writes mode cursor text ↔ t.Kept mode cursor text := by
  obtain ⟨hrow, hstart, hcol, -, hcolEnd⟩ := hinside
  have hinto : ¬(cursor.row ≥ t.rows ∨ cursor.col ≥ t.colEnd) :=
    not_or.mpr ⟨Nat.not_le.mpr hrow, Nat.not_le.mpr hcol⟩
  have hlt : t.colStart < t.colEnd := Nat.lt_of_le_of_lt hstart hcol
  unfold Writes writeText
  rw [if_neg hinto]
  cases mode with
  | none =>
    constructor
    · exact fun h => (eq_nil_of_noneLoop_eq_typeset hcolEnd hlt hcol (.inl rfl) h).1
    · rintro rfl
      exact finish_self
  | endOfLine => exact endOfLineLoop_eq_typeset_iff hcolEnd hlt hrow hcol
  | whitespace =>
    have hfirst : t.FirstWord text cursor.col [] text := fun _ => ⟨rfl, rfl⟩
    constructor
    · intro h
      exact keptWords_of_rowLoop_eq_typeset hcolEnd hrow hstart hcol List.not_mem_nil
        (fun hne => absurd rfl hne) hlt hfirst h
    · intro h
      exact rowLoop_eq_typeset_of_keptWords hcolEnd h hrow hstart List.not_mem_nil hfirst

/-- A word that is moved, and a newline after it. -/
theorem writes_movedWord :
    (Console.mk 2 0 4 true).Writes .whitespace ⟨0, 0⟩ [97#8, 98#8, 32#8, 99#8, 100#8, 10#8] := by
  have hnext : (Console.mk 2 0 4 true).KeptWords 1 0 [99#8] ([100#8] ++ newline :: []) :=
    .newline (by decide) (by decide) (.inr rfl) (.ends (by decide) (by decide))
  have hbegins : ([97#8, 98#8, 32#8] = [] ∧ 0 ≠ 0) ∨
      ∃ c, [97#8, 98#8, 32#8].getLast? = some c ∧ isBreak c := .inr ⟨32#8, rfl, rfl⟩
  have hkept : (Console.mk 2 0 4 true).KeptWords 0 0 []
      ([97#8, 98#8, 32#8] ++ [] ++ 99#8 :: 100#8 :: [newline]) :=
    .moves (by decide) hbegins (List.forall_mem_nil _) (by decide) (by decide) rfl
      (fun _ => hnext) fun _ => rfl
  exact (writes_iff ⟨by decide, by decide, by decide, by decide, by decide⟩).mpr hkept

/-- The character before a newline is not written. -/
theorem not_writes_newline :
    ¬(Console.mk 2 0 4 false).Writes .endOfLine ⟨0, 0⟩ [97#8, 98#8, 10#8] := by decide

end Console

end Textmode

end Uberos
