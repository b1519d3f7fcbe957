import Uberos.Textmode.Lines
/-!
# Where words are not moved

The loops of `WrapMode::endOfLine` and `WrapMode::none`. The first leaves out
the character before a newline, and puts the one of the last column into the
next row; the second passes two columns for each, and one after a newline.
-/

namespace Uberos

namespace Textmode

variable {row col fromCol r : ℕ} {char : BitVec 8} {c fromChar line rest text : List (BitVec 8)}

/-! ## What has been kept back -/

theorem past_append (line c : List (BitVec 8)) : past c (line ++ c) = line.length := by
  rw [past, List.length_append]
  omega

/-- What is kept back is written to its cells. -/
theorem setChars_past (hcol : col + line.length < 2 ^ 32) :
    setChars row col (u32 (past c (line ++ c))) (line ++ c) = puts row col line := by
  rw [past_append, u32_natCast (by omega), setChars_eq_puts (by omega)]

/-- So is all of it, at its end. -/
theorem setChars_past_nil (row : ℕ) (hcol : col + line.length < 2 ^ 32) :
    setChars row col (u32 (past [] line)) line = puts row col line := by
  have hflush : setChars row col (u32 (past [] (line ++ []))) (line ++ []) = puts row col line :=
    setChars_past hcol
  rw [List.append_nil] at hflush
  exact hflush

namespace Console

variable {t : Console}

/-- Nothing is kept back where the loop stands. -/
theorem finish_self : finish c fromCol row col c = ⟨[], ⟨row, col⟩⟩ := by
  have hpast : past c c = 0 := by rw [past]; omega
  rw [finish, hpast]
  rfl

theorem startsAt_finish : StartsAt row (finish fromChar fromCol row col c).events :=
  (onRow_setChars _ _ _ _).startsAt

/-- **A newline at which a loop ends** is passed before it: what is kept back
is less than nothing. -/
theorem finish_ne_stopped :
    finish c t.colStart (row + 1) t.colStart (char :: c) ≠ t.stopped row := by
  intro h
  have hlen := congrArg (·.events.length) h
  have hpast : past (char :: c) c = -1 := by rw [past, List.length_cons]; omega
  dsimp only [finish, stopped] at hlen
  rw [length_setChars, hpast] at hlen
  exact absurd hlen (by decide)

/-! ## `WrapMode::endOfLine` -/

theorem onRow_flushShort : OnRow row (flushShort fromChar fromCol row c) := by
  unfold flushShort
  split
  · exact onRow_setChars _ _ _ _
  · exact onRow_nil row

/-- The character before a newline is left out. -/
theorem length_flushShort_lt (hne : line ≠ []) (hlen : line.length < 2 ^ 32) :
    (flushShort (line ++ c) fromCol row c).length < line.length := by
  have hpos := List.length_pos_iff.mpr hne
  rw [flushShort, past_append]
  split
  · rw [length_setChars, u32_of_eq (n := line.length - 1) (by omega) (by omega)]
    omega
  · exact hpos

theorem startsAt_endOfLineLoop :
    StartsAt row (t.endOfLineLoop fromChar fromCol row col c).events := by
  induction c generalizing fromChar fromCol row col with
  | nil => exact startsAt_finish
  | cons char c ih =>
    rw [endOfLineLoop]
    split
    · exact onRow_flushShort.startsAt.append (startsAt_nextRow startsAt_finish fun _ => ih)
    · split
      · exact (onRow_setChars _ _ _ _).startsAt.append
          (startsAt_nextRow startsAt_finish fun _ => ih)
      · exact ih

/-- A line is kept back up to the last column. -/
theorem endOfLineLoop_append (hcolEnd : t.colEnd < 2 ^ 32) (hline : newline ∉ line)
    (hfits : col + line.length < t.colEnd) :
    t.endOfLineLoop fromChar fromCol row col (line ++ c)
      = t.endOfLineLoop fromChar fromCol row (col + line.length) c := by
  induction line generalizing col with
  | nil => rfl
  | cons char line ih =>
    rw [List.mem_cons, not_or] at hline
    rw [List.length_cons] at hfits
    rw [List.cons_append, endOfLineLoop, if_neg (Ne.symm hline.1), u32_succ (by omega),
      if_neg (by omega), ih hline.2 (by omega), List.length_cons]
    congr 1
    omega

/-- A newline that comes first is what there is to do. -/
theorem keptLine_newline :
    t.KeptLine ⟨row, col⟩ (newline :: rest) ↔
      t.More row ∧ t.KeptLine ⟨t.next row, t.colStart⟩ rest := by
  constructor
  · rintro ⟨n, line, heq, hline, hrows, hfits⟩
    cases n with
    | zero =>
      rw [List.replicate_zero, List.nil_append] at heq
      exact absurd (by rw [← heq]; exact List.mem_cons_self ..) hline
    | succ n =>
      rw [List.replicate_succ, List.cons_append] at heq
      rw [if_neg (Nat.succ_ne_zero n)] at hfits
      dsimp only at hrows
      refine ⟨hrows.symm.imp (by omega) id, n, line, (List.cons.inj heq).2, hline, ?_, ?_⟩
      · refine hrows.imp id fun hlt => ?_
        dsimp only [next]
        rw [if_pos (by omega)]
        omega
      · rw [ite_self]
        exact hfits
  · rintro ⟨hmore, n, line, rfl, hline, hrows, hfits⟩
    rw [ite_self] at hfits
    refine ⟨n + 1, line, rfl, hline, ?_, by rw [if_neg (Nat.succ_ne_zero n)]; exact hfits⟩
    rcases hmore with hlt | hscroll
    · refine hrows.imp id fun hlt' => ?_
      dsimp only [next] at hlt'
      rw [if_pos hlt] at hlt'
      dsimp only
      omega
    · exact .inl hscroll

/-- Another character is of the last line. -/
theorem keptLine_of_ne (hrow : row < t.rows) (hchar : char ≠ newline) :
    t.KeptLine ⟨row, col⟩ (char :: rest) ↔
      newline ∉ char :: rest ∧ col + (char :: rest).length < t.colEnd := by
  constructor
  · rintro ⟨n, line, heq, hline, -, hfits⟩
    cases n with
    | zero =>
      rw [List.replicate_zero, List.nil_append] at heq
      rw [heq]
      exact ⟨hline, hfits⟩
    | succ n =>
      rw [List.replicate_succ, List.cons_append] at heq
      exact absurd (List.cons.inj heq).1 hchar
  · rintro ⟨hline, hfits⟩
    exact ⟨0, char :: rest, rfl, hline, .inr hrow, hfits⟩

/-- **Where nothing is lost with `WrapMode::endOfLine`.** -/
theorem endOfLineLoop_eq_typeset_iff (hcolEnd : t.colEnd < 2 ^ 32) (hstart : t.colStart < t.colEnd)
    (hrow : row < t.rows) (hcol : col < t.colEnd) :
    t.endOfLineLoop text col row col text = t.typeset false true row col text ↔
      t.KeptLine ⟨row, col⟩ text := by
  induction text generalizing row col with
  | nil =>
    rw [endOfLineLoop, finish_self]
    exact iff_of_true rfl ⟨0, [], rfl, List.not_mem_nil, .inr hrow, hcol⟩
  | cons char text ih =>
    by_cases hchar : char = newline
    · subst hchar
      have hflush : flushShort (newline :: text) col row (newline :: text) = [] :=
        if_neg (by rw [past]; omega)
      rw [endOfLineLoop, if_pos rfl, hflush, Result.after_nil, typeset_newline, keptLine_newline]
      constructor
      · intro h
        obtain ⟨hgo, hstop⟩ := of_nextRow_eq h
        by_cases hmore : t.More row
        · exact ⟨hmore, (ih (next_lt hrow) hstart).mp (hgo hmore)⟩
        · exact absurd (hstop hmore) finish_ne_stopped
      · rintro ⟨hmore, hkept⟩
        exact nextRow_congr (fun _ => (ih (next_lt hrow) hstart).mpr hkept)
          fun hnot => absurd hmore hnot
    · rw [keptLine_of_ne hrow hchar]
      rcases exists_line (show 0 < t.colEnd - col by omega) (char :: text) with
        ⟨hline, hlen⟩ | ⟨line, rest, heq, hline, hlen⟩ | ⟨line, last, rest, heq, hline, hlast, hlen⟩
      · have hfits : col + (char :: text).length < t.colEnd := by omega
        have hloop : t.endOfLineLoop (char :: text) col row col (char :: text ++ [])
            = t.endOfLineLoop (char :: text) col row (col + (char :: text).length) [] :=
          endOfLineLoop_append hcolEnd hline hfits
        have hflush := setChars_past_nil row (Nat.lt_trans hfits hcolEnd)
        rw [List.append_nil] at hloop
        rw [hloop, endOfLineLoop, finish, hflush, typeset_line hline hfits]
        exact iff_of_true rfl ⟨hline, hfits⟩
      · -- the character before the newline is left out
        refine iff_of_false (fun h => ?_) fun h => ?_
        · have hne : line ≠ [] := by
            intro hnil
            rw [hnil] at heq
            exact hchar (List.cons.inj heq).1
          rw [heq, endOfLineLoop_append hcolEnd hline (by omega), endOfLineLoop, if_pos rfl,
            typeset_line_newline hline (by omega)] at h
          have hputs := congrArg List.length (of_after_nextRow_eq onRow_flushShort
            (onRow_puts _ _ _) startsAt_finish (fun _ => startsAt_endOfLineLoop)
            (startsAt_stopped row) (fun _ => startsAt_typeset) h).1
          rw [length_puts] at hputs
          exact absurd hputs (Nat.ne_of_lt (length_flushShort_lt hne (by omega)))
        · exact h.1 (heq ▸ List.mem_append_right _ (List.mem_cons_self ..))
      · -- the character of the last column is put into the next row
        have hmem : newline ∉ line ++ [last] := by
          rw [List.mem_append, List.mem_singleton]
          exact not_or.mpr ⟨hline, Ne.symm hlast⟩
        have hlong : col + (line ++ [last]).length = t.colEnd := by
          rw [List.length_append, List.length_singleton]
          omega
        refine iff_of_false (fun h => ?_) fun h => ?_
        · obtain ⟨es, left, hes, hfull, -, hset⟩ :=
            exists_typeset_full row rest true false hmem hlong hcol
          rw [List.append_assoc, List.singleton_append] at hset
          rw [heq, endOfLineLoop_append hcolEnd hline (by omega), endOfLineLoop, if_neg hlast,
            u32_succ (by omega), if_pos (by omega), hset] at h
          have hputs := congrArg List.length (of_after_nextRow_eq (onRow_setChars _ _ _ _) hes
            startsAt_finish (fun _ => startsAt_endOfLineLoop) (startsAt_stopped row)
            (fun _ => startsAt_typeset) h).1
          rw [length_setChars, past_append, u32_natCast (by omega), hfull, List.length_append,
            List.length_singleton] at hputs
          omega
        · have hfits := h.2
          rw [heq, List.length_append, List.length_cons] at hfits
          omega

/-! ## `WrapMode::none` -/

theorem startsAt_noneLoop : StartsAt row (t.noneLoop fromChar fromCol row col c).events := by
  induction c generalizing fromChar fromCol row col with
  | nil => exact startsAt_finish
  | cons char c ih =>
    rw [noneLoop]
    split
    · split
      · exact onRow_flushShort.startsAt.append (startsAt_nextRow startsAt_finish fun _ => ih)
      · exact ih
    · exact startsAt_finish

/-- The loop ends on its row, two columns on for each character, or comes to
a newline. -/
theorem exists_noneLoop (t : Console) (fromChar : List (BitVec 8)) (fromCol row col : ℕ)
    (c : List (BitVec 8)) :
    (∃ n es col', t.noneLoop fromChar fromCol row col c = ⟨es, ⟨row, col'⟩⟩ ∧ OnRow row es ∧
      n ≤ c.length ∧ es.length = u32 (past c fromChar + n) ∧
      (n = c.length → (col' : ℤ) % 2 ^ 32 = (col + 2 * n) % 2 ^ 32)) ∨
    ∃ line rest, c = line ++ newline :: rest ∧ newline ∉ line ∧
      t.noneLoop fromChar fromCol row col c
        = (t.nextRow row (finish rest t.colStart (row + 1) t.colStart (newline :: rest)) fun row =>
            t.noneLoop rest t.colStart row (u32 (t.colStart + 1)) rest).after
          (flushShort fromChar fromCol row (newline :: rest)) := by
  induction c generalizing col with
  | nil =>
    refine .inl ⟨0, _, col, rfl, onRow_setChars _ _ _ _, Nat.le_refl _, ?_, fun _ => rfl⟩
    rw [length_setChars]
    exact congrArg u32 (Int.add_zero _).symm
  | cons char c ih =>
    rw [noneLoop]
    by_cases hcol : col < t.colEnd
    · rw [if_pos hcol]
      by_cases hchar : char = newline
      · subst hchar
        rw [if_pos rfl]
        exact .inr ⟨[], c, rfl, List.not_mem_nil, rfl⟩
      · rw [if_neg hchar]
        rcases ih (u32 (u32 (col + 1) + 1)) with
          ⟨n, es, col', heq, hes, hn, hlen, hcol'⟩ | ⟨line, rest, rfl, hline, heq⟩
        · refine .inl ⟨n + 1, es, col', heq, hes, Nat.succ_le_succ hn, ?_, fun hall => ?_⟩
          · rw [hlen, past, past, List.length_cons]
            congr 1
            omega
          · have hmod := hcol' (Nat.succ.inj hall)
            unfold u32 at hmod
            omega
        · exact .inr ⟨char :: line, rest, rfl,
            List.not_mem_cons_of_ne_of_not_mem (Ne.symm hchar) hline, heq⟩
    · rw [if_neg hcol]
      refine .inl ⟨0, _, col, rfl, onRow_setChars _ _ _ _, Nat.zero_le _, ?_, fun hall => ?_⟩
      · rw [length_setChars]
        congr 1
        omega
      · exact absurd hall (Nat.succ_ne_zero _).symm

/-- **A loop that has passed a newline too many** stays ahead. -/
theorem noneLoop_ne_typeset_of_ahead (hstart : t.colStart < t.colEnd) {setCol : ℕ} {begins : Bool}
    (hcol : setCol < t.colEnd) (hahead : newline :: c <:+ text) :
    t.noneLoop fromChar fromCol row col c ≠ t.typeset false begins row setCol text := by
  induction hn : c.length using Nat.strong_induction_on generalizing
    fromChar fromCol row col c setCol begins text with
  | _ n ih =>
    intro h
    obtain ⟨es, left, hes, hleft, hset⟩ := exists_typeset_nextRow row begins false hcol
      (.inl (hahead.subset (List.mem_cons_self ..)))
    rcases exists_noneLoop t fromChar fromCol row col c with
      ⟨n', fs, col', heq, hfs, -⟩ | ⟨line, rest, rfl, hline, heq⟩
    · have hgoes := goesTo_succ_typeset row begins false hcol
        (.inl (hahead.subset (List.mem_cons_self ..)))
      rw [← h, heq] at hgoes
      exact not_goesTo_succ hfs hgoes
    · rw [heq, hset] at h
      obtain ⟨hgo, hstop⟩ := of_nextRow_eq (of_after_nextRow_eq onRow_flushShort hes
        startsAt_finish (fun _ => startsAt_noneLoop) (startsAt_stopped row)
        (fun _ => startsAt_typeset) h).2
      by_cases hmore : t.More row
      · refine ih rest.length ?_ hstart ((List.suffix_append line _).trans (hleft _ hahead)) rfl
          (hgo hmore)
        rw [← hn, List.length_append, List.length_cons]
        omega
      · exact finish_ne_stopped (hstop hmore)

/-- **With `WrapMode::none` nothing but nothing is written** as it is to be. -/
theorem eq_nil_of_noneLoop_eq_typeset (hcolEnd : t.colEnd < 2 ^ 32)
    (hstart : t.colStart < t.colEnd) {begins : Bool} (hfrom : fromCol < t.colEnd)
    (hcol : col = fromCol ∨ col = fromCol + 1)
    (h : t.noneLoop c fromCol row col c = t.typeset false begins row fromCol c) :
    c = [] ∧ col = fromCol := by
  induction c generalizing fromCol row col begins with
  | nil => exact ⟨rfl, congrArg (·.cursor.col) h⟩
  | cons char c ih =>
    exfalso
    rcases exists_noneLoop t (char :: c) fromCol row col (char :: c) with
      ⟨n, es, col', heq, hes, hn, hlen, hcol'⟩ | ⟨line, rest, hc, hline, heq⟩
    · rw [heq] at h
      by_cases hgoes : newline ∈ char :: c ∨ t.colEnd ≤ fromCol + (char :: c).length
      · have hnext := goesTo_succ_typeset row begins false hfrom hgoes
        rw [← h] at hnext
        exact not_goesTo_succ hes hnext
      · -- two columns a character are one too many
        rw [not_or, Nat.not_le] at hgoes
        rw [typeset_line hgoes.1 hgoes.2] at h
        obtain ⟨hevents, hcursor⟩ := Result.mk.inj h
        have hcount := congrArg List.length hevents
        rw [length_puts, hlen, u32_of_eq (n := n) (by rw [past]; omega) (by omega)] at hcount
        have hmod := hcol' hcount
        have hend := (Cursor.mk.inj hcursor).2
        have hpos : (char :: c).length = c.length + 1 := rfl
        omega
    · rw [heq] at h
      cases line with
      | nil =>
        obtain ⟨rfl, rfl⟩ := List.cons.inj hc
        rw [typeset_newline] at h
        have hflush : flushShort (newline :: c) fromCol row (newline :: c) = [] :=
          if_neg (by rw [past]; omega)
        rw [hflush, Result.after_nil] at h
        obtain ⟨hgo, hstop⟩ := of_nextRow_eq h
        by_cases hmore : t.More row
        · have hcols := (ih hstart (.inr (u32_succ (by omega))) (hgo hmore)).2
          rw [u32_succ (by omega)] at hcols
          omega
        · exact finish_ne_stopped (hstop hmore)
      | cons first line =>
        by_cases hfits : fromCol + (first :: line).length < t.colEnd
        · rw [hc, typeset_line_newline hline hfits] at h
          have hputs := congrArg List.length (of_after_nextRow_eq onRow_flushShort
            (onRow_puts _ _ _) startsAt_finish (fun _ => startsAt_noneLoop) (startsAt_stopped row)
            (fun _ => startsAt_typeset) h).1
          rw [length_puts] at hputs
          exact absurd hputs (Nat.ne_of_lt (length_flushShort_lt (List.cons_ne_nil _ _) (by omega)))
        · -- the rest of the line, and its newline, are set on the next row
          have hsplit := List.take_append_drop (t.colEnd - fromCol) (first :: line)
          have hlen : fromCol + ((first :: line).take (t.colEnd - fromCol)).length = t.colEnd := by
            rw [List.length_take_of_le (by omega)]
            omega
          obtain ⟨es, left, hes, -, -, hset⟩ := exists_typeset_full row
            ((first :: line).drop (t.colEnd - fromCol) ++ newline :: rest) begins false
            (fun hmem => hline (List.mem_of_mem_take hmem)) hlen hfrom
          rw [← List.append_assoc, hsplit, ← hc] at hset
          rw [hset] at h
          obtain ⟨hgo, hstop⟩ := of_nextRow_eq (of_after_nextRow_eq onRow_flushShort hes
            startsAt_finish (fun _ => startsAt_noneLoop) (startsAt_stopped row)
            (fun _ => startsAt_typeset) h).2
          by_cases hmore : t.More row
          · refine noneLoop_ne_typeset_of_ahead hstart hstart ?_ (hgo hmore)
            rw [← List.append_assoc]
            exact List.suffix_append _ _
          · exact finish_ne_stopped (hstop hmore)

end Console

end Textmode

end Uberos
