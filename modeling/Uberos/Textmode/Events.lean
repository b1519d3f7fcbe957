import Mathlib.Tactic.Common
import Uberos.Textmode.Model
/-!
# What is done row by row

What two ways of writing a text do on a row is the same, if they do the same:
what comes after begins with a scroll, or on a row below.
-/

namespace Uberos

namespace Textmode

variable {row col r : ℕ} {chars : List (BitVec 8)} {es : List Event}

/-! ## Numbers -/

theorem u32_natCast {n : ℕ} (h : n < 2 ^ 32) : u32 n = n := by
  unfold u32
  omega

theorem u32_of_eq {z : ℤ} {n : ℕ} (hz : z = n) (h : n < 2 ^ 32) : u32 z = n := by
  rw [hz, u32_natCast h]

theorem u32_succ {n : ℕ} (h : n + 1 < 2 ^ 32) : u32 (n + 1) = n + 1 := u32_of_eq (by omega) h

/-! ## Characters in cells -/

@[simp] theorem puts_nil (row col : ℕ) : puts row col [] = [] := rfl

@[simp] theorem length_puts (row col : ℕ) (chars : List (BitVec 8)) :
    (puts row col chars).length = chars.length := List.length_mapIdx

theorem puts_append (row col : ℕ) (chars chars' : List (BitVec 8)) :
    puts row col (chars ++ chars')
      = puts row col chars ++ puts row (col + chars.length) chars' := by
  unfold puts
  rw [List.mapIdx_append]
  congr 1
  refine List.mapIdx_eq_mapIdx_iff.mpr fun k hk => ?_
  rw [show col + (k + chars.length) = col + chars.length + k by omega]

theorem puts_cons (row col : ℕ) (char : BitVec 8) (chars : List (BitVec 8)) :
    puts row col (char :: chars) = .setChar row col (some char) :: puts row (col + 1) chars := by
  rw [← List.singleton_append, puts_append]
  rfl

@[simp] theorem length_setChars (row col count : ℕ) (chars : List (BitVec 8)) :
    (setChars row col count chars).length = count := by
  rw [setChars, List.length_map, List.length_range]

/-- `set_chars` of what there is, in columns that do not wrap. -/
theorem setChars_eq_puts {chars' : List (BitVec 8)} (hcol : col + chars.length ≤ 2 ^ 32) :
    setChars row col chars.length (chars ++ chars') = puts row col chars := by
  unfold setChars puts
  refine List.ext_getElem (by simp) fun k hk _ => ?_
  rw [List.length_map, List.length_range] at hk
  rw [List.getElem_map, List.getElem_range, List.getElem_mapIdx, List.getElem?_append_left hk,
    List.getElem?_eq_getElem hk, u32_of_eq (Int.natCast_add col k).symm (by omega)]

/-! ## Rows -/

/-- A character is put in the row. -/
def Event.onRow (row : ℕ) : Event → Bool
  | .setChar r _ _ => r = row
  | .scroll => false

/-- Nothing is put above the row. -/
def Event.noHigher (row : ℕ) : Event → Bool
  | .setChar r _ _ => row ≤ r
  | .scroll => true

/-- All of it is put in the row. -/
def OnRow (row : ℕ) (es : List Event) : Prop := ∀ e ∈ es, e.onRow row

/-- It does not begin above the row. -/
def StartsAt (row : ℕ) (es : List Event) : Prop := ∀ e ∈ es.head?, e.noHigher row

/-- It does not begin in the row. -/
def StartsOff (row : ℕ) (es : List Event) : Prop := ∀ e ∈ es.head?, ¬e.onRow row

theorem onRow_setChars (row col count : ℕ) (chars : List (BitVec 8)) :
    OnRow row (setChars row col count chars) := by
  intro e he
  obtain ⟨k, -, rfl⟩ := List.mem_map.mp he
  exact decide_eq_true rfl

theorem onRow_puts (row col : ℕ) (chars : List (BitVec 8)) : OnRow row (puts row col chars) := by
  intro e he
  obtain ⟨k, hk, rfl⟩ := List.mem_mapIdx.mp he
  exact decide_eq_true rfl

theorem onRow_nil (row : ℕ) : OnRow row [] := fun _ he => absurd he List.not_mem_nil

theorem OnRow.append {es' : List Event} (h : OnRow row es) (h' : OnRow row es') :
    OnRow row (es ++ es') := fun e he => (List.mem_append.mp he).elim (h e) (h' e)

theorem OnRow.startsAt (h : OnRow row es) : StartsAt row es := by
  intro e he
  have hrow := h e (List.mem_of_mem_head? he)
  cases e with
  | setChar r c x => exact decide_eq_true (Nat.le_of_eq (of_decide_eq_true hrow).symm)
  | scroll => rfl

theorem OnRow.scroll_not_mem (h : OnRow row es) : .scroll ∉ es :=
  fun hmem => Bool.false_ne_true (h _ hmem)

theorem startsAt_nil (row : ℕ) : StartsAt row [] := fun _ he => absurd he (by simp)

theorem StartsAt.append {es' : List Event} (h : StartsAt row es) (h' : StartsAt row es') :
    StartsAt row (es ++ es') := by
  cases es with
  | nil => exact h'
  | cons e es => exact h

theorem StartsAt.mono (h : StartsAt r es) (hle : row ≤ r) : StartsAt row es := by
  intro e he
  have hrow := h e he
  cases e with
  | setChar r' c x => exact decide_eq_true (Nat.le_trans hle (of_decide_eq_true hrow))
  | scroll => rfl

theorem StartsAt.startsOff (h : StartsAt (row + 1) es) : StartsOff row es := by
  intro e he hon
  have hrow := h e he
  cases e with
  | setChar r c x =>
    have hle := of_decide_eq_true hrow
    have heq := of_decide_eq_true hon
    omega
  | scroll => exact Bool.false_ne_true hon

/-- **Events are split by rows in one way.** -/
theorem append_inj_of_onRow {es es' fs fs' : List Event} (hes : OnRow row es) (hfs : OnRow row fs)
    (hes' : StartsOff row es') (hfs' : StartsOff row fs') (h : es ++ es' = fs ++ fs') :
    es = fs ∧ es' = fs' := by
  induction es generalizing fs with
  | nil =>
    cases fs with
    | nil => exact ⟨rfl, h⟩
    | cons f fs =>
      rw [List.nil_append] at h
      exact absurd (hfs f (List.mem_cons_self ..)) (hes' f (by rw [h]; rfl))
  | cons e es ih =>
    cases fs with
    | nil =>
      rw [List.nil_append] at h
      exact absurd (hes e (List.mem_cons_self ..)) (hfs' e (by rw [← h]; rfl))
    | cons f fs =>
      obtain ⟨rfl, htail⟩ := List.cons.inj h
      obtain ⟨rfl, heq⟩ := ih (fun e he => hes e (List.mem_cons_of_mem _ he))
        (fun e he => hfs e (List.mem_cons_of_mem _ he)) htail
      exact ⟨rfl, heq⟩

/-! ## The next row -/

@[simp] theorem Result.after_nil (result : Result) : result.after [] = result := rfl

theorem Result.after_append (es es' : List Event) (result : Result) :
    result.after (es ++ es') = (result.after es').after es := by
  unfold after
  rw [List.append_assoc]

namespace Console

variable {t : Console} {stop stop' : Result} {go go' : ℕ → Result}

theorem next_lt (hrow : row < t.rows) : t.next row < t.rows := by
  unfold next
  split <;> omega

/-- **Two go on to the same** if they are the same from the next row on. -/
theorem nextRow_congr (hgo : t.More row → go (t.next row) = go' (t.next row))
    (hstop : ¬t.More row → stop = stop') : t.nextRow row stop go = t.nextRow row stop' go' := by
  unfold nextRow
  unfold More next at hgo
  unfold More at hstop
  split
  · next h => rw [if_pos h] at hgo; exact hgo (.inl h)
  · next h =>
    rw [if_neg h] at hgo
    split
    · next hs => rw [hgo (.inr hs)]
    · next hs => exact hstop (not_or.mpr ⟨h, hs⟩)

/-- And they are then only. -/
theorem of_nextRow_eq (h : t.nextRow row stop go = t.nextRow row stop' go') :
    (t.More row → go (t.next row) = go' (t.next row)) ∧ (¬t.More row → stop = stop') := by
  unfold nextRow at h
  unfold More next
  by_cases hrow : row + 1 < t.rows
  · rw [if_pos hrow, if_pos hrow] at h
    refine ⟨fun _ => ?_, fun hnot => absurd (.inl hrow) hnot⟩
    rw [if_pos hrow]
    exact h
  · rw [if_neg hrow, if_neg hrow] at h
    rw [if_neg hrow]
    by_cases hs : t.autoScroll = true
    · rw [if_pos hs, if_pos hs] at h
      refine ⟨fun _ => ?_, fun hnot => absurd (.inr hs) hnot⟩
      obtain ⟨hevents, hcursor⟩ := Result.mk.inj h
      have htail := (List.cons.inj hevents).2
      cases hleft : go (t.rows - 1)
      cases hright : go' (t.rows - 1)
      rw [hleft, hright] at htail hcursor
      exact congrArg₂ Result.mk htail hcursor
    · rw [if_neg hs, if_neg hs] at h
      exact ⟨fun hmore => absurd hmore (not_or.mpr ⟨hrow, hs⟩), fun _ => h⟩

/-- What is done from the next row on does not begin in the row. -/
theorem startsOff_nextRow (hstop : StartsAt (row + 1) stop.events)
    (hgo : ∀ r, StartsAt r (go r).events) : StartsOff row (t.nextRow row stop go).events := by
  unfold nextRow
  split
  · exact (hgo (row + 1)).startsOff
  · split
    · intro e he
      rw [← Option.some.inj he]
      exact Bool.false_ne_true
    · exact hstop.startsOff

theorem startsAt_nextRow (hstop : StartsAt (row + 1) stop.events)
    (hgo : ∀ r, StartsAt r (go r).events) : StartsAt row (t.nextRow row stop go).events := by
  unfold nextRow
  split
  · exact (hgo (row + 1)).mono (Nat.le_succ row)
  · split
    · intro e he
      rw [← Option.some.inj he]
      rfl
    · exact hstop.mono (Nat.le_succ row)

/-- **Two that are the same are so on a row and after it.** -/
theorem of_after_nextRow_eq {es fs : List Event} (hes : OnRow row es) (hfs : OnRow row fs)
    (hstop : StartsAt (row + 1) stop.events) (hgo : ∀ r, StartsAt r (go r).events)
    (hstop' : StartsAt (row + 1) stop'.events) (hgo' : ∀ r, StartsAt r (go' r).events)
    (h : (t.nextRow row stop go).after es = (t.nextRow row stop' go').after fs) :
    es = fs ∧ t.nextRow row stop go = t.nextRow row stop' go' := by
  obtain ⟨hevents, hcursor⟩ := Result.mk.inj h
  obtain ⟨heq, hrest⟩ := append_inj_of_onRow hes hfs (startsOff_nextRow hstop hgo)
    (startsOff_nextRow hstop' hgo') hevents
  refine ⟨heq, ?_⟩
  cases hleft : t.nextRow row stop go
  cases hright : t.nextRow row stop' go'
  rw [hleft, hright] at hrest hcursor
  exact congrArg₂ Result.mk hrest hcursor

end Console

end Textmode

end Uberos
