import Uberos.ConsoleOut.Model
/-!
# What the console shows

The buffer holds the unfinished sequence, before bytes of the sequences there
were before it, and its last byte is null. Of a sequence that renders graphics
only the first parameter is gone by: after it the loop stops, or goes through
what semicolons follow. Every call of `write_text` writes at least what is
shown, and more where a sequence is rejected or left unfinished.
-/

namespace Uberos

open Library

namespace ConsoleOut

variable {p : Palette} {escape tail param rest body : List Char} {a b c e : Char} {read : ℕ}

/-! ## Graphic rendition -/

/-- The end of a parameter. -/
def Ends (e : Char) : Prop := e = ';' ∨ e = 'm'

instance (e : Char) : Decidable (Ends e) := inferInstanceAs (Decidable (_ ∨ _))

/-- The characters of one. -/
def Within (param : List Char) : Prop := ∀ c ∈ param, ¬Ends c ∧ c ≠ '\x00'

theorem decide_ends (c : Char) : decide (Ends c) = (decide (c = ';') || decide (c = 'm')) :=
  Bool.decide_or _ _

@[simp] theorem isEnd_zero : isEnd (c :: rest) 0 = some (decide (Ends c)) := by
  rw [decide_ends]
  rfl

@[simp] theorem isEnd_succ (i : ℕ) : isEnd (c :: rest) (i + 1) = isEnd rest i := rfl

@[simp] theorem isMore_zero :
    isMore (c :: rest) 0 = some (decide (c ≠ '\x00') && !decide (Ends c)) := by
  rw [decide_ends]
  rfl

@[simp] theorem isMore_succ (i : ℕ) : isMore (c :: rest) (i + 1) = isMore rest i := rfl

/-- **How many digits follow the first** is what the three tests tell. -/
theorem digits_eq (hparam : Within param) (he : Ends e) (a b c : Char) (tail : List Char) :
    is1Digit (a :: b :: c :: (param ++ e :: tail)) 2 = some (decide (param.length = 0)) ∧
      is2Digit (a :: b :: c :: (param ++ e :: tail)) 2 = some (decide (param.length = 1)) ∧
        is3Digit (a :: b :: c :: (param ++ e :: tail)) 2 = some (decide (param.length = 2)) := by
  unfold is1Digit is2Digit is3Digit
  rcases param with - | ⟨d, - | ⟨d', - | ⟨d'', param⟩⟩⟩
  · simp [he]
  · have hd := hparam d (by simp)
    simp [he, hd]
  · have hd := hparam d (by simp)
    have hd' := hparam d' (by simp)
    simp [he, hd, hd']
  · have hd := hparam d (by simp)
    have hd' := hparam d' (by simp)
    have hd'' := hparam d'' (by simp)
    simp [hd, hd', hd'']

/-- What is called where one digit follows. -/
def secondCalls (switch : Char → List Call) : List Char → List Call
  | [d] => switch d
  | _ => []

/-- A second digit that is switched on. -/
theorem secondDigit_eq (hparam : Within param) (he : Ends e) (a b c : Char) (tail : List Char)
    (switch : Char → List Call) :
    ∃ read ≤ 3, secondDigit (a :: b :: c :: (param ++ e :: tail)) 2 switch =
      some (secondCalls switch param, read) := by
  unfold secondDigit
  rw [(digits_eq hparam he a b c tail).2.1]
  rcases param with - | ⟨d, - | ⟨d', param⟩⟩
  · exact ⟨2, by decide, rfl⟩
  · exact ⟨3, le_rfl, rfl⟩
  · exact ⟨2, by decide, rfl⟩

/-- A parameter by its first digit. -/
theorem parameterCalls_cons (p : Palette) (c : Char) (param : List Char) :
    parameterCalls p (c :: param) =
      if c = '0' then
        if param.length = 0 then [.clearForegroundColour, .clearBackgroundColour, .setBold false]
        else []
      else if c = '1' then
        if param.length = 0 then [.setBold true]
        else if param.length = 2 then brightForeground p ((param[1]?).getD c)
        else []
      else if c = '2' then secondCalls boldOff param
      else if c = '3' then secondCalls (foreground p) param
      else if c = '4' then secondCalls (background p) param
      else if c = '9' then secondCalls (brightForeground p) param
      else [] := by
  rcases param with - | ⟨d, - | ⟨d', - | ⟨d'', param⟩⟩⟩ <;> grind [parameterCalls, secondCalls]

/-- **The first turn goes by the first parameter.** -/
theorem switchRead_first (p : Palette) (hparam : Within param) (he : Ends e) (a b : Char)
    (tail : List Char) :
    ∃ read ≤ 4, switchRead p (a :: b :: (param ++ e :: tail)) 2 =
      some (parameterCalls p param, read) := by
  rcases param with - | ⟨c, param⟩
  · refine ⟨2, by decide, ?_⟩
    rcases he with rfl | rfl <;> rfl
  · have hrest : Within param := fun d hd => hparam d (List.mem_cons_of_mem c hd)
    obtain ⟨hdigit, -, hdigits⟩ := digits_eq hrest he a b c tail
    have hsecond : ∀ switch : Char → List Call, ∃ read ≤ 4,
        secondDigit (a :: b :: c :: (param ++ e :: tail)) 2 switch =
          some (secondCalls switch param, read) := by
      intro switch
      obtain ⟨read, hle, heq⟩ := secondDigit_eq hrest he a b c tail switch
      exact ⟨read, by omega, heq⟩
    rw [List.cons_append, switchRead, parameterCalls_cons]
    simp only [List.getElem?_cons_succ, List.getElem?_cons_zero, Option.bind_eq_bind,
      Option.bind_some, hdigit, hdigits, decide_eq_true_eq]
    have hread : 2 ≤ 4 := by decide
    by_cases h0 : c = '0'
    · rw [if_pos h0, if_pos h0]
      split
      · exact ⟨2, hread, rfl⟩
      · exact ⟨2, hread, rfl⟩
    rw [if_neg h0, if_neg h0]
    by_cases h1 : c = '1'
    · rw [if_pos h1, if_pos h1]
      split
      · exact ⟨2, hread, rfl⟩
      · split
        · -- the third digit is the one switched on
          rename_i htwo
          refine ⟨4, le_rfl, ?_⟩
          rcases param with - | ⟨d, - | ⟨d', - | ⟨d'', param⟩⟩⟩
          · exact absurd htwo (by simp)
          · exact absurd htwo (by simp)
          · rfl
          · exact absurd htwo (by simp)
        · exact ⟨2, hread, rfl⟩
    rw [if_neg h1, if_neg h1]
    split
    · exact hsecond boldOff
    · split
      · exact hsecond (foreground p)
      · split
        · exact hsecond (background p)
        · split
          · exact hsecond (brightForeground p)
          · exact ⟨2, hread, rfl⟩

/-- **The buffer as it is kept**: its last byte is null. -/
structure Kept (escape : List Char) : Prop where
  length : escape.length = size
  last : escape[size - 1]? = some '\x00'

theorem kept_new : Kept Console.new.currentEscape where
  length := List.length_replicate
  last := rfl

/-- What semicolons follow calls for nothing, and the loop stops at the last
byte at the latest. -/
theorem renditionLoop_semicolon (p : Palette) (h : Kept escape) {fuel : ℕ}
    (hread : escape[read]? = some ';') (hfuel : size ≤ read + fuel) :
    renditionLoop p escape fuel read = some [] := by
  have hlength := h.length
  have hlast := h.last
  unfold size at hlength hlast hfuel
  induction fuel generalizing read with
  | zero =>
    have hlt := (List.getElem?_eq_some_iff.1 hread).1
    omega
  | succ fuel ih =>
    have hlt := (List.getElem?_eq_some_iff.1 hread).1
    have hne : read ≠ 63 := by
      rintro rfl
      rw [hread] at hlast
      exact absurd (Option.some.inj hlast) (by decide)
    have hturn : switchRead p escape read = some ([], read) := by
      unfold switchRead
      rw [hread]
      rfl
    have hnext : escape[read + 1]? = some escape[read + 1] := List.getElem?_eq_getElem (by omega)
    rw [renditionLoop, hturn]
    simp only [Option.bind_eq_bind, Option.bind_some, hnext]
    split
    · rfl
    · rename_i hmore
      rw [ih (hnext.trans (congrArg some (not_not.1 hmore))) (by omega)]
      rfl

/-- **A sequence calls for what its first parameter does.** -/
theorem rendition_eq (p : Palette) (h : Kept (a :: b :: (param ++ e :: tail)))
    (hparam : Within param) (he : Ends e) :
    rendition p (a :: b :: (param ++ e :: tail)) = some (parameterCalls p param) := by
  obtain ⟨read, hle, hturn⟩ := switchRead_first p hparam he a b tail
  have hlength := h.length
  have hnext : read + 1 < (a :: b :: (param ++ e :: tail)).length := by
    rw [hlength, size]
    omega
  rw [rendition, size, renditionLoop, hturn]
  simp only [Option.bind_eq_bind, Option.bind_some, List.getElem?_eq_getElem hnext]
  split
  · rfl
  · rename_i hmore
    rw [renditionLoop_semicolon p h (List.getElem?_eq_getElem hnext |>.trans
      (congrArg some (not_not.1 hmore))) (by unfold size; omega), Option.bind_some,
      List.append_nil]

/-! ## The buffer -/

variable {pending : List Char} {console : Console} {w w' : Writing} {str past : List Char} {i : ℕ}

/-- **A sequence that is not finished.** -/
inductive Unfinished : List Char → Prop
  | none : Unfinished []
  | escape : Unfinished [esc]
  | sequence {body : List Char} : (∀ c ∈ body, isLetter c = false ∧ c ≠ '\x00') →
      body.length + 4 ≤ size → Unfinished (esc :: '[' :: body)

/-- There is room for another character and a null. -/
theorem Unfinished.length_le (h : Unfinished pending) : pending.length + 2 ≤ size := by
  cases h with
  | none => decide
  | escape => decide
  | sequence _ hroom => exact hroom

theorem Unfinished.null_notMem (h : Unfinished pending) : '\x00' ∉ pending := by
  cases h with
  | none => exact List.not_mem_nil
  | escape => decide
  | sequence hbody _ =>
    rw [List.mem_cons, List.mem_cons]
    rintro (hcon | hcon | hcon)
    · exact absurd hcon (by decide)
    · exact absurd hcon (by decide)
    · exact (hbody _ hcon).2 rfl

/-- **The buffer holds the unfinished sequence**, as far as it has come. -/
structure Buffered (console : Console) (pending : List Char) : Prop where
  kept : Kept console.currentEscape
  length : console.currentEscapeLength = pending.length
  starts : pending <+: console.currentEscape
  unfinished : Unfinished pending

theorem buffered_new : Buffered .new [] := ⟨kept_new, rfl, List.nil_prefix, .none⟩

/-- A byte that is written behind what the buffer starts with. -/
theorem put_eq (h : Kept escape) (hstarts : pending <+: escape) (hroom : pending.length < size)
    (c : Char) :
    ∃ tail, put escape pending.length c = some (pending ++ c :: tail) ∧
      (pending.length + 1 < size ∨ c = '\x00' → Kept (pending ++ c :: tail)) := by
  obtain ⟨tail, rfl⟩ := hstarts
  have hlength := h.length
  rw [List.length_append] at hlength
  rcases tail with - | ⟨old, tail⟩
  · rw [List.length_nil] at hlength
    omega
  refine ⟨tail, ?_, fun hlast => ⟨?_, ?_⟩⟩
  · rw [put, if_pos (by rw [List.length_append]; omega), List.set_append_right _ _ le_rfl,
      Nat.sub_self, List.set_cons_zero]
  · rw [← hlength, List.length_append, List.length_cons, List.length_cons]
  · have hold := h.last
    rw [List.length_cons] at hlength
    unfold size at hlast hlength hold hroom ⊢
    by_cases hend : pending.length = 63
    · rw [hlast.resolve_left (by omega), List.getElem?_append_right (by omega), hend]
      rfl
    · rw [List.getElem?_append_right (by omega)] at hold ⊢
      have hpos : 64 - 1 - pending.length = (64 - 2 - pending.length) + 1 := by omega
      rw [hpos, List.getElem?_cons_succ] at hold ⊢
      exact hold

/-- A string up to its null. -/
theorem cString_append_null (hs : '\x00' ∉ str) (tail : List Char) :
    cString (str ++ '\x00' :: tail) = str := by
  have hall : ∀ c ∈ str, decide (c ≠ '\x00') = true := fun c hc =>
    decide_eq_true fun hnull => hs (hnull ▸ hc)
  rw [cString, List.takeWhile_append_of_pos hall, List.takeWhile_cons_of_neg (by decide),
    List.append_nil]

/-- The first parameter ends where a semicolon or the sequence does. -/
theorem rendition_sequence (p : Palette) (hbody : ∀ c ∈ body, isLetter c = false ∧ c ≠ '\x00')
    (h : Kept (esc :: '[' :: body ++ 'm' :: tail)) :
    rendition p (esc :: '[' :: body ++ 'm' :: tail) =
      some (parameterCalls p (firstParameter (esc :: '[' :: body ++ ['m']))) := by
  have hends : ∀ c, (!(decide (c = ';') || decide (c = 'm'))) = !decide (Ends c) := fun c => by
    rw [decide_ends]
  have hfirst : firstParameter (esc :: '[' :: body ++ ['m']) =
      (body ++ ['m']).takeWhile fun c => !decide (Ends c) := by
    simp only [firstParameter, hends, List.cons_append, List.drop_succ_cons, List.drop_zero]
  have hsplit := List.takeWhile_append_dropWhile
    (p := fun c => !decide (Ends c)) (l := body ++ ['m'])
  rcases hrest : (body ++ ['m']).dropWhile (fun c => !decide (Ends c)) with - | ⟨e, rest⟩
  · -- the sequence ends in a letter that ends its last parameter
    have hall := List.dropWhile_eq_nil_iff.1 hrest 'm' (by simp)
    exact absurd hall (by decide)
  · have he : Ends e := by
      have hnot := List.head_dropWhile_not (p := fun c => !decide (Ends c)) (by rw [hrest]; simp)
      simpa [hrest] using hnot
    have hwithin : Within (firstParameter (esc :: '[' :: body ++ ['m'])) := by
      intro c hc
      rw [hfirst] at hc
      have hnot : ¬Ends c := by simpa using List.mem_takeWhile_imp hc
      refine ⟨hnot, ?_⟩
      rcases List.mem_append.1 (List.takeWhile_subset _ hc) with hc | hc
      · exact (hbody c hc).2
      · rw [List.mem_singleton.1 hc]
        decide
    rw [hrest, ← hfirst] at hsplit
    have hmove : body ++ 'm' :: tail =
        firstParameter (esc :: '[' :: body ++ ['m']) ++ e :: (rest ++ tail) := calc
      body ++ 'm' :: tail = (body ++ ['m']) ++ tail := by simp
      _ = firstParameter (esc :: '[' :: body ++ ['m']) ++ e :: rest ++ tail := by rw [hsplit]
      _ = firstParameter (esc :: '[' :: body ++ ['m']) ++ e :: (rest ++ tail) := by simp
    have hbuffer : esc :: '[' :: body ++ 'm' :: tail =
        esc :: '[' :: (firstParameter (esc :: '[' :: body ++ ['m']) ++ e :: (rest ++ tail)) :=
      congrArg (esc :: '[' :: ·) hmove
    rw [hbuffer] at h ⊢
    exact rendition_eq p h hwithin he

/-! ## A character -/

/-- Colours by their digit are colours. -/
theorem isColour_of_mem_map {d : Option (Fin 8)} {colour : Fin 8 → Call} {call : Call}
    (hcolour : ∀ i, (colour i).isColour = true) (h : call ∈ d.toList.map colour) :
    call.isColour = true := by
  obtain ⟨i, -, rfl⟩ := List.mem_map.1 h
  exact hcolour i

theorem isColour_of_mem_foreground {call : Call} (h : call ∈ foreground p c) :
    call.isColour = true := by
  unfold foreground at h
  split at h
  · rw [List.mem_singleton.1 h]
    rfl
  · exact isColour_of_mem_map (fun _ => rfl) h

theorem isColour_of_mem_background {call : Call} (h : call ∈ background p c) :
    call.isColour = true := by
  unfold background at h
  split at h
  · rw [List.mem_singleton.1 h]
    rfl
  · exact isColour_of_mem_map (fun _ => rfl) h

theorem isColour_of_mem_brightForeground {call : Call} (h : call ∈ brightForeground p c) :
    call.isColour = true := isColour_of_mem_map (fun _ => rfl) h

theorem isColour_of_mem_boldOff {call : Call} (h : call ∈ boldOff c) : call.isColour = true := by
  unfold boldOff at h
  split at h
  · rw [List.mem_singleton.1 h]
    rfl
  · cases h

/-- A colour is no text. -/
theorem isColour_of_mem_parameterCalls {call : Call} (h : call ∈ parameterCalls p param) :
    call.isColour = true := by
  unfold parameterCalls at h
  split at h
  · split_ifs at h with h0 h1
    · simp only [List.mem_cons, List.not_mem_nil, or_false] at h
      rcases h with rfl | rfl | rfl <;> rfl
    · rw [List.mem_singleton.1 h]
      rfl
    · cases h
  · split_ifs at h with h2 h3 h4 h9
    · exact isColour_of_mem_boldOff h
    · exact isColour_of_mem_foreground h
    · exact isColour_of_mem_background h
    · exact isColour_of_mem_brightForeground h
    · cases h
  · split_ifs at h with h1
    · exact isColour_of_mem_brightForeground h
    · cases h
  · cases h

theorem isColour_of_mem_colours {item : Item} {call : Call} (h : call ∈ item.colours p) :
    call.isColour = true := by
  cases item with
  | plain c => cases h
  | rejected s => cases h
  | sequence s =>
    rw [Item.colours] at h
    split at h
    · exact isColour_of_mem_parameterCalls h
    · cases h

theorem filter_colours (p : Palette) (item : Item) :
    (item.colours p).filter Call.isColour = item.colours p :=
  List.filter_eq_self.2 fun _ h => isColour_of_mem_colours h

theorem raw_colours (p : Palette) (item : Item) : (item.colours p).flatMap Call.raw = [] := by
  refine List.flatMap_eq_nil_iff.2 fun call h => ?_
  have hcolour := isColour_of_mem_colours h
  cases call with
  | writeRawText s => cases hcolour
  | _ => rfl

/-- **What a character is taken for**, and what is written then. -/
inductive Turn (pending past : List Char) (c : Char) (raw : List Char) (last : ℕ) :
    List Item → List Char → List Char → ℕ → Prop
  | plain : pending = [] → Turn pending past c raw last [.plain c] [] raw last
  | escape : pending = [] → Turn pending past c raw last [] [c] (raw ++ past.drop last) last
  | pending : pending ≠ [] → Turn pending past c raw last [] (pending ++ [c]) raw last
  | sequence : pending ≠ [] →
      Turn pending past c raw last [.sequence (pending ++ [c])] [] raw (past.length + 1)
  | rejected : pending ≠ [] →
      Turn pending past c raw last [.rejected (pending ++ [c])] [] (raw ++ (pending ++ [c])) 1

/-- What a call has written so far. -/
def Writing.raw (w : Writing) : List Char := w.calls.flatMap Call.raw

theorem accept_plain (hc : c ≠ esc) : accept [] c = ([.plain c], []) := if_pos ⟨rfl, hc⟩

/-- A sequence goes on. -/
theorem accept_of_open (hopen : ¬(pending = [] ∧ c ≠ esc)) : accept pending c =
    if (pending.length = 1 ∧ c ≠ '[') ∨ pending.length + 2 = size then
      ([.rejected (pending ++ [c])], [])
    else if isLetter c then ([.sequence (pending ++ [c])], [])
    else ([], pending ++ [c]) := if_neg hopen

/-- What goes on is unfinished still. -/
theorem Unfinished.append (h : Unfinished pending) (hc : c ≠ '\x00')
    (hopen : ¬(pending = [] ∧ c ≠ esc))
    (hgoes : ¬((pending.length = 1 ∧ c ≠ '[') ∨ pending.length + 2 = size))
    (hletter : isLetter c = false) : Unfinished (pending ++ [c]) := by
  cases h with
  | none =>
    have hesc : c = esc := not_not.1 fun hne => hopen ⟨rfl, hne⟩
    rw [hesc]
    exact .escape
  | escape =>
    have hbracket : c = '[' := not_not.1 fun hne => hgoes (Or.inl ⟨rfl, hne⟩)
    rw [hbracket]
    exact .sequence (fun c hc => absurd hc List.not_mem_nil) (by decide)
  | @sequence body hbody hroom =>
    rw [List.cons_append, List.cons_append]
    refine .sequence (fun d hd => ?_) ?_
    · rcases List.mem_append.1 hd with hd | hd
      · exact hbody d hd
      · rw [List.mem_singleton.1 hd]
        exact ⟨hletter, hc⟩
    · rw [not_or, List.length_cons, List.length_cons] at hgoes
      rw [List.length_append, List.length_singleton]
      omega

/-- Whether a sequence is closed, as it is tested of the buffer. -/
theorem rejects_iff (pending : List Char) (c : Char) (tail : List Char) :
    (pending.length + 1 = 2 ∧ (pending ++ c :: tail)[1]? ≠ some '[') ∨
        pending.length + 1 + 1 = size ↔
      (pending.length = 1 ∧ c ≠ '[') ∨ pending.length + 2 = size := by
  refine or_congr (and_congr_right_iff.2 fun hone => ?_) Iff.rfl |>.trans
    (or_congr_left (and_congr_left' (by omega)))
  have hlength : pending.length = 1 := by omega
  rw [List.getElem?_append_right (by omega), hlength]
  simp

/-- A sequence that is closed is more than the escape, and begun before. -/
theorem ne_nil_of_letter (hopen : ¬(pending = [] ∧ c ≠ esc)) (hletter : isLetter c = true) :
    pending ≠ [] := by
  rintro rfl
  have hesc : c = esc := not_not.1 fun hne => hopen ⟨rfl, hne⟩
  rw [hesc] at hletter
  exact absurd hletter (by decide)

/-- **What a finished sequence calls for** is said by its own characters. -/
theorem rendered_eq (p : Palette) (hunfinished : Unfinished pending) (hne : pending ≠ [])
    (hgoes : ¬((pending.length = 1 ∧ c ≠ '[') ∨ pending.length + 2 = size))
    (h : Kept (pending ++ c :: tail)) (goOn : List Call → Option Writing) :
    (if c = 'm' then (rendition p (pending ++ c :: tail)).bind goOn else goOn []) =
      goOn (Item.colours p (.sequence (pending ++ [c]))) := by
  simp only [Item.colours, List.getLast?_concat, Option.some.injEq]
  split
  · rename_i hm
    subst hm
    cases hunfinished with
    | none => exact absurd rfl hne
    | escape => exact absurd (Or.inl ⟨rfl, by decide⟩) hgoes
    | sequence hbody _ => rw [rendition_sequence p hbody h, Option.bind_some]
  · rfl

/-- **A turn of the loop** does with the buffer what the parser does with the
sequence it holds. -/
theorem writeChar_turn (p : Palette) (h : Buffered w.toConsole pending) (hc : c ≠ '\x00')
    (hstr : str.take past.length = past) :
    ∃ w', writeChar p str past.length c w = some w' ∧
      Buffered w'.toConsole (accept pending c).2 ∧
        Turn pending past c w.raw w.lastString (accept pending c).1 (accept pending c).2 w'.raw
          w'.lastString ∧
          w'.calls.filter Call.isColour =
            w.calls.filter Call.isColour ++ (accept pending c).1.flatMap (Item.colours p) := by
  obtain ⟨hkept, hlength, hstarts, hunfinished⟩ := h
  have hroom := hunfinished.length_le
  by_cases hopen : pending = [] ∧ c ≠ esc
  · obtain ⟨rfl, hne⟩ := hopen
    rw [accept_plain hne]
    refine ⟨w, ?_, ⟨hkept, hlength, hstarts, hunfinished⟩, .plain rfl, by simp [Item.colours]⟩
    rw [writeChar, if_neg]
    rw [hlength]
    exact fun hcon => hcon.elim hne fun hpos => Nat.lt_irrefl 0 hpos
  · obtain ⟨tail, hput, hkept'⟩ := put_eq hkept hstarts (by omega) c
    have hbegin : c = esc ∨ 0 < pending.length := by
      by_cases hnil : pending = []
      · exact Or.inl (not_not.1 fun hne => hopen ⟨hnil, hne⟩)
      · exact Or.inr (List.length_pos_iff.2 hnil)
    have hstarts' : pending ++ [c] <+: pending ++ c :: tail := ⟨tail, by simp⟩
    have hlength' : (pending ++ [c]).length = pending.length + 1 := by simp
    rw [accept_of_open hopen, writeChar, hlength, if_pos hbegin, hput, hstr]
    simp only [Option.bind_eq_bind, Option.bind_some]
    rw [if_congr (rejects_iff pending c tail) rfl rfl]
    by_cases hrejects : (pending.length = 1 ∧ c ≠ '[') ∨ pending.length + 2 = size
    · -- the sequence is written as the string the buffer holds
      have hne : pending ≠ [] := by
        rintro rfl
        simp [size] at hrejects
      have hpos : pending.length ≠ 0 := fun hzero => hne (List.length_eq_zero_iff.1 hzero)
      have hnull : '\x00' ∉ pending ++ [c] := by
        rw [List.mem_append, List.mem_singleton]
        exact fun hcon => hcon.elim hunfinished.null_notMem fun heq => hc heq.symm
      obtain ⟨tail', hput', hkept''⟩ :=
        put_eq (hkept' (Or.inl (by omega))) hstarts' (by omega) '\x00'
      rw [hlength'] at hput'
      simp only [if_pos hrejects, hput', Option.bind_some, if_neg hpos,
        cString_append_null hnull tail']
      refine ⟨_, rfl, ⟨hkept'' (Or.inr rfl), rfl, List.nil_prefix, .none⟩, ?_, ?_⟩
      · simp only [Writing.raw, List.flatMap_append, List.flatMap_singleton]
        exact .rejected hne
      · simp [Call.isColour, Item.colours]
    · rw [if_neg hrejects, if_neg hrejects]
      have hkept' := hkept' (Or.inl (by omega))
      by_cases hletter : isLetter c = true
      · have hne := ne_nil_of_letter hopen hletter
        have hpos : pending.length ≠ 0 := fun hzero => hne (List.length_eq_zero_iff.1 hzero)
        simp only [if_pos hletter, if_neg hpos]
        refine ⟨_, rendered_eq p hunfinished hne hrejects hkept' fun rendered =>
            some ⟨⟨pending ++ c :: tail, 0⟩, past.length + 1, w.calls ++ rendered⟩,
          ⟨hkept', rfl, List.nil_prefix, .none⟩, ?_, ?_⟩
        · have hraw : (w.calls ++ Item.colours p (.sequence (pending ++ [c]))).flatMap Call.raw =
              w.raw := by
            rw [List.flatMap_append, raw_colours, List.append_nil]
            rfl
          simp only [Writing.raw] at hraw ⊢
          rw [hraw]
          exact .sequence hne
        · rw [List.filter_append, filter_colours, List.flatMap_singleton]
      · have hunfinished' := hunfinished.append hc hopen hrejects (Bool.not_eq_true _ ▸ hletter)
        simp only [if_neg hletter]
        refine ⟨_, rfl, ⟨hkept', hlength'.symm, hstarts', hunfinished'⟩, ?_, ?_⟩
        · by_cases hnil : pending = []
          · subst hnil
            simp only [Writing.raw, List.length_nil, if_true, List.flatMap_append,
              List.flatMap_singleton]
            exact .escape rfl
          · have hpos : pending.length ≠ 0 := fun hzero => hnil (List.length_eq_zero_iff.1 hzero)
            simp only [Writing.raw, if_neg hpos]
            exact .pending hnil
        · rw [List.flatMap_nil, List.append_nil]
          split
          · rw [List.filter_append]
            exact List.append_nil _
          · rfl

/-! ## A call -/

/-- What is still to be written of the text so far: of a sequence nothing. -/
def unwritten (past : List Char) (last : ℕ) (pending : List Char) : List Char :=
  if pending = [] then past.drop last else []

/-- **At least what is shown has been written**, and more once a sequence that
was begun in the call is rejected: what is written next is then the call's text
from its second character on. -/
structure Written (before past raw : List Char) (last : ℕ) (r : Parsed) : Prop where
  last_le : last ≤ past.length
  begun : r.pending ≠ [] → last < past.length ∨ past = [] ∧ before ≠ []
  least : (r.items.flatMap Item.shown).length ≤ (raw ++ unwritten past last r.pending).length
  more : before = [] → (∃ item ∈ r.items, item.IsRejected) →
    (r.items.flatMap Item.shown).length < (raw ++ unwritten past last r.pending).length
  exactly : before = [] → (∀ item ∈ r.items, ¬item.IsRejected) →
    raw ++ unwritten past last r.pending = r.items.flatMap Item.shown

variable {before raw raw' pending' : List Char} {last last' : ℕ} {r : Parsed} {items : List Item}

theorem written_new (before : List Char) : Written before [] [] 0 ⟨[], before⟩ where
  last_le := le_rfl
  begun hne := Or.inr ⟨rfl, hne⟩
  least := Nat.zero_le _
  more _ h := by
    obtain ⟨item, hitem, -⟩ := h
    cases hitem
  exactly hbefore _ := by
    rw [hbefore]
    rfl

/-- **A turn writes what it shows.** -/
theorem Written.turn (h : Written before past raw last r)
    (hturn : Turn r.pending past c raw last items pending' raw' last') :
    Written before (past ++ [c]) raw' last' ⟨r.items ++ items, pending'⟩ := by
  obtain ⟨parsed, pending⟩ := r
  obtain ⟨hle, hbegun, hleast, hmore, hexactly⟩ := h
  have hdrop : (past ++ [c]).drop last = past.drop last ++ [c] :=
    List.drop_append_of_le_length hle
  have hlength : (past ++ [c]).length = past.length + 1 := by simp
  cases hturn with
  | plain hnil =>
    obtain rfl : pending = [] := hnil
    simp only [unwritten, if_true] at hleast hmore hexactly
    have hrejected : (∃ item ∈ parsed ++ [.plain c], item.IsRejected) ↔
        ∃ item ∈ parsed, item.IsRejected := by simp [Item.IsRejected, or_and_right, exists_or]
    refine ⟨by omega, fun hcon => absurd rfl hcon, ?_, fun hbefore hitem => ?_,
      fun hbefore hitem => ?_⟩
    · simp [unwritten, hdrop, Item.shown] at hleast ⊢
      omega
    · have hlt := hmore hbefore (hrejected.1 hitem)
      simp [unwritten, hdrop, Item.shown] at hlt ⊢
      omega
    · have heq := hexactly hbefore fun item hin => hitem item (List.mem_append_left _ hin)
      simp only [unwritten, if_true, hdrop, List.flatMap_append, List.flatMap_singleton,
        Item.shown, ← heq, List.append_assoc]
  | escape hnil =>
    obtain rfl : pending = [] := hnil
    simp only [unwritten, if_true] at hleast hmore hexactly
    refine ⟨by omega, fun _ => Or.inl (by omega), ?_, fun hbefore hitem => ?_,
      fun hbefore hitem => ?_⟩
    · simpa [unwritten] using hleast
    · have hlt := hmore hbefore (by simpa using hitem)
      simpa [unwritten] using hlt
    · have heq := hexactly hbefore (by simpa using hitem)
      simpa [unwritten] using heq
  | pending hne =>
    simp only [unwritten, if_neg hne] at hleast hmore hexactly
    have hne' : pending ++ [c] ≠ [] := by simp
    refine ⟨by omega, fun _ => Or.inl ?_, ?_, fun hbefore hitem => ?_, fun hbefore hitem => ?_⟩
    · rcases hbegun hne with hlt | ⟨rfl, -⟩ <;> omega
    · simpa [unwritten, hne'] using hleast
    · have hlt := hmore hbefore (by simpa using hitem)
      simpa [unwritten, hne'] using hlt
    · have heq := hexactly hbefore (by simpa using hitem)
      simpa [unwritten, hne'] using heq
  | sequence hne =>
    simp only [unwritten, if_neg hne, List.append_nil] at hleast hmore hexactly
    have hdrop : (past ++ [c]).drop (past.length + 1) = [] := List.drop_eq_nil_of_le (by omega)
    have hrejected : (∃ item ∈ parsed ++ [.sequence (pending ++ [c])], item.IsRejected) ↔
        ∃ item ∈ parsed, item.IsRejected := by simp [Item.IsRejected, or_and_right, exists_or]
    refine ⟨by omega, fun hcon => absurd rfl hcon, ?_, fun hbefore hitem => ?_,
      fun hbefore hitem => ?_⟩
    · simpa [unwritten, hdrop, Item.shown] using hleast
    · have hlt := hmore hbefore (hrejected.1 hitem)
      simpa [unwritten, hdrop, Item.shown] using hlt
    · have heq := hexactly hbefore fun item hin => hitem item (List.mem_append_left _ hin)
      simpa [unwritten, hdrop, Item.shown] using heq
  | rejected hne =>
    simp only [unwritten, if_neg hne, List.append_nil] at hleast
    refine ⟨by omega, fun hcon => absurd rfl hcon, ?_, fun hbefore _ => ?_,
      fun _ hitem => absurd trivial (hitem (.rejected (pending ++ [c])) (by simp))⟩
    · simp only [unwritten, if_true, List.flatMap_append, List.flatMap_singleton, Item.shown,
        List.length_append]
      omega
    · -- what stands before the sequence or in it is written again
      have hlt := (hbegun hne).resolve_right fun hcon => hcon.2 hbefore
      simp only [unwritten, if_true, List.flatMap_append, List.flatMap_singleton, Item.shown,
        List.length_append, List.length_drop, hlength]
      omega

/-- **The loop** writes and parses the rest of the text. -/
theorem writeLoop_eq (p : Palette) (hstr : str = past ++ rest) (hnull : '\x00' ∉ rest)
    (hbuffered : Buffered w.toConsole r.pending)
    (hwritten : Written before past w.raw w.lastString r)
    (hcolours : w.calls.filter Call.isColour = r.items.flatMap (Item.colours p)) :
    ∃ w', writeLoop p str past.length rest w = some w' ∧
      Buffered w'.toConsole (run Parsed.step r rest).pending ∧
        Written before str w'.raw w'.lastString (run Parsed.step r rest) ∧
          w'.calls.filter Call.isColour =
            (run Parsed.step r rest).items.flatMap (Item.colours p) := by
  induction rest generalizing past w r with
  | nil =>
    rw [List.append_nil] at hstr
    exact ⟨w, rfl, hbuffered, hstr ▸ hwritten, hcolours⟩
  | cons c rest ih =>
    rw [List.mem_cons, not_or] at hnull
    have htake : str.take past.length = past := by rw [hstr, List.take_left]
    obtain ⟨w₁, hcall, hbuffered₁, hturn, hcolours₁⟩ :=
      writeChar_turn p hbuffered (fun heq => hnull.1 heq.symm) htake
    have hrest : str = (past ++ [c]) ++ rest := by rw [hstr, List.append_assoc]; rfl
    obtain ⟨w', hloop, hresult⟩ := ih hrest hnull.2 (r := r.step c) hbuffered₁
      (hwritten.turn hturn) (by rw [hcolours₁, hcolours, Parsed.step, List.flatMap_append])
    rw [List.length_append, List.length_singleton] at hloop
    refine ⟨w', ?_, hresult⟩
    rw [writeLoop, hcall]
    exact hloop

/-- What a call has called for, on top of what is shown of its text. -/
theorem writeText_eq (p : Palette) (h : Buffered console before) (str : List Char) :
    ∃ console' calls, writeText p console str = some (console', calls) ∧
      Buffered console' (parse before (cString str)).pending ∧
        calls.filter Call.isColour =
          (parse before (cString str)).items.flatMap (Item.colours p) ∧
          ((parse before (cString str)).items.flatMap Item.shown).length ≤
            (calls.flatMap Call.raw).length ∧
            (before = [] →
              (Whole (cString str) → calls.flatMap Call.raw =
                (parse before (cString str)).items.flatMap Item.shown) ∧
              (¬Whole (cString str) →
                ((parse before (cString str)).items.flatMap Item.shown).length <
                  (calls.flatMap Call.raw).length)) := by
  obtain ⟨w, hloop, hbuffered, hwritten, hcolours⟩ := writeLoop_eq p (w := ⟨console, 0, []⟩)
    (List.nil_append (cString str)).symm String8.null_notMem_cString h (written_new before) rfl
  have hwritten : Written before (cString str) w.raw w.lastString (parse before (cString str)) :=
    hwritten
  have hraw : (w.calls ++ [Call.writeRawText ((cString str).drop w.lastString)]).flatMap Call.raw =
      w.raw ++ (cString str).drop w.lastString := by
    rw [List.flatMap_append, List.flatMap_singleton]
    rfl
  have hle : (w.raw ++ unwritten (cString str) w.lastString
        (parse before (cString str)).pending).length ≤
      (w.raw ++ (cString str).drop w.lastString).length := by
    rw [unwritten]
    split <;> simp
  refine ⟨w.toConsole, w.calls ++ [.writeRawText ((cString str).drop w.lastString)], ?_, hbuffered,
    ?_, ?_, fun hbefore => ?_⟩
  · rw [writeText]
    simp only [List.length_nil] at hloop
    simp only [hloop, Option.bind_eq_bind, Option.bind_some]
  · rw [List.filter_append, hcolours]
    exact List.append_nil _
  · rw [hraw]
    exact Nat.le_trans hwritten.least hle
  · subst hbefore
    rw [hraw]
    refine ⟨fun hwhole => ?_, fun hnot => ?_⟩
    · have hexactly := hwritten.exactly rfl hwhole.1
      rwa [unwritten, if_pos hwhole.2] at hexactly
    · by_cases hnone : ∀ item ∈ (parse [] (cString str)).items, ¬item.IsRejected
      · -- what is withheld of the sequence it ends in is written all the same
        have hne : (parse [] (cString str)).pending ≠ [] := fun hnil => hnot ⟨hnone, hnil⟩
        have hlt := (hwritten.begun hne).resolve_right fun hcon => hcon.2 rfl
        have hleast := hwritten.least
        have hnothing : unwritten (cString str) w.lastString
            (parse [] (cString str)).pending = [] := if_neg hne
        rw [hnothing, List.append_nil] at hleast
        rw [List.length_append, List.length_drop]
        exact Nat.lt_of_le_of_lt hleast (by omega)
      · simp only [not_forall, not_not] at hnone
        obtain ⟨item, hitem, hrejected⟩ := hnone
        exact Nat.lt_of_lt_of_le (hwritten.more rfl ⟨item, hitem, hrejected⟩) hle

/-! ## What a text is taken apart into -/

/-- **Nothing is lost and nothing is made up.** -/
theorem source_parse (before text : List Char) :
    (parse before text).items.flatMap Item.source ++ (parse before text).pending =
      before ++ text := by
  have hfrom : ∀ (text : List Char) (r : Parsed),
      (run Parsed.step r text).items.flatMap Item.source ++ (run Parsed.step r text).pending =
        r.items.flatMap Item.source ++ r.pending ++ text := by
    intro text
    induction text with
    | nil =>
      intro r
      rw [run_nil, List.append_nil]
    | cons c text ih =>
      intro r
      have hstep : (accept r.pending c).1.flatMap Item.source ++ (accept r.pending c).2 =
          r.pending ++ [c] := by
        unfold accept
        split_ifs with hplain <;> simp_all [Item.source]
      rw [run_cons, ih, Parsed.step, List.flatMap_append, List.append_assoc _ _ (accept _ _).2,
        hstep]
      simp
  exact hfrom text ⟨[], before⟩

/-- **An item is what it is said to be**: a sequence is closed by its only
letter and fits, and one that is rejected goes on in no bracket or has no room
to go on. -/
def Item.WellFormed : Item → Prop
  | .plain c => c ≠ esc
  | .sequence s => ∃ pending c, s = pending ++ [c] ∧ Unfinished pending ∧ isLetter c = true ∧
      2 ≤ pending.length ∧ s.length + 2 ≤ size
  | .rejected s => ∃ pending c, s = pending ++ [c] ∧ Unfinished pending ∧
      (pending.length = 1 ∧ c ≠ '[' ∨ s.length + 1 = size)

theorem wellFormed_accept (h : Unfinished pending) {item : Item}
    (hitem : item ∈ (accept pending c).1) : item.WellFormed := by
  unfold accept at hitem
  split_ifs at hitem with hplain hrejects hletter
  · rw [List.mem_singleton.1 hitem]
    exact hplain.2
  · rw [List.mem_singleton.1 hitem]
    refine ⟨pending, c, rfl, h, hrejects.imp_right fun hfull => ?_⟩
    rw [List.length_append, List.length_singleton]
    omega
  · rw [List.mem_singleton.1 hitem]
    rw [not_or] at hrejects
    have hroom := h.length_le
    have hne := ne_nil_of_letter hplain hletter
    have hpos : 0 < pending.length := List.length_pos_iff.2 hne
    have hmore : pending.length ≠ 1 := by
      intro hone
      refine hrejects.1 ⟨hone, fun hbracket => ?_⟩
      rw [hbracket] at hletter
      exact absurd hletter (by decide)
    refine ⟨pending, c, rfl, h, hletter, by omega, ?_⟩
    rw [List.length_append, List.length_singleton]
    omega
  · cases hitem

theorem unfinished_accept (h : Unfinished pending) (hc : c ≠ '\x00') :
    Unfinished (accept pending c).2 := by
  by_cases hopen : pending = [] ∧ c ≠ esc
  · rw [accept, if_pos hopen]
    exact .none
  · rw [accept_of_open hopen]
    split_ifs with hrejects hletter
    · exact .none
    · exact .none
    · exact h.append hc hopen hrejects (Bool.not_eq_true _ ▸ hletter)

/-- **So is every item of a text.** -/
theorem wellFormed_parse (text : List Char) (hnull : '\x00' ∉ text) :
    Unfinished (parse [] text).pending ∧ ∀ item ∈ (parse [] text).items, item.WellFormed := by
  suffices hfrom : ∀ r : Parsed, Unfinished r.pending → (∀ item ∈ r.items, item.WellFormed) →
      Unfinished (run Parsed.step r text).pending ∧
        ∀ item ∈ (run Parsed.step r text).items, item.WellFormed from
    hfrom ⟨[], []⟩ .none fun item hitem => absurd hitem List.not_mem_nil
  induction text with
  | nil => exact fun r hpending hitems => ⟨hpending, hitems⟩
  | cons c text ih =>
    intro r hpending hitems
    rw [List.mem_cons, not_or] at hnull
    refine ih hnull.2 (r.step c) (unfinished_accept hpending fun heq => hnull.1 heq.symm) ?_
    intro item hitem
    rcases List.mem_append.1 hitem with hitem | hitem
    · exact hitems item hitem
    · exact wellFormed_accept hpending hitem

/-! ## The result -/

/-- A text is parsed in parts. -/
theorem parse_append (before text text' : List Char) :
    (parse before (text ++ text')).items =
        (parse before text).items ++ (parse (parse before text).pending text').items ∧
      (parse before (text ++ text')).pending =
        (parse (parse before text).pending text').pending := by
  have hfrom : ∀ (text : List Char) (r : Parsed), run Parsed.step r text =
      ⟨r.items ++ (parse r.pending text).items, (parse r.pending text).pending⟩ := by
    intro text
    induction text with
    | nil =>
      intro r
      simp [parse]
    | cons c text ih =>
      intro r
      have hcons : parse r.pending (c :: text) =
          ⟨(accept r.pending c).1 ++ (parse (accept r.pending c).2 text).items,
            (parse (accept r.pending c).2 text).pending⟩ := by
        rw [parse, run_cons, ih]
        rfl
      rw [run_cons, ih, hcons, Parsed.step, List.append_assoc]
  have hsplit : parse before (text ++ text') = run Parsed.step (parse before text) text' := by
    rw [parse, run_append, parse]
  rw [hsplit, hfrom]
  exact ⟨rfl, rfl⟩

/-- Calls write at least what is shown, whatever they begin in. -/
theorem writeTexts_least (p : Palette) (h : Buffered console before) (strs : List (List Char)) :
    ∃ console' calls, writeTexts p console strs = some (console', calls) ∧
      calls.filter Call.isColour =
        (parse before (strs.flatMap cString)).items.flatMap (Item.colours p) ∧
        ((parse before (strs.flatMap cString)).items.flatMap Item.shown).length ≤
          (calls.flatMap Call.raw).length := by
  induction strs generalizing console before with
  | nil => exact ⟨console, [], rfl, rfl, le_rfl⟩
  | cons str strs ih =>
    obtain ⟨console₁, calls₁, hcall, hbuffered, hcolours, hleast, -⟩ := writeText_eq p h str
    obtain ⟨console', calls, hrest, hcolours', hleast'⟩ := ih hbuffered
    refine ⟨console', calls₁ ++ calls, ?_, ?_, ?_⟩
    · rw [writeTexts, hcall]
      simp only [Option.bind_eq_bind, Option.bind_some, hrest]
    · rw [List.flatMap_cons, (parse_append _ _ _).1, List.filter_append, List.flatMap_append,
        hcolours, hcolours']
    · rw [List.flatMap_cons, (parse_append _ _ _).1, List.flatMap_append, List.flatMap_append,
        List.length_append, List.length_append]
      omega

/-- From outside a sequence they write just that where every text is whole. -/
theorem writeTexts_exactly (p : Palette) (h : Buffered console []) {calls : List Call}
    {console' : Console} {strs : List (List Char)}
    (hcall : writeTexts p console strs = some (console', calls)) :
    calls.flatMap Call.raw = (parse [] (strs.flatMap cString)).items.flatMap Item.shown ↔
      ∀ str ∈ strs, Whole (cString str) := by
  induction strs generalizing console calls console' with
  | nil =>
    rw [writeTexts, Option.some.injEq, Prod.mk.injEq] at hcall
    obtain ⟨-, rfl⟩ := hcall
    exact iff_of_true rfl fun str hstr => absurd hstr List.not_mem_nil
  | cons str strs ih =>
    obtain ⟨console₁, calls₁, hfirst, hbuffered, -, -, hwhole⟩ := writeText_eq p h str
    obtain ⟨hexactly, hmore⟩ := hwhole rfl
    obtain ⟨console₂, rest, hrest, -, hleast⟩ := writeTexts_least p hbuffered strs
    have hcalls : calls = calls₁ ++ rest := by
      rw [writeTexts, hfirst] at hcall
      simp only [Option.bind_eq_bind, Option.bind_some, hrest, Option.some.injEq,
        Prod.mk.injEq] at hcall
      exact hcall.2.symm
    rw [hcalls, List.forall_mem_cons, List.flatMap_cons, (parse_append _ _ _).1,
      List.flatMap_append, List.flatMap_append]
    by_cases hstr : Whole (cString str)
    · rw [hstr.2] at hbuffered ⊢
      rw [hexactly hstr, List.append_cancel_left_eq, and_iff_right hstr]
      exact ih hbuffered hrest
    · refine iff_of_false (fun heq => ?_) fun hcon => hstr hcon.1
      have hlength := congrArg List.length heq
      have hlt := hmore hstr
      rw [List.length_append, List.length_append] at hlength
      omega

/-- **Text is shown as it is made up exactly when each call's is whole**:
nothing in it is rejected, and it ends outside a sequence. -/
theorem shows_iff (p : Palette) (strs : List (List Char)) :
    Shows p strs ↔ ∀ str ∈ strs, Whole (cString str) := by
  obtain ⟨console', calls, hcall, hcolours, -⟩ := writeTexts_least p buffered_new strs
  have hexactly := writeTexts_exactly p buffered_new hcall
  refine ⟨fun ⟨console₁, calls₁, hcall₁, hraw, _⟩ => ?_, fun hwhole => ?_⟩
  · rw [hcall, Option.some.injEq, Prod.mk.injEq] at hcall₁
    obtain ⟨rfl, rfl⟩ := hcall₁
    exact hexactly.1 hraw
  · exact ⟨console', calls, hcall, hexactly.2 hwhole, hcolours⟩

/-- **A rejected sequence is shown twice**, and what stands before it too, but
for the first character. -/
theorem not_shows_rejected :
    ¬Shows ⟨fun _ => 0, fun _ => 0⟩ [['a', 'b', '\x1b', 'c', 'd']] := by
  rintro ⟨console, calls, hcall, hraw, -⟩
  have hcalls : (writeTexts ⟨fun _ => 0, fun _ => 0⟩ .new
      [['a', 'b', '\x1b', 'c', 'd']]).map Prod.snd =
        some [.writeRawText ['a', 'b'], .writeRawText ['\x1b', 'c'],
          .writeRawText ['b', '\x1b', 'c', 'd']] := by rfl
  rw [hcall, Option.map_some, Option.some.injEq] at hcalls
  subst hcalls
  revert hraw
  decide

end ConsoleOut

end Uberos
