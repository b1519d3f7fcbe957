import Uberos.Ps2Keyboard.Model
/-!
# What a stream of bytes means

A buffer that waits holds the beginning of one encoding and no more, so
that each byte either completes it or is kept. So the keys after a stream
are those after its encodings, one by one, whatever interrupts it came in;
and `translation` is indexed inside its bounds unless a byte is read whose
code is the first past its end, which `code>sizeof(translation)` lets
through.
-/

namespace Uberos

open Library

namespace Ps2Keyboard

/-! ## Encodings -/

/-- A make or break code of set 1. -/
inductive Encoding
  | plain (code : BitVec 8) (hplain : code ≠ 0xe0 ∧ code ≠ 0xe1)
  | extended (code : BitVec 8)
  | pause

/-- Its bytes. -/
def Encoding.bytes : Encoding → List (BitVec 8)
  | .plain code _ => [code]
  | .extended code => [0xe0, code]
  | .pause => [0xe1, 0x1d, 0x45, 0xe1, 0x9d, 0xc5]

namespace Keys

variable (layout : Layout) (k : Keys)

/-- A key is pressed or released. -/
def key (key : ScancodeUk) (isDown : Bool) : Keys :=
  (k.set key.scancode isDown).triggerKey layout key.scancode isDown

/-- What an encoding does. -/
def decode : Encoding → Keys
  | .plain code _ =>
    match translation[(code &&& 0x7f).toNat]?.join with
    | some key =>
      let pressed := k.set key.scancode (isDown code)
      if isDown code ∧ key = .pause ∧ pressed.control ∧ pressed.isPressed .alt then
        { pressed with panicked := true }
      else k.key layout key (isDown code)
    | none => k.warn (.hex8 (code &&& 0x7f) (isDown code))
  | .extended code =>
    match Ps2Keyboard.extended (code &&& 0x7f).toNat with
    | .scancode key => k.key layout key (isDown code)
    | .action name =>
      if isDown code then k.triggerEvent layout (.actionPressed name) else k
    | .fakeShift => k
    | .unsupported => k.warn (.hex16 (0xe0#8 ++ (code &&& 0x7f)) (isDown code))
  | .pause => (k.key layout .scrollLock true).key layout .scrollLock false

/-- One after another, until one of them panics. -/
def decodeAll (k : Keys) : List Encoding → Keys
  | [] => k
  | encoding :: encodings =>
    if k.panicked then k else decodeAll (k.decode layout encoding) encodings

end Keys

/-! ## Scancodes -/

theorem scancode_ne_zero (key : ScancodeUk) : key.scancode ≠ 0 := by
  cases key <;> decide

theorem scancode_eq_pause {key : ScancodeUk} :
    key.scancode = ScancodeUk.pause.scancode ↔ key = .pause := by
  refine ⟨fun h => ?_, fun h => congrArg _ h⟩
  cases key <;> first | rfl | exact absurd h (by decide)

theorem length_translation : translation.length = 0x6c := rfl

/-- `code & (code & 0b01111111)`. -/
theorem and_and_seven : ∀ code : BitVec 8, code &&& (code &&& 0b01111111) = code &&& 0x7f := by
  decide +kernel

/-- What the two bytes come to when they are put together. -/
theorem code16_spec : ∀ first ∈ [0xe0#8, 0xe1#8], ∀ code : BitVec 8,
    let code16 : BitVec 16 := first.setWidth 16 <<< 8 ||| code.setWidth 16
    decide (code16 &&& 0b10000000 = 0) = isDown code ∧
      code16 &&& (code16 &&& 0b1111111101111111) = first ++ (code &&& 0x7f) ∧
      (first ++ (code &&& 0x7f)) &&& 0xff = (code &&& 0x7f).setWidth 16 := by
  decide +kernel

theorem setWidth_eq_iff (code : BitVec 8) :
    (code &&& 0x7f).setWidth 16 = 0x1d ↔ code &&& 0x7f = 0x1d := by
  revert code
  decide +kernel

/-! ## The passes -/

namespace Keyboard

variable {layout : Layout} {beyond : Keyboard → Scancode} {k : Keyboard} {code : BitVec 8}

theorem code16_of_buffer {rest : List (BitVec 8)} {first : BitVec 8}
    (hbuffer : k.readBuffer = first :: code :: rest) :
    k.code16 = first.setWidth 16 <<< 8 ||| code.setWidth 16 := by
  rw [code16, byte, byte, hbuffer]
  rfl

/-- Two bytes are all of what `0xe0` begins. -/
theorem passExtended_eq (hbuffer : k.readBuffer = [0xe0, code]) : k.passExtended layout =
    (true, { k with readBuffer := [], keys := k.keys.decode layout (.extended code) }) := by
  obtain ⟨hdown, hcode, hlow⟩ := code16_spec 0xe0 (by simp) code
  have hlength : ¬ k.readBuffer.length < 2 := by
    rw [hbuffer]
    simp
  have hconsume : k.consume 2 = { k with readBuffer := [] } := by
    rw [consume, hbuffer]
    rfl
  have htoNat : ((code &&& 0x7f).setWidth 16).toNat = (code &&& 0x7f).toNat := by
    rw [BitVec.toNat_setWidth]
    have hlt := (code &&& 0x7f).isLt
    omega
  rw [passExtended, if_neg hlength, code16_of_buffer hbuffer]
  dsimp only
  rw [hdown, hcode, hlow, hconsume, htoNat, Keys.decode]
  cases extended (code &&& 0x7f).toNat with
  | fakeShift => rfl
  | unsupported => rfl
  | scancode key =>
    have hne : key.scancode ≠ 0#8 := scancode_ne_zero key
    simp [Extended.toScancode, Extended.toAction, hne, withKeys, Keys.key]
  | action name => simp [Extended.toScancode, Extended.toAction, withKeys]

/-- With a code that is not `0x1d` they are of what `0xe1` begins. -/
theorem passPause_of_ne (layout : Layout) (hbuffer : k.readBuffer = [0xe1, code])
    (hcode : code &&& 0x7f ≠ 0x1d) :
    k.passPause layout = (true, { k with
      readBuffer := [], keys := k.keys.warn (.hex16 (0xe1#8 ++ (code &&& 0x7f)) (isDown code)) }) := by
  obtain ⟨hdown, hlow, hsecond⟩ := code16_spec 0xe1 (by simp) code
  have hlength : ¬ k.readBuffer.length < 2 := by
    rw [hbuffer]
    simp
  have hother : ¬ (code &&& 0x7f).setWidth 16 = 0x1d := by
    rw [setWidth_eq_iff]
    exact hcode
  rw [passPause, if_neg hlength, code16_of_buffer hbuffer]
  dsimp only
  rw [hdown, hlow, hsecond, if_neg hother, consume, hbuffer]
  rfl

/-- With `0x1d` it is six. -/
theorem passPause_of_lt {rest : List (BitVec 8)} (hbuffer : k.readBuffer = 0xe1 :: code :: rest)
    (hcode : code &&& 0x7f = 0x1d) (hrest : rest.length < 4) :
    k.passPause layout = (false, k) := by
  obtain ⟨-, hlow, hsecond⟩ := code16_spec 0xe1 (by simp) code
  have hlength : k.readBuffer.length = rest.length + 2 := by
    rw [hbuffer]
    rfl
  have hsame : (code &&& 0x7f).setWidth 16 = 0x1d := (setWidth_eq_iff code).2 hcode
  rw [passPause, if_neg (by omega), code16_of_buffer hbuffer]
  dsimp only
  rw [hlow, hsecond, if_pos hsame, if_pos (by omega)]

/-- Six bytes are consumed, whatever they are. -/
theorem passPause_of_six (layout : Layout) {rest : List (BitVec 8)}
    (hbuffer : k.readBuffer = 0xe1 :: code :: rest)
    (hcode : code &&& 0x7f = 0x1d) (hrest : rest.length = 4) :
    (k.passPause layout).1 = true ∧ (k.passPause layout).2.readBuffer = [] ∧
      (k.passPause layout).2.indexed = k.indexed := by
  obtain ⟨-, hlow, hsecond⟩ := code16_spec 0xe1 (by simp) code
  have hlength : k.readBuffer.length = 6 := by
    rw [hbuffer, List.length_cons, List.length_cons, hrest]
  have hsame : (code &&& 0x7f).setWidth 16 = 0x1d := (setWidth_eq_iff code).2 hcode
  have hconsume : k.readBuffer.drop 6 = [] := List.drop_of_length_le (by omega)
  rw [passPause, if_neg (by omega), code16_of_buffer hbuffer]
  dsimp only
  rw [hlow, hsecond, if_pos hsame, if_neg (by omega)]
  split
  · exact ⟨rfl, hconsume, rfl⟩
  · exact ⟨rfl, hconsume, rfl⟩

/-- The six of the pause key press and release what they are taken for. -/
theorem passPause_pause (hbuffer : k.readBuffer = Encoding.pause.bytes) :
    (k.passPause layout).2.keys = k.keys.decode layout .pause := by
  have hcode : k.code16 = 0xe11d := by
    rw [code16, byte, byte, hbuffer]
    decide
  rw [passPause, if_neg (by rw [hbuffer]; decide), hcode]
  dsimp only
  rw [if_pos (by decide), if_neg (by rw [hbuffer]; decide), if_pos]
  · rfl
  · simp only [byte, hbuffer]
    decide

/-! ## A byte -/

/-- **One that begins nothing is a code of its own.** -/
theorem passPlain_spec (layout : Layout) (beyond : Keyboard → Scancode)
    (hbuffer : k.readBuffer = [code]) :
    (k.passPlain layout beyond).2.readBuffer = [] ∧
      (k.passPlain layout beyond).2.indexed =
        k.indexed ++ (if 0x6c < (code &&& 0x7f).toNat then [] else [code &&& 0x7f]) := by
  have hbyte : k.byte 0 = code := by
    rw [byte, hbuffer]
    rfl
  have hconsume : k.consume 1 = { k with readBuffer := [] } := by
    rw [consume, hbuffer]
    rfl
  rw [passPlain]
  dsimp only
  rw [hbyte, and_and_seven, hconsume, length_translation]
  split
  · exact ⟨rfl, (List.append_nil _).symm⟩
  · split
    · exact ⟨rfl, rfl⟩
    · split
      · exact ⟨rfl, rfl⟩
      · exact ⟨rfl, rfl⟩

/-- And it does what it means, unless it is the first past the table. -/
theorem keys_passPlain (hbuffer : k.readBuffer = [code]) (hplain : code ≠ 0xe0 ∧ code ≠ 0xe1)
    (hinside : (code &&& 0x7f).toNat ≠ 0x6c) :
    (k.passPlain layout beyond).2.keys = k.keys.decode layout (.plain code hplain) := by
  have hbyte : k.byte 0 = code := by
    rw [byte, hbuffer]
    rfl
  rw [passPlain, Keys.decode]
  dsimp only
  rw [hbyte, and_and_seven]
  rcases Nat.lt_or_gt_of_ne hinside with hlt | hgt
  · rw [if_neg (by rw [length_translation]; omega)]
    have hentry : translation[(code &&& 0x7f).toNat]? = some translation[(code &&& 0x7f).toNat] :=
      List.getElem?_eq_getElem hlt
    rw [hentry]
    cases translation[(code &&& 0x7f).toNat] with
    | none => rfl
    | some key =>
      have hkeys : (k.consume 1).keys = k.keys := rfl
      simp only [Option.map_some, Option.getD_some, scancodeOf, Option.join_some, scancode_ne_zero,
        scancode_eq_pause, hkeys, if_false]
      split
      · rfl
      · rfl
  · rw [if_pos (by rw [length_translation]; omega), List.getElem?_eq_none (by
      rw [length_translation]; omega)]
    rfl

/-! ## Receiving a byte -/

variable {data : BitVec 8}

/-- The driver with a byte that is not looked at yet. -/
abbrev push (k : Keyboard) (data : BitVec 8) : Keyboard :=
  { k with readBuffer := k.readBuffer ++ [data] }

theorem push_ne_nil : (k.push data).readBuffer ≠ [] := by
  simp

/-- A pass that consumes all there is is the last. -/
theorem receive_of_empty (hpanicked : k.keys.panicked = false)
    (hempty : ((k.push data).pass layout beyond).2.readBuffer = []) :
    k.receive layout beyond data = ((k.push data).pass layout beyond).2 := by
  have hloop : processBuffer layout beyond (k.push data) =
      ((k.push data).pass layout beyond).2 := by
    rw [processBuffer, dif_neg push_ne_nil]
    split
    · rw [processBuffer, dif_pos hempty]
    · rfl
  rw [receive, if_neg (by simp [hpanicked])]
  dsimp only
  rw [hloop, if_neg (by rw [hempty]; decide)]

/-- A pass that waits leaves the byte where it is. -/
theorem receive_of_wait (hpanicked : k.keys.panicked = false)
    (hwait : (k.push data).pass layout beyond = (false, k.push data))
    (hlength : k.readBuffer.length < 5) : k.receive layout beyond data = k.push data := by
  have hloop : processBuffer layout beyond (k.push data) = k.push data := by
    rw [processBuffer, dif_neg push_ne_nil, dif_neg (by rw [hwait]; exact Bool.false_ne_true), hwait]
  rw [receive, if_neg (by simp [hpanicked])]
  dsimp only
  rw [hloop, if_neg (by rw [List.length_append, List.length_singleton]; omega)]

/-- **The beginnings of an encoding** that are not the whole of it. -/
inductive Waiting : List (BitVec 8) → Prop
  | nil : Waiting []
  | extended : Waiting [0xe0]
  | first : Waiting [0xe1]
  | pause {code : BitVec 8} {rest : List (BitVec 8)} (hcode : code &&& 0x7f = 0x1d)
      (hrest : rest.length < 4) : Waiting (0xe1 :: code :: rest)

theorem Waiting.length {buffer : List (BitVec 8)} (h : Waiting buffer) : buffer.length ≤ 5 := by
  cases h with
  | nil | extended | first => decide
  | pause hcode hrest =>
    rw [List.length_cons, List.length_cons]
    omega

/-- A byte of its own. -/
theorem receive_plain (hpanicked : k.keys.panicked = false) (hbuffer : k.readBuffer = [])
    (hplain : data ≠ 0xe0 ∧ data ≠ 0xe1) : k.receive layout beyond data =
      ((k.push data).passPlain layout beyond).2 := by
  have hpush : (k.push data).readBuffer = [data] := by
    rw [push, hbuffer, List.nil_append]
  have hbyte : (k.push data).byte 0 = data := by
    rw [byte, hpush]
    rfl
  have hpass : (k.push data).pass layout beyond = (k.push data).passPlain layout beyond := by
    rw [pass, hbyte, if_neg hplain.1, if_neg hplain.2]
  rw [receive_of_empty hpanicked (by rw [hpass]; exact (passPlain_spec layout beyond hpush).1), hpass]

/-- A byte that begins more waits. -/
theorem receive_first (hpanicked : k.keys.panicked = false) (hbuffer : k.readBuffer = [])
    (hfirst : data = 0xe0 ∨ data = 0xe1) : k.receive layout beyond data = k.push data := by
  have hpush : (k.push data).readBuffer = [data] := by
    rw [push, hbuffer, List.nil_append]
  have hbyte : (k.push data).byte 0 = data := by
    rw [byte, hpush]
    rfl
  refine receive_of_wait hpanicked ?_ (by rw [hbuffer]; decide)
  have hlength : (k.push data).readBuffer.length < 2 := by
    rw [hpush, List.length_singleton]
    omega
  rcases hfirst with rfl | rfl
  · rw [pass, hbyte, if_pos rfl, passExtended, if_pos hlength]
  · rw [pass, hbyte, if_neg (by decide), if_pos rfl, passPause, if_pos hlength]

/-- A byte after `0xe0`. -/
theorem receive_extended (hpanicked : k.keys.panicked = false) (hbuffer : k.readBuffer = [0xe0]) :
    k.receive layout beyond data =
      { k with readBuffer := [], keys := k.keys.decode layout (.extended data) } := by
  have hpush : (k.push data).readBuffer = [0xe0, data] := by
    rw [push, hbuffer]
    rfl
  have hpass : (k.push data).pass layout beyond = (true,
      { k with readBuffer := [], keys := k.keys.decode layout (.extended data) }) := by
    rw [pass, if_pos (by rw [byte, hpush]; rfl), passExtended_eq hpush]
  rw [receive_of_empty hpanicked (by rw [hpass]), hpass]

/-- After `0xe1` it is a pass for that. -/
theorem pass_of_pause {buffer : List (BitVec 8)} (hbuffer : k.readBuffer = 0xe1 :: buffer) :
    k.pass layout beyond = k.passPause layout := by
  have hbyte : k.byte 0 = 0xe1 := by
    rw [byte, hbuffer]
    rfl
  rw [pass, hbyte, if_neg (by decide), if_pos rfl]

/-- One that is not of the pause key's, after `0xe1`. -/
theorem receive_second_of_ne (hpanicked : k.keys.panicked = false) (hbuffer : k.readBuffer = [0xe1])
    (hcode : data &&& 0x7f ≠ 0x1d) : k.receive layout beyond data = { k with
      readBuffer := [], keys := k.keys.warn (.hex16 (0xe1#8 ++ (data &&& 0x7f)) (isDown data)) } := by
  have hpush : (k.push data).readBuffer = [0xe1, data] := by
    rw [push, hbuffer]
    rfl
  have hpass : (k.push data).pass layout beyond = _ :=
    (pass_of_pause hpush).trans (passPause_of_ne layout hpush hcode)
  rw [receive_of_empty hpanicked (by rw [hpass]), hpass]

/-- One that is. -/
theorem receive_kept {code : BitVec 8} {rest : List (BitVec 8)} (hpanicked : k.keys.panicked = false)
    (hpush : (k.push data).readBuffer = 0xe1 :: code :: rest) (hcode : code &&& 0x7f = 0x1d)
    (hrest : rest.length < 4) : k.receive layout beyond data = k.push data := by
  refine receive_of_wait hpanicked ?_ ?_
  · rw [pass_of_pause hpush, passPause_of_lt hpush hcode hrest]
  · have hlength := congrArg List.length hpush
    rw [List.length_append, List.length_singleton, List.length_cons, List.length_cons] at hlength
    omega

/-- The last of six. -/
theorem receive_sixth {code : BitVec 8} {rest : List (BitVec 8)}
    (hpanicked : k.keys.panicked = false)
    (hpush : (k.push data).readBuffer = 0xe1 :: code :: rest) (hcode : code &&& 0x7f = 0x1d)
    (hrest : rest.length = 4) :
    k.receive layout beyond data = ((k.push data).passPause layout).2 := by
  obtain ⟨-, hempty, -⟩ := passPause_of_six layout hpush hcode hrest
  rw [receive_of_empty hpanicked (by rw [pass_of_pause hpush]; exact hempty), pass_of_pause hpush]

/-! ## The invariant -/

/-- `translation` has been indexed inside its bounds. -/
def Inside (k : Keyboard) : Prop := ∀ code ∈ k.indexed, code.toNat < translation.length

/-- **The byte is not the first past the table's end**, if it is one of its
own. -/
def Within (k : Keyboard) (data : BitVec 8) : Prop :=
  k.keys.panicked = false → k.readBuffer = [] → data ≠ 0x6c ∧ data ≠ 0xec

theorem receive_of_panicked (hpanicked : k.keys.panicked = true) :
    k.receive layout beyond data = k := by
  rw [receive, if_pos hpanicked]

/-- What a byte does to the buffer, and to what has been indexed. -/
theorem receive_spec (layout : Layout) (beyond : Keyboard → Scancode) (data : BitVec 8)
    (h : Waiting k.readBuffer) :
    Waiting (k.receive layout beyond data).readBuffer ∧
      ((k.receive layout beyond data).indexed = k.indexed ∧
          (k.keys.panicked = true ∨ k.readBuffer ≠ [] ∨ data = 0xe0 ∨ data = 0xe1) ∨
        k.keys.panicked = false ∧ k.readBuffer = [] ∧ (k.receive layout beyond data).indexed =
          k.indexed ++ if 0x6c < (data &&& 0x7f).toNat then [] else [data &&& 0x7f]) := by
  cases hpanicked : k.keys.panicked with
  | true =>
    rw [receive_of_panicked hpanicked]
    exact ⟨h, .inl ⟨rfl, .inl rfl⟩⟩
  | false =>
    generalize hbuffer : k.readBuffer = buffer at h
    cases h with
    | nil =>
      by_cases hfirst : data = 0xe0 ∨ data = 0xe1
      · rw [receive_first hpanicked hbuffer hfirst, push, hbuffer]
        refine ⟨?_, .inl ⟨rfl, .inr (.inr hfirst)⟩⟩
        rcases hfirst with rfl | rfl
        · exact .extended
        · exact .first
      · have hpush : (k.push data).readBuffer = [data] := by
          rw [push, hbuffer, List.nil_append]
        obtain ⟨hempty, hindexed⟩ := passPlain_spec layout beyond hpush
        rw [receive_plain hpanicked hbuffer (not_or.1 hfirst), hempty]
        exact ⟨.nil, .inr ⟨rfl, rfl, hindexed⟩⟩
    | extended =>
      rw [receive_extended hpanicked hbuffer]
      exact ⟨.nil, .inl ⟨rfl, .inr (.inl (List.cons_ne_nil _ _))⟩⟩
    | first =>
      by_cases hcode : data &&& 0x7f = 0x1d
      · have hpush : (k.push data).readBuffer = 0xe1 :: data :: [] := by
          rw [push, hbuffer]
          rfl
        rw [receive_kept hpanicked hpush hcode (by decide), hpush]
        exact ⟨.pause hcode (by decide), .inl ⟨rfl, .inr (.inl (List.cons_ne_nil _ _))⟩⟩
      · rw [receive_second_of_ne hpanicked hbuffer hcode]
        exact ⟨.nil, .inl ⟨rfl, .inr (.inl (List.cons_ne_nil _ _))⟩⟩
    | @pause code rest hcode hrest =>
      have hpush : (k.push data).readBuffer = 0xe1 :: code :: (rest ++ [data]) := by
        rw [push, hbuffer]
        rfl
      have hlength : (rest ++ [data]).length = rest.length + 1 := List.length_append
      rcases Nat.lt_or_ge (rest.length + 1) 4 with hlt | hge
      · rw [receive_kept hpanicked hpush hcode (by omega), hpush]
        exact ⟨.pause hcode (by omega), .inl ⟨rfl, .inr (.inl (List.cons_ne_nil _ _))⟩⟩
      · have hsix : (rest ++ [data]).length = 4 := by omega
        obtain ⟨-, hempty, hindexed⟩ := passPause_of_six layout hpush hcode hsix
        rw [receive_sixth hpanicked hpush hcode hsix, hempty]
        exact ⟨.nil, .inl ⟨hindexed, .inr (.inl (List.cons_ne_nil _ _))⟩⟩

theorem and_seven_eq (code : BitVec 8) : (code &&& 0x7f).toNat = 0x6c ↔ code = 0x6c ∨ code = 0xec := by
  revert code
  decide +kernel

/-- **The table is indexed inside its bounds with a byte exactly where it
is not the first past its end.** -/
theorem inside_receive_iff (h : Waiting k.readBuffer) (hinside : k.Inside) :
    (k.receive layout beyond data).Inside ↔ k.Within data := by
  obtain ⟨-, hcases⟩ := receive_spec layout beyond data h
  rcases hcases with ⟨hindexed, hnone⟩ | ⟨hpanicked, hbuffer, hindexed⟩
  · refine iff_of_true ?_ fun hpanicked hbuffer => ?_
    · rw [Inside, hindexed]
      exact hinside
    · rcases hnone with hyes | hne | rfl | rfl
      · rw [hpanicked] at hyes
        cases hyes
      · exact absurd hbuffer hne
      · decide
      · decide
  · rw [Inside, hindexed]
    constructor
    · intro hall _ _
      rw [← not_or, ← and_seven_eq]
      intro hsame
      have hlt := hall (data &&& 0x7f) (List.mem_append_right _ (by
        rw [if_neg (by omega)]
        exact List.mem_singleton_self _))
      rw [length_translation] at hlt
      omega
    · intro hwithin code hcode
      have hne := mt (and_seven_eq data).1 (not_or.2 (hwithin hpanicked hbuffer))
      rcases List.mem_append.1 hcode with hold | hnew
      · exact hinside code hold
      · split at hnew
        · cases hnew
        · rw [List.mem_singleton.1 hnew, length_translation]
          omega

/-! ## The encodings one by one -/

/-- The step of a byte. -/
abbrev receiving (layout : Layout) (beyond : Keyboard → Scancode) :
    Keyboard → BitVec 8 → Keyboard :=
  fun k data => k.receive layout beyond data

/-- What has panicked receives no more. -/
theorem run_of_panicked (hpanicked : k.keys.panicked = true) (bytes : List (BitVec 8)) :
    run (receiving layout beyond) k bytes = k := by
  induction bytes with
  | nil => rfl
  | cons data bytes ih => rw [run_cons, receiving, receive_of_panicked hpanicked, ih]

/-- After `0xe1` and `0x1d` three bytes are kept. -/
theorem run_kept {code : BitVec 8} {rest : List (BitVec 8)} (hpanicked : k.keys.panicked = false)
    (hbuffer : k.readBuffer = 0xe1 :: code :: rest) (hcode : code &&& 0x7f = 0x1d)
    (bytes : List (BitVec 8)) (hlength : rest.length + bytes.length < 4) :
    run (receiving layout beyond) k bytes = { k with readBuffer := k.readBuffer ++ bytes } := by
  induction bytes generalizing k rest with
  | nil => rw [run_nil, List.append_nil]
  | cons data bytes ih =>
    have hpush : (k.push data).readBuffer = 0xe1 :: code :: (rest ++ [data]) := by
      rw [push, hbuffer]
      rfl
    rw [List.length_cons] at hlength
    have hone : (rest ++ [data]).length = rest.length + 1 := List.length_append
    rw [run_cons, receiving, receive_kept hpanicked hpush hcode (by omega),
      ih (k := k.push data) hpanicked hpush (by omega), push, List.append_assoc]
    rfl

/-- The pause key's. -/
theorem run_pause (hpanicked : k.keys.panicked = false) (hbuffer : k.readBuffer = []) :
    run (receiving layout beyond) k Encoding.pause.bytes =
      ({ k with readBuffer := Encoding.pause.bytes }.passPause layout).2 := by
  have hfirst : k.receive layout beyond 0xe1 = { k with readBuffer := [0xe1] } := by
    rw [receive_first hpanicked hbuffer (.inr rfl), push, hbuffer, List.nil_append]
  have hpush : (({ k with readBuffer := [0xe1] } : Keyboard).push 0x1d).readBuffer =
      [0xe1, 0x1d] := rfl
  have hsecond : ({ k with readBuffer := [0xe1] } : Keyboard).receive layout beyond 0x1d =
      { k with readBuffer := [0xe1, 0x1d] } :=
    receive_kept hpanicked hpush (by decide) (by decide)
  have htwo : ({ k with readBuffer := [0xe1, 0x1d] } : Keyboard).readBuffer = [0xe1, 0x1d] := rfl
  have hmiddle : run (receiving layout beyond) { k with readBuffer := [0xe1, 0x1d] }
      [0x45, 0xe1, 0x9d] = { k with readBuffer := [0xe1, 0x1d, 0x45, 0xe1, 0x9d] } :=
    run_kept (k := { k with readBuffer := [0xe1, 0x1d] }) hpanicked htwo (by decide) _ (by decide)
  have hlast : ({ k with readBuffer := [0xe1, 0x1d, 0x45, 0xe1, 0x9d] } : Keyboard).receive layout
      beyond 0xc5 = ({ k with readBuffer := Encoding.pause.bytes }.passPause layout).2 :=
    receive_sixth (k := { k with readBuffer := [0xe1, 0x1d, 0x45, 0xe1, 0x9d] }) hpanicked rfl
      (by decide) rfl
  have hsplit : Encoding.pause.bytes = [0xe1, 0x1d] ++ ([0x45, 0xe1, 0x9d] ++ [0xc5]) := rfl
  rw [hsplit, run_append, run_cons, run_cons, run_nil, receiving, receiving, hfirst, hsecond,
    run_append, hmiddle, run_cons, run_nil]
  exact hlast

/-- **The bytes of an encoding do what it means**, and leave nothing
behind. -/
theorem run_bytes (encoding : Encoding) (hpanicked : k.keys.panicked = false)
    (hbuffer : k.readBuffer = [])
    (hwithin : Along (receiving layout beyond) Within k encoding.bytes) :
    (run (receiving layout beyond) k encoding.bytes).keys = k.keys.decode layout encoding ∧
      (run (receiving layout beyond) k encoding.bytes).readBuffer = [] := by
  cases encoding with
  | plain code hplain =>
    have hpush : (k.push code).readBuffer = [code] := by
      rw [push, hbuffer, List.nil_append]
    have hinside : (code &&& 0x7f).toNat ≠ 0x6c :=
      mt (and_seven_eq code).1 (not_or.2 (hwithin.1 hpanicked hbuffer))
    rw [Encoding.bytes, run_cons, run_nil, receiving, receive_plain hpanicked hbuffer hplain]
    exact ⟨keys_passPlain hpush hplain hinside, (passPlain_spec layout beyond hpush).1⟩
  | extended code =>
    have hfirst : k.receive layout beyond 0xe0 = k.push 0xe0 :=
      receive_first hpanicked hbuffer (.inl rfl)
    have hpush : (k.push 0xe0).readBuffer = [0xe0] := by
      rw [push, hbuffer, List.nil_append]
    rw [Encoding.bytes, run_cons, run_cons, run_nil, receiving, receiving, hfirst,
      receive_extended (k := k.push 0xe0) hpanicked hpush]
    exact ⟨rfl, rfl⟩
  | pause =>
    have hbytes : ({ k with readBuffer := Encoding.pause.bytes } : Keyboard).readBuffer =
        Encoding.pause.bytes := rfl
    rw [run_pause hpanicked hbuffer, passPause_pause hbytes]
    refine ⟨rfl, ?_⟩
    obtain ⟨-, hempty, -⟩ := passPause_of_six layout hbytes (by decide) rfl
    exact hempty

/-- **The bytes of encodings do what these mean, one by one.** -/
theorem run_encodings (encodings : List Encoding) (hbuffer : k.readBuffer = [])
    (hwithin : Along (receiving layout beyond) Within k (encodings.flatMap Encoding.bytes)) :
    (run (receiving layout beyond) k (encodings.flatMap Encoding.bytes)).keys =
        k.keys.decodeAll layout encodings ∧
      (run (receiving layout beyond) k (encodings.flatMap Encoding.bytes)).readBuffer = [] := by
  induction encodings generalizing k with
  | nil => exact ⟨rfl, hbuffer⟩
  | cons encoding encodings ih =>
    rw [Keys.decodeAll]
    cases hpanicked : k.keys.panicked with
    | true =>
      rw [run_of_panicked hpanicked, if_pos rfl]
      exact ⟨rfl, hbuffer⟩
    | false =>
      rw [List.flatMap_cons, along_append] at hwithin
      obtain ⟨hkeys, hempty⟩ := run_bytes encoding hpanicked hbuffer hwithin.1
      rw [List.flatMap_cons, run_append, if_neg (by decide), ← hkeys]
      exact ih hempty hwithin.2

/-! ## Interrupts -/

/-- The bytes of an interrupt: those before a mouse byte, if it is the
keyboard's. -/
def delivered (irq : BitVec 8) (interrupt : BitVec 8 × List (Bool × BitVec 8)) :
    List (BitVec 8) :=
  if interrupt.1 = irq then (interrupt.2.takeWhile fun output => !output.1).map Prod.snd else []

theorem readAll_eq (output : List (Bool × BitVec 8)) : k.readAll layout beyond output =
    run (receiving layout beyond) k ((output.takeWhile fun output => !output.1).map Prod.snd) := by
  induction output generalizing k with
  | nil => rfl
  | cons byte output ih =>
    obtain ⟨mouse, data⟩ := byte
    cases mouse with
    | true => rfl
    | false =>
      rw [readAll, if_neg Bool.false_ne_true, ih]
      rfl

/-- **How the bytes are grouped makes no difference.** -/
theorem run_onIrq (irq : BitVec 8) (interrupts : List (BitVec 8 × List (Bool × BitVec 8))) :
    run (onIrq layout beyond irq) k interrupts =
      run (receiving layout beyond) k (interrupts.flatMap (delivered irq)) := by
  induction interrupts generalizing k with
  | nil => rfl
  | cons interrupt interrupts ih =>
    rw [run_cons, ih, List.flatMap_cons, run_append]
    congr 1
    rw [onIrq, delivered]
    by_cases hirq : interrupt.1 = irq
    · rw [if_neg (not_not.2 hirq), if_pos hirq, readAll_eq]
    · rw [if_pos hirq, if_neg hirq, run_nil]

variable (layout beyond k)

/-- **The stream is decoded**: after each byte at most five are kept and
the table has been indexed inside its bounds; the interrupts do what their
bytes do; and if these are those of encodings, they do what the encodings
mean, one by one. -/
structure Decodes (irq : BitVec 8) (interrupts : List (BitVec 8 × List (Bool × BitVec 8))) :
    Prop where
  bounded : Throughout (receiving layout beyond) (fun k => k.readBuffer.length ≤ 5 ∧ k.Inside) k
    (interrupts.flatMap (delivered irq))
  grouped : run (onIrq layout beyond irq) k interrupts =
    run (receiving layout beyond) k (interrupts.flatMap (delivered irq))
  decoded : ∀ encodings : List Encoding,
    encodings.flatMap Encoding.bytes = interrupts.flatMap (delivered irq) →
      (run (onIrq layout beyond irq) k interrupts).keys = k.keys.decodeAll layout encodings

variable {layout beyond k}

/-- The bounds are kept exactly where no byte is the first past the
table's end. -/
theorem throughout_inside_iff (hbuffer : k.readBuffer = []) (hinside : k.Inside)
    (bytes : List (BitVec 8)) :
    Throughout (receiving layout beyond) (fun k => k.readBuffer.length ≤ 5 ∧ k.Inside) k bytes ↔
      Along (receiving layout beyond) Within k bytes := by
  refine throughout_iff_along_of_invariant (I := fun k => Waiting k.readBuffer ∧ k.Inside)
    ⟨?_, hinside⟩ ?_ ?_ ?_ bytes
  · rw [hbuffer]
    exact .nil
  · rintro k ⟨hwaiting, hinside⟩
    exact ⟨hwaiting.length, hinside⟩
  · rintro k data ⟨hwaiting, hinside⟩
    rw [← inside_receive_iff hwaiting hinside]
    exact and_iff_right (receive_spec layout beyond data hwaiting).1.length
  · rintro k data ⟨hwaiting, hinside⟩ hwithin
    exact ⟨(receive_spec layout beyond data hwaiting).1, (inside_receive_iff hwaiting hinside).2 hwithin⟩

/-- The driver as it starts, with any keys. -/
def new (keys : Keys) : Keyboard := ⟨[], keys, []⟩

theorem inside_new (keys : Keys) : (new keys).Inside :=
  fun _ h => absurd h List.not_mem_nil

/-- **A stream is decoded exactly where none of its bytes is the first
past the table's end**, read as a code of its own. -/
theorem decodes_iff (layout : Layout) (beyond : Keyboard → Scancode) (irq : BitVec 8)
    (keys : Keys) (interrupts : List (BitVec 8 × List (Bool × BitVec 8))) :
    Decodes layout beyond (new keys) irq interrupts ↔
      Along (receiving layout beyond) Within (new keys) (interrupts.flatMap (delivered irq)) := by
  rw [← throughout_inside_iff rfl (inside_new keys)]
  refine ⟨fun h => h.bounded, fun h => ⟨h, run_onIrq irq interrupts, fun encodings hbytes => ?_⟩⟩
  rw [throughout_inside_iff rfl (inside_new keys), ← hbytes] at h
  rw [run_onIrq, ← hbytes]
  exact (run_encodings encodings rfl h).1

/-- One byte, of a code that no entry is for. -/
theorem not_decodes : ¬ Decodes ⟨fun _ => 0, fun _ => 0, fun _ => 0, fun _ => 0⟩ (fun _ => 0)
    (new ⟨Bitmask256.empty, [], [], false⟩) 1 [(1, [(false, 0x6c)])] := by
  intro h
  have hwithin := (throughout_inside_iff rfl (inside_new _) _).1 h.bounded
  exact (hwithin.1 rfl rfl).1 rfl

end Keyboard

end Ps2Keyboard

end Uberos
