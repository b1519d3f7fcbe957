import Uberos.Timer.Ownership
/-!
# The keyboard

`Ps2Keyboard` of `drivers/x86/input`: the bytes that its interrupt reads
go into a buffer of six, from which `process_buffer` takes what is whole.
The layout is the keyboard's; what lies behind the table of `translation`
is read if it is indexed past its end, and is a parameter.
-/

namespace Uberos

namespace Ps2Keyboard

/-! ## Scancodes -/

/-- `keyboard::Scancode`. -/
abbrev Scancode := BitVec 8

/-- `keyboard::Position`. -/
structure Position where
  row : BitVec 8
  col : BitVec 8
  deriving DecidableEq, Repr

/-- `positionToScancode`. -/
def positionToScancode (position : Position) : Scancode :=
  (position.row &&& 0b111) <<< 5 ||| (position.col &&& 0b11111)

/-- `keyboard::ScancodeUk`. -/
inductive ScancodeUk
  | leftControl | leftSuper | alt | space | altGr | rightSuper | contextMenu | rightControl
  | leftArrow | downArrow | rightArrow | numpad0 | numpadDot | leftShift | backslash | letterZ
  | letterX | letterC | letterV | letterB | letterN | letterM | comma | dot | slash | rightShift
  | upArrow | numpad1 | numpad2 | numpad3 | numpadEnter | capslock | letterA | letterS | letterD
  | letterF | letterG | letterH | letterJ | letterK | letterL | semicolon | apostrophe | hash
  | enter | numpad4 | numpad5 | numpad6 | tab | letterQ | letterW | letterE | letterR | letterT
  | letterY | letterU | letterI | letterO | letterP | leftBracket | rightBracket | delete | «end»
  | pageDown | numpad7 | numpad8 | numpad9 | numpadPlus | backTick | number1 | number2 | number3
  | number4 | number5 | number6 | number7 | number8 | number9 | number0 | hyphen | equals
  | backspace | insert | home | pageUp | numLock | numpadDivide | numpadMultiply | numpadSubtract
  | escape | f1 | f2 | f3 | f4 | f5 | f6 | f7 | f8 | f9 | f10 | f11 | f12 | printScreen | pause
  | scrollLock | f13 | f14 | f15 | f16 | f17 | f18 | f19 | f20 | f21 | f22 | f23 | f24
  deriving DecidableEq, Repr

/-- Where the rows of `KEYBOARD_LAYOUT_UK` have it. -/
def ScancodeUk.position : ScancodeUk → Position
  | .leftControl => ⟨0, 5⟩ | .leftSuper => ⟨0, 6⟩ | .alt => ⟨0, 7⟩ | .space => ⟨0, 11⟩
  | .altGr => ⟨0, 16⟩ | .rightSuper => ⟨0, 17⟩ | .contextMenu => ⟨0, 18⟩
  | .rightControl => ⟨0, 19⟩ | .leftArrow => ⟨0, 21⟩ | .downArrow => ⟨0, 22⟩
  | .rightArrow => ⟨0, 23⟩ | .numpad0 => ⟨0, 25⟩ | .numpadDot => ⟨0, 27⟩ | .leftShift => ⟨1, 5⟩
  | .backslash => ⟨1, 6⟩ | .letterZ => ⟨1, 7⟩ | .letterX => ⟨1, 8⟩ | .letterC => ⟨1, 9⟩
  | .letterV => ⟨1, 10⟩ | .letterB => ⟨1, 11⟩ | .letterN => ⟨1, 12⟩ | .letterM => ⟨1, 13⟩
  | .comma => ⟨1, 14⟩ | .dot => ⟨1, 15⟩ | .slash => ⟨1, 16⟩ | .rightShift => ⟨1, 19⟩
  | .upArrow => ⟨1, 22⟩ | .numpad1 => ⟨1, 25⟩ | .numpad2 => ⟨1, 26⟩ | .numpad3 => ⟨1, 27⟩
  | .numpadEnter => ⟨1, 28⟩ | .capslock => ⟨2, 5⟩ | .letterA => ⟨2, 7⟩ | .letterS => ⟨2, 8⟩
  | .letterD => ⟨2, 9⟩ | .letterF => ⟨2, 10⟩ | .letterG => ⟨2, 11⟩ | .letterH => ⟨2, 12⟩
  | .letterJ => ⟨2, 13⟩ | .letterK => ⟨2, 14⟩ | .letterL => ⟨2, 15⟩ | .semicolon => ⟨2, 16⟩
  | .apostrophe => ⟨2, 17⟩ | .hash => ⟨2, 18⟩ | .enter => ⟨2, 19⟩ | .numpad4 => ⟨2, 25⟩
  | .numpad5 => ⟨2, 26⟩ | .numpad6 => ⟨2, 27⟩ | .tab => ⟨3, 5⟩ | .letterQ => ⟨3, 7⟩
  | .letterW => ⟨3, 8⟩ | .letterE => ⟨3, 9⟩ | .letterR => ⟨3, 10⟩ | .letterT => ⟨3, 11⟩
  | .letterY => ⟨3, 12⟩ | .letterU => ⟨3, 13⟩ | .letterI => ⟨3, 14⟩ | .letterO => ⟨3, 15⟩
  | .letterP => ⟨3, 16⟩ | .leftBracket => ⟨3, 17⟩ | .rightBracket => ⟨3, 18⟩ | .delete => ⟨3, 21⟩
  | .«end» => ⟨3, 22⟩ | .pageDown => ⟨3, 23⟩ | .numpad7 => ⟨3, 25⟩ | .numpad8 => ⟨3, 26⟩
  | .numpad9 => ⟨3, 27⟩ | .numpadPlus => ⟨3, 28⟩ | .backTick => ⟨4, 5⟩ | .number1 => ⟨4, 6⟩
  | .number2 => ⟨4, 7⟩ | .number3 => ⟨4, 8⟩ | .number4 => ⟨4, 9⟩ | .number5 => ⟨4, 10⟩
  | .number6 => ⟨4, 11⟩ | .number7 => ⟨4, 12⟩ | .number8 => ⟨4, 13⟩ | .number9 => ⟨4, 14⟩
  | .number0 => ⟨4, 15⟩ | .hyphen => ⟨4, 16⟩ | .equals => ⟨4, 17⟩ | .backspace => ⟨4, 19⟩
  | .insert => ⟨4, 21⟩ | .home => ⟨4, 22⟩ | .pageUp => ⟨4, 23⟩ | .numLock => ⟨4, 25⟩
  | .numpadDivide => ⟨4, 26⟩ | .numpadMultiply => ⟨4, 27⟩ | .numpadSubtract => ⟨4, 28⟩
  | .escape => ⟨5, 5⟩ | .f1 => ⟨5, 6⟩ | .f2 => ⟨5, 7⟩ | .f3 => ⟨5, 8⟩ | .f4 => ⟨5, 9⟩
  | .f5 => ⟨5, 11⟩ | .f6 => ⟨5, 12⟩ | .f7 => ⟨5, 13⟩ | .f8 => ⟨5, 14⟩ | .f9 => ⟨5, 16⟩
  | .f10 => ⟨5, 17⟩ | .f11 => ⟨5, 18⟩ | .f12 => ⟨5, 19⟩ | .printScreen => ⟨5, 21⟩
  | .pause => ⟨5, 22⟩ | .scrollLock => ⟨5, 23⟩ | .f13 => ⟨6, 6⟩ | .f14 => ⟨6, 7⟩ | .f15 => ⟨6, 8⟩
  | .f16 => ⟨6, 9⟩ | .f17 => ⟨6, 11⟩ | .f18 => ⟨6, 12⟩ | .f19 => ⟨6, 13⟩ | .f20 => ⟨6, 14⟩
  | .f21 => ⟨6, 16⟩ | .f22 => ⟨6, 17⟩ | .f23 => ⟨6, 18⟩ | .f24 => ⟨6, 19⟩

/-- `(Scancode)`. -/
def ScancodeUk.scancode (key : ScancodeUk) : Scancode := positionToScancode key.position

/-- A `Scancode` that is zero, or not. -/
def scancodeOf : Option ScancodeUk → Scancode
  | some key => key.scancode
  | none => 0

/-- `translation`. -/
def translation : List (Option ScancodeUk) :=
  [
    none, some .escape, some .number1, some .number2, some .number3, some .number4,
    some .number5, some .number6, some .number7, some .number8, some .number9, some .number0,
    some .hyphen, some .equals, some .backspace, some .tab, some .letterQ, some .letterW,
    some .letterE, some .letterR, some .letterT, some .letterY, some .letterU, some .letterI,
    some .letterO, some .letterP, some .leftBracket, some .rightBracket, some .enter,
    some .leftControl, some .letterA, some .letterS, some .letterD, some .letterF, some .letterG,
    some .letterH, some .letterJ, some .letterK, some .letterL, some .semicolon,
    some .apostrophe, some .backTick, some .leftShift, some .hash, some .letterZ, some .letterX,
    some .letterC, some .letterV, some .letterB, some .letterN, some .letterM, some .comma,
    some .dot, some .slash, some .rightShift, some .numpadMultiply, some .alt, some .space,
    some .capslock, some .f1, some .f2, some .f3, some .f4, some .f5, some .f6, some .f7,
    some .f8, some .f9, some .f10, some .numLock, some .pause, some .numpad7, some .numpad8,
    some .numpad9, some .numpadSubtract, some .numpad4, some .numpad5, some .numpad6,
    some .numpadPlus, some .numpad1, some .numpad2, some .numpad3, some .numpad0,
    some .numpadDot, some .printScreen, none, some .backslash, some .f11, some .f12, none, none,
    some .f13, some .f14, some .f15, none, none, none, none, none, some .f16, some .f17,
    some .f18, some .f19, some .f20, some .f21, some .f22, some .f23, some .f24
  ]

/-- A case of the switch over what follows `0xe0`: it sets `scancode`, or
`action`, or passes over a fake shift, or there is none. -/
inductive Extended
  | scancode (key : ScancodeUk)
  | action (name : String)
  | fakeShift
  | unsupported
  deriving DecidableEq, Repr

/-- `scancode` after the switch. -/
def Extended.toScancode : Extended → Scancode
  | .scancode key => key.scancode
  | _ => 0

/-- `action` after the switch. -/
def Extended.toAction : Extended → Option String
  | .action name => some name
  | _ => none

def extended : ℕ → Extended
  | 0x1c => .scancode .numpadEnter
  | 0x1d => .scancode .rightControl
  | 0x10 => .action "mediaTrackPrevious"
  | 0x19 => .action "mediaTrackNext"
  | 0x20 => .action "volumeMute"
  | 0x21 => .action "launchCalculator"
  | 0x22 => .action "mediaPlayPause"
  | 0x24 => .action "mediaStop"
  | 0x2a => .fakeShift
  | 0x2e => .action "volumeDown"
  | 0x30 => .action "volumeUp"
  | 0x32 => .action "webHome"
  | 0x65 => .action "webSearch"
  | 0x66 => .action "webFavourites"
  | 0x67 => .action "webRefresh"
  | 0x68 => .action "webStop"
  | 0x69 => .action "webForward"
  | 0x6a => .action "webBack"
  | 0x6b => .action "launchComputer"
  | 0x6c => .action "launchEmail"
  | 0x6d => .action "mediaSelect"
  | 0x35 => .scancode .numpadDivide
  | 0x37 => .scancode .printScreen
  | 0x38 => .scancode .altGr
  | 0x46 => .scancode .scrollLock
  | 0x47 => .scancode .home
  | 0x48 => .scancode .upArrow
  | 0x49 => .scancode .pageUp
  | 0x4b => .scancode .leftArrow
  | 0x4d => .scancode .rightArrow
  | 0x4f => .scancode .«end»
  | 0x50 => .scancode .downArrow
  | 0x51 => .scancode .pageDown
  | 0x52 => .scancode .insert
  | 0x53 => .scancode .delete
  | 0x5b => .scancode .leftSuper
  | 0x5c => .scancode .rightSuper
  | 0x5d => .scancode .contextMenu
  | _ => .unsupported

/-! ## Events -/

/-- `Keyboard::Event`, and its `Type`. -/
inductive Event
  | pressed (scancode : Scancode) (isRepeat : Bool) (modifiers : BitVec 8)
  | released (scancode : Scancode)
  | actionPressed (action : String)
  | characterTyped (character : BitVec 16)
  deriving DecidableEq, Repr

/-- `Unsupported keycode`, as `Hex8` or `Hex16`, and `(pressed)` or
`(released)`. -/
inductive Warning
  | hex8 (code : BitVec 8) (isDown : Bool)
  | hex16 (code : BitVec 16) (isDown : Bool)
  deriving DecidableEq, Repr

/-- `keyboard::Layout`. -/
structure Layout where
  charmap : Scancode → BitVec 16
  charmapShift : Scancode → BitVec 16
  charmapAltGr : Scancode → BitVec 16
  charmapShiftAltGr : Scancode → BitVec 16

/-- The keys, and what has come of them. -/
structure Keys where
  keystate : Bitmask256
  events : List Event
  warnings : List Warning
  /-- `panic` does not return. -/
  panicked : Bool

namespace Keys

variable (k : Keys)

/-- `is_pressed`. -/
def isPressed (key : ScancodeUk) : Bool := Bitmask256.get k.keystate key.scancode

def shift : Bool := k.isPressed .leftShift || k.isPressed .rightShift

def control : Bool := k.isPressed .leftControl || k.isPressed .rightControl

def super : Bool := k.isPressed .leftSuper || k.isPressed .rightSuper

/-- `modifiers`, with the bits of `Keyboard::Modifier` that are set. -/
def withModifiers (scancode : Scancode) (modifiers : BitVec 8) : BitVec 8 :=
  let modifiers :=
    if k.control ∧ scancode ≠ ScancodeUk.leftControl.scancode ∧
        scancode ≠ ScancodeUk.rightControl.scancode then modifiers ||| 1 <<< 1 else modifiers
  let modifiers :=
    if k.isPressed .alt ∧ scancode ≠ ScancodeUk.alt.scancode then modifiers ||| 1 <<< 2
    else modifiers
  let modifiers :=
    if k.super ∧ scancode ≠ ScancodeUk.leftSuper.scancode ∧
        scancode ≠ ScancodeUk.rightSuper.scancode then modifiers ||| 1 <<< 3 else modifiers
  if k.shift ∧ modifiers ≠ 0 ∧ scancode ≠ ScancodeUk.leftShift.scancode ∧
      scancode ≠ ScancodeUk.rightShift.scancode then modifiers ||| 1 <<< 0 else modifiers

/-- `trigger`, of `events` and `allEvents`. -/
def emit (event : Event) : Keys := { k with events := k.events ++ [event] }

/-- The map a character is taken from. -/
def charmap (layout : Layout) : Scancode → BitVec 16 :=
  if k.isPressed .altGr && k.shift then layout.charmapShiftAltGr
  else if k.isPressed .altGr then layout.charmapAltGr
  else if k.shift then layout.charmapShift
  else layout.charmap

/-- `trigger_event`. -/
def triggerEvent (layout : Layout) : Event → Keys
  | .pressed scancode isRepeat modifiers =>
    let modifiers := k.withModifiers scancode modifiers
    let k := k.emit (.pressed scancode isRepeat modifiers)
    if modifiers = 0 then
      let character := k.charmap layout scancode
      if character ≠ 0 then k.emit (.characterTyped character) else k
    else k
  | event => k.emit event

/-- `keystate.set`. -/
def set (scancode : Scancode) (isDown : Bool) : Keys :=
  { k with keystate := Bitmask256.set k.keystate scancode isDown }

/-- The event of a key that is pressed or released. -/
def triggerKey (layout : Layout) (scancode : Scancode) (isDown : Bool) : Keys :=
  if isDown then k.triggerEvent layout (.pressed scancode false 0)
  else k.triggerEvent layout (.released scancode)

/-- `print_warning`. -/
def warn (warning : Warning) : Keys := { k with warnings := k.warnings ++ [warning] }

end Keys

/-! ## The buffer -/

/-- The driver: `readBuffer` up to `readBufferPosition`, the keys, and
what `translation` has been indexed with. -/
structure Keyboard where
  readBuffer : List (BitVec 8)
  keys : Keys
  indexed : List (BitVec 8)

/-- `!(code&0b10000000)`. -/
def isDown (code : BitVec 8) : Bool := decide (code &&& 0b10000000 = 0)

namespace Keyboard

variable (layout : Layout) (beyond : Keyboard → Scancode) (k : Keyboard)

/-- `readBuffer[i]`. -/
def byte (i : ℕ) : BitVec 8 := k.readBuffer.getD i 0

/-- `readBuffer[0]<<8|readBuffer[1]`. -/
def code16 : BitVec 16 := (k.byte 0).setWidth 16 <<< 8 ||| (k.byte 1).setWidth 16

/-- `memcpy(&readBuffer[0], &readBuffer[readSize], readBufferPosition-=readSize)`. -/
def consume (readSize : ℕ) : Keyboard := { k with readBuffer := k.readBuffer.drop readSize }

def withKeys (keys : Keys) : Keyboard := { k with keys := keys }

/-- The pass for `0xe0`, and whether the loop goes on. -/
def passExtended : Bool × Keyboard :=
  if k.readBuffer.length < 2 then (false, k)
  else
    let code := k.code16
    let isDown := decide (code &&& 0b10000000 = 0)
    let code := code &&& (code &&& 0b1111111101111111)
    match extended (code &&& 0xff).toNat with
    | .fakeShift => (true, k.consume 2)
    | found =>
      let scancode := found.toScancode
      let k := k.consume 2
      if scancode = 0 ∧ found.toAction = none then
        (true, k.withKeys (k.keys.warn (.hex16 code isDown)))
      else
        let keys :=
          if scancode ≠ 0 then (k.keys.set scancode isDown).triggerKey layout scancode isDown
          else k.keys
        match found.toAction with
        | some action =>
          (true, k.withKeys <|
            if isDown then keys.triggerEvent layout (.actionPressed action) else keys)
        | none => (true, k.withKeys keys)

/-- The pass for `0xe1`. -/
def passPause : Bool × Keyboard :=
  if k.readBuffer.length < 2 then (false, k)
  else
    let code := k.code16
    let isDown := decide (code &&& 0b10000000 = 0)
    let code := code &&& (code &&& 0b1111111101111111)
    let scrollLock := ScancodeUk.scrollLock.scancode
    if code &&& 0xff = 0x1d then
      if k.readBuffer.length < 6 then (false, k)
      else if isDown ∧ k.byte 2 = 0x45 ∧ k.byte 3 = 0xe1 ∧ k.byte 4 = 0x9d ∧ k.byte 5 = 0xc5 then
        -- There is no release event: it is pressed here, and released next.
        let keys := (k.keys.set scrollLock isDown).triggerEvent layout (.pressed scrollLock false 0)
        (true, (k.consume 6).withKeys ((keys.set scrollLock false).triggerKey layout scrollLock false))
      else (true, (k.consume 6).withKeys (k.keys.warn (.hex16 code isDown)))
    else (true, (k.consume 2).withKeys (k.keys.warn (.hex16 code isDown)))

/-- The pass for any other byte. -/
def passPlain : Bool × Keyboard :=
  let code := k.byte 0
  let isDown := isDown code
  let code := code &&& (code &&& 0b01111111)
  let k := k.consume 1
  if code.toNat > translation.length then
    (true, k.withKeys (k.keys.warn (.hex8 code isDown)))
  else
    let k := { k with indexed := k.indexed ++ [code] }
    let scancode := ((translation[code.toNat]?).map scancodeOf).getD (beyond k)
    if scancode = 0 then (true, k.withKeys (k.keys.warn (.hex8 code isDown)))
    else
      let keys := k.keys.set scancode isDown
      if isDown ∧ scancode = ScancodeUk.pause.scancode ∧ keys.control ∧ keys.isPressed .alt then
        (false, k.withKeys { keys with panicked := true })
      else (true, k.withKeys (keys.triggerKey layout scancode isDown))

/-- One pass of the loop. -/
def pass : Bool × Keyboard :=
  if k.byte 0 = 0xe0 then k.passExtended layout
  else if k.byte 0 = 0xe1 then k.passPause layout
  else k.passPlain layout beyond

/-! ## The loops -/

variable {layout beyond k}

/-- A pass after which the loop goes on has consumed something. -/
def Consumes (k : Keyboard) (passed : Bool × Keyboard) : Prop :=
  passed.1 = true → ∃ n, 0 < n ∧ passed.2.readBuffer = k.readBuffer.drop n

theorem consumes_passExtended : k.Consumes (k.passExtended layout) := by
  unfold passExtended
  split
  · intro h
    cases h
  · dsimp only
    split
    · exact fun _ => ⟨2, by omega, rfl⟩
    · split
      · exact fun _ => ⟨2, by omega, rfl⟩
      · split <;> exact fun _ => ⟨2, by omega, rfl⟩

theorem consumes_passPause : k.Consumes (k.passPause layout) := by
  unfold passPause
  split
  · intro h
    cases h
  · dsimp only
    split
    · split
      · intro h
        cases h
      · split <;> exact fun _ => ⟨6, by omega, rfl⟩
    · exact fun _ => ⟨2, by omega, rfl⟩

theorem consumes_passPlain : k.Consumes (k.passPlain layout beyond) := by
  unfold passPlain
  dsimp only
  split
  · exact fun _ => ⟨1, by omega, rfl⟩
  · split
    · exact fun _ => ⟨1, by omega, rfl⟩
    · split
      · intro h
        cases h
      · exact fun _ => ⟨1, by omega, rfl⟩

theorem consumes_pass : k.Consumes (k.pass layout beyond) := by
  unfold pass
  split
  · exact consumes_passExtended
  · split
    · exact consumes_passPause
    · exact consumes_passPlain

/-- So the loop ends. -/
theorem length_pass (hne : k.readBuffer ≠ []) (h : (k.pass layout beyond).1 = true) :
    (k.pass layout beyond).2.readBuffer.length < k.readBuffer.length := by
  obtain ⟨n, hn, hbuffer⟩ := consumes_pass h
  have hpos : 0 < k.readBuffer.length := List.length_pos_iff.2 hne
  rw [hbuffer, List.length_drop]
  omega

variable (layout beyond k)

/-- `process_buffer`. -/
def processBuffer (k : Keyboard) : Keyboard :=
  if hne : k.readBuffer = [] then k
  else if h : (k.pass layout beyond).1 = true then
    have := length_pass hne h
    processBuffer (k.pass layout beyond).2
  else (k.pass layout beyond).2
termination_by k.readBuffer.length

/-- What `_on_irq` does with a byte. Once `panic` is called there is no
more. -/
def receive (data : BitVec 8) : Keyboard :=
  if k.keys.panicked then k
  else
    let k := processBuffer layout beyond { k with readBuffer := k.readBuffer ++ [data] }
    if k.readBuffer.length = 6 then { k with readBuffer := [] } else k

/-- The loop of `_on_irq`, over what the controller puts out: whether it is
a mouse byte, and the byte. -/
def readAll (k : Keyboard) : List (Bool × BitVec 8) → Keyboard
  | [] => k
  | (mouse, data) :: output =>
    if mouse then k else readAll (k.receive layout beyond data) output

/-- `_on_irq`, of a driver that has subscribed to `irq`. -/
def onIrq (irq : BitVec 8) (k : Keyboard) (interrupt : BitVec 8 × List (Bool × BitVec 8)) :
    Keyboard :=
  if interrupt.1 ≠ irq then k else k.readAll layout beyond interrupt.2

end Keyboard

end Ps2Keyboard

end Uberos
