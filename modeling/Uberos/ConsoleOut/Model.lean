import Uberos.Library.Run
import Uberos.String
/-!
# Console output

`ConsoleOut::write_text` of `kernel/ConsoleOut.cpp`, on the buffer it keeps
between calls and on the calls it makes. A place of the buffer past its end is
`none`, and so is then the whole call. The parser beside it says what a text is
made of: it knows of no buffer and of no calls.
-/

namespace Uberos

open Library

namespace ConsoleOut

/-- `'\x1b'` -/
def esc : Char := '\x1b'

/-- `*c>='a'&&*c<='z'||*c>='A'&&*c<='Z'` -/
def isLetter (c : Char) : Bool := 'a' ≤ c && c ≤ 'z' || 'A' ≤ c && c ≤ 'Z'

/-- `case '0' ... '7'`, as an index. -/
def digit (c : Char) : Option (Fin 8) :=
  if h : c.toNat - '0'.toNat < 8 ∧ '0'.toNat ≤ c.toNat then some ⟨c.toNat - '0'.toNat, h.1⟩
  else none

/-- What is called of the console. -/
inductive Call
  | writeRawText (s : List Char)
  | setForegroundColour (x : UInt32)
  | setBackgroundColour (x : UInt32)
  | setBold (set : Bool)
  | clearForegroundColour
  | clearBackgroundColour
  deriving DecidableEq, Repr

/-- The colours. Those of bold text are never taken for the others. -/
structure Palette where
  ansiColours : Fin 8 → UInt32
  brightAnsiColours : Fin 8 → UInt32

/-- `sizeof(_currentEscape)/sizeof(_currentEscape[0])` -/
def size : ℕ := 64

/-! ## Graphic rendition -/

section Rendition

variable (p : Palette) (escape : List Char) (read : ℕ)

/-- `IS_END` -/
def isEnd (i : ℕ) : Option Bool := escape[i]?.map fun c => c = ';' || c = 'm'

/-- `read[x]&&!IS_END(x)` -/
def isMore (i : ℕ) : Option Bool := escape[i]?.map fun c => c ≠ '\x00' && !(c = ';' || c = 'm')

/-- `IS_1_DIGIT` -/
def is1Digit : Option Bool := isEnd escape (read + 1)

/-- `IS_2_DIGIT` -/
def is2Digit : Option Bool := do
  if ← isMore escape (read + 1) then isEnd escape (read + 2) else some false

/-- `IS_3_DIGIT` -/
def is3Digit : Option Bool := do
  if ← isMore escape (read + 1) then
    if ← isMore escape (read + 2) then isEnd escape (read + 3) else some false
  else some false

/-- `set_foreground_colour(brightAnsiColours[*read-'0'])` -/
def brightForeground (c : Char) : List Call :=
  (digit c).toList.map fun i => .setForegroundColour (p.brightAnsiColours i)

/-- The switch of `22`. -/
def boldOff (c : Char) : List Call := if c = '2' then [.setBold false] else []

/-- The switch of `30` to `39`. -/
def foreground (c : Char) : List Call :=
  if c = '9' then [.clearForegroundColour]
  else (digit c).toList.map fun i => .setForegroundColour (p.ansiColours i)

/-- The switch of `40` to `49`. -/
def background (c : Char) : List Call :=
  if c = '9' then [.clearBackgroundColour]
  else (digit c).toList.map fun i => .setBackgroundColour (p.ansiColours i)

/-- `if(IS_2_DIGIT){ read++; switch(*read) .. }` -/
def secondDigit (switch : Char → List Call) : Option (List Call × ℕ) := do
  if ← is2Digit escape read then
    let c ← escape[read + 1]?
    some (switch c, read + 1)
  else some ([], read)

/-- The switch on `*read`: what is called, and where `read` is left. -/
def switchRead : Option (List Call × ℕ) := do
  let c ← escape[read]?
  if c = '0' then
    if ← is1Digit escape read then
      some ([.clearForegroundColour, .clearBackgroundColour, .setBold false], read)
    else some ([], read)
  else if c = '1' then
    if ← is1Digit escape read then some ([.setBold true], read)
    else if ← is3Digit escape read then
      let c ← escape[read + 2]?
      some (brightForeground p c, read + 2)
    else some ([], read)
  else if c = '2' then secondDigit escape read boldOff
  else if c = '3' then secondDigit escape read (foreground p)
  else if c = '4' then secondDigit escape read (background p)
  else if c = '9' then secondDigit escape read (brightForeground p)
  else some ([], read)

/-- The `while`, for so many turns. -/
def renditionLoop : ℕ → ℕ → Option (List Call)
  | 0, _ => none
  | fuel + 1, read => do
    let (calls, read) ← switchRead p escape read
    let read := read + 1
    let c ← escape[read]?
    if c ≠ ';' then some calls
    else
      let rest ← renditionLoop fuel read
      some (calls ++ rest)

/-- `case 'm'`. Every turn takes `read` further in the buffer. -/
def rendition : Option (List Call) := renditionLoop p escape size 2

end Rendition

/-! ## Writing -/

/-- What is kept between calls. -/
structure Console where
  currentEscape : List Char
  currentEscapeLength : ℕ
  deriving DecidableEq, Repr

/-- `char _currentEscape[64] = ""` -/
def Console.new : Console := ⟨List.replicate size '\x00', 0⟩

/-- Where a call is: what has been called, and what was printed last. -/
structure Writing extends Console where
  lastString : ℕ
  calls : List Call
  deriving DecidableEq, Repr

/-- `_currentEscape[i] = c` -/
def put (escape : List Char) (i : ℕ) (c : Char) : Option (List Char) :=
  if i < escape.length then some (escape.set i c) else none

/-- A turn of the loop of `write_text`, at the character `c` of index `i`. -/
def writeChar (p : Palette) (str : List Char) (i : ℕ) (c : Char) (w : Writing) : Option Writing :=
  if c = esc ∨ w.currentEscapeLength > 0 then do
    let calls := if w.currentEscapeLength = 0 then
        w.calls ++ [.writeRawText ((str.take i).drop w.lastString)]
      else w.calls
    let escape ← put w.currentEscape w.currentEscapeLength c
    let length := w.currentEscapeLength + 1
    if (length = 2 ∧ escape[1]? ≠ some '[') ∨ length + 1 = size then do
      let escape ← put escape length '\x00'
      some ⟨⟨escape, 0⟩, 1, calls ++ [.writeRawText (cString escape)]⟩
    else if isLetter c then do
      let rendered ← if c = 'm' then rendition p escape else some []
      some ⟨⟨escape, 0⟩, i + 1, calls ++ rendered⟩
    else some ⟨⟨escape, length⟩, w.lastString, calls⟩
  else some w

/-- The loop, from the character of index `i`. -/
def writeLoop (p : Palette) (str : List Char) : ℕ → List Char → Writing → Option Writing
  | _, [], w => some w
  | i, c :: rest, w => do
    let w ← writeChar p str i c w
    writeLoop p str (i + 1) rest w

/-- `write_text(str)` -/
def writeText (p : Palette) (console : Console) (str : List Char) :
    Option (Console × List Call) := do
  let str := cString str
  let w ← writeLoop p str 0 str ⟨console, 0, []⟩
  some (w.toConsole, w.calls ++ [.writeRawText (str.drop w.lastString)])

/-- One call after the other, and all that they call. -/
def writeTexts (p : Palette) : Console → List (List Char) → Option (Console × List Call)
  | console, [] => some (console, [])
  | console, str :: strs => do
    let (console, calls) ← writeText p console str
    let (console, rest) ← writeTexts p console strs
    some (console, calls ++ rest)

/-! ## What it is for -/

/-- What a text is made of. -/
inductive Item
  | plain (c : Char)
  /-- A sequence that fits. -/
  | sequence (s : List Char)
  | rejected (s : List Char)
  deriving DecidableEq, Repr

namespace Item

/-- The characters an item is of. -/
def source : Item → List Char
  | .plain c => [c]
  | .sequence s | .rejected s => s

/-- Those of them that are shown. -/
def shown : Item → List Char
  | .plain c => [c]
  | .rejected s => s
  | .sequence _ => []

/-- The item is rejected. -/
def IsRejected : Item → Prop
  | .rejected _ => True
  | .plain _ | .sequence _ => False

instance : DecidablePred IsRejected
  | .rejected _ => inferInstanceAs (Decidable True)
  | .plain _ | .sequence _ => inferInstanceAs (Decidable False)

end Item

/-- What has been parsed of a text, and the unfinished sequence it ends in. -/
structure Parsed where
  items : List Item
  pending : List Char
  deriving DecidableEq, Repr

/-- A character after an unfinished sequence. There has to be room for another,
and for a null after it. -/
def accept (pending : List Char) (c : Char) : List Item × List Char :=
  if pending = [] ∧ c ≠ esc then ([.plain c], [])
  else if (pending.length = 1 ∧ c ≠ '[') ∨ pending.length + 2 = size then
    ([.rejected (pending ++ [c])], [])
  else if isLetter c then ([.sequence (pending ++ [c])], [])
  else ([], pending ++ [c])

def Parsed.step (r : Parsed) (c : Char) : Parsed :=
  ⟨r.items ++ (accept r.pending c).1, (accept r.pending c).2⟩

/-- The parse of a text that follows an unfinished sequence. -/
def parse (pending text : List Char) : Parsed := run Parsed.step ⟨[], pending⟩ text

/-- The first parameter of a sequence. -/
def firstParameter (s : List Char) : List Char :=
  (s.drop 2).takeWhile fun c => !(c = ';' || c = 'm')

/-- **What a parameter calls for.** -/
def parameterCalls (p : Palette) : List Char → List Call
  | [a] =>
    if a = '0' then [.clearForegroundColour, .clearBackgroundColour, .setBold false]
    else if a = '1' then [.setBold true]
    else []
  | [a, b] =>
    if a = '2' then boldOff b
    else if a = '3' then foreground p b
    else if a = '4' then background p b
    else if a = '9' then brightForeground p b
    else []
  | [a, _, c] => if a = '1' then brightForeground p c else []
  | _ => []

/-- What an item calls for, by its own characters. -/
def Item.colours (p : Palette) : Item → List Call
  | .sequence s => if s.getLast? = some 'm' then parameterCalls p (firstParameter s) else []
  | .plain _ | .rejected _ => []

/-- What was written to the console. -/
def Call.raw : Call → List Char
  | .writeRawText s => s
  | _ => []

/-- The calls that are not of text. -/
def Call.isColour : Call → Bool
  | .writeRawText _ => false
  | _ => true

/-- **A text is shown as it is made up**, however it comes: no index is past
the buffer, what is written is what is shown of each of its items, and the
colours are those of its sequences. -/
def Shows (p : Palette) (strs : List (List Char)) : Prop :=
  ∃ console calls, writeTexts p .new strs = some (console, calls) ∧
    calls.flatMap Call.raw = (parse [] (strs.flatMap cString)).items.flatMap Item.shown ∧
      calls.filter Call.isColour =
        (parse [] (strs.flatMap cString)).items.flatMap (Item.colours p)

/-- **Text that is whole**: nothing of it is rejected, and it ends outside a
sequence. -/
def Whole (text : List Char) : Prop :=
  (∀ item ∈ (parse [] text).items, ¬item.IsRejected) ∧ (parse [] text).pending = []

end ConsoleOut

end Uberos
