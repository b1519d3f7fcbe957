import Mathlib.Algebra.Group.Nat.Defs
import Mathlib.Algebra.Ring.Int.Defs
/-!
# Writing a text on the console

`Textmode::write_text` of `drivers/Textmode.cpp`. A pointer into the text is
what there is from there on, and what a pointer is past another is the
difference of their lengths. The colours of a call are the caller's in every
call that is made for it.
-/

namespace Uberos

namespace Textmode

inductive WrapMode
  | none
  | whitespace
  | endOfLine
  deriving DecidableEq, Repr

/-- The part of `Cursor` that a call moves. -/
structure Cursor where
  row : ℕ
  col : ℕ
  deriving DecidableEq, Repr

/-- What a call does to the screen. A character is none where it is not of
the text. -/
inductive Event
  | setChar (row col : ℕ) (char : Option (BitVec 8))
  | scroll
  deriving DecidableEq, Repr

/-- What a call has done, and where it leaves the cursor. -/
structure Result where
  events : List Event
  cursor : Cursor
  deriving DecidableEq, Repr

/-- What is done first. -/
def Result.after (events : List Event) (result : Result) : Result :=
  { result with events := events ++ result.events }

/-- A number as a `U32`. -/
def u32 (n : ℤ) : ℕ := (n % 2 ^ 32).toNat

def newline : BitVec 8 := 10#8

def space : BitVec 8 := 32#8

def hyphen : BitVec 8 := 45#8

/-- `*c==' '||*c=='-'` -/
def isBreak (c : BitVec 8) : Bool := c = space || c = hyphen

/-- The `set_chars` of `Textmode.hpp`. -/
def setChars (row col count : ℕ) (chars : List (BitVec 8)) : List Event :=
  (List.range count).map fun (k : ℕ) => .setChar row (u32 (col + k)) (chars[k]?)

/-- `c-fromChar` -/
def past (c fromChar : List (BitVec 8)) : ℤ := fromChar.length - c.length

/-- The region of a cursor, the rows that there are, and `autoScroll`. -/
structure Console where
  rows : ℕ
  colStart : ℕ
  colEnd : ℕ
  autoScroll : Bool
  deriving DecidableEq, Repr

namespace Console

variable (t : Console)

/-- The end of a call: what has been kept back is written. -/
def finish (fromChar : List (BitVec 8)) (fromCol row col : ℕ) (c : List (BitVec 8)) : Result :=
  ⟨setChars row fromCol (u32 (past c fromChar)) fromChar, ⟨row, col⟩⟩

/-- `cursor.row++`, and what is done where it was the last row: the loop
ends there without `autoScroll`. -/
def nextRow (row : ℕ) (stop : Result) (go : ℕ → Result) : Result :=
  if row + 1 < t.rows then go (row + 1)
  else if t.autoScroll then (go (t.rows - 1)).after [.scroll]
  else stop

/-- What is written at a newline in the modes that leave a character out. -/
def flushShort (fromChar : List (BitVec 8)) (fromCol row : ℕ) (c : List (BitVec 8)) :
    List Event :=
  if past c fromChar - 1 > 0 then setChars row fromCol (u32 (past c fromChar - 1)) fromChar else []

/-- The loop of `WrapMode::none`, which passes two columns for a character. -/
def noneLoop (fromChar : List (BitVec 8)) (fromCol row col : ℕ) : List (BitVec 8) → Result
  | [] => finish fromChar fromCol row col []
  | char :: c =>
    if col < t.colEnd then
      if char = newline then
        (t.nextRow row (finish c t.colStart (row + 1) t.colStart (char :: c)) fun row =>
          noneLoop c t.colStart row (u32 (t.colStart + 1)) c).after
            (flushShort fromChar fromCol row (char :: c))
      else noneLoop fromChar fromCol row (u32 (u32 (col + 1) + 1)) c
    else finish fromChar fromCol row col (char :: c)

/-- The loop of `WrapMode::endOfLine`. Its test of the row at the end of a
turn finds nothing where the row is the same. -/
def endOfLineLoop (fromChar : List (BitVec 8)) (fromCol row col : ℕ) : List (BitVec 8) → Result
  | [] => finish fromChar fromCol row col []
  | char :: c =>
    if char = newline then
      (t.nextRow row (finish c t.colStart (row + 1) t.colStart (char :: c)) fun row =>
        endOfLineLoop c t.colStart row t.colStart c).after
          (flushShort fromChar fromCol row (char :: c))
    else if u32 (col + 1) ≥ t.colEnd then
      (t.nextRow row (finish (char :: c) t.colStart (row + 1) t.colStart (char :: c)) fun row =>
        endOfLineLoop (char :: c) t.colStart row t.colStart c).after
          (setChars row fromCol (u32 (past (char :: c) fromChar)) fromChar)
    else endOfLineLoop fromChar fromCol row (u32 (col + 1)) c

/-- The loop of `WrapMode::whitespace`. What `lastCharCol` is added first at
a break is not read: both of its branches set it. -/
def whitespaceLoop (lastChar : List (BitVec 8)) (lastCharCol : ℕ) (fromChar : List (BitVec 8))
    (fromCol row col : ℕ) : List (BitVec 8) → Result
  | [] => finish fromChar fromCol row col []
  | char :: c =>
    if col < t.colEnd then
      if char = newline then
        (t.nextRow row (finish c t.colStart (row + 1) t.colStart (char :: c)) fun row =>
          whitespaceLoop lastChar.tail t.colStart c t.colStart row t.colStart c).after
            (setChars row fromCol (u32 (past (char :: c) fromChar)) fromChar)
      else if isBreak char then
        if u32 (col + 1) ≥ t.colEnd then
          let lastChar := if char = space then c else char :: c
          (t.nextRow row (finish (char :: c) t.colStart (row + 1) t.colStart (char :: c)) fun row =>
            whitespaceLoop lastChar t.colStart (char :: c) t.colStart row t.colStart c).after
              (setChars row fromCol (u32 (past (char :: c) fromChar)) fromChar)
        else whitespaceLoop c (u32 (col + 1)) fromChar fromCol row (u32 (col + 1)) c
      else if u32 (col + 1) ≥ t.colEnd then
        if lastCharCol = t.colStart then
          -- the word is from the line's start
          (t.nextRow row (finish (char :: c) t.colStart (row + 1) t.colStart (char :: c)) fun row =>
            whitespaceLoop lastChar t.colStart (char :: c) t.colStart row t.colStart c).after
              (setChars row fromCol (u32 (past (char :: c) fromChar)) fromChar)
        else
          let spaces := u32 (u32 (col + 1) - lastCharCol)
          (t.nextRow row (finish lastChar t.colStart (row + 1) t.colStart (char :: c)) fun row =>
            whitespaceLoop lastChar t.colStart lastChar t.colStart row t.colStart c).after
              (setChars row fromCol (u32 (past lastChar fromChar)) fromChar ++
                setChars row lastCharCol spaces (List.replicate spaces space))
      else whitespaceLoop lastChar lastCharCol fromChar fromCol row (u32 (col + 1)) c
    else finish fromChar fromCol row col (char :: c)

/-- **`write_text`.** -/
def writeText (mode : WrapMode) (cursor : Cursor) (text : List (BitVec 8)) : Result :=
  if cursor.row ≥ t.rows ∨ cursor.col ≥ t.colEnd then ⟨[], cursor⟩
  else match mode with
    | .none => t.noneLoop text cursor.col cursor.row cursor.col text
    | .endOfLine => t.endOfLineLoop text cursor.col cursor.row cursor.col text
    | .whitespace => t.whitespaceLoop text cursor.col text cursor.col cursor.row cursor.col text

end Console

/-!
## What writing a text is to do

A text is set character by character: each in the next cell of the region,
from the next row's start where a row is full or a line ends. With
`WrapMode::whitespace` a word that does not fit where it begins begins on the
next row, and what is left of its row is blank. A row after the last is made
by a scroll, or the text ends there.
-/

/-- A character of a word. -/
def isWord (c : BitVec 8) : Bool := c != newline && !isBreak c

/-- How much of a word a text begins with. -/
def wordLength (text : List (BitVec 8)) : ℕ := (text.takeWhile isWord).length

/-- Characters in consecutive cells. -/
def puts (row col : ℕ) (chars : List (BitVec 8)) : List Event :=
  chars.mapIdx fun k char => .setChar row (col + k) (some char)

namespace Console

variable (t : Console)

/-- Where there is no next row. -/
def stopped (row : ℕ) : Result := ⟨[], ⟨row + 1, t.colStart⟩⟩

variable (moves : Bool) in
/-- **Setting a text.** A word begins at the start of the text, of a line, or
after a break; it is moved to the next row if words are moved at all. -/
def typeset (begins : Bool) (row col : ℕ) : List (BitVec 8) → Result
  | [] => ⟨[], ⟨row, col⟩⟩
  | char :: text =>
    if char = newline then
      t.nextRow row (t.stopped row) fun row => typeset true row t.colStart text
    else if moves ∧ begins ∧ col ≠ t.colStart ∧ t.colEnd < col + wordLength (char :: text) then
      (t.nextRow row (t.stopped row) fun row =>
        (if t.colStart + 1 < t.colEnd then typeset (isBreak char) row (t.colStart + 1) text
          else t.nextRow row (t.stopped row) fun row =>
            typeset (isBreak char) row t.colStart text).after
          (puts row t.colStart [char])).after
        (puts row col (List.replicate (t.colEnd - col) space))
    else
      (if col + 1 < t.colEnd then typeset (isBreak char) row (col + 1) text
        else t.nextRow row (t.stopped row) fun row =>
          typeset (isBreak char) row t.colStart text).after
        (puts row col [char])

/-- A cursor is in its region, and that on the screen. -/
structure Inside (cursor : Cursor) : Prop where
  row_lt : cursor.row < t.rows
  colStart_le : t.colStart ≤ cursor.col
  col_lt : cursor.col < t.colEnd
  rows_lt : t.rows < 2 ^ 32
  colEnd_lt : t.colEnd < 2 ^ 32

/-- **A text is written** as it is to be set. -/
def Writes (mode : WrapMode) (cursor : Cursor) (text : List (BitVec 8)) : Prop :=
  t.writeText mode cursor text
    = t.typeset (mode = .whitespace) true cursor.row cursor.col text

instance (mode : WrapMode) (cursor : Cursor) (text : List (BitVec 8)) :
    Decidable (t.Writes mode cursor text) := inferInstanceAs (Decidable (_ = _))

/-! ## What is written so -/

/-- There is a row after `row`, or one is made. -/
def More (row : ℕ) : Prop := row + 1 < t.rows ∨ t.autoScroll

/-- That row. -/
def next (row : ℕ) : ℕ := if row + 1 < t.rows then row + 1 else t.rows - 1

/-- With `WrapMode::endOfLine`: newlines, and then a line that ends before
the last column. -/
def KeptLine (cursor : Cursor) (text : List (BitVec 8)) : Prop :=
  ∃ n line, text = List.replicate n newline ++ line ∧ newline ∉ line ∧
    (t.autoScroll ∨ cursor.row + n < t.rows) ∧
    (if n = 0 then cursor.col else t.colStart) + line.length < t.colEnd

/-- **With `WrapMode::whitespace`**: lines that end before the last column,
or of which a word is moved. What is moved is not counted in the row that it
is moved to, so that the line is to end there, before the last column, and
with a newline. Only if it is a single character is a full row then left in
time: before a break, or in a word that is from its start. -/
inductive KeptWords : (row col : ℕ) → (moved text : List (BitVec 8)) → Prop
  | ends {row col line} (hline : newline ∉ line) (hfits : col + line.length < t.colEnd) :
      KeptWords row col [] line
  | newline {row col moved line text} (hline : newline ∉ line)
      (hfits : col + moved.length + line.length < t.colEnd) (hmore : t.More row)
      (hrest : KeptWords (t.next row) t.colStart [] text) :
      KeptWords row col moved (line ++ newline :: text)
  | moves {row col line word char c text} (hline : newline ∉ line)
      (hbegins : (line = [] ∧ col ≠ t.colStart) ∨ ∃ c, line.getLast? = some c ∧ isBreak c)
      (hword : ∀ c ∈ word, isWord c) (hchar : isWord char) (hc : isWord c)
      (hfull : col + line.length + word.length + 1 = t.colEnd)
      (hrest : t.More row → KeptWords (t.next row) t.colStart (word ++ [char]) (c :: text))
      (hlast : ¬t.More row → word = []) :
      KeptWords row col [] (line ++ word ++ char :: c :: text)
  | full {row first line char text} (hline : newline ∉ line) (hchar : char ≠ newline)
      (hfull : t.colStart + line.length + 1 = t.colEnd)
      (hbreak : isBreak char ∨
        (∀ c ∈ line, ¬isBreak c) ∧ (isBreak first → line = []))
      (hrest : t.More row → KeptWords (t.next row) t.colStart [char] text) :
      KeptWords row t.colStart [first] (line ++ char :: text)

/-- **What is written as it is to be**: with `WrapMode::none` nothing. -/
def Kept (mode : WrapMode) (cursor : Cursor) (text : List (BitVec 8)) : Prop :=
  match mode with
  | .none => text = []
  | .endOfLine => t.KeptLine cursor text
  | .whitespace => t.KeptWords cursor.row cursor.col [] text

end Console

end Textmode

end Uberos
