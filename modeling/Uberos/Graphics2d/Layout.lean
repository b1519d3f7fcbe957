import Uberos.DisplayManager.Model
import Uberos.Maths.Fixed
/-!
# Drawing and measuring a text

`Buffer::draw_text` and `Buffer::measure_text` of
`common/graphics2d/Buffer.cpp`. Their loops are the same but for where a
line starts and for what is painted. A text is what is before its null;
coordinates do not overflow. The heights of a line and of a capital are
those of the size.
-/

namespace Uberos

namespace Graphics2d

/-! ## Fonts -/

/-- `FontCharacter`. -/
structure FontCharacter where
  code : BitVec 32
  advance : Fixed
  offsetX : Fixed
  offsetY : Fixed
  atlasX : BitVec 32
  atlasY : BitVec 32
  atlasWidth : BitVec 32
  atlasHeight : BitVec 32
  deriving DecidableEq, Repr

/-- `Font`, of which the atlas is read by `draw_msdf` only. -/
structure Font where
  size : BitVec 32
  characters : List FontCharacter

/-- The loop of `get_character`. -/
def findCharacter (code : BitVec 32) : List FontCharacter → Option FontCharacter
  | [] => none
  | character :: characters =>
    if character.code > code then none
    else if character.code = code then some character
    else findCharacter code characters

/-- `get_character`. -/
def Font.getCharacter (font : Font) (code : BitVec 32) : Option FontCharacter :=
  findCharacter code font.characters

/-- `FontSettings`, with the heights that a line and a capital have. -/
structure FontSettings where
  font : Font
  size : BitVec 32
  lineSpacing : ℤ
  charSpacing : ℤ
  maxLines : BitVec 32
  lineHeight : ℤ
  capHeight : ℤ

/-- `DrawTextResult`. -/
structure DrawTextResult where
  x : ℤ
  y : ℤ
  capHeight : ℤ
  lineHeight : ℤ
  rect : Rect
  updatedArea : Rect
  lines : BitVec 32
  clipped : Bool
  deriving DecidableEq, Repr

/-! ## The pen -/

/-- The variables of the loop, and what has been painted. -/
structure Pen (Painted : Type) where
  x : Fixed
  y : Fixed
  x2 : ℤ
  lines : BitVec 32
  clipped : Bool
  updatedArea : Rect
  painted : List Painted

/-- Where a character is. -/
structure Box where
  x1 : Fixed
  y1 : Fixed
  x2 : Fixed
  y2 : Fixed

/-- The pixels of it. -/
def Box.display (box : Box) : Rect :=
  ⟨box.x1.roundDown, box.y1.roundDown, box.x2.roundUp, box.y2.roundUp⟩

namespace Pen

variable {Painted : Type} (settings : FontSettings) (scale : Fixed) (startX : ℤ) (right : Fixed)
variable (paint : FontCharacter → Box → Option (List Painted)) (character : FontCharacter)
variable (xAdvancement : Fixed) (p : Pen Painted)

/-- The start of the next line. -/
def newLine : Pen Painted :=
  { p with
    x := .whole startX
    y := p.y.add (settings.lineHeight + settings.lineSpacing) }

def box : Box :=
  let x1 := p.x.addFixed (character.offsetX.multiply settings.size.toInt)
  let y1 := p.y.subtractFixed (character.offsetY.multiply settings.size.toInt)
  ⟨x1, y1, x1.addFixed (scale.multiply character.atlasWidth.toInt),
    y1.addFixed (scale.multiply character.atlasHeight.toInt)⟩

/-- A character is painted, and passed. -/
def place : Option (Pen Painted) :=
  if character.atlasWidth ≠ 0 ∧ character.atlasHeight ≠ 0 then
    let box := p.box settings scale character
    (paint character box).map fun painted =>
      { p with
        updatedArea := p.updatedArea.extend box.display
        painted := p.painted ++ painted
        x := p.x.addFixed xAdvancement }
  else some { p with x := p.x.addFixed xAdvancement }

/-- What is done after the `switch`. -/
def check : Pen Painted :=
  { p with
    x2 := max p.x2 p.x.round
    clipped := if p.lines > settings.maxLines then true else p.clipped }

/-- A turn of the loop. -/
def turn (first : Bool) (c : BitVec 8) : Option (Pen Painted) :=
  if c = 10#8 then
    let p := { p with lines := p.lines + 1 }
    some ((if p.lines > settings.maxLines then p else p.newLine settings startX).check settings)
  else
    match settings.font.getCharacter (c.signExtend 32) with
    | none => some p
    | some character =>
      let xAdvancement :=
        ((character.advance.multiply settings.font.size.toInt).multiplyFixed scale).add
          settings.charSpacing
      if first = false ∧ right.value ≤ (p.x.addFixed xAdvancement).value then
        let p := { p with lines := p.lines + 1 }
        if p.lines > settings.maxLines then some (p.check settings)
        else
          ((p.newLine settings startX).place settings scale paint character xAdvancement).map
            (·.check settings)
      else (p.place settings scale paint character xAdvancement).map (·.check settings)

/-- The loop, which ends where it is clipped. -/
def run : Bool → List (BitVec 8) → Pen Painted → Option (Pen Painted)
  | _, [], p => some p
  | first, c :: text, p =>
    (p.turn settings scale startX right paint first c).bind fun p =>
      if p.clipped then some p else run false text p

/-- The pen before the loop. -/
def start (cursorX startY : ℤ) : Pen Painted where
  x := .whole cursorX
  y := .whole startY
  x2 := cursorX
  lines := 1
  clipped := false
  updatedArea := ⟨cursorX, startY, cursorX, startY⟩
  painted := []

end Pen

/-! ## The functions -/

/-- A call of `draw_msdf`. -/
structure Msdf where
  startX : ℤ
  startY : ℤ
  width : ℤ
  height : ℤ
  sourceX : ℤ
  sourceY : ℤ
  sourceWidth : ℤ
  sourceHeight : ℤ
  skipSourceLeft : ℤ
  skipSourceTop : ℤ
  skipSourceRight : ℤ
  skipSourceBottom : ℤ
  deriving DecidableEq, Repr

/-- A skip of the source, of a part of a pixel. -/
def skip (scale part : Fixed) : Option ℤ := (part.divideFixed scale).map Fixed.round

/-- What is painted of a character: at half size or less, without what of
the source is outside it. -/
def msdf (scale : Fixed) (character : FontCharacter) (box : Box) : Option (List Msdf) :=
  let display := box.display
  let call (skipLeft skipTop skipRight skipBottom : ℤ) : Msdf :=
    ⟨display.x1, display.y1, display.x2 - display.x1, display.y2 - display.y1,
      character.atlasX.toInt - skipLeft, character.atlasY.toInt - skipTop,
      character.atlasWidth.toInt + skipLeft + skipRight,
      character.atlasHeight.toInt + skipTop + skipBottom,
      skipLeft, skipTop, skipRight, skipBottom⟩
  if scale.value ≤ 128 then do
    let skipLeft ← skip scale (box.x1.subtract display.x1)
    let skipTop ← skip scale (box.y1.subtract display.y1)
    let skipRight ← skip scale ((Fixed.whole display.x2).subtractFixed box.x2)
    let skipBottom ← skip scale ((Fixed.whole display.y2).subtractFixed box.y2)
    return [call skipLeft skipTop skipRight skipBottom]
  else some [call 0 0 0 0]

variable (settings : FontSettings) (text : List (BitVec 8)) (width : BitVec 32)

/-- **`draw_text`**, with the calls that paint. It has no result where it
divides by zero. -/
def drawText (startX startY cursorX : ℤ) : Option (DrawTextResult × List Msdf) := do
  let right := Fixed.whole (startX + width.toInt)
  let scale ← Fixed.divide settings.size.toInt settings.font.size.toInt
  let p ← Pen.run settings scale startX right (msdf scale) true text (.start cursorX startY)
  let blockWidth := p.x2 - startX
  let blockHeight := p.y.round + settings.capHeight
  return ({
    x := p.x.roundUp
    y := p.y.roundUp
    capHeight := settings.capHeight
    lineHeight := settings.lineHeight
    rect := ⟨startX, startY, startX + blockWidth, startY + blockHeight⟩
    updatedArea := p.updatedArea
    lines := p.lines
    clipped := p.clipped }, p.painted)

/-- **`measure_text`**. It paints nothing. -/
def measureText (cursorX : ℤ) : Option DrawTextResult := do
  let right := Fixed.whole (if width < 8388607 then width else 8388607).toInt
  let scale ← Fixed.divide settings.size.toInt settings.font.size.toInt
  let p ← Pen.run settings scale 0 right (fun _ _ => some ([] : List Msdf)) true text
    (.start cursorX 0)
  let blockWidth := p.x2
  let blockHeight := p.y.round + settings.capHeight
  return {
    x := p.x.roundUp
    y := p.y.roundUp
    capHeight := settings.capHeight
    lineHeight := settings.lineHeight
    rect := ⟨0, 0, blockWidth, blockHeight⟩
    updatedArea := p.updatedArea
    lines := p.lines
    clipped := p.clipped }

end Graphics2d

end Uberos

/-!
## The layout of a text

Where the characters of a text are, from a start at the origin. A loop
that starts somewhere else moves all of it, and ends unless it paints a
character that it cannot.
-/

namespace Uberos.Graphics2d

variable {Painted : Type} {settings : FontSettings} {scale right : Fixed} {startX startY : ℤ}
variable {paint : FontCharacter → Box → Option (List Painted)} {character : FontCharacter}
variable {xAdvancement : Fixed} {first : Bool} {c : BitVec 8} {text : List (BitVec 8)}

/-- **The layout of a text** from the origin: the boxes are put out that
its characters have, and nothing is painted. -/
abbrev layOut (settings : FontSettings) (scale right : Fixed) :
    Bool → List (BitVec 8) → Pen Rect → Option (Pen Rect) :=
  Pen.run settings scale 0 right fun _ box => some [box.display]

/-! ## A loop that is moved -/

/-- The pen of a loop is that of the layout, moved. What is painted is
not told, but whether it can be. -/
structure Moved (startX startY : ℤ) (area : Rect) (Paints : Prop) (p : Pen Rect) (q : Pen Painted) :
    Prop where
  x : q.x = p.x.add startX
  y : q.y = p.y.add startY
  whole : ∃ n, p.y = .whole n
  x2 : q.x2 = p.x2 + startX
  nonneg : 0 ≤ p.x2
  lines : q.lines = p.lines
  clipped : q.clipped = p.clipped
  updatedArea : q.updatedArea
    = p.painted.foldl (fun area box => area.extend (box.offset startX startY)) area
  paints : Paints ∨ p.painted = []

/-- **A loop follows the layout**: it is moved, or it has ended at the
first box that it cannot paint. -/
def Follows (startX startY : ℤ) (area : Rect) (Paints : Prop) (p : Pen Rect) :
    Option (Pen Painted) → Prop
  | some q => Moved startX startY area Paints p q
  | none => ¬Paints ∧ p.painted ≠ []

/-- It can paint any character or none. -/
structure PaintsIf (paint : FontCharacter → Box → Option (List Painted)) (Paints : Prop) : Prop where
  some : Paints → ∀ character box, ∃ painted, paint character box = .some painted
  none : ¬Paints → ∀ character box, paint character box = .none

variable {area : Rect} {Paints : Prop} {p p' : Pen Rect} {q : Pen Painted}

theorem Moved.check (h : Moved startX startY area Paints p q) (hstart : 0 ≤ startX) :
    Moved startX startY area Paints (p.check settings) (q.check settings) where
  x := h.x
  y := h.y
  whole := h.whole
  x2 := by
    rw [Pen.check, Pen.check, h.x2, h.x]
    exact Fixed.max_round_add hstart h.nonneg
  nonneg := Int.le_trans h.nonneg (Int.le_max_left _ _)
  lines := h.lines
  clipped := by
    rw [Pen.check, Pen.check, h.lines, h.clipped]
  updatedArea := h.updatedArea
  paints := h.paints

theorem Moved.newLine (h : Moved startX startY area Paints p q) :
    Moved startX startY area Paints (p.newLine settings 0) (q.newLine settings startX) where
  x := by
    rw [Pen.newLine, Pen.newLine, Fixed.whole_add, Int.zero_add]
  y := by
    rw [Pen.newLine, Pen.newLine, h.y]
    ext
    simp only [Fixed.value_add]
    omega
  whole := by
    obtain ⟨n, hwhole⟩ := h.whole
    exact ⟨n + (settings.lineHeight + settings.lineSpacing), by
      rw [Pen.newLine, hwhole, Fixed.whole_add]⟩
  x2 := h.x2
  nonneg := h.nonneg
  lines := h.lines
  clipped := h.clipped
  updatedArea := h.updatedArea
  paints := h.paints

/-- Another line is counted. -/
theorem Moved.count (h : Moved startX startY area Paints p q) :
    Moved startX startY area Paints { p with lines := p.lines + 1 }
      { q with lines := p.lines + 1 } :=
  ⟨h.x, h.y, h.whole, h.x2, h.nonneg, rfl, h.clipped, h.updatedArea, h.paints⟩

/-- **The pixels of a character are moved with it.** -/
theorem Moved.display (h : Moved startX startY area Paints p q) :
    (q.box settings scale character).display
      = (p.box settings scale character).display.offset startX startY := by
  have hbox : q.box settings scale character
      = ⟨(p.box settings scale character).x1.add startX,
          (p.box settings scale character).y1.add startY,
          (p.box settings scale character).x2.add startX,
          (p.box settings scale character).y2.add startY⟩ := by
    rw [Pen.box, Pen.box, h.x, h.y]
    simp only [Box.mk.injEq, Fixed.ext_iff, Fixed.value_add, Fixed.value_addFixed,
      Fixed.value_subtractFixed]
    omega
  rw [hbox, Box.display, Box.display, Rect.offset]
  simp only [Fixed.roundDown_add, Fixed.roundUp_add]

theorem Moved.advance (h : Moved startX startY area Paints p q) :
    q.x.addFixed xAdvancement = (p.x.addFixed xAdvancement).add startX := by
  rw [h.x]
  ext
  simp only [Fixed.value_add, Fixed.value_addFixed]
  omega

/-! ## A character -/

variable (settings scale character xAdvancement) in
/-- **A character is painted where it is**, or it cannot be. -/
theorem Moved.place (h : Moved startX startY area Paints p q) (hpaint : PaintsIf paint Paints) :
    ∃ p', p.place settings scale (fun _ box => some [box.display]) character xAdvancement = some p' ∧
      Follows startX startY area Paints p'
        (q.place settings scale paint character xAdvancement) := by
  by_cases hatlas : character.atlasWidth ≠ 0 ∧ character.atlasHeight ≠ 0
  · refine ⟨_, if_pos hatlas, ?_⟩
    rw [Pen.place, if_pos hatlas]
    by_cases hpaints : Paints
    · obtain ⟨painted, hpainted⟩ := hpaint.some hpaints character (q.box settings scale character)
      dsimp only
      rw [hpainted]
      refine ⟨h.advance, h.y, h.whole, h.x2, h.nonneg, h.lines, h.clipped, ?_, Or.inl hpaints⟩
      rw [h.updatedArea, h.display, List.foldl_append]
      rfl
    · dsimp only
      rw [hpaint.none hpaints]
      exact ⟨hpaints, List.append_ne_nil_of_right_ne_nil _ (List.cons_ne_nil _ _)⟩
  · refine ⟨_, if_neg hatlas, ?_⟩
    rw [Pen.place, if_neg hatlas]
    exact ⟨h.advance, h.y, h.whole, h.x2, h.nonneg, h.lines, h.clipped, h.updatedArea, h.paints⟩

/-- After the `switch` it is followed as before. -/
theorem Follows.check {r : Option (Pen Painted)} (h : Follows startX startY area Paints p r)
    (hstart : 0 ≤ startX) :
    Follows startX startY area Paints (p.check settings) (r.map (·.check settings)) := by
  cases r with
  | none => exact h
  | some q => exact Moved.check h hstart

variable (settings scale right first c) in
/-- **A turn of the loop** follows that of the layout. -/
theorem Moved.turn (h : Moved startX startY area Paints p q) (hpaint : PaintsIf paint Paints)
    (hstart : 0 ≤ startX) :
    ∃ p', p.turn settings scale 0 right (fun _ box => some [box.display]) first c = some p' ∧
      Follows startX startY area Paints p'
        (q.turn settings scale startX (right.add startX) paint first c) := by
  unfold Pen.turn
  by_cases hnewline : c = 10#8
  · refine ⟨_, if_pos hnewline, ?_⟩
    rw [if_pos hnewline]
    dsimp only
    rw [h.lines]
    split
    · exact h.count.check hstart
    · exact h.count.newLine.check hstart
  · rw [if_neg hnewline, if_neg hnewline]
    cases settings.font.getCharacter (c.signExtend 32) with
    | none => exact ⟨p, rfl, h⟩
    | some character =>
      dsimp only
      generalize ((character.advance.multiply settings.font.size.toInt).multiplyFixed scale).add
        settings.charSpacing = xAdvancement
      -- the right edge is moved with the pen
      have hright : (right.add startX).value ≤ (q.x.addFixed xAdvancement).value ↔
          right.value ≤ (p.x.addFixed xAdvancement).value := by
        rw [h.advance, Fixed.value_add, Fixed.value_add]
        omega
      simp only [hright]
      by_cases hwrap : first = false ∧ right.value ≤ (p.x.addFixed xAdvancement).value
      · rw [if_pos hwrap, if_pos hwrap, h.lines]
        by_cases hlines : p.lines + 1 > settings.maxLines
        · rw [if_pos hlines, if_pos hlines]
          exact ⟨_, rfl, h.count.check hstart⟩
        · rw [if_neg hlines, if_neg hlines]
          obtain ⟨p', hplace, hfollows⟩ := h.count.newLine.place settings scale character
            xAdvancement hpaint
          exact ⟨p'.check settings, by rw [hplace]; rfl, hfollows.check hstart⟩
      · rw [if_neg hwrap, if_neg hwrap]
        obtain ⟨p', hplace, hfollows⟩ := h.place settings scale character xAdvancement hpaint
        exact ⟨p'.check settings, by rw [hplace]; rfl, hfollows.check hstart⟩

/-! ## The loop -/

variable (settings scale character xAdvancement) in
/-- The layout paints any character, -/
theorem exists_place (p : Pen Rect) : ∃ p',
    p.place settings scale (fun _ box => some [box.display]) character xAdvancement = some p' ∧
      (p.painted ≠ [] → p'.painted ≠ []) := by
  by_cases hatlas : character.atlasWidth ≠ 0 ∧ character.atlasHeight ≠ 0
  · exact ⟨_, if_pos hatlas, fun hne => List.append_ne_nil_of_left_ne_nil hne _⟩
  · exact ⟨_, if_neg hatlas, id⟩

variable (settings scale right first c) in
/-- in any turn, -/
theorem exists_turn (p : Pen Rect) : ∃ p',
    p.turn settings scale 0 right (fun _ box => some [box.display]) first c = some p' ∧
      (p.painted ≠ [] → p'.painted ≠ []) := by
  unfold Pen.turn
  split
  · refine ⟨_, rfl, fun hne => ?_⟩
    split
    · exact hne
    · exact hne
  · split
    · exact ⟨p, rfl, id⟩
    · dsimp only
      split
      · split
        · exact ⟨_, rfl, id⟩
        · obtain ⟨p', hplace, hne⟩ := exists_place settings scale _ _
            ({ p with lines := p.lines + 1 }.newLine settings 0)
          exact ⟨p'.check settings, by rw [hplace]; rfl, hne⟩
      · obtain ⟨p', hplace, hne⟩ := exists_place settings scale _ _ p
        exact ⟨p'.check settings, by rw [hplace]; rfl, hne⟩

variable (settings scale right first text) in
/-- and ends. What it has put out stays. -/
theorem exists_layOut (p : Pen Rect) : ∃ p', layOut settings scale right first text p = some p' ∧
    (p.painted ≠ [] → p'.painted ≠ []) := by
  induction text generalizing first p with
  | nil => exact ⟨p, rfl, id⟩
  | cons c text ih =>
    obtain ⟨p₁, hturn, hne⟩ := exists_turn settings scale right first c p
    rw [layOut, Pen.run, hturn, Option.bind_some]
    split
    · exact ⟨p₁, rfl, hne⟩
    · obtain ⟨p', hrun, hkept⟩ := ih false p₁
      exact ⟨p', hrun, fun h => hkept (hne h)⟩

variable (settings scale right first text) in
/-- **The loop follows the layout** of the whole text. -/
theorem Moved.run (h : Moved startX startY area Paints p q) (hpaint : PaintsIf paint Paints)
    (hstart : 0 ≤ startX) :
    ∃ p', layOut settings scale right first text p = some p' ∧
      Follows startX startY area Paints p'
        (q.run settings scale startX (right.add startX) paint first text) := by
  induction text generalizing first p q with
  | nil => exact ⟨p, rfl, h⟩
  | cons c text ih =>
    obtain ⟨p₁, hturn, hfollows⟩ := h.turn settings scale right first c hpaint hstart
    rw [layOut, Pen.run, Pen.run, hturn, Option.bind_some]
    cases hq : q.turn settings scale startX (right.add startX) paint first c with
    | none =>
      rw [hq] at hfollows
      -- what could not be painted stays in the layout
      split
      · exact ⟨p₁, rfl, hfollows⟩
      · obtain ⟨p', hrun, hkept⟩ := exists_layOut settings scale right false text p₁
        exact ⟨p', hrun, hfollows.1, hkept hfollows.2⟩
    | some q₁ =>
      rw [hq] at hfollows
      have hmoved : Moved startX startY area Paints p₁ q₁ := hfollows
      rw [Option.bind_some, hmoved.clipped]
      by_cases hclipped : p₁.clipped = true
      · rw [if_pos hclipped, if_pos hclipped]
        exact ⟨p₁, rfl, hmoved⟩
      · rw [if_neg hclipped, if_neg hclipped]
        exact ih false hmoved

end Uberos.Graphics2d
