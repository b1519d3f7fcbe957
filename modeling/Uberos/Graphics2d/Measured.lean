import Uberos.Graphics2d.Layout
/-!
# Where a text is drawn as it is measured

Both functions follow the layout, so they tell the same but for their
rectangles: `draw_text` adds where it starts to a height that has it
already, and an area that starts as the zero rectangle is taken to be
none, which only `measure_text`'s is when the text is to start on the
left.
-/

namespace Uberos.Graphics2d

variable {settings : FontSettings} {scale right : Fixed} {text : List (BitVec 8)}
variable {width : BitVec 32} {startX startY cursorX : ℤ} {boxes : List Rect} {area : Rect}

/-! ## What it is for -/

/-- A result that is moved. -/
def DrawTextResult.translate (result : DrawTextResult) (x y : ℤ) : DrawTextResult :=
  { result with
    x := result.x + x
    y := result.y + y
    rect := result.rect.offset x y
    updatedArea := result.updatedArea.offset x y }

/-- **A text is drawn as it is measured**: both functions end, and what is
drawn is what is measured, moved. -/
def DrawsAsMeasured (settings : FontSettings) (text : List (BitVec 8)) (width : BitVec 32)
    (startX startY cursorX : ℤ) : Prop :=
  ∃ drawn painted measured, drawText settings text width startX startY cursorX = some (drawn, painted) ∧
    measureText settings text width (cursorX - startX) = some measured ∧
      drawn = measured.translate startX startY

/-- The boxes of a text that starts at the origin, in order. -/
def boxesOf (settings : FontSettings) (text : List (BitVec 8)) (width : BitVec 32) (cursorX : ℤ)
    (scale : Fixed) : List Rect :=
  ((layOut settings scale (.whole width.toInt) true text (.start cursorX 0)).map Pen.painted).getD []

/-- Boxes reach the origin, unless they are of nothing. -/
def ReachesOrigin (boxes : List Rect) : Prop :=
  let area := boxes.foldl Rect.extend ⟨0, 0, 0, 0⟩
  area.x1 ≤ 0 ∧ area.y1 ≤ 0 ∧ 0 ≤ area.x2 ∧ 0 ≤ area.y2

instance (boxes : List Rect) : Decidable (ReachesOrigin boxes) := inferInstanceAs (Decidable (_ ∧ _))

/-- **Where it starts does not show**: no division is by zero, the text
starts at the top, and on the left, or after the start of its line, or
with boxes that reach to there. -/
def StartsAlike (settings : FontSettings) (text : List (BitVec 8)) (width : BitVec 32)
    (startX startY cursorX : ℤ) : Prop :=
  ∃ scale, Fixed.divide settings.size.toInt settings.font.size.toInt = some scale ∧
    (scale.value ≠ 0 ∨ boxesOf settings text width (cursorX - startX) scale = []) ∧ startY = 0 ∧
      (startX = 0 ∨ startX < cursorX ∨
        ReachesOrigin (boxesOf settings text width (cursorX - startX) scale))

/-! ## What is painted -/

/-- Nothing is painted that is measured. -/
theorem paintsIf_measure :
    PaintsIf (fun _ _ => some ([] : List Msdf)) True :=
  ⟨fun _ _ _ => ⟨[], rfl⟩, fun h => absurd trivial h⟩

variable (scale) in
/-- **A character is painted** unless its size comes to nothing. -/
theorem paintsIf_msdf : PaintsIf (msdf scale) (scale.value ≠ 0) := by
  constructor
  · intro hscale character box
    have hskip (part : Fixed) : skip scale part = some (Fixed.round ⟨(part.value * 256).tdiv scale.value⟩) := by
      rw [skip, Fixed.divideFixed, if_neg hscale]
      rfl
    rw [msdf]
    dsimp only
    split
    · rw [hskip, hskip, hskip, hskip]
      exact ⟨_, rfl⟩
    · exact ⟨_, rfl⟩
  · intro hscale character box
    have hzero : scale.value = 0 := not_not.mp hscale
    have hskip (part : Fixed) : skip scale part = none := by
      rw [skip, Fixed.divideFixed, if_pos hzero]
      rfl
    have hle : scale.value ≤ 128 := by omega
    rw [msdf]
    dsimp only
    rw [if_pos hle, hskip]
    rfl

/-! ## Areas -/

theorem extend_of_x2 {r s : Rect} (h : r.x2 ≠ 0) :
    r.extend s = ⟨min r.x1 s.x1, min r.y1 s.y1, max r.x2 s.x2, max r.y2 s.y2⟩ := by
  have hnonzero : r.isNonzero = true := by
    simp only [Rect.isNonzero, Bool.or_eq_true, decide_eq_true_eq]
    exact Or.inl (Or.inr h)
  rw [Rect.extend, if_pos hnonzero]

/-- An area that has something right of the origin is never none: it is
moved with the boxes. -/
theorem foldl_extend_offset (hpos : 0 < area.x2) (hmoved : 0 < area.x2 + startX) :
    boxes.foldl (fun area box => area.extend (box.offset startX startY)) (area.offset startX startY)
      = (boxes.foldl Rect.extend area).offset startX startY := by
  induction boxes generalizing area with
  | nil => rfl
  | cons box boxes ih =>
    have hextend := extend_of_x2 (s := box) (Int.ne_of_gt hpos)
    have hoffset : (area.offset startX startY).extend (box.offset startX startY)
        = (area.extend box).offset startX startY := by
      have hne : (area.offset startX startY).x2 ≠ 0 := Int.ne_of_gt hmoved
      rw [extend_of_x2 hne, hextend]
      simp only [Rect.offset, Rect.mk.injEq]
      omega
    have hx2 : (area.extend box).x2 = max area.x2 box.x2 := by
      rw [hextend]
    rw [List.foldl_cons, List.foldl_cons, hoffset]
    exact ih (by omega) (by omega)

/-- An area with the origin. -/
def withOrigin (area : Rect) : Rect :=
  ⟨min 0 area.x1, min 0 area.y1, max 0 area.x2, max 0 area.y2⟩

/-- A box is included in either. -/
theorem withOrigin_extend (box : Rect) : withOrigin (area.extend box)
    = ⟨min (withOrigin area).x1 box.x1, min (withOrigin area).y1 box.y1,
        max (withOrigin area).x2 box.x2, max (withOrigin area).y2 box.y2⟩ := by
  rw [Rect.extend]
  split
  · simp only [withOrigin, Rect.mk.injEq]
    omega
  · next hzero =>
    simp only [Rect.isNonzero, Bool.or_eq_true, decide_eq_true_eq, not_or, not_not] at hzero
    simp only [withOrigin, Rect.mk.injEq]
    omega

/-- **An area that starts at a point** is that of the boxes from nothing,
with the point. -/
theorem foldl_extend_point (hstart : 0 < startX) (area : Rect) (boxes : List Rect) :
    boxes.foldl (fun area box => area.extend (box.offset startX 0))
        ((withOrigin area).offset startX 0)
      = (withOrigin (boxes.foldl Rect.extend area)).offset startX 0 := by
  induction boxes generalizing area with
  | nil => rfl
  | cons box boxes ih =>
    have hoffset : ((withOrigin area).offset startX 0).extend (box.offset startX 0)
        = (withOrigin (area.extend box)).offset startX 0 := by
      have hne : ((withOrigin area).offset startX 0).x2 ≠ 0 := by
        simp only [withOrigin, Rect.offset]
        omega
      rw [extend_of_x2 hne, withOrigin_extend]
      simp only [Rect.offset, Rect.mk.injEq]
      omega
    rw [List.foldl_cons, List.foldl_cons, hoffset, ih]

theorem withOrigin_eq_iff : withOrigin area = area ↔
    area.x1 ≤ 0 ∧ area.y1 ≤ 0 ∧ 0 ≤ area.x2 ∧ 0 ≤ area.y2 := by
  obtain ⟨x1, y1, x2, y2⟩ := area
  simp only [withOrigin, Rect.mk.injEq]
  omega

theorem offset_injective {r s : Rect} (x y : ℤ) : r.offset x y = s.offset x y ↔ r = s := by
  obtain ⟨x1, y1, x2, y2⟩ := r
  obtain ⟨x1', y1', x2', y2'⟩ := s
  simp only [Rect.offset, Rect.mk.injEq]
  omega

/-- **The areas agree** of a text that starts at the top just where it
starts on the left, or after the start of its line, or its boxes reach
there. -/
theorem foldl_extend_eq_iff (hstart : 0 ≤ startX) (hcursor : startX ≤ cursorX) :
    boxes.foldl (fun area box => area.extend (box.offset startX 0)) ⟨cursorX, 0, cursorX, 0⟩
        = (boxes.foldl Rect.extend ⟨cursorX - startX, 0, cursorX - startX, 0⟩).offset startX 0 ↔
      startX = 0 ∨ startX < cursorX ∨ ReachesOrigin boxes := by
  have harea : (⟨cursorX, 0, cursorX, 0⟩ : Rect)
      = Rect.offset ⟨cursorX - startX, 0, cursorX - startX, 0⟩ startX 0 := by
    simp only [Rect.offset, Rect.mk.injEq]
    omega
  rw [harea]
  rcases Int.lt_or_eq_of_le hcursor with hlt | rfl
  · refine iff_of_true (foldl_extend_offset ?_ ?_) (Or.inr (Or.inl hlt))
    · exact Int.sub_pos_of_lt hlt
    · change 0 < cursorX - startX + startX
      omega
  rw [Int.sub_self]
  rcases Int.lt_or_eq_of_le hstart with hpos | rfl
  · have hpoint := foldl_extend_point hpos ⟨0, 0, 0, 0⟩ boxes
    have hnone : withOrigin ⟨0, 0, 0, 0⟩ = ⟨0, 0, 0, 0⟩ := rfl
    rw [hnone] at hpoint
    rw [hpoint, offset_injective, withOrigin_eq_iff]
    constructor
    · exact fun hreaches => Or.inr (Or.inr hreaches)
    · rintro (hzero | hlt | hreaches)
      · omega
      · omega
      · exact hreaches
  · refine iff_of_true ?_ (Or.inl rfl)
    have hsame (area : Rect) : area.offset 0 0 = area := by
      simp only [Rect.offset, Int.add_zero]
    simp only [hsame]

/-! ## The results -/

/-- A loop starts where the layout does, moved. -/
theorem moved_start {Painted : Type} {Paints : Prop} (hcursor : startX ≤ cursorX) :
    Moved startX startY ⟨cursorX, startY, cursorX, startY⟩ Paints (.start (cursorX - startX) 0)
      (.start cursorX startY : Pen Painted) where
  x := by
    rw [Pen.start, Pen.start, Fixed.whole_add, Int.sub_add_cancel]
  y := by
    rw [Pen.start, Pen.start, Fixed.whole_add, Int.zero_add]
  whole := ⟨0, rfl⟩
  x2 := (Int.sub_add_cancel cursorX startX).symm
  nonneg := Int.sub_nonneg_of_le hcursor
  lines := rfl
  clipped := rfl
  updatedArea := rfl
  paints := Or.inr rfl

variable (settings text startY) in
/-- **The loop of a text**, of which the layout is known. -/
theorem run_text {Painted : Type} {Paints : Prop}
    {paint : FontCharacter → Box → Option (List Painted)} (hpaint : PaintsIf paint Paints)
    {p : Pen Rect} (hstart : 0 ≤ startX) (hcursor : startX ≤ cursorX)
    (hlayOut : layOut settings scale right true text (.start (cursorX - startX) 0) = some p) :
    Follows startX startY ⟨cursorX, startY, cursorX, startY⟩ Paints p
      (Pen.run settings scale startX (right.add startX) paint true text (.start cursorX startY)) := by
  have hmoved : Moved startX startY ⟨cursorX, startY, cursorX, startY⟩ Paints
      (.start (cursorX - startX) 0) (.start cursorX startY : Pen Painted) := moved_start hcursor
  obtain ⟨p', hrun, hfollows⟩ := hmoved.run settings scale right true text hpaint hstart
  rw [hlayOut, Option.some.injEq] at hrun
  rw [hrun]
  exact hfollows

/-- What the functions return of a pen. -/
def Pen.result {Painted : Type} (settings : FontSettings) (p : Pen Painted) (rect : Rect) :
    DrawTextResult where
  x := p.x.roundUp
  y := p.y.roundUp
  capHeight := settings.capHeight
  lineHeight := settings.lineHeight
  rect := rect
  updatedArea := p.updatedArea
  lines := p.lines
  clipped := p.clipped

/-- The right edge of a measurement. -/
theorem right_measure (hrange : width.toNat ≤ 8388607) :
    (if width < 8388607 then width else 8388607).toInt = width.toInt := by
  split
  · rfl
  · next h =>
    have heq : width = 8388607 := by
      refine BitVec.eq_of_toNat_eq ?_
      have hle := BitVec.not_lt.mp h
      rw [BitVec.le_def] at hle
      exact Nat.le_antisymm hrange hle
    rw [heq]

/-- **What is measured** of a layout. -/
theorem measureText_eq {p : Pen Rect} (hrange : width.toNat ≤ 8388607) (hcursor : 0 ≤ cursorX)
    (hscale : Fixed.divide settings.size.toInt settings.font.size.toInt = some scale)
    (hlayOut : layOut settings scale (.whole width.toInt) true text (.start cursorX 0) = some p) :
    ∃ q : Pen Msdf, Moved 0 0 ⟨cursorX, 0, cursorX, 0⟩ True p q ∧
      measureText settings text width cursorX
        = some (q.result settings ⟨0, 0, q.x2, q.y.round + settings.capHeight⟩) := by
  have hzero : cursorX - 0 = cursorX := Int.sub_zero cursorX
  have hfollows := run_text settings text 0 paintsIf_measure (Int.le_refl 0) hcursor (hzero ▸ hlayOut)
  have hright : (Fixed.whole width.toInt).add 0 = .whole width.toInt := by
    rw [Fixed.whole_add, Int.add_zero]
  rw [hright] at hfollows
  cases hrun : Pen.run settings scale 0 (.whole width.toInt) (fun _ _ => some ([] : List Msdf)) true
      text (.start cursorX 0) with
  | none =>
    rw [hrun] at hfollows
    exact absurd trivial hfollows.1
  | some q =>
    rw [hrun] at hfollows
    refine ⟨q, hfollows, ?_⟩
    rw [measureText, right_measure hrange, hscale, Option.bind_eq_bind, Option.bind_some, hrun]
    rfl

variable (text width startX startY cursorX) in
/-- **What is drawn** of a run that ends. -/
theorem drawText_eq (hscale : Fixed.divide settings.size.toInt settings.font.size.toInt = some scale) :
    drawText settings text width startX startY cursorX
      = (Pen.run settings scale startX (.whole (startX + width.toInt)) (msdf scale) true text
          (.start cursorX startY)).map fun q =>
        (q.result settings ⟨startX, startY, startX + (q.x2 - startX),
          startY + (q.y.round + settings.capHeight)⟩, q.painted) := by
  rw [drawText, hscale, Option.map_eq_bind]
  rfl

variable (settings) in
/-- **The results are the same**, moved, just where a text starts alike. -/
theorem result_eq_iff {p : Pen Rect} {q q' : Pen Msdf} {Paints : Prop} (hstart : 0 ≤ startX)
    (hcursor : startX ≤ cursorX)
    (h : Moved startX startY ⟨cursorX, startY, cursorX, startY⟩ Paints p q)
    (h' : Moved 0 0 ⟨cursorX - startX, 0, cursorX - startX, 0⟩ True p q') :
    q.result settings ⟨startX, startY, startX + (q.x2 - startX),
          startY + (q.y.round + settings.capHeight)⟩
        = (q'.result settings ⟨0, 0, q'.x2, q'.y.round + settings.capHeight⟩).translate startX startY ↔
      startY = 0 ∧ (startX = 0 ∨ startX < cursorX ∨ ReachesOrigin p.painted) := by
  obtain ⟨n, hwhole⟩ := h.whole
  have hy : q.y = .whole (n + startY) := by
    rw [h.y, hwhole, Fixed.whole_add]
  have hy' : q'.y = .whole n := by
    rw [h'.y, hwhole, Fixed.whole_add, Int.add_zero]
  have hx : q.x.roundUp = q'.x.roundUp + startX := by
    rw [h.x, h'.x, Fixed.roundUp_add, Fixed.roundUp_add, Int.add_zero]
  have hx2 := h.x2
  have hx2' := h'.x2
  have hsame : (fun (area : Rect) (box : Rect) => area.extend (box.offset 0 0)) = Rect.extend := by
    funext area box
    simp only [Rect.offset, Int.add_zero]
  have harea' := h'.updatedArea
  rw [hsame] at harea'
  have hrect : (⟨startX, startY, startX + (q.x2 - startX),
          startY + (n + startY + settings.capHeight)⟩ : Rect)
        = Rect.offset ⟨0, 0, q'.x2, n + settings.capHeight⟩ startX startY ↔ startY = 0 := by
    simp only [Rect.offset, Rect.mk.injEq]
    omega
  -- all but the two rectangles are the same
  have hiff : q.result settings ⟨startX, startY, startX + (q.x2 - startX),
          startY + (q.y.round + settings.capHeight)⟩
        = (q'.result settings ⟨0, 0, q'.x2, q'.y.round + settings.capHeight⟩).translate startX startY ↔
      startY = 0 ∧ q.updatedArea = q'.updatedArea.offset startX startY := by
    simp only [Pen.result, DrawTextResult.translate, DrawTextResult.mk.injEq, hy, hy',
      Fixed.roundUp_whole, Fixed.round_whole, hx, h.lines, h'.lines, h.clipped, h'.clipped, hrect,
      true_and, and_true]
  rw [hiff]
  refine and_congr_right fun hzero => ?_
  subst hzero
  rw [h.updatedArea, harea']
  exact foldl_extend_eq_iff hstart hcursor

/-- What is not drawn is not drawn as it is measured. -/
theorem not_drawsAsMeasured (h : drawText settings text width startX startY cursorX = none) :
    ¬DrawsAsMeasured settings text width startX startY cursorX := by
  rintro ⟨drawn, painted, measured, hdrawn, -⟩
  rw [h] at hdrawn
  cases hdrawn

/-- What is drawn and what is measured are all that is compared. -/
theorem drawsAsMeasured_iff_eq {drawn measured : DrawTextResult} {painted : List Msdf}
    (hdraw : drawText settings text width startX startY cursorX = some (drawn, painted))
    (hmeasure : measureText settings text width (cursorX - startX) = some measured) :
    DrawsAsMeasured settings text width startX startY cursorX ↔
      drawn = measured.translate startX startY := by
  constructor
  · rintro ⟨drawn', painted', measured', hdrawn, hmeasured, heq⟩
    rw [hdraw] at hdrawn
    rw [hmeasure] at hmeasured
    cases hdrawn
    cases hmeasured
    exact heq
  · intro heq
    exact ⟨drawn, painted, measured, hdraw, hmeasure, heq⟩

/-- **A text is drawn as it is measured just where it starts alike.** -/
theorem drawsAsMeasured_iff (settings : FontSettings) (text : List (BitVec 8)) (width : BitVec 32)
    (startX startY cursorX : ℤ) (hstart : 0 ≤ startX) (hcursor : startX ≤ cursorX)
    (hrange : startX + width.toNat ≤ 8388607) :
    DrawsAsMeasured settings text width startX startY cursorX ↔
      StartsAlike settings text width startX startY cursorX := by
  cases hscale : Fixed.divide settings.size.toInt settings.font.size.toInt with
  | none =>
    have hdraw : drawText settings text width startX startY cursorX = none := by
      rw [drawText, hscale]
      rfl
    refine iff_of_false (not_drawsAsMeasured hdraw) ?_
    rintro ⟨scale, hdivide, -⟩
    rw [hscale] at hdivide
    cases hdivide
  | some scale =>
    obtain ⟨p, hlayOut, -⟩ := exists_layOut settings scale (.whole width.toInt) true text
      (.start (cursorX - startX) 0)
    have hboxes : boxesOf settings text width (cursorX - startX) scale = p.painted := by
      rw [boxesOf, hlayOut]
      rfl
    obtain ⟨q', hmoved', hmeasure⟩ := measureText_eq (by omega)
      (Int.sub_nonneg_of_le hcursor) hscale hlayOut
    have hfollows := run_text settings text startY (paintsIf_msdf scale) hstart hcursor
      hlayOut
    rw [Fixed.whole_add, Int.add_comm] at hfollows
    have hdraw := drawText_eq text width startX startY cursorX hscale
    have halike : StartsAlike settings text width startX startY cursorX ↔
        (scale.value ≠ 0 ∨ p.painted = []) ∧ startY = 0 ∧
          (startX = 0 ∨ startX < cursorX ∨ ReachesOrigin p.painted) := by
      rw [StartsAlike, hscale]
      simp only [Option.some.injEq, exists_eq_left', hboxes]
    rw [halike]
    cases hrun : Pen.run settings scale startX (.whole (startX + width.toInt)) (msdf scale) true text
        (.start cursorX startY) with
    | none =>
      rw [hrun] at hfollows hdraw
      obtain ⟨hpaints, hne⟩ := hfollows
      refine iff_of_false (not_drawsAsMeasured hdraw) ?_
      rintro ⟨hboth | hboth, -⟩
      · exact hpaints hboth
      · exact hne hboth
    | some q =>
      rw [hrun] at hfollows hdraw
      have hmoved : Moved startX startY _ _ p q := hfollows
      rw [and_iff_right hmoved.paints, ← result_eq_iff settings hstart hcursor hmoved
        hmoved']
      exact drawsAsMeasured_iff_eq hdraw hmeasure

/-! ## A text below the top -/

/-- A font of one letter, which is a box of all its size. -/
def oneLetter : FontSettings where
  font := ⟨8, [⟨65, ⟨256⟩, ⟨0⟩, ⟨256⟩, 0, 0, 8, 8⟩]⟩
  size := 8
  lineSpacing := 0
  charSpacing := 0
  maxLines := 4294967295
  lineHeight := 10
  capHeight := 8

theorem drawsAsMeasured_oneLetter : DrawsAsMeasured oneLetter [65, 10, 65] 100 5 0 7 :=
  (drawsAsMeasured_iff oneLetter [65, 10, 65] 100 5 0 7 (by decide) (by decide) (by decide)).mpr
    ⟨⟨256⟩, rfl, Or.inl (by decide), rfl, Or.inr (Or.inl (by decide))⟩

/-- The height of the block has the start twice. -/
theorem not_drawsAsMeasured_below : ¬DrawsAsMeasured oneLetter [65] 100 5 20 7 := by
  rintro ⟨drawn, painted, measured, hdrawn, hmeasured, heq⟩
  have hdrawn' : (drawText oneLetter [65] 100 5 20 7).map (fun drawn => drawn.1.rect)
      = some ⟨5, 20, 15, 48⟩ := by
    decide +kernel
  have hmeasured' : (measureText oneLetter [65] 100 2).map (fun measured => measured.rect)
      = some ⟨0, 0, 10, 8⟩ := by
    decide +kernel
  rw [hdrawn, Option.map_some, Option.some.injEq] at hdrawn'
  have hsub : (7 - 5 : ℤ) = 2 := rfl
  rw [hsub] at hmeasured
  rw [hmeasured, Option.map_some, Option.some.injEq] at hmeasured'
  rw [heq, DrawTextResult.translate, hmeasured'] at hdrawn'
  have hrect : Rect.offset ⟨0, 0, 10, 8⟩ 5 20 ≠ ⟨5, 20, 15, 48⟩ := by decide
  exact hrect hdrawn'

end Uberos.Graphics2d
