import Uberos.DisplayManager.Blending
import Uberos.DisplayManager.Blit
import Uberos.DisplayManager.RowSections
/-!
# Painting what is transparent

`_update_area_transparency` of `drivers/DisplayManager.cpp`: the strips of
each row, of which every pixel is blended with what is below it, and which
are copied to the framebuffer in chunks of 256. The pixels of the displays
are as the framebuffer's order has them. Coordinates and offsets do not
wrap.
-/

namespace Uberos

open Library

/-- A framebuffer with a buffer, and the order of its pixels. -/
structure OrderedScreen extends ScreenBuffer where
  order : BufferFormatOrder

/-- A byte of a `U32`, from the lowest up. -/
def valueByte (value : BitVec 32) (k : ℕ) : UInt8 := .ofBitVec ((value >>> (8 * k)).setWidth 8)

/-- A `U32` as it is in memory. -/
def valueBytes (value : BitVec 32) : List UInt8 := (List.range 4).map (valueByte value)

section

variable (display : ℕ → ShapedDisplay PackedPixel) (sampleBackgroundAt : ℤ → ℤ → BitVec 32)

/-- The displays below one, from the top down. -/
def displaysBelow (i : ℕ) : List (ShapedDisplay PackedPixel) := (List.range i).reverse.map display

/-- What is drawn of a display at a place: its pixel over what is below. -/
def blendedAt (order : BufferFormatOrder) (i : ℕ) (x y : ℤ) : BitVec 32 :=
  let top := ((display i).sampleAt x y).value order
  if top >>> 24 = 0 then top
  else
    blendColours ((calculateBlendingAt (sampleBackgroundAt x y) x y
      (displaysBelow display i)).value order) top

end

namespace OrderedScreen

section

variable (f : OrderedScreen) (display : ℕ → ShapedDisplay PackedPixel) (n : ℕ)
variable (sampleBackgroundAt : ℤ → ℤ → BitVec 32) (screenRect : Rect) (x y x2 : ℤ)

/-- Where a pixel is, taken to be a `U32`. -/
def address : ℤ := (y - f.area.y1) * f.buffer.stride + (x - f.area.x1) * 4

/-- A strip is drawn, through a buffer of 256 pixels. -/
def drawStrip (bytes : ℤ → UInt8) (a : RowSection) : ℤ → UInt8 :=
  ((List.range (a.right - a.left).toNat).foldl (fun (s : Sink (BitVec 32) UInt8 256) (k : ℕ) =>
      s.put valueBytes (blendedAt display sampleBackgroundAt f.order a.display (a.left + k) y))
    ⟨bytes, f.address a.left y, [], by decide⟩).close valueBytes

/-- The loop over a row, which draws a strip where it is transparent. -/
def drawRow : ℕ → RowScan → (ℤ → UInt8) → Option (ℤ → UInt8)
  | 0, _, _ => none
  | fuel + 1, s, bytes =>
    if s.scanX < x2 then
      let next := s.next display n y x2
      match s.display, next.display with
      | none, none => some bytes
      | none, some _ => drawRow fuel next bytes
      | some d, _ =>
        drawRow fuel next
          (if s.isTransparent then
            f.drawStrip display sampleBackgroundAt y bytes ⟨d, true, s.scanX, next.scanX⟩
          else bytes)
    else some bytes

/-- Its bytes are others. -/
def withBytes (bytes : ℤ → UInt8) : OrderedScreen := { f with buffer.bytes := bytes }

/-- The part of a rectangle that is on it. -/
def part : Rect := screenRect.intersect f.area

/-- `_update_area_transparency`, of a framebuffer. A row has no more than
three turns for each of its pixels. -/
def updateAreaTransparency : Option OrderedScreen :=
  let rect := f.part screenRect
  ((List.range (rect.y2 - rect.y1).toNat).foldlM (fun bytes (row : ℕ) =>
    f.drawRow display n sampleBackgroundAt (rect.y1 + row) rect.x2
      (3 * (rect.x2 - rect.x1).toNat + 2) (rowStart rect.x1) bytes) f.buffer.bytes).map f.withBytes

end

end OrderedScreen

/-! ## What it is for -/

section

variable (display : ℕ → ShapedDisplay PackedPixel) (sampleBackgroundAt : ℤ → ℤ → BitVec 32)
variable (order : BufferFormatOrder) (n : ℕ) (x y : ℤ)

/-- The topmost display at a place. -/
def topmostAt : ℕ → Option ℕ
  | 0 => none
  | i + 1 => if (display i).Covers x y then some i else topmostAt i

/-- **A place is transparent**: the topmost display is, there. -/
def IsTransparentAt : Prop := ∃ i ∈ topmostAt display x y n, ¬ (display i).IsSolidAt x y

/-- What is to be seen of the topmost display. -/
def shownAt : BitVec 32 :=
  match topmostAt display x y n with
  | none => 0
  | some i => blendedAt display sampleBackgroundAt order i x y

end

/-- **The pixels of some places are set**, each to its value, and no other
byte is. -/
structure OrderedScreen.SetsPixels (f : OrderedScreen) (bytes bytes' : ℤ → UInt8)
    (P : ℤ → ℤ → Prop) (value : ℤ → ℤ → BitVec 32) : Prop where
  on : ∀ x y, P x y → ∀ k < 4, bytes' (f.address x y + (k : ℕ)) = valueByte (value x y) k
  off : ∀ a, (∀ x y, P x y → ∀ k < 4, a ≠ f.address x y + (k : ℕ)) → bytes' a = bytes a

/-- **What is transparent is drawn exactly**, whatever there was: the pixels
of the transparent places of the rectangle, and no other byte. -/
def OrderedScreen.DrawsTransparency (f : OrderedScreen) (display : ℕ → ShapedDisplay PackedPixel)
    (n : ℕ) (sampleBackgroundAt : ℤ → ℤ → BitVec 32) (screenRect : Rect) : Prop :=
  ∀ bytes, ∃ f',
    (f.withBytes bytes).updateAreaTransparency display n sampleBackgroundAt screenRect = some f' ∧
    f.SetsPixels bytes f'.buffer.bytes
      (fun x y => (screenRect.contains x y ∧ f.area.contains x y) ∧ IsTransparentAt display n x y)
      (shownAt display sampleBackgroundAt f.order n)

section

variable {display : ℕ → ShapedDisplay PackedPixel} {sampleBackgroundAt : ℤ → ℤ → BitVec 32}
variable {f : OrderedScreen} {bytes bytes' bytes'' : ℤ → UInt8} {P Q : ℤ → ℤ → Prop}
variable {value : ℤ → ℤ → BitVec 32} {n k k' fuel : ℕ} {x y x' y' x2 : ℤ} {s : RowScan}
variable {sections : List RowSection} {screenRect : Rect}

/-! ## Bytes -/

theorem length_valueBytes (v : BitVec 32) : (valueBytes v).length = 4 := by
  rw [valueBytes, List.length_map, List.length_range]

theorem getElem?_valueBytes (v : BitVec 32) (hk : k < 4) :
    (valueBytes v)[k]? = some (valueByte v k) := by
  rw [valueBytes, List.getElem?_map, List.getElem?_range hk, Option.map_some]

namespace OrderedScreen

/-- **A byte is of one pixel**, where the pixels have four. -/
theorem address_inj (hsize : f.buffer.format.size = 4) (hin : f.area.contains x y)
    (hin' : f.area.contains x' y') (hk : k < 4) (hk' : k' < 4)
    (h : f.address x y + (k : ℕ) = f.address x' y' + (k' : ℕ)) : x = x' ∧ y = y' ∧ k = k' := by
  have hrows := f.rows
  rw [hsize] at hrows
  have hrow : ∀ {x k}, f.area.x1 ≤ x → x < f.area.x2 → k < 4 →
      0 ≤ (x - f.area.x1) * 4 + ((k : ℕ) : ℤ) ∧
        (x - f.area.x1) * 4 + (k : ℕ) < f.buffer.stride := by
    intro x k h1 h2 hk
    omega
  rw [address, address, Int.add_assoc, Int.add_assoc] at h
  obtain ⟨hy, hx⟩ := BufferedDisplay.eq_of_mul_add (hrow hin.1 hin.2.1 hk)
    (hrow hin'.1 hin'.2.1 hk') h
  omega

/-! ## Sets of pixels -/

theorem SetsPixels.refl (hnone : ∀ x y, ¬ P x y) : f.SetsPixels bytes bytes P value :=
  ⟨fun x y h => absurd h (hnone x y), fun _ _ => rfl⟩

theorem SetsPixels.congr {value' : ℤ → ℤ → BitVec 32} (h : f.SetsPixels bytes bytes' P value)
    (hsame : ∀ x y, P x y ↔ Q x y) (hvalue : ∀ x y, P x y → value x y = value' x y) :
    f.SetsPixels bytes bytes' Q value' := by
  obtain rfl : P = Q := funext fun x => funext fun y => propext (hsame x y)
  refine ⟨fun x y hplace k hk => ?_, h.off⟩
  rw [← hvalue x y hplace]
  exact h.on x y hplace k hk

/-- **Some pixels after others**, to the same values. -/
theorem SetsPixels.trans (hsize : f.buffer.format.size = 4)
    (h : f.SetsPixels bytes bytes' P value) (h' : f.SetsPixels bytes' bytes'' Q value)
    (hP : ∀ x y, P x y → f.area.contains x y) (hQ : ∀ x y, Q x y → f.area.contains x y) :
    f.SetsPixels bytes bytes'' (fun x y => P x y ∨ Q x y) value := by
  constructor
  · intro x y hplace k hk
    by_cases hq : Q x y
    · exact h'.on x y hq k hk
    · have hp : P x y := hplace.resolve_right hq
      rw [h'.off _ fun x' y' hq' k' hk' heq => ?_, h.on x y hp k hk]
      obtain ⟨rfl, rfl, -⟩ := address_inj hsize (hP x y hp) (hQ x' y' hq') hk hk' heq
      exact hq hq'
  · intro a hnone
    rw [h'.off a fun x y hq => hnone x y (Or.inr hq), h.off a fun x y hp => hnone x y (Or.inl hp)]

/-- **One after another**, each to the same values. -/
theorem SetsPixels.foldlM {ι : Type} {items : List ι} {P : ι → ℤ → ℤ → Prop} (bytes : ℤ → UInt8)
    {draw : (ℤ → UInt8) → ι → Option (ℤ → UInt8)} (hsize : f.buffer.format.size = 4)
    (hdraw : ∀ item ∈ items, ∀ bytes, ∃ bytes', draw bytes item = some bytes' ∧
      f.SetsPixels bytes bytes' (P item) value)
    (hP : ∀ item ∈ items, ∀ x y, P item x y → f.area.contains x y) :
    ∃ bytes', items.foldlM draw bytes = some bytes' ∧
      f.SetsPixels bytes bytes' (fun x y => ∃ item ∈ items, P item x y) value := by
  induction items generalizing bytes with
  | nil =>
    exact ⟨bytes, rfl, .refl fun x y ⟨item, hitem, _⟩ => absurd hitem List.not_mem_nil⟩
  | cons item items ih =>
    obtain ⟨bytes', hfirst, hset⟩ := hdraw item List.mem_cons_self bytes
    obtain ⟨bytes'', hrest, hset'⟩ := ih bytes'
      (fun item hitem => hdraw item (List.mem_cons_of_mem _ hitem))
      fun item hitem => hP item (List.mem_cons_of_mem _ hitem)
    refine ⟨bytes'', ?_, (hset.trans hsize hset' (hP item List.mem_cons_self) ?_).congr ?_
      fun _ _ _ => rfl⟩
    · rw [List.foldlM_cons, hfirst]
      exact hrest
    · rintro x y ⟨later, hlater, hplace⟩
      exact hP later (List.mem_cons_of_mem _ hlater) x y hplace
    · intro x y
      rw [List.exists_mem_cons_iff]

/-! ## A strip -/

/-- **Values that are stored on end are those of a strip.** -/
theorem setsPixels_storeFrom {values : List (BitVec 32)} {left right : ℤ}
    (hlength : values.length = (right - left).toNat)
    (hvalue : ∀ x, left ≤ x → x < right → values[(x - left).toNat]? = some (value x y)) :
    f.SetsPixels bytes (storeFrom bytes (f.address left y) (values.flatMap valueBytes))
      (fun x y' => y' = y ∧ left ≤ x ∧ x < right) value := by
  have hbytes : (values.flatMap valueBytes).length = (right - left).toNat * 4 := by
    rw [length_flatMap_of_width length_valueBytes, hlength]
  constructor
  · rintro x y ⟨rfl, h1, h2⟩ k hk
    have hplace : f.address x y + (k : ℕ) =
        f.address left y + (((x - left).toNat * 4 + k : ℕ) : ℤ) := by
      rw [address, address]
      omega
    rw [hplace]
    refine storeFrom_of_getElem? ?_
    rw [getElem?_flatMap_of_width length_valueBytes (hvalue x h1 h2) hk, getElem?_valueBytes _ hk]
  · intro a hnone
    refine storeFrom_of_outside ?_
    rw [hbytes]
    by_contra hcon
    refine hnone (left + (a - f.address left y) / 4) y ⟨rfl, by omega, by omega⟩
      ((a - f.address left y) % 4).toNat (by omega) ?_
    rw [address, address]
    rw [address] at hcon
    omega

/-- **A strip is drawn pixel by pixel**, wherever its chunks end. -/
theorem setsPixels_drawStrip {a : RowSection}
    (hvalue : ∀ x, a.left ≤ x → x < a.right →
      value x y = blendedAt display sampleBackgroundAt f.order a.display x y) :
    f.SetsPixels bytes (f.drawStrip display sampleBackgroundAt y bytes a)
      (fun x y' => y' = y ∧ a.left ≤ x ∧ x < a.right) value := by
  have hstrip : f.drawStrip display sampleBackgroundAt y bytes a =
      storeFrom bytes (f.address a.left y)
        (((List.range (a.right - a.left).toNat).map fun (k : ℕ) =>
          blendedAt display sampleBackgroundAt f.order a.display (a.left + k) y).flatMap
          valueBytes) :=
    (congrArg (Sink.close valueBytes) List.foldl_map.symm).trans Sink.close_foldl_put
  rw [hstrip]
  refine setsPixels_storeFrom (by rw [List.length_map, List.length_range]) fun x h1 h2 => ?_
  have hoffset : a.left + ((x - a.left).toNat : ℤ) = x := by omega
  rw [List.getElem?_map, List.getElem?_range (by omega), Option.map_some, hoffset,
    hvalue x h1 h2]

end OrderedScreen

/-! ## The topmost display -/

theorem topmostAt_eq_some {i : ℕ} :
    topmostAt display x y n = some i ↔ IsTopmost display n x y i := by
  induction n with
  | zero => exact iff_of_false (fun h => nomatch h) fun h => absurd h.lt (Nat.not_lt_zero i)
  | succ n ih =>
    rw [topmostAt]
    split
    · rename_i hcovers
      constructor
      · intro h
        obtain rfl := Option.some.inj h
        exact ⟨Nat.lt_succ_self n, hcovers, fun j hj hlt => by omega⟩
      · intro h
        have hle : ¬ i < n := fun hlt => h.top n (Nat.lt_succ_self n) hlt hcovers
        have hlt := h.lt
        have hsame : n = i := by omega
        rw [hsame]
    · rename_i hnot
      rw [ih]
      constructor
      · intro h
        refine ⟨Nat.lt_succ_of_lt h.lt, h.covers, fun j hj hlt hcovers => ?_⟩
        rcases Nat.lt_succ_iff_lt_or_eq.1 hj with hj | rfl
        · exact h.top j hj hlt hcovers
        · exact hnot hcovers
      · intro h
        refine ⟨?_, h.covers, fun j hj => h.top j (Nat.lt_succ_of_lt hj)⟩
        rcases Nat.lt_succ_iff_lt_or_eq.1 h.lt with hlt | rfl
        · exact hlt
        · exact absurd h.covers hnot

theorem topmostAt_eq_none :
    topmostAt display x y n = none ↔ ∀ i < n, ¬ (display i).Covers x y := by
  induction n with
  | zero => exact iff_of_true rfl fun i hi => absurd hi (Nat.not_lt_zero i)
  | succ n ih =>
    rw [topmostAt]
    split
    · rename_i hcovers
      exact iff_of_false (fun h => nomatch h) fun h => h n (Nat.lt_succ_self n) hcovers
    · rename_i hnot
      rw [ih]
      constructor
      · intro h i hi
        rcases Nat.lt_succ_iff_lt_or_eq.1 hi with hi | rfl
        · exact h i hi
        · exact hnot
      · exact fun h i hi => h i (Nat.lt_succ_of_lt hi)

theorem IsTopmost.shownAt_eq {i : ℕ} (h : IsTopmost display n x y i) :
    shownAt display sampleBackgroundAt f.order n x y =
      blendedAt display sampleBackgroundAt f.order i x y := by
  rw [shownAt, topmostAt_eq_some.2 h]

theorem IsTopmost.isTransparentAt_iff {i : ℕ} (h : IsTopmost display n x y i) :
    IsTransparentAt display n x y ↔ ¬ (display i).IsSolidAt x y := by
  rw [IsTransparentAt, topmostAt_eq_some.2 h]
  exact ⟨fun ⟨j, hj, hnot⟩ => Option.some.inj hj ▸ hnot, fun hnot => ⟨i, rfl, hnot⟩⟩

/-! ## A row -/

/-- The sections of a row of a rectangle. -/
def rectSections (display : ℕ → ShapedDisplay PackedPixel) (n : ℕ) (rect : Rect) (y : ℤ) :
    List RowSection :=
  (rowSections display n y rect.x2 (3 * (rect.x2 - rect.x1).toNat + 2) (rowStart rect.x1)).getD []

/-- **That many turns are enough.** -/
theorem rowSections_rect (display : ℕ → ShapedDisplay PackedPixel) (n : ℕ) (rect : Rect) (y : ℤ) :
    rowSections display n y rect.x2 (3 * (rect.x2 - rect.x1).toNat + 2) (rowStart rect.x1) =
      some (rectSections display n rect y) := by
  obtain ⟨sections, hrun⟩ : ∃ sections, rowSections display n y rect.x2
      (3 * (rect.x2 - rect.x1).toNat + 2) (rowStart rect.x1) = some sections :=
    exists_rowSections (fun _ _ hc => nomatch hc) (Nat.lt_succ_self _)
  rw [rectSections, hrun, Option.getD_some]

theorem isSectioned_rectSections (display : ℕ → ShapedDisplay PackedPixel) (n : ℕ) (rect : Rect)
    (y : ℤ) : IsSectioned display n y rect.x2 rect.x1 (rectSections display n rect y) :=
  isSectioned_rowSections (rowSections_rect display n rect y) fun _ _ hc => nomatch hc

/-- The strips of a row have the place. -/
def InStrip (sections : List RowSection) (x : ℤ) : Prop :=
  ∃ a ∈ sections, a.isTransparent = true ∧ a.left ≤ x ∧ x < a.right

theorem inStrip_singleton {a : RowSection} :
    InStrip [a] x ↔ a.isTransparent = true ∧ a.left ≤ x ∧ x < a.right := by
  simp only [InStrip, List.mem_singleton, exists_eq_left]

theorem inStrip_cons {a : RowSection} : InStrip (a :: sections) x ↔
    InStrip [a] x ∨ InStrip sections x := by
  simp only [InStrip, List.mem_singleton, exists_eq_left, List.exists_mem_cons_iff]

theorem not_inStrip_nil : ¬ InStrip [] x := fun ⟨_, ha, _⟩ => absurd ha List.not_mem_nil

/-- **Where sections are marked right, the strips are what is
transparent.** -/
theorem inStrip_iff {x1 : ℤ} (hsections : IsSectioned display n y x2 x1 sections)
    (hmarked : ∀ a ∈ sections, a.IsMarked display y) :
    InStrip sections x ↔ (x1 ≤ x ∧ x < x2) ∧ IsTransparentAt display n x y := by
  constructor
  · rintro ⟨a, ha, htransparent, h1, h2⟩
    have hwithin := hsections.within a ha
    refine ⟨by omega, (hsections.topmost a ha x h1 h2).isTransparentAt_iff.2 ?_⟩
    exact (hmarked a ha x h1 h2).1 htransparent
  · rintro ⟨⟨h1, h2⟩, i, htop, hnot⟩
    have htop := topmostAt_eq_some.1 htop
    obtain ⟨a, ha, hx⟩ := hsections.covered x h1 h2 ⟨i, htop.lt, htop.covers⟩
    refine ⟨a, ha, (hmarked a ha x hx.1 hx.2).2 ?_, hx⟩
    exact (hsections.topmost a ha x hx.1 hx.2).isTransparentAt_iff.1
      (htop.isTransparentAt_iff.2 hnot)

/-- **And only there.** -/
theorem isMarked_of_inStrip {x1 : ℤ} (hsections : IsSectioned display n y x2 x1 sections)
    (hstrips : ∀ x, x1 ≤ x → x < x2 → (InStrip sections x ↔ IsTransparentAt display n x y)) :
    ∀ a ∈ sections, a.IsMarked display y := by
  intro a ha x h1 h2
  have hwithin := hsections.within a ha
  have htop := hsections.topmost a ha x h1 h2
  refine Iff.trans ?_ ((hstrips x (by omega) (by omega)).trans htop.isTransparentAt_iff)
  constructor
  · intro htransparent
    exact ⟨a, ha, htransparent, h1, h2⟩
  · rintro ⟨b, hb, htransparent, hx⟩
    -- sections that have a place in common are the same
    have hone : sections.Pairwise fun b a =>
        b.left ≤ x → x < b.right → a.left ≤ x → x < a.right → b = a :=
      hsections.sorted.imp fun h h1 h2 h3 h4 => by omega
    have hback : sections.Pairwise fun b a =>
        a.left ≤ x → x < a.right → b.left ≤ x → x < b.right → a = b :=
      hsections.sorted.imp fun h h1 h2 h3 h4 => by omega
    have hsame : b = a := hone.forall_of_forall_of_flip (fun _ _ _ _ _ _ => rfl) hback hb ha
      hx.1 hx.2 h1 h2
    rwa [hsame] at htransparent

namespace OrderedScreen

theorem drawRow_of_none (hx2 : s.scanX < x2) (hnone : s.display = none)
    (hnext : (s.next display n y x2).display = none) :
    f.drawRow display n sampleBackgroundAt y x2 (fuel + 1) s bytes = some bytes := by
  simp only [drawRow, if_pos hx2, hnone, hnext]

theorem drawRow_of_next {d : ℕ} (hx2 : s.scanX < x2) (hnone : s.display = none)
    (hnext : (s.next display n y x2).display = some d) :
    f.drawRow display n sampleBackgroundAt y x2 (fuel + 1) s bytes =
      f.drawRow display n sampleBackgroundAt y x2 fuel (s.next display n y x2) bytes := by
  simp only [drawRow, if_pos hx2, hnone, hnext]

theorem drawRow_of_some {d : ℕ} (hx2 : s.scanX < x2) (hsome : s.display = some d) :
    f.drawRow display n sampleBackgroundAt y x2 (fuel + 1) s bytes =
      f.drawRow display n sampleBackgroundAt y x2 fuel (s.next display n y x2)
        (if s.isTransparent then
          f.drawStrip display sampleBackgroundAt y bytes
            ⟨d, true, s.scanX, (s.next display n y x2).scanX⟩
        else bytes) := by
  simp only [drawRow, if_pos hx2, hsome]

/-- **The strips of a row are drawn**, as it goes on. -/
theorem setsPixels_drawRow (bytes : ℤ → UInt8) (hsize : f.buffer.format.size = 4)
    (hrun : rowSections display n y x2 fuel s = some sections)
    (hvalue : ∀ a ∈ sections, ∀ x, a.left ≤ x → x < a.right →
      value x y = blendedAt display sampleBackgroundAt f.order a.display x y)
    (hin : ∀ a ∈ sections, ∀ x, a.left ≤ x → x < a.right → f.area.contains x y) :
    ∃ bytes', f.drawRow display n sampleBackgroundAt y x2 fuel s bytes = some bytes' ∧
      f.SetsPixels bytes bytes' (fun x y' => y' = y ∧ InStrip sections x) value := by
  induction fuel generalizing s bytes sections with
  | zero => cases hrun
  | succ fuel ih =>
    have hnothing : f.SetsPixels bytes bytes (fun x y' => y' = y ∧ InStrip [] x) value :=
      .refl fun x y' h => not_inStrip_nil h.2
    by_cases hx2 : s.scanX < x2
    swap
    · obtain rfl := rowSections_past hrun hx2
      rw [drawRow, if_neg hx2]
      exact ⟨bytes, rfl, hnothing⟩
    rw [rowSections, if_pos hx2] at hrun
    dsimp only at hrun
    split at hrun
    · rename_i hnone hnext
      obtain rfl := Option.some.inj hrun
      exact ⟨bytes, drawRow_of_none hx2 hnone hnext, hnothing⟩
    · rename_i d hnone hnext
      rw [drawRow_of_next hx2 hnone hnext]
      exact ih bytes hrun hvalue hin
    · rename_i d hsome
      obtain ⟨rest, hrest, rfl⟩ := Option.map_eq_some_iff.1 hrun
      have hfirst : (⟨d, s.isTransparent, s.scanX, (s.next display n y x2).scanX⟩ : RowSection) ∈
          ⟨d, s.isTransparent, s.scanX, (s.next display n y x2).scanX⟩ :: rest :=
        List.mem_cons_self
      -- the strip of this section, if it is one, and those after it
      obtain ⟨bytes', hfound, hset⟩ : ∃ bytes', (if s.isTransparent then
          f.drawStrip display sampleBackgroundAt y bytes
            ⟨d, true, s.scanX, (s.next display n y x2).scanX⟩
          else bytes) = bytes' ∧ f.SetsPixels bytes bytes' (fun x y' => y' = y ∧
            InStrip [⟨d, s.isTransparent, s.scanX, (s.next display n y x2).scanX⟩] x) value := by
        refine ⟨_, rfl, ?_⟩
        split
        · rename_i htransparent
          refine (setsPixels_drawStrip (hvalue _ hfirst)).congr (fun x y' => ?_) fun _ _ _ => rfl
          rw [inStrip_singleton, and_iff_right htransparent]
        · rename_i hsolid
          refine .refl fun x y' h => hsolid (inStrip_singleton.1 h.2).1
      obtain ⟨bytes'', hlater, hset'⟩ := ih bytes' hrest
        (fun a ha => hvalue a (List.mem_cons_of_mem _ ha))
        fun a ha => hin a (List.mem_cons_of_mem _ ha)
      refine ⟨bytes'', ?_, (hset.trans hsize hset' ?_ ?_).congr ?_ fun _ _ _ => rfl⟩
      · rw [drawRow_of_some hx2 hsome, hfound]
        exact hlater
      · rintro x y' ⟨rfl, hx⟩
        have hbounds := (inStrip_singleton.1 hx).2
        exact hin _ hfirst x hbounds.1 hbounds.2
      · rintro x y' ⟨rfl, a, ha, -, hx⟩
        exact hin a (List.mem_cons_of_mem _ ha) x hx.1 hx.2
      · intro x y'
        exact and_or_left.symm.trans (and_congr_right fun _ => inStrip_cons.symm)

/-! ## All rows -/

theorem contains_part (f : OrderedScreen) (screenRect : Rect) : (f.part screenRect).contains x y ↔
    screenRect.contains x y ∧ f.area.contains x y := Rect.contains_intersect

/-- What the strips of a rectangle have of a framebuffer. -/
theorem contains_of_inStrip (hy : (f.part screenRect).y1 ≤ y ∧ y < (f.part screenRect).y2)
    (h : InStrip (rectSections display n (f.part screenRect) y) x) :
    (f.part screenRect).contains x y := by
  obtain ⟨a, ha, -, hx⟩ := h
  have hwithin := (isSectioned_rectSections display n (f.part screenRect) y).within a ha
  exact ⟨by omega, by omega, hy⟩

/-- **The rows of the rectangle are scanned**, and their strips drawn. -/
theorem exists_updateAreaTransparency (f : OrderedScreen) (display : ℕ → ShapedDisplay PackedPixel)
    (n : ℕ) (sampleBackgroundAt : ℤ → ℤ → BitVec 32) (screenRect : Rect)
    (hsize : f.buffer.format.size = 4) (bytes : ℤ → UInt8) :
    ∃ f', (f.withBytes bytes).updateAreaTransparency display n sampleBackgroundAt screenRect =
        some f' ∧
      f.SetsPixels bytes f'.buffer.bytes (fun x y =>
        ((f.part screenRect).y1 ≤ y ∧ y < (f.part screenRect).y2) ∧
          InStrip (rectSections display n (f.part screenRect) y) x)
        (shownAt display sampleBackgroundAt f.order n) := by
  obtain ⟨rect, hrect⟩ : ∃ rect, f.part screenRect = rect := ⟨_, rfl⟩
  -- what is scanned is on the framebuffer
  have hsection : ∀ row ∈ List.range (rect.y2 - rect.y1).toNat,
      ∀ a ∈ rectSections display n rect (rect.y1 + (row : ℕ)), ∀ x, a.left ≤ x → x < a.right →
        f.area.contains x (rect.y1 + (row : ℕ)) := by
    intro row hmem a ha x h1 h2
    rw [List.mem_range] at hmem
    have hwithin := (isSectioned_rectSections display n rect (rect.y1 + row)).within a ha
    have hplace : (f.part screenRect).contains x (rect.y1 + (row : ℕ)) := by
      rw [hrect]
      exact ⟨by omega, by omega, by omega, by omega⟩
    exact ((contains_part f screenRect).1 hplace).2
  have hrow : ∀ row ∈ List.range (rect.y2 - rect.y1).toNat, ∀ bytes', ∃ bytes'',
      (f.withBytes bytes).drawRow display n sampleBackgroundAt (rect.y1 + (row : ℕ)) rect.x2
        (3 * (rect.x2 - rect.x1).toNat + 2) (rowStart rect.x1) bytes' = some bytes'' ∧
      (f.withBytes bytes).SetsPixels bytes' bytes'' (fun x y => y = rect.y1 + (row : ℕ) ∧
        InStrip (rectSections display n rect (rect.y1 + row)) x)
        (shownAt display sampleBackgroundAt f.order n) := by
    intro row hmem bytes'
    have hsections := isSectioned_rectSections display n rect (rect.y1 + row)
    exact setsPixels_drawRow bytes' hsize (rowSections_rect display n rect _)
      (fun a ha x h1 h2 => (hsections.topmost a ha x h1 h2).shownAt_eq) (hsection row hmem)
  have hdrawn : ∀ row ∈ List.range (rect.y2 - rect.y1).toNat, ∀ x y, y = rect.y1 + (row : ℕ) ∧
      InStrip (rectSections display n rect (rect.y1 + row)) x → f.area.contains x y := by
    rintro row hmem x y ⟨rfl, a, ha, -, hx⟩
    exact hsection row hmem a ha x hx.1 hx.2
  obtain ⟨bytes', hfound, hset⟩ :=
    SetsPixels.foldlM (f := f.withBytes bytes) bytes hsize hrow hdrawn
  refine ⟨f.withBytes bytes', ?_, ?_⟩
  · rw [updateAreaTransparency]
    have hpart : (f.withBytes bytes).part screenRect = rect := hrect
    rw [hpart]
    exact congrArg (Option.map _) hfound
  · rw [hrect]
    have hrows : (f.withBytes bytes).SetsPixels bytes bytes' (fun x y =>
        (rect.y1 ≤ y ∧ y < rect.y2) ∧ InStrip (rectSections display n rect y) x)
        (shownAt display sampleBackgroundAt f.order n) :=
      hset.congr (fun x y => ?_) fun _ _ _ => rfl
    · exact ⟨hrows.on, hrows.off⟩
    · constructor
      · rintro ⟨row, hmem, rfl, hx⟩
        rw [List.mem_range] at hmem
        exact ⟨⟨by omega, by omega⟩, hx⟩
      · rintro ⟨hy, hx⟩
        have hplace : rect.y1 + ((y - rect.y1).toNat : ℤ) = y := by omega
        refine ⟨(y - rect.y1).toNat, List.mem_range.2 (by omega), hplace.symm, ?_⟩
        rw [hplace]
        exact hx

/-- **What is set whatever there was can be told.** -/
theorem SetsPixels.mem_of_always (hsize : f.buffer.format.size = 4)
    (h : ∀ bytes, ∃ bytes', f.SetsPixels bytes bytes' P value ∧ f.SetsPixels bytes bytes' Q value)
    (hP : ∀ x y, P x y → f.area.contains x y) (hQ : ∀ x y, Q x y → f.area.contains x y)
    (hplace : P x y) : Q x y := by
  by_contra hnot
  -- had the first byte been another it would be so still
  obtain ⟨bytes', hset, hset'⟩ := h fun _ => valueByte (value x y) 0 + 1
  have hbyte := hset.on x y hplace 0 (by decide)
  rw [hset'.off _ fun x' y' hq k hk heq => ?_] at hbyte
  · exact absurd hbyte (by simp)
  · obtain ⟨rfl, rfl, -⟩ := address_inj hsize (hP x y hplace) (hQ x' y' hq) (by decide) hk heq
    exact hnot hq

/-- **Two sets of pixels that are set whatever there was are the same.** -/
theorem SetsPixels.iff_of_always (hsize : f.buffer.format.size = 4)
    (h : ∀ bytes, ∃ bytes', f.SetsPixels bytes bytes' P value ∧ f.SetsPixels bytes bytes' Q value)
    (hP : ∀ x y, P x y → f.area.contains x y) (hQ : ∀ x y, Q x y → f.area.contains x y) (x y : ℤ) :
    P x y ↔ Q x y :=
  ⟨mem_of_always hsize h hP hQ,
    mem_of_always hsize (fun bytes => (h bytes).imp fun _ => And.symm) hQ hP⟩

/-- **What is transparent is drawn exactly where each row is scanned
right.** -/
theorem drawsTransparency_iff (hsize : f.buffer.format.size = 4) :
    f.DrawsTransparency display n sampleBackgroundAt screenRect ↔
      ∀ y, (f.part screenRect).y1 ≤ y → y < (f.part screenRect).y2 →
        (rowStart (f.part screenRect).x1).AllJudged display n y (f.part screenRect).x2 := by
  have hjudged : ∀ y, (∀ a ∈ rectSections display n (f.part screenRect) y, a.IsMarked display y) ↔
      (rowStart (f.part screenRect).x1).AllJudged display n y (f.part screenRect).x2 := by
    intro y
    refine (isMarked_rowSections_iff (rowSections_rect display n _ y)
      fun _ _ hc => nomatch hc).trans ?_
    exact and_iff_right fun _ _ hc => nomatch hc
  have hdrawn : ∀ x y, ((f.part screenRect).y1 ≤ y ∧ y < (f.part screenRect).y2) ∧
      InStrip (rectSections display n (f.part screenRect) y) x → f.area.contains x y :=
    fun x y h => ((contains_part f screenRect).1 (contains_of_inStrip h.1 h.2)).2
  constructor
  · intro h y hy1 hy2
    have hboth : ∀ bytes, ∃ bytes', f.SetsPixels bytes bytes' (fun x y =>
        ((f.part screenRect).y1 ≤ y ∧ y < (f.part screenRect).y2) ∧
          InStrip (rectSections display n (f.part screenRect) y) x)
        (shownAt display sampleBackgroundAt f.order n) ∧ f.SetsPixels bytes bytes' (fun x y =>
          (screenRect.contains x y ∧ f.area.contains x y) ∧ IsTransparentAt display n x y)
        (shownAt display sampleBackgroundAt f.order n) := by
      intro bytes
      obtain ⟨f', hfound, hset⟩ :=
        exists_updateAreaTransparency f display n sampleBackgroundAt screenRect hsize bytes
      obtain ⟨f'', hfound', hset'⟩ := h bytes
      obtain rfl := Option.some.inj (hfound.symm.trans hfound')
      exact ⟨_, hset, hset'⟩
    have hsame := SetsPixels.iff_of_always hsize hboth hdrawn fun x y hplace => hplace.1.2
    refine (hjudged y).1 (isMarked_of_inStrip
      (isSectioned_rectSections display n (f.part screenRect) y) fun x hx1 hx2 => ?_)
    have hplace := (contains_part f screenRect).1 ⟨hx1, hx2, hy1, hy2⟩
    exact (and_iff_right ⟨hy1, hy2⟩).symm.trans ((hsame x y).trans (and_iff_right hplace))
  · intro h bytes
    obtain ⟨f', hfound, hset⟩ :=
      exists_updateAreaTransparency f display n sampleBackgroundAt screenRect hsize bytes
    refine ⟨f', hfound, hset.congr (fun x y => ?_) fun _ _ _ => rfl⟩
    rw [← contains_part, Rect.contains]
    constructor
    · rintro ⟨hy, hx⟩
      obtain ⟨hx, htransparent⟩ := (inStrip_iff (isSectioned_rectSections display n _ y)
        ((hjudged y).2 (h y hy.1 hy.2))).1 hx
      exact ⟨⟨hx.1, hx.2, hy⟩, htransparent⟩
    · rintro ⟨⟨hx1, hx2, hy⟩, htransparent⟩
      exact ⟨hy, (inStrip_iff (isSectioned_rectSections display n _ y)
        ((hjudged y).2 (h y hy.1 hy.2))).2 ⟨⟨hx1, hx2⟩, htransparent⟩⟩

end OrderedScreen

end

/-! ## A pane -/

/-- Four pixels in a row, each of which lets half of what is below through. -/
def pane : ShapedDisplay PackedPixel where
  x := 0
  y := 0
  layer := 0
  scale := 1
  width := 4
  height := 1
  buffer := fun _ _ => ⟨fun _ => 64, 128⟩
  isVisible := true
  solidArea := ⟨0, 0, 0, 0⟩
  topLeftCorner := fun _ => 0
  topRightCorner := fun _ => 0
  bottomLeftCorner := fun _ => 0
  bottomRightCorner := fun _ => 0

/-- It is drawn exactly. -/
theorem drawsTransparency_pane :
    OrderedScreen.DrawsTransparency ⟨⟨⟨0, 0, 4, 1⟩, ⟨.rgba8, 16, fun _ => 0⟩, by decide⟩, .bgra⟩
      (fun _ => pane) 1 (fun _ _ => 0) ⟨0, 0, 4, 1⟩ := by
  have hbeyond : ∀ y, pane.IsBeyondSolid y := by
    intro y
    show y - 0 < 0 ∨ 0 ≤ y - 0
    omega
  refine (OrderedScreen.drawsTransparency_iff rfl).2 fun y _ _ s _ i _ _ => ?_
  rw [ShapedDisplay.sectionAt, if_pos (hbeyond y), ShapedDisplay.sectionAt, if_pos (hbeyond y)]

end Uberos
