import Uberos.Graphics2d.Drawing
import Uberos.Graphics2d.Pixels
import Uberos.Library.Words
/-!
# Images that are copied where they should be

Both loops are rectangles, of what is visited and of what is wanted, and
two of them are the same if neither has a pixel or all their sides are.
-/

namespace Uberos

open Library

namespace Graphics2d

namespace Buffer

/-! ## What it is for -/

variable (b : Buffer) (has128Bit : Bool) (destX destY sourceX sourceY width height : BitVec 32)
  (image : Buffer)

/-- A position of the rectangle that is of the buffer, and its source of the
image. -/
structure Wanted (y x : BitVec 32) : Prop where
  width : x < width
  height : y < height
  left : 0 ≤ destX.toInt + x.toNat
  right : destX.toInt + x.toNat < b.width.toNat
  top : 0 ≤ destY.toInt + y.toNat
  bottom : destY.toInt + y.toNat < b.height.toNat
  column : sourceX.toNat + x.toNat < image.width.toNat
  row : sourceY.toNat + y.toNat < image.height.toNat

/-- No pixel that is set is of an image. -/
def Apart : Prop :=
  ∀ memory memory' x y colour, b.set has128Bit memory x y colour 1 = some memory' →
    ∀ x' y', image.get memory' x' y' = image.get memory x' y'

/-- **An image is copied**: exactly the positions that are wanted are
visited, each once, by `draw_buffer` as by `draw_buffer_blended`; and where
pixels are read back and the image is apart, these are of the colours of
their sources and no other is changed. -/
structure Copies : Prop where
  visited : ∀ y x, (y, x) ∈ b.visits destX destY sourceX width height image ↔
    b.Wanted destX destY sourceX sourceY width height image y x
  once : (b.visits destX destY sourceX width height image).Nodup
  drawn : b.ReadsBack has128Bit → b.Apart has128Bit image → ∀ memory, ∃ memory',
    b.drawBuffer has128Bit memory destX destY sourceX sourceY width height image = some memory' ∧
      (∀ y x, b.Wanted destX destY sourceX sourceY width height image y x →
        b.get memory' (destX + x) (destY + y)
          = reduce b.format (image.get memory (sourceX + x) (sourceY + y))) ∧
      ∀ px py, (∀ y x, b.Wanted destX destY sourceX sourceY width height image y x →
          ¬(px = destX + x ∧ py = destY + y)) →
        b.get memory' px py = b.get memory px py

/-- The first column or row that is wanted, -/
def wantedFrom (dest : BitVec 32) : ℕ := (-dest.toInt).toNat

/-- and where they end. -/
def wantedTo (count imageCount source dest bufferCount : BitVec 32) : ℕ :=
  min count.toNat (min (imageCount.toNat - source.toNat) (bufferCount.toNat - dest.toInt).toNat)

/-- What is wanted is the least of a count and two others. -/
def EndsAt (wanted count first second : ℕ) : Prop :=
  wanted ≤ first ∧ wanted ≤ second ∧ (wanted = count ∨ wanted = first ∨ wanted = second)

/-- **The clipping by `sourceX` and `destX` is right**: where something is
wanted the function goes on, both positions are the same or within the
buffer, and columns and rows end where `width`, `sourceX` and `destX` leave
them; where nothing is, it does not, or one of these leaves nothing. -/
def Clips : Prop :=
  let columns := (image.width - sourceX).toNat
  let columns' := (width - destX).toNat
  let rows := (image.height - sourceX).toNat
  let rows' := (height - destX).toNat
  let right := wantedTo width image.width sourceX destX b.width
  let bottom := wantedTo height image.height sourceY destY b.height
  if wantedFrom destX < right ∧ wantedFrom destY < bottom then
    ¬b.Skipped destX destY width height ∧ destX.toInt ≠ -2 ^ 31 ∧
      (destX = destY ∨ 0 ≤ destX.toInt ∧ 0 ≤ destY.toInt) ∧
      EndsAt right width.toNat columns columns' ∧ EndsAt bottom height.toNat rows rows'
  else
    b.Skipped destX destY width height ∨
      ∃ count ∈ [width.toNat, columns, columns', height.toNat, rows, rows'],
        count ≤ wantedFrom destX % 2 ^ 31

instance (wanted count first second : ℕ) : Decidable (EndsAt wanted count first second) :=
  inferInstanceAs (Decidable (_ ∧ _ ∧ _))

instance : Decidable (b.Clips destX destY sourceX sourceY width height image) :=
  inferInstanceAs (Decidable (ite _ _ _))

/-! ## What is visited -/

variable {b has128Bit destX destY sourceX sourceY width height image} {x y : BitVec 32}

/-- The negation of the least number is itself. -/
theorem toNat_startOf (dest : BitVec 32) : (startOf dest).toNat = wantedFrom dest % 2 ^ 31 := by
  have hlt := dest.isLt
  have hzero : (0 : BitVec 32).toInt = 0 := rfl
  have hneg : (-dest).toNat = (2 ^ 32 - dest.toNat) % 2 ^ 32 := BitVec.toNat_neg dest
  have hsign := BitVec.toInt_eq_toNat_cond (-dest)
  have hsign' := BitVec.toInt_eq_toNat_cond dest
  have hle : (-dest).sle 0 ↔ (-dest).toInt ≤ 0 := by
    rw [Signed.sle_iff, hzero]
  rw [startOf, wantedFrom]
  split
  · next hnot =>
    rw [hle] at hnot
    have hnone : (0 : BitVec 32).toNat = 0 := rfl
    rw [hnone]
    split at hsign <;> split at hsign' <;> omega
  · next hpos =>
    rw [hle] at hpos
    split at hsign <;> split at hsign' <;> omega

theorem toNat_finishOf (count imageCount source dest : BitVec 32) :
    (finishOf count imageCount source dest).toNat
      = min (min count.toNat (imageCount - source).toNat) (count - dest).toNat := by
  have hmin (i j : BitVec 32) : (if i ≤ j then i else j).toNat = min i.toNat j.toNat := by
    split
    · next h => exact (Nat.min_eq_left h).symm
    · next h => exact (Nat.min_eq_right (Nat.le_of_not_le h)).symm
  rw [finishOf, hmin, hmin]

/-- **A position is visited** that is from the start on before both ends. -/
theorem mem_visits :
    (y, x) ∈ b.visits destX destY sourceX width height image ↔
      ¬b.Skipped destX destY width height ∧
        (wantedFrom destX % 2 ^ 31 ≤ x.toNat ∧
          x.toNat < (finishOf width image.width sourceX destX).toNat) ∧
        wantedFrom destX % 2 ^ 31 ≤ y.toNat ∧
          y.toNat < (finishOf height image.height sourceX destX).toNat := by
  rw [visits]
  split
  · next hskipped =>
    exact iff_of_false List.not_mem_nil fun h => h.1 hskipped
  · next hskipped =>
    rw [List.pair_mem_product, mem_rowsBetween, mem_rowsBetween, toNat_startOf]
    constructor
    · rintro ⟨hy, hx⟩
      exact ⟨hskipped, hx, hy⟩
    · rintro ⟨-, hx, hy⟩
      exact ⟨hy, hx⟩

theorem nodup_visits : (b.visits destX destY sourceX width height image).Nodup := by
  rw [visits]
  split
  · exact List.nodup_nil
  · exact (nodup_rowsBetween _ _).product (nodup_rowsBetween _ _)

/-- Along one side, a place is within all three from its start to its end. -/
theorem wanted_side_iff {count imageCount source dest bufferCount v : BitVec 32} :
    (v < count ∧ 0 ≤ dest.toInt + v.toNat ∧ dest.toInt + v.toNat < bufferCount.toNat ∧
        source.toNat + v.toNat < imageCount.toNat) ↔
      wantedFrom dest ≤ v.toNat ∧ v.toNat < wantedTo count imageCount source dest bufferCount := by
  rw [wantedFrom, wantedTo, BitVec.lt_def]
  omega

/-- And one is wanted. -/
theorem wanted_iff :
    b.Wanted destX destY sourceX sourceY width height image y x ↔
      (wantedFrom destX ≤ x.toNat ∧
          x.toNat < wantedTo width image.width sourceX destX b.width) ∧
        wantedFrom destY ≤ y.toNat ∧
          y.toNat < wantedTo height image.height sourceY destY b.height := by
  rw [← wanted_side_iff, ← wanted_side_iff]
  constructor
  · rintro ⟨hwidth, hheight, hleft, hright, htop, hbottom, hcolumn, hrow⟩
    exact ⟨⟨hwidth, hleft, hright, hcolumn⟩, hheight, htop, hbottom, hrow⟩
  · rintro ⟨⟨hwidth, hleft, hright, hcolumn⟩, hheight, htop, hbottom, hrow⟩
    exact ⟨hwidth, hheight, hleft, hright, htop, hbottom, hcolumn, hrow⟩

/-! ## Two rectangles -/

/-- **Two rectangles are the same** if both are empty or they have the same
sides. -/
theorem rectangle_iff {left right top bottom left' right' top' bottom' : ℕ} :
    (∀ x y : ℕ, (left ≤ x ∧ x < right) ∧ top ≤ y ∧ y < bottom ↔
        (left' ≤ x ∧ x < right') ∧ top' ≤ y ∧ y < bottom') ↔
      if left' < right' ∧ top' < bottom' then
        left = left' ∧ right = right' ∧ top = top' ∧ bottom = bottom'
      else right ≤ left ∨ bottom ≤ top := by
  constructor
  · intro h
    split
    · next hsome =>
      -- the first corners and the last of each are in the other
      obtain ⟨⟨hleft, -⟩, htop, -⟩ := (h left' top').mpr (by omega)
      obtain ⟨⟨-, hright⟩, -, hbottom⟩ := (h (right' - 1) (bottom' - 1)).mpr (by omega)
      obtain ⟨⟨hleft', -⟩, htop', -⟩ := (h left top).mp (by omega)
      obtain ⟨⟨-, hright'⟩, -, hbottom'⟩ := (h (right - 1) (bottom - 1)).mp (by omega)
      exact ⟨by omega, by omega, by omega, by omega⟩
    · next hnone =>
      by_contra hsome
      obtain ⟨⟨hleft, hright⟩, htop, hbottom⟩ := (h left top).mp (by omega)
      exact hnone ⟨by omega, by omega⟩
  · intro h x y
    split at h
    · obtain ⟨rfl, rfl, rfl, rfl⟩ := h
      exact Iff.rfl
    · next hnone =>
      exact iff_of_false (fun hin => by omega) (fun hin => hnone ⟨by omega, by omega⟩)

/-- The start of the loops is of both axes what is wanted. -/
theorem starts_iff :
    wantedFrom destX % 2 ^ 31 = wantedFrom destX ∧ wantedFrom destX % 2 ^ 31 = wantedFrom destY ↔
      destX.toInt ≠ -2 ^ 31 ∧ (destX = destY ∨ 0 ≤ destX.toInt ∧ 0 ≤ destY.toInt) := by
  have hle : -2 ^ 31 ≤ destX.toInt := BitVec.le_toInt destX
  rw [wantedFrom, wantedFrom]
  constructor
  · rintro ⟨hX, hY⟩
    refine ⟨by omega, ?_⟩
    by_cases hneg : destX.toInt < 0
    · exact Or.inl (BitVec.eq_of_toInt_eq (by omega))
    · exact Or.inr (by omega)
  · rintro ⟨hleast, rfl | hpos⟩
    · omega
    · omega

/-- The end of a loop is what is wanted. -/
theorem finish_iff {wanted : ℕ} {count imageCount source dest : BitVec 32}
    (h : wanted ≤ count.toNat) :
    (finishOf count imageCount source dest).toNat = wanted ↔
      EndsAt wanted count.toNat (imageCount - source).toNat (count - dest).toNat := by
  rw [toNat_finishOf, EndsAt]
  omega

theorem wantedTo_le (count imageCount source dest bufferCount : BitVec 32) :
    wantedTo count imageCount source dest bufferCount ≤ count.toNat := Nat.min_le_left _ _

/-- Positions of 32 bits are as good as any in rectangles that are within them. -/
theorem forall_position {left right top bottom left' right' top' bottom' : ℕ}
    (hright : right < 2 ^ 32) (hbottom : bottom < 2 ^ 32) (hright' : right' < 2 ^ 32)
    (hbottom' : bottom' < 2 ^ 32) :
    (∀ y x : BitVec 32, (left ≤ x.toNat ∧ x.toNat < right) ∧ top ≤ y.toNat ∧ y.toNat < bottom ↔
        (left' ≤ x.toNat ∧ x.toNat < right') ∧ top' ≤ y.toNat ∧ y.toNat < bottom') ↔
      ∀ x y : ℕ, (left ≤ x ∧ x < right) ∧ top ≤ y ∧ y < bottom ↔
        (left' ≤ x ∧ x < right') ∧ top' ≤ y ∧ y < bottom' := by
  refine ⟨fun h x y => ?_, fun h y x => h x.toNat y.toNat⟩
  by_cases hin : x < 2 ^ 32 ∧ y < 2 ^ 32
  · have hxy := h (.ofNat 32 y) (.ofNat 32 x)
    rw [BitVec.toNat_ofNat, BitVec.toNat_ofNat, Nat.mod_eq_of_lt hin.1,
      Nat.mod_eq_of_lt hin.2] at hxy
    exact hxy
  · omega

/-- **What is visited is what is wanted exactly where the clipping is right.** -/
theorem visited_iff :
    (∀ y x, (y, x) ∈ b.visits destX destY sourceX width height image ↔
        b.Wanted destX destY sourceX sourceY width height image y x) ↔
      b.Clips destX destY sourceX sourceY width height image := by
  have hright := wantedTo_le width image.width sourceX destX b.width
  have hbottom := wantedTo_le height image.height sourceY destY b.height
  have hwidth := width.isLt
  have hheight := height.isLt
  simp only [wanted_iff, mem_visits]
  rw [Clips]
  by_cases hskipped : b.Skipped destX destY width height
  · have hnone (y x : BitVec 32) : (¬b.Skipped destX destY width height ∧
        (wantedFrom destX % 2 ^ 31 ≤ x.toNat ∧
          x.toNat < (finishOf width image.width sourceX destX).toNat) ∧
        wantedFrom destX % 2 ^ 31 ≤ y.toNat ∧
          y.toNat < (finishOf height image.height sourceX destX).toNat) ↔
        (0 ≤ x.toNat ∧ x.toNat < 0) ∧ 0 ≤ y.toNat ∧ y.toNat < 0 :=
      iff_of_false (fun h => h.1 hskipped) (fun h => Nat.not_lt_zero _ h.1.2)
    simp only [hnone]
    rw [forall_position (by omega) (by omega) (by omega) (by omega), rectangle_iff]
    split
    · next hsome => exact iff_of_false (fun h => by omega) (fun h => h.1 hskipped)
    · exact iff_of_true (Or.inl (Nat.le_refl 0)) (Or.inl hskipped)
  · simp only [hskipped, not_false_eq_true, true_and, false_or]
    rw [forall_position (BitVec.isLt _) (BitVec.isLt _) (by omega) (by omega), rectangle_iff]
    split
    · rw [← finish_iff hright, ← finish_iff hbottom]
      constructor
      · rintro ⟨hX, hr, hY, hb⟩
        obtain ⟨hleast, hsame⟩ := starts_iff.mp ⟨hX, hY⟩
        exact ⟨hleast, hsame, hr, hb⟩
      · rintro ⟨hleast, hsame, hr, hb⟩
        obtain ⟨hX, hY⟩ := starts_iff.mpr ⟨hleast, hsame⟩
        exact ⟨hX, hr, hY, hb⟩
    · rw [toNat_finishOf, toNat_finishOf]
      simp only [List.mem_cons, List.not_mem_nil, or_false, exists_eq_or_imp, exists_eq_left]
      omega

/-! ## What is drawn -/

/-- A run of one pixel is it. -/
theorem inRun_one {px py : BitVec 32} : InRun x y 1 px py ↔ px = x ∧ py = y := by
  have hone : (1 : BitVec 32).toNat = 1 := rfl
  rw [InRun, hone, BitVec.le_def]
  constructor
  · rintro ⟨rfl, hle, hlt⟩
    exact ⟨BitVec.eq_of_toNat_eq (by omega), rfl⟩
  · rintro ⟨rfl, rfl⟩
    exact ⟨rfl, Nat.le_refl _, Nat.lt_succ_self _⟩

variable (sourceX sourceY) in
/-- **Positions in the buffer are drawn**, each once. -/
theorem foldlM_set (hread : b.ReadsBack has128Bit) (hapart : b.Apart has128Bit image)
    {positions : List (BitVec 32 × BitVec 32)} (hnodup : positions.Nodup)
    (hin : ∀ y x, (y, x) ∈ positions → destX + x < b.width ∧ destY + y < b.height)
    (memory : Memory) :
    ∃ memory', positions.foldlM (fun memory (y, x) => b.set has128Bit memory (destX + x) (destY + y)
        (image.get memory (sourceX + x) (sourceY + y)) 1) memory = some memory' ∧
      (∀ y x, (y, x) ∈ positions → b.get memory' (destX + x) (destY + y)
        = reduce b.format (image.get memory (sourceX + x) (sourceY + y))) ∧
      ∀ px py, (∀ y x, (y, x) ∈ positions → ¬(px = destX + x ∧ py = destY + y)) →
        b.get memory' px py = b.get memory px py := by
  induction positions generalizing memory with
  | nil => exact ⟨memory, rfl, fun _ _ h => absurd h List.not_mem_nil, fun _ _ _ => rfl⟩
  | cons position positions ih =>
    obtain ⟨y, x⟩ := position
    rw [List.nodup_cons] at hnodup
    obtain ⟨hx, hy⟩ := hin y x List.mem_cons_self
    obtain ⟨memory₁, hset, hself, hother, -⟩ := hread.run memory (destX + x) (destY + y)
      (image.get memory (sourceX + x) (sourceY + y)) 1 hx hy (one_le hx)
    obtain ⟨memory', hfold, hdrawn, hkept⟩ := ih hnodup.2
      (fun y x hmem => hin y x (List.mem_cons_of_mem _ hmem)) memory₁
    have himage := hapart _ _ _ _ _ hset
    refine ⟨memory', ?_, ?_, ?_⟩
    · rw [List.foldlM_cons]
      exact (congrArg (· >>= _) hset).trans hfold
    · intro y' x' hmem
      rcases List.mem_cons.mp hmem with heq | hmem
      · obtain ⟨rfl, rfl⟩ := Prod.mk.inj heq
        -- it is not set again
        rw [hkept, hself _ _ (inRun_one.mpr ⟨rfl, rfl⟩)]
        intro y'' x'' hmem' hsame
        have hy'' : y'' = y' := by bv_omega
        have hx'' : x'' = x' := by bv_omega
        rw [hy'', hx''] at hmem'
        exact hnodup.1 hmem'
      · rw [hdrawn y' x' hmem, himage]
    · intro px py hnot
      rw [hkept px py fun y' x' hmem => hnot y' x' (List.mem_cons_of_mem _ hmem)]
      exact hother px py fun hrun => hnot y x List.mem_cons_self (inRun_one.mp hrun)

/-- What is wanted is in the buffer. -/
theorem Wanted.inside (h : b.Wanted destX destY sourceX sourceY width height image y x) :
    destX + x < b.width ∧ destY + y < b.height := by
  obtain ⟨-, -, hleft, hright, htop, hbottom, -, -⟩ := h
  have hwidth := b.width.isLt
  have hheight := b.height.isLt
  rw [BitVec.toInt_eq_toNat_cond] at hleft hright htop hbottom
  rw [BitVec.lt_def, BitVec.lt_def, BitVec.toNat_add, BitVec.toNat_add]
  have hX := destX.isLt
  have hY := destY.isLt
  constructor
  · split at hleft <;> omega
  · split at htop <;> omega

/-! ## The result -/

/-- **An image is copied exactly where the clipping is right.** -/
theorem copies_iff (b : Buffer) (has128Bit : Bool)
    (destX destY sourceX sourceY width height : BitVec 32) (image : Buffer) :
    b.Copies has128Bit destX destY sourceX sourceY width height image ↔
      b.Clips destX destY sourceX sourceY width height image := by
  refine ⟨fun h => visited_iff.mp h.visited, fun h => ?_⟩
  have hvisited := visited_iff.mpr h
  refine ⟨hvisited, nodup_visits, fun hread hapart memory => ?_⟩
  obtain ⟨memory', hdraw, hdrawn, hkept⟩ := foldlM_set sourceX sourceY hread hapart nodup_visits
    (fun y x hmem => ((hvisited y x).mp hmem).inside) memory
  refine ⟨memory', hdraw, fun y x hwanted => hdrawn y x ((hvisited y x).mpr hwanted), ?_⟩
  intro px py hnot
  exact hkept px py fun y x hmem => hnot y x ((hvisited y x).mp hmem)

/-- A buffer of two pixels by one, -/
def wide : Buffer := ⟨.grey8, .argb, 16, 2, 2, 1⟩

/-- and an image of one. -/
def dot : Buffer := ⟨.grey8, .argb, 32, 1, 1, 1⟩

/-- To the right of the first pixel it is not copied. -/
theorem not_copies_dot : ¬wide.Copies false 1 0 0 0 1 1 dot :=
  fun h => absurd (visited_iff.mp h.visited) (by decide)

end Buffer

end Graphics2d

end Uberos
