import Uberos.DisplayManager.Model
/-!
# Scanning a row

What a scan paints of a row no display takes up, whichever way it finds
its next start. The way of `__update_display_solid_area` also misses
nothing, while no display in the way is of no width. That of
`_update_background_area` passes over a gap between a display and one
found before it further to the right; it misses nothing where it meets no
such gap.
-/

namespace Uberos

namespace DisplayManager

variable {next : Turn → ℤ → ℤ} {areas : List (ℤ × ℤ)} {t : Turn} {x x2 startX : ℤ} {fuel : ℕ}

/-- A display takes up the place. -/
def Taken (areas : List (ℤ × ℤ)) (x : ℤ) : Prop := ∃ area ∈ areas, area.1 ≤ x ∧ x < area.2

/-- The runs of a row have the place. -/
def Painted (runs : List (ℤ × ℤ)) (x : ℤ) : Prop := ∃ run ∈ runs, run.1 ≤ x ∧ x < run.2

@[simp] theorem not_painted_nil : ¬ Painted [] x := by
  rintro ⟨run, hrun, -⟩
  cases hrun

theorem painted_append {runs runs' : List (ℤ × ℤ)} :
    Painted (runs ++ runs') x ↔ Painted runs x ∨ Painted runs' x := by
  simp only [Painted, List.mem_append, or_and_right, exists_or]

/-- The run of a turn, if there is one. -/
theorem painted_run : Painted (if t.endX > t.startX then [(t.startX, t.endX)] else []) x ↔
    t.startX ≤ x ∧ x < t.endX := by
  split
  · simp [Painted]
  · rename_i hnone
    refine iff_of_false not_painted_nil fun h => hnone ?_
    omega

/-! ## A turn -/

/-- **What a turn leaves to paint no display takes up.** -/
theorem not_taken_of_turn (h1 : (scanTurn next areas t).startX ≤ x)
    (h2 : x < (scanTurn next areas t).endX) :
    (t.startX ≤ x ∧ x < t.endX) ∧ ¬ Taken areas x := by
  induction areas generalizing t with
  | nil => exact ⟨⟨h1, h2⟩, fun ⟨area, harea, _⟩ => by cases harea⟩
  | cons area rest ih =>
    obtain ⟨areaX1, areaX2⟩ := area
    have hcons : ∀ {y}, ¬ Taken rest y → ¬ (areaX1 ≤ y ∧ y < areaX2) →
        ¬ Taken ((areaX1, areaX2) :: rest) y := by
      rintro y hrest hfirst ⟨area, harea, hy⟩
      rcases List.mem_cons.1 harea with rfl | harea
      · exact hfirst hy
      · exact hrest ⟨area, harea, hy⟩
    rw [scanTurn] at h1 h2
    split at h1
    · split at h1
      · rename_i hfirst hstop
        -- the loop breaks, and nothing is left
        rw [if_pos hfirst, if_pos hstop] at h2
        simp only at h1 h2
        omega
      · rename_i hfirst hgo
        rw [if_pos hfirst, if_neg hgo] at h2
        obtain ⟨⟨hstart, hend⟩, hrest⟩ := ih h1 h2
        simp only at hstart hend
        exact ⟨by omega, hcons hrest (by omega)⟩
    · rename_i hfirst
      rw [if_neg hfirst] at h2
      split at h1
      · rename_i hwithin
        rw [if_pos hwithin] at h2
        obtain ⟨⟨hstart, hend⟩, hrest⟩ := ih h1 h2
        simp only at hstart hend
        exact ⟨by omega, hcons hrest (by omega)⟩
      · rename_i hbeyond
        rw [if_neg hbeyond] at h2
        obtain ⟨⟨hstart, hend⟩, hrest⟩ := ih h1 h2
        exact ⟨by omega, hcons hrest (by omega)⟩

/-- What a turn of the better scan comes to. -/
structure Covers (taken : ℤ → Prop) (t t' : Turn) : Prop where
  /-- What it starts past is taken up. -/
  start : ∀ x, t.startX ≤ x → x < t'.startX → taken x
  /-- So is what lies between the end and the next start. -/
  next : ∀ x, t'.endX ≤ x → x < t'.nextX → taken x
  /-- The end is where it was, or there is a next start beyond it. -/
  stop : t'.endX = t.endX ∧ t'.nextX = t.nextX ∨
    t.startX < t'.endX ∧ t'.endX < t'.nextX ∧ t'.endX ≤ t.endX

/-- **It accounts for the row from its start to its next one.** -/
theorem covers_turn {taken : ℤ → Prop} (hwide : ∀ area ∈ areas, area.1 < area.2)
    (htaken : ∀ x, Taken areas x → taken x) (hnext : ∀ x, t.endX ≤ x → x < t.nextX → taken x) :
    Covers taken t (scanTurn displayNext areas t) := by
  induction areas generalizing t with
  | nil =>
    refine ⟨fun x h1 h2 => ?_, hnext, Or.inl ⟨rfl, rfl⟩⟩
    rw [scanTurn] at h2
    omega
  | cons area rest ih =>
    obtain ⟨areaX1, areaX2⟩ := area
    have hfirst : ∀ y, areaX1 ≤ y → y < areaX2 → taken y := fun y h1 h2 =>
      htaken y ⟨_, List.mem_cons_self, h1, h2⟩
    have hrest : ∀ y, Taken rest y → taken y := fun y ⟨area, harea, hy⟩ =>
      htaken y ⟨area, List.mem_cons_of_mem _ harea, hy⟩
    have hwide' : ∀ area ∈ rest, area.1 < area.2 := fun area harea =>
      hwide area (List.mem_cons_of_mem _ harea)
    have hlt : areaX1 < areaX2 := hwide _ List.mem_cons_self
    have hpast : ∀ y, areaX1 ≤ t.startX → t.startX ≤ y → y < max t.startX areaX2 → taken y :=
      fun y h0 h1 h2 => hfirst y (by omega) (by omega)
    rw [scanTurn]
    split
    · rename_i hbefore
      split
      · exact ⟨fun y h1 h2 => hpast y hbefore h1 h2, hnext, Or.inl ⟨rfl, rfl⟩⟩
      · obtain ⟨hstart, hgap, hstop⟩ :=
          ih (t := { t with startX := max t.startX areaX2 }) hwide' hrest hnext
        refine ⟨fun y h1 h2 => ?_, hgap, ?_⟩
        · by_cases hy : y < max t.startX areaX2
          · exact hpast y hbefore h1 hy
          · exact hstart y (by simpa using hy) h2
        · refine hstop.imp_right fun ⟨h1, h2, h3⟩ => ⟨?_, h2, h3⟩
          simp only at h1
          omega
    · rename_i hafter
      split
      · rename_i hwithin
        -- the display is taken up, and what was found already if it reaches that far
        have hjump : ∀ y, areaX1 ≤ y → y < displayNext t areaX2 → taken y := by
          intro y h1 h2
          rw [displayNext] at h2
          split at h2
          · exact hfirst y h1 h2
          · by_cases hy : y < areaX2
            · exact hfirst y h1 hy
            · exact hnext y (by omega) (by omega)
        have hbeyond : areaX1 < displayNext t areaX2 := by
          rw [displayNext]
          split <;> omega
        obtain ⟨hstart, hgap, hstop⟩ :=
          ih (t := { t with endX := areaX1, nextX := displayNext t areaX2 }) hwide' hrest hjump
        refine ⟨hstart, hgap, Or.inr ?_⟩
        rcases hstop with ⟨h1, h2⟩ | ⟨h1, h2, h3⟩
        · simp only at h1 h2
          omega
        · simp only at h1 h3
          omega
      · exact ih hwide' hrest hnext

/-- A turn ends past where it started. -/
theorem lt_endX_turn (h : t.startX < t.endX) : t.startX < (scanTurn next areas t).endX := by
  induction areas generalizing t with
  | nil => exact h
  | cons area rest ih =>
    rw [scanTurn]
    split
    · split
      · exact h
      · rename_i hgo
        have hlater := ih (t := { t with startX := max t.startX area.2 }) (by simpa using hgo)
        simp only at hlater
        omega
    · rename_i hafter
      split
      · exact ih (t := { t with endX := area.1, nextX := next t area.2 }) (by simpa using hafter)
      · exact ih h

/-! ## A row -/

/-- **What a scan paints no display takes up.** -/
theorem not_taken_of_painted (h : Painted (scanRow next areas x2 fuel startX) x) :
    (startX ≤ x ∧ x < x2) ∧ ¬ Taken areas x := by
  induction fuel generalizing startX with
  | zero => exact absurd h not_painted_nil
  | succ fuel ih =>
    rw [scanRow] at h
    split at h
    · rename_i hstart
      rcases painted_append.1 h with hrun | hlater
      · rw [painted_run] at hrun
        exact not_taken_of_turn hrun.1 hrun.2
      · split at hlater
        · rename_i hmore
          have hpast : startX < (scanTurn next areas ⟨startX, x2, startX⟩).endX := lt_endX_turn hstart
          obtain ⟨⟨h1, h2⟩, hfree⟩ := ih hlater
          exact ⟨⟨by omega, h2⟩, hfree⟩
        · exact absurd hlater not_painted_nil
    · exact absurd h not_painted_nil

/-- **The better scan misses nothing.** -/
theorem painted_of_not_taken (hwide : ∀ area ∈ areas, area.1 < area.2)
    (hfuel : (x2 - startX).toNat ≤ fuel) (h1 : startX ≤ x) (h2 : x < x2) (hfree : ¬ Taken areas x) :
    Painted (scanRow displayNext areas x2 fuel startX) x := by
  induction fuel generalizing startX with
  | zero => omega
  | succ fuel ih =>
    have hturn : Covers (Taken areas) ⟨startX, x2, startX⟩
        (scanTurn displayNext areas ⟨startX, x2, startX⟩) :=
      covers_turn hwide (fun _ h => h) fun y hy1 hy2 => by simp only at hy1 hy2; omega
    have hstart : (scanTurn displayNext areas ⟨startX, x2, startX⟩).startX ≤ x := by
      by_contra hcon
      exact hfree (hturn.start x h1 (by omega))
    rw [scanRow, if_pos (by omega), painted_append, painted_run]
    by_cases hend : x < (scanTurn displayNext areas ⟨startX, x2, startX⟩).endX
    · exact Or.inl ⟨hstart, hend⟩
    · right
      rcases hturn.stop with ⟨hsame, -⟩ | ⟨hpast, hmore, -⟩
      · simp only at hsame
        omega
      · simp only at hpast
        have hnext : (scanTurn displayNext areas ⟨startX, x2, startX⟩).nextX ≤ x := by
          by_contra hcon
          exact hfree (hturn.next x (by omega) (by omega))
        rw [if_pos hmore]
        exact ih (by omega) hnext

/-! ## Gaps -/

/-- **No display that is met ends before one that was, with that further
to the right.** -/
def TurnStraight : List (ℤ × ℤ) → Turn → Prop
  | [], _ => True
  | (areaX1, areaX2) :: rest, t =>
    if areaX1 ≤ t.startX then
      if max t.startX areaX2 ≥ t.endX then True
      else TurnStraight rest { t with startX := max t.startX areaX2 }
    else if areaX1 < t.endX then
      ¬ (areaX2 < t.endX ∧ areaX2 < t.nextX) ∧
        TurnStraight rest { t with endX := areaX1, nextX := backgroundNext t areaX2 }
    else TurnStraight rest t

/-- In no turn of a row. -/
def RowStraight (areas : List (ℤ × ℤ)) (x2 : ℤ) : ℕ → ℤ → Prop
  | 0, _ => True
  | fuel + 1, startX => startX < x2 →
    TurnStraight areas ⟨startX, x2, startX⟩ ∧
      (let t := scanTurn backgroundNext areas ⟨startX, x2, startX⟩
      t.nextX > t.endX → RowStraight areas x2 fuel t.nextX)

instance TurnStraight.decidable :
    ∀ (areas : List (ℤ × ℤ)) (t : Turn), Decidable (TurnStraight areas t)
  | [], _ => inferInstanceAs (Decidable True)
  | (areaX1, areaX2) :: rest, t =>
    have := TurnStraight.decidable rest { t with startX := max t.startX areaX2 }
    have := TurnStraight.decidable rest
      { t with endX := areaX1, nextX := backgroundNext t areaX2 }
    have := TurnStraight.decidable rest t
    inferInstanceAs (Decidable (
      if areaX1 ≤ t.startX then
        if max t.startX areaX2 ≥ t.endX then True
        else TurnStraight rest { t with startX := max t.startX areaX2 }
      else if areaX1 < t.endX then
        ¬ (areaX2 < t.endX ∧ areaX2 < t.nextX) ∧
          TurnStraight rest { t with endX := areaX1, nextX := backgroundNext t areaX2 }
      else TurnStraight rest t))

instance RowStraight.decidable (areas : List (ℤ × ℤ)) (x2 : ℤ) :
    ∀ (fuel : ℕ) (startX : ℤ), Decidable (RowStraight areas x2 fuel startX)
  | 0, _ => inferInstanceAs (Decidable True)
  | fuel + 1, startX =>
    have := RowStraight.decidable areas x2 fuel
      (scanTurn backgroundNext areas ⟨startX, x2, startX⟩).nextX
    inferInstanceAs (Decidable (_ → _ ∧ (_ → _)))

theorem scanTurn_straight (h : TurnStraight areas t) :
    scanTurn backgroundNext areas t = scanTurn displayNext areas t := by
  induction areas generalizing t with
  | nil => rfl
  | cons area rest ih =>
    obtain ⟨areaX1, areaX2⟩ := area
    rw [TurnStraight] at h
    rw [scanTurn, scanTurn]
    split
    · rename_i hbefore
      rw [if_pos hbefore] at h
      split
      · rfl
      · rename_i hgo
        rw [if_neg hgo] at h
        exact ih h
    · rename_i hafter
      rw [if_neg hafter] at h
      split
      · rename_i hwithin
        rw [if_pos hwithin] at h
        obtain ⟨hgap, hrest⟩ := h
        have hsame : displayNext t areaX2 = backgroundNext t areaX2 := by
          rw [displayNext, backgroundNext]
          split <;> omega
        rw [hsame]
        exact ih hrest
      · rename_i hbeyond
        rw [if_neg hbeyond] at h
        exact ih h

/-- **Where it meets no gap the background's scan is as good.** -/
theorem scanRow_straight (h : RowStraight areas x2 fuel startX) :
    scanRow backgroundNext areas x2 fuel startX = scanRow displayNext areas x2 fuel startX := by
  induction fuel generalizing startX with
  | zero => rfl
  | succ fuel ih =>
    rw [scanRow, scanRow]
    split
    · rename_i hstart
      obtain ⟨hturn, hlater⟩ := h hstart
      rw [← scanTurn_straight hturn]
      dsimp only
      congr 1
      by_cases hmore : (scanTurn backgroundNext areas ⟨startX, x2, startX⟩).nextX >
          (scanTurn backgroundNext areas ⟨startX, x2, startX⟩).endX
      · rw [if_pos hmore, if_pos hmore, ih (hlater hmore)]
      · rw [if_neg hmore, if_neg hmore]
    · rfl

end DisplayManager

end Uberos

/-!
## What a scan of a row loses

A place no display takes up is lost to a scan where a turn passes over it,
or where no turn follows one that ends before it. The first is what
`_update_background_area` does to a gap between a display and one found
before it further to the right. The second both scans do at a display that
has nothing of the row.
-/

namespace Uberos

namespace DisplayManager

variable {next : Turn → ℤ → ℤ} {passes : Turn → Prop} {areas : List (ℤ × ℤ)} {t : Turn}
variable {x x2 startX : ℤ} {fuel : ℕ}

/-- **A turn of the background's scan passes over the place**: a display
that is met ends before it, where one was found before that starts after
it. -/
def TurnPasses (x : ℤ) : List (ℤ × ℤ) → Turn → Prop
  | [], _ => False
  | (areaX1, areaX2) :: rest, t =>
    if areaX1 ≤ t.startX then
      if max t.startX areaX2 ≥ t.endX then False
      else TurnPasses x rest { t with startX := max t.startX areaX2 }
    else if areaX1 < t.endX then
      -- one was found before if there is a next start
      (t.endX ≤ t.nextX ∧ areaX2 ≤ x ∧ x < t.endX) ∨
        TurnPasses x rest { t with endX := areaX1, nextX := backgroundNext t areaX2 }
    else TurnPasses x rest t

/-- **The scan of a row loses the place**: a turn passes over it, or none
follows one that ends before it. -/
def RowLoses (next : Turn → ℤ → ℤ) (passes : Turn → Prop) (areas : List (ℤ × ℤ)) (x2 x : ℤ) :
    ℕ → ℤ → Prop
  | 0, _ => False
  | fuel + 1, startX => startX < x2 ∧
    let t := scanTurn next areas ⟨startX, x2, startX⟩
    passes ⟨startX, x2, startX⟩ ∨ (t.nextX ≤ t.endX ∧ t.endX ≤ x) ∨
      (t.nextX > t.endX ∧ RowLoses next passes areas x2 x fuel t.nextX)

instance TurnPasses.decidable (x : ℤ) :
    ∀ (areas : List (ℤ × ℤ)) (t : Turn), Decidable (TurnPasses x areas t)
  | [], _ => inferInstanceAs (Decidable False)
  | (areaX1, areaX2) :: rest, t =>
    have := TurnPasses.decidable x rest { t with startX := max t.startX areaX2 }
    have := TurnPasses.decidable x rest
      { t with endX := areaX1, nextX := backgroundNext t areaX2 }
    have := TurnPasses.decidable x rest t
    inferInstanceAs (Decidable (
      if areaX1 ≤ t.startX then
        if max t.startX areaX2 ≥ t.endX then False
        else TurnPasses x rest { t with startX := max t.startX areaX2 }
      else if areaX1 < t.endX then
        (t.endX ≤ t.nextX ∧ areaX2 ≤ x ∧ x < t.endX) ∨
          TurnPasses x rest { t with endX := areaX1, nextX := backgroundNext t areaX2 }
      else TurnPasses x rest t))

instance RowLoses.decidable [DecidablePred passes] (areas : List (ℤ × ℤ)) (x2 x : ℤ) :
    ∀ (fuel : ℕ) (startX : ℤ), Decidable (RowLoses next passes areas x2 x fuel startX)
  | 0, _ => inferInstanceAs (Decidable False)
  | fuel + 1, startX =>
    have := RowLoses.decidable areas x2 x fuel
      (scanTurn next areas ⟨startX, x2, startX⟩).nextX
    inferInstanceAs (Decidable (_ ∧ (_ ∨ (_ ∧ _) ∨ (_ ∧ _))))

/-! ## A turn -/

theorem not_taken_cons {area : ℤ × ℤ} (h : ¬ Taken (area :: areas) x) :
    ¬ (area.1 ≤ x ∧ x < area.2) ∧ ¬ Taken areas x := by
  constructor
  · exact fun hx => h ⟨area, List.mem_cons_self, hx⟩
  · rintro ⟨other, hother, hx⟩
    exact h ⟨other, List.mem_cons_of_mem _ hother, hx⟩

/-- A turn starts past what is taken up, and no further. -/
theorem startX_turn_le (hfree : ¬ Taken areas x) (h : t.startX ≤ x) :
    (scanTurn next areas t).startX ≤ x := by
  induction areas generalizing t with
  | nil => exact h
  | cons area rest ih =>
    obtain ⟨hfirst, hrest⟩ := not_taken_cons hfree
    rw [scanTurn]
    split
    · rename_i hbefore
      have hstart : max t.startX area.2 ≤ x := by omega
      split
      · exact hstart
      · exact ih hrest hstart
    · split
      · exact ih hrest h
      · exact ih hrest h

/-- **What lies between the end of a turn and the next start** was passed
over in it. By then either a display was found, and the next start is past
the end, or none was. -/
theorem between_background (hareas : ∀ area ∈ areas, area.1 ≤ area.2) (hfree : ¬ Taken areas x)
    (hfound : t.endX ≤ t.nextX ∨ t.nextX ≤ t.startX ∧ t.startX < t.endX) :
    ((scanTurn backgroundNext areas t).endX ≤ x ∧ x < (scanTurn backgroundNext areas t).nextX) ↔
      (t.endX ≤ x ∧ x < t.nextX) ∨ TurnPasses x areas t := by
  induction areas generalizing t with
  | nil => exact (or_false _).symm.to_iff
  | cons area rest ih =>
    obtain ⟨areaX1, areaX2⟩ := area
    obtain ⟨hfirst, hrest⟩ := not_taken_cons hfree
    have hareas' : ∀ area ∈ rest, area.1 ≤ area.2 := fun area harea =>
      hareas area (List.mem_cons_of_mem _ harea)
    have hle : areaX1 ≤ areaX2 := hareas _ List.mem_cons_self
    dsimp only at hfirst
    rw [scanTurn, TurnPasses]
    split
    · split
      · exact (or_false _).symm.to_iff
      · rename_i hgo
        refine ih hareas' hrest ?_
        dsimp only
        omega
    · rename_i hafter
      split
      · rename_i hwithin
        have hlater := ih (t := { t with endX := areaX1, nextX := backgroundNext t areaX2 })
          hareas' hrest (Or.inl (hle.trans (le_max_right _ _)))
        refine hlater.trans ?_
        rw [← or_assoc]
        refine or_congr_left ?_
        dsimp only [backgroundNext]
        omega
      · exact ih hareas' hrest hfound

/-- In the other scan there is nothing between. -/
theorem between_display (hfree : ¬ Taken areas x) (hnone : ¬ (t.endX ≤ x ∧ x < t.nextX)) :
    ¬ ((scanTurn displayNext areas t).endX ≤ x ∧ x < (scanTurn displayNext areas t).nextX) := by
  induction areas generalizing t with
  | nil => exact hnone
  | cons area rest ih =>
    obtain ⟨areaX1, areaX2⟩ := area
    obtain ⟨hfirst, hrest⟩ := not_taken_cons hfree
    dsimp only at hfirst
    rw [scanTurn]
    split
    · split
      · exact hnone
      · exact ih hrest hnone
    · split
      · refine ih hrest ?_
        dsimp only [displayNext]
        split <;> omega
      · exact ih hrest hnone

/-- **A turn that none follows** found nothing, or what it found last has
nothing of the row. -/
theorem exists_empty_of_last (hnext : ∀ t areaX2, areaX2 ≤ next t areaX2)
    (hareas : ∀ area ∈ areas, area.1 ≤ area.2)
    (hlast : (scanTurn next areas t).nextX ≤ (scanTurn next areas t).endX) :
    (scanTurn next areas t).endX = t.endX ∧ (scanTurn next areas t).nextX = t.nextX ∨
      ∃ area ∈ areas, area.1 = area.2 ∧ area.1 = (scanTurn next areas t).endX := by
  induction areas generalizing t with
  | nil => exact Or.inl ⟨rfl, rfl⟩
  | cons area rest ih =>
    have hrest : ∀ area ∈ rest, area.1 ≤ area.2 := fun area harea =>
      hareas area (List.mem_cons_of_mem _ harea)
    have hle : area.1 ≤ area.2 := hareas _ List.mem_cons_self
    have hcons : ∀ {endX : ℤ}, (∃ area ∈ rest, area.1 = area.2 ∧ area.1 = endX) →
        ∃ other ∈ area :: rest, other.1 = other.2 ∧ other.1 = endX := fun ⟨other, hother, h⟩ =>
      ⟨other, List.mem_cons_of_mem _ hother, h⟩
    rw [scanTurn] at hlast ⊢
    split
    · rename_i hbefore
      rw [if_pos hbefore] at hlast
      split
      · exact Or.inl ⟨rfl, rfl⟩
      · rename_i hgo
        rw [if_neg hgo] at hlast
        exact (ih hrest hlast).imp_right hcons
    · rename_i hafter
      rw [if_neg hafter] at hlast
      split
      · rename_i hwithin
        rw [if_pos hwithin] at hlast
        rcases ih hrest hlast with ⟨hend, hsame⟩ | hempty
        · refine Or.inr ⟨area, List.mem_cons_self, ?_, hend.symm⟩
          have hjump := hnext t area.2
          dsimp only at hend hsame
          omega
        · exact Or.inr (hcons hempty)
      · rename_i hbeyond
        rw [if_neg hbeyond] at hlast
        exact (ih hrest hlast).imp_right hcons

/-! ## A row -/

/-- What is lost is further on. -/
theorem RowLoses.lt (hpasses : ∀ startX, startX < x2 → passes ⟨startX, x2, startX⟩ →
      (scanTurn next areas ⟨startX, x2, startX⟩).endX ≤ x)
    (h : RowLoses next passes areas x2 x fuel startX) : startX < x := by
  induction fuel generalizing startX with
  | zero => exact h.elim
  | succ fuel ih =>
    obtain ⟨hstart, h⟩ := h
    have hlt : startX < (scanTurn next areas ⟨startX, x2, startX⟩).endX := lt_endX_turn hstart
    rcases h with hpass | ⟨-, hend⟩ | ⟨hmore, hlater⟩
    · exact hlt.trans_le (hpasses startX hstart hpass)
    · omega
    · have hlast := ih hlater
      omega

/-- **A place that no display takes up is painted if the scan does not
lose it**, where what a turn passes over is what lies between its end and
the next start. -/
theorem painted_iff_not_rowLoses (hfree : ¬ Taken areas x) (h2 : x < x2)
    (hpasses : ∀ startX, startX < x2 → (passes ⟨startX, x2, startX⟩ ↔
      (scanTurn next areas ⟨startX, x2, startX⟩).endX ≤ x ∧
        x < (scanTurn next areas ⟨startX, x2, startX⟩).nextX))
    (hfuel : (x2 - startX).toNat ≤ fuel) (h1 : startX ≤ x) :
    Painted (scanRow next areas x2 fuel startX) x ↔
      ¬ RowLoses next passes areas x2 x fuel startX := by
  induction fuel generalizing startX with
  | zero => omega
  | succ fuel ih =>
    have hstart : startX < x2 := h1.trans_lt h2
    have hlt : startX < (scanTurn next areas ⟨startX, x2, startX⟩).endX := lt_endX_turn hstart
    have hfrom : (scanTurn next areas ⟨startX, x2, startX⟩).startX ≤ x := startX_turn_le hfree h1
    have hpass := hpasses startX hstart
    have hlater : RowLoses next passes areas x2 x fuel
        (scanTurn next areas ⟨startX, x2, startX⟩).nextX →
        (scanTurn next areas ⟨startX, x2, startX⟩).nextX < x :=
      RowLoses.lt fun startX hstart hpass => ((hpasses startX hstart).1 hpass).1
    rw [scanRow, if_pos hstart, painted_append, painted_run, RowLoses]
    generalize scanTurn next areas ⟨startX, x2, startX⟩ = t at *
    rw [hpass, and_iff_right hstart]
    dsimp only
    rcases lt_or_ge x t.endX with hin | hout
    · refine iff_of_true (Or.inl ⟨hfrom, hin⟩) ?_
      rintro (hpass | hend | ⟨hmore, hloses⟩)
      · omega
      · omega
      · have hnext := hlater hloses
        omega
    · rcases le_or_gt t.nextX t.endX with hlast | hmore
      · rw [if_neg (by omega)]
        refine iff_of_false ?_ (not_not.2 (Or.inr (Or.inl ⟨hlast, hout⟩)))
        rintro (hrun | hnone)
        · omega
        · exact not_painted_nil hnone
      · rw [if_pos hmore]
        rcases lt_or_ge x t.nextX with hgap | hnext
        · refine iff_of_false ?_ (not_not.2 (Or.inl ⟨hout, hgap⟩))
          rintro (hrun | hpainted)
          · omega
          · have hafter := (not_taken_of_painted hpainted).1.1
            omega
        · have hrow : Painted (scanRow next areas x2 fuel t.nextX) x ↔
              ¬ RowLoses next passes areas x2 x fuel t.nextX := ih (by omega) hnext
          constructor
          · rintro (hrun | hpainted)
            · omega
            · rintro (hpass | hend | ⟨-, hloses⟩)
              · omega
              · omega
              · exact hrow.1 hpainted hloses
          · intro hkept
            exact Or.inr (hrow.2 fun hloses => hkept (Or.inr (Or.inr ⟨hmore, hloses⟩)))

/-- What the background's scan loses of a row. -/
abbrev BackgroundLoses (areas : List (ℤ × ℤ)) (x2 x : ℤ) : ℕ → ℤ → Prop :=
  RowLoses backgroundNext (TurnPasses x areas) areas x2 x

/-- What the other loses. -/
abbrev DisplayLoses (areas : List (ℤ × ℤ)) (x2 x : ℤ) : ℕ → ℤ → Prop :=
  RowLoses displayNext (fun _ => False) areas x2 x

/-- Only what is free in the row is painted, so this is told of that. -/
theorem painted_iff_of_free {loses : Prop} (hrow : ¬ Taken areas x → x < x2 → startX ≤ x →
      (Painted (scanRow next areas x2 fuel startX) x ↔ ¬ loses)) :
    Painted (scanRow next areas x2 fuel startX) x ↔
      ((startX ≤ x ∧ x < x2) ∧ ¬ Taken areas x) ∧ ¬ loses := by
  constructor
  · intro h
    have hplace := not_taken_of_painted h
    exact ⟨hplace, (hrow hplace.2 hplace.1.2 hplace.1.1).1 h⟩
  · rintro ⟨⟨⟨h1, h2⟩, hfree⟩, hkept⟩
    exact (hrow hfree h2 h1).2 hkept

/-- **The background's scan paints what is free and not lost.** -/
theorem painted_background_iff (hareas : ∀ area ∈ areas, area.1 ≤ area.2)
    (hfuel : (x2 - startX).toNat ≤ fuel) :
    Painted (scanRow backgroundNext areas x2 fuel startX) x ↔
      ((startX ≤ x ∧ x < x2) ∧ ¬ Taken areas x) ∧ ¬ BackgroundLoses areas x2 x fuel startX := by
  refine painted_iff_of_free fun hfree h2 h1 => ?_
  refine painted_iff_not_rowLoses hfree h2 (fun start hstart => ?_) hfuel h1
  rw [between_background hareas hfree (Or.inr ⟨le_refl start, hstart⟩), or_iff_right]
  dsimp only
  omega

/-- **So does the other.** -/
theorem painted_display_iff (hfuel : (x2 - startX).toNat ≤ fuel) :
    Painted (scanRow displayNext areas x2 fuel startX) x ↔
      ((startX ≤ x ∧ x < x2) ∧ ¬ Taken areas x) ∧ ¬ DisplayLoses areas x2 x fuel startX := by
  refine painted_iff_of_free fun hfree h2 h1 => ?_
  refine painted_iff_not_rowLoses hfree h2 (fun start hstart => ?_) hfuel h1
  refine iff_of_false id (between_display (t := ⟨start, x2, start⟩) hfree ?_)
  dsimp only
  omega

/-- **The other loses nothing where each display has something of the
row.** -/
theorem not_displayLoses (hareas : ∀ area ∈ areas, area.1 < area.2) (hx : x < x2) :
    ¬ DisplayLoses areas x2 x fuel startX := by
  induction fuel generalizing startX with
  | zero => exact id
  | succ fuel ih =>
    rintro ⟨hstart, hnone | ⟨hlast, hend⟩ | ⟨-, hlater⟩⟩
    · exact hnone
    · have hnext : ∀ (t : Turn) (areaX2 : ℤ), areaX2 ≤ displayNext t areaX2 := by
        intro t areaX2
        rw [displayNext]
        split <;> omega
      rcases exists_empty_of_last hnext (fun area harea => (hareas area harea).le) hlast with
        ⟨hsame, -⟩ | ⟨area, harea, hempty, -⟩
      · dsimp only at hsame
        omega
      · have hwide := hareas area harea
        omega
    · exact ih hlater

end DisplayManager

end Uberos
