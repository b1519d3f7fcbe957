import Uberos.StorageManager.Model
/-!
# Which queries fail of a released drive

A drive that was released has no controller, and its entry stays. A query
that checks for that and goes on answers from the entry as it is: through
a null pointer, or with it. Two do fail: the one that returns, and the
search for a mapping where there is none that was released.
-/

namespace Uberos

namespace StorageManager

open Library

variable {T : Target} {s : StorageManager} {c : Catalogue} {op : Op} {ops : List Op}
variable {q : Query} {i index : ℕ} {drive : Drive} {a : Allocation}

/-! ## What it is for -/

/-- What is to be answered of a drive that is not released. -/
def Allocation.answer (allocations : List Allocation) (a : Allocation) : Query → Outcome
  | .description => .call .description (some a.controller) a.index
  | .size => .call .size (some a.controller) a.index
  | .model => .call .model (some a.controller) a.index
  | .serialNumber => .call .serialNumber (some a.controller) a.index
  | .controller => .controller (some a.controller)
  | .controllerIndex => .number a.index
  | .systemId =>
    match allocations.findIdx? fun b => b.isSystemMapping ∧ b.released = false ∧
      b.controller = a.controller ∧ b.index = a.index with
    | some i => .number i
    | none => .failure "system drive not found"
  | .isPresent => .call .isPresent (some a.controller) a.index
  | .isRemovable => .call .isRemovable (some a.controller) a.index
  | .eject => .call .eject (some a.controller) a.index

/-- **A query fails of what is out of range or released**, and answers
from the drive's own controller and index of what is not. -/
def Clean (c : Catalogue) (q : Query) (index : ℕ) : Prop :=
  match c.allocations[index]? with
  | none => ∃ message, c.manager.query q index = .failure message
  | some a =>
    if a.released then ∃ message, c.manager.query q index = .failure message
    else c.manager.query q index = a.answer c.allocations q

/-- The drive is not released, or the query is one that notices: the one
that returns, or the search for a mapping where none of that index was
released. -/
def Noticed (c : Catalogue) (q : Query) (index : ℕ) : Prop :=
  ∀ a, c.allocations[index]? = some a → a.released = true →
    q = .isPresent ∨ q = .systemId ∧
      ∀ b ∈ c.allocations, b.isSystemMapping = true → b.released = true → b.index ≠ a.index

/-! ## What the entries hold -/

/-- What a drive has of its allocation. -/
def Drive.held (drive : Drive) : Option ℕ × ℕ × Bool :=
  (drive.controller, drive.index, drive.isSystemMapping)

/-- What it is to have. -/
def Allocation.held (a : Allocation) : Option ℕ × ℕ × Bool :=
  (if a.released then none else some a.controller, a.index, a.isSystemMapping)

/-- **The drives have what they were allocated with**, but for a
controller where they were released. -/
def Recorded (c : Catalogue) : Prop :=
  c.manager.drives.map Drive.held = c.allocations.map Allocation.held

/-- The change of the first of a name is that of its index. -/
theorem changeFirst_eq (name : List Char) (change : Drive → Drive) (drives : List Drive) :
    changeFirst name change drives =
      match drives.findIdx? fun drive => String8.Equals drive.name name with
      | some i => drives.modify i change
      | none => drives := by
  induction drives with
  | nil => rfl
  | cons drive drives ih =>
    rw [changeFirst, List.findIdx?_cons]
    by_cases hname : String8.Equals drive.name name
    · simp [hname]
    · simp only [hname, decide_false, Bool.false_eq_true, if_false, ih]
      cases drives.findIdx? fun drive => String8.Equals drive.name name with
      | none => rfl
      | some i => rfl

/-- Lists that hold the same hold the same after a change of one entry. -/
theorem map_modify_congr {α β γ : Type*} {f : α → γ} {g : β → γ} {change : α → α}
    {change' : β → β} (hchange : ∀ x y, f x = g y → f (change x) = g (change' y)) {xs : List α}
    {ys : List β} (h : xs.map f = ys.map g) (i : ℕ) :
    (xs.modify i change).map f = (ys.modify i change').map g := by
  induction xs generalizing ys i with
  | nil =>
    obtain rfl : ys = [] := List.map_eq_nil_iff.1 h.symm
    rw [List.modify_nil, List.modify_nil, List.map_nil, List.map_nil]
  | cons x xs ih =>
    cases ys with
    | nil => exact absurd h (List.cons_ne_nil _ _)
    | cons y ys =>
      obtain ⟨hhead, htail⟩ := List.cons.inj h
      cases i with
      | zero => exact congrArg₂ List.cons (hchange x y hhead) htail
      | succ i => exact congrArg₂ List.cons hhead (ih htail i)

/-- A change of the first of a name is recorded where it is. -/
theorem Recorded.change (h : Recorded c) (name : List Char) {change : Drive → Drive}
    {change' : Allocation → Allocation}
    (hchange : ∀ drive a, Drive.held drive = Allocation.held a →
      Drive.held (change drive) = Allocation.held (change' a)) :
    (changeFirst name change c.manager.drives).map Drive.held =
      (changeNamed c.manager name change' c.allocations).map Allocation.held := by
  rw [changeFirst_eq, changeNamed, findDriveByName]
  cases c.manager.drives.findIdx? fun drive => String8.Equals drive.name name with
  | none => exact h
  | some i => exact map_modify_congr hchange h i

/-- **The step lemma.** -/
theorem Recorded.record (h : Recorded c) (op : Op) : Recorded (record T c op) := by
  cases op with
  | allocate options controller index buffer =>
    show (PodArray.pushBack c.manager.drives _).map Drive.held =
      (c.allocations ++ [_]).map Allocation.held
    rw [PodArray.pushBack, List.map_append, List.map_append, h]
    rfl
  | release name =>
    refine h.change name fun drive a hheld => ?_
    rw [Drive.held, Allocation.held, Prod.mk.injEq] at hheld ⊢
    exact ⟨rfl, hheld.2⟩
  | setId name driveId =>
    refine h.change name fun drive a hheld => ?_
    rw [Drive.held, Allocation.held, Prod.mk.injEq, Prod.mk.injEq] at hheld ⊢
    exact ⟨hheld.1, rfl, hheld.2.2⟩

/-- **The run lemma.** -/
theorem recorded_run (T : Target) (ops : List Op) :
    Recorded (run (StorageManager.record T) ⟨new, []⟩ ops) :=
  run_invariant along_true rfl fun _ op h _ => h.record op

/-! ## What the queries answer -/

/-- **The failure that is not returned changes nothing.** -/
theorem unreturned_eq (drive : Drive) (rest : Outcome) : unreturned drive rest = rest := by
  rw [unreturned]
  split <;> rfl

theorem atIndex_none (h : s.drives[index]? = none) (rest : Drive → Outcome) :
    s.atIndex index rest = notPresent := by
  rw [atIndex, h]

theorem atIndex_some (h : s.drives[index]? = some drive) (rest : Drive → Outcome) :
    s.atIndex index rest = rest drive := by
  rw [atIndex, h]

/-- Out of range every query fails. -/
theorem query_of_none (h : s.drives[index]? = none) (q : Query) :
    s.query q index = notPresent := by
  cases q <;> exact atIndex_none h _

/-- A search by what the drives hold finds where it was allocated. -/
theorem Recorded.findIdx? (h : Recorded c) (p : Option ℕ × ℕ × Bool → Bool) :
    (c.manager.drives.findIdx? fun drive => p (Drive.held drive)) =
      c.allocations.findIdx? fun a => p a.held := by
  have hdrives := List.findIdx?_map (f := Drive.held) (p := p) (l := c.manager.drives)
  have hallocations := List.findIdx?_map (f := Allocation.held) (p := p) (l := c.allocations)
  rw [h] at hdrives
  exact hdrives.symm.trans hallocations

/-- The entry of an index in range. -/
theorem Recorded.exists_drive (h : Recorded c) (ha : c.allocations[index]? = some a) :
    ∃ drive, c.manager.drives[index]? = some drive ∧ Drive.held drive = a.held := by
  have hget : (c.manager.drives.map Drive.held)[index]? = some a.held := by
    rw [h, List.getElem?_map, ha]
    rfl
  rw [List.getElem?_map] at hget
  exact Option.map_eq_some_iff.1 hget

/-- Out of range of the allocations is out of range. -/
theorem Recorded.getElem?_eq_none (h : Recorded c) (ha : c.allocations[index]? = none) :
    c.manager.drives[index]? = none := by
  have hlength := congrArg List.length h
  rw [List.length_map, List.length_map] at hlength
  rw [List.getElem?_eq_none_iff] at ha ⊢
  omega

/-- **The search for a mapping**, by what was allocated. -/
theorem Recorded.getDriveSystemId (h : Recorded c) (hdrive : c.manager.drives[index]? = some drive)
    (hheld : Drive.held drive = a.held) :
    c.manager.getDriveSystemId index =
      match c.allocations.findIdx? fun b => b.isSystemMapping ∧
        (Allocation.held b).1 = (Allocation.held a).1 ∧ b.index = a.index with
      | some i => .number i
      | none => .failure "system drive not found" := by
  have hcontroller : drive.controller = a.held.1 := congrArg Prod.fst hheld
  have hindex : drive.index = a.index := congrArg (fun entry => entry.2.1) hheld
  have hfind : (c.manager.drives.findIdx? fun existingDrive =>
      existingDrive.isSystemMapping = true ∧ existingDrive.controller = a.held.1 ∧
        existingDrive.index = a.index) =
      c.allocations.findIdx? fun b =>
        b.isSystemMapping = true ∧ (Allocation.held b).1 = a.held.1 ∧ b.index = a.index :=
    h.findIdx? fun entry => decide (entry.2.2 = true ∧ entry.1 = a.held.1 ∧ entry.2.1 = a.index)
  rw [StorageManager.getDriveSystemId, atIndex_some hdrive, unreturned_eq, hcontroller, hindex]
  exact congrArg (fun found : Option ℕ =>
    match found with
    | some i => Outcome.number i
    | none => .failure "system drive not found") hfind

/-- **A drive that is not released answers as it was allocated.** -/
theorem Recorded.query_of_live (h : Recorded c) (ha : c.allocations[index]? = some a)
    (hlive : a.released = false) (q : Query) :
    c.manager.query q index = a.answer c.allocations q := by
  obtain ⟨drive, hdrive, hheld⟩ := h.exists_drive ha
  have hsome : drive.controller = some a.controller := by
    rw [show drive.controller = a.held.1 from congrArg Prod.fst hheld, Allocation.held, hlive]
    rfl
  have hindex : drive.index = a.index := congrArg (fun entry => entry.2.1) hheld
  cases q with
  | systemId =>
    refine (h.getDriveSystemId hdrive hheld).trans ?_
    rw [Allocation.answer]
    -- one is released just where it has no controller
    have hsame : ∀ b : Allocation, (b.isSystemMapping = true ∧ b.held.1 = a.held.1 ∧
        b.index = a.index) ↔ (b.isSystemMapping = true ∧ b.released = false ∧
          b.controller = a.controller ∧ b.index = a.index) := by
      intro b
      rw [Allocation.held, Allocation.held, hlive]
      cases b.released <;> simp
    simp only [hsame]
  | controller => exact (atIndex_some hdrive _).trans (by rw [unreturned_eq, hsome]; rfl)
  | controllerIndex => exact (atIndex_some hdrive _).trans (by rw [unreturned_eq, hindex]; rfl)
  | isPresent =>
    refine (atIndex_some hdrive _).trans ?_
    rw [returned, if_neg (by rw [hsome]; exact Option.some_ne_none _), ask, hsome, hindex]
    rfl
  | _ => exact (atIndex_some hdrive _).trans (by rw [unreturned_eq, ask, hsome, hindex]; rfl)

/-- **A released drive fails the query that returns, and the search for a
mapping that finds none.** -/
theorem Recorded.fails_of_released (h : Recorded c) (ha : c.allocations[index]? = some a)
    (hreleased : a.released = true) (q : Query) :
    (∃ message, c.manager.query q index = .failure message) ↔
      q = .isPresent ∨ q = .systemId ∧
        ∀ b ∈ c.allocations, b.isSystemMapping = true → b.released = true →
          b.index ≠ a.index := by
  obtain ⟨drive, hdrive, hheld⟩ := h.exists_drive ha
  have hnone : drive.controller = none := by
    rw [show drive.controller = a.held.1 from congrArg Prod.fst hheld, Allocation.held, hreleased]
    rfl
  cases q with
  | isPresent =>
    refine iff_of_true ⟨"drive not present", ?_⟩ (Or.inl rfl)
    show c.manager.isDrivePresent index = notPresent
    rw [isDrivePresent, atIndex_some hdrive, returned, if_pos hnone]
  | systemId =>
    have hquery : c.manager.query .systemId index = _ := h.getDriveSystemId hdrive hheld
    have hsame : ∀ b : Allocation, (b.isSystemMapping = true ∧ b.held.1 = a.held.1 ∧
        b.index = a.index) ↔ (b.isSystemMapping = true ∧ b.released = true ∧
          b.index = a.index) := by
      intro b
      rw [Allocation.held, Allocation.held, hreleased]
      cases b.released <;> simp
    simp only [hsame] at hquery
    rw [hquery]
    have hiff : (c.allocations.findIdx? fun b =>
        b.isSystemMapping = true ∧ b.released = true ∧ b.index = a.index) = none ↔ _ :=
      List.findIdx?_eq_none_iff
    simp only [decide_eq_false_iff_not, not_and] at hiff
    cases hfound : c.allocations.findIdx? fun b =>
        b.isSystemMapping = true ∧ b.released = true ∧ b.index = a.index with
    | none => exact iff_of_true ⟨_, rfl⟩ (Or.inr ⟨rfl, hiff.1 hfound⟩)
    | some i =>
      refine iff_of_false (fun ⟨message, hfails⟩ => Outcome.noConfusion hfails) ?_
      rintro (hq | ⟨-, hclear⟩)
      · cases hq
      · rw [hiff.2 hclear] at hfound
        cases hfound
  | _ =>
    refine iff_of_false ?_ (by rintro (hq | ⟨hq, -⟩) <;> cases hq)
    rintro ⟨message, hfails⟩
    have hanswer := (atIndex_some hdrive _).symm.trans hfails
    rw [unreturned_eq] at hanswer
    exact Outcome.noConfusion hanswer

/-! ## Runs -/

/-- **A query is clean just where a release was noticed.** -/
theorem Recorded.clean_iff (h : Recorded c) (q : Query) (index : ℕ) :
    Clean c q index ↔ Noticed c q index := by
  rw [Clean, Noticed]
  cases ha : c.allocations[index]? with
  | none =>
    have hfails := query_of_none (h.getElem?_eq_none ha) q
    exact iff_of_true ⟨_, hfails⟩ fun a heq => absurd heq.symm (Option.some_ne_none a)
  | some a =>
    have hnoticed (p : Allocation → Prop) :
        (∀ b, some a = some b → b.released = true → p b) ↔ (a.released = true → p a) := by
      refine ⟨fun hall => hall a rfl, fun hp b heq => ?_⟩
      cases heq
      exact hp
    rw [hnoticed]
    dsimp only
    cases hreleased : a.released with
    | true =>
      rw [if_pos rfl, h.fails_of_released ha hreleased]
      exact ⟨fun hnoticed _ => hnoticed, fun hnoticed => hnoticed rfl⟩
    | false =>
      rw [if_neg (by decide)]
      exact iff_of_true (h.query_of_live ha hreleased q) fun heq => Bool.noConfusion heq

/-- **After every run, a query fails of a released drive just where it
notices**, and answers from the drive's own controller of any other. -/
theorem clean_run_iff (T : Target) (ops : List Op) (q : Query) (index : ℕ) :
    Clean (run (record T) ⟨new, []⟩ ops) q index ↔
      Noticed (run (record T) ⟨new, []⟩ ops) q index :=
  (recorded_run T ops).clean_iff q index

/-- Of a drive that was released its size is asked through a null pointer. -/
theorem not_clean_run :
    ¬ Clean (run (record .x86_32) ⟨new, []⟩
      [.allocate ⟨"pata".toList, false, false⟩ 7 0 0, .release "pata1".toList]) .size 0 := by
  rw [(recorded_run .x86_32 _).clean_iff]
  intro hnoticed
  have hquery := hnoticed ⟨7, 0, false, true⟩ (by decide) rfl
  rcases hquery with hq | ⟨hq, -⟩ <;> cases hq

end StorageManager

end Uberos
