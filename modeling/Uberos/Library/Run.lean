import Mathlib.Order.Basic
import Mathlib.Data.List.Infix
/-!
# Runs of a deterministic machine

A machine is a step function on states and operations, a run the states
it visits under a list of operations. `Along` asks something of every
step, read at the state the step is taken from; `Throughout` asks
something of every state, the first and the last included. The rules
below carry an invariant through a run and turn an equivalence that
holds step by step into one about whole runs.
-/

namespace Library

variable {State Op : Type*} (step : State → Op → State)

/-- The state after `ops`. -/
def run (s : State) (ops : List Op) : State := ops.foldl step s

/-- Every step of the run satisfies `P` where it is taken. -/
def Along (P : State → Op → Prop) : State → List Op → Prop
  | _, [] => True
  | s, op :: ops => P s op ∧ Along P (step s op) ops

/-- Every state of the run satisfies `P`. -/
def Throughout (P : State → Prop) : State → List Op → Prop
  | s, [] => P s
  | s, op :: ops => P s ∧ Throughout P (step s op) ops

variable {step} {P Q legal : State → Op → Prop} {I R : State → Prop}
variable {s : State} {ops : List Op}

@[simp] theorem run_nil : run step s [] = s := rfl

@[simp] theorem run_cons {op : Op} : run step s (op :: ops) = run step (step s op) ops := rfl

theorem run_append {ops' : List Op} :
    run step s (ops ++ ops') = run step (run step s ops) ops' := by
  simp only [run, List.foldl_append]

@[simp] theorem along_nil : Along step P s [] := trivial

@[simp] theorem along_cons {op : Op} :
    Along step P s (op :: ops) ↔ P s op ∧ Along step P (step s op) ops := Iff.rfl

@[simp] theorem throughout_nil : Throughout step R s [] ↔ R s := Iff.rfl

@[simp] theorem throughout_cons {op : Op} :
    Throughout step R s (op :: ops) ↔ R s ∧ Throughout step R (step s op) ops := Iff.rfl

theorem along_append {ops' : List Op} :
    Along step P s (ops ++ ops') ↔ Along step P s ops ∧ Along step P (run step s ops) ops' := by
  induction ops generalizing s with
  | nil => simp
  | cons op ops ih => simp only [List.cons_append, along_cons, run_cons, ih, and_assoc]

theorem throughout_append {ops' : List Op} :
    Throughout step R s (ops ++ ops') ↔
      Throughout step R s ops ∧ Throughout step R (run step s ops) ops' := by
  induction ops generalizing s with
  | nil => cases ops' <;> simp +contextual
  | cons op ops ih => simp only [List.cons_append, throughout_cons, run_cons, ih, and_assoc]

/-- Nothing is asked of the steps. -/
theorem along_true : Along step (fun _ _ => True) s ops := by
  induction ops generalizing s with
  | nil => trivial
  | cons op ops ih => exact ⟨trivial, ih⟩

/-- What is asked of the operations alone. -/
theorem along_iff_forall {A : Op → Prop} :
    Along step (fun _ op => A op) s ops ↔ ∀ op ∈ ops, A op := by
  induction ops generalizing s with
  | nil => exact iff_of_true trivial fun _ h => absurd h List.not_mem_nil
  | cons op ops ih => rw [along_cons, ih, List.forall_mem_cons]

instance Along.decidable [∀ s op, Decidable (P s op)] :
    ∀ (s : State) (ops : List Op), Decidable (Along step P s ops)
  | _, [] => inferInstanceAs (Decidable True)
  | s, op :: ops =>
    have := Along.decidable (step s op) ops
    inferInstanceAs (Decidable (P s op ∧ Along step P (step s op) ops))

/-- What holds of every step holds of the steps of a longer demand. -/
theorem Along.imp (h : Along step P s ops) (hPQ : ∀ s op, P s op → Q s op) :
    Along step Q s ops := by
  induction ops generalizing s with
  | nil => trivial
  | cons op ops ih => exact ⟨hPQ s op h.1, ih h.2⟩

theorem Along.and (hP : Along step P s ops) (hQ : Along step Q s ops) :
    Along step (fun s op => P s op ∧ Q s op) s ops := by
  induction ops generalizing s with
  | nil => trivial
  | cons op ops ih => exact ⟨⟨hP.1, hQ.1⟩, ih hP.2 hQ.2⟩

/-- **The invariant rule.** What the first state satisfies and every
allowed step preserves, the last state satisfies. -/
theorem run_invariant (h : Along step P s ops) (hs : I s)
    (hstep : ∀ s op, I s → P s op → I (step s op)) : I (run step s ops) := by
  induction ops generalizing s with
  | nil => exact hs
  | cons op ops ih => exact ih h.2 (hstep s op hs h.1)

/-- **The invariant rule, at every state of the run.** -/
theorem throughout_of_invariant (h : Along step P s ops) (hs : I s)
    (hstep : ∀ s op, I s → P s op → I (step s op)) (hR : ∀ s, I s → R s) :
    Throughout step R s ops := by
  induction ops generalizing s with
  | nil => exact hR s hs
  | cons op ops ih => exact ⟨hR s hs, ih h.2 (hstep s op hs h.1)⟩

/-- **The invariant rule, at every step of the run.** -/
theorem along_of_invariant (h : Along step P s ops) (hs : I s)
    (hstep : ∀ s op, I s → P s op → I (step s op))
    (hQ : ∀ s op, I s → P s op → Q s op) : Along step Q s ops := by
  induction ops generalizing s with
  | nil => trivial
  | cons op ops ih => exact ⟨hQ s op hs h.1, ih h.2 (hstep s op hs h.1)⟩

/-- **An equivalence of steps is one of runs.** The invariant has to
survive only the steps the condition allows: at the first step where the
condition fails the property fails too, and the run is decided there. -/
theorem along_iff_of_invariant (h : Along step legal s ops) (hs : I s)
    (hiff : ∀ s op, I s → legal s op → (P s op ↔ Q s op))
    (hstep : ∀ s op, I s → legal s op → Q s op → I (step s op)) :
    Along step P s ops ↔ Along step Q s ops := by
  induction ops generalizing s with
  | nil => exact Iff.rfl
  | cons op ops ih =>
    rw [along_cons, along_cons, hiff s op hs h.1]
    exact and_congr_right fun hQ => ih h.2 (hstep s op hs h.1 hQ)

/-- The last state of a run is one of its states. -/
theorem Throughout.last (h : Throughout step R s ops) : R (run step s ops) := by
  induction ops generalizing s with
  | nil => exact h
  | cons op ops ih => exact ih h.2

/-- The first state of a run is one of its states. -/
theorem Throughout.first (h : Throughout step R s ops) : R s := by
  cases ops with
  | nil => exact h
  | cons op ops => exact h.1

/-- What is the same of every state is so throughout. -/
theorem throughout_congr {R' : State → Prop} (h : ∀ s, R s ↔ R' s) :
    Throughout step R s ops ↔ Throughout step R' s ops := by
  rw [funext fun s => propext (h s)]

/-- What holds throughout, of two things, is each. -/
theorem throughout_and {R' : State → Prop} :
    Throughout step (fun s => R s ∧ R' s) s ops ↔
      Throughout step R s ops ∧ Throughout step R' s ops := by
  induction ops generalizing s with
  | nil => exact Iff.rfl
  | cons op ops ih => rw [throughout_cons, throughout_cons, throughout_cons, ih, and_and_and_comm]

/-- **A property a legal step leads to exactly when a condition holds of
it** holds throughout a legal run exactly when the condition does along
it, where the steps that meet the condition keep the invariant this rests
on. -/
theorem throughout_iff_along_of_legal (h : Along step legal s ops) (hs : I s)
    (hR : ∀ s, I s → R s) (hiff : ∀ s op, I s → legal s op → (R (step s op) ↔ Q s op))
    (hstep : ∀ s op, I s → legal s op → Q s op → I (step s op)) :
    Throughout step R s ops ↔ Along step Q s ops := by
  induction ops generalizing s with
  | nil => exact iff_of_true (hR s hs) trivial
  | cons op ops ih =>
    rw [throughout_cons, along_cons, ← hiff s op hs h.1]
    refine ⟨fun ⟨_, hrest⟩ => ?_, fun ⟨hnext, hrest⟩ => ?_⟩
    · have hnext : R (step s op) := hrest.first
      exact ⟨hnext, (ih h.2 (hstep s op hs h.1 ((hiff s op hs h.1).1 hnext))).1 hrest⟩
    · exact ⟨hR s hs, (ih h.2 (hstep s op hs h.1 ((hiff s op hs h.1).1 hnext))).2 hrest⟩

/-- **The same where every step is legal.** -/
theorem throughout_iff_along_of_invariant (hs : I s) (hR : ∀ s, I s → R s)
    (hiff : ∀ s op, I s → (R (step s op) ↔ Q s op))
    (hstep : ∀ s op, I s → Q s op → I (step s op)) (ops : List Op) :
    Throughout step R s ops ↔ Along step Q s ops :=
  throughout_iff_along_of_legal along_true hs hR (fun s op h _ => hiff s op h)
    fun s op h _ => hstep s op h

/-- **A property that a step keeps exactly when a condition holds of it**
holds throughout a run exactly when the condition does along it. -/
theorem throughout_iff_along (hs : R s) (hstep : ∀ s op, R s → (R (step s op) ↔ Q s op))
    (ops : List Op) : Throughout step R s ops ↔ Along step Q s ops :=
  throughout_iff_along_of_invariant hs (fun _ h => h) hstep
    (fun s op h hQ => (hstep s op h).2 hQ) ops

/-! ## Runs that may stop -/

/-- **The invariant rule of a loop that may stop**: it is kept from what
has been gone through to the next item, and holds at the end if the loop
gets there. -/
theorem foldlM_invariant {Item : Type*} {f : State → Item → Option State}
    (J : List Item → State → Prop) {items : List Item} {s' : State} (hs : J [] s)
    (hstep : ∀ past item rest s s', items = past ++ item :: rest → J past s → f s item = some s' →
      J (past ++ [item]) s')
    (h : items.foldlM f s = some s') : J items s' := by
  suffices hfrom : ∀ rest past s, items = past ++ rest → J past s →
      rest.foldlM f s = some s' → J items s' from hfrom items [] s rfl hs h
  intro rest
  induction rest with
  | nil =>
    intro past s hitems hs h
    cases h
    rwa [hitems, List.append_nil]
  | cons item rest ih =>
    intro past s hitems hs h
    rw [List.foldlM_cons] at h
    obtain ⟨middle, hmiddle, h⟩ := Option.bind_eq_some_iff.1 h
    refine ih (past ++ [item]) middle ?_ (hstep past item rest s middle hitems hs hmiddle) h
    rw [hitems, List.append_assoc, List.singleton_append]

/-! ## Runs over components -/

variable {Index Part : Type*}

/-- **Steps that each change one component** change, over a list of
different ones, each of those once and no other. -/
theorem run_component {step : State → Index → State} (look : State → Index → Part)
    (change : Part → Part) (hself : ∀ s i, look (step s i) i = change (look s i))
    (hother : ∀ s i j, j ≠ i → look (step s i) j = look s j) {is : List Index} (hnodup : is.Nodup)
    (s : State) (j : Index) :
    (j ∈ is → look (run step s is) j = change (look s j)) ∧
      (j ∉ is → look (run step s is) j = look s j) := by
  induction is generalizing s with
  | nil => exact ⟨fun h => absurd h List.not_mem_nil, fun _ => rfl⟩
  | cons i is ih =>
    rw [List.nodup_cons] at hnodup
    obtain ⟨hmem, hnot⟩ := ih hnodup.2 (step s i)
    refine ⟨fun h => ?_, fun h => ?_⟩
    · rcases List.mem_cons.1 h with rfl | h
      · rw [run_cons, hnot hnodup.1, hself]
      · have hne : j ≠ i := fun heq => hnodup.1 (heq ▸ h)
        rw [run_cons, hmem h, hother s i j hne]
    · rw [List.mem_cons, not_or] at h
      rw [run_cons, hnot h.2, hother s i j h.1]

/-- What every step keeps, the run keeps. -/
theorem run_keeps {step : State → Op → State} (look : State → Part)
    (hstep : ∀ s op, look (step s op) = look s) (s : State) (ops : List Op) :
    look (run step s ops) = look s := by
  induction ops generalizing s with
  | nil => rfl
  | cons op ops ih => rw [run_cons, ih, hstep]

/-- **A run is related as its steps are**, by what is reflexive and
transitive. A step may use how the run came to it. -/
theorem run_related {r : State → State → Prop} (hrefl : ∀ s, r s s)
    (htrans : ∀ s s' s'', r s s' → r s' s'' → r s s'') (s : State) (ops : List Op)
    (hstep : ∀ s', ∀ op ∈ ops, r s s' → r s' (step s' op)) : r s (run step s ops) := by
  suffices h : ∀ s', r s s' → r s (run step s' ops) from h s (hrefl s)
  induction ops with
  | nil => exact fun _ hs' => hs'
  | cons op ops ih =>
    intro s' hs'
    refine ih (fun s' op hop => hstep s' op (List.mem_cons_of_mem _ hop)) _ ?_
    exact htrans s s' _ hs' (hstep s' op List.mem_cons_self hs')

end Library
