import Mathlib.Order.Basic
/-!
# Counted calls

A function that calls itself is given a number of calls, and gives
nothing where it runs out of them. Where more calls change nothing of
what it gives (`Grows`), it comes to one thing at most, and a sequence of
such functions ends exactly when each does where it is come to.
-/

namespace Library

/-- A function on states that is given a number of calls. -/
abbrev Counted (State : Type*) := ℕ → State → Option State

variable {State Item : Type*} {f : Counted State} {run : Item → Counted State}
variable {items : List Item} {s s' t : State}

/-- With more calls it gives the same. -/
def Grows (f : Counted State) : Prop :=
  ∀ ⦃calls calls' s s'⦄, calls ≤ calls' → f calls s = some s' → f calls' s = some s'

/-- What it comes to, with calls enough. -/
def Yields (f : Counted State) (s s' : State) : Prop := ∃ calls, f calls s = some s'

/-- It comes to something. -/
def Ends (f : Counted State) (s : State) : Prop := ∃ calls s', f calls s = some s'

/-- One after the other, each with the same number of calls. -/
def inTurn (run : Item → Counted State) (items : List Item) : Counted State :=
  fun calls s => items.foldlM (fun s item => run item calls s) s

theorem ends_iff_exists_yields : Ends f s ↔ ∃ s', Yields f s s' :=
  exists_comm

theorem Yields.ends (h : Yields f s s') : Ends f s :=
  ends_iff_exists_yields.2 ⟨s', h⟩

/-- It comes to one thing at most. -/
theorem Yields.unique (hf : Grows f) (h : Yields f s s') (h' : Yields f s t) : s' = t := by
  obtain ⟨calls, h⟩ := h
  obtain ⟨calls', h'⟩ := h'
  have hmore := hf (Nat.le_max_left calls calls') h
  rw [hf (Nat.le_max_right calls calls') h'] at hmore
  exact (Option.some.inj hmore).symm

/-! ## Loops -/

/-- **A loop gives what another does** where its body does. -/
theorem foldlM_mono {body body' : State → Item → Option State}
    (h : ∀ item s s', body s item = some s' → body' s item = some s')
    (hrun : items.foldlM body s = some s') : items.foldlM body' s = some s' := by
  induction items generalizing s with
  | nil => exact hrun
  | cons item items ih =>
    rw [List.foldlM_cons] at hrun ⊢
    obtain ⟨t, hbody, hrun⟩ := Option.bind_eq_some_iff.1 hrun
    exact Option.bind_eq_some_iff.2 ⟨t, h item s t hbody, ih hrun⟩

/-- **A loop that may stop gets to its end** where what is kept lets each
of its steps be taken. -/
theorem exists_foldlM {body : State → Item → Option State} (J : State → Prop) (hs : J s)
    (hstep : ∀ s item, J s → ∃ s', body s item = some s' ∧ J s') (items : List Item) :
    ∃ s', items.foldlM body s = some s' ∧ J s' := by
  induction items generalizing s with
  | nil => exact ⟨s, rfl, hs⟩
  | cons item items ih =>
    obtain ⟨t, hbody, ht⟩ := hstep s item hs
    obtain ⟨s', hrest, hs'⟩ := ih ht
    refine ⟨s', ?_, hs'⟩
    rw [List.foldlM_cons]
    exact Option.bind_eq_some_iff.2 ⟨t, hbody, hrest⟩

/-! ## Sequences -/

theorem inTurn_singleton {item : Item} : inTurn run [item] = run item :=
  funext fun _ => funext fun _ => List.foldlM_cons.trans (Option.bind_fun_some _)

theorem inTurn_cons {item : Item} {calls : ℕ} :
    inTurn run (item :: items) calls s = run item calls s >>= inTurn run items calls :=
  List.foldlM_cons

theorem inTurn_append {items' : List Item} {calls : ℕ} :
    inTurn run (items ++ items') calls s = inTurn run items calls s >>= inTurn run items' calls :=
  List.foldlM_append

theorem grows_inTurn (h : ∀ item, Grows (run item)) : Grows (inTurn run items) := by
  intro calls calls' s s' hcalls hrun
  exact foldlM_mono (fun item _ _ => h item hcalls) hrun

theorem yields_inTurn_nil : Yields (inTurn run []) s s' ↔ s' = s := by
  constructor
  · rintro ⟨calls, h⟩
    exact (Option.some.inj h).symm
  · rintro rfl
    exact ⟨0, rfl⟩

/-- **What a sequence comes to** is what the rest does from where the
first one comes to. -/
theorem yields_inTurn_cons (h : ∀ item, Grows (run item)) {item : Item} :
    Yields (inTurn run (item :: items)) s s' ↔
      ∃ t, Yields (run item) s t ∧ Yields (inTurn run items) t s' := by
  constructor
  · rintro ⟨calls, hrun⟩
    unfold inTurn at hrun
    rw [List.foldlM_cons] at hrun
    obtain ⟨t, hfirst, hrest⟩ := Option.bind_eq_some_iff.1 hrun
    exact ⟨t, ⟨calls, hfirst⟩, calls, hrest⟩
  · rintro ⟨t, ⟨calls, hfirst⟩, calls', hrest⟩
    have hleft := Nat.le_max_left calls calls'
    have hright := Nat.le_max_right calls calls'
    refine ⟨max calls calls', ?_⟩
    unfold inTurn
    rw [List.foldlM_cons]
    exact Option.bind_eq_some_iff.2 ⟨t, h item hleft hfirst, grows_inTurn h hright hrest⟩

/-- **A sequence ends exactly when each does** where those before it come
to. -/
theorem ends_inTurn_iff (h : ∀ item, Grows (run item)) : Ends (inTurn run items) s ↔
    ∀ past item rest t, items = past ++ item :: rest → Yields (inTurn run past) s t →
      Ends (run item) t := by
  induction items generalizing s with
  | nil =>
    refine iff_of_true ⟨0, s, rfl⟩ fun past item rest t heq _ => ?_
    exact absurd heq.symm (List.append_ne_nil_of_right_ne_nil past (List.cons_ne_nil item rest))
  | cons first items ih =>
    constructor
    · intro hends past item rest t heq hpast
      obtain ⟨s', hends⟩ := ends_iff_exists_yields.1 hends
      obtain ⟨s1, hfirst, hrest⟩ := (yields_inTurn_cons h).1 hends
      cases past with
      | nil =>
        obtain ⟨rfl, rfl⟩ := List.cons.inj heq
        rw [yields_inTurn_nil.1 hpast]
        exact hfirst.ends
      | cons first' past =>
        obtain ⟨rfl, rfl⟩ := List.cons.inj heq
        obtain ⟨s2, hfirst', hpast⟩ := (yields_inTurn_cons h).1 hpast
        obtain rfl := hfirst.unique (h first) hfirst'
        exact ih.1 hrest.ends past item rest t rfl hpast
    · intro hall
      obtain ⟨s1, hfirst⟩ :=
        ends_iff_exists_yields.1 (hall [] first items s rfl (yields_inTurn_nil.2 rfl))
      have hrest : Ends (inTurn run items) s1 := by
        refine ih.2 fun past item rest t heq hpast => ?_
        refine hall (first :: past) item rest t (by rw [heq, List.cons_append]) ?_
        exact (yields_inTurn_cons h).2 ⟨s1, hfirst, hpast⟩
      obtain ⟨s', hrest⟩ := ends_iff_exists_yields.1 hrest
      exact ((yields_inTurn_cons h).2 ⟨s1, hfirst, hrest⟩).ends

/-- **The invariant rule of a sequence.** -/
theorem inTurn_invariant {J : State → Prop} (hs : J s)
    (hstep : ∀ s s', ∀ item ∈ items, J s → Yields (run item) s s' → J s')
    (h : Yields (inTurn run items) s s') : J s' := by
  obtain ⟨calls, h⟩ := h
  induction items generalizing s with
  | nil =>
    cases h
    exact hs
  | cons item items ih =>
    unfold inTurn at h
    rw [List.foldlM_cons] at h
    obtain ⟨t, hfirst, hrest⟩ := Option.bind_eq_some_iff.1 h
    refine ih (hstep s t item List.mem_cons_self hs ⟨calls, hfirst⟩) ?_ hrest
    exact fun s s' other hother => hstep s s' other (List.mem_cons_of_mem _ hother)

end Library
