import Mathlib.Data.List.Basic
import Mathlib.Data.Nat.SuccPred
import Mathlib.Logic.Function.Iterate
/-!
# Programs that read

A `Scan` reads an input, logs what it reads and ends with a value, if its
loops are given turns enough: with more turns it does the same. `Meets`
asks what a program ends with, and that all it logs satisfies a
predicate; the rules below take it through sequencing, choice and loops.
A loop ends where a finite path of turns of its body does.
-/

namespace Library

/-- A program over an input of type `μ` that logs `ρ`s, by the number of
turns its loops are given. -/
structure Scan (μ ρ α : Type) where
  run : ℕ → μ → Option (α × List ρ)
  mono : ∀ {turns turns' m result}, turns ≤ turns' → run turns m = some result →
    run turns' m = some result

namespace Scan

variable {μ ρ α β σ τ : Type}

/-- What comes after an end, with both logs. -/
def following (first : α × List ρ) (second : α → Option (β × List ρ)) : Option (β × List ρ) :=
  (second first.1).map fun result => (result.1, first.2 ++ result.2)

theorem following_eq_some {first : α × List ρ} {second : α → Option (β × List ρ)}
    {result : β × List ρ} : following first second = some result ↔
      ∃ last, second first.1 = some last ∧ (last.1, first.2 ++ last.2) = result :=
  Option.map_eq_some_iff

/-- The first program, and the second on what it ends with. -/
def bind (x : Scan μ ρ α) (f : α → Scan μ ρ β) : Scan μ ρ β where
  run turns m := (x.run turns m).bind fun first => following first fun a => (f a).run turns m
  mono := by
    intro turns turns' m result hle h
    obtain ⟨first, hx, hf⟩ := Option.bind_eq_some_iff.1 h
    obtain ⟨last, hlast, hpair⟩ := following_eq_some.1 hf
    exact Option.bind_eq_some_iff.2 ⟨first, x.mono hle hx,
      following_eq_some.2 ⟨last, (f first.1).mono hle hlast, hpair⟩⟩

instance : Monad (Scan μ ρ) where
  pure a := ⟨fun _ _ => some (a, []), fun _ h => h⟩
  bind := bind

/-- One read, which is logged. -/
def read (value : μ → α) (entry : ρ) : Scan μ ρ α :=
  ⟨fun _ m => some (value m, [entry]), fun _ h => h⟩

/-- What is known without a read. -/
def ask (value : μ → α) : Scan μ ρ α := ⟨fun _ m => some (value m, []), fun _ h => h⟩

/-- So many turns of a body, each with its own loops' turns. -/
def turnsOf (body : σ → Scan μ ρ (σ ⊕ β)) (inner : ℕ) (m : μ) : ℕ → σ → Option (β × List ρ)
  | 0, _ => none
  | turns + 1, s => ((body s).run inner m).bind fun first => following first fun
    | .inl s => turnsOf body inner m turns s
    | .inr b => some (b, [])

variable {body : σ → Scan μ ρ (σ ⊕ β)}

theorem turnsOf_mono {inner inner' : ℕ} (hinner : inner ≤ inner') {m : μ} :
    ∀ {turns turns' : ℕ} {s : σ} {result : β × List ρ}, turns ≤ turns' →
      turnsOf body inner m turns s = some result →
      turnsOf body inner' m turns' s = some result
  | turns + 1, turns', s, result, hle, h => by
    obtain ⟨turns', rfl⟩ : ∃ n, turns' = n + 1 := ⟨turns' - 1, by omega⟩
    obtain ⟨⟨s' | b, log⟩, hturn, hrest⟩ := Option.bind_eq_some_iff.1 h
    · obtain ⟨last, hlast, hpair⟩ := following_eq_some.1 hrest
      have hmore := turnsOf_mono hinner (Nat.le_of_succ_le_succ hle) hlast
      exact Option.bind_eq_some_iff.2
        ⟨_, (body s).mono hinner hturn, following_eq_some.2 ⟨last, hmore, hpair⟩⟩
    · exact Option.bind_eq_some_iff.2 ⟨_, (body s).mono hinner hturn, hrest⟩

/-- Turns of a body until it is done. -/
def loop (body : σ → Scan μ ρ (σ ⊕ β)) (s : σ) : Scan μ ρ β where
  run turns m := turnsOf body turns m turns s
  mono hle h := turnsOf_mono hle hle h

/-- **The program ends with `a`**, and what it logs satisfies `P`. -/
def Meets (P : ρ → Prop) (m : μ) (x : Scan μ ρ α) (a : α) : Prop :=
  ∃ turns log, x.run turns m = some (a, log) ∧ ∀ entry ∈ log, P entry

variable {P : ρ → Prop} {m : μ} {x y : Scan μ ρ α} {f : α → Scan μ ρ β} {a a' : α} {b : β}

/-! ## Straight lines -/

@[simp] theorem meets_pure : Meets P m (pure a' : Scan μ ρ α) a ↔ a' = a := by
  constructor
  · rintro ⟨turns, log, heq, -⟩
    exact (Prod.mk.inj (Option.some.inj heq)).1
  · rintro rfl
    exact ⟨0, [], rfl, fun _ h => absurd h List.not_mem_nil⟩

@[simp] theorem meets_read {value : μ → α} {entry : ρ} :
    Meets P m (read value entry : Scan μ ρ α) a ↔ value m = a ∧ P entry := by
  constructor
  · rintro ⟨turns, log, heq, hlog⟩
    obtain ⟨hvalue, rfl⟩ := Prod.mk.inj (Option.some.inj heq)
    exact ⟨hvalue, hlog entry List.mem_cons_self⟩
  · rintro ⟨rfl, hentry⟩
    refine ⟨0, [entry], rfl, fun e he => ?_⟩
    rw [List.mem_singleton.1 he]
    exact hentry

/-- **A sequence ends where its parts do.** -/
@[simp] theorem meets_bind : Meets P m (x >>= f) b ↔ ∃ a, Meets P m x a ∧ Meets P m (f a) b := by
  constructor
  · rintro ⟨turns, log, heq, hlog⟩
    obtain ⟨⟨a, first⟩, hx, hf⟩ := Option.bind_eq_some_iff.1 heq
    obtain ⟨⟨b', last⟩, hlast, hpair⟩ := following_eq_some.1 hf
    obtain ⟨rfl, rfl⟩ := Prod.mk.inj hpair
    exact ⟨a, ⟨turns, first, hx, fun e he => hlog e (List.mem_append_left _ he)⟩,
      ⟨turns, last, hlast, fun e he => hlog e (List.mem_append_right _ he)⟩⟩
  · rintro ⟨a, ⟨turns, first, hx, hfirst⟩, ⟨turns', last, hf, hlast⟩⟩
    -- with the turns of either part, both run as they did
    have hx' := x.mono (Nat.le_max_left turns turns') hx
    have hf' := (f a).mono (Nat.le_max_right turns turns') hf
    refine ⟨max turns turns', first ++ last, ?_, fun e he => ?_⟩
    · exact Option.bind_eq_some_iff.2 ⟨_, hx', following_eq_some.2 ⟨_, hf', rfl⟩⟩
    · exact (List.mem_append.1 he).elim (hfirst e) (hlast e)

theorem meets_ite {c : Prop} [Decidable c] :
    Meets P m (if c then x else y) a ↔ (c ∧ Meets P m x a) ∨ (¬c ∧ Meets P m y a) := by
  split
  · rename_i h
    simp [h]
  · rename_i h
    simp [h]

/-- A program ends with one value. -/
theorem Meets.unique (h : Meets P m x a) (h' : Meets P m x a') : a = a' := by
  obtain ⟨turns, log, heq, -⟩ := h
  obtain ⟨turns', log', heq', -⟩ := h'
  have hmax := x.mono (Nat.le_max_left turns turns') heq
  have hmax' := x.mono (Nat.le_max_right turns turns') heq'
  exact (Prod.mk.inj (Option.some.inj (hmax.symm.trans hmax'))).1

/-- What is asked of the log may be less. -/
theorem Meets.imp {Q : ρ → Prop} (h : Meets P m x a) (hle : ∀ entry, P entry → Q entry) :
    Meets Q m x a := by
  obtain ⟨turns, log, heq, hlog⟩ := h
  exact ⟨turns, log, heq, fun entry hentry => hle entry (hlog entry hentry)⟩

/-- The program ends with `a`, if it may read what it does. -/
def Yields (P : ρ → Prop) (m : μ) (x : Scan μ ρ α) (a : α) (allowed : Prop) : Prop :=
  ∀ a', Meets P m x a' ↔ a = a' ∧ allowed

theorem yields_pure : Yields P m (pure a : Scan μ ρ α) a True := by
  intro a'
  rw [meets_pure, and_true]

theorem yields_read {value : μ → α} {entry : ρ} :
    Yields P m (read value entry : Scan μ ρ α) (value m) (P entry) := fun _ => meets_read

theorem yields_ask {value : μ → α} : Yields P m (ask value : Scan μ ρ α) (value m) True := by
  intro a'
  rw [and_true]
  constructor
  · rintro ⟨turns, log, heq, -⟩
    exact (Prod.mk.inj (Option.some.inj heq)).1
  · rintro rfl
    exact ⟨0, [], rfl, fun _ h => absurd h List.not_mem_nil⟩

/-- The value and what is allowed, put another way. -/
theorem Yields.congr {allowed allowed' : Prop} (h : Yields P m x a allowed)
    (hallowed : allowed ↔ allowed') (ha : allowed' → a = a') : Yields P m x a' allowed' := by
  intro b
  rw [h b, hallowed]
  constructor
  · rintro ⟨rfl, hall⟩
    exact ⟨(ha hall).symm, hall⟩
  · rintro ⟨rfl, hall⟩
    exact ⟨ha hall, hall⟩

theorem Yields.map {allowed : Prop} (h : Yields P m x a allowed) (g : α → β) :
    Yields P m (g <$> x) (g a) allowed := by
  intro b
  change Meets P m (x >>= fun a => pure (g a)) b ↔ _
  rw [Scan.meets_bind]
  constructor
  · rintro ⟨a', ha, hg⟩
    obtain ⟨rfl, hallowed⟩ := (h a').1 ha
    exact ⟨meets_pure.1 hg, hallowed⟩
  · rintro ⟨hg, hallowed⟩
    exact ⟨a, (h a).2 ⟨rfl, hallowed⟩, meets_pure.2 hg⟩

/-- The program that goes on with what one yields. -/
theorem Yields.meets_bind {allowed : Prop} (h : Yields P m x a allowed) :
    Meets P m (x >>= f) b ↔ allowed ∧ Meets P m (f a) b := by
  rw [Scan.meets_bind]
  constructor
  · rintro ⟨a', ha, hf⟩
    obtain ⟨rfl, hallowed⟩ := (h a').1 ha
    exact ⟨hallowed, hf⟩
  · rintro ⟨hallowed, hf⟩
    exact ⟨a, (h a).2 ⟨rfl, hallowed⟩, hf⟩

/-- **One program after another.** -/
theorem Yields.bind {allowed allowed' : Prop} (h : Yields P m x a allowed)
    (hf : Yields P m (f a) b allowed') : Yields P m (x >>= f) b (allowed ∧ allowed') := by
  intro b'
  rw [h.meets_bind, hf b']
  exact and_left_comm

/-! ## Loops -/

/-- A finite path of turns that ends with `b`. -/
inductive Reaches (turn : σ → σ ⊕ β → Prop) : σ → β → Prop
  | done {s : σ} {b : β} (h : turn s (.inr b)) : Reaches turn s b
  | more {s s' : σ} {b : β} (h : turn s (.inl s')) (hrest : Reaches turn s' b) : Reaches turn s b

variable {s : σ}

/-- **A loop ends where a finite path of its turns does.** -/
theorem meets_loop : Meets P m (loop body s) b ↔ Reaches (fun s r => Meets P m (body s) r) s b := by
  constructor
  · rintro ⟨turns, log, heq, hlog⟩
    -- by induction on the turns of the loop, those of its body being fixed
    suffices hpath : ∀ n s log, turnsOf body turns m n s = some (b, log) →
        (∀ entry ∈ log, P entry) → Reaches (fun s r => Meets P m (body s) r) s b from
      hpath turns s log heq hlog
    intro n
    induction n with
    | zero => exact fun s log heq => absurd heq (Option.some_ne_none _).symm
    | succ n ih =>
      intro s log heq hlog
      obtain ⟨⟨s' | b', first⟩, hturn, hrest⟩ := Option.bind_eq_some_iff.1 heq
      · obtain ⟨⟨b', last⟩, hlast, hpair⟩ := following_eq_some.1 hrest
        obtain ⟨rfl, rfl⟩ := Prod.mk.inj hpair
        refine .more ⟨turns, first, hturn, fun e he => hlog e (List.mem_append_left _ he)⟩ ?_
        exact ih s' last hlast fun e he => hlog e (List.mem_append_right _ he)
      · obtain ⟨⟨b'', last⟩, hlast, hpair⟩ := following_eq_some.1 hrest
        obtain ⟨rfl, rfl⟩ := Prod.mk.inj (Option.some.inj hlast)
        obtain ⟨rfl, rfl⟩ := Prod.mk.inj hpair
        exact .done ⟨turns, first, hturn, fun e he => hlog e (List.mem_append_left _ he)⟩
  · intro h
    induction h with
    | @done s b h =>
      obtain ⟨turns, log, hturn, hlog⟩ := h
      refine ⟨turns + 1, log ++ [], ?_, by simpa using hlog⟩
      have hturn' := (body s).mono (Nat.le_succ turns) hturn
      exact Option.bind_eq_some_iff.2 ⟨_, hturn', following_eq_some.2 ⟨_, rfl, rfl⟩⟩
    | @more s s' b h hrest ih =>
      obtain ⟨turns, first, hturn, hfirst⟩ := h
      obtain ⟨turns', last, hloop, hlast⟩ := ih
      refine ⟨max turns turns' + 1, first ++ last, ?_, fun e he => ?_⟩
      · have hturn' := (body s).mono (by omega : turns ≤ max turns turns' + 1) hturn
        have hloop' : turnsOf body (max turns turns' + 1) m (max turns turns') s' = _ :=
          turnsOf_mono (by omega) (by omega) hloop
        exact Option.bind_eq_some_iff.2 ⟨_, hturn', following_eq_some.2 ⟨_, hloop', rfl⟩⟩
      · exact (List.mem_append.1 he).elim (hfirst e) (hlast e)

/-- A loop is done after a turn, or goes on. -/
theorem meets_loop_succ : Meets P m (loop body s) b ↔ Meets P m (body s) (.inr b) ∨
    ∃ s', Meets P m (body s) (.inl s') ∧ Meets P m (loop body s') b := by
  rw [meets_loop]
  constructor
  · rintro (hdone | ⟨hmore, hrest⟩)
    · exact Or.inl hdone
    · exact Or.inr ⟨_, hmore, meets_loop.2 hrest⟩
  · rintro (hdone | ⟨s', hmore, hrest⟩)
    · exact .done hdone
    · exact .more hmore (meets_loop.1 hrest)

theorem Yields.loop_done {allowed : Prop} (h : Yields P m (body s) (.inr b) allowed) :
    Yields P m (loop body s) b allowed := by
  intro b'
  rw [meets_loop_succ, h]
  constructor
  · rintro (⟨heq, hallowed⟩ | ⟨s', hmore, -⟩)
    · exact ⟨Sum.inr.inj heq, hallowed⟩
    · cases ((h _).1 hmore).1
  · rintro ⟨rfl, hallowed⟩
    exact Or.inl ⟨rfl, hallowed⟩

/-- **A turn, and the loop from there on.** -/
theorem Yields.loop_more {s' : σ} {allowed allowed' : Prop}
    (h : Yields P m (body s) (.inl s') allowed) (hrest : Yields P m (loop body s') b allowed') :
    Yields P m (loop body s) b (allowed ∧ allowed') := by
  intro b'
  rw [meets_loop_succ, h]
  constructor
  · rintro (⟨heq, -⟩ | ⟨s'', hmore, hloop⟩)
    · cases heq
    · obtain ⟨heq, hallowed⟩ := (h _).1 hmore
      rw [← Sum.inl.inj heq] at hloop
      obtain ⟨rfl, hallowed'⟩ := (hrest b').1 hloop
      exact ⟨rfl, hallowed, hallowed'⟩
  · rintro ⟨rfl, hallowed, hallowed'⟩
    exact Or.inr ⟨s', (h _).2 ⟨rfl, hallowed⟩, (hrest _).2 ⟨rfl, hallowed'⟩⟩

/-- **A path along a sequence.** Where a part of the state says whether
there is one more turn, what that part is next, and whether the end is of
a kind, a path ends so after some number of turns. -/
theorem exists_reaches_iff {turn : σ → σ ⊕ β → Prop} (part : σ → τ) (next : τ → τ)
    (go ends : τ → Prop) (Q : β → Prop)
    (hmore : ∀ s, (∃ s', turn s (.inl s')) ↔ go (part s))
    (hnext : ∀ s s', turn s (.inl s') → part s' = next (part s))
    (hdone : ∀ s, (∃ b, turn s (.inr b) ∧ Q b) ↔ ends (part s)) :
    (∃ b, Reaches turn s b ∧ Q b) ↔
      ∃ n, (∀ i < n, go (next^[i] (part s))) ∧ ends (next^[n] (part s)) := by
  constructor
  · rintro ⟨b, h, hQ⟩
    induction h with
    | @done s b h => exact ⟨0, fun i hi => absurd hi (Nat.not_lt_zero i), (hdone s).1 ⟨b, h, hQ⟩⟩
    | @more s s' b h hrest ih =>
      obtain ⟨n, hall, hend⟩ := ih hQ
      rw [hnext s s' h] at hall hend
      refine ⟨n + 1, fun i hi => ?_, hend⟩
      rcases i with - | i
      · exact (hmore s).1 ⟨s', h⟩
      · exact hall i (Nat.lt_of_succ_lt_succ hi)
  · rintro ⟨n, hall, hend⟩
    induction n generalizing s with
    | zero =>
      obtain ⟨b, h, hQ⟩ := (hdone s).2 hend
      exact ⟨b, .done h, hQ⟩
    | succ n ih =>
      obtain ⟨s', h⟩ := (hmore s).2 (hall 0 (Nat.succ_pos n))
      have hpart := hnext s s' h
      have hrest : ∃ b, Reaches turn s' b ∧ Q b := by
        apply ih
        · intro i hi
          rw [hpart]
          exact hall (i + 1) (Nat.succ_lt_succ hi)
        · rw [hpart]
          exact hend
      obtain ⟨b, hpath, hQ⟩ := hrest
      exact ⟨b, .more h hpath, hQ⟩

/-- **A path that counts.** -/
theorem reaches_iff_of_count {turn : ℕ → ℕ ⊕ β → Prop} {go : ℕ → Prop} {ends : ℕ → β → Prop}
    (hmore : ∀ s s', turn s (.inl s') ↔ go s ∧ s' = s + 1)
    (hdone : ∀ s b, turn s (.inr b) ↔ ends s b) {s : ℕ} :
    Reaches turn s b ↔ ∃ n, (∀ i < n, go (s + i)) ∧ ends (s + n) b := by
  have hpath := exists_reaches_iff (s := s) id Nat.succ go (fun s => ends s b) (fun b' => b' = b)
    (fun s => by simp [hmore]) (fun s s' h => ((hmore s s').1 h).2) fun s => by simp [hdone]
  have hcount : ∀ i, Nat.succ^[i] s = s + i := fun i => Nat.succ_iterate s i
  simpa [hcount] using hpath

end Scan

end Library
