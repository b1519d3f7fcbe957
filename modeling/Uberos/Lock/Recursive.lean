import Mathlib.Data.List.Basic
import Uberos.Lock.Flat
/-!
# The recursive lock of many processors

`Lock<LockType::recursive>` of `kernel/Lock.inl`, built with `HAS_SMP`.
`lockProcessor` is exchanged for the processor's id and put back to `~0`,
and `lockDepth` is changed, each in a step of its own, and the steps of
all processors interleave as they like. A processor does nothing else
while it is in `lock` or `unlock`, and unlocks only what it has locked, as
`Lock_Guard` does.

A step that its processor is not at leaves the lock as it is.
-/

namespace Uberos

open Library

/-- What `get_active_id` returns: an APIC id, of eight bits. -/
abbrev ProcessorId := Fin 256

/-- The id as `lockProcessor` has it. -/
def ProcessorId.word (p : ProcessorId) : BitVec 32 := BitVec.ofNat 32 p

/-- Where a processor is in `lock` or `unlock`. -/
inductive RecursiveCall
  /-- Not in them. -/
  | none
  /-- About to `compare_exchange_weak`. -/
  | exchanging
  /-- About to load once more. -/
  | spinning
  /-- About to `lockDepth++`. -/
  | entering
  /-- `lockDepth` was 1, and `lockProcessor = ~0` is next. -/
  | leaving
  deriving DecidableEq

/-- `lockDepth` and `lockProcessor`, where each processor is, and how many
of its calls of `lock` have returned and are not unlocked. -/
structure RecursiveLock where
  lockDepth : BitVec 32
  lockProcessor : BitVec 32
  call : ProcessorId → RecursiveCall
  nesting : ProcessorId → ℕ

namespace RecursiveLock

/-- A step of one of the processors. -/
inductive Action
  /-- `lock` is called. -/
  | lock (p : ProcessorId)
  /-- `lockProcessor.compare_exchange_weak`, which may fail for no reason. -/
  | exchange (p : ProcessorId) (fails : Bool)
  /-- `lockProcessor.load`. -/
  | load (p : ProcessorId)
  /-- `lockDepth++`, and `lock` returns. -/
  | increment (p : ProcessorId)
  /-- `unlock` is called: `lockDepth.fetch_sub(1)`. -/
  | subtract (p : ProcessorId)
  /-- `lockProcessor = ~0`. -/
  | store (p : ProcessorId)

/-- `(U32)~0`. -/
def nobody : BitVec 32 := ~~~0

/-- `Lock()`. -/
def new : RecursiveLock := ⟨0, nobody, fun _ => .none, fun _ => 0⟩

/-- A processor goes on to another place. -/
def goto (l : RecursiveLock) (p : ProcessorId) (call : RecursiveCall) : RecursiveLock :=
  { l with call := Function.update l.call p call }

/-- One step. -/
def step (l : RecursiveLock) : Action → RecursiveLock
  | .lock p =>
    match l.call p with
    | .none => l.goto p .exchanging
    | _ => l
  | .exchange p fails =>
    match l.call p with
    | .exchanging =>
      if l.lockProcessor = nobody ∧ fails = false then
        { l with lockProcessor := p.word }.goto p .entering
      -- The exchange that fails leaves what it found in `expected`.
      else if l.lockProcessor = p.word then l.goto p .entering
      else l.goto p .spinning
    | _ => l
  | .load p =>
    match l.call p with
    | .spinning => if l.lockProcessor ≠ nobody then l else l.goto p .exchanging
    | _ => l
  | .increment p =>
    match l.call p with
    | .entering =>
      { l with
        lockDepth := l.lockDepth + 1
        nesting := Function.update l.nesting p (l.nesting p + 1) }.goto p .none
    | _ => l
  | .subtract p =>
    match l.call p with
    | .none =>
      if 0 < l.nesting p then
        { l with
          lockDepth := l.lockDepth - 1
          nesting := Function.update l.nesting p (l.nesting p - 1) }.goto p
            (if l.lockDepth = 1 then .leaving else .none)
      else l
    | _ => l
  | .store p =>
    match l.call p with
    | .leaving => { l with lockProcessor := nobody }.goto p .none
    | _ => l

/-! ## What it is for -/

/-- **It is locked by no other than its owner**, and says whose it is and
how often. -/
structure OwnedBy (l : RecursiveLock) (owner : Option ProcessorId) : Prop where
  processor : l.lockProcessor = (owner.map ProcessorId.word).getD nobody
  depth : l.lockDepth.toNat = (owner.map l.nesting).getD 0
  others : ∀ p, owner ≠ some p → l.nesting p = 0

/-- No processor calls `lock` once more than its depth counts. -/
def Room (l : RecursiveLock) : Action → Prop
  | .lock p => l.nesting p + 1 < 2 ^ 32
  | _ => True

instance (l : RecursiveLock) (action : Action) : Decidable (l.Room action) :=
  match action with
  | .lock p => inferInstanceAs (Decidable (l.nesting p + 1 < 2 ^ 32))
  | .exchange .. | .load _ | .increment _ | .subtract _ | .store _ => isTrue trivial

/-- A processor is in `lock`. -/
def Waits (l : RecursiveLock) (p : ProcessorId) : Prop :=
  l.call p = .exchanging ∨ l.call p = .spinning ∨ l.call p = .entering

/-- It can get in from here, if all go on in some order. -/
def GetsIn (l : RecursiveLock) (p : ProcessorId) : Prop :=
  ∃ actions, (run step l actions).nesting p = l.nesting p + 1

variable {l : RecursiveLock} {owner : Option ProcessorId} {p q : ProcessorId}
variable {call : RecursiveCall}

/-! ## One owner -/

theorem toNat_word (p : ProcessorId) : p.word.toNat = p := by
  have hp := p.isLt
  rw [ProcessorId.word, BitVec.toNat_ofNat, Nat.mod_eq_of_lt (by omega)]

theorem word_inj : p.word = q.word ↔ p = q := by
  rw [← BitVec.toNat_inj, toNat_word, toNat_word, Fin.val_inj]

theorem word_ne_nobody (p : ProcessorId) : p.word ≠ nobody := by
  intro h
  have hp := p.isLt
  have heq := congrArg BitVec.toNat h
  rw [toNat_word, show nobody.toNat = 2 ^ 32 - 1 from rfl] at heq
  omega

/-- **The invariant.** The owner has the lock, or is about to, or has just
given it up. -/
structure Owned (l : RecursiveLock) (owner : Option ProcessorId) : Prop extends
    l.OwnedBy owner where
  changing : ∀ p, l.call p = .entering ∨ l.call p = .leaving → owner = some p
  left : ∀ p, l.call p = .leaving → l.nesting p = 0
  holds : ∀ p, owner = some p → l.nesting p = 0 → l.call p = .entering ∨ l.call p = .leaving
  goes : ∀ p, owner = some p → l.call p ≠ .spinning

theorem owned_new : new.Owned none where
  processor := rfl
  depth := rfl
  others _ _ := rfl
  changing p h := by rcases h with h | h <;> cases h
  left p h := by cases h
  holds p h := by cases h
  goes p h := by cases h

@[simp] theorem call_goto : (l.goto p call).call p = call := Function.update_self _ _ _

theorem call_goto_of_ne (h : q ≠ p) : (l.goto p call).call q = l.call q :=
  Function.update_of_ne h _ _

theorem OwnedBy.processor_some (h : l.OwnedBy (some p)) : l.lockProcessor = p.word := h.processor

theorem OwnedBy.owner_of_processor (h : l.OwnedBy owner) (hp : l.lockProcessor = p.word) :
    owner = some p := by
  cases owner with
  | none => exact absurd (hp.symm.trans h.processor) (word_ne_nobody p)
  | some q => rw [word_inj.1 (h.processor_some.symm.trans hp)]

theorem OwnedBy.owner_of_nobody (h : l.OwnedBy owner) (hp : l.lockProcessor = nobody) :
    owner = none := by
  cases owner with
  | none => rfl
  | some q => exact absurd (h.processor_some.symm.trans hp) (word_ne_nobody q)

theorem OwnedBy.owner_of_nesting (h : l.OwnedBy owner) (hp : 0 < l.nesting p) :
    owner = some p := by
  by_contra hne
  rw [h.others p hne] at hp
  cases hp

/-- A processor that neither changes the lock nor is about to goes to
another such place. -/
theorem Owned.goto (h : l.Owned owner) (hfrom : l.call p ≠ .entering ∧ l.call p ≠ .leaving)
    (hto : call ≠ .entering ∧ call ≠ .leaving) (hspin : owner = some p → call ≠ .spinning) :
    (l.goto p call).Owned owner where
  processor := h.processor
  depth := h.depth
  others := h.others
  changing q hq := by
    rcases eq_or_ne q p with rfl | hne
    · rw [call_goto] at hq
      exact absurd hq (not_or.2 hto)
    · rw [call_goto_of_ne hne] at hq
      exact h.changing q hq
  left q hq := by
    rcases eq_or_ne q p with rfl | hne
    · rw [call_goto] at hq
      exact absurd hq hto.2
    · rw [call_goto_of_ne hne] at hq
      exact h.left q hq
  holds q howner hq := by
    rcases eq_or_ne q p with rfl | hne
    · exact absurd (h.holds q howner hq) (not_or.2 hfrom)
    · rw [call_goto_of_ne hne]
      exact h.holds q howner hq
  goes q howner := by
    rcases eq_or_ne q p with rfl | hne
    · rw [call_goto]
      exact hspin howner
    · rw [call_goto_of_ne hne]
      exact h.goes q howner

/-- **It is taken** by who finds it free. -/
theorem Owned.take (h : l.Owned none) :
    Owned ({ l with lockProcessor := p.word }.goto p .entering) (some p) where
  processor := rfl
  depth := h.depth.trans (h.others p (by simp)).symm
  others q _ := h.others q (by simp)
  changing q hq := by
    rcases eq_or_ne q p with rfl | hne
    · rfl
    · exact absurd (h.changing q ((call_goto_of_ne hne).symm ▸ hq)) (by simp)
  left q _ := h.others q (by simp)
  holds q howner _ := by
    obtain rfl := Option.some.inj howner
    exact Or.inl call_goto
  goes q howner := by
    obtain rfl := Option.some.inj howner
    exact call_goto.trans_ne (by simp)

/-- Its owner comes again. -/
theorem Owned.again (h : l.Owned (some p)) (hcall : l.call p = .exchanging) :
    (l.goto p .entering).Owned (some p) where
  processor := h.processor
  depth := h.depth
  others := h.others
  changing q hq := by
    rcases eq_or_ne q p with rfl | hne
    · rfl
    · exact h.changing q ((call_goto_of_ne hne).symm ▸ hq)
  left q hq := by
    rcases eq_or_ne q p with rfl | hne
    · rw [call_goto] at hq
      cases hq
    · exact h.left q ((call_goto_of_ne hne).symm ▸ hq)
  holds q howner _ := by
    obtain rfl := Option.some.inj howner
    exact Or.inl call_goto
  goes q howner := by
    obtain rfl := Option.some.inj howner
    exact call_goto.trans_ne (by simp)

/-- **The depth goes up** with its owner's. -/
theorem Owned.increment (h : l.Owned (some p)) (hroom : l.nesting p + 1 < 2 ^ 32) :
    Owned ({ l with
      lockDepth := l.lockDepth + 1
      nesting := Function.update l.nesting p (l.nesting p + 1) }.goto p .none) (some p) where
  processor := h.processor
  depth := by
    have hdepth : l.lockDepth.toNat = l.nesting p := h.depth
    change (l.lockDepth + 1).toNat = Function.update l.nesting p (l.nesting p + 1) p
    rw [BitVec.toNat_add, hdepth, show (1 : BitVec 32).toNat = 1 from rfl, Nat.mod_eq_of_lt hroom,
      Function.update_self]
  others q hq := by
    have hne : q ≠ p := fun heq => hq (heq ▸ rfl)
    exact (Function.update_of_ne hne _ _).trans (h.others q hq)
  changing q hq := by
    rcases eq_or_ne q p with rfl | hne
    · rfl
    · exact h.changing q ((call_goto_of_ne hne).symm ▸ hq)
  left q hq := by
    rcases eq_or_ne q p with rfl | hne
    · cases call_goto.symm.trans hq
    · have hleaving := (call_goto_of_ne hne).symm.trans hq
      exact (Function.update_of_ne hne _ _).trans (h.left q hleaving)
  holds q howner hq := by
    obtain rfl := Option.some.inj howner
    change Function.update l.nesting p (l.nesting p + 1) p = 0 at hq
    rw [Function.update_self] at hq
    cases hq
  goes q howner := by
    obtain rfl := Option.some.inj howner
    exact call_goto.trans_ne (by simp)

/-- **The depth goes down** with its owner's, who leaves at the last. -/
theorem Owned.subtract (h : l.Owned (some p)) (hcall : l.call p = .none) (hp : 0 < l.nesting p) :
    Owned ({ l with
      lockDepth := l.lockDepth - 1
      nesting := Function.update l.nesting p (l.nesting p - 1) }.goto p
        (if l.lockDepth = 1 then .leaving else .none)) (some p) := by
  have hdepth : l.lockDepth.toNat = l.nesting p := h.depth
  have hself : Function.update l.nesting p (l.nesting p - 1) p = l.nesting p - 1 :=
    Function.update_self _ _ _
  have hone : l.lockDepth = 1 ↔ l.nesting p = 1 := by
    rw [← BitVec.toNat_inj, hdepth]
    rfl
  refine ⟨⟨h.processor, ?_, fun q hq => ?_⟩, fun q hq => ?_, fun q hq => ?_, fun q howner hq => ?_,
    fun q howner => ?_⟩
  · have hlt := l.lockDepth.isLt
    refine Eq.trans ?_ hself.symm
    change (l.lockDepth - 1).toNat = _
    rw [BitVec.toNat_sub, hdepth, show (1 : BitVec 32).toNat = 1 from rfl]
    omega
  · have hne : q ≠ p := fun heq => hq (heq ▸ rfl)
    exact (Function.update_of_ne hne _ _).trans (h.others q hq)
  · rcases eq_or_ne q p with rfl | hne
    · rfl
    · exact h.changing q ((call_goto_of_ne hne).symm ▸ hq)
  · rcases eq_or_ne q p with rfl | hne
    · have hleaving := call_goto.symm.trans hq
      by_cases hdepth1 : l.lockDepth = 1
      · refine hself.trans ?_
        rw [hone.1 hdepth1]
      · rw [if_neg hdepth1] at hleaving
        cases hleaving
    · have hleaving := (call_goto_of_ne hne).symm.trans hq
      exact (Function.update_of_ne hne _ _).trans (h.left q hleaving)
  · obtain rfl := Option.some.inj howner
    have hnesting : l.nesting p = 1 := by
      have hzero := hself.symm.trans hq
      omega
    refine Or.inr (call_goto.trans ?_)
    rw [if_pos (hone.2 hnesting)]
  · obtain rfl := Option.some.inj howner
    refine call_goto.trans_ne ?_
    split <;> simp

/-- **It is free** once its owner has left. -/
theorem Owned.store (h : l.Owned (some p)) (hcall : l.call p = .leaving) :
    Owned ({ l with lockProcessor := nobody }.goto p .none) none := by
  have hzero : ∀ q, l.nesting q = 0 := by
    intro q
    rcases eq_or_ne q p with rfl | hne
    · exact h.left q hcall
    · exact h.others q (by simpa using hne.symm)
  have hothers : ∀ q, ¬ ((l.goto p .none).call q = .entering ∨
      (l.goto p .none).call q = .leaving) := by
    intro q hq
    rcases eq_or_ne q p with rfl | hne
    · simp at hq
    · rw [call_goto_of_ne hne] at hq
      exact hne (Option.some.inj (h.changing q hq)).symm
  refine ⟨⟨rfl, h.depth.trans (hzero p), fun q _ => hzero q⟩, fun q hq => absurd hq (hothers q),
    fun q _ => hzero q, fun q howner => ?_, fun q howner => ?_⟩
  · cases howner
  · cases howner

/-- There is room for whoever is in `lock`. -/
def Roomy (l : RecursiveLock) : Prop := ∀ p, l.Waits p → l.nesting p + 1 < 2 ^ 32

theorem waits_goto_of_ne (h : q ≠ p) : (l.goto p call).Waits q ↔ l.Waits q := by
  rw [Waits, Waits, call_goto_of_ne h]

/-- A processor goes to where there is room for it. -/
theorem Roomy.goto (h : l.Roomy) (hroom : (l.goto p call).Waits p → l.nesting p + 1 < 2 ^ 32) :
    (l.goto p call).Roomy := by
  intro q hq
  rcases eq_or_ne q p with rfl | hne
  · exact hroom hq
  · exact h q ((waits_goto_of_ne hne).1 hq)

theorem not_waits_goto (h : call = .none ∨ call = .leaving) : ¬ (l.goto p call).Waits p := by
  rw [Waits, call_goto]
  rcases h with rfl | rfl <;> simp

/-- A processor that is not in `lock` any more has one lock more or less. -/
theorem Roomy.nest (h : l.Roomy) {n : ℕ} {depth : BitVec 32}
    (hcall : call = .none ∨ call = .leaving) :
    Roomy ({ l with lockDepth := depth,
                    nesting := Function.update l.nesting p n }.goto p call) := by
  intro q hq
  rcases eq_or_ne q p with rfl | hne
  · exact absurd hq (not_waits_goto hcall)
  · have hwaits : l.Waits q := (waits_goto_of_ne hne).1 hq
    exact (congrArg (· + 1) (Function.update_of_ne hne _ _)).trans_lt (h q hwaits)

theorem Roomy.step (h : l.Roomy) (action : Action) (hroom : l.Room action) :
    (l.step action).Roomy := by
  cases action with
  | lock p =>
    simp only [RecursiveLock.step]
    split
    · exact h.goto fun _ => hroom
    · exact h
  | exchange p fails =>
    simp only [RecursiveLock.step]
    split
    · next hcall =>
      have hp := h p (Or.inl hcall)
      split
      · exact h.goto fun _ => hp
      · split
        · exact h.goto fun _ => hp
        · exact h.goto fun _ => hp
    · exact h
  | load p =>
    simp only [RecursiveLock.step]
    split
    · next hcall =>
      split
      · exact h
      · exact h.goto fun _ => h p (Or.inr (Or.inl hcall))
    · exact h
  | increment p =>
    simp only [RecursiveLock.step]
    split
    · exact h.nest (Or.inl rfl)
    · exact h
  | subtract p =>
    simp only [RecursiveLock.step]
    split
    · split
      · refine h.nest ?_
        split
        · exact Or.inr rfl
        · exact Or.inl rfl
      · exact h
    · exact h
  | store p =>
    simp only [RecursiveLock.step]
    split
    · exact h.goto fun hwaits => absurd hwaits (not_waits_goto (Or.inl rfl))
    · exact h

/-- **What one step does to who owns it.** -/
theorem Owned.step (h : l.Owned owner) (hroomy : l.Roomy) (action : Action) :
    ∃ owner', (l.step action).Owned owner' := by
  cases action with
  | lock p =>
    simp only [RecursiveLock.step]
    split
    · next hcall => exact ⟨owner, h.goto (by simp [hcall]) (by simp) (by simp)⟩
    · exact ⟨owner, h⟩
  | exchange p fails =>
    simp only [RecursiveLock.step]
    split
    · next hcall =>
      split
      · next hfree =>
        obtain rfl := h.owner_of_nobody hfree.1
        exact ⟨some p, h.take⟩
      · split
        · next hown =>
          obtain rfl := h.owner_of_processor hown
          exact ⟨some p, h.again hcall⟩
        · next hother =>
          refine ⟨owner, h.goto (by simp [hcall]) (by simp) fun howner => ?_⟩
          rw [howner] at h
          exact absurd h.processor_some hother
    · exact ⟨owner, h⟩
  | load p =>
    simp only [RecursiveLock.step]
    split
    · next hcall =>
      split
      · exact ⟨owner, h⟩
      · exact ⟨owner, h.goto (by simp [hcall]) (by simp) (by simp)⟩
    · exact ⟨owner, h⟩
  | increment p =>
    simp only [RecursiveLock.step]
    split
    · next hcall =>
      obtain rfl := h.changing p (Or.inl hcall)
      exact ⟨some p, h.increment (hroomy p (Or.inr (Or.inr hcall)))⟩
    · exact ⟨owner, h⟩
  | subtract p =>
    simp only [RecursiveLock.step]
    split
    · next hcall =>
      split
      · next hp =>
        obtain rfl := h.owner_of_nesting hp
        exact ⟨some p, h.subtract hcall hp⟩
      · exact ⟨owner, h⟩
    · exact ⟨owner, h⟩
  | store p =>
    simp only [RecursiveLock.step]
    split
    · next hcall =>
      obtain rfl := h.changing p (Or.inr hcall)
      exact ⟨none, h.store hcall⟩
    · exact ⟨owner, h⟩

/-- A state that a run of such calls reaches. -/
def Sound (l : RecursiveLock) : Prop := l.Roomy ∧ ∃ owner, l.Owned owner

theorem sound_new : new.Sound := by
  refine ⟨fun p h => ?_, none, owned_new⟩
  rcases h with h | h | h
  · cases h
  · cases h
  · cases h

theorem Sound.step (h : l.Sound) (action : Action) (hroom : l.Room action) :
    (l.step action).Sound := by
  obtain ⟨hroomy, owner, howned⟩ := h
  exact ⟨hroomy.step action hroom, howned.step hroomy action⟩

/-- **However the processors interleave, one of them owns the lock at
most**: the others have no lock of it, `lockProcessor` is its owner's, and
`lockDepth` is how often the owner has locked it. -/
theorem owned_by_one {actions : List Action} (h : Along RecursiveLock.step Room new actions) :
    Throughout RecursiveLock.step (fun l => ∃ owner, l.OwnedBy owner) new actions :=
  throughout_of_invariant h sound_new (fun _ action hsound hroom => hsound.step action hroom)
    fun _ ⟨_, owner, howned⟩ => ⟨owner, howned.toOwnedBy⟩

/-- Two processors, one of which locks twice. -/
theorem owned_by_one_two :
    Throughout RecursiveLock.step (fun l => ∃ owner, l.OwnedBy owner) new
      [.lock 0, .exchange 0 false, .increment 0, .lock 1, .lock 0, .exchange 1 false,
        .exchange 0 true, .increment 0, .subtract 0, .subtract 0, .store 0, .load 1] :=
  owned_by_one (by decide)

/-! ## Who gets in -/

theorem step_increment (hcall : l.call p = .entering) :
    l.step (.increment p) = { l with
      lockDepth := l.lockDepth + 1
      nesting := Function.update l.nesting p (l.nesting p + 1) }.goto p .none := by
  simp [RecursiveLock.step, hcall]

theorem step_subtract (hcall : l.call p = .none) (hp : 0 < l.nesting p) :
    l.step (.subtract p) = { l with
      lockDepth := l.lockDepth - 1
      nesting := Function.update l.nesting p (l.nesting p - 1) }.goto p
        (if l.lockDepth = 1 then .leaving else .none) := by
  simp [RecursiveLock.step, hcall, hp]

theorem step_store (hcall : l.call p = .leaving) :
    l.step (.store p) = { l with lockProcessor := nobody }.goto p .none := by
  simp [RecursiveLock.step, hcall]

/-- It is where it was. -/
def SameFor (l l' : RecursiveLock) (p : ProcessorId) : Prop :=
  l'.call p = l.call p ∧ l'.nesting p = l.nesting p

/-- An owner that is not in `lock` can unlock all of its locks. -/
theorem Owned.drain (hne : p ≠ q) : ∀ n l, Owned l (some q) → l.nesting q = n →
    l.call q = .none ∨ l.call q = .leaving →
      ∃ actions, (run RecursiveLock.step l actions).Owned none ∧
        l.SameFor (run RecursiveLock.step l actions) p := by
  intro n
  induction n with
  | zero =>
    intro l h hzero hcall
    have hleaving : l.call q = .leaving := by
      rcases h.holds q rfl hzero with hentering | hleaving
      · rcases hcall with hcall | hcall <;> cases hcall.symm.trans hentering
      · exact hleaving
    refine ⟨[.store q], ?_⟩
    rw [run_cons, run_nil, step_store hleaving]
    exact ⟨h.store hleaving, call_goto_of_ne hne, rfl⟩
  | succ n ih =>
    intro l h hsucc hcall
    have hnone : l.call q = .none := by
      rcases hcall with hnone | hleaving
      · exact hnone
      · cases hsucc.symm.trans (h.left q hleaving)
    have hpos : 0 < l.nesting q := by omega
    have hstep := step_subtract hnone hpos
    obtain ⟨actions, hnobody, hcall', hnesting'⟩ := ih (l.step (.subtract q))
      (by rw [hstep]; exact h.subtract hnone hpos)
      (by
        rw [hstep]
        refine (Function.update_self q _ l.nesting).trans ?_
        omega)
      (by
        rw [hstep]
        refine Or.symm ((em (l.lockDepth = 1)).imp (fun hone => ?_) fun hone => ?_)
        · exact call_goto.trans (if_pos hone)
        · exact call_goto.trans (if_neg hone))
    refine ⟨.subtract q :: actions, hnobody, hcall'.trans ?_, hnesting'.trans ?_⟩
    · rw [hstep]
      exact call_goto_of_ne hne
    · rw [hstep]
      exact Function.update_of_ne hne _ _

/-- Another's lock can become free. -/
theorem Owned.freed (h : l.Owned (some q)) (hroomy : l.Roomy) (hne : p ≠ q) :
    ∃ actions, (run RecursiveLock.step l actions).Owned none ∧
      l.SameFor (run RecursiveLock.step l actions) p := by
  have hentering : ∀ l : RecursiveLock, l.Owned (some q) → l.Roomy → l.call q = .entering →
      ∃ actions, (run RecursiveLock.step l actions).Owned none ∧
        l.SameFor (run RecursiveLock.step l actions) p := by
    intro l h hroomy hcall
    have hroom := hroomy q (Or.inr (Or.inr hcall))
    have hstep := step_increment hcall
    obtain ⟨actions, hnobody, hcall', hnesting'⟩ := Owned.drain hne _ (l.step (.increment q))
      (by rw [hstep]; exact h.increment hroom) rfl (by rw [hstep]; exact Or.inl call_goto)
    refine ⟨.increment q :: actions, hnobody, hcall'.trans ?_, hnesting'.trans ?_⟩
    · rw [hstep]
      exact call_goto_of_ne hne
    · rw [hstep]
      exact Function.update_of_ne hne _ _
  cases hcall : l.call q with
  | none => exact h.drain hne _ _ rfl (Or.inl hcall)
  | leaving => exact h.drain hne _ _ rfl (Or.inr hcall)
  | entering => exact hentering l h hroomy hcall
  | spinning => exact absurd hcall (h.goes q rfl)
  | exchanging =>
    have hstep : l.step (.exchange q true) = l.goto q .entering := by
      simp [RecursiveLock.step, hcall, h.processor_some]
    obtain ⟨actions, hnobody, hcall', hnesting'⟩ := hentering (l.goto q .entering)
      (h.again hcall) (hroomy.goto fun _ => hroomy q (Or.inl hcall)) call_goto
    refine ⟨.exchange q true :: actions, ?_⟩
    rw [run_cons, hstep]
    exact ⟨hnobody, hcall'.trans (call_goto_of_ne hne), hnesting'⟩

/-- Who is about to exchange and finds it free, or its own, gets in. -/
theorem getsIn_of_exchanging (hcall : l.call p = .exchanging)
    (hown : l.lockProcessor = nobody ∨ l.lockProcessor = p.word) : l.GetsIn p := by
  refine ⟨[.exchange p false, .increment p], ?_⟩
  have hexchange : (l.step (.exchange p false)).call p = .entering ∧
      (l.step (.exchange p false)).nesting = l.nesting := by
    simp only [RecursiveLock.step, hcall]
    split
    · exact ⟨call_goto, rfl⟩
    · next hfree =>
      rw [if_pos (hown.resolve_left fun hnobody => hfree ⟨hnobody, trivial⟩)]
      exact ⟨call_goto, rfl⟩
  rw [run_cons, run_cons, run_nil, step_increment hexchange.1, hexchange.2]
  exact Function.update_self _ _ _

/-- Who waits for a lock that is free gets in. -/
theorem Owned.getsIn_of_free (h : l.Owned none) (hwaits : l.Waits p) : l.GetsIn p := by
  have hnobody : l.lockProcessor = nobody := h.processor
  rcases hwaits with hcall | hcall | hcall
  · exact getsIn_of_exchanging hcall (Or.inl hnobody)
  · have hload : l.step (.load p) = l.goto p .exchanging := by
      simp [RecursiveLock.step, hcall, hnobody]
    obtain ⟨actions, hin⟩ :=
      getsIn_of_exchanging (l := l.goto p .exchanging) (p := p) call_goto (Or.inl hnobody)
    refine ⟨.load p :: actions, ?_⟩
    rw [run_cons, hload, hin]
    rfl
  · cases h.changing p (Or.inl hcall)

/-- Its owner gets in again. -/
theorem Owned.getsIn_of_own (h : l.Owned (some p)) (hwaits : l.Waits p) : l.GetsIn p := by
  rcases hwaits with hcall | hcall | hcall
  · exact getsIn_of_exchanging hcall (Or.inr h.processor_some)
  · exact absurd hcall (h.goes p rfl)
  · refine ⟨[.increment p], ?_⟩
    rw [run_cons, run_nil, step_increment hcall]
    exact Function.update_self _ _ _

/-- **A processor that waits for the lock can always still get in**, its
owner while it has it, and the others once the owner has unlocked it. -/
theorem waiting_gets_in {actions : List Action} (h : Along RecursiveLock.step Room new actions) :
    Throughout RecursiveLock.step (fun l => ∀ p, l.Waits p → l.GetsIn p) new actions := by
  refine throughout_of_invariant h sound_new
    (fun _ action hsound hroom => hsound.step action hroom) fun l hsound p hwaits => ?_
  obtain ⟨hroomy, owner, howned⟩ := hsound
  rcases owner with - | q
  · exact howned.getsIn_of_free hwaits
  · rcases eq_or_ne p q with rfl | hne
    · exact howned.getsIn_of_own hwaits
    · obtain ⟨before, hnobody, hcall, hnesting⟩ := howned.freed hroomy hne
      have hwaits' : (run RecursiveLock.step l before).Waits p := by
        rw [Waits, hcall]
        exact hwaits
      obtain ⟨after, hin⟩ := hnobody.getsIn_of_free hwaits'
      refine ⟨before ++ after, ?_⟩
      rw [run_append, hin, hnesting]

/-- One that has locked it twice, and one that waits. -/
theorem waiting_gets_in_two :
    Throughout RecursiveLock.step (fun l => ∀ p, l.Waits p → l.GetsIn p) new
      [.lock 0, .exchange 0 false, .increment 0, .lock 1, .exchange 1 false, .lock 0] :=
  waiting_gets_in (by decide)

end RecursiveLock

end Uberos
