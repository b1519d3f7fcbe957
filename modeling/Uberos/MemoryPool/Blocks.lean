import Uberos.MemoryPool.Model
/-!
# The free list as a collection

What the loops of `MemoryPool` do to the blocks of the free list, order
apart: an insertion adds one, a search takes one that holds the request
or finds that none does, and a compaction merges adjacent ones.
-/

namespace Uberos

namespace MemoryPool

variable {T : Target} {pool : MemoryPool} {b other : Block} {bs bs' bs'' others : List Block}

/-! ## Insertions -/

theorem insertForwards_perm (b : Block) (bs : List Block) :
    (insertForwards b bs).Perm (b :: bs) := List.perm_orderedInsert _ b bs

theorem insertBackwards_perm (b : Block) (bs : List Block) :
    (insertBackwards b bs).Perm (b :: bs) :=
  ((List.reverse_perm _).trans (List.perm_orderedInsert _ b _)).trans
    ((List.reverse_perm bs).cons b)

/-- A claimed block joins the free list. -/
theorem claimBlock_perm (pool : MemoryPool) (b : Block) :
    (claimBlock T pool b).availableBlocks.Perm (b :: pool.availableBlocks) := by
  unfold claimBlock
  simp only
  split
  · exact insertBackwards_perm b _
  · exact insertForwards_perm b _

theorem sortBySize_perm (bs : List Block) : (sortBySize bs).Perm bs := by
  have h : ∀ bs sorted : List Block,
      (bs.foldl (fun sorted block => insertForwards block sorted) sorted).Perm (bs ++ sorted) := by
    intro bs
    induction bs with
    | nil => exact fun sorted => List.Perm.refl _
    | cons b bs ih =>
      intro sorted
      refine (ih _).trans (((insertForwards_perm b sorted).append_left bs).trans ?_)
      exact List.perm_middle
  have := h bs []
  rwa [List.append_nil] at this

/-! ## Searches -/

/-- **What `popFirst` takes** is the first block to pass the test, and
the rest stay as they stood. -/
theorem popFirst_split {test : Block → Bool} (h : popFirst test bs = some (b, others)) :
    ∃ passed rest, bs = passed ++ b :: rest ∧ others = passed ++ rest ∧ test b = true ∧
      ∀ c ∈ passed, test c = false := by
  induction bs generalizing others with
  | nil => cases h
  | cons c bs ih =>
    rw [popFirst] at h
    split at h
    · rename_i htest
      injection h with h
      injection h with hb hothers
      subst hb hothers
      exact ⟨[], bs, rfl, rfl, htest, nofun⟩
    · rename_i htest
      obtain ⟨⟨found, others'⟩, hpop, heq⟩ := Option.map_eq_some_iff.1 h
      injection heq with hb hothers
      subst hb hothers
      obtain ⟨passed, rest, rfl, rfl, hfound, hpassed⟩ := ih hpop
      refine ⟨c :: passed, rest, rfl, rfl, hfound, ?_⟩
      intro d hd
      rcases List.mem_cons.1 hd with rfl | hd
      · simpa using htest
      · exact hpassed d hd

theorem popFirst_some {test : Block → Bool} (h : popFirst test bs = some (b, others)) :
    test b = true ∧ bs.Perm (b :: others) := by
  obtain ⟨passed, rest, rfl, rfl, htest, -⟩ := popFirst_split h
  exact ⟨htest, List.perm_middle⟩

theorem popFirst_none {test : Block → Bool} (h : popFirst test bs = none) :
    ∀ b ∈ bs, test b = false := by
  induction bs with
  | nil => exact fun b hb => absurd hb List.not_mem_nil
  | cons c bs ih =>
    rw [popFirst] at h
    split at h
    · cases h
    · rename_i htest
      intro b hb
      rcases List.mem_cons.1 hb with rfl | hb
      · simpa using htest
      · exact ih (Option.map_eq_none_iff.1 h) b hb

/-- What `popBackwards` takes holds the request, and the block that comes
next in its direction does not. -/
theorem popBackwards_split {requiredSize : ℕ}
    (h : popBackwards requiredSize bs = some (b, others)) :
    ∃ passed rest, bs = passed ++ b :: rest ∧ others = passed ++ rest ∧ requiredSize ≤ b.size ∧
      ∀ prev ∈ rest.head?, prev.size < requiredSize := by
  induction bs generalizing others with
  | nil => cases h
  | cons c bs ih =>
    rw [popBackwards] at h
    split at h
    · rename_i htest
      injection h with h
      injection h with hb hothers
      subst hb hothers
      exact ⟨[], bs, rfl, rfl, htest⟩
    · obtain ⟨⟨found, others'⟩, hpop, heq⟩ := Option.map_eq_some_iff.1 h
      injection heq with hb hothers
      subst hb hothers
      obtain ⟨passed, rest, rfl, rfl, hfound⟩ := ih hpop
      exact ⟨c :: passed, rest, rfl, rfl, hfound⟩

/-- The backward search misses nothing: the block at the head of the free
list has no `prev`, and a block that holds the request is passed only for
a `prev` that does. -/
theorem popBackwards_none {requiredSize : ℕ} (h : popBackwards requiredSize bs = none) :
    ∀ b ∈ bs, b.size < requiredSize := by
  induction bs with
  | nil => exact fun b hb => absurd hb List.not_mem_nil
  | cons c bs ih =>
    rw [popBackwards] at h
    split at h
    · cases h
    · rename_i htest
      have hrest := ih (Option.map_eq_none_iff.1 h)
      intro b hb
      rcases List.mem_cons.1 hb with rfl | hb
      · by_contra hge
        exact htest ⟨not_lt.1 hge, fun prev hprev => hrest prev (List.mem_of_mem_head? hprev)⟩
      · exact hrest b hb

/-- **The search takes a block that holds the request**, one whose `prev`
does not or is missing, in either direction. -/
theorem search_split {requiredSize : ℕ} (h : search T requiredSize bs = some (b, others)) :
    ∃ before after, bs = before ++ b :: after ∧ others = before ++ after ∧
      requiredSize ≤ b.size ∧ ∀ prev ∈ before.getLast?, prev.size < requiredSize := by
  unfold search at h
  split at h
  · obtain ⟨⟨found, others'⟩, hpop, heq⟩ := Option.map_eq_some_iff.1 h
    injection heq with hb hothers
    subst hb hothers
    obtain ⟨passed, rest, hbs, rfl, hle, hprev⟩ := popBackwards_split hpop
    -- the list it went through is the free list reversed
    rw [List.reverse_eq_iff, List.reverse_append, List.reverse_cons, List.append_assoc,
      List.singleton_append] at hbs
    refine ⟨rest.reverse, passed.reverse, hbs, List.reverse_append, hle, ?_⟩
    rwa [List.getLast?_reverse]
  · obtain ⟨passed, rest, rfl, rfl, htest, hpassed⟩ := popFirst_split h
    refine ⟨passed, rest, rfl, rfl, by simpa using htest, fun prev hprev => ?_⟩
    simpa using hpassed prev (List.mem_of_getLast? hprev)

theorem search_some {requiredSize : ℕ} (h : search T requiredSize bs = some (b, others)) :
    requiredSize ≤ b.size ∧ bs.Perm (b :: others) := by
  obtain ⟨before, after, rfl, rfl, hle, -⟩ := search_split h
  exact ⟨hle, List.perm_middle⟩

/-- **And takes none only where none does.** -/
theorem search_none {requiredSize : ℕ} (h : search T requiredSize bs = none) :
    ∀ b ∈ bs, b.size < requiredSize := by
  unfold search at h
  split at h
  · exact fun b hb => popBackwards_none (Option.map_eq_none_iff.1 h) b (List.mem_reverse.2 hb)
  · intro b hb
    simpa using popFirst_none h b hb

/-! ## Merges -/

/-- The blocks of `bs'` are those of `bs` with some blocks merged into
the blocks they follow. -/
inductive Merged (T : Target) : List Block → List Block → Prop
  | perm {bs bs' : List Block} (h : bs.Perm bs') : Merged T bs bs'
  | merge {bs bs' rest : List Block} {b other : Block} (h : bs.Perm (b :: other :: rest))
      (hnext : other.addr = b.next T) (hmerged : Merged T (b.merge T other :: rest) bs') :
      Merged T bs bs'

namespace Merged

theorem of_perm (h : bs.Perm bs') (h' : Merged T bs' bs'') : Merged T bs bs'' := by
  cases h' with
  | perm hperm => exact .perm (h.trans hperm)
  | merge hperm hnext hmerged => exact .merge (h.trans hperm) hnext hmerged

theorem trans (h : Merged T bs bs') (h' : Merged T bs' bs'') : Merged T bs bs'' := by
  induction h with
  | perm hperm => exact of_perm hperm h'
  | merge hperm hnext _ ih => exact .merge hperm hnext (ih h')

end Merged

theorem searchForNext_merged (fuel : ℕ) (before after : List Block) (b : Block) :
    Merged T (before ++ b :: after) ((searchForNext T fuel before b after).1 ++
      (searchForNext T fuel before b after).2.1 :: (searchForNext T fuel before b after).2.2) := by
  induction fuel generalizing before b after with
  | zero => exact .perm (List.Perm.refl _)
  | succ fuel ih =>
    rw [searchForNext]
    split
    · rename_i other before' hpop
      obtain ⟨htest, hperm⟩ := popFirst_some hpop
      refine .merge ?_ (by simpa using htest) (.of_perm List.perm_middle.symm (ih ..))
      exact List.perm_middle.trans (((hperm.append_right after).cons b))
    · split
      · rename_i other after' hpop
        obtain ⟨htest, hperm⟩ := popFirst_some hpop
        refine .merge ?_ (by simpa using htest) (.of_perm List.perm_middle.symm (ih ..))
        exact List.perm_middle.trans (((hperm.append_left before).trans List.perm_middle).cons b)
      · exact .perm (List.Perm.refl _)

theorem mergeAdjacent_merged (fuel : ℕ) (before after : List Block) :
    Merged T (before ++ after) (mergeAdjacent T fuel before after) := by
  induction fuel generalizing before after with
  | zero => exact .perm (List.Perm.refl _)
  | succ fuel ih =>
    cases after with
    | nil =>
      rw [mergeAdjacent, List.append_nil]
      exact .perm (List.Perm.refl _)
    | cons b after =>
      have hfirst := searchForNext_merged (T := T) (before.length + after.length) before after b
      rw [mergeAdjacent]
      generalize searchForNext T (before.length + after.length) before b after = found at hfirst ⊢
      obtain ⟨before', b', after'⟩ := found
      have hrest := ih (before' ++ [b']) after'
      rw [List.append_assoc, List.singleton_append] at hrest
      exact hfirst.trans hrest

/-- **A compaction merges adjacent blocks**, and nothing else. -/
theorem compact_merged (pool : MemoryPool) :
    Merged T pool.availableBlocks (compact T pool).2.availableBlocks :=
  (mergeAdjacent_merged _ [] _).trans (.perm (sortBySize_perm _).symm)

/-- No block of the list starts where one ends. -/
def NoneAdjacent (T : Target) (bs : List Block) : Prop :=
  ∀ b ∈ bs, ∀ other ∈ bs, other.addr ≠ b.next T

instance (bs : List Block) : Decidable (NoneAdjacent T bs) :=
  inferInstanceAs (Decidable (∀ b ∈ bs, ∀ other ∈ bs, _))

/-- Where no blocks are adjacent there is nothing to merge. -/
theorem Merged.perm_of_noneAdjacent (h : Merged T bs bs') (hnone : NoneAdjacent T bs) :
    bs.Perm bs' := by
  cases h with
  | perm hperm => exact hperm
  | merge hperm hnext _ =>
    exact absurd hnext (hnone _ (hperm.mem_iff.2 (by simp)) _ (hperm.mem_iff.2 (by simp)))

/-! ## `malloc` -/

/-- **The two ways of `malloc`**: a block that holds the request is taken,
or none does and the free list is at most compacted. -/
theorem malloc_cases (pool : MemoryPool) (size : ℕ) :
    (∃ block others, search T (T.requiredSize size) pool.availableBlocks = some (block, others) ∧
      malloc T pool size =
        (some (takeBlock T pool (T.requiredSize size) block others).1,
          (takeBlock T pool (T.requiredSize size) block others).2)) ∨
    (search T (T.requiredSize size) pool.availableBlocks = none ∧
      malloc T pool size = (none,
        if pool.needsCompacting = true ∧ pool.available ≥ T.requiredSize size then
          (compact T pool).2 else pool)) := by
  rw [malloc, mallocDepth]
  split
  · rename_i block others hsearch
    exact Or.inl ⟨block, others, hsearch, rfl⟩
  · rename_i hsearch
    refine Or.inr ⟨hsearch, ?_⟩
    split
    · simp only [compact]
    · rfl

end MemoryPool

end Uberos
