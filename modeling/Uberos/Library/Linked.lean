import Mathlib.Data.List.Nodup
import Mathlib.Data.List.Basic
import Mathlib.Data.List.Induction
/-!
# Doubly linked chains

Nodes carry a link forwards and a link backwards, kept here as two maps of
nodes. `Linked` says that the links of the nodes of a list spell the list:
the neighbours of a node are the nodes next to it, and the ends have none.
A chain depends on the links of its own nodes only, so chains of disjoint
nodes share the maps without touching each other. The rules give the links
a node joining or leaving has to write. `Follows` is the walk a reader of
the chain makes, in either direction.
-/

namespace Library

/-- The links of all nodes. -/
structure Links (α : Type*) where
  next : α → Option α
  prev : α → Option α

variable {α : Type*} {l l' : Links α} {xs ys zs : List α} {x y : α}

/-- The links of the nodes of `xs` spell `xs`. -/
def Linked (l : Links α) (xs : List α) : Prop :=
  ∀ ys x zs, xs = ys ++ x :: zs → l.next x = zs.head? ∧ l.prev x = ys.getLast?

theorem getLast?_append_cons_concat (ys zs : List α) (y z : α) :
    (ys ++ y :: (zs ++ [z])).getLast? = some z := by
  rw [← List.cons_append, ← List.append_assoc, List.getLast?_concat]

theorem linked_nil (l : Links α) : Linked l [] := fun ys x zs h => by simp at h

/-- **A chain depends on its own nodes only.** -/
theorem Linked.congr (h : Linked l xs) (hlinks : ∀ x ∈ xs, l'.next x = l.next x ∧ l'.prev x = l.prev x) :
    Linked l' xs := by
  intro ys x zs heq
  have hx : x ∈ xs := by rw [heq]; simp
  rw [(hlinks x hx).1, (hlinks x hx).2]
  exact h ys x zs heq

/-- **A node joins anywhere**: the nodes before and after it point to it,
and it to them. -/
theorem Linked.insert (h : Linked l (ys ++ zs)) (hnodup : (ys ++ zs).Nodup)
    (hnext : l'.next x = zs.head?) (hprev : l'.prev x = ys.getLast?)
    (hlast : ∀ y, ys.getLast? = some y → l'.next y = some x)
    (hhead : ∀ z, zs.head? = some z → l'.prev z = some x)
    (hkeepNext : ∀ y ∈ ys ++ zs, ys.getLast? ≠ some y → l'.next y = l.next y)
    (hkeepPrev : ∀ y ∈ ys ++ zs, zs.head? ≠ some y → l'.prev y = l.prev y) :
    Linked l' (ys ++ x :: zs) := by
  intro as a bs heq
  have hdisjoint : ∀ b ∈ ys, b ∉ zs := fun b hb hb' =>
    (List.nodup_append.1 hnodup).2.2 b hb b hb' rfl
  rcases List.append_eq_append_iff.1 heq with ⟨cs, rfl, hcs⟩ | ⟨cs, rfl, hcs⟩
  · rcases cs with - | ⟨c, cs⟩
    · -- it is the node that joins
      obtain ⟨rfl, rfl⟩ := List.cons_eq_cons.1 hcs
      rw [List.append_nil]
      exact ⟨hnext, hprev⟩
    · -- the node stands among `zs`
      obtain ⟨rfl, rfl⟩ := List.cons_eq_cons.1 hcs
      have ha : a ∈ cs ++ a :: bs := by simp
      have hmem : a ∈ ys ++ (cs ++ a :: bs) := List.mem_append_right _ ha
      obtain ⟨hn, hp⟩ := h (ys ++ cs) a bs (by simp)
      refine ⟨?_, ?_⟩
      · rw [hkeepNext a hmem fun hcon => hdisjoint a (List.mem_of_mem_getLast? hcon) ha, hn]
      · rcases cs with - | ⟨c, cs⟩
        · rw [hhead a rfl]
          simp
        · have hne : (c :: cs ++ a :: bs).head? ≠ some a := by
            rintro hcon
            obtain rfl : c = a := by simpa using hcon
            simp [List.nodup_append] at hnodup
          rw [hkeepPrev a hmem hne, hp]
          simp [List.getLast?_append]
  · rcases cs with - | ⟨c, cs⟩
    · -- it is the node that joins
      obtain ⟨rfl, rfl⟩ := List.cons_eq_cons.1 hcs
      rw [List.append_nil] at hprev
      exact ⟨hnext, hprev⟩
    · -- the node stands among `ys`
      obtain ⟨rfl, rfl⟩ := List.cons_eq_cons.1 hcs
      have ha : a ∈ as ++ a :: cs := by simp
      have hmem : a ∈ as ++ a :: cs ++ zs := List.mem_append_left _ ha
      obtain ⟨hn, hp⟩ := h as a (cs ++ zs) (by simp)
      refine ⟨?_, ?_⟩
      · rcases List.eq_nil_or_concat cs with rfl | ⟨cs, c, rfl⟩
        · rw [hlast a (by simp)]
          rfl
        · rw [List.concat_eq_append] at hn hnodup hkeepNext hmem ⊢
          have hend : (as ++ a :: (cs ++ [c])).getLast? ≠ some a := by
            rw [getLast?_append_cons_concat]
            rintro hcon
            obtain rfl := Option.some.inj hcon
            simp [List.nodup_append] at hnodup
          rw [hkeepNext a hmem hend, hn]
          rcases cs with - | ⟨d, cs⟩ <;> simp
      · rw [hkeepPrev a hmem fun hcon => hdisjoint a ha (List.mem_of_mem_head? hcon), hp]

/-- **A node joins at the end**: it points back to the last node and the
last node to it. -/
theorem Linked.concat (h : Linked l xs) (hnodup : xs.Nodup)
    (hnext : l'.next x = none) (hprev : l'.prev x = xs.getLast?)
    (hlast : ∀ y, xs.getLast? = some y → l'.next y = some x)
    (hkeep : ∀ y ∈ xs, (xs.getLast? ≠ some y → l'.next y = l.next y) ∧ l'.prev y = l.prev y) :
    Linked l' (xs ++ [x]) := by
  have hchain : Linked l (xs ++ []) := by rwa [List.append_nil]
  have hmem : ∀ y, y ∈ xs ++ [] → y ∈ xs := fun y hy => by rwa [List.append_nil] at hy
  refine hchain.insert (by rwa [List.append_nil]) hnext hprev hlast (fun z hz => ?_)
    (fun y hy hend => (hkeep y (hmem y hy)).1 hend) fun y hy _ => (hkeep y (hmem y hy)).2
  exact absurd hz (Option.some_ne_none z).symm

/-- **A node leaves**: its neighbours point past it to each other. -/
theorem Linked.remove (h : Linked l (ys ++ x :: zs)) (hnodup : (ys ++ x :: zs).Nodup)
    (hlast : ∀ y, ys.getLast? = some y → l'.next y = zs.head?)
    (hhead : ∀ z, zs.head? = some z → l'.prev z = ys.getLast?)
    (hnext : ∀ y ∈ ys ++ zs, ys.getLast? ≠ some y → l'.next y = l.next y)
    (hprev : ∀ y ∈ ys ++ zs, zs.head? ≠ some y → l'.prev y = l.prev y) :
    Linked l' (ys ++ zs) := by
  intro as a bs heq
  have hmem : a ∈ ys ++ zs := by rw [heq]; simp
  have hdisjoint : ∀ b, b ∈ ys → b ∉ zs := by
    intro b hb hb'
    rw [List.nodup_append] at hnodup
    exact hnodup.2.2 b hb b (List.mem_cons_of_mem _ hb') rfl
  have hfirst : ∀ b, zs.head? = some b → b ∈ zs := fun b hb => List.mem_of_mem_head? hb
  have hfinal : ∀ b, ys.getLast? = some b → b ∈ ys := fun b hb => List.mem_of_mem_getLast? hb
  rcases List.append_eq_append_iff.1 heq with ⟨cs, rfl, hcs⟩ | ⟨cs, rfl, hcs⟩
  · -- the node stands among `zs`
    have ha : a ∈ zs := by rw [hcs]; simp
    obtain ⟨hn, hp⟩ := h (ys ++ x :: cs) a bs (by rw [hcs]; simp)
    rw [hnext a hmem fun hcon => hdisjoint a (hfinal a hcon) ha, hn]
    refine ⟨rfl, ?_⟩
    rcases cs with - | ⟨c, cs⟩
    · rw [List.append_nil]
      exact hhead a (by rw [hcs]; rfl)
    · have hne : zs.head? ≠ some a := by
        rw [hcs]
        intro hcon
        injection hcon with hcon
        subst hcon
        rw [hcs] at hnodup
        simp [List.nodup_append] at hnodup
      rw [hprev a hmem hne, hp]
      simp [List.getLast?_append]
  · rcases cs with - | ⟨c, cs⟩
    · -- the node is the first of `zs`
      rw [List.nil_append] at hcs
      have ha : a ∈ zs := by rw [← hcs]; simp
      obtain ⟨hn, -⟩ := h (as ++ [x]) a bs (by rw [← hcs]; simp)
      rw [List.append_nil] at hfinal hdisjoint hhead hmem hnext
      rw [hnext a hmem fun hcon => hdisjoint a (hfinal a hcon) ha, hn]
      exact ⟨rfl, hhead a (by rw [← hcs]; rfl)⟩
    · -- the node stands among `ys`
      rw [List.cons_append] at hcs
      injection hcs with hac hcs
      subst hac hcs
      have ha : a ∈ as ++ a :: cs := by simp
      obtain ⟨hn, hp⟩ := h as a (cs ++ x :: zs) (by simp)
      rw [hprev a hmem fun hcon => hdisjoint a ha (hfirst a hcon), hp]
      refine ⟨?_, rfl⟩
      rcases List.eq_nil_or_concat cs with rfl | ⟨cs, c, rfl⟩
      · rw [hlast a (by simp)]
        rfl
      · rw [List.concat_eq_append] at hn hnext hnodup hmem ⊢
        have hne : a ≠ c := by
          rintro rfl
          simp [List.nodup_append] at hnodup
        have hend : (as ++ a :: (cs ++ [c])).getLast? ≠ some a := by
          rw [getLast?_append_cons_concat]
          exact fun hcon => hne (Option.some.inj hcon).symm
        rw [hnext a hmem hend, hn]
        rcases cs with - | ⟨d, cs⟩ <;> simp

/-! ## Walks -/

/-- Following the links from `start` visits `xs` and ends. -/
def Follows (link : α → Option α) : Option α → List α → Prop
  | start, [] => start = none
  | start, x :: xs => start = some x ∧ Follows link (link x) xs

instance Follows.decidable [DecidableEq α] (link : α → Option α) :
    ∀ (start : Option α) (xs : List α), Decidable (Follows link start xs)
  | start, [] => inferInstanceAs (Decidable (start = none))
  | start, x :: xs =>
    have := Follows.decidable link (link x) xs
    inferInstanceAs (Decidable (start = some x ∧ Follows link (link x) xs))

/-- A walk visits one list. -/
theorem Follows.unique {link : α → Option α} {start : Option α} (h : Follows link start xs)
    (h' : Follows link start ys) : xs = ys := by
  induction xs generalizing start ys with
  | nil =>
    cases ys with
    | nil => rfl
    | cons y ys => exact absurd (h'.1.symm.trans h) (Option.some_ne_none y)
  | cons x xs ih =>
    cases ys with
    | nil => exact absurd (h.1.symm.trans h') (Option.some_ne_none x)
    | cons y ys =>
      obtain rfl : x = y := Option.some.inj (h.1.symm.trans h'.1)
      rw [ih h.2 h'.2]

/-- **A chain is walked from its first node to its last**, -/
theorem Linked.follows_next (h : Linked l xs) : Follows l.next xs.head? xs := by
  suffices hrest : ∀ zs ys, xs = ys ++ zs → Follows l.next zs.head? zs from hrest xs [] rfl
  intro zs
  induction zs with
  | nil => exact fun _ _ => rfl
  | cons z zs ih =>
    intro ys hxs
    refine ⟨rfl, ?_⟩
    rw [(h ys z zs hxs).1]
    exact ih (ys ++ [z]) (by rw [hxs, List.append_assoc, List.singleton_append])

/-- and back. -/
theorem Linked.follows_prev (h : Linked l xs) : Follows l.prev xs.getLast? xs.reverse := by
  suffices hrest : ∀ ys zs, xs = ys ++ zs → Follows l.prev ys.getLast? ys.reverse from
    hrest xs [] (List.append_nil xs).symm
  intro ys
  induction ys using List.reverseRecOn with
  | nil => exact fun _ _ => rfl
  | append_singleton ys y ih =>
    intro zs hxs
    rw [List.getLast?_concat, List.reverse_concat]
    refine ⟨rfl, ?_⟩
    rw [(h ys y zs (by rw [hxs, List.append_assoc, List.singleton_append])).2]
    exact ih (y :: zs) (by rw [hxs, List.append_assoc, List.singleton_append])

end Library
