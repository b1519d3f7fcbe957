import Mathlib.Data.Fintype.Card
import Mathlib.Logic.Relation
import Uberos.Library.Counted
/-!
# Walks of what is linked

A walk marks a node, goes through the items of it one by one and puts each
out, after a walk of the node that the item leads to if that has not been
seen. The items of a node are its own. However they are linked, the walk
ends; it sees what can be reached, and puts out each item there once.
-/

namespace Library

variable {Node Item : Type*}

/-- What has been seen, and what has been put out. -/
structure Walk (Node Item : Type*) where
  seen : Node → Bool
  out : List Item

/-- The items of the nodes, what each leads to, and whose it is. -/
structure Linkage (Node Item : Type*) where
  items : Node → List Item
  next : Item → Option Node
  owner : Item → Node
  nodup : ∀ node, (items node).Nodup
  owner_of_mem : ∀ ⦃node item⦄, item ∈ items node → owner item = node

namespace Linkage

variable (g : Linkage Node Item)

/-- An item of the one leads to the other. -/
def Edge (node node' : Node) : Prop := ∃ item ∈ g.items node, g.next item = some node'

/-- Items lead to it, one after another. -/
def Reach : Node → Node → Prop := Relation.ReflTransGen g.Edge

/-- It can be reached from one of some. -/
def ReachFrom (roots : Set Node) (node : Node) : Prop := ∃ root ∈ roots, g.Reach root node

end Linkage

/-! ## The walk -/

variable [DecidableEq Node]

namespace Walk

/-- A node is seen. -/
def mark (w : Walk Node Item) (node : Node) : Walk Node Item :=
  { w with seen := fun other => decide (other = node) || w.seen other }

/-- An item is put out. -/
def put (w : Walk Node Item) (item : Item) : Walk Node Item := { w with out := w.out ++ [item] }

/-- Nothing has been seen. -/
def start : Walk Node Item := ⟨fun _ => false, []⟩

end Walk

namespace Linkage

variable (g : Linkage Node Item)

/-- A node that has not been seen is visited. -/
def enter (visit : Node → Walk Node Item → Option (Walk Node Item)) (node : Node)
    (w : Walk Node Item) : Option (Walk Node Item) :=
  if w.seen node then some w else visit node w

/-- An item of a node. -/
def take (visit : Node → Walk Node Item → Option (Walk Node Item)) (item : Item)
    (w : Walk Node Item) : Option (Walk Node Item) :=
  match g.next item with
  | some node => (enter visit node w).map (·.put item)
  | none => some (w.put item)

/-- **The walk from a node**, with as many nested visits as there may be. -/
def visit : ℕ → Node → Walk Node Item → Option (Walk Node Item)
  | 0, _, _ => none
  | calls + 1, node, w =>
    (g.items node).foldlM (fun w item => g.take (visit calls) item w) (w.mark node)

/-- Walks from some nodes, one after another. -/
def walk (calls : ℕ) (roots : List Node) (w : Walk Node Item) : Option (Walk Node Item) :=
  roots.foldlM (fun w root => enter (g.visit calls) root w) w

end Linkage

variable {g : Linkage Node Item} {w : Walk Node Item} {node : Node}
variable {visit : Node → Walk Node Item → Option (Walk Node Item)}

section

omit [DecidableEq Node]

theorem Linkage.enter_of_seen (h : w.seen node = true) : Linkage.enter visit node w = some w :=
  if_pos h

theorem Linkage.enter_of_unseen (h : w.seen node = false) :
    Linkage.enter visit node w = visit node w :=
  if_neg (by rw [h]; decide)

/-- An item that leads nowhere is put out. -/
theorem Linkage.take_of_none {item : Item} (h : g.next item = none) :
    g.take visit item w = some (w.put item) := by
  rw [Linkage.take, h]

/-- One that leads to a node is put out after that. -/
theorem Linkage.take_of_some {item : Item} (h : g.next item = some node) :
    g.take visit item w = (Linkage.enter visit node w).map (·.put item) := by
  rw [Linkage.take, h]

end

/-! ## It ends -/

section

variable [Fintype Node]

/-- How many nodes have not been seen. -/
def Walk.unseen (w : Walk Node Item) : ℕ :=
  (Finset.univ.filter fun node => w.seen node = false).card

theorem unseen_mark (h : w.seen node = false) : (w.mark node).unseen < w.unseen := by
  refine Finset.card_lt_card ((Finset.ssubset_iff_of_subset ?_).mpr ⟨node, ?_, ?_⟩)
  · intro other hother
    rw [Finset.mem_filter] at hother ⊢
    exact ⟨hother.1, (Bool.or_eq_false_iff.mp hother.2).2⟩
  · exact Finset.mem_filter.mpr ⟨Finset.mem_univ node, h⟩
  · intro hmem
    have hmark := (Finset.mem_filter.mp hmem).2
    rw [Walk.mark, Bool.or_eq_false_iff, decide_eq_false_iff_not] at hmark
    exact hmark.1 rfl

/-- **A visit ends** that may nest as often as there are nodes to see, and
leaves no more of them. -/
theorem exists_visit (calls : ℕ) (h : w.seen node = false) (hcalls : w.unseen ≤ calls) :
    ∃ w', g.visit calls node w = some w' ∧ w'.unseen ≤ w.unseen := by
  induction calls generalizing node w with
  | zero =>
    have hlt := unseen_mark h
    omega
  | succ calls ih =>
    have hmark := unseen_mark h
    -- what is left to see is no more than when the node was marked
    have hfold : ∃ w' : Walk Node Item, (g.items node).foldlM (fun w item => g.take (g.visit calls) item w)
        (w.mark node) = some w' ∧ w'.unseen ≤ (w.mark node).unseen := by
      refine exists_foldlM (fun w' : Walk Node Item => w'.unseen ≤ (w.mark node).unseen) (Nat.le_refl _) ?_ _
      intro s item hs
      cases hnext : g.next item with
      | none => exact ⟨s.put item, Linkage.take_of_none hnext, hs⟩
      | some next =>
        rw [Linkage.take_of_some hnext]
        cases hseen : s.seen next with
        | true => exact ⟨s.put item, by rw [Linkage.enter_of_seen hseen]; rfl, hs⟩
        | false =>
          obtain ⟨s', hvisit, hle⟩ := ih hseen (by omega)
          refine ⟨s'.put item, by rw [Linkage.enter_of_unseen hseen, hvisit]; rfl, ?_⟩
          exact Nat.le_trans hle hs
    obtain ⟨w', hvisit, hle⟩ := hfold
    exact ⟨w', hvisit, by omega⟩

/-- **A walk ends** with as many calls as there are nodes. -/
theorem exists_walk (calls : ℕ) (hcalls : Fintype.card Node ≤ calls) (roots : List Node)
    (w : Walk Node Item) : ∃ w', g.walk calls roots w = some w' := by
  have hle (w : Walk Node Item) : w.unseen ≤ calls :=
    Nat.le_trans (Finset.card_le_univ _) hcalls
  have hstep (s : Walk Node Item) (root : Node) (_ : True) :
      ∃ s', Linkage.enter (g.visit calls) root s = some s' ∧ True := by
    cases hseen : s.seen root with
    | true => exact ⟨s, Linkage.enter_of_seen hseen, trivial⟩
    | false =>
      obtain ⟨s', hvisit, -⟩ := exists_visit (g := g) calls hseen (hle s)
      exact ⟨s', by rw [Linkage.enter_of_unseen hseen, hvisit], trivial⟩
  obtain ⟨w', hwalk, -⟩ := exists_foldlM (s := w) (fun _ => True) trivial hstep roots
  exact ⟨w', hwalk⟩

end

/-! ## What it gains -/

variable {w' w'' : Walk Node Item}

/-- Seen by now, and not before. -/
def Walk.New (w w' : Walk Node Item) (node : Node) : Prop :=
  w'.seen node = true ∧ w.seen node = false

/-- **What is gained** between two points of a walk: the roots and what can
be reached from them is seen, as far as it had not been, and the items
there, and those that are done, are put out, each once. -/
structure Linkage.Gains (g : Linkage Node Item) (roots : Set Node) (done : List Item)
    (w w' : Walk Node Item) : Prop where
  mono : ∀ node, w.seen node = true → w'.seen node = true
  seen : ∀ node ∈ roots, w'.seen node = true
  closed : ∀ node node', w.New w' node → g.Edge node node' → w'.seen node' = true
  reach : ∀ node, w.New w' node → g.ReachFrom roots node
  out : ∃ new, w'.out = w.out ++ new ∧ new.Nodup ∧
    ∀ item, item ∈ new ↔ item ∈ done ∨ ∃ node, w.New w' node ∧ item ∈ g.items node

omit [DecidableEq Node] in
/-- Nothing is gained where nothing happens. -/
theorem Linkage.Gains.refl {roots : Set Node} (hroots : ∀ node ∈ roots, w.seen node = true) :
    g.Gains roots [] w w where
  mono _ h := h
  seen := hroots
  closed node _ h := absurd h.1 (by rw [h.2]; decide)
  reach node h := absurd h.1 (by rw [h.2]; decide)
  out := by
    refine ⟨[], (List.append_nil _).symm, List.nodup_nil, fun item => ?_⟩
    refine iff_of_false (List.not_mem_nil) ?_
    rintro (hmem | ⟨node, hnew, -⟩)
    · exact List.not_mem_nil hmem
    · exact absurd hnew.1 (by rw [hnew.2]; decide)

omit [DecidableEq Node] in
/-- **Gains add up**, if what is done is of nodes that had been seen. -/
theorem Linkage.Gains.trans {roots roots' : Set Node} {done done' : List Item}
    (h : g.Gains roots done w w') (h' : g.Gains roots' done' w' w'')
    (hnodup : (done ++ done').Nodup)
    (hseen : ∀ item ∈ done ++ done', w.seen (g.owner item) = true) :
    g.Gains (roots ∪ roots') (done ++ done') w w'' := by
  have hsplit (node : Node) : w.New w'' node ↔ w.New w' node ∨ w'.New w'' node := by
    constructor
    · rintro ⟨hseen'', hseen⟩
      by_cases hseen' : w'.seen node = true
      · exact Or.inl ⟨hseen', hseen⟩
      · exact Or.inr ⟨hseen'', Bool.not_eq_true _ ▸ hseen'⟩
    · rintro (hnew | hnew)
      · exact ⟨h'.mono node hnew.1, hnew.2⟩
      · refine ⟨hnew.1, Bool.not_eq_true _ ▸ fun hseen => ?_⟩
        exact absurd (h.mono node hseen) (by rw [hnew.2]; decide)
  refine ⟨fun node hnode => h'.mono node (h.mono node hnode), ?_, ?_, ?_, ?_⟩
  · rintro node (hnode | hnode)
    · exact h'.mono node (h.seen node hnode)
    · exact h'.seen node hnode
  · intro node node' hnew hedge
    rcases (hsplit node).mp hnew with hnew | hnew
    · exact h'.mono node' (h.closed node node' hnew hedge)
    · exact h'.closed node node' hnew hedge
  · intro node hnew
    rcases (hsplit node).mp hnew with hnew | hnew
    · obtain ⟨root, hroot, hreach⟩ := h.reach node hnew
      exact ⟨root, Or.inl hroot, hreach⟩
    · obtain ⟨root, hroot, hreach⟩ := h'.reach node hnew
      exact ⟨root, Or.inr hroot, hreach⟩
  · obtain ⟨new, hout, hnew, hmem⟩ := h.out
    obtain ⟨new', hout', hnew', hmem'⟩ := h'.out
    refine ⟨new ++ new', by rw [hout', hout, List.append_assoc], ?_, fun item => ?_⟩
    · refine List.nodup_append'.mpr ⟨hnew, hnew', fun item hitem hitem' => ?_⟩
      -- whose the item is had been seen or not, and where it comes twice both are said
      rcases (hmem item).mp hitem with hdone | ⟨node, hnode, hof⟩
      · have howner := hseen item (List.mem_append_left _ hdone)
        rcases (hmem' item).mp hitem' with hdone' | ⟨node', hnode', hof'⟩
        · exact (List.nodup_append'.mp hnodup).2.2 hdone hdone'
        · rw [g.owner_of_mem hof'] at howner
          exact absurd (h.mono node' howner) (by rw [hnode'.2]; decide)
      · rcases (hmem' item).mp hitem' with hdone' | ⟨node', hnode', hof'⟩
        · have howner := hseen item (List.mem_append_right _ hdone')
          rw [g.owner_of_mem hof] at howner
          exact absurd howner (by rw [hnode.2]; decide)
        · rw [← g.owner_of_mem hof', g.owner_of_mem hof] at hnode'
          exact absurd hnode.1 (by rw [hnode'.2]; decide)
    · rw [List.mem_append, List.mem_append, hmem, hmem']
      constructor
      · rintro ((hdone | ⟨node, hnode, hof⟩) | (hdone | ⟨node, hnode, hof⟩))
        · exact Or.inl (Or.inl hdone)
        · exact Or.inr ⟨node, (hsplit node).mpr (Or.inl hnode), hof⟩
        · exact Or.inl (Or.inr hdone)
        · exact Or.inr ⟨node, (hsplit node).mpr (Or.inr hnode), hof⟩
      · rintro ((hdone | hdone) | ⟨node, hnode, hof⟩)
        · exact Or.inl (Or.inl hdone)
        · exact Or.inr (Or.inl hdone)
        · rcases (hsplit node).mp hnode with hnode | hnode
          · exact Or.inl (Or.inr ⟨node, hnode, hof⟩)
          · exact Or.inr (Or.inr ⟨node, hnode, hof⟩)

omit [DecidableEq Node] in
/-- An item is put out. -/
theorem gains_put (item : Item) : g.Gains ∅ [item] w (w.put item) where
  mono _ h := h
  seen _ h := absurd h (Set.notMem_empty _)
  closed node _ h := absurd h.1 (by rw [Walk.put, h.2]; decide)
  reach node h := absurd h.1 (by rw [Walk.put, h.2]; decide)
  out := by
    refine ⟨[item], rfl, List.nodup_singleton item, fun other => ?_⟩
    constructor
    · exact Or.inl
    · rintro (hmem | ⟨node, hnew, -⟩)
      · exact hmem
      · exact absurd hnew.1 (by rw [Walk.put, hnew.2]; decide)

omit [DecidableEq Node] in
theorem gains_enter (hvisit : ∀ node w w', w.seen node = false → visit node w = some w' →
    g.Gains {node} [] w w') (h : Linkage.enter visit node w = some w') :
    g.Gains {node} [] w w' := by
  cases hseen : w.seen node with
  | false =>
    rw [Linkage.enter_of_unseen hseen] at h
    exact hvisit node w w' hseen h
  | true =>
    rw [Linkage.enter_of_seen hseen, Option.some.injEq] at h
    subst h
    refine .refl fun other hother => ?_
    rw [Set.mem_singleton_iff.mp hother]
    exact hseen

omit [DecidableEq Node] in
/-- An item of a node that has been seen gains what it leads to, and
itself. -/
theorem gains_take (hvisit : ∀ node w w', w.seen node = false → visit node w = some w' →
    g.Gains {node} [] w w') {item : Item} (hitem : w.seen (g.owner item) = true)
    (h : g.take visit item w = some w') :
    g.Gains {next | g.next item = some next} [item] w w' := by
  cases hnext : g.next item with
  | none =>
    rw [Linkage.take_of_none hnext, Option.some.injEq] at h
    subst h
    have hnone : {next : Node | (none : Option Node) = some next} = ∅ :=
      Set.eq_empty_of_forall_notMem fun next hmem => Option.some_ne_none next (Eq.symm hmem)
    rw [hnone]
    exact gains_put item
  | some next =>
    rw [Linkage.take_of_some hnext, Option.map_eq_some_iff] at h
    obtain ⟨t, henter, rfl⟩ := h
    have hone : {other : Node | some next = some other} = {next} ∪ ∅ := by
      rw [Set.union_empty]
      ext other
      exact ⟨fun heq => (Option.some.inj heq).symm, fun heq => congrArg some heq.symm⟩
    rw [hone]
    refine (gains_enter hvisit henter).trans (gains_put item) (List.nodup_singleton item) ?_
    intro other hother
    rw [List.mem_singleton.mp hother]
    exact hitem

omit [DecidableEq Node] in
/-- So do several, one after another. -/
theorem gains_items (hvisit : ∀ node w w', w.seen node = false → visit node w = some w' →
    g.Gains {node} [] w w') {items : List Item} (hnodup : items.Nodup)
    (hitems : ∀ item ∈ items, w.seen (g.owner item) = true)
    (h : items.foldlM (fun w item => g.take visit item w) w = some w') :
    g.Gains {next | ∃ item ∈ items, g.next item = some next} items w w' := by
  induction items generalizing w with
  | nil =>
    cases h
    refine .refl fun next hnext => ?_
    obtain ⟨item, hmem, -⟩ := hnext
    exact absurd hmem List.not_mem_nil
  | cons item items ih =>
    rw [List.foldlM_cons] at h
    obtain ⟨t, htake, hrest⟩ := Option.bind_eq_some_iff.mp h
    obtain ⟨hne, hnodup'⟩ := List.nodup_cons.mp hnodup
    have hfirst := gains_take hvisit (hitems item List.mem_cons_self) htake
    have hgains := ih hnodup'
      (fun other hother => hfirst.mono _ (hitems other (List.mem_cons_of_mem item hother))) hrest
    have hroots : {next | ∃ other ∈ item :: items, g.next other = some next}
        = {next | g.next item = some next} ∪ {next | ∃ other ∈ items, g.next other = some next} := by
      ext next
      simp only [List.mem_cons, exists_eq_or_imp, Set.mem_ofPred_eq, Set.mem_union]
    rw [hroots]
    exact hfirst.trans hgains hnodup hitems

/-- What the items of a node gain, the node does. -/
theorem Linkage.Gains.of_mark (hnode : w.seen node = false)
    (h : g.Gains {next | ∃ item ∈ g.items node, g.next item = some next} (g.items node)
      (w.mark node) w') : g.Gains {node} [] w w' := by
  have hmark (other : Node) : (w.mark node).seen other = true ↔
      other = node ∨ w.seen other = true := by
    rw [Walk.mark, Bool.or_eq_true, decide_eq_true_eq]
  have hself : w'.seen node = true := h.mono node ((hmark node).mpr (Or.inl rfl))
  have hnew (other : Node) : w.New w' other ↔ other = node ∨ (w.mark node).New w' other := by
    constructor
    · rintro ⟨hseen, hunseen⟩
      by_cases heq : other = node
      · exact Or.inl heq
      · refine Or.inr ⟨hseen, Bool.not_eq_true _ ▸ fun htrue => ?_⟩
        rcases (hmark other).mp htrue with hother | hother
        · exact heq hother
        · exact absurd hother (by rw [hunseen]; decide)
    · rintro (rfl | hother)
      · exact ⟨hself, hnode⟩
      · refine ⟨hother.1, Bool.not_eq_true _ ▸ fun htrue => ?_⟩
        exact absurd ((hmark other).mpr (Or.inr htrue)) (by rw [hother.2]; decide)
  refine ⟨fun other hother => h.mono other ((hmark other).mpr (Or.inr hother)), ?_, ?_, ?_, ?_⟩
  · intro other hother
    rw [Set.mem_singleton_iff.mp hother]
    exact hself
  · intro other next hother hedge
    rcases (hnew other).mp hother with rfl | hother
    · exact h.seen next hedge
    · exact h.closed other next hother hedge
  · intro other hother
    rcases (hnew other).mp hother with rfl | hother
    · exact ⟨other, rfl, Relation.ReflTransGen.refl⟩
    · obtain ⟨next, hedge, hreach⟩ := h.reach other hother
      exact ⟨node, rfl, Relation.ReflTransGen.head hedge hreach⟩
  · obtain ⟨new, hout, hnodup, hmem⟩ := h.out
    refine ⟨new, hout, hnodup, fun item => ?_⟩
    rw [hmem]
    constructor
    · rintro (hitem | ⟨other, hother, hitem⟩)
      · exact Or.inr ⟨node, (hnew node).mpr (Or.inl rfl), hitem⟩
      · exact Or.inr ⟨other, (hnew other).mpr (Or.inr hother), hitem⟩
    · rintro (hnone | ⟨other, hother, hitem⟩)
      · exact absurd hnone List.not_mem_nil
      · rcases (hnew other).mp hother with rfl | hother
        · exact Or.inl hitem
        · exact Or.inr ⟨other, hother, hitem⟩

/-- **A visit gains what can be reached** from its node. -/
theorem gains_visit (calls : ℕ) (hnode : w.seen node = false)
    (h : g.visit calls node w = some w') : g.Gains {node} [] w w' := by
  induction calls generalizing node w w' with
  | zero => cases h
  | succ calls ih =>
    refine .of_mark hnode (gains_items (fun _ _ _ => ih) (g.nodup node) ?_ h)
    intro item hitem
    rw [g.owner_of_mem hitem]
    exact Bool.or_eq_true_iff.mpr (Or.inl (decide_eq_true rfl))

theorem gains_walk {calls : ℕ} {roots : List Node} (h : g.walk calls roots w = some w') :
    g.Gains {root | root ∈ roots} [] w w' := by
  induction roots generalizing w with
  | nil =>
    cases h
    exact .refl fun root hroot => absurd hroot List.not_mem_nil
  | cons root roots ih =>
    rw [Linkage.walk, List.foldlM_cons] at h
    obtain ⟨t, henter, hrest⟩ := Option.bind_eq_some_iff.mp h
    have hfirst := gains_enter (g := g) (fun _ _ _ => gains_visit calls) henter
    have hroots : {other | other ∈ root :: roots} = {root} ∪ {other | other ∈ roots} := by
      ext other
      simp only [List.mem_cons, Set.mem_ofPred_eq, Set.mem_union, Set.mem_singleton_iff]
    rw [hroots]
    exact hfirst.trans (ih hrest) List.nodup_nil fun item hitem => absurd hitem List.not_mem_nil

/-- **A walk puts out what can be reached**: just the items of the nodes
that can be reached from its roots, each once. -/
theorem walk_start {calls : ℕ} {roots : List Node} (h : g.walk calls roots .start = some w') :
    w'.out.Nodup ∧
      ∀ item, item ∈ w'.out ↔
        ∃ node, g.ReachFrom {root | root ∈ roots} node ∧ item ∈ g.items node := by
  have hgains := gains_walk h
  have hnew (node : Node) : Walk.start.New w' node ↔ w'.seen node = true :=
    ⟨fun hnode => hnode.1, fun hnode => ⟨hnode, rfl⟩⟩
  have hseen (node : Node) : w'.seen node = true ↔ g.ReachFrom {root | root ∈ roots} node := by
    constructor
    · intro hnode
      exact hgains.reach node ((hnew node).mpr hnode)
    · rintro ⟨root, hroot, hreach⟩
      induction hreach with
      | refl => exact hgains.seen root hroot
      | tail _ hedge ih => exact hgains.closed _ _ ((hnew _).mpr ih) hedge
  obtain ⟨new, hout, hnodup, hmem⟩ := hgains.out
  have hsame : w'.out = new := hout.trans (List.nil_append new)
  rw [hsame]
  refine ⟨hnodup, fun item => ?_⟩
  rw [hmem]
  simp only [hnew, hseen, List.not_mem_nil, false_or]

end Library
