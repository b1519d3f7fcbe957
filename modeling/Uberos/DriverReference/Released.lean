import Uberos.DriverReference.Registered
import Mathlib.Data.Finset.Card
/-!
# What a stop leaves of a driver's references

`stop_driver` should clear the driver of every reference to it, run each
callback once, and leave the driver's list empty. The list it leaves is
empty only if it was: `clear` keeps the ends, and where the callbacks have
taken the items off before, its size still counts those whose driver
`terminate` had cleared by then, as these are not popped any more.
-/

namespace Uberos

namespace References

open Library LList

variable {Ref Driver Callback Data : Type*} [DecidableEq Ref] [DecidableEq Driver]
variable {s s' s'' : References Ref Driver Callback Data} {r : Ref} {d : Driver}
variable {op : Op Ref Driver Callback Data} {invoke : Invoke Ref Driver Callback Data}

/-! ## What it is for -/

variable (invoke) in
/-- The callbacks the loop of `stop_driver` invokes, with the reference and
the data of each. -/
def invocations : ℕ → Option Ref → References Ref Driver Callback Data →
    List (Ref × Callback × Data)
  | _, none, _ => []
  | 0, some _, _ => []
  | turns + 1, some reference, s =>
    let rest :=
      match s.terminate reference invoke with
      | some s => invocations turns (s.links.next reference) s
      | none => []
    if s.driver reference = none then rest
    else
      match s.onTerminated reference with
      | some onTerminated => (reference, onTerminated, s.onTerminatedData reference) :: rest
      | none => rest

variable (invoke) in
/-- Those `stop_driver` invokes. -/
def stopInvocations (s : References Ref Driver Callback Data) (d : Driver) (turns : ℕ) :
    List (Ref × Callback × Data) :=
  if s.active d = false then []
  else
    invocations invoke turns (s.references d).head
      { s with active := Function.update s.active d false }

/-- The callbacks of some references that have one. -/
def callbacks (s : References Ref Driver Callback Data) (xs : List Ref) :
    List (Ref × Callback × Data) :=
  xs.filterMap fun r => (s.onTerminated r).map fun onTerminated =>
    (r, onTerminated, s.onTerminatedData r)

/-- **The references `xs` to a driver are released**: none has a driver,
each callback was invoked once, the driver's list is empty and every list
is right. -/
structure Released (s : References Ref Driver Callback Data) (d : Driver) (xs : List Ref)
    (s' : References Ref Driver Callback Data) (invoked : List (Ref × Callback × Data)) : Prop where
  driver : ∀ r ∈ xs, s'.driver r = none
  invoked : invoked.Perm (s.callbacks xs)
  empty : Represents s'.links (s'.references d) []
  registered : Registered s'

variable (invoke) in
/-- A stop whose `_on_stop` succeeds returns, and has released them. -/
def Releases (s : References Ref Driver Callback Data) (d : Driver) (xs : List Ref) : Prop :=
  ∃ turns s', s.stopDriver invoke d true turns = some s' ∧
    Released s d xs s' (s.stopInvocations invoke d turns)

/-- Construction, destruction and reassignment. -/
def Op.IsReassignment : Op Ref Driver Callback Data → Prop
  | .construct _ _ _ _ | .destroy _ | .assign _ _ | .retarget _ _ | .setOnTerminated _ _ _ => True
  | .copyConstruct _ _ | .start _ | .stop _ _ _ => False

variable (invoke) in
/-- **A callback destroys and reassigns references**, and constructs new
ones, however often, and returns. -/
def Reassigns : Prop :=
  ∀ (onTerminated : Callback) (data : Data) (s : References Ref Driver Callback Data),
    ∃ ops : List (Op Ref Driver Callback Data),
      Along (step invoke) (fun s op => op.IsReassignment ∧ Lifetime s op) s ops ∧
        invoke onTerminated data s = some (run (step invoke) s ops)

/-! ## Sizes -/

/-- The size of a driver's list is that many more than there are
references to it. -/
def Exceeds (d : Driver) (extra : ℕ) (s : References Ref Driver Callback Data) : Prop :=
  ∃ referring : Finset Ref, (∀ r, r ∈ referring ↔ s.owner r = some d) ∧
    (s.references d).size % 2 ^ 32 = (referring.card + extra) % 2 ^ 32

/-- **One reference comes to belong elsewhere.** -/
theorem Exceeds.change {extra extra' : ℕ} (h : Exceeds d extra s) (owner : Option Driver)
    (howner : s'.owner = Function.update s.owner r owner)
    (hsize : ((s'.references d).size + (if s.owner r = some d then 1 else 0) + extra) % 2 ^ 32 =
      ((s.references d).size + (if owner = some d then 1 else 0) + extra') % 2 ^ 32) :
    Exceeds d extra' s' := by
  obtain ⟨referring, hmem, hreferring⟩ := h
  refine ⟨if owner = some d then insert r (referring.erase r) else referring.erase r,
    fun x => ?_, ?_⟩
  · rw [howner]
    by_cases hx : x = r
    · subst hx
      rw [Function.update_self]
      split <;> simp [*]
    · rw [Function.update_of_ne hx, ← hmem]
      split <;> simp [hx]
  · have hold : (referring.erase r).card + (if s.owner r = some d then 1 else 0) = referring.card := by
      by_cases hr : s.owner r = some d
      · rw [if_pos hr, Finset.card_erase_add_one ((hmem r).2 hr)]
      · rw [if_neg hr, Finset.erase_eq_of_notMem fun hcon => hr ((hmem r).1 hcon), Nat.add_zero]
    have hnew : (if owner = some d then insert r (referring.erase r) else referring.erase r).card =
        (referring.erase r).card + (if owner = some d then 1 else 0) := by
      split
      · rw [Finset.card_insert_of_notMem (Finset.notMem_erase r referring)]
      · rfl
    rw [hnew]
    omega

theorem popReference_size (s : References Ref Driver Callback Data) (r : Ref) (d : Driver) :
    (((s.popReference r).references d).size + if s.driver r = some d then 1 else 0) % 2 ^ 32 =
      (s.references d).size % 2 ^ 32 := by
  rw [popReference]
  split
  · rename_i e he
    by_cases hed : e = d
    · subst hed
      simp only [he, LList.pop, Function.update_self, if_true]
      omega
    · have hde : some e ≠ some d := fun hcon => hed (Option.some.inj hcon)
      simp only [he, if_neg hde, Function.update_of_ne (Ne.symm hed), Nat.add_zero]
  · rename_i hnone
    rw [hnone, if_neg (Option.some_ne_none d).symm, Nat.add_zero]

theorem pushReference_size (s : References Ref Driver Callback Data) (r : Ref) (d : Driver) :
    ((s.pushReference r).references d).size % 2 ^ 32 =
      ((s.references d).size + if s.driver r = some d then 1 else 0) % 2 ^ 32 := by
  rw [pushReference]
  split
  · rename_i e he
    by_cases hed : e = d
    · subst hed
      simp only [he, LList.pushBack, Function.update_self, if_true]
      omega
    · have hde : some e ≠ some d := fun hcon => hed (Option.some.inj hcon)
      simp only [he, if_neg hde, Function.update_of_ne (Ne.symm hed), Nat.add_zero]
  · rename_i hnone
    rw [hnone, if_neg (Option.some_ne_none d).symm, Nat.add_zero]

theorem popReference_driver : (s.popReference r).driver = s.driver := by
  rw [popReference]
  split <;> rfl

theorem pushReference_driver : (s.pushReference r).driver = s.driver := by
  rw [pushReference]
  split <;> rfl

theorem pushReference_live : (s.pushReference r).live = s.live := by
  rw [pushReference]
  split <;> rfl

omit [DecidableEq Driver] in
/-- Who belongs where, of a reference whose driver or life has changed. -/
theorem owner_update (owner : Option Driver) (hr : s'.owner r = owner)
    (hothers : ∀ x ≠ r, s'.driver x = s.driver x ∧ s'.live x = s.live x) :
    s'.owner = Function.update s.owner r owner := by
  funext x
  by_cases hx : x = r
  · rw [hx, Function.update_self, hr]
  · rw [Function.update_of_ne hx, References.owner, References.owner, (hothers x hx).1,
      (hothers x hx).2]

/-- A reference goes from list to list. -/
theorem Exceeds.move {extra : ℕ} (h : Exceeds d extra s) (hlive : s.live r = true)
    (set : Option Driver) :
    Exceeds d extra (((s.popReference r).setDriver r set).pushReference r) := by
  have hdriver : ((s.popReference r).setDriver r set).driver r = set := Function.update_self ..
  have howner : (((s.popReference r).setDriver r set).pushReference r).owner r = set := by
    rw [owner_of_live, pushReference_driver, hdriver]
    rw [pushReference_live]
    show (s.popReference r).live r = true
    rw [popReference_live, hlive]
  refine h.change set (owner_update set howner fun x hx => ⟨?_, ?_⟩) ?_
  · rw [pushReference_driver]
    show Function.update (s.popReference r).driver r set x = s.driver x
    rw [Function.update_of_ne hx, popReference_driver]
  · rw [pushReference_live]
    show (s.popReference r).live x = s.live x
    rw [popReference_live]
  · have hpush := pushReference_size ((s.popReference r).setDriver r set) r d
    have hpop := popReference_size s r d
    rw [hdriver] at hpush
    rw [owner_of_live hlive]
    have hsame : (((s.popReference r).setDriver r set).references d).size =
        ((s.popReference r).references d).size := rfl
    omega

/-- **A reassignment keeps size and number apart as they are.** -/
theorem Exceeds.step {extra : ℕ} (h : Exceeds d extra s) (hlifetime : Lifetime s op)
    (hop : op.IsReassignment) : Exceeds d extra (step invoke s op) := by
  cases op with
  | construct r driver onTerminated data =>
    have hinitialised : (s.initialise r driver onTerminated data).driver r = driver :=
      Function.update_self ..
    have howner : (s.construct r driver onTerminated data).owner r = driver := by
      rw [construct, owner_of_live, pushReference_driver, hinitialised]
      rw [pushReference_live]
      exact initialise_live ..
    refine h.change driver (owner_update driver howner fun x hx => ⟨?_, ?_⟩) ?_
    · show ((s.initialise r driver onTerminated data).pushReference r).driver x = s.driver x
      rw [pushReference_driver]
      exact Function.update_of_ne hx _ _
    · show ((s.initialise r driver onTerminated data).pushReference r).live x = s.live x
      rw [pushReference_live]
      exact Function.update_of_ne hx _ _
    · -- the owners and the size gain it together
      have hpush := pushReference_size (s.initialise r driver onTerminated data) r d
      rw [hinitialised] at hpush
      rw [owner_of_dead hlifetime, if_neg (Option.some_ne_none d).symm]
      have hbefore : ((s.initialise r driver onTerminated data).references d).size =
          (s.references d).size := rfl
      have hafter : ((References.step invoke s (.construct r driver onTerminated data)).references
          d).size = (((s.initialise r driver onTerminated data).pushReference r).references d).size :=
        rfl
      rw [hafter]
      omega
  | destroy r =>
    have howner : (s.destroy r).owner r = none := by
      refine owner_of_dead ?_
      simp only [References.destroy, Function.update_self]
    refine h.change none (owner_update none howner fun x hx => ⟨?_, ?_⟩) ?_
    · show (s.popReference r).driver x = s.driver x
      rw [popReference_driver]
    · show Function.update (s.popReference r).live r false x = s.live x
      rw [Function.update_of_ne hx, popReference_live]
    · -- and lose it together
      have hpop := popReference_size s r d
      have hlive : s.live r = true := hlifetime
      have hafter : ((References.step invoke s (.destroy r)).references d).size =
          ((s.popReference r).references d).size := rfl
      rw [hafter, owner_of_live hlive, if_neg (Option.some_ne_none d).symm]
      omega
  | assign r copy =>
    by_cases hne : s.driver r ≠ s.driver copy
    · simp only [References.step, assign, if_pos hne]
      exact h.move hlifetime.1 _
    · simp only [References.step, assign, if_neg hne]
      exact h
  | retarget r set =>
    by_cases heq : set = s.driver r
    · simp only [References.step, retarget, if_pos heq]
      exact h
    · simp only [References.step, retarget, if_neg heq]
      exact h.move hlifetime set
  | setOnTerminated r onTerminated data => exact h
  | copyConstruct r copy => exact absurd hop id
  | start d => exact absurd hop id
  | stop d onStop turns => exact absurd hop id

/-! ## Stopping -/

/-- **Where `terminate` clears a driver**, the reference is not on that
driver's list any more, but its size is as it was. -/
theorem Exceeds.terminate {extra : ℕ} (hinvoke : Reassigns invoke) (h : Exceeds d extra s)
    (hdriver : s.driver r ≠ none) (hreturns : s.terminate r invoke = some s') :
    (s.onTerminated r).isSome = true ∧
      Exceeds d (extra + if s.owner r = some d then 1 else 0) s' := by
  rw [References.terminate, if_neg hdriver] at hreturns
  obtain ⟨onTerminated, hsome, hreturns⟩ := Option.bind_eq_some_iff.1 hreturns
  obtain ⟨ops, hops, hinvoked⟩ := hinvoke onTerminated ((s.setDriver r none).onTerminatedData r)
    (s.setDriver r none)
  obtain rfl := Option.some.inj (hinvoked.symm.trans hreturns)
  have hsame : (s.setDriver r none).onTerminated r = s.onTerminated r := rfl
  refine ⟨by rw [← hsame, hsome]; rfl, ?_⟩
  refine run_invariant hops ?_ fun s op hs hop => hs.step hop.2 hop.1
  refine h.change none (owner_update none ?_ fun x hx => ⟨Function.update_of_ne hx _ _, rfl⟩) ?_
  · show (if s.live r then Function.update s.driver r none r else none) = none
    rw [Function.update_self, ite_self]
  · have hreferences : ((s.setDriver r none).references d).size = (s.references d).size := rfl
    rw [hreferences, if_neg (Option.some_ne_none d).symm]
    omega

omit [DecidableEq Ref] [DecidableEq Driver] in
theorem driver_of_owner (h : s.owner r = some d) : s.driver r = some d := by
  rw [References.owner] at h
  split at h
  · exact h
  · cases h

/-- **The loop of `stop_driver`** adds no more to the excess than it
invokes callbacks, and one at least where it starts at a reference to the
driver. -/
theorem Exceeds.terminateAll {turns extra : ℕ} {start : Option Ref} (hinvoke : Reassigns invoke)
    (h : Exceeds d extra s) (hreturns : References.terminateAll invoke turns start s = some s') :
    ∃ more ≤ (invocations invoke turns start s).length, Exceeds d (extra + more) s' ∧
      ∀ reference ∈ start, s.owner reference = some d → 0 < more := by
  induction turns generalizing start s extra with
  | zero =>
    cases start with
    | none =>
      obtain rfl := Option.some.inj hreturns
      exact ⟨0, Nat.zero_le _, h, fun _ hmem => by cases hmem⟩
    | some reference => cases hreturns
  | succ turns ih =>
    cases start with
    | none =>
      obtain rfl := Option.some.inj hreturns
      exact ⟨0, Nat.zero_le _, h, fun _ hmem => by cases hmem⟩
    | some reference =>
      rw [References.terminateAll] at hreturns
      obtain ⟨next, hnext, hrest⟩ := Option.bind_eq_some_iff.1 hreturns
      by_cases hdriver : s.driver reference = none
      · -- it refers to nothing, and nothing is invoked
        have hsame : next = s := by
          rw [References.terminate, if_pos hdriver] at hnext
          exact (Option.some.inj hnext).symm
        subst hsame
        obtain ⟨more, hmore, hexceeds, -⟩ := ih h hrest
        refine ⟨more, ?_, hexceeds, fun _ hmem howner => ?_⟩
        · rw [invocations, hnext]
          simpa only [hdriver, if_true] using hmore
        · obtain rfl := Option.some.inj hmem
          rw [driver_of_owner howner] at hdriver
          cases hdriver
      · -- its driver is cleared, and the callback may reassign what it likes
        obtain ⟨hisSome, hterminated⟩ := h.terminate hinvoke hdriver hnext
        obtain ⟨onTerminated, hsome⟩ := Option.isSome_iff_exists.1 hisSome
        obtain ⟨more, hmore, hexceeds, -⟩ := ih hterminated hrest
        refine ⟨(if s.owner reference = some d then 1 else 0) + more, ?_, ?_, fun _ hmem howner => ?_⟩
        · rw [invocations, hnext]
          simp only [hdriver, if_false, hsome, List.length_cons]
          split <;> omega
        · rwa [← Nat.add_assoc]
        · obtain rfl := Option.some.inj hmem
          rw [if_pos howner]
          omega

/-- `clear` changes nothing of a list that has no head, and keeps the head
of one that has. -/
theorem clear_head {turns : ℕ} (hreturns : s.clear d turns = some s') :
    s' = s ∧ (s.references d).head = none ∨
      (s'.references d).head = (s.references d).head ∧ (s.references d).head ≠ none := by
  rw [References.clear] at hreturns
  split at hreturns
  · rename_i hnone
    exact Or.inl ⟨(Option.some.inj hreturns).symm, hnone⟩
  · rename_i head hhead
    obtain ⟨links, -, rfl⟩ := Option.map_eq_some_iff.1 hreturns
    refine Or.inr ⟨?_, by rw [hhead]; exact Option.some_ne_none head⟩
    simp only [Function.update_self]

omit [DecidableEq Ref] [DecidableEq Driver] in
/-- Nothing refers to a driver whose list is empty. -/
theorem Registered.owner_ne (h : Registered s) (hempty : Represents s.links (s.references d) [])
    (r : Ref) : s.owner r ≠ some d := by
  obtain ⟨contents, hfamily, hmem⟩ := h
  rw [Ne, ← hmem, (hfamily.represents d).unique hempty]
  exact List.not_mem_nil

/-- **A driver with references is not stopped as claimed.** -/
theorem Registered.not_releases (h : Registered s) (hinvoke : Reassigns invoke) {reference : Ref}
    {xs : List Ref} (hxs : Represents s.links (s.references d) (reference :: xs))
    (hlength : (reference :: xs).length < 2 ^ 32) : ¬ Releases invoke s d (reference :: xs) := by
  rintro ⟨turns, s', hreturns, hreleased⟩
  obtain ⟨contents, hfamily, hmem⟩ := h
  obtain hcontents : contents d = reference :: xs := (hfamily.represents d).unique hxs
  have hreference : s.owner reference = some d := (hmem reference d).1 (hcontents ▸ List.mem_cons_self)
  have hcount : (s.stopInvocations invoke d turns).length < 2 ^ 32 := by
    rw [hreleased.invoked.length_eq]
    exact (List.length_filterMap_le _ _).trans_lt hlength
  rw [stopDriver] at hreturns
  by_cases hactive : s.active d = false
  · -- nothing was done
    rw [if_pos hactive] at hreturns
    obtain rfl := Option.some.inj hreturns
    have hnone := hreleased.driver reference List.mem_cons_self
    rw [driver_of_owner hreference] at hnone
    cases hnone
  · rw [if_neg hactive, if_neg (by decide)] at hreturns
    obtain ⟨after, hafter, hclear⟩ := Option.bind_eq_some_iff.1 hreturns
    rw [stopInvocations, if_neg hactive] at hcount
    have hhead : (s.references d).head = some reference := hxs.head
    rcases clear_head hclear with ⟨rfl, -⟩ | ⟨hkept, hne⟩
    · -- the size counts every reference whose driver was cleared
      have hbefore : Exceeds d 0 { s with active := Function.update s.active d false } := by
        refine ⟨⟨contents d, (hfamily.represents d).nodup⟩, fun r => hmem r d, ?_⟩
        rw [(hfamily.represents d).size, Nat.mod_mod]
        rfl
      obtain ⟨more, hmore, hexceeds, hpositive⟩ := hbefore.terminateAll hinvoke hafter
      have hone : 0 < more := hpositive reference hhead hreference
      obtain ⟨referring, hreferring, hsize⟩ := hexceeds
      have hnobody : referring = ∅ := Finset.eq_empty_of_forall_notMem fun r hr =>
        hreleased.registered.owner_ne hreleased.empty r ((hreferring r).1 hr)
      have hzero : (s'.references d).size = 0 := hreleased.empty.size
      rw [hzero, hnobody, Finset.card_empty] at hsize
      dsimp only at hmore
      omega
    · rw [← hkept, hreleased.empty.head] at hne
      exact hne rfl

/-- **A stop, whose callbacks may reassign references, releases those to
its driver exactly when there are none.** -/
theorem releases_iff (hinvoke : Reassigns invoke) (h : Registered s) {xs : List Ref}
    (hxs : Represents s.links (s.references d) xs) (hlength : xs.length < 2 ^ 32) :
    Releases invoke s d xs ↔ xs = [] := by
  cases xs with
  | cons reference xs =>
    exact iff_of_false (h.not_releases hinvoke hxs hlength) (List.cons_ne_nil reference xs)
  | nil =>
    refine iff_of_true ?_ rfl
    have hhead : (s.references d).head = none := hxs.head
    by_cases hactive : s.active d = true
    · refine ⟨0, _, stopDriver_of_empty hhead hactive rfl, ?_⟩
      refine ⟨fun r hr => absurd hr List.not_mem_nil, ?_, hxs, h.congr rfl rfl rfl rfl⟩
      rw [stopInvocations, hactive, if_neg (by decide), hhead]
      exact List.Perm.nil
    · simp only [Bool.not_eq_true] at hactive
      refine ⟨0, s, by rw [stopDriver, if_pos hactive], ?_⟩
      refine ⟨fun r hr => absurd hr List.not_mem_nil, ?_, hxs, h⟩
      rw [stopInvocations, if_pos hactive]
      exact List.Perm.nil

/-- A callback that destroys the reference its data names. -/
def destroying : Invoke ℕ ℕ Unit ℕ := fun _ data s =>
  if s.live data = true then some (s.destroy data) else some s

theorem reassigns_destroying : Reassigns destroying := by
  intro onTerminated data s
  by_cases hlive : s.live data = true
  · exact ⟨[.destroy data], ⟨⟨trivial, hlive⟩, trivial⟩, if_pos hlive⟩
  · exact ⟨[], trivial, if_neg hlive⟩

/-- Reference 0, whose callback destroys reference 1, and that one. -/
def referred : References ℕ ℕ Unit ℕ :=
  let s := new ⟨fun _ => none, fun _ => none⟩ (fun _ => 0) fun _ => true
  (s.construct 0 (some 0) (some ()) 1).construct 1 (some 0) none 0

theorem registered_referred : Registered referred := by
  have hnew : Registered (new ⟨fun _ => none, fun _ => none⟩ (fun _ => 0) fun _ => true :
      References ℕ ℕ Unit ℕ) := registered_new _ _ _
  have hzero : Registered (step destroying (new ⟨fun _ => none, fun _ => none⟩ (fun _ => 0)
      fun _ => true) (.construct 0 (some 0) (some ()) 1)) := hnew.step rfl trivial
  exact (hzero.step rfl trivial : Registered (step destroying _ (.construct 1 (some 0) none 0)))

theorem represents_referred : Represents referred.links (referred.references 0) [0, 1] := by
  obtain ⟨contents, hfamily, hmem⟩ := registered_referred
  have hrepresents := hfamily.represents 0
  have hfollows : Follows referred.links.next (referred.references 0).head (contents 0) :=
    hrepresents.head ▸ hrepresents.linked.follows_next
  have hwalk : Follows referred.links.next (referred.references 0).head [0, 1] := by decide
  rwa [hfollows.unique hwalk] at hrepresents

theorem releases_iff_referred : Releases destroying referred 0 [0, 1] ↔ [0, 1] = ([] : List ℕ) :=
  releases_iff reassigns_destroying registered_referred represents_referred (by decide)

/-- **Driver 0 is stopped with two references to it.** The callback of one
destroys the other, and the list still starts at the first, which refers
to nothing. Where the first has no callback, the stop does not return. -/
theorem not_releases_referred :
    ¬ Releases destroying referred 0 [0, 1] ∧
      (referred.stopDriver destroying 0 true 2).map (fun s => (s.driver 0, s.references 0)) =
        some (none, ⟨some 0, some 0, 0⟩) ∧
      ∀ turns, (referred.setOnTerminated 0 none 0).stopDriver destroying 0 true turns = none := by
  refine ⟨?_, by decide, ?_⟩
  · exact registered_referred.not_releases reassigns_destroying represents_referred (by decide)
  · intro turns
    cases turns <;> rfl

end References

end Uberos
