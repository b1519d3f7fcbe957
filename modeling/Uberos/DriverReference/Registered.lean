import Uberos.DriverReference.Model
/-!
# Every reference is on its driver's list

A reference leaves the list of its driver before its driver changes and
joins the list of the next one after. Two paths do not keep to that: the
copy constructor pops the new object, which is on no list and has no
links, and so empties the driver's; and a stop clears the driver of each
reference but leaves the ends of the list. Runs that copy only references
to nothing, and stop only drivers that are not referred to, keep every
reference on its list.
-/

namespace Uberos

namespace References

open Library LList

variable {Ref Driver Callback Data : Type*} [DecidableEq Ref] [DecidableEq Driver]
variable {s : References Ref Driver Callback Data} {r copy : Ref} {d : Driver}
variable {op : Op Ref Driver Callback Data} {invoke : Invoke Ref Driver Callback Data}

/-! ## What it is for -/

/-- The driver whose list a reference belongs on. -/
def owner (s : References Ref Driver Callback Data) (r : Ref) : Option Driver :=
  if s.live r then s.driver r else none

/-- **Each driver's list spells the live references to it**, each once,
and one that refers to nothing is on no list. -/
def Registered (s : References Ref Driver Callback Data) : Prop :=
  Distributed s.links s.references s.owner

/-- **A reference that is copied into a new object refers to nothing**,
and a driver that is stopped has no references. -/
def Spared (s : References Ref Driver Callback Data) : Op Ref Driver Callback Data → Prop
  | .copyConstruct _ copy => s.driver copy = none
  | .stop d onStop _ => s.active d = true → onStop = true → (s.references d).head = none
  | _ => True

/-! ## Leaving and joining -/

/-- The others are registered, and this one is on no list. -/
def RegisteredBut (r : Ref) (s : References Ref Driver Callback Data) : Prop :=
  Distributed s.links s.references (Function.update s.owner r none)

omit [DecidableEq Driver] in
theorem registered_iff (howner : s.owner r = none) : Registered s ↔ RegisteredBut r s := by
  rw [Registered, RegisteredBut, ← howner, Function.update_eq_self]

omit [DecidableEq Ref] [DecidableEq Driver] in
theorem owner_of_live (hlive : s.live r = true) : s.owner r = s.driver r := if_pos hlive

omit [DecidableEq Ref] [DecidableEq Driver] in
theorem owner_of_dead (hlive : s.live r = false) : s.owner r = none := by
  rw [owner, hlive, if_neg Bool.false_ne_true]

omit [DecidableEq Ref] [DecidableEq Driver] in
/-- Registration depends on the lists and on who belongs on them. -/
theorem Registered.congr (h : Registered s) {s' : References Ref Driver Callback Data}
    (hlinks : s'.links = s.links) (hreferences : s'.references = s.references)
    (hdriver : s'.driver = s.driver) (hlive : s'.live = s.live) : Registered s' := by
  have howner : s'.owner = s.owner := by
    funext r
    rw [owner, owner, hdriver, hlive]
  rw [Registered, hlinks, hreferences, howner]
  exact h

/-- **A reference leaves its list.** -/
theorem Registered.popReference (h : Registered s) (hlive : s.live r = true) :
    RegisteredBut r (s.popReference r) := by
  rcases hd : s.driver r with - | d
  · have hsame : s.popReference r = s := by
      simp only [References.popReference, hd]
    rw [hsame]
    exact (registered_iff (by rw [owner_of_live hlive, hd])).1 h
  · have howner : s.owner r = some d := by rw [owner_of_live hlive, hd]
    have hpopped := Distributed.pop h howner
    simp only [RegisteredBut, References.popReference, hd]
    exact hpopped

/-- **And joins the one of the driver it has then.** -/
theorem RegisteredBut.pushReference (h : RegisteredBut r s) (hlive : s.live r = true) :
    Registered (s.pushReference r) := by
  rcases hd : s.driver r with - | d
  · have hsame : s.pushReference r = s := by
      simp only [References.pushReference, hd]
    rw [hsame]
    exact (registered_iff (by rw [owner_of_live hlive, hd])).2 h
  · have howner : s.owner r = some d := by rw [owner_of_live hlive, hd]
    have hpushed := Distributed.pushBack h (Function.update_self r none s.owner) d
    rw [Function.update_idem, ← howner, Function.update_eq_self] at hpushed
    simp only [Registered, References.pushReference, hd]
    exact hpushed

omit [DecidableEq Driver] in
/-- What else becomes of it meanwhile does not matter. -/
theorem RegisteredBut.congr (h : RegisteredBut r s) {s' : References Ref Driver Callback Data}
    (hlinks : s'.links = s.links) (hreferences : s'.references = s.references)
    (hothers : ∀ x ≠ r, s'.driver x = s.driver x ∧ s'.live x = s.live x) : RegisteredBut r s' := by
  have howner : Function.update s'.owner r none = Function.update s.owner r none := by
    funext x
    by_cases hx : x = r
    · rw [hx, Function.update_self, Function.update_self]
    · rw [Function.update_of_ne hx, Function.update_of_ne hx, owner, owner, (hothers x hx).1,
        (hothers x hx).2]
  rw [RegisteredBut, hlinks, hreferences, howner]
  exact h

omit [DecidableEq Driver] in
theorem RegisteredBut.setDriver (h : RegisteredBut r s) (set : Option Driver) :
    RegisteredBut r (s.setDriver r set) :=
  h.congr rfl rfl fun _ hx => ⟨Function.update_of_ne hx _ _, rfl⟩

omit [DecidableEq Driver] in
/-- A new object is on no list. -/
theorem Registered.initialise (h : Registered s) (hlive : s.live r = false)
    (driver : Option Driver) (onTerminated : Option Callback) (data : Data) :
    RegisteredBut r (s.initialise r driver onTerminated data) := by
  have hbefore := (registered_iff (owner_of_dead hlive)).1 h
  have hlinks : Distributed (setPrev (setNext s.links r none) r none) s.references
      (Function.update s.owner r none) := by
    refine Distributed.congr hbefore fun x hx => ?_
    have hne : x ≠ r := fun heq => hx (by rw [heq, Function.update_self])
    simp [hne]
  have hbut : RegisteredBut r { s with links := setPrev (setNext s.links r none) r none } := hlinks
  exact hbut.congr rfl rfl fun x hx =>
    ⟨Function.update_of_ne hx _ _, Function.update_of_ne hx _ _⟩

/-! ### What the members leave alone -/

omit [DecidableEq Driver] in
theorem initialise_live (driver : Option Driver) (onTerminated : Option Callback) (data : Data) :
    (s.initialise r driver onTerminated data).live r = true := by
  simp only [References.initialise, Function.update_self]

theorem popReference_live : (s.popReference r).live = s.live := by
  rw [popReference]
  split <;> rfl

/-! ## Runs -/

/-- Changing the driver of a reference moves it from list to list. -/
theorem Registered.move (h : Registered s) (hlive : s.live r = true) (set : Option Driver) :
    Registered (((s.popReference r).setDriver r set).pushReference r) := by
  refine ((h.popReference hlive).setDriver set).pushReference ?_
  change (s.popReference r).live r = true
  rw [popReference_live]
  exact hlive

/-- A stop of a driver that has no references changes none. -/
theorem stopDriver_of_empty {onStop : Bool} {turns : ℕ} (hempty : (s.references d).head = none)
    (hactive : s.active d = true) (hstop : onStop = true) :
    s.stopDriver invoke d onStop turns =
      some { s with active := Function.update s.active d false } := by
  have hall : ∀ s : References Ref Driver Callback Data,
      terminateAll invoke turns none s = some s := fun s => by cases turns <;> rfl
  rw [stopDriver, if_neg (by rw [hactive]; decide), if_neg (by rw [hstop]; decide)]
  simp only [hempty, hall, Option.bind_eq_bind, Option.bind_some, clear]

/-- **The step lemma.** -/
theorem Registered.step (h : Registered s) (hlifetime : Lifetime s op) (hspared : Spared s op) :
    Registered (step invoke s op) := by
  cases op with
  | construct r driver onTerminated data =>
    exact (h.initialise hlifetime driver onTerminated data).pushReference (initialise_live ..)
  | copyConstruct r copy =>
    -- there is nothing to pop, and nothing to push
    have hbut := h.initialise hlifetime.1 (s.driver copy) (s.onTerminated copy)
      (s.onTerminatedData copy)
    have hdriver : (s.initialise r (s.driver copy) (s.onTerminated copy)
        (s.onTerminatedData copy)).driver r = none := by
      simp only [References.initialise, Function.update_self]
      exact hspared
    simp only [References.step, copyConstruct, References.popReference, hdriver]
    refine (registered_iff ?_).2 hbut
    rw [owner_of_live (initialise_live ..), hdriver]
  | destroy r =>
    refine (registered_iff (r := r) ?_).2 ?_
    · refine owner_of_dead ?_
      simp only [References.step, References.destroy, Function.update_self]
    · exact (h.popReference hlifetime).congr rfl rfl fun x hx =>
        ⟨rfl, Function.update_of_ne hx _ _⟩
  | assign r copy =>
    by_cases hne : s.driver r ≠ s.driver copy
    · simp only [References.step, assign, if_pos hne]
      exact (h.move hlifetime.1 _).congr rfl rfl rfl rfl
    · simp only [References.step, assign, if_neg hne]
      exact h.congr rfl rfl rfl rfl
  | retarget r set =>
    by_cases heq : set = s.driver r
    · simp only [References.step, retarget, if_pos heq]
      exact h
    · simp only [References.step, retarget, if_neg heq]
      exact h.move hlifetime set
  | setOnTerminated r onTerminated data => exact h.congr rfl rfl rfl rfl
  | start d => exact h.congr rfl rfl rfl rfl
  | stop d onStop turns =>
    by_cases hactive : s.active d = true
    · by_cases hstop : onStop = true
      · simp only [References.step, stopDriver_of_empty (hspared hactive hstop) hactive hstop,
          Option.getD_some]
        exact h.congr rfl rfl rfl rfl
      · simp only [Bool.not_eq_true] at hstop
        simp only [References.step, stopDriver, hactive, hstop, Bool.true_eq_false, if_false, if_true,
          Option.getD_some]
        exact h
    · simp only [Bool.not_eq_true] at hactive
      simp only [References.step, stopDriver, hactive, if_true, Option.getD_some]
      exact h

omit [DecidableEq Ref] [DecidableEq Driver] in
theorem registered_new (links : Links Ref) (data : Ref → Data) (active : Driver → Bool) :
    Registered (new links data active : References Ref Driver Callback Data) := by
  refine ⟨fun _ => [], ⟨fun _ => represents_empty links, fun _ _ _ x hx => by cases hx⟩,
    fun x i => ?_⟩
  rw [owner_of_dead rfl]
  exact iff_of_false List.not_mem_nil (Option.some_ne_none i).symm

/-- **In a run that copies only references to nothing, and stops only
drivers without references**, every reference stays on its driver's
list. -/
theorem registered_run (links : Links Ref) (data : Ref → Data) (active : Driver → Bool)
    (ops : List (Op Ref Driver Callback Data))
    (hlifetime : Along (step invoke) Lifetime (.new links data active) ops)
    (hspared : Along (step invoke) Spared (.new links data active) ops) :
    Throughout (step invoke) Registered (.new links data active) ops :=
  throughout_of_invariant (hlifetime.and hspared) (registered_new links data active)
    (fun _ _ h hop => h.step hop.1 hop.2) fun _ h => h

/-- A callback that does nothing. -/
def silent : Invoke ℕ ℕ Unit Unit := fun _ _ s => some s

/-- Three references to two drivers, of which one is assigned over, one
retargeted and one destroyed. -/
theorem registered_run_assigned :
    Throughout (step silent) Registered (.new ⟨fun _ => none, fun _ => none⟩ (fun _ => ()) fun _ => true)
      [.construct 0 (some 0) (some ()) (), .construct 1 (some 0) none (), .construct 2 none none (),
        .copyConstruct 3 2, .assign 2 1, .retarget 0 (some 1), .destroy 1, .stop 2 true 0] :=
  registered_run _ _ _ _ (by simp +decide [Lifetime, step, construct, initialise, pushReference])
    (by simp +decide [Spared])

/-- **A copy empties the driver's list, and a stop leaves it as it was.** -/
theorem not_registered_run :
    ¬ Throughout (step silent) Registered
        (.new ⟨fun _ => none, fun _ => none⟩ (fun _ => ()) fun _ => true)
        [.construct 0 (some 0) (some ()) (), .copyConstruct 1 0] ∧
      ¬ Throughout (step silent) Registered
        (.new ⟨fun _ => none, fun _ => none⟩ (fun _ => ()) fun _ => true)
        [.construct 0 (some 0) (some ()) (), .stop 0 true 1] := by
  constructor
  · intro h
    obtain ⟨contents, hfamily, hmem⟩ := h.last
    -- the list has no head, but two references
    have hhead := (hfamily.represents 0).head
    have hone : (1 : ℕ) ∈ contents 0 := (hmem 1 0).2 rfl
    have hnone : (contents 0).head? = none := hhead.symm
    rw [List.head?_eq_none_iff.1 hnone] at hone
    cases hone
  · intro h
    obtain ⟨contents, hfamily, hmem⟩ := h.last
    -- the list has a head, which refers to nothing
    have hhead : (contents 0).head? = some 0 := (hfamily.represents 0).head.symm
    have hzero := (hmem 0 0).1 (List.mem_of_mem_head? hhead)
    cases hzero

end References

end Uberos
