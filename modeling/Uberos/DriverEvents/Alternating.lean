import Uberos.DriverEvents.Model
import Mathlib.Algebra.Group.Nat.Even
/-!
# Lifecycle events match the drivers' states

Whatever is called, a driver's events should alternate, from a
`driverStarted` on, and the driver be active just when the last of them is
one. `Follows` says which events may come next and what they leave; each
call is judged by the events it adds for its driver and by the drivers
its hooks and callbacks fail.
-/

namespace Uberos

namespace DriverEvents

open Library

variable {D : Type*} [DecidableEq D]

/-! ## What it is for -/

/-- `driverStarted` and `driverStopped` by turns, the former first. -/
def Alternates (events : List (Event D)) : Prop :=
  ∀ (i : ℕ) (event : Event D), events[i]? = some event → (event.isStarted ↔ Even i)

/-- They alternate, and the last was `driverStarted` just for a driver
that is active. -/
def Agrees (events : List (Event D)) (active : Bool) : Prop :=
  Alternates events ∧ (active ↔ ∃ event ∈ events.getLast?, event.isStarted)

/-- **Every driver's events agree with its state.** -/
def Matches (s : System D) : Prop := ∀ d, Agrees (s.eventsOf d) (s.isActive d)

/-- A `stop_driver` that leaves its driver no longer active succeeds and
triggers `driverStopped`. -/
def Announced (startup : D → Startup) (s : System D) (op : Op D) : Prop :=
  ∀ d canStopDriver onStop terminated, op = .stopDriver d canStopDriver onStop terminated →
    s.isActive d = true → (step startup s op).isActive d = false →
      (call startup s op).1 = .ok () ∧
        ∃ error, (step startup s op).events = s.events ++ [.driverStopped d error]

/-- **What a call should do.** -/
def Meets (startup : D → Startup) (s : System D) (op : Op D) : Prop :=
  Matches (step startup s op) ∧ Announced startup s op

/-- None of `fails` is another driver that is active. -/
def Spares (s : System D) (d : D) (fails : List D) : Prop :=
  ∀ e ∈ fails, e ≠ d → s.isActive e = false

/-- **What hooks and callbacks a call meets it with.** No active driver is
failed on the way, but for the one that is restarted and cannot stop. A
driver that stops is disabled. One that stops to be restarted does not
start. -/
def Tolerates (startup : D → Startup) (s : System D) : Op D → Prop
  | .startDriver d onStart => s.isActive d = false → Spares s d onStart.fails
  | .stopDriver d canStopDriver onStop terminated =>
    s.isActive d = true → canStopDriver = true →
      match onStop.result with
      | .ok () => startup d = .disabled ∧ Spares s d (onStop.fails ++ terminated)
      | .error _ => d ∉ onStop.fails ∧ Spares s d onStop.fails
  | .restartDriver d canRestartDriver onStop terminated onStart =>
    if s.isActive d = true then
      canRestartDriver = true →
        match onStop.result, onStart.result with
        | .error _, _ => Spares s d onStop.fails
        | .ok (), .error _ => Spares s d (onStop.fails ++ terminated ++ onStart.fails)
        | .ok (), .ok () => False
    else Spares s d onStart.fails

/-! ## What may follow -/

/-- Events that may come next of a driver that is active or not, and
whether it is then. -/
def Follows : Bool → List (Event D) → Bool → Prop
  | active, [], active' => active' = active
  | active, event :: events, active' =>
    event.isStarted = !active ∧ Follows event.isStarted events active'

variable {startup : D → Startup} {s s' : System D} {d e : D} {event : Event D}
variable {events added : List (Event D)} {active active' : Bool}

omit [DecidableEq D] in
theorem alternates_concat :
    Alternates (events ++ [event]) ↔
      Alternates events ∧ (event.isStarted ↔ Even events.length) := by
  constructor
  · intro h
    refine ⟨fun i event' hi => h i event' ?_, h events.length event List.getElem?_concat_length⟩
    rw [List.getElem?_append_left (List.getElem?_eq_some_iff.1 hi).1]
    exact hi
  · rintro ⟨h, hevent⟩ i event' hi
    rcases Nat.lt_trichotomy i events.length with hlt | heq | hgt
    · rw [List.getElem?_append_left hlt] at hi
      exact h i event' hi
    · subst heq
      rw [List.getElem?_concat_length, Option.some.injEq] at hi
      exact hi ▸ hevent
    · have hnone : (events ++ [event])[i]? = none :=
        List.getElem?_eq_none (by simp only [List.length_append, List.length_singleton]; omega)
      rw [hnone] at hi
      cases hi

omit [DecidableEq D] in
theorem Alternates.of_append (h : Alternates (events ++ added)) : Alternates events := by
  intro i event hi
  refine h i event ?_
  rw [List.getElem?_append_left (List.getElem?_eq_some_iff.1 hi).1]
  exact hi

omit [DecidableEq D] in
/-- After events that alternate the next one would be `driverStarted`
just where their number is even. -/
theorem Agrees.even_iff (h : Agrees events active) : Even events.length ↔ active = false := by
  obtain ⟨halternates, hlast⟩ := h
  rcases List.eq_nil_or_concat events with hnil | hconcat
  · subst hnil
    simpa using hlast
  · obtain ⟨front, event, rfl⟩ := hconcat
    rw [List.concat_eq_append] at halternates hlast ⊢
    simp only [List.getLast?_concat, Option.mem_def, Option.some.injEq, exists_eq_left'] at hlast
    rw [List.length_append, List.length_singleton, Nat.even_add_one,
      ← (alternates_concat.1 halternates).2, ← hlast, Bool.not_eq_true]

omit [DecidableEq D] in
/-- **Events that agree go on agreeing** just with what may follow. -/
theorem Agrees.append_iff (h : Agrees events active) :
    Agrees (events ++ added) active' ↔ Follows active added active' := by
  induction added generalizing events active with
  | nil =>
    rw [List.append_nil, Follows, Agrees, ← h.2, Bool.coe_iff_coe]
    exact and_iff_right h.1
  | cons event added ih =>
    rw [Follows, List.append_cons]
    have hturn : Alternates (events ++ [event]) ↔ event.isStarted = !active := by
      rw [alternates_concat, h.even_iff, and_iff_right h.1]
      cases event.isStarted <;> cases active <;> simp
    by_cases hevent : event.isStarted = !active
    · rw [and_iff_right hevent]
      refine ih ⟨hturn.2 hevent, ?_⟩
      simp
    · refine iff_of_false (fun hagrees => hevent (hturn.1 hagrees.1.of_append)) ?_
      exact fun hfollows => hevent hfollows.1

/-! ## What the parts of a call do -/

omit [DecidableEq D] in
@[simp] theorem driver_driverStarted : (Event.driverStarted d).driver = d := rfl

omit [DecidableEq D] in
@[simp] theorem driver_driverStopped {error : Option String} :
    (Event.driverStopped d error).driver = d := rfl

omit [DecidableEq D] in
@[simp] theorem isActive_trigger : (s.trigger event).isActive e = s.isActive e := rfl

@[simp] theorem eventsOf_trigger :
    (s.trigger event).eventsOf e = s.eventsOf e ++ if e = event.driver then [event] else [] := by
  simp [System.eventsOf, System.trigger, List.filter_append, List.filter_cons]

@[simp] theorem eventsOf_setState {state : DriverState} :
    (s.setState d state).eventsOf e = s.eventsOf e := rfl

@[simp] theorem events_setState {state : DriverState} : (s.setState d state).events = s.events := rfl

@[simp] theorem isActive_setState {state : DriverState} :
    (s.setState d state).isActive e = if e = d then state == .active else s.isActive e := by
  by_cases h : e = d
  · subst h
    simp [System.isActive, System.setState]
  · simp [System.isActive, System.setState, h]

@[simp] theorem events_failAll {fails : List D} : (s.failAll fails).events = s.events := by
  induction fails generalizing s with
  | nil => rfl
  | cons d fails ih => exact ih

@[simp] theorem eventsOf_failAll {fails : List D} :
    (s.failAll fails).eventsOf e = s.eventsOf e := by
  rw [System.eventsOf, events_failAll]
  rfl

@[simp] theorem isActive_failAll {fails : List D} :
    (s.failAll fails).isActive e = (s.isActive e && decide (e ∉ fails)) := by
  induction fails generalizing s with
  | nil => simp [System.failAll]
  | cons d fails ih =>
    have hcons : s.failAll (d :: fails) = (s.failDriver d).failAll fails := rfl
    rw [hcons, ih, System.failDriver, isActive_setState]
    by_cases h : e = d <;> simp [h]

/-- **What a call leaves is judged** by the events it adds of its own
driver, whether that is active then, and what it fails of the others. -/
theorem Matches.iff_of_added (h : Matches s) (d : D) (added : List (Event D)) (fails : List D)
    (hadded : s'.eventsOf d = s.eventsOf d ++ added)
    (hother : ∀ e ≠ d, s'.eventsOf e = s.eventsOf e)
    (hactive : ∀ e ≠ d, s'.isActive e = (s.isActive e && decide (e ∉ fails))) :
    Matches s' ↔ Follows (s.isActive d) added (s'.isActive d) ∧ Spares s d fails := by
  constructor
  · intro hmatches
    refine ⟨?_, fun e he hne => ?_⟩
    · have hd := hmatches d
      rwa [hadded, (h d).append_iff] at hd
    · have hother' := hmatches e
      rw [hother e hne, hactive e hne, ← List.append_nil (s.eventsOf e), (h e).append_iff] at hother'
      simpa [Follows, he] using hother'
  · rintro ⟨hfollows, hspares⟩ e
    by_cases hne : e = d
    · subst hne
      rw [hadded, (h e).append_iff]
      exact hfollows
    · rw [hother e hne, hactive e hne, ← List.append_nil (s.eventsOf e), (h e).append_iff]
      have hfails : e ∈ fails → s.isActive e = false := fun he => hspares e he hne
      simpa [Follows] using fun hactive he => Bool.noConfusion ((hfails he).symm.trans hactive)

/-! ## The calls -/

section Calls

variable {onStart onStop : Outcome D} {terminated : List D} {canStopDriver : Bool}

/-- A start of a driver that is not active. -/
theorem startDriver_of_not_active (h : s.isActive d = false) (onStart : Outcome D) :
    startDriver s d onStart =
      match onStart.result with
      | .error message => (.error message, (s.failAll onStart.fails).setState d .failed)
      | .ok () => (.ok (),
          ((s.failAll onStart.fails).setState d .active).trigger (.driverStarted d)) := by
  rcases hresult : onStart.result with message | ok <;>
    simp [startDriver, apiStartDriver, started, h, hresult]

/-- A stop of one that is, and can be stopped. -/
theorem stopDriver_of_active (h : s.isActive d = true) (startup : D → Startup)
    (onStop : Outcome D) (terminated : List D) :
    stopDriver startup s d true onStop terminated =
      match onStop.result with
      | .error message => (.error message, s.failAll onStop.fails)
      | .ok () =>
        let s := ((s.failAll onStop.fails).setState d .inactive).failAll terminated
        if startup d = .disabled then (.ok (), s.trigger (.driverStopped d none))
        else (.error "Unable to stop driver", s) := by
  rcases hresult : onStop.result with message | ok <;>
    simp [stopDriver, apiStopDriver, h, hresult]

/-- A restart of one that is, and can be restarted. -/
theorem restartDriver_of_active (h : s.isActive d = true) (onStop : Outcome D)
    (terminated : List D) (onStart : Outcome D) :
    restartDriver s d true onStop terminated onStart =
      match onStop.result with
      | .error message =>
        let s := (s.failAll onStop.fails).trigger (.driverStopped d (some message))
        if d ∈ onStop.fails then (.error message, s) else (.ok (), s.trigger (.driverStarted d))
      | .ok () =>
        let s := (((s.failAll onStop.fails).setState d .inactive).failAll terminated).failAll
          onStart.fails
        match onStart.result with
        | .error message => (.error message,
            (s.setState d .failed).trigger (.driverStopped d (some message)))
        | .ok () => (.ok (), (s.setState d .active).trigger (.driverStarted d)) := by
  rcases hstop : onStop.result with message | ok
  · by_cases hd : d ∈ onStop.fails <;>
      simp [restartDriver, apiRestartDriver, apiStopDriver, started, h, hstop, hd]
  · rcases hstart : onStart.result with message | ok <;>
      simp [restartDriver, apiRestartDriver, apiStopDriver, apiStartDriver, started, h, hstop, hstart]

/-- A start is as good as what it fails. -/
theorem Matches.startDriver_iff (h : Matches s) :
    Matches (startDriver s d onStart).2 ↔ (s.isActive d = false → Spares s d onStart.fails) := by
  cases hactive : s.isActive d with
  | true =>
    rw [startDriver, if_pos hactive]
    simpa using h
  | false =>
    rw [startDriver_of_not_active hactive, forall_prop_of_true rfl]
    rcases onStart.result with message | ok
    · rw [h.iff_of_added d [] onStart.fails (by simp) (by simp) (by simp +contextual)]
      simp [Follows, hactive]
    · rw [h.iff_of_added d [.driverStarted d] onStart.fails (by simp) (by simp +contextual)
        (by simp +contextual)]
      simp [Follows, hactive, Event.isStarted]

/-- A stop is as good as what it fails, where it does not fail its own
driver or reports to have stopped it. -/
theorem Matches.stopDriver_iff (h : Matches s) (hactive : s.isActive d = true) :
    Matches (stopDriver startup s d true onStop terminated).2 ↔
      match onStop.result with
      | .ok () => startup d = .disabled ∧ Spares s d (onStop.fails ++ terminated)
      | .error _ => d ∉ onStop.fails ∧ Spares s d onStop.fails := by
  rw [stopDriver_of_active hactive]
  rcases onStop.result with message | ok
  · rw [h.iff_of_added d [] onStop.fails (by simp) (by simp) (by simp)]
    simp [Follows, hactive]
  · by_cases hstartup : startup d = .disabled
    · simp only [hstartup, if_true, true_and]
      rw [h.iff_of_added d [.driverStopped d none] (onStop.fails ++ terminated) (by simp)
        (by simp +contextual) (by simp +contextual [Bool.and_assoc])]
      simp [Follows, hactive, Event.isStarted]
    · simp only [hstartup, if_false, false_and, iff_false]
      rw [h.iff_of_added d [] (onStop.fails ++ terminated) (by simp) (by simp)
        (by simp +contextual [Bool.and_assoc])]
      simp [Follows, hactive]

/-- A restart is as good as what it fails, where it does not both stop and
start its driver. -/
theorem Matches.restartDriver_iff (h : Matches s) (hactive : s.isActive d = true) :
    Matches (restartDriver s d true onStop terminated onStart).2 ↔
      match onStop.result, onStart.result with
      | .error _, _ => Spares s d onStop.fails
      | .ok (), .error _ => Spares s d (onStop.fails ++ terminated ++ onStart.fails)
      | .ok (), .ok () => False := by
  rw [restartDriver_of_active hactive]
  rcases onStop.result with message | ok
  · by_cases hd : d ∈ onStop.fails
    · simp only [hd, if_true]
      rw [h.iff_of_added d [.driverStopped d (some message)] onStop.fails (by simp)
        (by simp +contextual) (by simp)]
      simp [Follows, hactive, Event.isStarted, hd]
    · simp only [hd, if_false]
      rw [h.iff_of_added d [.driverStopped d (some message), .driverStarted d] onStop.fails (by simp)
        (by simp +contextual) (by simp)]
      simp [Follows, hactive, Event.isStarted, hd]
  · rcases onStart.result with message | ok
    · rw [h.iff_of_added d [.driverStopped d (some message)]
        (onStop.fails ++ terminated ++ onStart.fails) (by simp) (by simp +contextual)
        (by simp +contextual [Bool.and_assoc])]
      simp [Follows, hactive, Event.isStarted]
    · rw [h.iff_of_added d [.driverStarted d] (onStop.fails ++ terminated ++ onStart.fails) (by simp)
        (by simp +contextual) (by simp +contextual [Bool.and_assoc])]
      simp [Follows, hactive, Event.isStarted]

/-- A stop that leaves its driver inactive, and the events matching,
reports so. -/
theorem announced_of_tolerates (htolerates : Tolerates startup s
    (.stopDriver d canStopDriver onStop terminated)) :
    Announced startup s (.stopDriver d canStopDriver onStop terminated) := by
  intro d' canStopDriver' onStop' terminated' hop hactive hinactive
  cases hop
  rw [step, call] at hinactive ⊢
  cases canStopDriver with
  | false => simp [stopDriver, hactive] at hinactive
  | true =>
    have htolerates := htolerates hactive rfl
    rw [stopDriver_of_active hactive] at hinactive ⊢
    rcases hresult : onStop.result with message | ok
    · simp only [hresult] at hinactive htolerates
      simp [hactive, htolerates.1] at hinactive
    · simp only [hresult] at htolerates ⊢
      rw [if_pos htolerates.1]
      exact ⟨rfl, none, by simp [System.trigger]⟩

end Calls

/-! ## Runs -/

/-- **A call is right exactly with hooks and callbacks it
tolerates.** -/
theorem Matches.meets_iff (h : Matches s) (op : Op D) :
    Meets startup s op ↔ Tolerates startup s op := by
  cases op with
  | startDriver d onStart =>
    rw [Meets, step, call, h.startDriver_iff, Tolerates]
    refine and_iff_left ?_
    intro d' canStopDriver onStop terminated hop
    cases hop
  | stopDriver d canStopDriver onStop terminated =>
    have hmatches : Matches (step startup s (.stopDriver d canStopDriver onStop terminated)) ↔
        Tolerates startup s (.stopDriver d canStopDriver onStop terminated) := by
      rw [step, call, Tolerates]
      by_cases hactive : s.isActive d = true
      · cases canStopDriver with
        | false => simpa [stopDriver, hactive] using h
        | true => simpa only [hactive, forall_const] using h.stopDriver_iff hactive
      · rw [stopDriver, if_neg hactive]
        exact iff_of_true h fun hcon => absurd hcon hactive
    rw [Meets, hmatches]
    exact and_iff_left_of_imp announced_of_tolerates
  | restartDriver d canRestartDriver onStop terminated onStart =>
    rw [Meets, step, call, Tolerates]
    refine (and_iff_left ?_).trans ?_
    · intro d' canStopDriver onStop terminated hop
      cases hop
    · by_cases hactive : s.isActive d = true
      · rw [if_pos hactive]
        cases canRestartDriver with
        | false => simpa [restartDriver, hactive] using h
        | true => simpa only [forall_const] using h.restartDriver_iff hactive
      · rw [restartDriver, if_neg hactive, if_neg hactive, h.startDriver_iff]
        simp [Bool.eq_false_iff.2 hactive]

/-- **Over a run every call is right exactly when each has hooks
and callbacks it tolerates.** -/
theorem events_run_iff (startup : D → Startup) (ops : List (Op D)) :
    Along (step startup) (Meets startup) .new ops ↔
      Along (step startup) (Tolerates startup) .new ops := by
  refine along_iff_of_invariant (I := Matches) along_true (fun d => ?_)
    (fun s op h _ => h.meets_iff op) fun s op h _ htolerates => ((h.meets_iff op).2 htolerates).1
  refine ⟨fun i event hi => ?_, ?_⟩
  · cases hi
  · simp [System.new, System.eventsOf, System.isActive]

/-- An automatic driver is started and stopped. The stop reports that it
failed, no event says that the driver is not active any more, and when it
is started again the second `driverStarted` follows the first. -/
theorem not_events_run :
    let startup : Unit → Startup := fun _ => .automatic
    let s := step startup .new (.startDriver () ⟨.ok (), []⟩)
    let stop : Op Unit := .stopDriver () true ⟨.ok (), []⟩ []
    ¬ Along (step startup) (Meets startup) .new [.startDriver () ⟨.ok (), []⟩, stop] ∧
      (call startup s stop).1 = .error "Unable to stop driver" ∧
        (step startup s stop).isActive () = false ∧
          (step startup (step startup s stop) (.startDriver () ⟨.ok (), []⟩)).events =
            [.driverStarted (), .driverStarted ()] := by
  intro startup s stop
  refine ⟨fun h => ?_, rfl, rfl, rfl⟩
  obtain ⟨⟨hmatches, -⟩, hstop, -⟩ := h
  have htolerates : Tolerates startup s stop := (hmatches.meets_iff stop).1 hstop
  have hdisabled : Startup.automatic = Startup.disabled := (htolerates rfl rfl).1
  cases hdisabled

end DriverEvents

end Uberos
