/-
  LogSump.Listener.TrackerEnds — how the tracker's task ends: by its cancellation, and by the
  exception of a listener.

  `stop` awaits the listener that it cancelled, and catches a CancelledError there whoever it
  is meant for; any other exception of the listener goes through `stop` and `run_once`.

  - `cancelling_ends_the_tracker_iff`: a cancelled tracker does nothing more exactly where it
    was not in `stop`.
  - `step_fails_iff`, `tracker_survives`: a sweep raises where it awaits a listener that
    raised, and in no other step.
-/

import LogSump.Listener.StaleMisses

namespace LogSump.Listener

open Foundation

theorem Tracker.held_of_over {p : Tracker} (h : p.Over) : p.held = [] := by
  cases p <;> first | rfl | cases h

namespace Daemon

variable {missingThresholdCycles : Int}

/-! ## Cancellation -/

/-- The step starts a cycle, calls `stop`, or forgets a container. -/
def Acts (s : Daemon) (e : Event) (s' : Daemon) : Prop :=
  (∃ cs, e = .sweep cs) ∨ e = .stopLogged ∨ ∃ c ∈ s.registry.containers, c ∉ s'.registry.containers

theorem not_acts_of_over {s s' : Daemon} {e : Event} (ho : s.tracker.Over) (h : step missingThresholdCycles s e = some s') :
    ¬ Acts s e s' := by
  intro hway
  rcases hway with ⟨cs, rfl⟩ | rfl | ⟨c, hc, hn⟩
  · cases step_moves h with
    | sweep _ hs =>
      rw [hs] at ho
      cases ho
  · cases step_moves h with
    | stopLogged _ _ hs =>
      rw [hs] at ho
      cases ho
  · obtain ⟨rest, hheld⟩ := step_forgets h hc hn
    rw [Tracker.held_of_over ho] at hheld
    cases hheld

/-- What `stop` awaits is a task. -/
theorem awaited_at {s : Daemon} (h : (machine missingThresholdCycles).Reach s) {c : String} {t : TaskId} {rest : List String}
    (hs : s.tracker = .awaiting c t rest) : ∃ x : ListenerTask, s.listeners[t]? = some x := by
  induction h generalizing c t rest with
  | init h =>
    cases h
    cases hs
  | step e hreach hstep ih =>
    rename_i u v
    have hkeep : (∃ x : ListenerTask, u.listeners[t]? = some x) → ∃ x : ListenerTask, v.listeners[t]? = some x := by
      intro hex
      obtain ⟨x, hx⟩ := hex
      obtain ⟨x', hx', -⟩ := step_keeps_task hstep hx
      exact ⟨x', hx'⟩
    have hnot : ∀ registry cs, v.tracker ≠ sweepFrom missingThresholdCycles registry cs :=
      ne_sweepFrom (by rw [hs]; simp) (by rw [hs]; simp)
    cases step_tracker hstep with
    | none ht => exact hkeep (ih (ht ▸ hs))
    | listed _ ht => exact hkeep (ih (ht ▸ hs))
    | sweep cs _ _ _ ht => exact absurd ht (hnot _ _)
    | forget _ _ _ _ _ ht => exact absurd ht (hnot _ _)
    | await d u' rest' _ hl _ ht =>
      rw [ht] at hs
      cases hs
      obtain ⟨x, hx, -⟩ := (reach_inv hreach).tasks_at c t hl
      exact hkeep ⟨x, hx⟩
    | failStop _ _ _ _ _ _ _ _ ht => rw [ht] at hs; cases hs
    | failAwait _ _ _ _ _ _ _ ht => rw [ht] at hs; cases hs
    | interrupt _ _ _ _ _ ht => rw [ht] at hs; cases hs
    | cancel _ _ ht => rw [ht] at hs; cases hs

/-- `stop` caught the cancellation: the container is forgotten. -/
theorem interrupted_acts {s : Daemon} (hI : Inv s) {c : String} {rest : List String} (hs : s.tracker = .interrupted c rest) :
    ∃ s', step missingThresholdCycles s .awaited = some s' ∧ Acts s .awaited s' := by
  have hknown : c ∈ s.registry.containers := hI.held_known c (by rw [hs]; exact List.mem_cons_self)
  refine ⟨forgotten missingThresholdCycles s c rest, by rw [step, hs], .inr (.inr ⟨c, hknown, ?_⟩)⟩
  intro hc
  exact (AList.mem_erase.mp hc).1 rfl

/-- The listener ends by the cancellation that the tracker passes on to it. -/
theorem awaiting_acts {s : Daemon} (hI : Inv s) {c : String} {t : TaskId} {rest : List String} {x : ListenerTask}
    (hs : s.tracker = .awaiting c t rest) (hx : s.listeners[t]? = some x) (hr : x.Running) :
    ∃ s₁ s₂, step missingThresholdCycles s (.ended t .cancelled) = some s₁ ∧
      step missingThresholdCycles s₁ .awaited = some s₂ ∧ Acts s₁ .awaited s₂ := by
  have hend : step missingThresholdCycles s (.ended t .cancelled) = some (setPhase s t x (.ended .cancelled true)) := by
    rw [step, hx]
    exact if_pos hr
  have hout : (setPhase s t x (.ended .cancelled true)).listeners[t]?.bind ListenerTask.outcome? = some .cancelled := by
    show (s.listeners.set t { x with phase := .ended .cancelled true })[t]?.bind ListenerTask.outcome? = _
    rw [List.getElem?_set_self (List.getElem?_eq_some_iff.mp hx).1]
    rfl
  have htracker : (setPhase s t x (.ended .cancelled true)).tracker = .awaiting c t rest := hs
  have hknown : c ∈ s.registry.containers := hI.held_known c (by rw [hs]; exact List.mem_cons_self)
  refine ⟨_, forgotten missingThresholdCycles (setPhase s t x (.ended .cancelled true)) c rest, hend, ?_,
    .inr (.inr ⟨c, hknown, fun hc => (AList.mem_erase.mp hc).1 rfl⟩)⟩
  rw [step, htracker]
  simp only [hout, Option.isSome_some, if_true, awaitTask]

/-- Where the tracker is in `stop`, its cancellation is lost. -/
theorem stopping_acts {s : Daemon} (h : (machine missingThresholdCycles).Reach s) {c : String}
    (hs : s.tracker.stopping = some c) :
    ∃ es s₁ e s₂, (machine missingThresholdCycles).run (cancelTracker s) es = some s₁ ∧
      step missingThresholdCycles s₁ e = some s₂ ∧ Acts s₁ e s₂ := by
  have hI := reach_inv h
  cases htracker : s.tracker with
  | awaiting d t rest =>
    obtain ⟨x, hx⟩ := awaited_at h htracker
    by_cases hr : x.Running
    · have hsame : cancelTracker s = s := by
        rw [cancelTracker, htracker]
        exact if_neg (by rw [hx, Option.bind_some, show x.outcome? = none from hr]; exact Bool.false_ne_true)
      obtain ⟨s₁, s₂, hend, hstep, ha⟩ := awaiting_acts hI htracker hx hr
      exact ⟨[.ended t .cancelled], s₁, .awaited, s₂, by rw [hsame]; exact Machine.run_cons.mpr ⟨s₁, hend, rfl⟩, hstep, ha⟩
    · have hint : (cancelTracker s).tracker = .interrupted d rest := by
        rw [cancelTracker, htracker]
        simp only [hx, Option.bind_some, if_pos (Option.isSome_iff_ne_none.mpr hr)]
      obtain ⟨s₂, hstep, ha⟩ := interrupted_acts (cancelTracker_inv hI) hint
      exact ⟨[], _, .awaited, s₂, rfl, hstep, ha⟩
  | interrupted d rest =>
    have hsame : cancelTracker s = s := by rw [cancelTracker, htracker]
    obtain ⟨s₂, hstep, ha⟩ := interrupted_acts hI htracker
    exact ⟨[], s, .awaited, s₂, by rw [hsame]; rfl, hstep, ha⟩
  | sleeping => rw [htracker] at hs; cases hs
  | logging _ _ => rw [htracker] at hs; cases hs
  | cancelled => rw [htracker] at hs; cases hs
  | failed _ => rw [htracker] at hs; cases hs

theorem cancelTracker_over {s : Daemon} (h : s.tracker.stopping = none) : (cancelTracker s).tracker.Over := by
  unfold cancelTracker
  cases hs : s.tracker with
  | sleeping => trivial
  | logging _ _ => trivial
  | awaiting _ _ _ => rw [hs] at h; cases h
  | interrupted _ _ => rw [hs] at h; cases h
  | cancelled => show s.tracker.Over; rw [hs]; trivial
  | failed _ => show s.tracker.Over; rw [hs]; trivial

/-- In any reachable state: the cancelled tracker stops and forgets nothing and starts no
    cycle, whatever happens, precisely when it is not in `stop` awaiting a listener. -/
theorem cancelling_ends_the_tracker_iff (missingThresholdCycles : Int) {s : Daemon}
    (h : (machine missingThresholdCycles).Reach s) :
    (∀ es s₁ e s₂, (machine missingThresholdCycles).run (cancelTracker s) es = some s₁ →
      step missingThresholdCycles s₁ e = some s₂ → ¬ Acts s₁ e s₂) ↔ s.tracker.stopping = none := by
  constructor
  · intro hquiet
    by_contra hne
    obtain ⟨c, hs⟩ := Option.ne_none_iff_exists'.mp hne
    obtain ⟨es, s₁, e, s₂, hrun, hstep, ha⟩ := stopping_acts h hs
    exact hquiet es s₁ e s₂ hrun hstep ha
  · intro hs es s₁ e s₂ hrun hstep
    have hover : s₁.tracker.Over := Machine.run_inv (M := machine missingThresholdCycles) (I := fun s => s.tracker.Over)
      (fun u e u' hu _ hstep => by rw [step_over hu hstep]; exact hu) (cancelTracker_over hs) (Machine.along_true _ es) hrun
    exact not_acts_of_over hover hstep

/-- Cancelled in `stop`, the tracker forgets the container and starts another cycle. -/
theorem a_cancelled_tracker_goes_on :
    ∃ s s₁ s₂, (machine 3).run {} (webVanishes ++ [.stopLogged]) = some s ∧ s.tracker = .awaiting web.containerId 0 [] ∧
      web.containerId ∈ s.registry.containers ∧
      (machine 3).run (cancelTracker s) [.ended 0 .cancelled, .callback 0, .awaited] = some s₁ ∧
      web.containerId ∉ s₁.registry.containers ∧ step 3 s₁ (.sweep []) = some s₂ ∧ Acts s₁ (.sweep []) s₂ := by
  have hbooks : ((machine 3).run {} (webVanishes ++ [.stopLogged])).map (fun s => (s.registry.containers.keys, s.tracker)) =
      some ([web.containerId], .awaiting web.containerId 0 []) := by decide +kernel
  obtain ⟨s, hs, hbooks⟩ := Option.map_eq_some_iff.mp hbooks
  obtain ⟨hknown, htracker⟩ := Prod.mk.inj hbooks
  have hrun : ((machine 3).run {} (webVanishes ++ [.stopLogged] ++
      [.cancelTracker, .ended 0 .cancelled, .callback 0, .awaited])).map
        (fun s => (s.registry.containers.keys, s.tasks.keys, s.tracker)) = some ([], [], .sleeping) := by decide +kernel
  obtain ⟨s₁, hs₁, hbooks₁⟩ := Option.map_eq_some_iff.mp hrun
  simp only [Prod.mk.injEq] at hbooks₁
  obtain ⟨hknown₁, htasks₁, htracker₁⟩ := hbooks₁
  obtain ⟨u, hu, hs₁⟩ := Machine.run_append.mp hs₁
  rw [hs] at hu
  cases hu
  obtain ⟨u, hu, hs₁⟩ := Machine.run_cons.mp hs₁
  cases hu
  have hsweep : step 3 s₁ (.sweep []) = some { s₁ with tracker := .sleeping } := by
    rw [step, if_pos ⟨htracker₁, by rw [htasks₁]⟩]
    rfl
  refine ⟨s, s₁, _, hs, htracker, ?_, hs₁, ?_, hsweep, .inl ⟨[], rfl⟩⟩
  · rw [AList.mem_keys, hknown]
    exact List.mem_singleton_self _
  · rw [AList.mem_keys, hknown₁]
    exact List.not_mem_nil

/-- Cancelled in its log call, it is over. -/
theorem a_tracker_cancelled_while_logging_is_over :
    ∃ s, (machine 3).run {} webVanishes = some s ∧ s.tracker = .logging web.containerId [] ∧
      ∀ es s₁ e s₂, (machine 3).run (cancelTracker s) es = some s₁ → step 3 s₁ e = some s₂ → ¬ Acts s₁ e s₂ := by
  have hrun : ((machine 3).run {} webVanishes).map (·.tracker) = some (.logging web.containerId []) := by decide +kernel
  obtain ⟨s, hs, htracker⟩ := Option.map_eq_some_iff.mp hrun
  have hreach : (machine 3).Reach s := (Machine.Reach.init rfl).run hs
  exact ⟨s, hs, htracker, (cancelling_ends_the_tracker_iff 3 hreach).mpr (by rw [htracker]; rfl)⟩

/-! ## A listener's exception -/

/-- The task has ended with an exception other than its cancellation. -/
def Raised (s : Daemon) (t : TaskId) : Prop := ∃ error, s.listeners[t]?.bind ListenerTask.outcome? = some (.raised error)

instance (s : Daemon) : DecidablePred (Raised s) := fun t =>
  match h : s.listeners[t]?.bind ListenerTask.outcome? with
  | some (.raised error) => isTrue ⟨error, h⟩
  | some .returned => isFalse (by rintro ⟨error, he⟩; rw [h] at he; cases he)
  | some .cancelled => isFalse (by rintro ⟨error, he⟩; rw [h] at he; cases he)
  | none => isFalse (by rintro ⟨error, he⟩; rw [h] at he; cases he)

/-- The task that `stop` is about to cancel. -/
def toStop (s : Daemon) : Option TaskId :=
  match s.tracker with
  | .logging c _ => s.tasks.lookup c
  | _ => none

/-- The task that `stop` awaits. -/
def awaited? (s : Daemon) : Option TaskId :=
  match s.tracker with
  | .awaiting _ t _ => some t
  | _ => none

/-- `stop` is not called for a listener that has raised, and no listener raises that `stop`
    awaits. -/
def Harmless (s : Daemon) : Event → Prop
  | .stopLogged => ∀ t ∈ s.toStop, ¬ Raised s t
  | .ended t (.raised _) => awaited? s ≠ some t
  | _ => True

instance (s : Daemon) : (e : Event) → Decidable (Harmless s e)
  | .stopLogged => inferInstanceAs (Decidable (∀ t ∈ s.toStop, ¬ Raised s t))
  | .ended t (.raised _) => inferInstanceAs (Decidable (awaited? s ≠ some t))
  | .ended _ .returned | .ended _ .cancelled | .listed _ | .permit | .spawnLogged | .started _ | .callback _ | .sweep _
  | .awaited | .cancelListing | .cancelTracker => isTrue trivial

/-- A step in which the tracker fails is one in which it awaits a listener that has raised. -/
theorem step_fails_iff {s s' : Daemon} {e : Event} (hf : ∀ error, s.tracker ≠ .failed error)
    (h : step missingThresholdCycles s e = some s') :
    (∃ error, s'.tracker = .failed error) ↔
      (e = .stopLogged ∧ ∃ t ∈ s.toStop, Raised s t) ∨ e = .awaited ∧ ∃ t ∈ awaited? s, Raised s t := by
  constructor
  · intro hraised
    obtain ⟨error, hfail⟩ := hraised
    have hnot : ∀ registry cs, s'.tracker ≠ sweepFrom missingThresholdCycles registry cs :=
      ne_sweepFrom (by rw [hfail]; simp) (by rw [hfail]; simp)
    cases step_tracker h with
    | none ht => exact absurd (ht ▸ hfail) (hf error)
    | listed _ ht => exact absurd (ht ▸ hfail) (hf error)
    | sweep cs _ _ _ ht => exact absurd ht (hnot _ _)
    | forget c rest _ _ _ ht => exact absurd ht (hnot _ _)
    | await _ _ _ _ _ _ ht => rw [ht] at hfail; cases hfail
    | failStop c t rest error hs hl hr => exact .inl ⟨rfl, t, by rw [toStop, hs]; exact hl, error, hr⟩
    | failAwait c t rest error hs hr => exact .inr ⟨rfl, t, by rw [awaited?, hs]; rfl, error, hr⟩
    | interrupt _ _ _ _ _ ht => rw [ht] at hfail; cases hfail
    | cancel _ _ ht => rw [ht] at hfail; cases hfail
  · intro hway
    rcases hway with ⟨rfl, t, ht, error, hr⟩ | ⟨rfl, t, ht, error, hr⟩
    · cases hs : s.tracker with
      | logging c rest =>
        rw [toStop, hs] at ht
        rw [step, hs] at h
        cases h
        refine ⟨error, ?_⟩
        simp only [stop, Option.mem_def.mp ht, awaitTask, hr]
      | _ => rw [toStop, hs] at ht; cases ht
    · cases hs : s.tracker with
      | awaiting c u rest =>
        rw [awaited?, hs] at ht
        cases ht
        rw [step, hs] at h
        simp only [hr, Option.isSome_some, if_true] at h
        cases h
        refine ⟨error, ?_⟩
        simp only [awaitTask, hr]
      | _ => rw [awaited?, hs] at ht; cases ht

/-- The tracker has not failed, and does not await a listener that has raised. -/
structure Unharmed (s : Daemon) : Prop where
  alive : ∀ error, s.tracker ≠ .failed error
  awaits : ∀ t ∈ awaited? s, ¬ Raised s t

theorem init_unharmed : Unharmed {} where
  alive error h := by cases h
  awaits t h := by cases h

/-- A task that raises in this step, or had before. -/
theorem step_raised {s s' : Daemon} {e : Event} (h : step missingThresholdCycles s e = some s') {t : TaskId}
    (hr : Raised s' t) : Raised s t ∨ ∃ error, e = .ended t (.raised error) := by
  obtain ⟨error, hr⟩ := hr
  rcases step_listeners h with he | ⟨ref, rest, -, -, he⟩ | ⟨u, x, phase, hx, he, hm⟩
  · rw [he] at hr
    exact .inl ⟨error, hr⟩
  · rw [he] at hr
    by_cases ht : t < s.listeners.length
    · rw [List.getElem?_append_left ht] at hr
      exact .inl ⟨error, hr⟩
    · rw [List.getElem?_append_right (not_lt.mp ht)] at hr
      obtain ⟨y, hy, ho⟩ := Option.bind_eq_some_iff.mp hr
      rw [List.mem_singleton.mp (List.mem_iff_getElem?.mpr ⟨_, hy⟩)] at ho
      cases ho
  · by_cases hu : u = t
    · subst hu
      rw [he, List.getElem?_set_self (List.getElem?_eq_some_iff.mp hx).1, Option.bind_some] at hr
      cases hm with
      | started => cases hr
      | ended outcome =>
        cases hr
        exact .inr ⟨error, rfl⟩
      | callback outcome hp =>
        cases hr
        exact .inl ⟨error, by rw [hx, Option.bind_some, ListenerTask.outcome?, hp]⟩
    · rw [he, List.getElem?_set_ne hu] at hr
      exact .inl ⟨error, hr⟩

theorem step_unharmed {s s' : Daemon} {e : Event} (hU : Unharmed s) (hok : Harmless s e)
    (h : step missingThresholdCycles s e = some s') : Unharmed s' := by
  have hraised : ∀ t ∈ awaited? s, ¬ Raised s' t := by
    intro t ht hr
    rcases step_raised h hr with hr | ⟨error, rfl⟩
    · exact hU.awaits t ht hr
    · exact hok ht
  refine ⟨?_, ?_⟩
  · intro error hfail
    rcases (step_fails_iff hU.alive h).mp ⟨error, hfail⟩ with ⟨rfl, t, ht, hr⟩ | ⟨rfl, t, ht, hr⟩
    · exact hok t ht hr
    · exact hU.awaits t ht hr
  · intro t ht'
    have hidle : ∀ registry cs, s'.tracker ≠ sweepFrom missingThresholdCycles registry cs := by
      apply ne_sweepFrom
      · intro he
        rw [awaited?, he] at ht'
        cases ht'
      · intro c rest he
        rw [awaited?, he] at ht'
        cases ht'
    cases step_tracker h with
    | none ht => exact hraised t (by rw [awaited?, ← ht]; exact ht')
    | listed _ ht => exact hraised t (by rw [awaited?, ← ht]; exact ht')
    | sweep _ _ _ _ ht => exact absurd ht (hidle _ _)
    | forget _ _ _ _ _ ht => exact absurd ht (hidle _ _)
    | await c u rest hs hl _ ht =>
      rw [awaited?, ht] at ht'
      cases ht'
      intro hr
      rcases step_raised h hr with hr | ⟨error, he⟩
      · exact hok t (by rw [toStop, hs]; exact hl) hr
      · cases he
    | failStop _ _ _ _ _ _ _ _ ht => rw [awaited?, ht] at ht'; cases ht'
    | failAwait _ _ _ _ _ _ _ ht => rw [awaited?, ht] at ht'; cases ht'
    | interrupt _ _ _ _ _ ht => rw [awaited?, ht] at ht'; cases ht'
    | cancel _ _ ht => rw [awaited?, ht] at ht'; cases ht'

/-- In a run in which `stop` is neither called for a listener that has raised nor awaits one
    that raises, no sweep raises. -/
theorem tracker_survives (missingThresholdCycles : Int) {es : List Event} {s : Daemon}
    (hrun : (machine missingThresholdCycles).run {} es = some s)
    (hok : (machine missingThresholdCycles).Along Harmless {} es) : ∀ error, s.tracker ≠ .failed error := by
  have hU : Unharmed s := @Machine.run_inv _ _ (machine missingThresholdCycles) Harmless Unharmed
    (fun _ _ _ => step_unharmed) _ _ _ init_unharmed hok hrun
  exact hU.alive

/-- The listener has raised, its done callback is still to run, and the sweep stops it: the
    tracker is over. -/
theorem a_listener_takes_the_tracker_with_it :
    ∃ s, (machine 3).run {} (webVanishes ++ [.ended 0 (.raised "[Errno 24] Too many open files"), .stopLogged]) = some s ∧
      s.tracker = .failed "[Errno 24] Too many open files" ∧
      ∀ es s', (machine 3).run s es = some s' → s'.tracker = .failed "[Errno 24] Too many open files" := by
  have hrun : ((machine 3).run {} (webVanishes ++ [.ended 0 (.raised "[Errno 24] Too many open files"), .stopLogged])).map
      (·.tracker) = some (.failed "[Errno 24] Too many open files") := by decide +kernel
  obtain ⟨s, hs, htracker⟩ := Option.map_eq_some_iff.mp hrun
  refine ⟨s, hs, htracker, ?_⟩
  intro es s' hr
  exact Machine.run_inv (M := machine 3) (I := fun s => s.tracker = .failed "[Errno 24] Too many open files")
    (fun u e u' hu _ hstep => (step_over (by rw [hu]; trivial) hstep).trans hu) htracker (Machine.along_true s es) hr

def webRaisesEarly : List Event :=
  webStarts ++ [.ended 0 (.raised "[Errno 24] Too many open files"), .callback 0, .listed [], .listed [], .listed [], .sweep []]

/-- The listener raises and its done callback runs before the sweep. -/
theorem a_listener_that_raised_before_is_no_harm :
    ∃ s, (machine 3).run {} webRaisesEarly = some s ∧ ∀ error, s.tracker ≠ .failed error := by
  have hrun : ((machine 3).run {} webRaisesEarly).map (·.tracker) = some .sleeping := by decide +kernel
  obtain ⟨s, hs, -⟩ := Option.map_eq_some_iff.mp hrun
  exact ⟨s, hs, tracker_survives 3 hs (by decide +kernel)⟩

end Daemon

end LogSump.Listener
