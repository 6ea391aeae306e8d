/-
  LogSump.Listener.Shutdown — `__main__.py`: the process of all daemons, from a signal to the
  closing of the records logger.

  A signal sets the event; after a log call `run`'s task is cancelled, which cancels the
  children of its gathers: the listing loop and the tracker of each daemon. The gathers end
  with their first child, then the records logger is closed. The listener tasks are no
  children of a gather.

  - `step_drained`: after the cancellation no listener is started any more.
  - `closes_after_the_listeners_iff`: no listener runs when the records logger is closed,
    exactly where none ran when `run` was cancelled.
-/

import LogSump.Listener.TrackerEnds

namespace LogSump.Listener

open Foundation

/-- Where `_run_until_signal` is. -/
inductive Main where
  | running
  /-- In its log call, after a signal. -/
  | signalled
  /-- Awaiting the task of `run` that it has cancelled. -/
  | cancelling
  | closed
  /-- `run` has raised, and the records logger is not closed here. -/
  | crashed
  deriving DecidableEq, Repr

structure Process (δ : Type*) where
  daemons : δ → Daemon := fun _ => {}
  main : Main := .running

inductive ProcessEvent (δ : Type*) where
  | daemon (d : δ) (e : Event)
  | signal
  | cancel
  | close
  deriving DecidableEq, Repr

/-- The loops are not cancelled one by one. -/
def Event.Own : Event → Prop
  | .cancelListing => False
  | .cancelTracker => False
  | _ => True

instance : DecidablePred Event.Own
  | .cancelListing | .cancelTracker => isFalse id
  | .listed _ | .permit | .spawnLogged | .started _ | .ended _ _ | .callback _ | .sweep _ | .stopLogged | .awaited =>
    isTrue trivial

/-- What `run_once` has raised. -/
def Tracker.error? : Tracker → Option String
  | .failed error => some error
  | _ => none

namespace Process

variable {δ : Type*} [DecidableEq δ] (missingThresholdCycles : Int)

/-- Where `run_once` has raised, `run` raises through the gathers, unless it is cancelled
    already. -/
def raise (s : Daemon) : Main → Main
  | .running => if s.tracker.error?.isSome then .crashed else .running
  | .signalled => if s.tracker.error?.isSome then .crashed else .signalled
  | main => main

/-- The cancellation of a daemon's loops. -/
def cancelLoops (s : Daemon) : Daemon := Daemon.cancelTracker { s with listing := .cancelled }

def step (p : Process δ) : ProcessEvent δ → Option (Process δ)
  | .daemon d e =>
    if e.Own then
      (Daemon.step missingThresholdCycles (p.daemons d) e).map fun s =>
        ⟨Function.update p.daemons d s, raise s p.main⟩
    else none
  | .signal => if p.main = .running then some { p with main := .signalled } else none
  | .cancel => if p.main = .signalled then some ⟨fun d => cancelLoops (p.daemons d), .cancelling⟩ else none
  | .close => if p.main = .cancelling then some { p with main := .closed } else none

def machine : Machine (Process δ) (ProcessEvent δ) where
  init p := p = {}
  step := step missingThresholdCycles

/-- The listener tasks of all daemons have ended. -/
def Quiet (p : Process δ) : Prop := ∀ d, ∀ x ∈ (p.daemons d).listeners, ¬ x.Running

variable {missingThresholdCycles}

theorem cancelLoops_listeners (s : Daemon) : (cancelLoops s).listeners = s.listeners := (Daemon.cancelTracker_frame _).1

theorem cancelLoops_listing (s : Daemon) : (cancelLoops s).listing = .cancelled := (Daemon.cancelTracker_frame _).2.2.2

/-- Each daemon of the process is one as it is alone. -/
theorem daemon_reach {p : Process δ} (h : (machine missingThresholdCycles).Reach p) :
    ∀ d, (Daemon.machine missingThresholdCycles).Reach (p.daemons d) := by
  induction h with
  | init h =>
    cases h
    exact fun d => .init rfl
  | @step p q e _ hs ih =>
    cases e with
    | daemon d e =>
      simp only [machine, step] at hs
      split at hs
      · obtain ⟨s, hstep, rfl⟩ := Option.map_eq_some_iff.mp hs
        apply (Function.forall_update_iff p.daemons fun _ s => (Daemon.machine missingThresholdCycles).Reach s).mpr
        exact ⟨.step e (ih d) hstep, fun d' _ => ih d'⟩
      · cases hs
    | signal =>
      simp only [machine, step] at hs
      split at hs <;> cases hs
      exact ih
    | cancel =>
      simp only [machine, step] at hs
      split at hs <;> cases hs
      exact fun d => .step .cancelTracker (.step .cancelListing (ih d) rfl) rfl
    | close =>
      simp only [machine, step] at hs
      split at hs <;> cases hs
      exact ih

/-! ## After the cancellation -/

/-- The daemon's listing loop is cancelled, and none of its listeners runs. -/
structure Drained (s : Daemon) : Prop where
  listing : s.listing = .cancelled
  ended : ∀ x ∈ s.listeners, ¬ x.Running

theorem cancelLoops_drained {s : Daemon} (h : ∀ x ∈ s.listeners, ¬ x.Running) : Drained (cancelLoops s) :=
  ⟨cancelLoops_listing s, fun x hx => h x (cancelLoops_listeners s ▸ hx)⟩

theorem step_drained {s s' : Daemon} {e : Event} (hD : Drained s) (h : Daemon.step missingThresholdCycles s e = some s') :
    Drained s' := by
  have hlisting := hD.listing
  constructor
  · cases Daemon.step_listing h with
    | none he => rw [he]; exact hlisting
    | listed _ hs => rw [hs] at hlisting; cases hlisting
    | create _ _ hs => rw [hs] at hlisting; cases hlisting
    | skip _ _ hs => rw [hs] at hlisting; cases hlisting
    | logged _ hs => rw [hs] at hlisting; cases hlisting
    | cancel he => exact he
  · intro x' hx' hr
    obtain ⟨t, ht⟩ := List.mem_iff_getElem?.mp hx'
    rcases Daemon.step_new_task h ht with ⟨x, hx, -⟩ | ⟨rest, hs, -, -⟩
    · obtain ⟨x'', hx'', -, hrun⟩ := Daemon.step_keeps_task h hx
      rw [ht] at hx''
      cases hx''
      exact hD.ended x (List.mem_iff_getElem?.mpr ⟨t, hx⟩) (hrun hr)
    · rw [hs] at hlisting
      cases hlisting

/-- `run` is cancelled, and the daemons have no listeners. -/
structure Ending (p : Process δ) : Prop where
  main : p.main = .cancelling ∨ p.main = .closed
  drained : ∀ d, Drained (p.daemons d)

theorem step_ending {p q : Process δ} {e : ProcessEvent δ} (hE : Ending p) (h : step missingThresholdCycles p e = some q) :
    Ending q := by
  have hlate : p.main ≠ .running ∧ p.main ≠ .signalled := by
    rcases hE.main with hm | hm
    · rw [hm]
      simp
    · rw [hm]
      simp
  cases e with
  | daemon d e =>
    simp only [step] at h
    split at h
    · obtain ⟨s, hs, rfl⟩ := Option.map_eq_some_iff.mp h
      constructor
      · rcases hE.main with hm | hm
        · exact .inl (by rw [hm]; rfl)
        · exact .inr (by rw [hm]; rfl)
      · apply (Function.forall_update_iff p.daemons fun _ s => Drained s).mpr
        exact ⟨step_drained (hE.drained d) hs, fun d' _ => hE.drained d'⟩
    · cases h
  | signal =>
    rw [step, if_neg hlate.1] at h
    cases h
  | cancel =>
    rw [step, if_neg hlate.2] at h
    cases h
  | close =>
    simp only [step] at h
    split at h <;> cases h
    exact ⟨.inr rfl, hE.drained⟩

/-- In any state after a signal, and whatever happens then: no listener task runs when the
    records logger is closed precisely when none ran when `run` was cancelled. -/
theorem closes_after_the_listeners_iff (missingThresholdCycles : Int) {p : Process δ} (hp : p.main = .signalled) :
    (∀ es q, (machine missingThresholdCycles).run p (.cancel :: es) = some q → q.main = .closed → Quiet q) ↔ Quiet p := by
  have hcancel : step missingThresholdCycles p .cancel = some ⟨fun d => cancelLoops (p.daemons d), .cancelling⟩ := if_pos hp
  constructor
  · intro hclosed d x hx
    have hrun : (machine missingThresholdCycles).run p [.cancel, .close] =
        some ⟨fun d => cancelLoops (p.daemons d), .closed⟩ :=
      Machine.run_cons.mpr ⟨_, hcancel, rfl⟩
    exact hclosed [.close] _ hrun rfl d x (by rw [cancelLoops_listeners]; exact hx)
  · intro hquiet es q hrun _ d
    obtain ⟨p₁, hp₁, hrun⟩ := Machine.run_cons.mp hrun
    have hstart : Ending p₁ := by
      rw [show step missingThresholdCycles p .cancel = some p₁ from hp₁] at hcancel
      cases hcancel
      exact ⟨.inl rfl, fun d => cancelLoops_drained (hquiet d)⟩
    have hend : Ending q := Machine.run_inv (M := machine missingThresholdCycles) (I := Ending)
      (fun _ _ _ hE _ hs => step_ending hE hs) hstart (Machine.along_true _ es) hrun
    exact (hend.drained d).ended

/-- What is left of a process with one daemon: its tasks, and where the main task is. -/
def rest (p : Process Unit) : List ListenerTask × Main := ((p.daemons ()).listeners, p.main)

/-- A streaming listener outlives the records logger. -/
theorem a_listener_outlives_the_records_logger :
    ∃ p q : Process Unit, (machine 3).run {} (Daemon.webStarts.map (.daemon ()) ++ [.signal]) = some p ∧
      p.main = .signalled ∧ (machine 3).run p [.cancel, .close] = some q ∧ q.main = .closed ∧
      (q.daemons ()).listeners = [⟨Daemon.web, .streaming⟩] ∧ ¬ Quiet q := by
  have hrun : ((machine 3).run {} (Daemon.webStarts.map (.daemon ()) ++ [.signal] ++ [.cancel, .close])).map rest =
      some ([⟨Daemon.web, .streaming⟩], .closed) := by decide +kernel
  obtain ⟨q, hq, hrest⟩ := Option.map_eq_some_iff.mp hrun
  obtain ⟨hlist, hmain⟩ := Prod.mk.inj hrest
  obtain ⟨p, hp, hq⟩ := Machine.run_append.mp hq
  have hsignalled : ((machine 3).run {} (Daemon.webStarts.map (.daemon ()) ++ [.signal])).map rest =
      some ([⟨Daemon.web, .streaming⟩], .signalled) := by decide +kernel
  rw [hp, Option.map_some, Option.some.injEq] at hsignalled
  refine ⟨p, q, hp, (Prod.mk.inj hsignalled).2, hq, hmain, hlist, ?_⟩
  intro hquiet
  exact hquiet () ⟨Daemon.web, .streaming⟩ (hlist ▸ List.mem_singleton_self _) rfl

/-- One that has ended before does not. -/
theorem an_ended_listener_does_not :
    ∃ p q : Process Unit,
      (machine 3).run {} (Daemon.webStarts.map (.daemon ()) ++ [.daemon () (.ended 0 .returned), .signal]) = some p ∧
      (machine 3).run p [.cancel, .close] = some q ∧ Quiet q := by
  have hrun : ((machine 3).run {} (Daemon.webStarts.map (.daemon ()) ++
      [.daemon () (.ended 0 .returned), .signal])).map rest =
      some ([⟨Daemon.web, .ended .returned true⟩], .signalled) := by decide +kernel
  obtain ⟨p, hp, hrest⟩ := Option.map_eq_some_iff.mp hrun
  obtain ⟨hlist, hmain⟩ := Prod.mk.inj hrest
  have hquiet : Quiet p := by
    intro d x hx hr
    have hx : x ∈ (p.daemons ()).listeners := hx
    rw [show (p.daemons ()).listeners = [⟨Daemon.web, .ended .returned true⟩] from hlist, List.mem_singleton] at hx
    rw [hx] at hr
    cases hr
  have hq : (machine 3).run p [.cancel, .close] = some ⟨fun d => cancelLoops (p.daemons d), .closed⟩ :=
    Machine.run_cons.mpr ⟨_, if_pos hmain, rfl⟩
  exact ⟨p, _, hp, hq, (closes_after_the_listeners_iff 3 hmain).mpr hquiet [.close] _ hq rfl⟩

end Process

end LogSump.Listener
