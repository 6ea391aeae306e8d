/-
  LogSump.Listener.Startups — the daemons of one process and the semaphore that their
  `ListenerManager`s share.

  A start-up is in flight from the creation of a listener's task until `stream_lines` has
  created its subprocess. The permit is held around the creation of the task and the log
  call after it; the subprocess is created later, in the task. So the permits bound the
  start-ups in flight only as long as none is given back before the task that was created
  under it has started.

  - `held_le`: no more permits are held than there are.
  - `startups_bounded`: the bound, in runs in which no permit is given back early.
  - `a_burst_exceeds_the_semaphore`: one permit and two new containers.
-/

import LogSump.Listener.Daemon

namespace LogSump.Listener.Startups

open Foundation

/-- A listing loop holds a permit in the log call after a task was created. -/
def permits : Listing → Nat
  | .logging _ => 1
  | _ => 0

/-- Of one daemon's listeners, those without a subprocess yet. -/
def starting (s : Daemon) : Nat := s.listeners.countP fun x => x.phase = .starting

/-- The step ends the log call. -/
def GivesBack (s : Daemon) (e : Event) : Prop := 0 < permits s.listing ∧ (e = .spawnLogged ∨ e = .cancelListing)

instance (s : Daemon) (e : Event) : Decidable (GivesBack s e) :=
  inferInstanceAs (Decidable (0 < permits s.listing ∧ (e = .spawnLogged ∨ e = .cancelListing)))

section
variable {δ : Type} [Fintype δ] [DecidableEq δ]

def held (p : δ → Daemon) : Nat := ∑ d, permits (p d).listing

def inFlight (p : δ → Daemon) : Nat := ∑ d, starting (p d)

/-- The daemons of a process, none of which passes the semaphore while all permits are held. -/
def machine (maxSpawns : Nat) (missingThresholdCycles : Int) : Machine (δ → Daemon) (δ × Event) where
  init p := p = fun _ => {}
  step p e :=
    if e.2 = .permit ∧ maxSpawns ≤ held p then none
    else (Machine.family fun _ : δ => Daemon.machine missingThresholdCycles).step p e

/-- A permit is given back only where none of the daemon's start-ups is in flight. -/
def StartedFirst (p : δ → Daemon) (e : δ × Event) : Prop := GivesBack (p e.1) e.2 → starting (p e.1) = 0

instance (p : δ → Daemon) (e : δ × Event) : Decidable (StartedFirst p e) :=
  inferInstanceAs (Decidable (GivesBack (p e.1) e.2 → starting (p e.1) = 0))

end

/-! ## One daemon -/

variable {maxSpawns : Nat} {missingThresholdCycles : Int}

theorem permits_spawnAll (tasks : AList fun _ : String => TaskId) (refs : List ContainerRef) :
    permits (Daemon.spawnAll tasks refs) = 0 := by
  induction refs with
  | nil => rfl
  | cons ref refs ih =>
    unfold Daemon.spawnAll
    split
    · exact ih
    · rfl

/-- A daemon comes to hold a permit at the semaphore only. -/
theorem step_permits {s s' : Daemon} {e : Event} (h : Daemon.step missingThresholdCycles s e = some s') :
    permits s'.listing ≤ permits s.listing ∨ (e = .permit ∧ permits s.listing = 0 ∧ permits s'.listing = 1) := by
  cases Daemon.step_listing h with
  | none hl => exact .inl (by rw [hl])
  | listed listing _ hl => exact .inl (by rw [hl, permits_spawnAll]; exact Nat.zero_le _)
  | create ref rest hs _ hl _ => exact .inr ⟨rfl, by rw [hs]; rfl, by rw [hl]; rfl⟩
  | skip ref rest _ _ hl => exact .inl (by rw [hl, permits_spawnAll]; exact Nat.zero_le _)
  | logged rest _ hl => exact .inl (by rw [hl, permits_spawnAll]; exact Nat.zero_le _)
  | cancel hl => exact .inl (by rw [hl]; exact Nat.zero_le _)

/-- No task goes back to its start. -/
theorem starting_setPhase_le (s : Daemon) (t : TaskId) (x : ListenerTask) {phase : Phase} (h : phase ≠ .starting) :
    starting (Daemon.setPhase s t x phase) ≤ starting s := by
  by_cases ht : t < s.listeners.length
  · unfold starting Daemon.setPhase
    rw [List.countP_set ht]
    simp [h]
  · have hsame : s.listeners.set t { x with phase } = s.listeners := List.set_eq_of_length_le (not_lt.mp ht)
    unfold starting Daemon.setPhase
    rw [hsame]

/-- Where a daemon's start-ups in flight are no more than its permits, they stay so in a step
    that gives back no permit early. -/
theorem step_starting {s s' : Daemon} {e : Event} (hs : starting s ≤ permits s.listing)
    (hearly : GivesBack s e → starting s = 0) (h : Daemon.step missingThresholdCycles s e = some s') :
    starting s' ≤ permits s'.listing := by
  have hsame : ∀ {u : Daemon}, u.listeners = s.listeners → u.listing = s.listing → starting u ≤ permits u.listing := by
    intro u hu hl
    rw [hl, starting, hu]
    exact hs
  cases Daemon.step_moves h with
  | listed listing hl =>
    rw [hl] at hs
    exact hs.trans (Nat.zero_le _)
  | permit ref rest hl =>
    rw [hl] at hs
    unfold Daemon.permitted
    split
    · exact hs.trans (Nat.zero_le _)
    · have hcount : starting s = 0 := Nat.le_zero.mp hs
      unfold starting at hcount ⊢
      simp [hcount, permits]
  | spawnLogged rest hl =>
    have hback : GivesBack s .spawnLogged := ⟨by rw [hl]; exact Nat.one_pos, .inl rfl⟩
    exact (hearly hback).le.trans (Nat.zero_le _)
  | started t x _ _ => exact (starting_setPhase_le s t x (by simp)).trans hs
  | ended t x outcome _ _ => exact (starting_setPhase_le s t x (by simp)).trans hs
  | callback t x outcome _ _ => exact (starting_setPhase_le s t x (by simp)).trans hs
  | sweep _ _ _ => exact hs
  | stopLogged c rest _ => exact hsame (Daemon.stop_frame s c rest).1 (Daemon.stop_frame s c rest).2.1
  | awaited c t rest _ _ => exact hsame (Daemon.awaitTask_frame s c t rest).1 (Daemon.awaitTask_frame s c t rest).2.1
  | interrupted _ _ _ => exact hs
  | cancelListing =>
    have hzero : starting s = 0 := by
      by_cases hp : 0 < permits s.listing
      · exact hearly ⟨hp, .inr rfl⟩
      · omega
    exact hzero.le.trans (Nat.zero_le _)
  | cancelTracker => exact hsame (Daemon.cancelTracker_frame s).1 (Daemon.cancelTracker_frame s).2.2.2

/-! ## All daemons -/

section
variable {δ : Type} [Fintype δ] [DecidableEq δ]

theorem machine_step {p q : δ → Daemon} {e : δ × Event}
    (h : (machine maxSpawns missingThresholdCycles).step p e = some q) :
    (e.2 = .permit → held p < maxSpawns) ∧
      ∃ s, Daemon.step missingThresholdCycles (p e.1) e.2 = some s ∧ q = Function.update p e.1 s := by
  simp only [machine] at h
  split at h
  · cases h
  · rename_i hguard
    refine ⟨fun he => ?_, Machine.family_step h⟩
    by_contra hlt
    exact hguard ⟨he, not_lt.mp hlt⟩

/-- A step of one daemon changes a total by what it changes there. -/
theorem sum_update (f : Daemon → Nat) (p : δ → Daemon) (d : δ) (s : Daemon) :
    ∑ i, f (Function.update p d s i) + f (p d) = ∑ i, f (p i) + f s := by
  have hsplit : ∀ g : δ → Daemon, ∑ i, f (g i) = f (g d) + ∑ i ∈ Finset.univ.erase d, f (g i) :=
    fun g => (Finset.add_sum_erase _ _ (Finset.mem_univ d)).symm
  have hrest : ∑ i ∈ Finset.univ.erase d, f (Function.update p d s i) = ∑ i ∈ Finset.univ.erase d, f (p i) :=
    Finset.sum_congr rfl fun i hi => by rw [Function.update_of_ne (Finset.ne_of_mem_erase hi)]
  rw [hsplit (Function.update p d s), hsplit p, Function.update_self, hrest]
  omega

theorem step_held {p q : δ → Daemon} {e : δ × Event} (hp : held p ≤ maxSpawns)
    (h : (machine maxSpawns missingThresholdCycles).step p e = some q) : held q ≤ maxSpawns := by
  obtain ⟨hguard, s, hs, rfl⟩ := machine_step h
  have hsum := sum_update (fun s => permits s.listing) p e.1 s
  unfold held at hp hguard ⊢
  rcases step_permits hs with hle | ⟨he, hzero, hone⟩
  · omega
  · have hlt := hguard he
    omega

theorem held_le {p : δ → Daemon} (h : (machine maxSpawns missingThresholdCycles).Reach p) : held p ≤ maxSpawns := by
  refine h.inv (I := fun p => held p ≤ maxSpawns) (fun p hp => ?_) fun _ _ _ hp hs => step_held hp hs
  obtain rfl : p = fun _ => {} := hp
  have hzero : held (fun _ : δ => ({} : Daemon)) = 0 := Finset.sum_eq_zero fun _ _ => rfl
  exact hzero.le.trans (Nat.zero_le _)

/-- Each daemon's start-ups in flight are covered by its permits. -/
def Covered (p : δ → Daemon) : Prop := ∀ d, starting (p d) ≤ permits (p d).listing

theorem step_covered {p q : δ → Daemon} {e : δ × Event} (hp : Covered p) (hok : StartedFirst p e)
    (h : (machine maxSpawns missingThresholdCycles).step p e = some q) : Covered q := by
  obtain ⟨-, s, hs, rfl⟩ := machine_step h
  apply (Function.forall_update_iff p fun _ s => starting s ≤ permits s.listing).mpr
  exact ⟨step_starting (hp e.1) hok hs, fun d _ => hp d⟩

/-- Whatever the number of daemons and the burst: in a run in which each permit is given back
    only after the daemon's start-ups have ended, no more start-ups are in flight than
    the semaphore has permits. -/
theorem startups_bounded (maxSpawns : Nat) (missingThresholdCycles : Int) {es : List (δ × Event)} {p : δ → Daemon}
    (hrun : (machine maxSpawns missingThresholdCycles).run (fun _ => {}) es = some p)
    (hok : (machine maxSpawns missingThresholdCycles).Along StartedFirst (fun _ => {}) es) : inFlight p ≤ maxSpawns := by
  have hstart : Covered (fun _ : δ => ({} : Daemon)) := fun _ => Nat.le_refl _
  have hcovered : Covered p := Machine.run_inv (I := Covered) (fun _ _ _ hp hk hs => step_covered hp hk hs) hstart hok hrun
  have hheld : held p ≤ maxSpawns := held_le ((Machine.Reach.init rfl).run hrun)
  exact (Finset.sum_le_sum fun d _ => hcovered d).trans hheld

end

/-! ## A burst of two containers -/

def burst : List ContainerRef := [⟨"a1b2c3d4e5f6", "web-1"⟩, ⟨"b1b2c3d4e5f6", "web-2"⟩]

/-- Each container's subprocess is created before the next one's turn. -/
def unhurried : List (Unit × Event) :=
  [((), .listed burst), ((), .permit), ((), .started 0), ((), .spawnLogged), ((), .permit)]

theorem one_at_a_time : ∃ p, (machine 1 3).run (fun _ => {}) unhurried = some p ∧ inFlight p ≤ 1 := by
  have hrun : ((machine 1 3).run (fun _ => {}) unhurried).isSome := by decide +kernel
  obtain ⟨p, hp⟩ := Option.isSome_iff_exists.mp hrun
  exact ⟨p, hp, startups_bounded 1 3 hp (by decide +kernel)⟩

/-- One permit, and both containers' tasks are created before either has its subprocess. -/
theorem a_burst_exceeds_the_semaphore :
    ∃ p, (machine 1 3).run (fun _ => {}) [((), .listed burst), ((), .permit), ((), .spawnLogged), ((), .permit)] = some p ∧
      inFlight p = 2 := by
  have hrun : ((machine 1 3).run (fun _ => {})
      [((), .listed burst), ((), .permit), ((), .spawnLogged), ((), .permit)]).map inFlight = some 2 := by decide +kernel
  exact Option.map_eq_some_iff.mp hrun

end LogSump.Listener.Startups
