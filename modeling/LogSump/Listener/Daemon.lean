/-
  LogSump.Listener.Daemon — one daemon's part of log-listener: the registry, the
  `ListenerManager`, the listing loop and the `ContainerTracker` on one event loop.

  A step is what runs between two suspension points. The listing loop suspends before the
  semaphore and in the log call that it guards; the tracker suspends in its log call and
  where `stop` awaits the cancelled task. A listener task may end at any moment, in any
  way; its done callback runs in a later step. Permits of the semaphore come at any moment,
  as the other daemons share it. Either loop may be cancelled at any moment.

  - `step_moves`: the ways through `step`.
  - `step_listeners`, `step_tracker`, `step_listing`: what these do to the tasks, to the
    tracker with the registry, and to the listing loop.
-/

import LogSump.Foundation.Machine
import LogSump.Listener.Registry

namespace LogSump.Listener

open Foundation

/-- An index into the tasks created so far. -/
abbrev TaskId := Nat

inductive Outcome where
  | returned
  | cancelled
  | raised (error : String)
  deriving DecidableEq, Repr

inductive Phase where
  /-- `stream_lines` has not created the subprocess yet. -/
  | starting
  | streaming
  | ended (outcome : Outcome) (callbackDue : Bool)
  deriving DecidableEq, Repr

structure ListenerTask where
  ref : ContainerRef
  phase : Phase
  deriving DecidableEq, Repr

namespace ListenerTask

def containerId (x : ListenerTask) : String := x.ref.containerId

def outcome? (x : ListenerTask) : Option Outcome :=
  match x.phase with
  | .ended outcome _ => some outcome
  | _ => none

def Running (x : ListenerTask) : Prop := x.outcome? = none

instance : DecidablePred Running := fun x => inferInstanceAs (Decidable (x.outcome? = none))

end ListenerTask

/-- Where the listing loop is. -/
inductive Listing where
  | sleeping
  /-- In `spawn(ref)`, at the semaphore; `rest` is still to be called back for. -/
  | acquiring (ref : ContainerRef) (rest : List ContainerRef)
  /-- In the log call after a task was created, with the permit. -/
  | logging (rest : List ContainerRef)
  | cancelled
  deriving DecidableEq, Repr

/-- Where the tracker is. -/
inductive Tracker where
  | sleeping
  /-- In the log call before a container's listener is stopped. -/
  | logging (containerId : String) (rest : List String)
  /-- In `stop`, awaiting the cancelled task. -/
  | awaiting (containerId : String) (task : TaskId) (rest : List String)
  /-- There still, with the task ended and a CancelledError to be raised at the await. -/
  | interrupted (containerId : String) (rest : List String)
  | cancelled
  /-- `run_once` raised, which ends `run_forever`. -/
  | failed (error : String)
  deriving DecidableEq, Repr

structure Daemon where
  registry : DaemonState := {}
  /-- `_tasks`. -/
  tasks : AList fun _ : String => TaskId := ∅
  listeners : List ListenerTask := []
  listing : Listing := .sleeping
  tracker : Tracker := .sleeping

inductive Event where
  | listed (listing : List ContainerRef)
  | permit
  | spawnLogged
  | started (t : TaskId)
  | ended (t : TaskId) (outcome : Outcome)
  | callback (t : TaskId)
  | sweep (containerIds : List String)
  | stopLogged
  | awaited
  | cancelListing
  | cancelTracker
  deriving DecidableEq, Repr

namespace Daemon

/-! ## The listing loop -/

/-- The callbacks, up to the first that has to wait for the semaphore. -/
def spawnAll (tasks : AList fun _ : String => TaskId) : List ContainerRef → Listing
  | [] => .sleeping
  | ref :: rest => if ref.containerId ∈ tasks then spawnAll tasks rest else .acquiring ref rest

def listed (s : Daemon) (listing : List ContainerRef) : Daemon :=
  let (registry, newRefs) := s.registry.update listing
  { s with registry, listing := spawnAll s.tasks newRefs }

/-- `spawn` with the semaphore acquired. -/
def permitted (s : Daemon) (ref : ContainerRef) (rest : List ContainerRef) : Daemon :=
  if ref.containerId ∈ s.tasks then { s with listing := spawnAll s.tasks rest }
  else
    { s with
      tasks := s.tasks.insert ref.containerId s.listeners.length
      listeners := s.listeners ++ [⟨ref, .starting⟩]
      listing := .logging rest }

/-! ## The tracker -/

variable (missingThresholdCycles : Int)

/-- `misses >= missing_threshold_cycles`; an unknown container has the threshold's misses. -/
def missing (registry : DaemonState) (containerId : String) : Bool :=
  match registry.containers.lookup containerId with
  | none => true
  | some state => missingThresholdCycles ≤ (registry.listingSeq : Int) - state.lastSeenSeq

/-- `run_once` from its next container on, up to the first that is missing. -/
def sweepFrom (registry : DaemonState) : List String → Tracker
  | [] => .sleeping
  | c :: rest => if missing missingThresholdCycles registry c then .logging c rest else sweepFrom registry rest

/-- After `stop` returned: forget the container and go on. -/
def forgotten (s : Daemon) (containerId : String) (rest : List String) : Daemon :=
  let registry := s.registry.forget containerId
  { s with registry, tracker := sweepFrom missingThresholdCycles registry rest }

/-- `await task` in `stop`. Only the task's cancellation is caught. -/
def awaitTask (s : Daemon) (containerId : String) (t : TaskId) (rest : List String) : Daemon :=
  match s.listeners[t]?.bind ListenerTask.outcome? with
  | none => { s with tracker := .awaiting containerId t rest }
  | some (.raised error) => { s with tracker := .failed error }
  | some _ => forgotten missingThresholdCycles s containerId rest

/-- `stop`. -/
def stop (s : Daemon) (containerId : String) (rest : List String) : Daemon :=
  match s.tasks.lookup containerId with
  | none => forgotten missingThresholdCycles s containerId rest
  | some t => awaitTask missingThresholdCycles { s with tasks := s.tasks.erase containerId } containerId t rest

/-- `cancel` on the tracker's task. It is passed on to a task that the tracker awaits; where
    that one has ended already, it is raised in `stop`, which catches it. -/
def cancelTracker (s : Daemon) : Daemon :=
  match s.tracker with
  | .sleeping => { s with tracker := .cancelled }
  | .logging _ _ => { s with tracker := .cancelled }
  | .awaiting c t rest =>
    if (s.listeners[t]?.bind ListenerTask.outcome?).isSome then { s with tracker := .interrupted c rest } else s
  | _ => s

/-! ## The listener tasks -/

def setPhase (s : Daemon) (t : TaskId) (x : ListenerTask) (phase : Phase) : Daemon :=
  { s with listeners := s.listeners.set t { x with phase } }

/-- `on_done`. -/
def onDone (s : Daemon) (t : TaskId) (x : ListenerTask) (outcome : Outcome) : Daemon :=
  { setPhase s t x (.ended outcome false) with
    tasks := if s.tasks.lookup x.containerId = some t then s.tasks.erase x.containerId else s.tasks }

/-! ## Steps -/

def step (s : Daemon) : Event → Option Daemon
  | .listed listing => if s.listing = .sleeping then some (listed s listing) else none
  | .permit =>
    match s.listing with
    | .acquiring ref rest => some (permitted s ref rest)
    | _ => none
  | .spawnLogged =>
    match s.listing with
    | .logging rest => some { s with listing := spawnAll s.tasks rest }
    | _ => none
  | .started t =>
    match s.listeners[t]? with
    | some x => if x.phase = .starting then some (setPhase s t x .streaming) else none
    | none => none
  | .ended t outcome =>
    match s.listeners[t]? with
    | some x => if x.Running then some (setPhase s t x (.ended outcome true)) else none
    | none => none
  | .callback t =>
    match s.listeners[t]? with
    | some x =>
      match x.phase with
      | .ended outcome true => some (onDone s t x outcome)
      | _ => none
    | none => none
  | .sweep containerIds =>
    -- a set is iterated in any order
    if s.tracker = .sleeping ∧ containerIds.Perm s.tasks.keys then
      some { s with tracker := sweepFrom missingThresholdCycles s.registry containerIds }
    else none
  | .stopLogged =>
    match s.tracker with
    | .logging c rest => some (stop missingThresholdCycles s c rest)
    | _ => none
  | .awaited =>
    match s.tracker with
    | .awaiting c t rest =>
      if (s.listeners[t]?.bind ListenerTask.outcome?).isSome then some (awaitTask missingThresholdCycles s c t rest)
      else none
    | .interrupted c rest => some (forgotten missingThresholdCycles s c rest)
    | _ => none
  | .cancelListing => some { s with listing := .cancelled }
  | .cancelTracker => some (cancelTracker s)

def machine : Machine Daemon Event where
  init s := s = {}
  step := step missingThresholdCycles

/-! ## What the loops have in hand -/

end Daemon

/-- The containers that are still to be called back for. -/
def Listing.pending : Listing → List ContainerRef
  | .acquiring ref rest => ref :: rest
  | .logging rest => rest
  | _ => []

/-- The containers that the sweep has still to judge or to forget. -/
def Tracker.held : Tracker → List String
  | .logging c rest => c :: rest
  | .awaiting c _ rest => c :: rest
  | .interrupted c rest => c :: rest
  | _ => []

/-- The container whose listener `stop` has taken out of `_tasks`. -/
def Tracker.stopping : Tracker → Option String
  | .awaiting c _ _ => some c
  | .interrupted c _ => some c
  | _ => none

/-- The tracker's task has ended. -/
def Tracker.Over : Tracker → Prop
  | .cancelled => True
  | .failed _ => True
  | _ => False

theorem Tracker.mem_held_of_stopping {p : Tracker} {c : String} (h : p.stopping = some c) : c ∈ p.held := by
  cases p <;> cases h <;> exact List.mem_cons_self

namespace Daemon

theorem spawnAll_pending {tasks : AList fun _ : String => TaskId} {refs : List ContainerRef}
    (h : ∀ ref ∈ refs, ref.containerId ∉ tasks) : (spawnAll tasks refs).pending = refs := by
  cases refs with
  | nil => rfl
  | cons ref rest => rw [spawnAll, if_neg (h ref List.mem_cons_self)]; rfl

variable {missingThresholdCycles : Int}

theorem sweepFrom_held (registry : DaemonState) (cs : List String) :
    (sweepFrom missingThresholdCycles registry cs).held.Sublist cs := by
  induction cs with
  | nil => exact .slnil
  | cons c cs ih =>
    unfold sweepFrom
    split
    · exact .refl _
    · exact ih.cons c

theorem sweepFrom_cases (registry : DaemonState) (cs : List String) :
    sweepFrom missingThresholdCycles registry cs = .sleeping ∨
      ∃ c rest, sweepFrom missingThresholdCycles registry cs = .logging c rest := by
  induction cs with
  | nil => exact .inl rfl
  | cons d cs ih =>
    unfold sweepFrom
    split
    · exact .inr ⟨d, cs, rfl⟩
    · exact ih

/-- `run_once` goes on to its end, or to a log call. -/
theorem ne_sweepFrom {p : Tracker} (hs : p ≠ .sleeping) (hl : ∀ c rest, p ≠ .logging c rest) (registry : DaemonState)
    (cs : List String) : p ≠ sweepFrom missingThresholdCycles registry cs := by
  intro hx
  subst hx
  rcases @sweepFrom_cases missingThresholdCycles registry cs with h | ⟨c, rest, h⟩
  · exact hs h
  · exact hl c rest h

theorem sweepFrom_stopping (registry : DaemonState) (cs : List String) :
    (sweepFrom missingThresholdCycles registry cs).stopping = none := by
  rcases @sweepFrom_cases missingThresholdCycles registry cs with h | ⟨c, rest, h⟩
  · rw [h]; rfl
  · rw [h]; rfl

/-! ## What a step can change -/

/-- The ways through `step`, each with its guard and the state it leaves. -/
inductive Moves (missingThresholdCycles : Int) (s : Daemon) : Event → Daemon → Prop where
  | listed (listing : List ContainerRef) : s.listing = .sleeping →
      Moves missingThresholdCycles s (.listed listing) (listed s listing)
  | permit (ref : ContainerRef) (rest : List ContainerRef) : s.listing = .acquiring ref rest →
      Moves missingThresholdCycles s .permit (permitted s ref rest)
  | spawnLogged (rest : List ContainerRef) : s.listing = .logging rest →
      Moves missingThresholdCycles s .spawnLogged { s with listing := spawnAll s.tasks rest }
  | started (t : TaskId) (x : ListenerTask) : s.listeners[t]? = some x → x.phase = .starting →
      Moves missingThresholdCycles s (.started t) (setPhase s t x .streaming)
  | ended (t : TaskId) (x : ListenerTask) (outcome : Outcome) : s.listeners[t]? = some x → x.Running →
      Moves missingThresholdCycles s (.ended t outcome) (setPhase s t x (.ended outcome true))
  | callback (t : TaskId) (x : ListenerTask) (outcome : Outcome) : s.listeners[t]? = some x → x.phase = .ended outcome true →
      Moves missingThresholdCycles s (.callback t) (onDone s t x outcome)
  | sweep (cs : List String) : s.tracker = .sleeping → cs.Perm s.tasks.keys →
      Moves missingThresholdCycles s (.sweep cs) { s with tracker := sweepFrom missingThresholdCycles s.registry cs }
  | stopLogged (c : String) (rest : List String) : s.tracker = .logging c rest →
      Moves missingThresholdCycles s .stopLogged (stop missingThresholdCycles s c rest)
  | awaited (c : String) (t : TaskId) (rest : List String) : s.tracker = .awaiting c t rest →
      (s.listeners[t]?.bind ListenerTask.outcome?).isSome →
      Moves missingThresholdCycles s .awaited (awaitTask missingThresholdCycles s c t rest)
  | interrupted (c : String) (rest : List String) : s.tracker = .interrupted c rest →
      Moves missingThresholdCycles s .awaited (forgotten missingThresholdCycles s c rest)
  | cancelListing : Moves missingThresholdCycles s .cancelListing { s with listing := .cancelled }
  | cancelTracker : Moves missingThresholdCycles s .cancelTracker (cancelTracker s)

theorem step_moves {s s' : Daemon} {e : Event} (h : step missingThresholdCycles s e = some s') :
    Moves missingThresholdCycles s e s' := by
  cases e with
  | listed listing =>
    simp only [step] at h
    split at h <;> cases h
    exact .listed listing ‹_›
  | permit =>
    simp only [step] at h
    split at h <;> cases h
    exact .permit _ _ ‹_›
  | spawnLogged =>
    simp only [step] at h
    split at h <;> cases h
    exact .spawnLogged _ ‹_›
  | started t =>
    simp only [step] at h
    split at h
    · split at h <;> cases h
      exact .started t _ ‹_› ‹_›
    · cases h
  | ended t outcome =>
    simp only [step] at h
    split at h
    · split at h <;> cases h
      exact .ended t _ outcome ‹_› ‹_›
    · cases h
  | callback t =>
    simp only [step] at h
    split at h
    · split at h <;> cases h
      exact .callback t _ _ ‹_› ‹_›
    · cases h
  | sweep cs =>
    simp only [step] at h
    split at h <;> cases h
    rename_i hs
    exact .sweep cs hs.1 hs.2
  | stopLogged =>
    simp only [step] at h
    split at h <;> cases h
    exact .stopLogged _ _ ‹_›
  | awaited =>
    simp only [step] at h
    split at h
    · split at h <;> cases h
      exact .awaited _ _ _ ‹_› ‹_›
    · cases h
      exact .interrupted _ _ ‹_›
    · cases h
  | cancelListing => cases h; exact .cancelListing
  | cancelTracker => cases h; exact .cancelTracker

/-- The tracker's part of a step touches neither the listing loop nor the tasks' phases. -/
theorem awaitTask_frame (s : Daemon) (c : String) (t : TaskId) (rest : List String) :
    (awaitTask missingThresholdCycles s c t rest).listeners = s.listeners ∧
      (awaitTask missingThresholdCycles s c t rest).listing = s.listing ∧
      (awaitTask missingThresholdCycles s c t rest).tasks = s.tasks := by
  unfold awaitTask
  split <;> exact ⟨rfl, rfl, rfl⟩

theorem stop_frame (s : Daemon) (c : String) (rest : List String) :
    (stop missingThresholdCycles s c rest).listeners = s.listeners ∧
      (stop missingThresholdCycles s c rest).listing = s.listing ∧
      ∀ d ∈ (stop missingThresholdCycles s c rest).tasks, d ∈ s.tasks := by
  unfold stop
  split
  · exact ⟨rfl, rfl, fun d hd => hd⟩
  · rename_i t _
    obtain ⟨hlisteners, hlisting, htasks⟩ :=
      @awaitTask_frame missingThresholdCycles { s with tasks := s.tasks.erase c } c t rest
    refine ⟨hlisteners, hlisting, ?_⟩
    intro d hd
    rw [htasks] at hd
    exact (AList.mem_erase.mp hd).2

theorem cancelTracker_frame (s : Daemon) :
    (cancelTracker s).listeners = s.listeners ∧ (cancelTracker s).registry = s.registry ∧
      (cancelTracker s).tasks = s.tasks ∧ (cancelTracker s).listing = s.listing := by
  unfold cancelTracker
  split
  · exact ⟨rfl, rfl, rfl, rfl⟩
  · exact ⟨rfl, rfl, rfl, rfl⟩
  · split <;> exact ⟨rfl, rfl, rfl, rfl⟩
  · exact ⟨rfl, rfl, rfl, rfl⟩

/-- The ways in which a task goes on to another phase. -/
inductive PhaseMove (t : TaskId) (x : ListenerTask) : Event → Phase → Prop where
  | started : x.phase = .starting → PhaseMove t x (.started t) .streaming
  | ended (outcome : Outcome) : x.Running → PhaseMove t x (.ended t outcome) (.ended outcome true)
  | callback (outcome : Outcome) : x.phase = .ended outcome true → PhaseMove t x (.callback t) (.ended outcome false)

theorem PhaseMove.running {t : TaskId} {x : ListenerTask} {e : Event} {phase : Phase} (h : PhaseMove t x e phase)
    (hr : ({ x with phase } : ListenerTask).Running) : x.Running := by
  cases h with
  | started hp => rw [ListenerTask.Running, ListenerTask.outcome?, hp]
  | ended outcome hx => exact hx
  | callback outcome => cases hr

/-- The tasks change by a new one, for the container that waits for the semaphore, or by a
    new phase of one. -/
theorem step_listeners {s s' : Daemon} {e : Event} (h : step missingThresholdCycles s e = some s') :
    s'.listeners = s.listeners ∨
      (∃ ref rest, s.listing = .acquiring ref rest ∧ e = .permit ∧ s'.listeners = s.listeners ++ [⟨ref, .starting⟩]) ∨
      ∃ t x phase, s.listeners[t]? = some x ∧ s'.listeners = s.listeners.set t { x with phase } ∧ PhaseMove t x e phase := by
  cases step_moves h with
  | listed _ _ => exact .inl rfl
  | permit ref rest hs =>
    unfold permitted
    split
    · exact .inl rfl
    · exact .inr (.inl ⟨ref, rest, hs, rfl, rfl⟩)
  | spawnLogged _ _ => exact .inl rfl
  | started t x hx hp => exact .inr (.inr ⟨t, x, _, hx, rfl, .started hp⟩)
  | ended t x outcome hx hr => exact .inr (.inr ⟨t, x, _, hx, rfl, .ended outcome hr⟩)
  | callback t x outcome hx hp => exact .inr (.inr ⟨t, x, _, hx, rfl, .callback outcome hp⟩)
  | sweep _ _ _ => exact .inl rfl
  | stopLogged c rest _ => exact .inl (stop_frame s c rest).1
  | awaited c t rest _ _ => exact .inl (awaitTask_frame s c t rest).1
  | interrupted _ _ _ => exact .inl rfl
  | cancelListing => exact .inl rfl
  | cancelTracker => exact .inl (cancelTracker_frame s).1

/-- A task stays where it is, with its container, and an ended one stays ended. -/
theorem step_keeps_task {s s' : Daemon} {e : Event} (h : step missingThresholdCycles s e = some s') {t : TaskId}
    {x : ListenerTask} (hx : s.listeners[t]? = some x) :
    ∃ x', s'.listeners[t]? = some x' ∧ x'.ref = x.ref ∧ (x'.Running → x.Running) := by
  have hlt := (List.getElem?_eq_some_iff.mp hx).1
  rcases step_listeners h with he | ⟨ref, rest, -, -, he⟩ | ⟨u, y, phase, hy, he, hr⟩
  · exact ⟨x, by rw [he, hx], rfl, id⟩
  · exact ⟨x, by rw [he, List.getElem?_append_left hlt, hx], rfl, id⟩
  · by_cases hu : u = t
    · subst hu
      rw [hx] at hy
      cases hy
      exact ⟨{ x with phase }, by rw [he, List.getElem?_set_self hlt], rfl, hr.running⟩
    · exact ⟨x, by rw [he, List.getElem?_set_ne hu, hx], rfl, id⟩

/-- What is new in the table is a listener for the container that waited for the semaphore. -/
theorem step_new_task {s s' : Daemon} {e : Event} (h : step missingThresholdCycles s e = some s') {t : TaskId}
    {x' : ListenerTask} (hx' : s'.listeners[t]? = some x') :
    (∃ x, s.listeners[t]? = some x ∧ x'.ref = x.ref) ∨
      ∃ rest, s.listing = .acquiring x'.ref rest ∧ e = .permit ∧ t = s.listeners.length := by
  rcases step_listeners h with he | ⟨ref, rest, hs, hp, he⟩ | ⟨u, y, phase, hy, he, -⟩
  · exact .inl ⟨x', by rw [← he, hx'], rfl⟩
  · rw [he] at hx'
    by_cases ht : t < s.listeners.length
    · rw [List.getElem?_append_left ht] at hx'
      exact .inl ⟨x', hx', rfl⟩
    · have hu : t < (s.listeners ++ [(⟨ref, .starting⟩ : ListenerTask)]).length := (List.getElem?_eq_some_iff.mp hx').1
      rw [List.length_append, List.length_singleton] at hu
      have hlen : t = s.listeners.length := le_antisymm (Nat.lt_succ_iff.mp hu) (not_lt.mp ht)
      subst hlen
      rw [List.getElem?_concat_length] at hx'
      cases hx'
      exact .inr ⟨rest, hs, hp, rfl⟩
  · rw [he] at hx'
    by_cases hu : u = t
    · subst hu
      rw [List.getElem?_set_self (List.getElem?_eq_some_iff.mp hy).1] at hx'
      cases hx'
      exact .inl ⟨y, hy, rfl⟩
    · rw [List.getElem?_set_ne hu] at hx'
      exact .inl ⟨x', hx', rfl⟩

/-- The ways in which a step changes the tracker and the registry. -/
inductive TrackerMove (missingThresholdCycles : Int) (s s' : Daemon) : Event → Prop where
  | none {e : Event} : s'.tracker = s.tracker → s'.registry = s.registry → TrackerMove missingThresholdCycles s s' e
  | listed (listing : List ContainerRef) : s'.tracker = s.tracker → s'.registry = (s.registry.update listing).1 →
      TrackerMove missingThresholdCycles s s' (.listed listing)
  | sweep (cs : List String) : s.tracker = .sleeping → cs.Perm s.tasks.keys → s'.registry = s.registry →
      s'.tracker = sweepFrom missingThresholdCycles s.registry cs →
      TrackerMove missingThresholdCycles s s' (.sweep cs)
  /-- `stop` returns, and the container is forgotten. -/
  | forget {e : Event} (c : String) (rest : List String) : s.tracker.held = c :: rest → e = .stopLogged ∨ e = .awaited →
      s'.registry = s.registry.forget c → s'.tracker = sweepFrom missingThresholdCycles (s.registry.forget c) rest →
      TrackerMove missingThresholdCycles s s' e
  | await (c : String) (t : TaskId) (rest : List String) : s.tracker = .logging c rest → s.tasks.lookup c = some t →
      s'.registry = s.registry → s'.tracker = .awaiting c t rest → TrackerMove missingThresholdCycles s s' .stopLogged
  | failStop (c : String) (t : TaskId) (rest : List String) (error : String) : s.tracker = .logging c rest →
      s.tasks.lookup c = some t → s.listeners[t]?.bind ListenerTask.outcome? = some (.raised error) →
      s'.registry = s.registry → s'.tracker = .failed error → TrackerMove missingThresholdCycles s s' .stopLogged
  | failAwait (c : String) (t : TaskId) (rest : List String) (error : String) : s.tracker = .awaiting c t rest →
      s.listeners[t]?.bind ListenerTask.outcome? = some (.raised error) → s'.registry = s.registry →
      s'.tracker = .failed error → TrackerMove missingThresholdCycles s s' .awaited
  | interrupt (c : String) (t : TaskId) (rest : List String) : s.tracker = .awaiting c t rest → s'.registry = s.registry →
      s'.tracker = .interrupted c rest → TrackerMove missingThresholdCycles s s' .cancelTracker
  | cancel : (s.tracker = .sleeping ∨ ∃ c rest, s.tracker = .logging c rest) → s'.registry = s.registry →
      s'.tracker = .cancelled → TrackerMove missingThresholdCycles s s' .cancelTracker

theorem step_tracker {s s' : Daemon} {e : Event} (h : step missingThresholdCycles s e = some s') :
    TrackerMove missingThresholdCycles s s' e := by
  cases step_moves h with
  | listed listing _ => exact .listed listing rfl rfl
  | permit ref rest _ =>
    unfold permitted
    split <;> exact .none rfl rfl
  | spawnLogged _ _ => exact .none rfl rfl
  | started _ _ _ _ => exact .none rfl rfl
  | ended _ _ _ _ _ => exact .none rfl rfl
  | callback _ _ _ _ _ => exact .none rfl rfl
  | sweep cs hs hperm => exact .sweep cs hs hperm rfl rfl
  | stopLogged c rest hs =>
    have hheld : s.tracker.held = c :: rest := by rw [hs]; rfl
    unfold stop
    split
    · exact .forget c rest hheld (.inl rfl) rfl rfl
    · rename_i t hl
      unfold awaitTask
      split
      · exact .await c t rest hs hl rfl rfl
      · rename_i error he
        exact .failStop c t rest error hs hl he rfl rfl
      · exact .forget c rest hheld (.inl rfl) rfl rfl
  | awaited c t rest hs ht =>
    have hheld : s.tracker.held = c :: rest := by rw [hs]; rfl
    unfold awaitTask
    split
    · rename_i hn
      rw [hn] at ht
      cases ht
    · rename_i error he
      exact .failAwait c t rest error hs he rfl rfl
    · exact .forget c rest hheld (.inr rfl) rfl rfl
  | interrupted c rest hs => exact .forget c rest (by rw [hs]; rfl) (.inr rfl) rfl rfl
  | cancelListing => exact .none rfl rfl
  | cancelTracker =>
    unfold cancelTracker
    split
    · exact .cancel (.inl ‹_›) rfl rfl
    · exact .cancel (.inr ⟨_, _, ‹_›⟩) rfl rfl
    · rename_i c t rest hs
      split
      · exact .interrupt c t rest hs rfl rfl
      · exact .none rfl rfl
    · exact .none rfl rfl

/-- The ways in which a step changes the listing loop. -/
inductive ListingMove (s s' : Daemon) : Event → Prop where
  | none {e : Event} : s'.listing = s.listing → ListingMove s s' e
  | listed (listing : List ContainerRef) : s.listing = .sleeping →
      s'.listing = spawnAll s.tasks (s.registry.update listing).2 → ListingMove s s' (.listed listing)
  | create (ref : ContainerRef) (rest : List ContainerRef) : s.listing = .acquiring ref rest → ref.containerId ∉ s.tasks →
      s'.listing = .logging rest → s'.listeners = s.listeners ++ [⟨ref, .starting⟩] → ListingMove s s' .permit
  /-- The race was lost while waiting for the semaphore. -/
  | skip (ref : ContainerRef) (rest : List ContainerRef) : s.listing = .acquiring ref rest → ref.containerId ∈ s.tasks →
      s'.listing = spawnAll s.tasks rest → ListingMove s s' .permit
  | logged (rest : List ContainerRef) : s.listing = .logging rest → s'.listing = spawnAll s.tasks rest →
      ListingMove s s' .spawnLogged
  | cancel : s'.listing = .cancelled → ListingMove s s' .cancelListing

theorem step_listing {s s' : Daemon} {e : Event} (h : step missingThresholdCycles s e = some s') : ListingMove s s' e := by
  cases step_moves h with
  | listed listing hs => exact .listed listing hs rfl
  | permit ref rest hs =>
    by_cases hm : ref.containerId ∈ s.tasks
    · exact .skip ref rest hs hm (by rw [permitted, if_pos hm])
    · exact .create ref rest hs hm (by rw [permitted, if_neg hm]) (by rw [permitted, if_neg hm])
  | spawnLogged rest hs => exact .logged rest hs rfl
  | started _ _ _ _ => exact .none rfl
  | ended _ _ _ _ _ => exact .none rfl
  | callback _ _ _ _ _ => exact .none rfl
  | sweep _ _ _ => exact .none rfl
  | stopLogged c rest _ => exact .none (stop_frame s c rest).2.1
  | awaited c t rest _ _ => exact .none (awaitTask_frame s c t rest).2.1
  | interrupted _ _ _ => exact .none rfl
  | cancelListing => exact .cancel rfl
  | cancelTracker => exact .none (cancelTracker_frame s).2.2.2

theorem step_length_le {s s' : Daemon} {e : Event} (h : step missingThresholdCycles s e = some s') :
    s.listeners.length ≤ s'.listeners.length := by
  rcases step_listeners h with he | ⟨ref, rest, -, -, he⟩ | ⟨t, x, phase, -, he, -⟩ <;> simp [he]

/-! ## A trace -/

def web : ContainerRef := ⟨"a1b2c3d4e5f6", "web-1"⟩

def webStarts : List Event := [.listed [web], .permit, .spawnLogged, .started 0]

/-- The books of a daemon, to be read off a run. -/
def books (s : Daemon) : List String × List String × List ListenerTask × Listing × Tracker :=
  (s.registry.containers.keys, s.tasks.keys, s.listeners, s.listing, s.tracker)

end Daemon

end LogSump.Listener
