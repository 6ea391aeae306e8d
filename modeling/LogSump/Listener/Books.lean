/-
  LogSump.Listener.Books — what the three books of a daemon (the registry, `_tasks`, the
  tasks that run) have to do with each other and with the positions of the two loops.

  `stop` takes a task out of `_tasks` before it has ended, and `update` registers a container
  before its spawn: what keeps a second task away is that a container stays in the registry
  from its listing until its listener has ended, so no listing calls back for it.

  - `reach_inv`: the invariant holds in every reachable state.
  - `one_listener_per_container`: no container ever has two running listener tasks.
-/

import LogSump.Listener.Daemon

namespace LogSump.Listener.Daemon

open Foundation

variable {missingThresholdCycles : Int}

structure Inv (s : Daemon) : Prop where
  tasks_known : ∀ c ∈ s.tasks, c ∈ s.registry.containers
  tasks_at : ∀ c t, s.tasks.lookup c = some t → ∃ x, s.listeners[t]? = some x ∧ x.containerId = c
  /-- A running task is in `_tasks`, or `stop` awaits it. -/
  running_owned : ∀ t x, s.listeners[t]? = some x → x.Running →
    s.tasks.lookup x.containerId = some t ∨ ∃ rest, s.tracker = .awaiting x.containerId t rest
  stopping_popped : ∀ c, s.tracker.stopping = some c → c ∉ s.tasks
  held_nodup : s.tracker.held.Nodup
  held_known : ∀ c ∈ s.tracker.held, c ∈ s.registry.containers
  pending_nodup : (s.listing.pending.map (·.containerId)).Nodup
  pending_known : ∀ ref ∈ s.listing.pending, ref.containerId ∈ s.registry.containers
  /-- What is to be spawned has no task, and the sweep will not forget it. -/
  pending_free : ∀ ref ∈ s.listing.pending, ref.containerId ∉ s.tasks ∧ ref.containerId ∉ s.tracker.held

theorem init_inv : Inv {} where
  tasks_known c hc := absurd hc (AList.notMem_empty c)
  tasks_at c t h := by simp at h
  running_owned t x h := by simp at h
  stopping_popped c h := by cases h
  held_nodup := List.nodup_nil
  held_known c hc := by simp [Tracker.held] at hc
  pending_nodup := List.nodup_nil
  pending_known ref h := by simp [Listing.pending] at h
  pending_free ref h := by simp [Listing.pending] at h

/-! ## Each operation keeps the invariant -/

theorem listed_inv {s : Daemon} (hI : Inv s) (listing : List ContainerRef) : Inv (listed s listing) := by
  obtain ⟨hnd, hnew⟩ := s.registry.update_new listing
  have hgrow : ∀ c ∈ s.registry.containers, c ∈ (s.registry.update listing).1.containers := fun c hc =>
    DaemonState.update_mem.mpr (.inl hc)
  have hunknown : ∀ ref ∈ (s.registry.update listing).2, ref.containerId ∉ s.registry.containers := fun ref hr =>
    ((hnew _).mp (List.mem_map_of_mem hr)).2
  have hpend : (listed s listing).listing.pending = (s.registry.update listing).2 :=
    spawnAll_pending fun ref hr h => hunknown ref hr (hI.tasks_known _ h)
  refine ⟨fun c hc => hgrow c (hI.tasks_known c hc), hI.tasks_at, hI.running_owned, hI.stopping_popped, hI.held_nodup,
    fun c hc => hgrow c (hI.held_known c hc), ?_, ?_, ?_⟩
  · rw [hpend]; exact hnd
  · intro ref hr
    rw [hpend] at hr
    exact DaemonState.update_mem.mpr (.inr ((hnew _).mp (List.mem_map_of_mem hr)).1)
  · intro ref hr
    rw [hpend] at hr
    exact ⟨fun h => hunknown ref hr (hI.tasks_known _ h), fun h => hunknown ref hr (hI.held_known _ h)⟩

theorem permitted_inv {s : Daemon} (hI : Inv s) {ref : ContainerRef} {rest : List ContainerRef}
    (hs : s.listing = .acquiring ref rest) : Inv (permitted s ref rest) := by
  have hpend : s.listing.pending = ref :: rest := by rw [hs]; rfl
  obtain ⟨hfree, hunheld⟩ := hI.pending_free ref (by rw [hpend]; exact List.mem_cons_self)
  have hrest : ∀ r ∈ rest, r ∈ s.listing.pending := fun r hr => by rw [hpend]; exact List.mem_cons_of_mem _ hr
  have hnd := hI.pending_nodup
  rw [hpend, List.map_cons, List.nodup_cons] at hnd
  have hlt : ∀ t x, s.listeners[t]? = some x → t < s.listeners.length := fun t x h => (List.getElem?_eq_some_iff.mp h).1
  rw [permitted, if_neg hfree]
  refine ⟨?_, ?_, ?_, ?_, hI.held_nodup, hI.held_known, hnd.2,
    fun r hr => hI.pending_known r (hrest r hr), fun r hr => ⟨?_, (hI.pending_free r (hrest r hr)).2⟩⟩
  · intro c hc
    rcases (AList.mem_insert _).mp hc with rfl | hc
    · exact hI.pending_known ref (by rw [hpend]; exact List.mem_cons_self)
    · exact hI.tasks_known c hc
  · intro c t h
    by_cases he : c = ref.containerId
    · subst he
      rw [AList.lookup_insert] at h
      cases h
      exact ⟨_, List.getElem?_concat_length, rfl⟩
    · rw [AList.lookup_insert_ne he] at h
      obtain ⟨x, hx, hc⟩ := hI.tasks_at c t h
      exact ⟨x, by rw [List.getElem?_append_left (hlt t x hx)]; exact hx, hc⟩
  · -- an old task of this container would not be running
    intro t x hx hr
    by_cases ht : t < s.listeners.length
    · rw [List.getElem?_append_left ht] at hx
      have hne : x.containerId ≠ ref.containerId := by
        intro he
        rcases hI.running_owned t x hx hr with h | ⟨r, h⟩
        · exact hfree (he ▸ AList.lookup_isSome.mp (by rw [h]; rfl))
        · exact hunheld (he ▸ by rw [h]; exact List.mem_cons_self)
      rw [AList.lookup_insert_ne hne]
      exact hI.running_owned t x hx hr
    · have hlen : t = s.listeners.length := by
        have hu : t < (s.listeners ++ [(⟨ref, .starting⟩ : ListenerTask)]).length := (List.getElem?_eq_some_iff.mp hx).1
        rw [List.length_append, List.length_singleton] at hu
        exact le_antisymm (Nat.lt_succ_iff.mp hu) (not_lt.mp ht)
      subst hlen
      rw [List.getElem?_concat_length] at hx
      cases hx
      exact .inl (AList.lookup_insert _)
  · intro c h hc
    rcases (AList.mem_insert _).mp hc with rfl | hc
    · exact hunheld (Tracker.mem_held_of_stopping h)
    · exact hI.stopping_popped c h hc
  · intro hc
    rcases (AList.mem_insert _).mp hc with he | hc
    · exact hnd.1 (he ▸ List.mem_map_of_mem hr)
    · exact (hI.pending_free r (hrest r hr)).1 hc

theorem spawnLogged_inv {s : Daemon} (hI : Inv s) {rest : List ContainerRef} (hs : s.listing = .logging rest) :
    Inv { s with listing := spawnAll s.tasks rest } := by
  have hpend : s.listing.pending = rest := by rw [hs]; rfl
  have hsame : (spawnAll s.tasks rest).pending = s.listing.pending := by
    rw [hpend]
    exact spawnAll_pending fun ref hr => (hI.pending_free ref (hpend ▸ hr)).1
  refine ⟨hI.tasks_known, hI.tasks_at, hI.running_owned, hI.stopping_popped, hI.held_nodup, hI.held_known, ?_, ?_, ?_⟩
  · rw [hsame]; exact hI.pending_nodup
  · rw [hsame]; exact hI.pending_known
  · rw [hsame]; exact hI.pending_free

/-- A task that ends, or that begins to stream, stays where it is in the books. -/
theorem setPhase_inv {s : Daemon} (hI : Inv s) {t : TaskId} {x : ListenerTask} (hx : s.listeners[t]? = some x)
    {phase : Phase} (hrun : ({ x with phase } : ListenerTask).Running → x.Running) : Inv (setPhase s t x phase) := by
  have hget : ∀ (u : TaskId) (y : ListenerTask), (s.listeners.set t { x with phase })[u]? = some y →
      ∃ z, s.listeners[u]? = some z ∧ z.containerId = y.containerId ∧ (y.Running → z.Running) := by
    intro u y hy
    by_cases hu : t = u
    · subst hu
      rw [List.getElem?_set_self (List.getElem?_eq_some_iff.mp hx).1] at hy
      cases hy
      exact ⟨x, hx, rfl, hrun⟩
    · rw [List.getElem?_set_ne hu] at hy
      exact ⟨y, hy, rfl, id⟩
  refine ⟨hI.tasks_known, ?_, ?_, hI.stopping_popped, hI.held_nodup, hI.held_known,
    hI.pending_nodup, hI.pending_known, hI.pending_free⟩
  · intro c u h
    obtain ⟨y, hy, hc⟩ := hI.tasks_at c u h
    by_cases hu : t = u
    · subst hu
      rw [hx] at hy
      cases hy
      exact ⟨_, List.getElem?_set_self (List.getElem?_eq_some_iff.mp hx).1, hc⟩
    · exact ⟨y, (List.getElem?_set_ne hu).trans hy, hc⟩
  · intro u y hy hr
    obtain ⟨z, hz, hc, hzr⟩ := hget u y hy
    rw [← hc]
    exact hI.running_owned u z hz (hzr hr)

theorem onDone_inv {s : Daemon} (hI : Inv s) {t : TaskId} {x : ListenerTask} (hx : s.listeners[t]? = some x)
    (outcome : Outcome) : Inv (onDone s t x outcome) := by
  have hI' : Inv (setPhase s t x (.ended outcome false)) := setPhase_inv hI hx fun h => by cases h
  unfold onDone
  split
  · rename_i hl
    refine ⟨fun c hc => hI'.tasks_known c (AList.mem_erase.mp hc).2, ?_, ?_,
      fun c h hc => hI'.stopping_popped c h (AList.mem_erase.mp hc).2, hI'.held_nodup, hI'.held_known,
      hI'.pending_nodup, hI'.pending_known, fun ref hr => ⟨?_, (hI'.pending_free ref hr).2⟩⟩
    · intro c u h
      have hne : c ≠ x.containerId := fun he => by rw [he, AList.lookup_erase] at h; cases h
      rw [AList.lookup_erase_ne hne] at h
      exact hI'.tasks_at c u h
    · intro u y hy hr
      by_cases he : y.containerId = x.containerId
      · -- the container's running task is another one than `t`, which has ended
        rcases hI'.running_owned u y hy hr with h | h
        · have hlu : s.tasks.lookup y.containerId = some u := h
          rw [he, hl, Option.some.injEq] at hlu
          subst hlu
          have hy' : (s.listeners.set t { x with phase := .ended outcome false })[t]? = some y := hy
          rw [List.getElem?_set_self (List.getElem?_eq_some_iff.mp hx).1] at hy'
          cases hy'
          cases hr
        · exact .inr h
      · rw [AList.lookup_erase_ne he]
        exact hI'.running_owned u y hy hr
    · intro hc
      exact (hI'.pending_free ref hr).1 (AList.mem_erase.mp hc).2
  · exact hI'

theorem sweep_inv {s : Daemon} (hI : Inv s) (hs : s.tracker = .sleeping) {cs : List String}
    (hcs : cs.Perm s.tasks.keys) :
    Inv { s with tracker := sweepFrom missingThresholdCycles s.registry cs } := by
  have hsub : (sweepFrom missingThresholdCycles s.registry cs).held.Sublist cs := sweepFrom_held _ _
  have hmem : ∀ c ∈ (sweepFrom missingThresholdCycles s.registry cs).held, c ∈ s.tasks := fun c hc =>
    AList.mem_keys.mpr (hcs.mem_iff.mp (hsub.subset hc))
  refine ⟨hI.tasks_known, hI.tasks_at, ?_, fun c h => (by rw [sweepFrom_stopping] at h; cases h),
    hsub.nodup (hcs.nodup_iff.mpr s.tasks.keys_nodup), fun c hc => hI.tasks_known c (hmem c hc), hI.pending_nodup,
    hI.pending_known, fun ref hr => ⟨(hI.pending_free ref hr).1, fun hc => (hI.pending_free ref hr).1 (hmem _ hc)⟩⟩
  intro t x hx hr
  rcases hI.running_owned t x hx hr with h | ⟨r, h⟩
  · exact .inl h
  · rw [hs] at h; cases h

/-- The sweep is done with a container that has no task any more. -/
theorem Inv.not_running {s : Daemon} (hI : Inv s) {c : String} (hfree : c ∉ s.tasks)
    (hdone : ∀ t rest, s.tracker = .awaiting c t rest → (s.listeners[t]?.bind ListenerTask.outcome?).isSome)
    {t : TaskId} {x : ListenerTask} (hx : s.listeners[t]? = some x) (hc : x.containerId = c) : ¬ x.Running := by
  intro hr
  rcases hI.running_owned t x hx hr with h | ⟨rest, h⟩
  · exact hfree (hc ▸ AList.lookup_isSome.mp (by rw [h]; rfl))
  · have := hdone t rest (hc ▸ h)
    rw [hx, Option.bind_some, show x.outcome? = none from hr] at this
    cases this

theorem forgotten_inv {s : Daemon} {c : String} {rest : List String} (hI : Inv s)
    (hheld : s.tracker.held = c :: rest) (hfree : c ∉ s.tasks)
    (hdone : ∀ t rest, s.tracker = .awaiting c t rest → (s.listeners[t]?.bind ListenerTask.outcome?).isSome) :
    Inv (forgotten missingThresholdCycles s c rest) := by
  have hsub : (sweepFrom missingThresholdCycles (s.registry.forget c) rest).held.Sublist rest := sweepFrom_held _ _
  have hnd := hI.held_nodup
  rw [hheld, List.nodup_cons] at hnd
  have hknown : ∀ d ≠ c, d ∈ s.registry.containers → d ∈ (s.registry.forget c).containers := fun d hd hk =>
    AList.mem_erase.mpr ⟨hd, hk⟩
  refine ⟨fun d hd => hknown d (fun he => hfree (he ▸ hd)) (hI.tasks_known d hd), hI.tasks_at, ?_,
    fun d h => (by rw [forgotten, sweepFrom_stopping] at h; cases h), hsub.nodup hnd.2, ?_, hI.pending_nodup,
    ?_, fun ref hr => ⟨(hI.pending_free ref hr).1, ?_⟩⟩
  · intro t x hx hr
    rcases hI.running_owned t x hx hr with h | ⟨r, h⟩
    · exact .inl h
    · rw [h] at hheld
      cases hheld
      exact absurd hr (hI.not_running hfree hdone hx rfl)
  · intro d hd
    have hd' : d ∈ rest := hsub.subset hd
    exact hknown d (fun he => hnd.1 (he ▸ hd')) (hI.held_known d (hheld ▸ List.mem_cons_of_mem _ hd'))
  · intro ref hr
    refine hknown _ (fun he => (hI.pending_free ref hr).2 ?_) (hI.pending_known ref hr)
    rw [he, hheld]
    exact List.mem_cons_self
  · intro hd
    exact (hI.pending_free ref hr).2 (hheld ▸ List.mem_cons_of_mem _ (hsub.subset hd))

/-- The sweep ends with an exception. -/
theorem failed_inv {s : Daemon} {c : String} {rest : List String} (hI : Inv s)
    (hheld : s.tracker.held = c :: rest) (hfree : c ∉ s.tasks)
    (hdone : ∀ t rest, s.tracker = .awaiting c t rest → (s.listeners[t]?.bind ListenerTask.outcome?).isSome)
    (error : String) : Inv { s with tracker := .failed error } := by
  refine ⟨hI.tasks_known, hI.tasks_at, ?_, nofun, List.nodup_nil, nofun, hI.pending_nodup,
    hI.pending_known, fun ref hr => ⟨(hI.pending_free ref hr).1, nofun⟩⟩
  intro t x hx hr
  rcases hI.running_owned t x hx hr with h | ⟨r, h⟩
  · exact .inl h
  · rw [h] at hheld
    cases hheld
    exact absurd hr (hI.not_running hfree hdone hx rfl)

/-- `await task` on a task that has ended. -/
theorem awaitTask_inv {s : Daemon} {c : String} {t : TaskId} {rest : List String} (hI : Inv s)
    (hheld : s.tracker.held = c :: rest) (hfree : c ∉ s.tasks)
    (ht : (s.listeners[t]?.bind ListenerTask.outcome?).isSome)
    (hdone : ∀ u rest, s.tracker = .awaiting c u rest → u = t) :
    Inv (awaitTask missingThresholdCycles s c t rest) := by
  have hdone' : ∀ u rest, s.tracker = .awaiting c u rest → (s.listeners[u]?.bind ListenerTask.outcome?).isSome :=
    fun u r h => by rw [hdone u r h]; exact ht
  unfold awaitTask
  split
  · rename_i hn
    rw [hn] at ht
    cases ht
  · exact failed_inv hI hheld hfree hdone' _
  · exact forgotten_inv hI hheld hfree hdone'

theorem stop_inv {s : Daemon} {c : String} {rest : List String} (hI : Inv s) (hs : s.tracker = .logging c rest) :
    Inv (stop missingThresholdCycles s c rest) := by
  have hheld : s.tracker.held = c :: rest := by rw [hs]; rfl
  unfold stop
  split
  · rename_i hl
    refine forgotten_inv hI hheld (AList.lookup_eq_none.mp hl) ?_
    intro t r h
    rw [hs] at h
    cases h
  · rename_i t hl
    have hfree : c ∉ s.tasks.erase c := fun h => (AList.mem_erase.mp h).1 rfl
    have hat : ∀ d u, (s.tasks.erase c).lookup d = some u → s.tasks.lookup d = some u := by
      intro d u h
      by_cases he : d = c
      · rw [he, AList.lookup_erase] at h; cases h
      · rwa [AList.lookup_erase_ne he] at h
    have howned : ∀ u x, s.listeners[u]? = some x → x.Running →
        (s.tasks.erase c).lookup x.containerId = some u ∨ (x.containerId = c ∧ u = t) := by
      intro u x hx hr
      rcases hI.running_owned u x hx hr with h | ⟨r, h⟩
      · by_cases he : x.containerId = c
        · rw [he, hl, Option.some.injEq] at h
          exact .inr ⟨he, h.symm⟩
        · exact .inl ((AList.lookup_erase_ne he).trans h)
      · rw [hs] at h; cases h
    cases ho : s.listeners[t]?.bind ListenerTask.outcome? with
    | none =>
      -- the task is cancelled and awaited
      simp only [awaitTask, ho]
      refine ⟨fun d hd => hI.tasks_known d (AList.mem_erase.mp hd).2, fun d u h => hI.tasks_at d u (hat d u h),
        ?_, ?_, show (c :: rest).Nodup from hheld ▸ hI.held_nodup,
        fun d hd => hI.held_known d (hheld ▸ hd), hI.pending_nodup, hI.pending_known,
        fun ref hr => ⟨?_, show ref.containerId ∉ c :: rest from hheld ▸ (hI.pending_free ref hr).2⟩⟩
      · intro u x hx hr
        rcases howned u x hx hr with h | ⟨rfl, rfl⟩
        · exact .inl h
        · exact .inr ⟨rest, rfl⟩
      · intro d h
        cases h; exact hfree
      · intro hc
        exact (hI.pending_free ref hr).1 (AList.mem_erase.mp hc).2
    | some outcome =>
      -- the task has ended by itself
      have hpop : Inv { s with tasks := s.tasks.erase c } := by
        refine ⟨fun d hd => hI.tasks_known d (AList.mem_erase.mp hd).2, fun d u h => hI.tasks_at d u (hat d u h),
          ?_, fun d h hd => hI.stopping_popped d h (AList.mem_erase.mp hd).2, hI.held_nodup,
          hI.held_known, hI.pending_nodup, hI.pending_known,
          fun ref hr => ⟨fun hc => (hI.pending_free ref hr).1 (AList.mem_erase.mp hc).2, (hI.pending_free ref hr).2⟩⟩
        intro u x hx hr
        rcases howned u x hx hr with h | ⟨-, rfl⟩
        · exact .inl h
        · have hx : s.listeners[u]? = some x := hx
          rw [hx, Option.bind_some, show x.outcome? = none from hr] at ho
          cases ho
      refine awaitTask_inv hpop hheld hfree (by rw [ho]; rfl) ?_
      intro u r h
      have h : s.tracker = .awaiting c u r := h
      rw [hs] at h
      cases h

theorem cancelListing_inv {s : Daemon} (hI : Inv s) : Inv { s with listing := .cancelled } :=
  ⟨hI.tasks_known, hI.tasks_at, hI.running_owned, hI.stopping_popped, hI.held_nodup, hI.held_known, List.nodup_nil,
    nofun, nofun⟩

/-- The tracker is done with a sweep that no longer awaits a running task. -/
theorem cancelTracker_inv {s : Daemon} (hI : Inv s) : Inv (cancelTracker s) := by
  have hidle : (∀ c t rest, s.tracker ≠ .awaiting c t rest) → Inv { s with tracker := .cancelled } := by
    intro hne
    refine ⟨hI.tasks_known, hI.tasks_at, ?_, nofun, List.nodup_nil, nofun, hI.pending_nodup,
      hI.pending_known, fun ref hr => ⟨(hI.pending_free ref hr).1, nofun⟩⟩
    intro t x hx hr
    rcases hI.running_owned t x hx hr with h | ⟨r, h⟩
    · exact .inl h
    · exact absurd h (hne _ _ _)
  unfold cancelTracker
  split
  · rename_i hs
    exact hidle fun c t rest h => by rw [hs] at h; cases h
  · rename_i hs
    exact hidle fun c t rest h => by rw [hs] at h; cases h
  · rename_i c t rest hs
    split
    · rename_i ht
      have hheld : s.tracker.held = c :: rest := by rw [hs]; rfl
      refine ⟨hI.tasks_known, hI.tasks_at, ?_, fun d h => hI.stopping_popped d (by rw [hs]; exact h),
        show (c :: rest).Nodup from hheld ▸ hI.held_nodup, fun d hd => hI.held_known d (hheld ▸ hd), hI.pending_nodup,
        hI.pending_known,
        fun ref hr => ⟨(hI.pending_free ref hr).1, show ref.containerId ∉ c :: rest from hheld ▸ (hI.pending_free ref hr).2⟩⟩
      intro u x hx hr
      rcases hI.running_owned u x hx hr with h | ⟨r, h⟩
      · exact .inl h
      · -- the awaited task has ended
        rw [hs, Tracker.awaiting.injEq] at h
        have hx : s.listeners[u]? = some x := hx
        rw [h.2.1, hx, Option.bind_some, show x.outcome? = none from hr] at ht
        cases ht
    · exact hI
  · exact hI

theorem step_inv {s s' : Daemon} {e : Event} (hI : Inv s) (h : step missingThresholdCycles s e = some s') : Inv s' := by
  cases step_moves h with
  | listed listing _ => exact listed_inv hI listing
  | permit ref rest hs => exact permitted_inv hI hs
  | spawnLogged rest hs => exact spawnLogged_inv hI hs
  | started t x hx hp =>
    exact setPhase_inv hI hx fun _ => by rw [ListenerTask.Running, ListenerTask.outcome?, hp]
  | ended t x outcome hx _ => exact setPhase_inv hI hx fun hr => by cases hr
  | callback t x outcome hx _ => exact onDone_inv hI hx outcome
  | sweep cs hs hperm => exact sweep_inv hI hs hperm
  | stopLogged c rest hs => exact stop_inv hI hs
  | awaited c t rest hs ht =>
    refine awaitTask_inv hI (by rw [hs]; rfl) (hI.stopping_popped c (by rw [hs]; rfl)) ht ?_
    intro u r hu
    rw [hs] at hu
    cases hu
    rfl
  | interrupted c rest hs =>
    refine forgotten_inv hI (by rw [hs]; rfl) (hI.stopping_popped c (by rw [hs]; rfl)) ?_
    intro u r hu
    rw [hs] at hu
    cases hu
  | cancelListing => exact cancelListing_inv hI
  | cancelTracker => exact cancelTracker_inv hI

theorem reach_inv {s : Daemon} (h : (machine missingThresholdCycles).Reach s) : Inv s :=
  Machine.Reach.inv (I := Inv) (fun s h0 => by cases h0; exact init_inv) (fun _ _ _ hI hs => step_inv hI hs) h

/-- A container has at most one running listener task, in `_tasks` or awaited by `stop`. -/
theorem Inv.one_listener {s : Daemon} (hI : Inv s) {t u : TaskId} {x y : ListenerTask}
    (hx : s.listeners[t]? = some x) (hy : s.listeners[u]? = some y) (hxr : x.Running) (hyr : y.Running)
    (hc : x.containerId = y.containerId) : t = u := by
  rcases hI.running_owned t x hx hxr with h | ⟨r, h⟩ <;> rcases hI.running_owned u y hy hyr with h' | ⟨r', h'⟩
  · rw [hc, h'] at h
    exact (Option.some.inj h).symm
  · exact absurd (AList.lookup_isSome.mp (by rw [← hc, h]; rfl)) (hI.stopping_popped y.containerId (by rw [h']; rfl))
  · exact absurd (AList.lookup_isSome.mp (by rw [hc, h']; rfl)) (hI.stopping_popped x.containerId (by rw [h]; rfl))
  · rw [h, Tracker.awaiting.injEq] at h'
    exact h'.2.1

/-- Whatever the order of listings, spawns, sweeps, stops and ends, no container has two
    running listener tasks, and the registry knows every container in `_tasks`. -/
theorem one_listener_per_container (missingThresholdCycles : Int) {s : Daemon}
    (h : (machine missingThresholdCycles).Reach s) :
    (∀ (t u : TaskId) (x y : ListenerTask), s.listeners[t]? = some x → s.listeners[u]? = some y → x.Running → y.Running →
        x.containerId = y.containerId → t = u) ∧
      ∀ c ∈ s.tasks, c ∈ s.registry.containers :=
  ⟨fun _ _ _ _ hx hy hxr hyr hc => (reach_inv h).one_listener hx hy hxr hyr hc, (reach_inv h).tasks_known⟩

/-- A container that is stopped, forgotten and listed again while its old listener runs has
    no second one before the old one has ended. -/
theorem one_listener_after_a_restart :
    ∃ s, (machine 0).run {} (webStarts ++ [.sweep [web.containerId], .stopLogged, .listed [web], .ended 0 .cancelled,
        .callback 0, .awaited, .listed [web], .permit]) = some s ∧
      s.listeners.map (·.outcome?) = [some .cancelled, none] ∧
      ∀ (t u : TaskId) (x y : ListenerTask), s.listeners[t]? = some x → s.listeners[u]? = some y → x.Running → y.Running →
        x.containerId = y.containerId → t = u := by
  have hrun : ((machine 0).run {} (webStarts ++ [.sweep [web.containerId], .stopLogged, .listed [web],
      .ended 0 .cancelled, .callback 0, .awaited, .listed [web], .permit])).map (fun s => s.listeners.map (·.outcome?)) =
        some [some .cancelled, none] := by decide +kernel
  obtain ⟨s, hs, hl⟩ := Option.map_eq_some_iff.mp hrun
  exact ⟨s, hs, hl, (one_listener_per_container 0 ((Machine.Reach.init rfl).run hs)).1⟩

end LogSump.Listener.Daemon
