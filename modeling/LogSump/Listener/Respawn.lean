/-
  LogSump.Listener.Respawn — which containers of a listing have a listener once
  `Registry.update` has returned.

  `update` calls back for the containers that it did not know. A listener that ends by
  itself leaves `_tasks` (`on_done`), but its container stays in the registry, and only the
  tracker, which goes through `_tasks`, would forget it.

  - `listed_is_served_iff`: a listed container has a listener that had not ended before the
    update exactly where the registry did not know it, or its listener was still running.
  - `abandoned_for_good`: a known container whose listener ended by itself never gets one
    again.
-/

import LogSump.Listener.Books

namespace LogSump.Listener.Daemon

open Foundation

def HasListener (s : Daemon) (c : String) : Prop := ∃ x ∈ s.listeners, x.containerId = c ∧ x.Running

/-- A listener of the container has ended between the two states. -/
def EndedSince (s₀ s : Daemon) (c : String) : Prop :=
  ∃ (t : TaskId) (x : ListenerTask), s.listeners[t]? = some x ∧ x.containerId = c ∧ ¬ x.Running ∧
    ∀ y : ListenerTask, s₀.listeners[t]? = some y → y.Running

variable {missingThresholdCycles : Int}

/-! ## The update -/

/-- Between an update's bookkeeping and its end, with what `s₀` knew before it. -/
structure Updating (s₀ : Daemon) (listing : List ContainerRef) (s : Daemon) : Prop where
  inv : Inv s
  /-- A container that was not known is still to be called back for, or has a new task. -/
  served : s.listing ≠ .cancelled → ∀ ref ∈ listing, ref.containerId ∉ s₀.registry.containers →
    ref.containerId ∈ s.listing.pending.map (·.containerId) ∨
      ∃ (t : TaskId) (x : ListenerTask), s₀.listeners.length ≤ t ∧ s.listeners[t]? = some x ∧ x.containerId = ref.containerId
  pending_new : ∀ ref ∈ s.listing.pending, ref.containerId ∉ s₀.registry.containers
  created_new : ∀ (t : TaskId) (x : ListenerTask), s.listeners[t]? = some x → s₀.listeners.length ≤ t →
    x.containerId ∉ s₀.registry.containers
  grown : s₀.listeners.length ≤ s.listeners.length
  kept : ∀ (t : TaskId) (y : ListenerTask), s₀.listeners[t]? = some y →
    ∃ x : ListenerTask, s.listeners[t]? = some x ∧ x.ref = y.ref ∧ (x.Running → y.Running)

theorem updating_start {s₀ : Daemon} (hI : Inv s₀) (listing : List ContainerRef) :
    Updating s₀ listing (listed s₀ listing) := by
  obtain ⟨-, hnew⟩ := s₀.registry.update_new listing
  have hpend : (listed s₀ listing).listing.pending = (s₀.registry.update listing).2 :=
    spawnAll_pending fun ref hr h => ((hnew _).mp (List.mem_map_of_mem hr)).2 (hI.tasks_known _ h)
  refine ⟨listed_inv hI listing, fun _ ref hr hu => .inl ?_, ?_, ?_, le_rfl,
    fun t y hy => ⟨y, hy, rfl, id⟩⟩
  · rw [hpend]
    exact (hnew _).mpr ⟨List.mem_map_of_mem hr, hu⟩
  · intro ref hr
    rw [hpend] at hr
    exact ((hnew _).mp (List.mem_map_of_mem hr)).2
  · intro t x hx hle
    exact absurd (List.getElem?_eq_some_iff.mp hx).1 (not_lt.mpr hle)

theorem step_updating {s₀ s s' : Daemon} {listing : List ContainerRef} {e : Event} (hU : Updating s₀ listing s)
    (hl : ∀ listing, e ≠ .listed listing) (h : step missingThresholdCycles s e = some s') : Updating s₀ listing s' := by
  have hkeep : ∀ c,
      (∃ (t : TaskId) (x : ListenerTask), s₀.listeners.length ≤ t ∧ s.listeners[t]? = some x ∧ x.containerId = c) →
      ∃ (t : TaskId) (x : ListenerTask), s₀.listeners.length ≤ t ∧ s'.listeners[t]? = some x ∧ x.containerId = c := by
    intro c hrunning
    obtain ⟨t, x, hle, hx, hc⟩ := hrunning
    obtain ⟨x', hx', href, -⟩ := step_keeps_task h hx
    exact ⟨t, x', hle, hx', by rw [ListenerTask.containerId, href]; exact hc⟩
  have hcreated : ∀ (t : TaskId) (x' : ListenerTask), s'.listeners[t]? = some x' → s₀.listeners.length ≤ t →
      x'.containerId ∉ s₀.registry.containers := by
    intro t x' hx' hle
    rcases step_new_task h hx' with ⟨x, hx, href⟩ | ⟨rest, hs, -, -⟩
    · rw [ListenerTask.containerId, href]
      exact hU.created_new t x hx hle
    · exact hU.pending_new x'.ref (by rw [hs]; exact List.mem_cons_self)
  have hkept : ∀ (t : TaskId) (y : ListenerTask), s₀.listeners[t]? = some y →
      ∃ x : ListenerTask, s'.listeners[t]? = some x ∧ x.ref = y.ref ∧ (x.Running → y.Running) := by
    intro t y hy
    obtain ⟨x, hx, href, hrun⟩ := hU.kept t y hy
    obtain ⟨x', hx', href', hrun'⟩ := step_keeps_task h hx
    exact ⟨x', hx', href'.trans href, fun hr => hrun (hrun' hr)⟩
  have hgrown := hU.grown.trans (step_length_le h)
  have hspawn : ∀ rest, s.listing.pending = rest → (spawnAll s.tasks rest).pending = s.listing.pending :=
    fun rest hp => (spawnAll_pending fun ref hr => (hU.inv.pending_free ref (hp ▸ hr)).1).trans hp.symm
  -- where the loop goes on without a new task, it has the same containers in hand
  have hsame : s.listing ≠ .cancelled → s'.listing.pending = s.listing.pending → Updating s₀ listing s' := by
    intro hne hp
    refine ⟨step_inv hU.inv h, ?_, fun ref hr => hU.pending_new ref (hp ▸ hr), hcreated, hgrown, hkept⟩
    intro _ ref hr hu
    exact (hU.served hne ref hr hu).imp (fun hm => hp ▸ hm) (hkeep _)
  cases step_listing h with
  | none he =>
    refine ⟨step_inv hU.inv h, ?_, fun ref hr => hU.pending_new ref (he ▸ hr), hcreated, hgrown, hkept⟩
    intro hne ref hr hu
    exact (hU.served (he ▸ hne) ref hr hu).imp (fun hm => he ▸ hm) (hkeep _)
  | listed l => exact absurd rfl (hl l)
  | create ref rest hs hfree he hlist =>
    have hpend : s.listing.pending = ref :: s'.listing.pending := by rw [hs, he]; rfl
    refine ⟨step_inv hU.inv h, ?_,
      fun r hr => hU.pending_new r (by rw [hpend]; exact List.mem_cons_of_mem _ hr), hcreated, hgrown, hkept⟩
    intro _ r hr hu
    rcases hU.served (by rw [hs]; simp) r hr hu with hp | hp
    · rw [hpend, List.map_cons, List.mem_cons] at hp
      rcases hp with hp | hp
      · exact .inr ⟨s.listeners.length, ⟨ref, .starting⟩, hU.grown, by rw [hlist, List.getElem?_concat_length], hp.symm⟩
      · exact .inl hp
    · exact .inr (hkeep _ hp)
  | skip ref rest hs hm he =>
    exact absurd hm (hU.inv.pending_free ref (by rw [hs]; exact List.mem_cons_self)).1
  | logged rest hs he => exact hsame (by rw [hs]; simp) (by rw [he]; exact hspawn rest (by rw [hs]; rfl))
  | cancel he =>
    have hnil : s'.listing.pending = [] := by rw [he]; rfl
    exact ⟨step_inv hU.inv h, fun hne => absurd he hne, by simp [hnil], hcreated, hgrown, hkept⟩

theorem run_updating {s₀ s₁ s : Daemon} {listing : List ContainerRef} {es : List Event} (hU : Updating s₀ listing s₁)
    (hl : ∀ listing, .listed listing ∉ es) (hrun : (machine missingThresholdCycles).run s₁ es = some s) :
    Updating s₀ listing s := by
  induction es generalizing s₁ with
  | nil => cases hrun; exact hU
  | cons e es ih =>
    obtain ⟨t, ht, hrun⟩ := Machine.run_cons.mp hrun
    have hne : ∀ l, e ≠ .listed l := fun l he => hl l (he ▸ List.mem_cons_self)
    exact ih (step_updating hU hne ht) (fun l hm => hl l (List.mem_cons_of_mem _ hm)) hrun

/-- A task of the container that had not ended in `s₀`: it runs, or has ended since. -/
theorem served_iff {s₀ s : Daemon} {c : String} (hkept : ∀ (t : TaskId) (y : ListenerTask),
      s₀.listeners[t]? = some y → ∃ x : ListenerTask, s.listeners[t]? = some x ∧ x.ref = y.ref ∧ (x.Running → y.Running)) :
    HasListener s c ∨ EndedSince s₀ s c ↔
      ∃ (t : TaskId) (x : ListenerTask), s.listeners[t]? = some x ∧ x.containerId = c ∧
        ∀ y : ListenerTask, s₀.listeners[t]? = some y → y.Running := by
  constructor
  · intro h
    rcases h with ⟨x, hx, hc, hr⟩ | ⟨t, x, hx, hc, -, hy⟩
    · obtain ⟨t, hx⟩ := List.mem_iff_getElem?.mp hx
      refine ⟨t, x, hx, hc, ?_⟩
      intro y hy
      obtain ⟨x', hx', -, hrun⟩ := hkept t y hy
      rw [hx] at hx'
      cases hx'
      exact hrun hr
    · exact ⟨t, x, hx, hc, hy⟩
  · intro h
    obtain ⟨t, x, hx, hc, hy⟩ := h
    by_cases hr : x.Running
    · exact .inl ⟨x, List.mem_iff_getElem?.mpr ⟨t, hx⟩, hc, hr⟩
    · exact .inr ⟨t, x, hx, hc, hr, hy⟩

/-- From any reachable state: once the update for a listing has returned, a container of
    the listing has a listener, or one has ended since, precisely when the registry did not
    know the container or its listener was running. -/
theorem listed_is_served_iff (missingThresholdCycles : Int) {s₀ s₁ s : Daemon} {listing : List ContainerRef}
    {es : List Event} (hreach : (machine missingThresholdCycles).Reach s₀)
    (hstart : step missingThresholdCycles s₀ (.listed listing) = some s₁)
    (hrun : (machine missingThresholdCycles).run s₁ es = some s) (hes : ∀ l, .listed l ∉ es)
    (hdone : s.listing = .sleeping) {ref : ContainerRef} (href : ref ∈ listing) :
    HasListener s ref.containerId ∨ EndedSince s₀ s ref.containerId ↔
      (ref.containerId ∈ s₀.registry.containers → HasListener s₀ ref.containerId) := by
  have hU : Updating s₀ listing s := by
    cases step_moves hstart
    exact run_updating (updating_start (reach_inv hreach) listing) hes hrun
  rw [served_iff hU.kept]
  constructor
  · intro h
    obtain ⟨t, x, hx, hc, hy⟩ := h
    intro hknown
    by_cases hlt : t < s₀.listeners.length
    · have hget : s₀.listeners[t]? = some s₀.listeners[t] := List.getElem?_eq_getElem hlt
      obtain ⟨x', hx', hr, -⟩ := hU.kept t _ hget
      rw [hx] at hx'
      cases hx'
      exact ⟨_, List.getElem_mem hlt, by rw [ListenerTask.containerId, ← hr]; exact hc, hy _ hget⟩
    · exact absurd (hc ▸ hknown) (hU.created_new t x hx (not_lt.mp hlt))
  · intro himp
    by_cases hknown : ref.containerId ∈ s₀.registry.containers
    · obtain ⟨y, hy, hc, hr⟩ := himp hknown
      obtain ⟨t, hy⟩ := List.mem_iff_getElem?.mp hy
      obtain ⟨x, hx, hxr, -⟩ := hU.kept t y hy
      refine ⟨t, x, hx, by rw [ListenerTask.containerId, hxr]; exact hc, ?_⟩
      intro y' hy'
      rw [hy] at hy'
      cases hy'
      exact hr
    · rcases hU.served (by rw [hdone]; simp) ref href hknown with hp | ⟨t, x, hle, hx, hc⟩
      · rw [hdone] at hp
        cases hp
      · refine ⟨t, x, hx, hc, fun y hy => absurd (List.getElem?_eq_some_iff.mp hy).1 (not_lt.mpr hle)⟩

/-! ## A listener that ended by itself -/

/-- Known to the registry, without a task, and in neither loop's hands. -/
structure Abandoned (s : Daemon) (c : String) : Prop where
  known : c ∈ s.registry.containers
  free : c ∉ s.tasks
  unheld : c ∉ s.tracker.held
  unpending : c ∉ s.listing.pending.map (·.containerId)
  ended : ¬ HasListener s c

theorem spawnAll_sub (tasks : AList fun _ : String => TaskId) (refs : List ContainerRef) :
    (spawnAll tasks refs).pending.Sublist refs := by
  induction refs with
  | nil => exact .slnil
  | cons ref refs ih =>
    unfold spawnAll
    split
    · exact ih.cons ref
    · exact .refl _

/-- Tasks are added to `_tasks` for the container that waits for the semaphore only. -/
theorem step_tasks_sub {s s' : Daemon} {e : Event} (h : step missingThresholdCycles s e = some s') {c : String}
    (hc : c ∈ s'.tasks) : c ∈ s.tasks ∨ c ∈ s.listing.pending.map (·.containerId) := by
  cases step_moves h with
  | permit ref rest hs =>
    rw [permitted] at hc
    split at hc
    · exact .inl hc
    · rcases (AList.mem_insert _).mp hc with he | hc
      · exact .inr (by rw [hs, he]; exact List.mem_cons_self)
      · exact .inl hc
  | callback t x outcome _ _ =>
    unfold onDone at hc
    split at hc
    · exact .inl (AList.mem_erase.mp hc).2
    · exact .inl hc
  | stopLogged d rest _ => exact .inl ((stop_frame s d rest).2.2 c hc)
  | awaited d t rest _ _ => exact .inl ((awaitTask_frame s d t rest).2.2 ▸ hc)
  | cancelTracker => exact .inl ((cancelTracker_frame s).2.2.1 ▸ hc)
  | listed _ _ => exact .inl hc
  | spawnLogged _ _ => exact .inl hc
  | started _ _ _ _ => exact .inl hc
  | ended _ _ _ _ _ => exact .inl hc
  | sweep _ _ _ => exact .inl hc
  | interrupted _ _ _ => exact .inl hc
  | cancelListing => exact .inl hc

/-- No listener of it is created while none is pending. -/
theorem abandoned_ended {s s' : Daemon} {e : Event} {c : String} (hA : Abandoned s c)
    (h : step missingThresholdCycles s e = some s') : ¬ HasListener s' c := by
  intro hrunning
  obtain ⟨x', hx', hc, hr⟩ := hrunning
  obtain ⟨t, hx'⟩ := List.mem_iff_getElem?.mp hx'
  rcases step_new_task h hx' with ⟨x, hx, href⟩ | ⟨rest, hs, -, -⟩
  · obtain ⟨x'', hx'', -, hrun⟩ := step_keeps_task h hx
    rw [hx'] at hx''
    cases hx''
    exact hA.ended ⟨x, List.mem_iff_getElem?.mpr ⟨t, hx⟩, by rw [ListenerTask.containerId, ← href]; exact hc, hrun hr⟩
  · exact hA.unpending (by rw [hs, ← hc]; exact List.mem_cons_self)

/-- The tracker holds no client for it, so it is not forgotten. -/
theorem abandoned_known {s s' : Daemon} {e : Event} {c : String} (hA : Abandoned s c)
    (h : step missingThresholdCycles s e = some s') :
    c ∈ s'.registry.containers ∧ c ∉ s'.tracker.held := by
  cases step_tracker h with
  | none ht hr => exact ⟨hr ▸ hA.known, ht ▸ hA.unheld⟩
  | listed listing ht hr => exact ⟨hr ▸ DaemonState.update_mem.mpr (.inl hA.known), ht ▸ hA.unheld⟩
  | sweep cs _ hp hr ht =>
    refine ⟨hr ▸ hA.known, fun hc => hA.free (AList.mem_keys.mpr (hp.mem_iff.mp ?_))⟩
    rw [ht] at hc
    exact (sweepFrom_held _ _).subset hc
  | forget d rest hheld _ hr ht =>
    have hd : c ∉ d :: rest := hheld ▸ hA.unheld
    refine ⟨hr ▸ AList.mem_erase.mpr ⟨fun he => hd (he ▸ List.mem_cons_self), hA.known⟩, fun hc => hd ?_⟩
    rw [ht] at hc
    exact List.mem_cons_of_mem _ ((sweepFrom_held _ _).subset hc)
  | await d t rest hs _ hr ht =>
    refine ⟨hr ▸ hA.known, fun hc => hA.unheld ?_⟩
    rw [ht] at hc
    rw [hs]
    exact hc
  | failStop d t rest error _ _ _ hr ht => exact ⟨hr ▸ hA.known, by rw [ht]; exact List.not_mem_nil⟩
  | failAwait d t rest error _ _ hr ht => exact ⟨hr ▸ hA.known, by rw [ht]; exact List.not_mem_nil⟩
  | interrupt d t rest hs hr ht =>
    refine ⟨hr ▸ hA.known, fun hc => hA.unheld ?_⟩
    rw [ht] at hc
    rw [hs]
    exact hc
  | cancel _ hr ht => exact ⟨hr ▸ hA.known, by rw [ht]; exact List.not_mem_nil⟩

/-- It is known, so no listing makes it pending. -/
theorem abandoned_unpending {s s' : Daemon} {e : Event} {c : String} (hA : Abandoned s c)
    (h : step missingThresholdCycles s e = some s') :
    c ∉ s'.listing.pending.map (·.containerId) := by
  have hsub : ∀ {refs : List ContainerRef}, c ∉ refs.map (·.containerId) →
      c ∉ (spawnAll s.tasks refs).pending.map (·.containerId) :=
    fun hn hc => hn (((spawnAll_sub _ _).map _).subset hc)
  have hun := hA.unpending
  cases step_listing h with
  | none he => rw [he]; exact hun
  | listed listing _ he =>
    rw [he]
    exact hsub fun hc => (((s.registry.update_new listing).2 c).mp hc).2 hA.known
  | create ref rest hs _ he _ =>
    rw [hs] at hun
    rw [he]
    exact fun hc => hun (List.mem_cons_of_mem _ hc)
  | skip ref rest hs _ he =>
    rw [hs] at hun
    rw [he]
    exact hsub fun hc => hun (List.mem_cons_of_mem _ hc)
  | logged rest hs he =>
    rw [hs] at hun
    rw [he]
    exact hsub hun
  | cancel he => rw [he]; exact List.not_mem_nil

theorem step_abandoned {s s' : Daemon} {e : Event} {c : String} (hA : Abandoned s c)
    (h : step missingThresholdCycles s e = some s') : Abandoned s' c := by
  have hfree : c ∉ s'.tasks := fun hc => (step_tasks_sub h hc).elim hA.free hA.unpending
  obtain ⟨hknown, hunheld⟩ := abandoned_known hA h
  exact ⟨hknown, hfree, hunheld, abandoned_unpending hA h, abandoned_ended hA h⟩

/-- Whatever is listed later, it gets no listener. -/
theorem abandoned_for_good {s s' : Daemon} {es : List Event} {c : String} (hA : Abandoned s c)
    (hrun : (machine missingThresholdCycles).run s es = some s') : ¬ HasListener s' c :=
  (Machine.run_inv (M := machine missingThresholdCycles) (I := fun s => Abandoned s c)
    (fun _ _ _ hA _ h => step_abandoned hA h) hA (Machine.along_true s es) hrun).ended

/-- The container stops and its listener ends; when the container is listed again, nothing
    is started, then or later. -/
theorem a_listener_that_ended_is_not_started_again :
    ∃ s₀ s₁, (machine 3).Reach s₀ ∧ step 3 s₀ (.listed [web]) = some s₁ ∧ s₁.listing = .sleeping ∧
      ¬ (HasListener s₁ web.containerId ∨ EndedSince s₀ s₁ web.containerId) ∧
      ∀ es s, (machine 3).run s₁ es = some s → ¬ HasListener s web.containerId := by
  have hrun : ((machine 3).run {} (webStarts ++ [.ended 0 .returned, .callback 0])).map books =
      some ([web.containerId], [], [⟨web, .ended .returned false⟩], .sleeping, .sleeping) := by decide +kernel
  obtain ⟨s₀, hs₀, hbooks⟩ := Option.map_eq_some_iff.mp hrun
  simp only [books, Prod.mk.injEq] at hbooks
  obtain ⟨hknown, htasks, hlist, hidle, htracker⟩ := hbooks
  have hmem : web.containerId ∈ s₀.registry.containers := AList.mem_keys.mpr (by rw [hknown]; exact List.mem_singleton_self _)
  have hended : ¬ HasListener s₀ web.containerId := by
    intro hrunning
    obtain ⟨x, hx, -, hr⟩ := hrunning
    rw [hlist, List.mem_singleton] at hx
    rw [hx] at hr
    cases hr
  have hfree : web.containerId ∉ s₀.tasks := fun h => by simp [AList.mem_keys, htasks] at h
  have hA : Abandoned s₀ web.containerId :=
    ⟨hmem, hfree, by rw [htracker]; exact List.not_mem_nil, by rw [hidle]; exact List.not_mem_nil, hended⟩
  have hstep : step 3 s₀ (.listed [web]) = some (listed s₀ [web]) := if_pos hidle
  have hnew : (s₀.registry.update [web]).2 = [] := by
    refine List.eq_nil_iff_forall_not_mem.mpr ?_
    intro ref hr
    obtain ⟨hl, hn⟩ := ((s₀.registry.update_new [web]).2 ref.containerId).mp (List.mem_map_of_mem hr)
    rw [List.map_singleton, List.mem_singleton] at hl
    exact hn (hl ▸ hmem)
  have hsleeps : (listed s₀ [web]).listing = .sleeping := by
    show spawnAll s₀.tasks (s₀.registry.update [web]).2 = .sleeping
    rw [hnew]
    rfl
  refine ⟨s₀, _, (Machine.Reach.init rfl).run hs₀, hstep, hsleeps, ?_,
    fun es s hr => abandoned_for_good (step_abandoned hA hstep) hr⟩
  intro hway
  rcases hway with h | ⟨t, x, hx, -, -, hy⟩
  · exact hended h
  · have hx : s₀.listeners[t]? = some x := hx
    have hm : x ∈ s₀.listeners := List.mem_iff_getElem?.mpr ⟨t, hx⟩
    have hr := hy x hx
    rw [hlist, List.mem_singleton] at hm
    rw [hm] at hr
    cases hr

def job : ContainerRef := ⟨"b1b2c3d4e5f6", "job-1"⟩

/-- A listing with a container whose listener is running, and with one that is new: both have
    their listeners. -/
theorem a_new_container_is_served :
    ∃ s₀ s₁ s, (machine 3).run {} webStarts = some s₀ ∧ step 3 s₀ (.listed [web, job]) = some s₁ ∧
      (machine 3).run s₁ [.permit, .spawnLogged] = some s ∧ s₀.registry.containers.keys = [web.containerId] ∧
      ∀ ref ∈ [web, job], HasListener s ref.containerId ∨ EndedSince s₀ s ref.containerId := by
  have hstarts : ((machine 3).run {} webStarts).map books =
      some ([web.containerId], [web.containerId], [⟨web, .streaming⟩], .sleeping, .sleeping) := by decide +kernel
  have hlater : ((machine 3).run {} (webStarts ++ [.listed [web, job], .permit, .spawnLogged])).map (·.listing) =
      some .sleeping := by decide +kernel
  obtain ⟨s, hs, hidle⟩ := Option.map_eq_some_iff.mp hlater
  obtain ⟨s₀, hs₀, hs⟩ := Machine.run_append.mp hs
  obtain ⟨s₁, h₁, hs⟩ := Machine.run_cons.mp hs
  rw [hs₀, Option.map_some, Option.some.injEq] at hstarts
  simp only [books, Prod.mk.injEq] at hstarts
  obtain ⟨hknown, -, hlist, -, -⟩ := hstarts
  refine ⟨s₀, s₁, s, hs₀, h₁, hs, hknown, ?_⟩
  intro ref href
  refine (listed_is_served_iff 3 ((Machine.Reach.init rfl).run hs₀) h₁ hs (by simp) hidle href).mpr ?_
  intro hmem
  have hweb : ref.containerId = web.containerId := by
    have hkeys := AList.mem_keys.mp hmem
    rw [hknown] at hkeys
    exact List.mem_singleton.mp hkeys
  exact ⟨⟨web, .streaming⟩, by rw [hlist]; exact List.mem_singleton_self _, hweb.symm, rfl⟩

end LogSump.Listener.Daemon
