/-
  LogSump.Listener.Sweep — `ContainerTracker.run_once`: which listeners a sweep stops, and
  what it leaves in the registry.

  - `registry_counts_misses`: what the two counters of the registry mean after any calls, and
    what a sweep with nothing in between does with them.
  - `run_sweep`: a sweep of the running daemon, its log calls and stops included, leaves the
    registry as `run_once` does when no listing comes in between.
  - `sweep_forgets_the_vanished_iff`: it leaves no vanished container behind exactly where
    each of them still has its task in `_tasks`.
-/

import LogSump.Listener.Respawn

namespace LogSump.Listener

open Foundation

/-! ## `run_once` -/

namespace DaemonState

variable (missingThresholdCycles : Int)

/-- The containers that are stopped, and the state after they are forgotten. -/
def runOnce (state : DaemonState) : List String → List String × DaemonState
  | [] => ([], state)
  | c :: rest =>
    if Daemon.missing missingThresholdCycles state c then
      let (stopped, state') := runOnce (state.forget c) rest
      (c :: stopped, state')
    else runOnce state rest

end DaemonState

variable {missingThresholdCycles : Int}

theorem missing_of_unknown {state : DaemonState} {c : String} (h : c ∉ state.containers) :
    Daemon.missing missingThresholdCycles state c = true := by
  rw [Daemon.missing, AList.lookup_eq_none.mpr h]

theorem missing_forget_ne (state : DaemonState) {c d : String} (h : d ≠ c) :
    Daemon.missing missingThresholdCycles (state.forget c) d = Daemon.missing missingThresholdCycles state d := by
  unfold Daemon.missing DaemonState.forget
  rw [AList.lookup_erase_ne h]

/-- A known container is missing where its misses have reached the threshold. -/
theorem missing_iff_absences {listings : List (List ContainerRef)} {state : DaemonState} (h : Tracks listings state)
    {c : String} (hc : c ∈ state.containers) :
    Daemon.missing missingThresholdCycles state c = true ↔ missingThresholdCycles.toNat ≤ absences listings c := by
  obtain ⟨st, hst⟩ := Option.isSome_iff_exists.mp (AList.lookup_isSome.mpr hc)
  have hseen := h.seen c st hst
  rw [Daemon.missing, hst, decide_eq_true_eq]
  omega

theorem missing_iff {listings : List (List ContainerRef)} {state : DaemonState} (h : Tracks listings state) (c : String) :
    Daemon.missing missingThresholdCycles state c = true ↔
      c ∉ state.containers ∨ ∀ l ∈ listings.reverse.take missingThresholdCycles.toNat, ¬ Lists l c := by
  by_cases hc : c ∈ state.containers
  · rw [missing_iff_absences h hc, h.absent_iff hc]
    simp [hc]
  · simp [missing_of_unknown hc, hc]

namespace DaemonState

theorem runOnce_cons_missing {state : DaemonState} {c : String} (h : Daemon.missing missingThresholdCycles state c = true)
    (rest : List String) : runOnce missingThresholdCycles state (c :: rest) =
      (c :: (runOnce missingThresholdCycles (state.forget c) rest).1,
        (runOnce missingThresholdCycles (state.forget c) rest).2) := by
  rw [runOnce, if_pos h]

theorem runOnce_cons_present {state : DaemonState} {c : String} (h : ¬ Daemon.missing missingThresholdCycles state c = true)
    (rest : List String) : runOnce missingThresholdCycles state (c :: rest) = runOnce missingThresholdCycles state rest := by
  rw [runOnce, if_neg h]

theorem runOnce_sublist (state : DaemonState) (cs : List String) : (runOnce missingThresholdCycles state cs).1.Sublist cs := by
  induction cs generalizing state with
  | nil => exact .slnil
  | cons c cs ih =>
    by_cases hm : Daemon.missing missingThresholdCycles state c = true
    · rw [runOnce_cons_missing hm]
      exact (ih _).cons_cons c
    · rw [runOnce_cons_present hm]
      exact (ih _).cons c

/-- Forgetting the ones does not change which others are missing. -/
theorem mem_runOnce (state : DaemonState) (cs : List String) (d : String) :
    d ∈ (runOnce missingThresholdCycles state cs).1 ↔ d ∈ cs ∧ Daemon.missing missingThresholdCycles state d = true := by
  induction cs generalizing state with
  | nil => simp [runOnce]
  | cons c cs ih =>
    by_cases hm : Daemon.missing missingThresholdCycles state c = true
    · rw [runOnce_cons_missing hm, List.mem_cons, List.mem_cons, ih]
      by_cases hd : d = c
      · simp [hd, hm]
      · rw [missing_forget_ne state hd]
        simp [hd]
    · rw [runOnce_cons_present hm, List.mem_cons, ih]
      by_cases hd : d = c
      · simp [hd, hm]
      · simp [hd]

theorem runOnce_lookup (state : DaemonState) (cs : List String) (d : String) :
    (runOnce missingThresholdCycles state cs).2.containers.lookup d =
      if d ∈ (runOnce missingThresholdCycles state cs).1 then none else state.containers.lookup d := by
  induction cs generalizing state with
  | nil => simp [runOnce]
  | cons c cs ih =>
    by_cases hm : Daemon.missing missingThresholdCycles state c = true
    · rw [runOnce_cons_missing hm, ih]
      by_cases hd : d = c
      · subst hd
        simp [forget]
      · simp [hd, forget, AList.lookup_erase_ne hd]
    · rw [runOnce_cons_present hm, ih]

theorem mem_runOnce_containers (state : DaemonState) (cs : List String) (d : String) :
    d ∈ (runOnce missingThresholdCycles state cs).2.containers ↔
      d ∈ state.containers ∧ d ∉ (runOnce missingThresholdCycles state cs).1 := by
  rw [← AList.lookup_isSome, ← AList.lookup_isSome, runOnce_lookup]
  split <;> simp [*]

end DaemonState

namespace Registry

/-- `run_once` of one daemon's tracker, on the shared registry. -/
def runOnce (missingThresholdCycles : Int) (dockerHost : String) (registry : Registry) : List String → List String × Registry
  | [] => ([], registry)
  | c :: rest =>
    if Daemon.missing missingThresholdCycles (registry.stateFor dockerHost) c then
      let (stopped, registry') := runOnce missingThresholdCycles dockerHost (registry.forget dockerHost c) rest
      (c :: stopped, registry')
    else runOnce missingThresholdCycles dockerHost registry rest

/-- It stops and forgets for its own daemon only. -/
theorem runOnce_stateFor (h : String) (registry : Registry) (cs : List String) :
    (registry.runOnce missingThresholdCycles h cs).1 = ((registry.stateFor h).runOnce missingThresholdCycles cs).1 ∧
      ∀ h', (registry.runOnce missingThresholdCycles h cs).2.stateFor h' =
        if h' = h then ((registry.stateFor h).runOnce missingThresholdCycles cs).2 else registry.stateFor h' := by
  induction cs generalizing registry with
  | nil => exact ⟨rfl, fun h' => by by_cases he : h' = h <;> simp [runOnce, DaemonState.runOnce, he]⟩
  | cons c cs ih =>
    by_cases hm : Daemon.missing missingThresholdCycles (registry.stateFor h) c = true
    · obtain ⟨hstopped, hstate⟩ := ih (registry.forget h c)
      have hforget : (registry.forget h c).stateFor h = (registry.stateFor h).forget c := by
        rw [stateFor_forget, if_pos rfl]
      rw [hforget] at hstopped hstate
      rw [DaemonState.runOnce_cons_missing hm, runOnce, if_pos hm]
      refine ⟨by rw [← hstopped], fun h' => (hstate h').trans ?_⟩
      by_cases he : h' = h
      · rw [if_pos he, if_pos he]
      · rw [if_neg he, if_neg he, stateFor_forget, if_neg he]
    · rw [DaemonState.runOnce_cons_present hm, runOnce, if_neg hm]
      exact ih registry

/-- After any updates and forgets, of any daemons in any order: the counters of a known
    container differ by its misses, it is known while listed since it was last forgotten,
    and a call calls back for what it makes known, once each. A sweep then stops those
    active containers that are unknown or have been absent from the last listings, forgets
    these, and leaves the other daemons alone. -/
theorem registry_counts_misses (calls : List Call) (h : String) :
    (∀ c st, ((after calls).stateFor h).containers.lookup c = some st →
        ((after calls).stateFor h).listingSeq = st.lastSeenSeq + absences (listings calls h) c) ∧
      (∀ c, c ∈ ((after calls).stateFor h).containers ↔ ListedSince calls h c) ∧
      (∀ call, (((after calls).call call).2.map fun p => (p.1, p.2.containerId)).Nodup ∧
        ∀ c, (h, c) ∈ ((after calls).call call).2.map (fun p => (p.1, p.2.containerId)) ↔
          c ∉ ((after calls).stateFor h).containers ∧ c ∈ ((after (calls ++ [call])).stateFor h).containers) ∧
      ∀ (missingThresholdCycles : Int) (active : List String),
        ((after calls).runOnce missingThresholdCycles h active).1.Sublist active ∧
        (∀ c, c ∈ ((after calls).runOnce missingThresholdCycles h active).1 ↔
          c ∈ active ∧ (c ∉ ((after calls).stateFor h).containers ∨
            ∀ l ∈ (listings calls h).reverse.take missingThresholdCycles.toNat, ¬ Lists l c)) ∧
        ∀ h' c, (((after calls).runOnce missingThresholdCycles h active).2.stateFor h').containers.lookup c =
          if h' = h ∧ c ∈ ((after calls).runOnce missingThresholdCycles h active).1 then none
          else ((after calls).stateFor h').containers.lookup c := by
  have htracks := after_tracks calls h
  refine ⟨htracks.seen, known_iff calls h, ?_, ?_⟩
  · intro call
    obtain ⟨hnd, hiff⟩ := callbacks_iff calls call
    refine ⟨hnd, ?_⟩
    intro c
    rw [hiff, known_iff, known_iff]
  · intro thr active
    obtain ⟨hstopped, hstate⟩ := @runOnce_stateFor thr h (after calls) active
    rw [hstopped]
    refine ⟨DaemonState.runOnce_sublist _ _, ?_, ?_⟩
    · intro c
      rw [DaemonState.mem_runOnce, missing_iff htracks]
    · intro h' c
      rw [hstate]
      by_cases he : h' = h
      · subst he
        rw [if_pos rfl, DaemonState.runOnce_lookup]
        simp
      · rw [if_neg he]
        simp [he]

end Registry

/-! ## A sweep of the running daemon -/

namespace Daemon

/-- The listings of a run, oldest first. -/
def listingsOf (es : List Event) : List (List ContainerRef) :=
  es.filterMap fun
    | .listed listing => some listing
    | _ => none

theorem step_registry {s s' : Daemon} {e : Event} (hne : ∀ l, e ≠ .listed l)
    (h : step missingThresholdCycles s e = some s') :
    s'.registry = s.registry ∨ ∃ c rest, s.tracker.held = c :: rest ∧ s'.registry = s.registry.forget c := by
  cases step_tracker h with
  | none _ hr => exact .inl hr
  | listed l => exact absurd rfl (hne l)
  | sweep _ _ _ hr => exact .inl hr
  | forget c rest hheld _ hr => exact .inr ⟨c, rest, hheld, hr⟩
  | await _ _ _ _ _ hr => exact .inl hr
  | failStop _ _ _ _ _ _ _ hr => exact .inl hr
  | failAwait _ _ _ _ _ _ hr => exact .inl hr
  | interrupt _ _ _ _ hr => exact .inl hr
  | cancel _ hr => exact .inl hr

theorem step_tracks {listings : List (List ContainerRef)} {s s' : Daemon} {e : Event} (hT : Tracks listings s.registry)
    (h : step missingThresholdCycles s e = some s') : Tracks (listings ++ listingsOf [e]) s'.registry := by
  by_cases hl : ∃ l, e = .listed l
  · obtain ⟨l, rfl⟩ := hl
    cases step_moves h
    exact hT.update l
  · have hne : ∀ l, e ≠ .listed l := fun l he => hl ⟨l, he⟩
    have hnil : listingsOf [e] = [] := by
      cases e with
      | listed l => exact absurd rfl (hne l)
      | _ => rfl
    rw [hnil, List.append_nil]
    rcases step_registry hne h with hr | ⟨c, -, -, hr⟩
    · rw [hr]; exact hT
    · rw [hr]; exact hT.forget c

/-- The registry of a run counts the run's listings. -/
theorem run_tracks {es : List Event} {s : Daemon} (h : (machine missingThresholdCycles).run {} es = some s) :
    Tracks (listingsOf es) s.registry := by
  induction es using List.reverseRecOn generalizing s with
  | nil => cases h; exact tracks_empty
  | append_singleton es e ih =>
    obtain ⟨t, ht, he⟩ := Machine.run_snoc.mp h
    rw [listingsOf, List.filterMap_append]
    exact step_tracks (ih ht) he

variable (missingThresholdCycles) in
/-- What a sweep with these containers in hand leaves, when nothing is listed before its
    end. -/
def leaves (registry : DaemonState) : List String → DaemonState
  | [] => registry
  | c :: rest => ((registry.forget c).runOnce missingThresholdCycles rest).2

theorem leaves_sweepFrom (registry : DaemonState) (cs : List String) :
    leaves missingThresholdCycles registry (sweepFrom missingThresholdCycles registry cs).held =
      (registry.runOnce missingThresholdCycles cs).2 := by
  induction cs with
  | nil => rfl
  | cons c cs ih =>
    by_cases hm : missing missingThresholdCycles registry c = true
    · rw [sweepFrom, if_pos hm, DaemonState.runOnce_cons_missing hm]
      rfl
    · rw [sweepFrom, if_neg hm, DaemonState.runOnce_cons_present hm]
      exact ih

theorem step_leaves {s s' : Daemon} {e : Event} (hl : ∀ l, e ≠ .listed l) (hs : ∀ cs, e ≠ .sweep cs)
    (h : step missingThresholdCycles s e = some s') :
    s'.tracker.Over ∨ leaves missingThresholdCycles s'.registry s'.tracker.held =
      leaves missingThresholdCycles s.registry s.tracker.held := by
  cases step_tracker h with
  | none ht hr => exact .inr (by rw [ht, hr])
  | listed l => exact absurd rfl (hl l)
  | sweep cs => exact absurd rfl (hs cs)
  | forget c rest hheld _ hr ht => exact .inr (by rw [ht, hr, leaves_sweepFrom, hheld, leaves])
  | await c t rest hlog _ hr ht => exact .inr (by rw [ht, hr, hlog]; rfl)
  | failStop _ _ _ _ _ _ _ _ ht => exact .inl (by rw [ht]; trivial)
  | failAwait _ _ _ _ _ _ _ ht => exact .inl (by rw [ht]; trivial)
  | interrupt c t rest haw hr ht => exact .inr (by rw [ht, hr, haw]; rfl)
  | cancel _ _ ht => exact .inl (by rw [ht]; trivial)

/-- Nothing happens to a tracker that is over. -/
theorem step_over {s s' : Daemon} {e : Event} (ho : s.tracker.Over) (h : step missingThresholdCycles s e = some s') :
    s'.tracker = s.tracker := by
  have hheld : s.tracker.held = [] := by
    cases hp : s.tracker <;> rw [hp] at ho <;> first | rfl | cases ho
  cases step_tracker h with
  | none ht => exact ht
  | listed _ ht => exact ht
  | sweep _ hp => rw [hp] at ho; cases ho
  | forget _ _ hc => rw [hheld] at hc; cases hc
  | await _ _ _ hp => rw [hp] at ho; cases ho
  | failStop _ _ _ _ hp => rw [hp] at ho; cases ho
  | failAwait _ _ _ _ hp => rw [hp] at ho; cases ho
  | interrupt _ _ _ hp => rw [hp] at ho; cases ho
  | cancel hp =>
    rcases hp with hp | ⟨_, _, hp⟩
    · rw [hp] at ho; cases ho
    · rw [hp] at ho; cases ho

/-- A sweep that ran to its end without a listing. -/
theorem run_sweep {s₀ s₁ s : Daemon} {cs : List String} {es : List Event}
    (hsweep : step missingThresholdCycles s₀ (.sweep cs) = some s₁)
    (hrun : (machine missingThresholdCycles).run s₁ es = some s)
    (hes : ∀ e ∈ es, (∀ l, e ≠ .listed l) ∧ ∀ cs, e ≠ .sweep cs) (hdone : s.tracker = .sleeping) :
    s.registry = (s₀.registry.runOnce missingThresholdCycles cs).2 := by
  have hstart : leaves missingThresholdCycles s₁.registry s₁.tracker.held =
      (s₀.registry.runOnce missingThresholdCycles cs).2 := by
    cases step_moves hsweep
    exact leaves_sweepFrom _ _
  suffices hend : s.tracker.Over ∨ leaves missingThresholdCycles s.registry s.tracker.held =
      (s₀.registry.runOnce missingThresholdCycles cs).2 by
    rw [hdone] at hend
    exact hend.resolve_left id
  rw [← hstart]
  clear hsweep hstart hdone
  induction es generalizing s₁ with
  | nil => cases hrun; exact .inr rfl
  | cons e es ih =>
    obtain ⟨t, ht, hrun⟩ := Machine.run_cons.mp hrun
    obtain ⟨hl, hs⟩ := hes e List.mem_cons_self
    rcases step_leaves hl hs ht with ho | he
    · left
      have hstays : s.tracker = t.tracker := Machine.run_inv (M := machine missingThresholdCycles)
        (I := fun s => s.tracker = t.tracker) (fun u e u' hu _ hstep => (step_over (hu ▸ ho) hstep).trans hu) rfl
        (Machine.along_true t es) hrun
      rw [hstays]
      exact ho
    · rw [← he]
      exact ih hrun fun e' he' => hes e' (List.mem_cons_of_mem _ he')

/-- After a sweep without a listing in between, every container in the registry was in one
    of the last listings precisely when, at its start, every known container that was not
    had its task in `_tasks`. -/
theorem sweep_forgets_the_vanished_iff (missingThresholdCycles : Int) {s₀ s₁ s : Daemon} {es₀ es : List Event}
    {cs : List String} (hrun₀ : (machine missingThresholdCycles).run {} es₀ = some s₀)
    (hsweep : step missingThresholdCycles s₀ (.sweep cs) = some s₁)
    (hrun : (machine missingThresholdCycles).run s₁ es = some s)
    (hes : ∀ e ∈ es, (∀ l, e ≠ .listed l) ∧ ∀ cs, e ≠ .sweep cs) (hdone : s.tracker = .sleeping) :
    (∀ c ∈ s.registry.containers, ∃ l ∈ (listingsOf es₀).reverse.take missingThresholdCycles.toNat, Lists l c) ↔
      ∀ c ∈ s₀.registry.containers, missing missingThresholdCycles s₀.registry c = true → c ∈ s₀.tasks := by
  have hactive : ∀ c, c ∈ cs ↔ c ∈ s₀.tasks := by
    intro c
    cases step_moves hsweep with
    | sweep _ _ hperm => rw [hperm.mem_iff, AList.mem_keys]
  have hleft : ∀ c, c ∈ s.registry.containers ↔
      c ∈ s₀.registry.containers ∧ (missing missingThresholdCycles s₀.registry c = true → c ∉ s₀.tasks) := by
    intro c
    rw [run_sweep hsweep hrun hes hdone, DaemonState.mem_runOnce_containers, DaemonState.mem_runOnce, hactive]
    tauto
  have hpresent : ∀ c ∈ s₀.registry.containers,
      (∃ l ∈ (listingsOf es₀).reverse.take missingThresholdCycles.toNat, Lists l c) ↔
        ¬ missing missingThresholdCycles s₀.registry c = true := by
    intro c hc
    rw [missing_iff (run_tracks hrun₀)]
    simp [hc]
  constructor
  · intro h c hc hm
    by_contra hn
    exact (hpresent c hc).mp (h c ((hleft c).mpr ⟨hc, fun _ => hn⟩)) hm
  · intro h c hc
    obtain ⟨hknown, hfree⟩ := (hleft c).mp hc
    exact (hpresent c hknown).mpr fun hm => hfree hm (h c hknown hm)

def webEnds : List Event := webStarts ++ [.ended 0 .returned, .callback 0, .listed [], .listed [], .listed []]

/-- A listener ends by itself and its container is removed: no sweep ever forgets it. -/
theorem a_listener_that_ended_leaves_its_container :
    ∃ s₀ s₁, (machine 3).run {} webEnds = some s₀ ∧
      step 3 s₀ (.sweep []) = some s₁ ∧ s₁.tracker = .sleeping ∧
      ¬ (∀ c ∈ s₁.registry.containers, ∃ l ∈ (listingsOf webEnds).reverse.take 3, Lists l c) ∧
      ∀ es s, (machine 3).run s₁ es = some s → web.containerId ∈ s.registry.containers := by
  have hrun : ((machine 3).run {} webEnds).map books =
      some ([web.containerId], [], [⟨web, .ended .returned false⟩], .sleeping, .sleeping) := by decide +kernel
  obtain ⟨s₀, hs₀, hbooks⟩ := Option.map_eq_some_iff.mp hrun
  simp only [books, Prod.mk.injEq] at hbooks
  obtain ⟨hknown, htasks, hlist, hidle, htracker⟩ := hbooks
  have hmem : web.containerId ∈ s₀.registry.containers := AList.mem_keys.mpr (by rw [hknown]; exact List.mem_singleton_self _)
  have hsweep : step 3 s₀ (.sweep []) = some { s₀ with tracker := .sleeping } := by
    rw [step, if_pos ⟨htracker, by rw [htasks]⟩]
    rfl
  have hA : Abandoned { s₀ with tracker := .sleeping } web.containerId := by
    refine ⟨hmem, ?_, List.not_mem_nil, ?_, ?_⟩
    · intro h
      simp [AList.mem_keys, htasks] at h
    · rw [hidle]
      exact List.not_mem_nil
    · intro hfound
      obtain ⟨x, hx, -, hr⟩ := hfound
      rw [hlist, List.mem_singleton] at hx
      rw [hx] at hr
      cases hr
  refine ⟨s₀, _, hs₀, hsweep, rfl, ?_, ?_⟩
  · intro h
    obtain ⟨l, hl, hin⟩ := h _ hmem
    have hnil : l = [] := by simpa [listingsOf, webEnds, webStarts] using hl
    rw [hnil] at hin
    exact absurd hin List.not_mem_nil
  · intro es s hr
    exact (Machine.run_inv (M := machine 3) (I := fun s => Abandoned s web.containerId)
      (fun _ _ _ hA _ h => step_abandoned hA h) hA (Machine.along_true _ es) hr).known

/-- A container that goes away under its listener is forgotten. -/
theorem a_streamed_container_is_forgotten :
    ∃ s₀ s₁ s, (machine 1).run {} (webStarts ++ [.listed []]) = some s₀ ∧ step 1 s₀ (.sweep [web.containerId]) = some s₁ ∧
      (machine 1).run s₁ [.stopLogged, .ended 0 .cancelled, .callback 0, .awaited] = some s ∧
      ∀ c ∈ s.registry.containers, ∃ l ∈ (listingsOf (webStarts ++ [.listed []])).reverse.take 1, Lists l c := by
  have hrun : ((machine 1).run {} (webStarts ++ [.listed []] ++ [.sweep [web.containerId], .stopLogged, .ended 0 .cancelled,
      .callback 0, .awaited])).map (·.tracker) = some .sleeping := by decide +kernel
  obtain ⟨s, hs, hdone⟩ := Option.map_eq_some_iff.mp hrun
  obtain ⟨s₀, hs₀, hs⟩ := Machine.run_append.mp hs
  obtain ⟨s₁, hs₁, hs⟩ := Machine.run_cons.mp hs
  have hbooks : ((machine 1).run {} (webStarts ++ [.listed []])).map (fun s => (s.registry.containers.keys, s.tasks.keys)) =
      some ([web.containerId], [web.containerId]) := by decide +kernel
  rw [hs₀, Option.map_some, Option.some.injEq, Prod.mk.injEq] at hbooks
  refine ⟨s₀, s₁, s, hs₀, hs₁, hs, (sweep_forgets_the_vanished_iff 1 hs₀ hs₁ hs (by simp) hdone).mpr ?_⟩
  intro c hc _
  rw [AList.mem_keys, hbooks.1] at hc
  rw [AList.mem_keys, hbooks.2]
  exact hc

end Daemon

end LogSump.Listener
