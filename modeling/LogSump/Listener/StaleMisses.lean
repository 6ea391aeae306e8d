/-
  LogSump.Listener.StaleMisses — what the misses of a container are when its listener is
  stopped, and when it is forgotten.

  `run_once` reads the misses once, before its log call; between that and `forget` the
  listing loop runs. A listing that contains the container in hand resets its misses, which
  nothing looks at again.

  - `acts_on_the_vanished`: in a run in which no listing brings back the container that the
    tracker has in hand, each container that is stopped or forgotten is vanished at that
    moment.
  - `a_container_that_is_back_is_stopped`: otherwise it need not be.
-/

import LogSump.Listener.Sweep

namespace LogSump.Listener.Daemon

open Foundation

/-- Unknown to the registry, or absent from the last listings. -/
def Vanished (missingThresholdCycles : Int) (listings : List (List ContainerRef)) (s : Daemon) (c : String) : Prop :=
  c ∉ s.registry.containers ∨ ∀ l ∈ listings.reverse.take missingThresholdCycles.toNat, ¬ Lists l c

/-- The event is not a listing of the container that the tracker has in hand. -/
def Undisturbed (missingThresholdCycles : Int) (s : Daemon) : Event → Prop
  | .listed listing => 0 < missingThresholdCycles → ∀ c ∈ s.tracker.held.head?, ¬ Lists listing c
  | _ => True

instance (missingThresholdCycles : Int) (s : Daemon) : (e : Event) → Decidable (Undisturbed missingThresholdCycles s e)
  | .listed listing => inferInstanceAs (Decidable (0 < missingThresholdCycles → ∀ c ∈ s.tracker.held.head?, ¬ Lists listing c))
  | .permit | .spawnLogged | .started _ | .ended _ _ | .callback _ | .sweep _ | .stopLogged | .awaited | .cancelListing
  | .cancelTracker => isTrue trivial

variable {missingThresholdCycles : Int}

/-- The container in hand still has the misses it was judged by, or more. -/
structure Judged (missingThresholdCycles : Int) (s : Daemon) : Prop where
  tracks : ∃ listings, Tracks listings s.registry
  missing : ∀ c rest, s.tracker.held = c :: rest → missing missingThresholdCycles s.registry c = true

theorem init_judged : Judged missingThresholdCycles {} := ⟨⟨[], tracks_empty⟩, fun c rest h => by cases h⟩

theorem sweepFrom_missing {registry : DaemonState} {cs rest : List String} {c : String}
    (h : (sweepFrom missingThresholdCycles registry cs).held = c :: rest) :
    missing missingThresholdCycles registry c = true := by
  induction cs with
  | nil => cases h
  | cons d cs ih =>
    by_cases hm : missing missingThresholdCycles registry d = true
    · rw [sweepFrom, if_pos hm] at h
      cases h
      exact hm
    · rw [sweepFrom, if_neg hm] at h
      exact ih h

/-- A listing without the container only adds a miss; below the threshold of one, all that
    is known is missing. -/
theorem missing_update {listings : List (List ContainerRef)} {state : DaemonState} (hT : Tracks listings state)
    {l : List ContainerRef} {c : String} (hc : 0 < missingThresholdCycles → ¬ Lists l c)
    (hm : missing missingThresholdCycles state c = true) :
    missing missingThresholdCycles (state.update l).1 c = true := by
  rw [missing_iff (hT.update l)]
  by_cases hpos : 0 < missingThresholdCycles
  · rcases (missing_iff hT c).mp hm with hn | hn
    · left
      intro h
      rcases DaemonState.update_mem.mp h with h | h
      · exact hn h
      · exact hc hpos h
    · right
      obtain ⟨n, hthr⟩ : ∃ n, missingThresholdCycles.toNat = n + 1 := ⟨missingThresholdCycles.toNat - 1, by omega⟩
      rw [hthr] at hn ⊢
      intro k hk
      rw [List.reverse_append, List.reverse_singleton, List.singleton_append, List.take_succ_cons, List.mem_cons] at hk
      rcases hk with rfl | hk
      · exact hc hpos
      · exact hn k (List.take_subset_take_left _ (Nat.le_succ n) hk)
  · right
    rw [show missingThresholdCycles.toNat = 0 by omega, List.take_zero]
    intro l hl
    cases hl

theorem step_judged {s s' : Daemon} {e : Event} (hJ : Judged missingThresholdCycles s)
    (hok : Undisturbed missingThresholdCycles s e) (h : step missingThresholdCycles s e = some s') :
    Judged missingThresholdCycles s' := by
  obtain ⟨listings, hT⟩ := hJ.tracks
  refine ⟨⟨_, step_tracks hT h⟩, ?_⟩
  cases step_tracker h with
  | none ht hr => rw [ht, hr]; exact hJ.missing
  | listed l ht hr =>
    intro c rest hheld
    rw [ht] at hheld
    rw [hr]
    exact missing_update hT (fun hpos => hok hpos c (by rw [hheld]; rfl)) (hJ.missing c rest hheld)
  | sweep cs _ _ hr ht =>
    intro c rest hheld
    rw [ht] at hheld
    rw [hr]
    exact sweepFrom_missing hheld
  | forget d rest' _ _ hr ht =>
    intro c rest hheld
    rw [ht] at hheld
    rw [hr]
    exact sweepFrom_missing hheld
  | await d t rest' hs _ hr ht =>
    intro c rest hheld
    rw [ht] at hheld
    rw [hr]
    exact hJ.missing c rest (by rw [hs]; exact hheld)
  | failStop _ _ _ _ _ _ _ _ ht =>
    intro c rest hheld
    rw [ht] at hheld
    cases hheld
  | failAwait _ _ _ _ _ _ _ ht =>
    intro c rest hheld
    rw [ht] at hheld
    cases hheld
  | interrupt d t rest' hs hr ht =>
    intro c rest hheld
    rw [ht] at hheld
    rw [hr]
    exact hJ.missing c rest (by rw [hs]; exact hheld)
  | cancel _ _ ht =>
    intro c rest hheld
    rw [ht] at hheld
    cases hheld

/-- The registry loses the container in hand only. -/
theorem step_forgets {s s' : Daemon} {e : Event} (h : step missingThresholdCycles s e = some s') {c : String}
    (hc : c ∈ s.registry.containers) (hn : c ∉ s'.registry.containers) : ∃ rest, s.tracker.held = c :: rest := by
  by_cases hl : ∃ l, e = .listed l
  · obtain ⟨l, rfl⟩ := hl
    cases step_moves h
    exact absurd (DaemonState.update_mem.mpr (.inl hc)) hn
  · rcases step_registry (fun l he => hl ⟨l, he⟩) h with hr | ⟨d, rest, hheld, hr⟩
    · exact absurd (hr ▸ hc) hn
    · refine ⟨rest, ?_⟩
      by_cases he : c = d
      · rw [he]; exact hheld
      · exact absurd (hr ▸ AList.mem_erase.mpr ⟨he, hc⟩) hn

/-- In a run in which no listing contains the container in hand, `stop` is called for
    vanished containers only, and only these leave the registry. -/
theorem acts_on_the_vanished (missingThresholdCycles : Int) {es : List Event} {s s' : Daemon} {e : Event}
    (hrun : (machine missingThresholdCycles).run {} es = some s)
    (hok : (machine missingThresholdCycles).Along (Undisturbed missingThresholdCycles) {} es)
    (h : step missingThresholdCycles s e = some s') :
    (∀ c rest, s.tracker = .logging c rest → e = .stopLogged → Vanished missingThresholdCycles (listingsOf es) s c) ∧
      ∀ c ∈ s.registry.containers, c ∉ s'.registry.containers → Vanished missingThresholdCycles (listingsOf es) s c := by
  have hJ : Judged missingThresholdCycles s :=
    @Machine.run_inv _ _ (machine missingThresholdCycles) (Undisturbed missingThresholdCycles)
      (Judged missingThresholdCycles) (fun _ _ _ => step_judged) _ _ _ init_judged hok hrun
  have hvan : ∀ c rest, s.tracker.held = c :: rest → Vanished missingThresholdCycles (listingsOf es) s c := by
    intro c rest hheld
    exact (missing_iff (run_tracks hrun) c).mp (hJ.missing c rest hheld)
  constructor
  · intro c rest hlog _
    exact hvan c rest (by rw [hlog]; rfl)
  · intro c hc hn
    obtain ⟨rest, hheld⟩ := step_forgets h hc hn
    exact hvan c rest hheld

def webVanishes : List Event := webStarts ++ [.listed [], .listed [], .listed [], .sweep [web.containerId]]

/-- A container is found missing, and listed again before the sweep has stopped its
    listener: it is stopped and forgotten all the same. -/
theorem a_container_that_is_back_is_stopped :
    ∃ s s₁ s₂, (machine 3).run {} (webVanishes ++ [.listed [web]]) = some s ∧
      s.tracker = .logging web.containerId [] ∧ step 3 s .stopLogged = some s₁ ∧
      ¬ Vanished 3 (listingsOf (webVanishes ++ [.listed [web]])) s web.containerId ∧
      (machine 3).run s₁ [.ended 0 .cancelled, .callback 0, .awaited] = some s₂ ∧
      web.containerId ∉ s₂.registry.containers ∧ ∀ x ∈ s₂.listeners, ¬ x.Running := by
  have hrun : ((machine 3).run {} (webVanishes ++ [.listed [web]] ++
      [.stopLogged, .ended 0 .cancelled, .callback 0, .awaited])).map books =
      some ([], [], [⟨web, .ended .cancelled false⟩], .sleeping, .sleeping) := by decide +kernel
  obtain ⟨s₂, hs₂, hbooks₂⟩ := Option.map_eq_some_iff.mp hrun
  simp only [books, Prod.mk.injEq] at hbooks₂
  obtain ⟨hknown₂, -, hlist, -, -⟩ := hbooks₂
  obtain ⟨s, hs, hs₂⟩ := Machine.run_append.mp hs₂
  obtain ⟨s₁, hs₁, hs₂⟩ := Machine.run_cons.mp hs₂
  have hbooks : ((machine 3).run {} (webVanishes ++ [.listed [web]])).map (fun s => (s.registry.containers.keys, s.tracker)) =
      some ([web.containerId], .logging web.containerId []) := by decide +kernel
  rw [hs, Option.map_some, Option.some.injEq, Prod.mk.injEq] at hbooks
  refine ⟨s, s₁, s₂, hs, hbooks.2, hs₁, ?_, hs₂, ?_, ?_⟩
  · intro hway
    rcases hway with h | h
    · apply h
      rw [AList.mem_keys, hbooks.1]
      exact List.mem_singleton_self _
    · exact h [web] (by simp [listingsOf, webVanishes, webStarts]) (List.mem_singleton_self _)
  · rw [AList.mem_keys, hknown₂]
    exact List.not_mem_nil
  · intro x hx hr
    rw [hlist, List.mem_singleton] at hx
    rw [hx] at hr
    cases hr

/-- Without the last listing it is right to stop it. -/
theorem a_container_that_is_gone_is_stopped :
    ∃ s s', (machine 3).run {} webVanishes = some s ∧ step 3 s .stopLogged = some s' ∧
      s.tracker = .logging web.containerId [] ∧ Vanished 3 (listingsOf webVanishes) s web.containerId := by
  have hrun : ((machine 3).run {} webVanishes).map (·.tracker) = some (.logging web.containerId []) := by decide +kernel
  obtain ⟨s, hs, htracker⟩ := Option.map_eq_some_iff.mp hrun
  have hstep : step 3 s .stopLogged = some (stop 3 s web.containerId []) := by rw [step, htracker]
  have hok : (machine 3).Along (Undisturbed 3) {} webVanishes := by decide +kernel
  exact ⟨s, _, hs, hstep, htracker, (acts_on_the_vanished 3 hs hok hstep).1 _ [] htracker rfl⟩

end LogSump.Listener.Daemon
