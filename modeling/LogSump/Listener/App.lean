/-
  LogSump.Listener.App — `app.run`: the wiring of the enabled daemons.

  Transports and managers are kept by daemon id, the last entry of an id standing for all of
  them, and so is the registry's state; the listing loops are started entry by entry. One
  dispatcher routes every new container by the id that its listing was handed in under.

  - `lookup_byId`: what a dict over the entries holds for an id.
  - `reach_wired`: each loop calls back for its own entry's id.
  - `entries_have_their_own_transports_iff`: every loop polls, and spawns, through the
    transport of its own entry exactly where entries with one id build one transport.
-/

import LogSump.Foundation.Machine
import LogSump.Common.Config
import LogSump.Transport.Command
import LogSump.Listener.Registry

namespace LogSump.Listener.App

open Common Foundation

def buildTransport (daemon : DaemonConfig) : Transport :=
  if daemon.transport = .local then .localTransport else .sshTransport daemon.host daemon.user daemon.sshOptions

/-- What `ListenerManager` is constructed with. -/
structure ListenerManager where
  dockerHost : String
  transport : Transport
  deriving DecidableEq, Repr

/-- `{daemon.id: f(daemon) for daemon in enabled}`. -/
def byId {α : Type*} (f : DaemonConfig → α) (enabled : List DaemonConfig) : AList fun _ : String => α :=
  enabled.foldl (fun d daemon => d.insert daemon.id (f daemon)) ∅

def transportsByDaemon (enabled : List DaemonConfig) : AList fun _ : String => Transport := byId buildTransport enabled

/-- `none` where an id has no transport, which would be a KeyError. -/
def listenersByDaemon (enabled : List DaemonConfig) : AList fun _ : String => Option ListenerManager :=
  byId (fun daemon => ((transportsByDaemon enabled).lookup daemon.id).map fun t => ⟨daemon.id, t⟩) enabled

structure Poll where
  daemon : DaemonConfig
  transport : Transport
  deriving DecidableEq, Repr

/-- A new container of a loop, on the manager that it was handed to. -/
structure Dispatch where
  daemon : DaemonConfig
  ref : ContainerRef
  listeners : ListenerManager
  deriving DecidableEq, Repr

structure St where
  registry : Registry := ∅
  /-- The calls of the callback that a loop's `update` has still to make. -/
  pending : Nat → List (String × ContainerRef) := fun _ => []
  polls : List Poll := []
  dispatches : List Dispatch := []

/-- The loops and the trackers are numbered by their entries. -/
inductive Ev where
  | poll (i : Nat)
  | listed (i : Nat) (listing : List ContainerRef)
  | callback (i : Nat)
  | forget (i : Nat) (containerId : String)
  deriving DecidableEq, Repr

def step (enabled : List DaemonConfig) (s : St) : Ev → Option St
  | .poll i => do
    let daemon ← enabled[i]?
    let transport ← (transportsByDaemon enabled).lookup daemon.id
    return { s with polls := s.polls ++ [⟨daemon, transport⟩] }
  | .listed i listing => do
    let daemon ← enabled[i]?
    if s.pending i = [] then
      let (registry, calls) := s.registry.update daemon.id listing
      return { s with registry, pending := Function.update s.pending i calls }
    else none
  | .callback i => do
    let daemon ← enabled[i]?
    match s.pending i with
    | [] => none
    | (dockerHost, ref) :: rest =>
      let listeners ← ((listenersByDaemon enabled).lookup dockerHost).join
      return { s with
        pending := Function.update s.pending i rest
        dispatches := s.dispatches ++ [⟨daemon, ref, listeners⟩] }
  | .forget i containerId => do
    let daemon ← enabled[i]?
    return { s with registry := s.registry.forget daemon.id containerId }

def machine (enabled : List DaemonConfig) : Machine St Ev where
  init s := s = {}
  step := step enabled

/-! ## The dicts -/

theorem foldl_lookup {α : Type*} (f : DaemonConfig → α) (enabled : List DaemonConfig) (d : AList fun _ : String => α)
    (id : String) :
    (enabled.foldl (fun d daemon => d.insert daemon.id (f daemon)) d).lookup id = d.lookup id ∧ (∀ e ∈ enabled, e.id ≠ id) ∨
      ∃ e ∈ enabled, e.id = id ∧ (enabled.foldl (fun d daemon => d.insert daemon.id (f daemon)) d).lookup id = some (f e) := by
  induction enabled generalizing d with
  | nil => exact .inl ⟨rfl, fun e he => by cases he⟩
  | cons daemon rest ih =>
    rcases ih (d.insert daemon.id (f daemon)) with ⟨hl, hne⟩ | ⟨e, he, hid, hl⟩
    · by_cases hid : daemon.id = id
      · subst hid
        exact .inr ⟨daemon, List.mem_cons_self, rfl, hl.trans (AList.lookup_insert d)⟩
      · refine .inl ⟨hl.trans (AList.lookup_insert_ne (Ne.symm hid)), ?_⟩
        intro e he
        rcases List.mem_cons.mp he with rfl | he
        · exact hid
        · exact hne e he
    · exact .inr ⟨e, List.mem_cons_of_mem _ he, hid, hl⟩

/-- A dict over the entries holds, for an entry's id, the value of an entry with this id. -/
theorem lookup_byId {α : Type*} (f : DaemonConfig → α) {enabled : List DaemonConfig} {daemon : DaemonConfig}
    (h : daemon ∈ enabled) : ∃ e ∈ enabled, e.id = daemon.id ∧ (byId f enabled).lookup daemon.id = some (f e) := by
  rcases foldl_lookup f enabled ∅ daemon.id with ⟨-, hne⟩ | hsome
  · exact absurd rfl (hne daemon h)
  · exact hsome

/-- The manager of an entry's id has the transport of that id. -/
theorem lookup_listeners {enabled : List DaemonConfig} {daemon : DaemonConfig} (h : daemon ∈ enabled) :
    ∃ t, (transportsByDaemon enabled).lookup daemon.id = some t ∧
      (listenersByDaemon enabled).lookup daemon.id = some (some ⟨daemon.id, t⟩) := by
  obtain ⟨e, -, -, ht⟩ := lookup_byId buildTransport h
  obtain ⟨e', -, hid', hl⟩ := lookup_byId (fun daemon => ((transportsByDaemon enabled).lookup daemon.id).map fun t =>
    (⟨daemon.id, t⟩ : ListenerManager)) h
  refine ⟨buildTransport e, ht, hl.trans ?_⟩
  rw [hid', show (transportsByDaemon enabled).lookup daemon.id = some (buildTransport e) from ht]
  rfl

/-! ## Runs -/

/-- What `run` has done so far, it did under the ids of its entries. -/
structure Wired (enabled : List DaemonConfig) (s : St) : Prop where
  pending : ∀ (i : Nat) (daemon : DaemonConfig), enabled[i]? = some daemon → ∀ p ∈ s.pending i, p.1 = daemon.id
  polls : ∀ p ∈ s.polls, p.daemon ∈ enabled ∧ (transportsByDaemon enabled).lookup p.daemon.id = some p.transport
  dispatches : ∀ d ∈ s.dispatches, d.daemon ∈ enabled ∧ d.listeners.dockerHost = d.daemon.id ∧
    (transportsByDaemon enabled).lookup d.daemon.id = some d.listeners.transport

theorem init_wired (enabled : List DaemonConfig) : Wired enabled {} where
  pending i daemon _ p hp := by cases hp
  polls p hp := by cases hp
  dispatches d hd := by cases hd

/-- One daemon's callbacks are replaced by callbacks of its id. -/
theorem Wired.pending_update {enabled : List DaemonConfig} {s : St} (hW : Wired enabled s) {i : Nat} {daemon : DaemonConfig}
    (hd : enabled[i]? = some daemon) {calls : List (String × ContainerRef)} (hcalls : ∀ p ∈ calls, p.1 = daemon.id) :
    ∀ (j : Nat) (d : DaemonConfig), enabled[j]? = some d → ∀ p ∈ Function.update s.pending i calls j, p.1 = d.id := by
  intro j d hj p hp
  by_cases hij : j = i
  · subst hij
    rw [hd] at hj
    cases hj
    rw [Function.update_self] at hp
    exact hcalls p hp
  · rw [Function.update_of_ne hij] at hp
    exact hW.pending j d hj p hp

theorem step_wired {enabled : List DaemonConfig} {s s' : St} {e : Ev} (hW : Wired enabled s)
    (h : step enabled s e = some s') : Wired enabled s' := by
  cases e with
  | poll i =>
    obtain ⟨daemon, hd, h⟩ := Option.bind_eq_some_iff.mp h
    obtain ⟨t, ht, h⟩ := Option.bind_eq_some_iff.mp h
    cases h
    refine ⟨hW.pending, ?_, hW.dispatches⟩
    intro p hp
    rcases List.mem_append.mp hp with hp | hp
    · exact hW.polls p hp
    · rw [List.mem_singleton.mp hp]
      exact ⟨List.mem_of_getElem? hd, ht⟩
  | listed i listing =>
    obtain ⟨daemon, hd, h⟩ := Option.bind_eq_some_iff.mp h
    simp only [Registry.update] at h
    split at h
    · cases h
      refine ⟨hW.pending_update hd ?_, hW.polls, hW.dispatches⟩
      intro p hp
      obtain ⟨ref, -, rfl⟩ := List.mem_map.mp hp
      rfl
    · cases h
  | callback i =>
    obtain ⟨daemon, hd, h⟩ := Option.bind_eq_some_iff.mp h
    split at h
    · cases h
    · rename_i dockerHost ref rest hpend
      obtain ⟨listeners, hl, h⟩ := Option.bind_eq_some_iff.mp h
      cases h
      have hhost : dockerHost = daemon.id := hW.pending i daemon hd (dockerHost, ref) (by rw [hpend]; exact List.mem_cons_self)
      refine ⟨hW.pending_update hd ?_, hW.polls, ?_⟩
      · intro p hp
        exact hW.pending i daemon hd p (by rw [hpend]; exact List.mem_cons_of_mem _ hp)
      · intro x hx
        rcases List.mem_append.mp hx with hx | hx
        · exact hW.dispatches x hx
        · rw [List.mem_singleton.mp hx]
          obtain ⟨t, ht, hm⟩ := lookup_listeners (List.mem_of_getElem? hd)
          rw [hhost, hm] at hl
          cases hl
          exact ⟨List.mem_of_getElem? hd, rfl, ht⟩
  | forget i c =>
    obtain ⟨daemon, -, h⟩ := Option.bind_eq_some_iff.mp h
    cases h
    exact ⟨hW.pending, hW.polls, hW.dispatches⟩

theorem reach_wired {enabled : List DaemonConfig} {s : St} (h : (machine enabled).Reach s) : Wired enabled s :=
  Machine.Reach.inv (I := Wired enabled) (fun s h0 => by cases h0; exact init_wired enabled)
    (fun _ _ _ hW hs => step_wired hW hs) h

/-- No lookup of the dispatcher fails. -/
theorem callback_possible {enabled : List DaemonConfig} {s : St} (h : (machine enabled).Reach s) {i : Nat}
    {daemon : DaemonConfig} (hd : enabled[i]? = some daemon) (hp : s.pending i ≠ []) :
    ∃ s', step enabled s (.callback i) = some s' := by
  obtain ⟨⟨dockerHost, ref⟩, rest, hpend⟩ := List.exists_cons_of_ne_nil hp
  have hhost : dockerHost = daemon.id :=
    (reach_wired h).pending i daemon hd (dockerHost, ref) (by rw [hpend]; exact List.mem_cons_self)
  obtain ⟨t, -, hm⟩ := lookup_listeners (List.mem_of_getElem? hd)
  simp only [step, hd, hpend, hhost, hm, Option.bind_eq_bind, Option.bind_some, Option.join_some]
  exact ⟨_, rfl⟩

/-- In every run: the loop of each enabled entry polls that entry's host, and hands its new
    containers to a manager with that entry's transport, precisely when any two enabled
    entries with the same id build the same transport. -/
theorem entries_have_their_own_transports_iff (settings : Settings) :
    (∀ s, (machine settings.enabledDaemons).Reach s →
      (∀ (i : Nat) (daemon : DaemonConfig), settings.enabledDaemons[i]? = some daemon →
        ∃ s', step settings.enabledDaemons s (.poll i) = some s' ∧ s'.polls = s.polls ++ [⟨daemon, buildTransport daemon⟩]) ∧
      ∀ d ∈ s.dispatches, d.listeners.dockerHost = d.daemon.id ∧ d.listeners.transport = buildTransport d.daemon) ↔
    ∀ e ∈ settings.enabledDaemons, ∀ e' ∈ settings.enabledDaemons, e.id = e'.id → buildTransport e = buildTransport e' := by
  generalize settings.enabledDaemons = enabled
  constructor
  · intro hown
    -- what a loop polls is what the dict of the transports has for its id
    have hlookup : ∀ e ∈ enabled, (transportsByDaemon enabled).lookup e.id = some (buildTransport e) := by
      intro e he
      obtain ⟨i, hi⟩ := List.mem_iff_getElem?.mp he
      obtain ⟨s', hs', hpolls⟩ := (hown {} (.init rfl)).1 i e hi
      have hmem : (⟨e, buildTransport e⟩ : Poll) ∈ s'.polls := by
        rw [hpolls]
        exact List.mem_append_right _ (List.mem_singleton_self _)
      exact ((step_wired (init_wired enabled) hs').polls _ hmem).2
    intro e he e' he' hid
    have h := hlookup e he
    rw [hid, hlookup e' he'] at h
    exact (Option.some.inj h).symm
  · intro hsame s hreach
    have hlookup : ∀ e ∈ enabled, (transportsByDaemon enabled).lookup e.id = some (buildTransport e) := by
      intro e he
      obtain ⟨e', he', hid, hl⟩ := lookup_byId buildTransport he
      rw [transportsByDaemon, hl, hsame e' he' e he hid]
    constructor
    · intro i daemon hd
      refine ⟨{ s with polls := s.polls ++ [⟨daemon, buildTransport daemon⟩] }, ?_, rfl⟩
      simp only [step, hd, hlookup daemon (List.mem_of_getElem? hd), Option.bind_eq_bind, Option.bind_some]
      rfl
    · intro d hd
      obtain ⟨hmem, hhost, ht⟩ := (reach_wired hreach).dispatches d hd
      rw [hlookup d.daemon hmem] at ht
      exact ⟨hhost, (Option.some.inj ht).symm⟩

/-! ## Two entries with one id -/

def primary : DaemonConfig := { id := "prod", host := "10.0.0.5" }

def standby : DaemonConfig := { id := "prod", host := "10.0.0.6" }

/-- The first entry's host is never polled: its loop polls the second one's, and hands what
    it finds there to a manager with that transport. -/
theorem the_first_host_is_not_watched :
    (∀ s, (machine (Settings.enabledDaemons ⟨[primary, standby]⟩)).Reach s →
      ∀ p ∈ s.polls, p.transport = buildTransport standby ∧ p.transport ≠ buildTransport primary) ∧
    ∃ s, (machine (Settings.enabledDaemons ⟨[primary, standby]⟩)).run {}
        [.poll 0, .listed 0 [⟨"a1b2c3d4e5f6", "web-1"⟩], .callback 0] = some s ∧
      s.polls = [⟨primary, buildTransport standby⟩] ∧
      s.dispatches = [⟨primary, ⟨"a1b2c3d4e5f6", "web-1"⟩, ⟨"prod", buildTransport standby⟩⟩] := by
  have henabled : Settings.enabledDaemons ⟨[primary, standby]⟩ = [primary, standby] := by decide +kernel
  rw [henabled]
  have hlookup : (transportsByDaemon [primary, standby]).lookup "prod" = some (buildTransport standby) := by decide +kernel
  refine ⟨?_, ?_⟩
  · intro s hreach p hp
    obtain ⟨hmem, ht⟩ := (reach_wired hreach).polls p hp
    have hid : p.daemon.id = "prod" := by
      rcases List.mem_cons.mp hmem with he | he
      · rw [he]; rfl
      · rw [List.mem_singleton.mp he]; rfl
    rw [hid, hlookup] at ht
    rw [← Option.some.inj ht]
    exact ⟨rfl, by decide +kernel⟩
  · have hrun : ((machine [primary, standby]).run {} [.poll 0, .listed 0 [⟨"a1b2c3d4e5f6", "web-1"⟩], .callback 0]).map
        (fun s => (s.polls, s.dispatches)) = some ([⟨primary, buildTransport standby⟩],
          [⟨primary, ⟨"a1b2c3d4e5f6", "web-1"⟩, ⟨"prod", buildTransport standby⟩⟩]) := by decide +kernel
    obtain ⟨s, hs, hp⟩ := Option.map_eq_some_iff.mp hrun
    exact ⟨s, hs, (Prod.mk.inj hp).1, (Prod.mk.inj hp).2⟩

end LogSump.Listener.App
