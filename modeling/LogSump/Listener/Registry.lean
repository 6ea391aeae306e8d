/-
  LogSump.Listener.Registry — `registry.py`: for each daemon the containers its listings have
  shown, each with the number of the last listing that did.

  What the two counters are for is said over the history of the calls: a container's misses
  are the daemon's most recent listings without it (`absences`), and it is known while it has
  been listed since it was last forgotten (`ListedSince`).

  - `update_lookup`: a listing bumps every container it contains and leaves the others.
  - `update_new`: the callback's containers are those that were not known, each once.
  - `Tracks`: the counters count the misses; kept by every update and forget.
  - `after_tracks`, `known_iff`, `callbacks_iff`: what the registry holds after any calls,
    for any number of daemons.
-/

import Mathlib

namespace LogSump.Listener

structure ContainerRef where
  containerId : String
  containerName : String
  deriving DecidableEq, Repr

structure ContainerState where
  ref : ContainerRef
  lastSeenSeq : Nat
  deriving DecidableEq, Repr

abbrev Containers := AList fun _ : String => ContainerState

structure DaemonState where
  listingSeq : Nat := 0
  containers : Containers := ∅

namespace DaemonState

/-- The body of `update`'s loop over the listing. -/
def record (seq : Nat) (acc : Containers × List ContainerRef) (ref : ContainerRef) : Containers × List ContainerRef :=
  (acc.1.insert ref.containerId ⟨ref, seq⟩, if ref.containerId ∈ acc.1 then acc.2 else acc.2 ++ [ref])

/-- The bookkeeping of `Registry.update`, in the order in which the listing is iterated, and
    the new containers it calls back for. -/
def update (state : DaemonState) (listing : List ContainerRef) : DaemonState × List ContainerRef :=
  let seq := state.listingSeq + 1
  let r := listing.foldl (record seq) (state.containers, [])
  (⟨seq, r.1⟩, r.2)

def forget (state : DaemonState) (containerId : String) : DaemonState :=
  { state with containers := state.containers.erase containerId }

theorem foldl_record_mem {seq : Nat} {listing : List ContainerRef} {acc : Containers × List ContainerRef} {c : String} :
    c ∈ (listing.foldl (record seq) acc).1 ↔ c ∈ acc.1 ∨ c ∈ listing.map (·.containerId) := by
  induction listing generalizing acc with
  | nil => simp
  | cons ref listing ih =>
    rw [List.foldl_cons, ih, record, AList.mem_insert, List.map_cons, List.mem_cons]
    tauto

theorem foldl_record_lookup {seq : Nat} {listing : List ContainerRef} {acc : Containers × List ContainerRef}
    {c : String} (h : c ∉ listing.map (·.containerId)) :
    (listing.foldl (record seq) acc).1.lookup c = acc.1.lookup c := by
  induction listing generalizing acc with
  | nil => rfl
  | cons ref listing ih =>
    rw [List.map_cons, List.mem_cons, not_or] at h
    rw [List.foldl_cons, ih h.2]
    exact AList.lookup_insert_ne h.1

/-- A listed container has the listing's number. -/
theorem foldl_record_listed {seq : Nat} {listing : List ContainerRef} {acc : Containers × List ContainerRef}
    {c : String} (h : c ∈ listing.map (·.containerId)) :
    ∃ ref, (listing.foldl (record seq) acc).1.lookup c = some ⟨ref, seq⟩ := by
  induction listing generalizing acc with
  | nil => simp at h
  | cons ref listing ih =>
    by_cases hc : c ∈ listing.map (·.containerId)
    · exact ih hc
    · have he : c = ref.containerId := by simpa [hc] using h
      rw [List.foldl_cons, foldl_record_lookup hc, he]
      exact ⟨ref, AList.lookup_insert _⟩

/-- The new containers: those not known before, each once. -/
theorem foldl_record_new {seq : Nat} {listing : List ContainerRef} (acc : Containers × List ContainerRef)
    (hnd : (acc.2.map (·.containerId)).Nodup) (hsub : ∀ c ∈ acc.2.map (·.containerId), c ∈ acc.1) :
    ((listing.foldl (record seq) acc).2.map (·.containerId)).Nodup ∧
      ∀ c, c ∈ (listing.foldl (record seq) acc).2.map (·.containerId) ↔
        c ∈ acc.2.map (·.containerId) ∨ (c ∈ listing.map (·.containerId) ∧ c ∉ acc.1) := by
  induction listing generalizing acc with
  | nil => exact ⟨hnd, by simp⟩
  | cons ref listing ih =>
    by_cases hk : ref.containerId ∈ acc.1
    · have hrec : (record seq acc ref).2 = acc.2 := if_pos hk
      have hstep := ih (record seq acc ref) (hrec ▸ hnd) fun c hc =>
        (AList.mem_insert _).mpr (.inr (hsub c (hrec ▸ hc)))
      refine ⟨hstep.1, ?_⟩
      intro c
      rw [List.foldl_cons, hstep.2, hrec, List.map_cons, List.mem_cons, record, AList.mem_insert]
      by_cases he : c = ref.containerId
      · simp [he, hk]
      · simp [he]
    · have hrec : (record seq acc ref).2 = acc.2 ++ [ref] := if_neg hk
      have hmem : ref.containerId ∉ acc.2.map (·.containerId) := fun h => hk (hsub _ h)
      have hnd' : ((record seq acc ref).2.map (·.containerId)).Nodup := by
        rw [hrec, List.map_append]
        exact List.nodup_append.mpr ⟨hnd, List.nodup_singleton _, fun a ha b hb he => by
          rw [List.map_singleton, List.mem_singleton] at hb
          exact hmem (hb ▸ he ▸ ha)⟩
      have hsub' : ∀ c ∈ (record seq acc ref).2.map (·.containerId), c ∈ (record seq acc ref).1 := by
        intro c hc
        rw [hrec, List.map_append, List.mem_append, List.map_singleton, List.mem_singleton] at hc
        exact (AList.mem_insert _).mpr (hc.symm.imp id (hsub c))
      have hstep := ih _ hnd' hsub'
      refine ⟨hstep.1, ?_⟩
      intro c
      rw [List.foldl_cons, hstep.2, hrec, List.map_cons, List.mem_cons, record, AList.mem_insert, List.map_append]
      by_cases he : c = ref.containerId
      · simp [he, hk]
      · simp [he]

variable (state : DaemonState) (listing : List ContainerRef) (c : String)

theorem update_listingSeq : (state.update listing).1.listingSeq = state.listingSeq + 1 := rfl

theorem update_mem {state : DaemonState} {listing : List ContainerRef} {c : String} :
    c ∈ (state.update listing).1.containers ↔ c ∈ state.containers ∨ c ∈ listing.map (·.containerId) :=
  foldl_record_mem

theorem update_lookup :
    (state.update listing).1.containers.lookup c = state.containers.lookup c ∧ c ∉ listing.map (·.containerId) ∨
      c ∈ listing.map (·.containerId) ∧
        ∃ ref, (state.update listing).1.containers.lookup c = some ⟨ref, state.listingSeq + 1⟩ := by
  by_cases hc : c ∈ listing.map (·.containerId)
  · exact .inr ⟨hc, foldl_record_listed hc⟩
  · exact .inl ⟨foldl_record_lookup hc, hc⟩

theorem update_new :
    ((state.update listing).2.map (·.containerId)).Nodup ∧
      ∀ c, c ∈ (state.update listing).2.map (·.containerId) ↔
        c ∈ listing.map (·.containerId) ∧ c ∉ state.containers := by
  have h := @foldl_record_new (state.listingSeq + 1) listing (state.containers, []) List.nodup_nil (by simp)
  exact ⟨h.1, fun c => (h.2 c).trans (by simp)⟩

end DaemonState

/-! ## What the counters count -/

/-- Whether a container is in a listing. -/
def Lists (listing : List ContainerRef) (c : String) : Prop := c ∈ listing.map (·.containerId)

instance (listing : List ContainerRef) : DecidablePred (Lists listing) := fun c =>
  inferInstanceAs (Decidable (c ∈ listing.map (·.containerId)))

/-- How many of the most recent listings in a row are without the container. -/
def absences (listings : List (List ContainerRef)) (c : String) : Nat :=
  (listings.reverse.takeWhile fun l => ¬ Lists l c).length

/-- A daemon's state after these listings. -/
structure Tracks (listings : List (List ContainerRef)) (state : DaemonState) : Prop where
  seq : state.listingSeq = listings.length
  seen : ∀ c st, state.containers.lookup c = some st → state.listingSeq = st.lastSeenSeq + absences listings c
  listed : ∀ c ∈ state.containers, ∃ l ∈ listings, Lists l c

theorem tracks_empty : Tracks [] {} := ⟨rfl, fun c st h => by simp at h, fun c h => absurd h (AList.notMem_empty c)⟩

theorem absences_snoc (listings : List (List ContainerRef)) (l : List ContainerRef) (c : String) :
    absences (listings ++ [l]) c = if Lists l c then 0 else absences listings c + 1 := by
  unfold absences
  rw [List.reverse_append, List.reverse_singleton, List.singleton_append, List.takeWhile_cons]
  by_cases h : Lists l c <;> simp [h]

theorem Tracks.update {listings : List (List ContainerRef)} {state : DaemonState} (h : Tracks listings state)
    (l : List ContainerRef) : Tracks (listings ++ [l]) (state.update l).1 := by
  refine ⟨?_, ?_, ?_⟩
  · rw [DaemonState.update_listingSeq, h.seq, List.length_append, List.length_singleton]
  · intro c st hc
    rw [DaemonState.update_listingSeq, absences_snoc]
    rcases DaemonState.update_lookup state l c with ⟨he, hn⟩ | ⟨hl, ref, he⟩
    · have := h.seen c st (he ▸ hc)
      rw [if_neg (show ¬ Lists l c from hn)]
      omega
    · rw [he] at hc
      cases hc
      rw [if_pos (show Lists l c from hl), Nat.add_zero]
  · intro c hc
    rcases DaemonState.update_mem.mp hc with hc | hc
    · obtain ⟨l', hl', hin⟩ := h.listed c hc
      exact ⟨l', List.mem_append_left _ hl', hin⟩
    · exact ⟨l, List.mem_append_right _ (List.mem_singleton_self l), hc⟩

theorem forget_lookup {state : DaemonState} {c d : String} {st : ContainerState}
    (h : (state.forget c).containers.lookup d = some st) : d ≠ c ∧ state.containers.lookup d = some st := by
  by_cases he : d = c
  · rw [he, DaemonState.forget, AList.lookup_erase] at h
    cases h
  · rw [DaemonState.forget, AList.lookup_erase_ne he] at h
    exact ⟨he, h⟩

theorem Tracks.forget {listings : List (List ContainerRef)} {state : DaemonState} (h : Tracks listings state) (c : String) :
    Tracks listings (state.forget c) :=
  ⟨h.seq, fun d st hd => h.seen d st (forget_lookup hd).2, fun d hd => h.listed d (AList.mem_erase.mp hd).2⟩

/-- A prefix of the list has the property throughout exactly where it is within the longest
    such prefix, when some element has not. -/
theorem le_length_takeWhile_iff {α : Type*} {p : α → Bool} {xs : List α} (h : ∃ x ∈ xs, p x = false) (n : Nat) :
    n ≤ (xs.takeWhile p).length ↔ ∀ x ∈ xs.take n, p x = true := by
  induction xs generalizing n with
  | nil => simp at h
  | cons x xs ih =>
    cases n with
    | zero => simp
    | succ n =>
      by_cases hx : p x
      · have h' : ∃ y ∈ xs, p y = false := by
          obtain ⟨y, hy, hpy⟩ := h
          rcases List.mem_cons.mp hy with rfl | hy
          · rw [hx] at hpy; cases hpy
          · exact ⟨y, hy, hpy⟩
        rw [List.takeWhile_cons_of_pos hx, List.length_cons, Nat.add_le_add_iff_right, ih h', List.take_succ_cons]
        simp [hx]
      · rw [List.takeWhile_cons_of_neg hx, List.take_succ_cons]
        simp [hx]

/-- The last `n` listings are all without a known container exactly where it has as many
    misses. -/
theorem Tracks.absent_iff {listings : List (List ContainerRef)} {state : DaemonState} (h : Tracks listings state)
    {c : String} (hc : c ∈ state.containers) (n : Nat) :
    n ≤ absences listings c ↔ ∀ l ∈ listings.reverse.take n, ¬ Lists l c := by
  obtain ⟨l, hl, hin⟩ := h.listed c hc
  have hiff := le_length_takeWhile_iff (p := fun l => decide ¬ Lists l c) ⟨l, List.mem_reverse.mpr hl, by simp [hin]⟩ n
  simp only [decide_eq_true_eq] at hiff
  exact hiff

/-! ## All daemons -/

/-- `_daemons`. -/
abbrev Registry := AList fun _ : String => DaemonState

namespace Registry

/-- `setdefault`; that the empty state is stored cannot be told from its being missing. -/
def stateFor (registry : Registry) (dockerHost : String) : DaemonState := (registry.lookup dockerHost).getD {}

/-- `update`, with the calls of the callback that it makes. -/
def update (registry : Registry) (dockerHost : String) (listing : List ContainerRef) :
    Registry × List (String × ContainerRef) :=
  let (state, newRefs) := (registry.stateFor dockerHost).update listing
  (registry.insert dockerHost state, newRefs.map fun ref => (dockerHost, ref))

def forget (registry : Registry) (dockerHost containerId : String) : Registry :=
  match registry.lookup dockerHost with
  | none => registry
  | some state => registry.insert dockerHost (state.forget containerId)

theorem stateFor_insert (registry : Registry) (h h' : String) (state : DaemonState) :
    stateFor (registry.insert h state) h' = if h' = h then state else registry.stateFor h' := by
  unfold stateFor
  by_cases he : h' = h
  · rw [he, AList.lookup_insert, if_pos rfl, Option.getD_some]
  · rw [AList.lookup_insert_ne he, if_neg he]

theorem stateFor_update (registry : Registry) (h h' : String) (listing : List ContainerRef) :
    (registry.update h listing).1.stateFor h' =
      if h' = h then ((registry.stateFor h).update listing).1 else registry.stateFor h' := stateFor_insert _ _ _ _

theorem stateFor_forget (registry : Registry) (h h' c : String) :
    (registry.forget h c).stateFor h' = if h' = h then (registry.stateFor h).forget c else registry.stateFor h' := by
  unfold forget
  cases hl : registry.lookup h with
  | none =>
    -- nothing is known, so nothing is forgotten
    by_cases he : h' = h
    · have hn : registry.stateFor h = {} := by rw [stateFor, hl]; rfl
      rw [he, if_pos rfl, hn]
      rfl
    · rw [if_neg he]
  | some state =>
    have hs : registry.stateFor h = state := by rw [stateFor, hl]; rfl
    rw [hs]
    exact stateFor_insert _ _ _ _

end Registry

inductive Call where
  | update (dockerHost : String) (listing : List ContainerRef)
  | forget (dockerHost : String) (containerId : String)
  deriving DecidableEq, Repr

namespace Registry

/-- The registry after a call, and the calls of the callback during it. -/
def call (registry : Registry) : Call → Registry × List (String × ContainerRef)
  | .update h listing => registry.update h listing
  | .forget h c => (registry.forget h c, [])

def after (calls : List Call) : Registry := calls.foldl (fun registry c => (registry.call c).1) ∅

/-- The listings of one daemon, oldest first. -/
def listings (calls : List Call) (dockerHost : String) : List (List ContainerRef) :=
  calls.filterMap fun
    | .update h listing => if h = dockerHost then some listing else none
    | .forget _ _ => none

/-- The container was in one of the daemon's listings, and has not been forgotten since. -/
def ListedSince (calls : List Call) (h c : String) : Prop :=
  ∃ pre listing post, calls = pre ++ .update h listing :: post ∧ Lists listing c ∧ .forget h c ∉ post

theorem after_snoc (calls : List Call) (c : Call) : after (calls ++ [c]) = ((after calls).call c).1 := by
  simp [after, List.foldl_append]

theorem after_tracks (calls : List Call) (h : String) : Tracks (listings calls h) ((after calls).stateFor h) := by
  induction calls using List.reverseRecOn with
  | nil => exact tracks_empty
  | append_singleton calls call ih =>
    rw [after_snoc, listings, List.filterMap_append]
    cases call with
    | update h' listing =>
      rw [Registry.call, stateFor_update]
      by_cases he : h = h'
      · subst he
        simpa [listings] using ih.update listing
      · simpa [listings, he, Ne.symm he] using ih
    | forget h' c =>
      rw [Registry.call, stateFor_forget]
      by_cases he : h = h'
      · subst he
        simpa [listings] using ih.forget c
      · simpa [listings, he] using ih

theorem listedSince_snoc (calls : List Call) (call : Call) (h c : String) :
    ListedSince (calls ++ [call]) h c ↔
      (∃ listing, call = .update h listing ∧ Lists listing c) ∨ (ListedSince calls h c ∧ call ≠ .forget h c) := by
  constructor
  · intro hhist
    obtain ⟨pre, listing, post, he, hl, hn⟩ := hhist
    rcases List.eq_nil_or_concat post with rfl | ⟨post, last, rfl⟩
    · obtain ⟨rfl, hlast⟩ := List.append_inj' he rfl
      exact .inl ⟨listing, List.head_eq_of_cons_eq hlast, hl⟩
    · rw [List.concat_eq_append, ← List.cons_append, ← List.append_assoc] at he
      obtain ⟨rfl, hlast⟩ := List.append_inj' he rfl
      rw [List.concat_eq_append, List.mem_append, not_or] at hn
      refine .inr ⟨⟨pre, listing, post, rfl, hl, hn.1⟩, fun hc => hn.2 ?_⟩
      rw [← List.head_eq_of_cons_eq hlast, hc]
      exact List.mem_singleton_self _
  · intro hhist
    rcases hhist with ⟨listing, rfl, hl⟩ | ⟨⟨pre, listing, post, rfl, hl, hn⟩, hc⟩
    · exact ⟨calls, listing, [], rfl, hl, List.not_mem_nil⟩
    · refine ⟨pre, listing, post ++ [call], by simp, hl, ?_⟩
      intro hm
      rcases List.mem_append.mp hm with hm | hm
      · exact hn hm
      · exact hc (List.mem_singleton.mp hm).symm

theorem known_iff (calls : List Call) (h c : String) :
    c ∈ ((after calls).stateFor h).containers ↔ ListedSince calls h c := by
  induction calls using List.reverseRecOn with
  | nil =>
    refine iff_of_false (AList.notMem_empty c) ?_
    intro hhist
    obtain ⟨pre, listing, post, he, -⟩ := hhist
    simp at he
  | append_singleton calls call ih =>
    rw [after_snoc, listedSince_snoc, ← ih]
    cases call with
    | update h' listing =>
      rw [Registry.call, stateFor_update]
      by_cases he : h = h'
      · subst he
        rw [if_pos rfl, DaemonState.update_mem]
        simp [Lists, or_comm]
      · simp [he, Ne.symm he]
    | forget h' d =>
      rw [Registry.call, stateFor_forget]
      by_cases he : h = h'
      · subst he
        rw [if_pos rfl, DaemonState.forget, AList.mem_erase]
        simp [and_comm, eq_comm]
      · simp [he, Ne.symm he]

/-- A call calls back for the containers that it makes known, each once. -/
theorem callbacks_iff (calls : List Call) (call : Call) :
    (((after calls).call call).2.map fun p => (p.1, p.2.containerId)).Nodup ∧
      ∀ h c, (h, c) ∈ ((after calls).call call).2.map (fun p => (p.1, p.2.containerId)) ↔
        ¬ ListedSince calls h c ∧ ListedSince (calls ++ [call]) h c := by
  cases call with
  | forget h' d =>
    refine ⟨List.nodup_nil, fun h c => iff_of_false List.not_mem_nil fun ⟨hn, hl⟩ => ?_⟩
    rcases (listedSince_snoc _ _ _ _).mp hl with ⟨_, he, -⟩ | ⟨hl, -⟩
    · cases he
    · exact hn hl
  | update h' listing =>
    obtain ⟨hnd, hnew⟩ := ((after calls).stateFor h').update_new listing
    have hmap : ((after calls).call (.update h' listing)).2.map (fun p => (p.1, p.2.containerId)) =
        (((after calls).stateFor h').update listing).2.map fun ref => (h', ref.containerId) := by
      simp [Registry.call, Registry.update]
    rw [hmap]
    have hpairs : ((((after calls).stateFor h').update listing).2.map fun ref => (h', ref.containerId)).Nodup := by
      have := hnd.map (f := fun c => (h', c)) fun _ _ he => (Prod.mk.inj he).2
      rwa [List.map_map] at this
    refine ⟨hpairs, ?_⟩
    intro h c
    have hmem : (h, c) ∈ (((after calls).stateFor h').update listing).2.map (fun ref => (h', ref.containerId)) ↔
        h = h' ∧ c ∈ (((after calls).stateFor h').update listing).2.map (·.containerId) := by
      simp only [List.mem_map, Prod.mk.injEq]
      exact ⟨fun ⟨r, hr, he, hc⟩ => ⟨he.symm, r, hr, hc⟩, fun ⟨he, r, hr, hc⟩ => ⟨r, hr, he.symm, hc⟩⟩
    rw [hmem, hnew, known_iff, listedSince_snoc]
    constructor
    · intro hlisted
      obtain ⟨rfl, hl, hn⟩ := hlisted
      exact ⟨hn, .inl ⟨listing, rfl, hl⟩⟩
    · intro hlisted
      obtain ⟨hn, ⟨l, he, hl⟩ | ⟨hl, -⟩⟩ := hlisted
      · cases he
        exact ⟨rfl, hl, hn⟩
      · exact absurd hl hn

end Registry

end LogSump.Listener
