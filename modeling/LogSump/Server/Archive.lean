/-
  LogSump.Server.Archive — what a stream is to its readers: a ledger, of which the process
  keeps what has not expired, whatever the consumer, the trimmer and their failures do in
  between.

  - `ledger_simulation`: each step of the process is matched by at most one event of the
    ledger of a stream.
  - `an_id_names_one_entry`: over a whole run, an id stands for one entry, and an entry that is
    gone does not come back.
  - `only_a_sweep_removes`: an entry stays as long as no sweep has a horizon above its id.
  - `a_sweep_removes_what_it_found`: a sweep without failures removes everything from before
    its horizon that was there when it began, beside whatever the consumer adds meanwhile.
-/

import LogSump.Foundation.Ledger
import LogSump.Foundation.Simulation
import LogSump.Server.Process

namespace LogSump.Server.Process

open Common Redis Foundation

/-- The stream holds what is kept of the ledger, and has given out every id in it. -/
def Holds (db : Store) (h : String) (k : Kind) (l : Ledger StreamId Fields) : Prop :=
  ∃ t, streamAt db (streamKey h k) = .ok t ∧ t.entries = l.kept ∧ ∀ e ∈ l.written, e.1 ≤ t.lastId

/-- The ledger of a stream of which nothing has expired. -/
def ledgerOf (t : Stream Fields) : Ledger StreamId Fields := .ofList t.entries t.sorted

theorem holds_ledgerOf {db : Store} {h : String} {k : Kind} {t : Stream Fields} (ht : streamAt db (streamKey h k) = .ok t) :
    Holds db h k (ledgerOf t) := ⟨t, ht, rfl, t.le_lastId⟩

/-- What an event of the ledger is in the store. -/
def actionOf (h : String) (k : Kind) : LedgerEvent StreamId Fields → Action
  | .write i fields => .write h k i fields
  | .expire bound => .expire h k bound

variable {C : Config}

theorem Holds.congr {db db' : Store} {h : String} {k : Kind} {l : Ledger StreamId Fields} (hh : Holds db h k l)
    (he : db' (streamKey h k) = db (streamKey h k)) : Holds db' h k l := by
  obtain ⟨t, ht, hkept, hlast⟩ := hh
  exact ⟨t, (streamAt_congr he).trans ht, hkept, hlast⟩

theorem holds_write {db : Store} {h : String} {k : Kind} {l : Ledger StreamId Fields} {t t' : Stream Fields} {clock : U64}
    {i : StreamId} {fields : Fields} (hh : Holds db h k l) (ht : streamAt db (streamKey h k) = .ok t)
    (hadd : t.xadd clock fields = some t') (hi : Stream.nextId t.lastId clock = some i) :
    ∃ l', Ledger.step l (.write i fields) = some l' ∧ Holds (putStream db (streamKey h k) t') h k l' := by
  obtain ⟨u, hu, hkept, hlast⟩ := hh
  rw [ht] at hu
  cases hu
  have hlt := Stream.nextId_lt hi
  have hguard : ∀ e ∈ l.written, e.1 < i := fun e he => (hlast e he).trans_lt hlt
  obtain ⟨j, hj, hent⟩ := Stream.xadd_entries hadd
  rw [hi] at hj
  cases hj
  refine ⟨l.write i fields hguard, dif_pos hguard, t', putStream_same _ _ _, by rw [hent, hkept]; rfl, ?_⟩
  have hmem : ∀ e ∈ t'.entries, e.1 ≤ t'.lastId := t'.le_lastId
  have hnew : i ≤ t'.lastId := hmem (i, fields) (by rw [hent]; exact List.mem_append_right _ (List.mem_singleton_self _))
  intro e he
  rcases List.mem_append.mp he with he | he
  · exact ((hguard e he).le).trans hnew
  · rw [List.mem_singleton.mp he]
    exact hnew

theorem holds_expire {db : Store} {h : String} {k : Kind} {l : Ledger StreamId Fields} {t : Stream Fields} {minId : StreamId}
    (hh : Holds db h k l) (ht : streamAt db (streamKey h k) = .ok t) :
    Holds (putStream db (streamKey h k) (t.trim minId)) h k (l.expire minId) := by
  obtain ⟨u, hu, hkept, hlast⟩ := hh
  rw [ht] at hu
  cases hu
  refine ⟨t.trim minId, putStream_same _ _ _, ?_, hlast⟩
  show t.entries.filter _ = l.kept.filter _
  rw [hkept]

/-- One change of the store is no event of the ledger, or the event that it says. -/
theorem effect_holds {db db' : Store} {a : Action} {h : String} {k : Kind} {l : Ledger StreamId Fields}
    (hh : Holds db h k l) (he : Effect C.sha256 db a db') :
    Holds db' h k l ∨ ∃ d l', Ledger.step l d = some l' ∧ Holds db' h k l' ∧ a = actionOf h k d := by
  cases he with
  | nothing => exact .inl hh
  | list xs => exact .inl (hh.congr (putList_other db xs (streamKey_ne_ingestList h k)))
  | provision a xs => exact .inl (hh.congr (putSet_other db xs (streamKey_ne_authKey h k _ a)))
  | @write h' k' t t' clock i fields ht hadd hi =>
    by_cases hk : streamKey h k = streamKey h' k'
    · obtain ⟨rfl, rfl⟩ := streamKey_inj hk
      obtain ⟨l', hl', hh'⟩ := holds_write hh ht hadd hi
      exact .inr ⟨.write i fields, l', hl', hh', rfl⟩
    · exact .inl (hh.congr (putStream_other db t' hk))
  | @expire h' k' t minId ht =>
    by_cases hk : streamKey h k = streamKey h' k'
    · obtain ⟨rfl, rfl⟩ := streamKey_inj hk
      exact .inr ⟨.expire minId, l.expire minId, rfl, holds_expire hh ht, rfl⟩
    · exact .inl (hh.congr (putStream_other db _ hk))

/-! ## The refinement -/

/-- The state and the ledger agree on the stream. -/
def Refines (h : String) (k : Kind) (s : St) (l : Ledger StreamId Fields) : Prop := StreamKeys s ∧ Holds s.db h k l

theorem ledger_simulation (C : Config) (h : String) (k : Kind) :
    Simulation (machine C) Ledger.machine (Refines h k) fun s e d => Causes s e (actionOf h k d) where
  step := by
    intro s e s' l hR hs
    obtain ⟨hK, hh⟩ := hR
    obtain ⟨a, heff, hcause⟩ := step_effect hK hs
    rcases effect_holds hh heff with hh' | ⟨d, l', hl', hh', rfl⟩
    · exact ⟨[], l, rfl, ⟨step_streamKeys hK hs, hh'⟩, fun d hd => by cases hd⟩
    · refine ⟨[d], l', Machine.run_cons.mpr ⟨l', hl', rfl⟩, ⟨step_streamKeys hK hs, hh'⟩, ?_⟩
      intro d' hd
      rw [List.mem_singleton.mp hd]
      exact hcause

theorem refines_of_reach {s : St} (hs : (machine C).Reach s) (h : String) (k : Kind) :
    ∃ t, streamAt s.db (streamKey h k) = .ok t ∧ Refines h k s (ledgerOf t) := by
  have hI := reach_inv hs
  obtain ⟨t, ht⟩ := hI.typed.streams h k
  exact ⟨t, ht, hI.keys, holds_ledgerOf ht⟩

/-- In every run, from any reachable state on: there is a ledger that begins with the entries
    of the stream, and of which the stream holds what is kept at the end. -/
theorem the_stream_is_a_ledger (C : Config) {s s' : St} {es : List Ev} (hs : (machine C).Reach s)
    (hrun : (machine C).run s es = some s') (h : String) (k : Kind) :
    ∃ t l ds, streamAt s.db (streamKey h k) = .ok t ∧ Ledger.machine.run (ledgerOf t) ds = some l ∧ Holds s'.db h k l ∧
      ∀ P : LedgerEvent StreamId Fields → Prop,
        (machine C).Along (fun s e => ∀ d, Causes s e (actionOf h k d) → P d) s es → ∀ d ∈ ds, P d := by
  obtain ⟨t, ht, hR⟩ := refines_of_reach hs h k
  obtain ⟨ds, l, hl, hR', hP⟩ := (ledger_simulation C h k).run hR hrun
  exact ⟨t, l, ds, ht, hl, hR'.2, hP⟩

/-! ## Ids -/

theorem holds_entries {db : Store} {h : String} {k : Kind} {l : Ledger StreamId Fields} {t : Stream Fields}
    (hh : Holds db h k l) (ht : streamAt db (streamKey h k) = .ok t) : t.entries = l.kept := by
  obtain ⟨u, hu, hkept, -⟩ := hh
  rw [ht] at hu
  cases hu
  exact hkept

/-- Along a run from any reachable state through another one: an id that is seen again names
    the same entry, which was there all the time; what was not there in between has a larger
    id than everything before. -/
theorem an_id_names_one_entry (C : Config) {s s' s'' : St} {es es' : List Ev} (hs : (machine C).Reach s)
    (hrun : (machine C).run s es = some s') (hrun' : (machine C).run s' es' = some s'') (h : String) (k : Kind) :
    ∃ t t' t'', streamAt s.db (streamKey h k) = .ok t ∧ streamAt s'.db (streamKey h k) = .ok t' ∧
      streamAt s''.db (streamKey h k) = .ok t'' ∧ ∀ x ∈ t''.entries,
        (∀ e ∈ t.entries, x.1 = e.1 → x = e ∧ x ∈ t'.entries) ∧
          (x ∈ t'.entries ∨ ∀ e ∈ t.entries ++ t'.entries, e.1 < x.1) := by
  obtain ⟨t, ht, hR⟩ := refines_of_reach hs h k
  obtain ⟨ds, l, hl, hR', -⟩ := (ledger_simulation C h k).run hR hrun
  obtain ⟨ds', l', hl', hR'', -⟩ := (ledger_simulation C h k).run hR' hrun'
  obtain ⟨t', ht', hkept, -⟩ := hR'.2
  obtain ⟨t'', ht'', hkept', -⟩ := hR''.2
  refine ⟨t, t', t'', ht, ht', ht'', ?_⟩
  intro x hx
  rw [hkept'] at hx
  have hwritten : ∀ e ∈ t.entries, e ∈ l.written := by
    intro e he
    obtain ⟨new, hnew⟩ := Ledger.run_written hl
    rw [hnew]
    exact List.mem_append_left _ he
  have hback : x ∈ l.kept ∨ x ∉ l.written := Ledger.run_kept hl' hx
  constructor
  · intro e he hid
    obtain ⟨new, hnew⟩ := Ledger.run_written hl'
    have hsame : x = e := l'.id_unique (l'.sub.subset hx) (by rw [hnew]; exact List.mem_append_left _ (hwritten e he)) hid
    refine ⟨hsame, ?_⟩
    rw [hkept]
    exact hback.resolve_right fun hout => hout (hsame ▸ hwritten e he)
  · rcases Ledger.run_later hl' (l'.sub.subset hx) with hold | hlater
    · exact .inl (hkept ▸ hback.resolve_right (not_not_intro hold))
    · refine .inr ?_
      intro e he
      rcases List.mem_append.mp he with he | he
      · exact hlater e (hwritten e he)
      · exact hlater e (l.sub.subset (hkept ▸ he))

/-! ## Retention -/

/-- The horizon of a sweep at this time. -/
def horizon (C : Config) (nowMs : Int) (k : Kind) : Int :=
  Trimmer.Retention.minid ⟨nowMs, C.retentionDays, C.metricsRetentionDays⟩ k

theorem mem_callsOf {nowMs : Int} {c : Call} (hc : c ∈ callsOf C nowMs) :
    c.dockerHost ∈ C.daemonIds ∧ c.minidMs = horizon C nowMs c.kind := by
  obtain ⟨h, hh, hc⟩ := List.mem_flatMap.mp hc
  simp only [List.mem_cons, List.not_mem_nil, or_false] at hc
  rcases hc with rfl | rfl <;> exact ⟨hh, rfl⟩

theorem callsOf_mem {h : String} (hh : h ∈ C.daemonIds) (nowMs : Int) (k : Kind) : ⟨h, k, horizon C nowMs k⟩ ∈ callsOf C nowMs := by
  refine List.mem_flatMap.mpr ⟨h, hh, ?_⟩
  cases k <;> simp [horizon]

/-- What a step does to the calls of the sweep. -/
theorem step_calls {s s' : St} {e : Ev} (h : step C s e = some s') :
    s'.calls = s.calls ∨ (∃ nowMs, e = .sweep nowMs ∧ s.calls = [] ∧ s'.calls = callsOf C nowMs) ∨
      ∃ c, s.calls = c :: s'.calls ∧ (e = .trim ∨ e = .trimFails) := by
  cases step_moves h with
  | sweep nowMs hnil => exact .inr (.inl ⟨nowMs, rfl, hnil, rfl⟩)
  | trim c _ hcalls => exact .inr (.inr ⟨c, hcalls, .inl rfl⟩)
  | trimFails c _ hcalls => exact .inr (.inr ⟨c, hcalls, .inr rfl⟩)
  | _ => exact .inl rfl

/-- No call that is left, and no sweep that begins, has a horizon above this for the stream. -/
def Spared (h : String) (k : Kind) (ms : Int) (s : St) : Prop := ∀ c ∈ s.calls, c.dockerHost = h → c.kind = k → c.minidMs ≤ ms

theorem step_spared {s s' : St} {e : Ev} {h : String} {k : Kind} {ms : Int} (hS : Spared h k ms s)
    (he : ∀ nowMs, e = .sweep nowMs → horizon C nowMs k ≤ ms) (hs : step C s e = some s') : Spared h k ms s' := by
  intro c hc hhost hkind
  rcases step_calls hs with hsame | ⟨nowMs, rfl, -, hcalls⟩ | ⟨c', hcalls, -⟩
  · exact hS c (hsame ▸ hc) hhost hkind
  · rw [hcalls] at hc
    rw [(mem_callsOf hc).2, hkind]
    exact he nowMs rfl
  · exact hS c (hcalls ▸ List.mem_cons_of_mem _ hc) hhost hkind

/-- The horizons along a run bound what its steps remove. -/
theorem along_spared {s : St} {es : List Ev} {h : String} {k : Kind} {i : StreamId} (hS : Spared h k i.ms.val s)
    (hes : ∀ nowMs, .sweep nowMs ∈ es → horizon C nowMs k ≤ i.ms.val) :
    (machine C).Along (fun s e => ∀ d, Causes s e (actionOf h k d) → ∀ bound, d = .expire bound → bound ≤ i) s es := by
  induction es generalizing s with
  | nil => exact trivial
  | cons e es ih =>
    refine ⟨?_, ?_⟩
    · intro d hd bound hbound
      subst hbound
      obtain ⟨-, minidMs, calls, hcalls, hms, hseq⟩ := hd
      have hle : minidMs ≤ i.ms.val := hS ⟨h, k, minidMs⟩ (by rw [hcalls]; exact List.mem_cons_self) rfl rfl
      rcases Nat.lt_or_eq_of_le (Int.ofNat_le.mp (hms ▸ hle)) with hlt | heq
      · exact StreamId.le_iff.mpr (.inl hlt)
      · exact StreamId.le_iff.mpr (.inr ⟨Fin.ext heq, hseq ▸ Fin.zero_le _⟩)
    · intro s' hs'
      exact ih (step_spared hS (fun nowMs he => hes nowMs (he ▸ List.mem_cons_self)) hs')
        fun nowMs hmem => hes nowMs (List.mem_cons_of_mem _ hmem)

/-- Whatever runs beside it: an entry of a stream is still there as long as neither a sweep
    that begins nor a call that is left has a horizon above its time. -/
theorem only_a_sweep_removes (C : Config) {s s' : St} {es : List Ev} (hs : (machine C).Reach s)
    (hrun : (machine C).run s es = some s') (h : String) (k : Kind) {t : Stream Fields} {e : StreamId × Fields}
    (ht : streamAt s.db (streamKey h k) = .ok t) (he : e ∈ t.entries) (hcalls : Spared h k e.1.ms.val s)
    (hsweeps : ∀ nowMs, .sweep nowMs ∈ es → horizon C nowMs k ≤ e.1.ms.val) :
    ∃ t', streamAt s'.db (streamKey h k) = .ok t' ∧ e ∈ t'.entries := by
  obtain ⟨u, hu, hR⟩ := refines_of_reach hs h k
  rw [ht] at hu
  cases hu
  obtain ⟨ds, l, hl, hR', hP⟩ := (ledger_simulation C h k).run hR hrun
  have hbound := hP (fun d => ∀ bound, d = .expire bound → bound ≤ e.1) (along_spared hcalls hsweeps)
  obtain ⟨t', ht', hkept, -⟩ := hR'.2
  refine ⟨t', ht', ?_⟩
  rw [hkept]
  exact Ledger.run_keeps hl he fun bound hb => hbound _ hb bound rfl

/-! ## A sweep -/

/-- A call that is executed leaves nothing from before its horizon. -/
theorem trim_since {sha256 : String → String} {db : Store} (hT : Typed sha256 db) (h : String) (k : Kind) {minidMs : Int}
    (hrange : minidMs < 2 ^ 64) : Trimmer.Since minidMs (Trimmer.trimStream false db h k minidMs).1 (streamKey h k) := by
  rcases Trimmer.trimStream_cases false db h k minidMs with ⟨error, hcall⟩ | ⟨-, htrimmed⟩
  · -- the horizon is then before 1970
    obtain ⟨t, ht⟩ := hT.streams h k
    intro u hu e he
    by_contra hlt
    have h0 : 0 ≤ minidMs := by omega
    have hparse : StreamId.parse 0 (toString minidMs) = some ⟨⟨minidMs.toNat, by omega⟩, 0⟩ := by
      rw [toString_nonneg h0]
      exact StreamId.parse_repr 0 ⟨minidMs.toNat, by omega⟩
    simp only [Trimmer.trimStream, xtrim, hparse, ht, Except.map, Bool.false_eq_true, if_false] at hcall
    exact List.cons_ne_nil _ _ (congrArg Prod.snd hcall).symm
  · exact htrimmed.since

/-- On the way through a sweep: the stream's call is still to come, or what was there at the
    beginning is gone as far as it is from before the horizon. -/
def Sweeping (h : String) (k : Kind) (minidMs : Int) (l₀ : Ledger StreamId Fields) (C : Config) (s : St) : Prop :=
  ∃ l ds, Inv C s ∧ Holds s.db h k l ∧ Ledger.machine.run l₀ ds = some l ∧
    (⟨h, k, minidMs⟩ ∈ s.calls ∨ ∀ e ∈ l.kept, e ∈ l₀.written → minidMs ≤ e.1.ms.val)

theorem step_sweeping {h : String} {k : Kind} {minidMs : Int} (hrange : minidMs < 2 ^ 64) {l₀ : Ledger StreamId Fields}
    {s s' : St} {e : Ev} (hS : Sweeping h k minidMs l₀ C s) (hok : e ≠ .trimFails) (hs : step C s e = some s') :
    Sweeping h k minidMs l₀ C s' := by
  obtain ⟨l, ds, hI, hh, hl, hcase⟩ := hS
  obtain ⟨ds', l', hl', hR, -⟩ := (ledger_simulation C h k).step s e s' l ⟨hI.keys, hh⟩ hs
  refine ⟨l', ds ++ ds', step_inv hI hs, hR.2, Machine.run_append.mpr ⟨l, hl, hl'⟩, ?_⟩
  rcases hcase with hcall | hgone
  · rcases step_calls hs with hsame | ⟨_, -, hnil, -⟩ | ⟨c, hcalls, htrim⟩
    · exact .inl (hsame ▸ hcall)
    · rw [hnil] at hcall
      cases hcall
    · rw [hcalls] at hcall
      rcases List.mem_cons.mp hcall with rfl | hcall
      · -- its call is executed now
        obtain rfl := htrim.resolve_right hok
        simp only [step, hcalls, Option.some.injEq] at hs
        obtain ⟨t, ht, hkept, -⟩ := hR.2
        rw [← congrArg St.db hs] at ht
        refine .inr ?_
        intro e he _
        exact trim_since hI.typed h k hrange t ht e (hkept ▸ he)
      · exact .inl hcall
  · refine .inr ?_
    intro e he hold
    obtain ⟨new, hnew⟩ := Ledger.run_written hl
    have hback := (Ledger.run_kept hl' he).resolve_right fun hout => hout (hnew ▸ List.mem_append_left _ hold)
    exact hgone e hback hold

/-- A sweep none of whose calls fails, beside any other steps of the process: what the stream of
    a configured daemon holds at its end from before the horizon was added after the sweep had
    begun. -/
theorem a_sweep_removes_what_it_found (C : Config) {s s' : St} {nowMs : Int} {es : List Ev} (hs : (machine C).Reach s)
    (hrun : (machine C).run s (.sweep nowMs :: es) = some s') (hok : .trimFails ∉ es) (hend : s'.calls = []) {h : String}
    (hh : h ∈ C.daemonIds) (k : Kind) (hrange : horizon C nowMs k < 2 ^ 64) :
    ∃ t t', streamAt s.db (streamKey h k) = .ok t ∧ streamAt s'.db (streamKey h k) = .ok t' ∧
      ∀ e ∈ t'.entries, (e.1.ms.val : Int) < horizon C nowMs k → ∀ x ∈ t.entries, x.1 < e.1 := by
  obtain ⟨u, hu, hrun⟩ := Machine.run_cons.mp hrun
  obtain ⟨t, ht, hR⟩ := refines_of_reach hs h k
  have hu' : step C s (.sweep nowMs) = some u := hu
  have hsweep : u.db = s.db ∧ u.calls = callsOf C nowMs := by
    cases step_moves hu' with
    | sweep _ _ => exact ⟨rfl, rfl⟩
  have hstart : Sweeping h k (horizon C nowMs k) (ledgerOf t) C u :=
    ⟨ledgerOf t, [], step_inv (reach_inv hs) hu', hsweep.1 ▸ hR.2, rfl, .inl (hsweep.2 ▸ callsOf_mem hh nowMs k)⟩
  have halong : (machine C).Along (fun _ e => e ≠ .trimFails) u es :=
    Machine.along_of_mem (fun _ he _ => ne_of_mem_of_not_mem he hok) u
  obtain ⟨l, ds, -, hholds, hl, hcase⟩ := Machine.run_inv (M := machine C) (I := Sweeping h k (horizon C nowMs k) (ledgerOf t) C)
    (fun _ _ _ hS hok hs => step_sweeping hrange hS hok hs) hstart
    halong hrun
  obtain ⟨t', ht', hkept, -⟩ := hholds
  refine ⟨t, t', ht, ht', ?_⟩
  intro e he hold
  rw [hkept] at he
  rw [hend] at hcase
  have hgone := hcase.resolve_left List.not_mem_nil
  have hnew : e ∉ (ledgerOf t).written := fun hin => absurd (hgone e he hin) (not_le.mpr hold)
  exact (Ledger.run_later hl (l.sub.subset he)).resolve_left hnew

/-! ## One record -/

def helloEntry : StreamId × Fields := (⟨5000, 0⟩, [("data", helloText)])

instance instDecidableEqEntry : DecidableEq (StreamId × Fields) := inferInstance

/-- What a stream holds, and the calls that are left. -/
def seen (s : St) (h : String) (k : Kind) : Option (List (StreamId × Fields)) × List Call :=
  ((streamAt s.db (streamKey h k)).toOption.map (·.entries), s.calls)

theorem seen_stream {s : St} {h : String} {k : Kind} {entries : List (StreamId × Fields)} {calls : List Call}
    (hs : seen s h k = (some entries, calls)) :
    (∃ t, streamAt s.db (streamKey h k) = .ok t ∧ t.entries = entries) ∧ s.calls = calls := by
  obtain ⟨hentries, hcalls⟩ := Prod.mk.inj hs
  refine ⟨?_, hcalls⟩
  cases ht : streamAt s.db (streamKey h k) with
  | error e => rw [ht] at hentries; cases hentries
  | ok t => rw [ht] at hentries; exact ⟨t, rfl, Option.some.inj hentries⟩

/-- The record is written. -/
theorem hello_cycle_writes : ∃ s, (machine helloConfig).run helloStart helloCycle = some s ∧ (machine helloConfig).Reach s ∧
    seen s "prod-a" .log = (some [helloEntry], []) := by
  have hrun : ((machine helloConfig).run helloStart helloCycle).map (seen · "prod-a" .log) = some (some [helloEntry], []) := by
    decide +kernel
  obtain ⟨s, hs, hseen⟩ := Option.map_eq_some_iff.mp hrun
  exact ⟨s, hs, (Machine.Reach.init helloStart_init).run hs, hseen⟩

theorem hello_cycle_is_in_its_ledger : ∃ s t l ds, (machine helloConfig).run helloStart helloCycle = some s ∧
    streamAt helloStart.db (streamKey "prod-a" .log) = .ok t ∧ Ledger.machine.run (ledgerOf t) ds = some l ∧
    Holds s.db "prod-a" .log l := by
  obtain ⟨s, hs, -, -⟩ := hello_cycle_writes
  obtain ⟨t, l, ds, ht, hl, hh, -⟩ := the_stream_is_a_ledger helloConfig (.init helloStart_init) hs "prod-a" .log
  exact ⟨s, t, l, ds, hs, ht, hl, hh⟩

/-- A sweep of 2001 removes it. -/
theorem a_sweep_of_2001 : ∃ s s', (machine helloConfig).run helloStart helloCycle = some s ∧
    (machine helloConfig).run s [.sweep 1000000000000, .trim, .trim] = some s' ∧ seen s' "prod-a" .log = (some [], []) ∧
    ∃ t t', streamAt s.db (streamKey "prod-a" .log) = .ok t ∧ streamAt s'.db (streamKey "prod-a" .log) = .ok t' ∧
      ∀ e ∈ t'.entries, (e.1.ms.val : Int) < horizon helloConfig 1000000000000 .log → ∀ x ∈ t.entries, x.1 < e.1 := by
  have hrun : ((machine helloConfig).run helloStart (helloCycle ++ [.sweep 1000000000000, .trim, .trim])).map
      (seen · "prod-a" .log) = some (some [], []) := by decide +kernel
  obtain ⟨s', hs', hseen'⟩ := Option.map_eq_some_iff.mp hrun
  obtain ⟨s, hs, hrest⟩ := Machine.run_append.mp hs'
  have hreach : (machine helloConfig).Reach s := (Machine.Reach.init helloStart_init).run hs
  exact ⟨s, s', hs, hrest, hseen', a_sweep_removes_what_it_found helloConfig hreach hrest (by decide) (seen_stream hseen').2
    (List.mem_singleton_self _) .log (by decide)⟩

/-- A record, a sweep of a week after 1970, and no record that the sweep removes. -/
theorem a_sweep_of_1970 : ∃ s s', (machine helloConfig).run helloStart helloCycle = some s ∧
    (machine helloConfig).run s [.sweep 604805000, .trim, .trim] = some s' ∧
    ∃ t', streamAt s'.db (streamKey "prod-a" .log) = .ok t' ∧ helloEntry ∈ t'.entries := by
  obtain ⟨s, hs, hreach, hseen⟩ := hello_cycle_writes
  obtain ⟨⟨t, ht, hentries⟩, hcalls⟩ := seen_stream hseen
  have hrun : ((machine helloConfig).run helloStart (helloCycle ++ [.sweep 604805000, .trim, .trim])).isSome = true := by
    decide +kernel
  obtain ⟨s', hs'⟩ := Option.isSome_iff_exists.mp hrun
  obtain ⟨u, hu, hrest⟩ := Machine.run_append.mp hs'
  rw [hs] at hu
  cases hu
  have hspared : Spared "prod-a" .log helloEntry.1.ms.val s := by
    intro c hc
    rw [hcalls] at hc
    cases hc
  have hsweeps : ∀ nowMs, Ev.sweep nowMs ∈ [Ev.sweep 604805000, .trim, .trim] →
      horizon helloConfig nowMs .log ≤ helloEntry.1.ms.val := by
    intro nowMs hmem
    have hnow : nowMs = 604805000 := by simpa using hmem
    subst hnow
    decide
  have hin : helloEntry ∈ t.entries := hentries ▸ List.mem_singleton_self _
  exact ⟨s, s', hs, hrest, only_a_sweep_removes helloConfig hreach hrest "prod-a" .log ht hin hspared hsweeps⟩

/-- Once the record is written, its id names it. -/
theorem the_written_id_names_the_record : ∃ s, (machine helloConfig).run helloStart helloCycle = some s ∧
    ∃ t t' t'', streamAt helloStart.db (streamKey "prod-a" .log) = .ok t ∧ streamAt s.db (streamKey "prod-a" .log) = .ok t' ∧
      streamAt s.db (streamKey "prod-a" .log) = .ok t'' ∧ ∀ x ∈ t''.entries,
        (∀ e ∈ t.entries, x.1 = e.1 → x = e ∧ x ∈ t'.entries) ∧
          (x ∈ t'.entries ∨ ∀ e ∈ t.entries ++ t'.entries, e.1 < x.1) := by
  obtain ⟨s, hs, -, -⟩ := hello_cycle_writes
  exact ⟨s, hs, an_id_names_one_entry helloConfig (.init helloStart_init) hs (Machine.run_nil s) "prod-a" .log⟩

end LogSump.Server.Process
