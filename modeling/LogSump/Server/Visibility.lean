/-
  LogSump.Server.Visibility — from the ingest list to the page: when nothing has failed and the
  list is drained, `/records` shows what was pushed.

  - `applied_all`: a run without failures has executed the commands of everything pushed, in
    this order.
  - `run_complete`: where no sweep reaches what is ingested, the streams hold all of it.
  - `everything_pushed_is_shown`: a page that is large enough, over a window with all of it,
    shows every record that was pushed for the daemon, once for each push.
-/

import LogSump.Server.Delivery
import LogSump.Server.Isolation

namespace LogSump.Server.Process

open Common Python Redis Foundation
open Consumer (Command commands fieldsFor routed)

/-- What is shown of the entries that were pushed for a daemon and kind. -/
def recordsFor (A : RecordAdapter) (pushed : List String) (dockerHost : String) (kind : Kind) : List Record :=
  pushed.filterMap fun raw => (A.validateJson raw).bind fun r =>
    if r.dockerHost = dockerHost ∧ r.kind = kind then A.validateJson (A.dumpJson r) else none

/-- The clock is past this millisecond, and no sweep has its horizon above it. -/
def Recent (C : Config) (k : Kind) (ms : Nat) : Ev → Prop
  | .ingest (.xadd clock) => ms ≤ clock.val
  | .sweep nowMs => horizon C nowMs k ≤ ms
  | _ => True

/-- The stream holds what these commands say, and nothing of it is older than this millisecond. -/
def Complete (h : String) (k : Kind) (ms : Nat) (cs : List Command) (s : St) : Prop :=
  ∃ t, streamAt s.db (streamKey h k) = .ok t ∧ t.entries.map (·.2) = fieldsFor cs (streamKey h k) ∧
    ∀ e ∈ t.entries, ms ≤ e.1.ms.val

variable {C : Config}

/-! ## What was executed -/

theorem applied_all {s s' : St} {es : List Ev} (hs : (machine C).init s) (hrun : (machine C).run s es = some s')
    (hok : failures C s es = 0) (hresend : .resend ∉ es) (hidle : s'.consumer = .idle)
    (hempty : listAt s'.db ingestList = .ok []) : applied C s es = commands C.adapter s'.pushed := by
  obtain ⟨⟨onList, gone, lost, dropped, hD⟩, -⟩ := run_delivered hs hrun
  have hlisted := hD.listed
  rw [hempty] at hlisted
  cases hlisted
  have hfew := hD.few
  rw [hok, Nat.zero_mul, Nat.le_zero, Nat.add_eq_zero_iff, List.length_eq_zero_iff, List.length_eq_zero_iff] at hfew
  obtain ⟨rfl, rfl⟩ := hfew
  have hpending : s'.consumer.pending = [] := by rw [hidle]; rfl
  have hhand : s'.consumer.inHand = [] := by rw [hidle]; rfl
  have horder := hD.order
  have hpushed := hD.pushed
  simp only [hhand, List.append_nil] at horder hpushed
  have hgone : gone = s'.pushed := horder.eq_of_length hpushed.length_eq.symm
  have hsub := hD.queued (List.count_eq_zero_of_not_mem hresend)
  rw [hpending, List.append_nil, hgone] at hsub
  refine hsub.eq_of_length_le ?_
  have hle : (commands C.adapter s'.pushed).Subperm (applied C s es) := by
    refine List.subperm_iff_count.mpr ?_
    intro c
    have h := hD.atLeast c
    simpa [hpending, hgone] using h
  exact hle.length_le

/-! ## What the streams hold -/

theorem nextId_recent {last : StreamId} {clock : U64} {i : StreamId} {ms : Nat} (h : Stream.nextId last clock = some i)
    (hclock : ms ≤ clock.val) : ms ≤ i.ms.val := by
  unfold Stream.nextId at h
  split_ifs at h with h1 h2 h3 <;> cases h
  · exact hclock
  · exact hclock.trans (Fin.le_def.mp (not_lt.mp h1))
  · exact (hclock.trans (Fin.le_def.mp (not_lt.mp h1))).trans (Nat.le_succ _)

theorem complete_write {h : String} {k : Kind} {ms : Nat} {cs : List Command} {s s' : St} {c : Command} {clock : U64}
    (hC : Complete h k ms cs s) (hclock : ms ≤ clock.val) (hx : xadd s.db c.key clock c.fields = .ok s'.db) :
    Complete h k ms (cs ++ [c]) s' := by
  obtain ⟨t, ht, hfields, hrecent⟩ := hC
  obtain ⟨u, u', hu, hadd, hdb⟩ := xadd_ok hx
  obtain ⟨i, hi, hentries⟩ := Stream.xadd_entries hadd
  by_cases hc : c.key = streamKey h k
  · rw [hc] at hu hdb
    rw [ht] at hu
    cases hu
    refine ⟨u', by rw [hdb]; exact putStream_same _ _ _, ?_, ?_⟩
    · rw [hentries, List.map_append, hfields, Consumer.fieldsFor_snoc, if_pos hc]
      rfl
    · intro e he
      rw [hentries] at he
      rcases List.mem_append.mp he with he | he
      · exact hrecent e he
      · rw [List.mem_singleton.mp he]
        exact nextId_recent hi hclock
  · refine ⟨t, ?_, by rw [Consumer.fieldsFor_snoc, if_neg hc, hfields], hrecent⟩
    rw [hdb, streamAt_congr (putStream_other s.db u' (Ne.symm hc))]
    exact ht

/-- A step that writes nothing leaves what is recent. -/
theorem complete_effect {h : String} {k : Kind} {ms : Nat} {cs : List Command} {s s' : St} {e : Ev} {a : Action}
    (hC : Complete h k ms cs s) (hspared : Spared h k ms s) (he : Effect C.sha256 s.db a s'.db) (hcause : Causes s e a)
    (hnot : ∀ host kind i fields, a ≠ .write host kind i fields) : Complete h k ms cs s' := by
  obtain ⟨t, ht, hfields, hrecent⟩ := hC
  rcases effect_holds (holds_ledgerOf ht) he with hh | ⟨d, l', hl', hh, rfl⟩
  · obtain ⟨t', ht', hkept, -⟩ := hh
    exact ⟨t', ht', by rw [hkept]; exact hfields, by rw [hkept]; exact hrecent⟩
  · cases d with
    | write i fields => exact absurd rfl (hnot h k i fields)
    | expire bound =>
      cases hl'
      obtain ⟨t', ht', hkept, -⟩ := hh
      obtain ⟨-, minidMs, calls, hcalls, hms, hseq⟩ := hcause
      have hbound : minidMs ≤ ms := hspared ⟨h, k, minidMs⟩ (by rw [hcalls]; exact List.mem_cons_self) rfl rfl
      have hall : t'.entries = t.entries := by
        rw [hkept]
        refine List.filter_eq_self.mpr ?_
        intro x hx
        have hle : bound.ms.val ≤ x.1.ms.val := by
          have := hrecent x hx
          omega
        rcases Nat.lt_or_eq_of_le hle with hlt | heq
        · simpa using StreamId.le_iff.mpr (.inl hlt)
        · simpa using StreamId.le_iff.mpr (.inr ⟨Fin.ext heq, hseq ▸ Fin.zero_le _⟩)
      exact ⟨t', ht', by rw [hall]; exact hfields, by rw [hall]; exact hrecent⟩

theorem run_complete {s s' : St} {es : List Ev} (hs : (machine C).init s) (h₀ : ∀ h k, s.db (streamKey h k) = none)
    (hrun : (machine C).run s es = some s') {k : Kind} {ms : Nat} (hrecent : ∀ e ∈ es, Recent C k ms e) (h : String) :
    Complete h k ms (applied C s es) s' := by
  have hall := Machine.run_history (M := machine C) (s := s)
    (I := fun es s' => (∀ e ∈ es, Recent C k ms e) → Inv C s' ∧ Spared h k ms s' ∧ Complete h k ms (applied C s es) s')
    ?_ ?_ hrun hrecent
  · exact hall.2.2
  · intro _
    refine ⟨init_inv hs, ?_, .empty, by rw [streamAt, h₀], rfl, fun e he => by cases he⟩
    intro c hc
    rw [hs.2.2.2.1] at hc
    cases hc
  · intro es u e u' hu hI he hrecent
    obtain ⟨hI, hspared, hC⟩ := hI fun d hd => hrecent d (List.mem_append_left _ hd)
    have hnow : Recent C k ms e := hrecent e (List.mem_append_right _ (List.mem_singleton_self e))
    have happlied : applied C s (es ++ [e]) = applied C s es ++ executes u e := Machine.collect_snoc e hu
    refine ⟨step_inv hI he, step_spared hspared (fun nowMs hsweep => by subst hsweep; exact hnow) he, ?_⟩
    rw [happlied]
    rcases step_writes hI.keys he with ⟨c, clock, rfl, hexec, hx⟩ | ⟨hexec, a, heff, hcause, hnot⟩
    · rw [hexec]
      exact complete_write hC hnow hx
    · rw [hexec, List.append_nil]
      exact complete_effect hC hspared heff hcause hnot

/-! ## The page -/

theorem recordsOf_fields (A : RecordAdapter) (xs : List (StreamId × Fields)) :
    recordsOf A xs = (xs.map (·.2)).filterMap fun fields => (dataField fields).bind A.validateJson := by
  rw [recordsOf, List.map_filterMap, List.filterMap_map]
  apply List.filterMap_congr
  intro e _
  simp only [decodeEntry, Function.comp_apply]
  cases dataField e.2 with
  | none => rfl
  | some data => cases h : A.validateJson data <;> simp [h]

theorem recordsOf_routed {A : RecordAdapter} {pushed : List String} {h : String} {k : Kind} {xs : List (StreamId × Fields)}
    (hx : xs.map (·.2) = routed A pushed h k) : recordsOf A xs = recordsFor A pushed h k := by
  rw [recordsOf_fields, hx, routed, recordsFor, List.filterMap_filterMap]
  apply List.filterMap_congr
  intro raw _
  cases A.validateJson raw with
  | none => rfl
  | some r =>
    by_cases hr : r.dockerHost = h ∧ r.kind = k
    · simp [hr, dataField]
    · simp [hr]

/-- A page that is larger than its stream shows all of it. -/
theorem whole_kindPage {R : Runtime} {settings : ServerConfig} {now start : Datetime} {db : Store} {r : RecordsRequest}
    {k : Kind} {lo hi : StreamId} {t : Stream Fields} (ht : streamAt db (streamKey r.dockerHost k) = .ok t)
    (hk : r.kind.includes k) (hcursor : r.cursor k = none) (hlo : timeId (·.millis R.zone) 0 start = some lo)
    (hhi : timeId (·.millis R.zone) maxU64 (r.end_.getD now) = some hi) (hlast : t.lastId ≤ hi)
    (hrecent : ∀ e ∈ t.entries, lo.ms.val ≤ e.1.ms.val)
    (hlimit : (t.entries.length : Int) < effectiveLimit settings r.limit) :
    kindPage R settings now db r start k = .ok ⟨t.entries.filterMap (decodeEntry R.adapter), none⟩ := by
  have hpos : 1 ≤ effectiveLimit settings r.limit := by omega
  have hseq : lo.seq = 0 := ((timeId_eq_some (bounded_millis R.zone)).mp hlo).choose_spec.2.2.2
  have hrange : t.range (.from lo) hi = t.entries := by
    refine List.filter_eq_self.mpr ?_
    intro e he
    have hle : lo ≤ e.1 := by
      rcases Nat.lt_or_eq_of_le (hrecent e he) with hlt | heq
      · exact StreamId.le_iff.mpr (.inl hlt)
      · exact StreamId.le_iff.mpr (.inr ⟨Fin.ext heq, hseq ▸ Fin.zero_le _⟩)
    have hadmits : (Stream.Lower.from lo).Admits e.1 := hle
    simpa [hadmits] using (t.le_lastId e he).trans hlast
  have hshort : t.entries.length < (effectiveLimit settings r.limit).toNat := by omega
  have hcast : ((effectiveLimit settings r.limit).toNat : Int) = effectiveLimit settings r.limit := Int.toNat_of_nonneg (by omega)
  rw [kindPage, if_pos hk, hcursor, fetchKindPage_start (bounded_millis R.zone) ht hlo hhi hpos, Stream.xrange, hrange,
    List.take_of_length_le hshort.le]
  have hpage := pageOf_short (A := R.adapter) hshort
  rwa [hcast] at hpage

/-- What the request asks for of what was pushed. -/
def asked (A : RecordAdapter) (pushed : List String) (r : RecordsRequest) (k : Kind) : List Record :=
  if r.kind.includes k then recordsFor A pushed r.dockerHost k else []

/-- Of a process that began without streams and had no failure: once the list is drained, a
    permitted request for the first page, with a limit above what was pushed and a window that
    holds it and that no sweep reached into, is answered with all the records that were pushed
    for the daemon and the kinds, each as often as it was pushed, as far as they pass the
    filters; where their timestamps all have an offset or all have none. -/
theorem everything_pushed_is_shown (C : Config) (R : Runtime) (settings : ServerConfig) (now : Datetime)
    (hR : R.adapter = C.adapter) {s s' : St} {es : List Ev} (hs : (machine C).init s) (h₀ : ∀ h k, s.db (streamKey h k) = none)
    (hrun : (machine C).run s es = some s') (hok : failures C s es = 0) (hresend : .resend ∉ es)
    (hidle : s'.consumer = .idle) (hempty : listAt s'.db ingestList = .ok []) {r : RecordsRequest} {start : Datetime}
    {lo hi : StreamId} (hpermitted : Permitted R s'.db r.apiKey r.dockerHost) (hstart : requestStart now r = .ok start)
    (hlo : timeId (·.millis R.zone) 0 start = some lo) (hhi : timeId (·.millis R.zone) maxU64 (r.end_.getD now) = some hi)
    (hkind : ∀ k, r.kind.includes k → r.cursor k = none ∧ (∀ e ∈ es, Recent C k lo.ms.val e) ∧
      ((routed C.adapter s'.pushed r.dockerHost k).length : Int) < effectiveLimit settings r.limit ∧
      ∀ t, streamAt s'.db (streamKey r.dockerHost k) = .ok t → t.lastId ≤ hi)
    (huniform : Uniform RecordAware (asked C.adapter s'.pushed r .log ++ asked C.adapter s'.pushed r .metric)) :
    ∃ page, getRecords R settings now s'.db r = .ok page ∧ page.nextLogCursor = none ∧ page.nextMetricCursor = none ∧
      page.records.Perm (applyFilters R.lower (asked C.adapter s'.pushed r .log ++ asked C.adapter s'.pushed r .metric)
        r.containerId r.level r.q) := by
  have happlied := applied_all hs hrun hok hresend hidle hempty
  have hpage : ∀ k, ∃ p, kindPage R settings now s'.db r start k = .ok p ∧ p.nextCursor = none ∧
      p.records = asked C.adapter s'.pushed r k := by
    intro k
    by_cases hk : r.kind.includes k
    · obtain ⟨hcursor, hrecent, hlimit, hlast⟩ := hkind k hk
      obtain ⟨t, ht, hfields, hold⟩ := run_complete hs h₀ hrun hrecent r.dockerHost
      rw [happlied, Consumer.fieldsFor_commands] at hfields
      have hlength : t.entries.length = (routed C.adapter s'.pushed r.dockerHost k).length := by
        rw [← hfields, List.length_map]
      refine ⟨_, whole_kindPage ht hk hcursor hlo hhi (hlast t ht) hold (hlength ▸ hlimit), rfl, ?_⟩
      rw [asked, if_pos hk, ← recordsOf_routed hfields, hR]
      rfl
    · refine ⟨⟨[], none⟩, by rw [kindPage, if_neg hk], rfl, ?_⟩
      rw [asked, if_neg hk]
      rfl
  obtain ⟨logs, hlogs, hlogsNext, hlogsRecords⟩ := hpage .log
  obtain ⟨metrics, hmetrics, hmetricsNext, hmetricsRecords⟩ := hpage .metric
  rw [← hlogsRecords, ← hmetricsRecords] at huniform ⊢
  obtain ⟨page, hanswer, hperm, hnext, hnext'⟩ := answer_of_uniform (R := R) r huniform
  refine ⟨page, ?_, hnext.trans hlogsNext, hnext'.trans hmetricsNext, hperm⟩
  rw [getRecords_eq hpermitted, hstart, ok_bind, hlogs, ok_bind, hmetrics, ok_bind, hanswer]

/-- The last id of each of the streams of prod-a. -/
def lastIds (s : St) : Option (StreamId × StreamId) :=
  (streamAt s.db (streamKey "prod-a" .log)).toOption.bind fun t =>
    (streamAt s.db (streamKey "prod-a" .metric)).toOption.map fun u => (t.lastId, u.lastId)

/-- The record of a cycle is shown. -/
theorem the_hello_record_is_shown : ∃ s page, (machine helloConfig).run helloStart helloCycle = some s ∧
    getRecords helloRuntime {} tenSeconds s.db prodRequest = .ok page ∧ page.records.Perm [.log helloLog] := by
  have hrun : ((machine helloConfig).run helloStart helloCycle).any (fun s => lastIds s = some (⟨5000, 0⟩, ⟨0, 0⟩) ∧
      s.consumer = .idle ∧ (listAt s.db ingestList).toOption = some [] ∧ s.pushed = [helloText] ∧
      (getPermittedDaemons helloRuntime s.db (some "key-1")).toOption = some ["prod-a"]) = true := by decide +kernel
  obtain ⟨s, hs, hview⟩ := (Option.any_eq_true _ _).mp hrun
  obtain ⟨hlast, hidle, hlist, hpushed, hkey⟩ := of_decide_eq_true hview
  have hempty : listAt s.db ingestList = .ok [] := by
    cases hl : listAt s.db ingestList with
    | error e => rw [hl] at hlist; cases hlist
    | ok xs => rw [hl] at hlist; cases hlist; rfl
  have hpermitted : Permitted helloRuntime s.db prodRequest.apiKey prodRequest.dockerHost := by
    cases hp : getPermittedDaemons helloRuntime s.db (some "key-1") with
    | error e => rw [hp] at hkey; cases hkey
    | ok permitted =>
      rw [hp] at hkey
      cases hkey
      exact ⟨["prod-a"], hp, List.mem_singleton_self _⟩
  have hlastId : ∀ k t, streamAt s.db (streamKey "prod-a" k) = .ok t → t.lastId ≤ ⟨10000, maxU64⟩ := by
    intro k t ht
    obtain ⟨u, hu, hlast⟩ := Option.bind_eq_some_iff.mp hlast
    obtain ⟨v, hv, hids⟩ := Option.map_eq_some_iff.mp hlast
    obtain ⟨h1, h2⟩ := Prod.mk.inj hids
    cases k with
    | log =>
      rw [ht] at hu
      cases hu
      rw [h1]
      decide
    | metric =>
      rw [ht] at hv
      cases hv
      rw [h2]
      decide
  have hlengths : (routed helloAdapter [helloText] "prod-a" .log).length = 1 ∧
      (routed helloAdapter [helloText] "prod-a" .metric).length = 0 := by decide +kernel
  have hasked : asked helloAdapter [helloText] prodRequest .log = [.log helloLog] ∧
      asked helloAdapter [helloText] prodRequest .metric = [] := by
    have hdump : helloAdapter.dumpJson (.log helloLog) = helloText := by decide +kernel
    have hvalid : helloAdapter.validateJson helloText = some (.log helloLog) := by
      simp [helloAdapter, RecordAdapter.ofTexts]
    have hhost : (Record.log helloLog).dockerHost = "prod-a" := rfl
    have hkind : (Record.log helloLog).kind = .log := rfl
    simp [asked, recordsFor, hvalid, hdump, hhost, hkind, KindParam.includes, prodRequest]
  have hkinds : ∀ k, prodRequest.kind.includes k → prodRequest.cursor k = none ∧
      (∀ e ∈ helloCycle, Recent helloConfig k (⟨0, 0⟩ : StreamId).ms.val e) ∧
      ((routed helloConfig.adapter s.pushed prodRequest.dockerHost k).length : Int) < effectiveLimit {} prodRequest.limit ∧
      ∀ t, streamAt s.db (streamKey prodRequest.dockerHost k) = .ok t → t.lastId ≤ ⟨10000, maxU64⟩ := by
    intro k _
    refine ⟨by cases k <;> rfl, ?_, ?_, hlastId k⟩
    · intro e he
      simp only [helloCycle, List.mem_cons, List.not_mem_nil, or_false] at he
      rcases he with rfl | rfl | rfl
      · trivial
      · trivial
      · exact Nat.zero_le _
    · have hadapter : helloConfig.adapter = helloAdapter := rfl
      have hhost : prodRequest.dockerHost = "prod-a" := rfl
      rw [hpushed, hadapter, hhost]
      cases k with
      | log => rw [hlengths.1]; decide
      | metric => rw [hlengths.2]; decide
  have huniform : Uniform RecordAware
      (asked helloConfig.adapter s.pushed prodRequest .log ++ asked helloConfig.adapter s.pushed prodRequest .metric) := by
    rw [hpushed, show helloConfig.adapter = helloAdapter from rfl, hasked.1, hasked.2]
    intro a ha b hb
    rw [List.mem_singleton.mp ha, List.mem_singleton.mp hb]
  obtain ⟨page, hpage, -, -, hperm⟩ := everything_pushed_is_shown helloConfig helloRuntime {} tenSeconds rfl helloStart_init helloStart_streams hs
    (by decide +kernel) (by decide) hidle hempty hpermitted rfl (timeId_epoch .utc 0) (timeId_tenSeconds .utc maxU64) hkinds huniform
  refine ⟨s, page, hs, hpage, ?_⟩
  rw [hpushed, show helloConfig.adapter = helloAdapter from rfl, hasked.1, hasked.2] at hperm
  exact hperm

end LogSump.Server.Process
