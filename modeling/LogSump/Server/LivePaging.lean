/-
  LogSump.Server.LivePaging — a client that pages through one kind's stream of a log-server at
  work: between two of its requests the process takes any steps, its failures included.

  The client requests pages with one start, with ends that never decrease, and with each page's
  cursor. A page is read in one XRANGE.

  - `live_simulation`: the traversal beside the process is a traversal of
    `LogSump.Server.StablePaging`, whose XADDs are those of the consumer and whose XTRIMs are
    those of the trimmer.
  - `paging_beside_the_process`: no request fails, no entry comes twice, and everything of the
    first window that no sweep reaches is received.
-/

import LogSump.Server.Delivery
import LogSump.Server.Isolation
import LogSump.Server.StablePaging

namespace LogSump.Server.LivePaging

open Common Python Redis Foundation
open Process (Config Queued StreamKeys Causes Effect Action Spared horizon)

structure Client where
  server : Process.St
  /-- The next request's cursor; `none` when the traversal is over. -/
  next : Option (Option String)
  /-- The pages so far, each with its request's end. -/
  pages : List (Datetime × Page)
  failure : Option Failure

inductive Ev where
  | server (e : Process.Ev)
  | page (end_ : Datetime)

def Client.entries (c : Client) : List (StreamId × Record) := c.pages.flatMap (·.2.entries)

def begin (s : Process.St) : Client := ⟨s, some none, [], none⟩

section

variable (C : Config) (zone : Zone) (dockerHost : String) (kind : Kind) (start : Datetime) (limit : Int)

def step (c : Client) : Ev → Option Client
  | .server e => (Process.step C c.server e).map fun s => { c with server := s }
  | .page end_ =>
    match c.next with
    | none => none
    | some cursor =>
      if StablePaging.EndsWell (·.millis zone) c.pages end_ then
        match fetchKindPage C.adapter (·.millis zone) c.server.db dockerHost kind start end_ cursor limit with
        | .error e => some { c with next := none, failure := some e }
        | .ok p => some { c with next := nextRequest p, pages := c.pages ++ [(end_, p)] }
      else none

def machine : Machine Client Ev where
  init c := ∃ s, (Process.machine C).Reach s ∧ c = begin s
  step := step C zone dockerHost kind start limit

/-- The reading that the client makes of this stream. -/
def Client.reading (c : Client) (t : Stream Fields) : StablePaging.Reading := ⟨t, c.next, c.pages, c.failure⟩

/-- Where the process is: its commands are for streams, and their entries can be read. -/
def Readable (A : RecordAdapter) : Consumer.Command → Prop :=
  fun c => (∃ h k, c.key = streamKey h k) ∧ ∀ i, Valid A (i, c.fields)

/-- The client's reading is of the stream that the process has. -/
def Reads (c : Client) (r : StablePaging.Reading) : Prop :=
  Queued (Readable C.adapter) c.server ∧ ∃ t, streamAt c.server.db (streamKey dockerHost kind) = .ok t ∧ r = c.reading t

/-- What an event of the process, or of the client, is to the reading. -/
def Label (c : Client) : Ev → StablePaging.Ev → Prop
  | .server e, .add i fields => Causes c.server e (.write dockerHost kind i fields)
  | .server e, .trim minId => Causes c.server e (.expire dockerHost kind minId)
  | .page end_, .page end' => end' = end_
  | _, _ => False

end

variable {C : Config} {zone : Zone} {dockerHost : String} {kind : Kind} {start : Datetime} {limit : Int}

theorem readable_of_mem_commands (hA : C.adapter.KeepsIdentity) (batch : List String) :
    ∀ c ∈ Consumer.commands C.adapter batch, Readable C.adapter c := by
  intro c hc
  refine ⟨Consumer.key_of_mem_commands hc, ?_⟩
  obtain ⟨raw, -, hcommand⟩ := List.mem_filterMap.mp hc
  obtain ⟨r, hr, rfl⟩ := command_eq_some hcommand
  obtain ⟨r', hr', -⟩ := hA raw r hr
  intro i
  simp [Valid, decodeEntry, dataField, hr']

theorem queued_streamKeys {s : Process.St} (h : Queued (Readable C.adapter) s) : StreamKeys s :=
  ⟨fun c hc => (h.pending c hc).1, fun c hc => (h.pipeline c hc).1⟩

/-! ## The steps of the process -/

theorem xadd_eq_add {t t' : Stream Fields} {clock : U64} {i : StreamId} {fields : Fields} (h : t.xadd clock fields = some t')
    (hi : Stream.nextId t.lastId clock = some i) (hlt : ∀ e ∈ t.entries, e.1 < i) : t' = t.add i fields hlt := by
  unfold Stream.xadd at h
  split at h
  · cases h
  · rename_i j hj
    rw [hi] at hj
    cases hj
    cases h
    rfl

/-- What the process does to the store, the reading sees as nothing, an XADD or an XTRIM. -/
theorem effect_reads (zone : Zone) (start : Datetime) (limit : Int) {c : Client} {db : Store} {a : Action} {t : Stream Fields}
    (ht : streamAt c.server.db (streamKey dockerHost kind) = .ok t) (he : Effect C.sha256 c.server.db a db)
    (hvalid : ∀ i fields, a = .write dockerHost kind i fields → Valid C.adapter (i, fields)) :
    streamAt db (streamKey dockerHost kind) = .ok t ∨
      ∃ d t', streamAt db (streamKey dockerHost kind) = .ok t' ∧
        StablePaging.step C.adapter (·.millis zone) (fun _ => none) dockerHost kind start limit (c.reading t) d = some (c.reading t') ∧
        ((∃ i fields, d = .add i fields ∧ a = .write dockerHost kind i fields) ∨
          ∃ minId, d = .trim minId ∧ a = .expire dockerHost kind minId) := by
  cases he with
  | nothing => exact .inl ht
  | list xs => exact .inl ((streamAt_congr (putList_other _ xs (streamKey_ne_ingestList dockerHost kind))).trans ht)
  | provision a xs =>
    exact .inl ((streamAt_congr (Process.putSet_other _ xs (streamKey_ne_authKey dockerHost kind _ a))).trans ht)
  | @write h k u u' clock i fields hu hadd hi =>
    by_cases hk : streamKey dockerHost kind = streamKey h k
    · obtain ⟨rfl, rfl⟩ := streamKey_inj hk
      rw [ht] at hu
      cases hu
      refine .inr ⟨.add i fields, u', putStream_same _ _ _, ?_, .inl ⟨i, fields, rfl, rfl⟩⟩
      have hguard : (∀ e ∈ (c.reading t).stream.entries, e.1 < i) ∧ Valid C.adapter (i, fields) :=
        ⟨fun e he => (t.le_lastId e he).trans_lt (Stream.nextId_lt hi), hvalid i fields rfl⟩
      have hstep : StablePaging.step C.adapter (·.millis zone) (fun _ => none) dockerHost kind start limit (c.reading t)
          (.add i fields) = some { c.reading t with stream := t.add i fields hguard.1 } := dif_pos hguard
      rw [hstep, xadd_eq_add hadd hi hguard.1]
      rfl
    · exact .inl ((streamAt_congr (putStream_other _ u' hk)).trans ht)
  | @expire h k u minId hu =>
    by_cases hk : streamKey dockerHost kind = streamKey h k
    · obtain ⟨rfl, rfl⟩ := streamKey_inj hk
      rw [ht] at hu
      cases hu
      exact .inr ⟨.trim minId, _, putStream_same _ _ _, rfl, .inr ⟨minId, rfl, rfl⟩⟩
    · exact .inl ((streamAt_congr (putStream_other _ _ hk)).trans ht)

/-! ## The refinement -/

theorem fetchKindPage_stream (C : Config) (zone : Zone) (start : Datetime) (limit : Int) {db db' : Store}
    (h : streamAt db (streamKey dockerHost kind) = streamAt db' (streamKey dockerHost kind))
    (end_ : Datetime) (cursor : Option String) :
    fetchKindPage C.adapter (·.millis zone) db dockerHost kind start end_ cursor limit =
      fetchKindPage C.adapter (·.millis zone) db' dockerHost kind start end_ cursor limit := by
  simp only [fetchKindPage, xrange, h]

theorem page_reads {c c' : Client} {end_ : Datetime} {t : Stream Fields}
    (ht : streamAt c.server.db (streamKey dockerHost kind) = .ok t)
    (h : step C zone dockerHost kind start limit c (.page end_) = some c') :
    c'.server = c.server ∧ StablePaging.step C.adapter (·.millis zone) (fun _ => none) dockerHost kind start limit (c.reading t)
      (.page end_) = some (c'.reading t) := by
  have hfetch := fun cursor => fetchKindPage_stream C zone start limit
    (ht.trans (putStream_same (fun _ => none) (streamKey dockerHost kind) t).symm) end_ cursor
  simp only [step, hfetch] at h
  simp only [StablePaging.step, Client.reading]
  cases hc : c.next with
  | none =>
    rw [hc] at h
    cases h
  | some cursor =>
    by_cases he : StablePaging.EndsWell (·.millis zone) c.pages end_
    · simp only [hc, he, if_true] at h
      simp only [he, if_true]
      cases hp : fetchKindPage C.adapter (·.millis zone) (putStream (fun _ => none) (streamKey dockerHost kind) t) dockerHost
        kind start end_ cursor limit with
      | error e =>
        rw [hp] at h
        cases h
        exact ⟨rfl, rfl⟩
      | ok p =>
        rw [hp] at h
        cases h
        exact ⟨rfl, rfl⟩
    · simp [hc, he] at h

theorem live_simulation (C : Config) (zone : Zone) (hA : C.adapter.KeepsIdentity) (dockerHost : String) (kind : Kind)
    (start : Datetime) (limit : Int) :
    Simulation (machine C zone dockerHost kind start limit)
      (StablePaging.machine C.adapter (·.millis zone) (fun _ => none) dockerHost kind start limit)
      (Reads C dockerHost kind) (Label dockerHost kind) where
  step := by
    intro c e c' r hR hs
    obtain ⟨hQ, t, ht, rfl⟩ := hR
    cases e with
    | page end_ =>
      obtain ⟨hserver, hstep⟩ := page_reads ht hs
      refine ⟨[.page end_], _, Machine.run_cons.mpr ⟨_, hstep, rfl⟩, ⟨hserver ▸ hQ, t, hserver ▸ ht, rfl⟩, ?_⟩
      intro d hd
      rw [List.mem_singleton.mp hd]
      rfl
    | server e =>
      obtain ⟨s, hstep, rfl⟩ := Option.map_eq_some_iff.mp hs
      obtain ⟨a, heff, hcause⟩ := Process.step_effect (queued_streamKeys hQ) hstep
      have hQ' : Queued (Readable C.adapter) s := Process.step_queued (readable_of_mem_commands hA) hQ hstep
      have hvalid : ∀ i fields, a = .write dockerHost kind i fields → Valid C.adapter (i, fields) := by
        intro i fields ha
        subst ha
        obtain ⟨-, cs, hcs⟩ := hcause
        exact (hQ.pending _ (by rw [hcs]; exact List.mem_cons_self)).2 i
      rcases effect_reads zone start limit ht heff hvalid with hsame | ⟨d, t', ht', hd, hlabel⟩
      · exact ⟨[], _, rfl, ⟨hQ', t, hsame, rfl⟩, fun d hd => by cases hd⟩
      · refine ⟨[d], _, Machine.run_cons.mpr ⟨_, hd, rfl⟩, ⟨hQ', t', ht', rfl⟩, ?_⟩
        intro d' hd'
        rw [List.mem_singleton.mp hd']
        rcases hlabel with ⟨i, fields, rfl, rfl⟩ | ⟨minId, rfl, rfl⟩ <;> exact hcause

/-! ## What no sweep reaches -/

/-- The horizons along a run bound what the reading loses. -/
theorem along_spared {c : Client} {es : List Ev} {i : StreamId} (hS : Spared dockerHost kind i.ms.val c.server)
    (hes : ∀ nowMs, .server (.sweep nowMs) ∈ es → horizon C nowMs kind ≤ i.ms.val) :
    (machine C zone dockerHost kind start limit).Along
      (fun c e => ∀ d, Label dockerHost kind c e d → ∀ minId, d = .trim minId → minId ≤ i) c es := by
  induction es generalizing c with
  | nil => exact trivial
  | cons e es ih =>
    have hlater : ∀ nowMs, .server (.sweep nowMs) ∈ es → horizon C nowMs kind ≤ i.ms.val :=
      fun nowMs hmem => hes nowMs (List.mem_cons_of_mem _ hmem)
    cases e with
    | page end_ =>
      constructor
      · intro d hd minId he
        subst he
        cases hd
      intro c' hc'
      have hserver : c'.server = c.server := by
        simp only [machine, step] at hc'
        split at hc'
        · cases hc'
        · split at hc'
          · split at hc' <;> cases hc' <;> rfl
          · cases hc'
      exact ih (hserver ▸ hS) hlater
    | server e =>
      have hnow : ∀ nowMs, .sweep nowMs ∈ [e] → horizon C nowMs kind ≤ i.ms.val := by
        intro nowMs hmem
        exact hes nowMs (List.mem_singleton.mp hmem ▸ List.mem_cons_self)
      refine ⟨?_, ?_⟩
      · intro d hd minId he
        subst he
        exact (Process.along_spared hS hnow).1 (.expire minId) hd minId rfl
      · intro c' hc'
        obtain ⟨s, hs, rfl⟩ := Option.map_eq_some_iff.mp hc'
        exact ih (Process.step_spared hS (fun nowMs he => hnow nowMs (he ▸ List.mem_cons_self)) hs) hlater

/-- An entry that no XTRIM reaches is there at every request. -/
theorem along_there {A : RecordAdapter} {ms : Datetime → Option Int} {db : Store} {x : StreamId × Fields}
    {r : StablePaging.Reading} {ds : List StablePaging.Ev} (hx : x ∈ r.stream.entries)
    (hds : ∀ d ∈ ds, ∀ minId, d = .trim minId → minId ≤ x.1) :
    (StablePaging.machine A ms db dockerHost kind start limit).Along (fun t e => e.IsPage → x ∈ t.stream.entries) r ds := by
  induction ds generalizing r with
  | nil => exact trivial
  | cons d ds ih =>
    refine ⟨fun _ => hx, ?_⟩
    intro r' hr'
    refine ih ?_ fun d hd => hds d (List.mem_cons_of_mem _ hd)
    cases d with
    | page end_ =>
      simp only [StablePaging.machine, StablePaging.step] at hr'
      split at hr'
      · cases hr'
      · split at hr'
        · split at hr' <;> cases hr' <;> exact hx
        · cases hr'
    | add i fields =>
      simp only [StablePaging.machine, StablePaging.step] at hr'
      split at hr' <;> cases hr'
      exact List.mem_append_left _ hx
    | trim minId =>
      cases hr'
      exact List.mem_filter.mpr ⟨hx, by simpa using hds (.trim minId) List.mem_cons_self minId rfl⟩

/-! ## The traversal -/

theorem queued_run (hA : C.adapter.KeepsIdentity) {s₀ s : Process.St} {es : List Process.Ev} (hs : (Process.machine C).init s₀)
    (hrun : (Process.machine C).run s₀ es = some s) : Queued (Readable C.adapter) s :=
  Machine.run_inv (M := Process.machine C) (I := Queued (Readable C.adapter))
    (fun _ _ _ hQ _ h => Process.step_queued (readable_of_mem_commands hA) hQ h) (Process.init_queued hs)
    (Machine.along_true s₀ es) hrun

theorem entries_valid (hA : C.adapter.KeepsIdentity) {s₀ s : Process.St} {es : List Process.Ev} (hs : (Process.machine C).init s₀)
    (h₀ : ∀ h k, s₀.db (streamKey h k) = none) (hrun : (Process.machine C).run s₀ es = some s) {t : Stream Fields}
    (ht : streamAt s.db (streamKey dockerHost kind) = .ok t) : ∀ e ∈ t.entries, Valid C.adapter e := by
  intro e he
  obtain ⟨raw, -, r, hr, -, -, hfields⟩ := Process.entries_pushed hs h₀ hrun ht he
  obtain ⟨r', hr', -⟩ := hA raw r hr
  simp [Valid, decodeEntry, hfields, dataField, hr']

/-- A client that pages through one kind's stream of a process at work, which began without
    streams, until no page names a next cursor: no request fails, ids increase over all pages,
    so no entry comes twice, each lies in its page's window, and every entry of the first
    page's window that neither a sweep nor a call that is left reaches is received. -/
theorem paging_beside_the_process (C : Config) (zone : Zone) (hA : C.adapter.KeepsIdentity) {s₀ s : Process.St}
    {es₀ : List Process.Ev} (hs : (Process.machine C).init s₀) (h₀ : ∀ h k, s₀.db (streamKey h k) = none)
    (hrun₀ : (Process.machine C).run s₀ es₀ = some s) (dockerHost : String) (kind : Kind) (start : Datetime) (limit : Int)
    (hlimit : 1 ≤ limit) (hstart : ∃ m ∈ start.millis zone, 0 ≤ m) (end₀ : Datetime) (es : List Ev) (c : Client)
    (hrun : (machine C zone dockerHost kind start limit).run (begin s) (.page end₀ :: es) = some c) (hdone : c.next = none) :
    c.failure = none ∧ (c.entries.map (·.1)).Pairwise (· < ·) ∧
      (∀ pe ∈ c.pages, ∀ x ∈ pe.2.entries, InWindow (·.millis zone) start pe.1 x.1) ∧
      ∀ t, streamAt s.db (streamKey dockerHost kind) = .ok t → ∀ x ∈ t.entries, InWindow (·.millis zone) start end₀ x.1 →
        Spared dockerHost kind x.1.ms.val s → (∀ nowMs, .server (.sweep nowMs) ∈ es → horizon C nowMs kind ≤ x.1.ms.val) →
        ∃ y ∈ c.entries, decodeEntry C.adapter x = some y := by
  obtain ⟨n, rfl⟩ := Int.eq_ofNat_of_zero_le (by omega : 0 ≤ limit)
  have hb := bounded_millis zone
  have hn : 1 ≤ n := by omega
  obtain ⟨lo, hlo⟩ : ∃ lo, timeId (·.millis zone) 0 start = some lo := by
    obtain ⟨m, hm, h0⟩ := hstart
    exact ⟨_, by rw [timeId, Option.mem_def.mp hm, Option.bind_some, dif_pos ⟨h0, hb start m hm⟩]⟩
  obtain ⟨t, ht⟩ := (Process.reach_inv ((Machine.Reach.init hs).run hrun₀)).typed.streams dockerHost kind
  have hvalid := entries_valid hA hs h₀ hrun₀ ht
  obtain ⟨c₁, hc₁, hrest⟩ := Machine.run_cons.mp hrun
  obtain ⟨hserver, hpage⟩ := page_reads (c := begin s) ht hc₁
  have hR : Reads C dockerHost kind c₁ (c₁.reading t) := ⟨hserver ▸ queued_run hA hs hrun₀, t, hserver ▸ ht, rfl⟩
  obtain ⟨ds, r, hds, ⟨-, t', ht', rfl⟩, hlabels⟩ := (live_simulation C zone hA dockerHost kind start n).run hR hrest
  have hreading : (StablePaging.machine C.adapter (·.millis zone) (fun _ => none) dockerHost kind start n).run
      (StablePaging.begin t) (.page end₀ :: ds) = some (c.reading t') := Machine.run_cons.mpr ⟨_, hpage, hds⟩
  have hI : StablePaging.Inv C.adapter (·.millis zone) start lo (c.reading t') := by
    refine Machine.run_inv (M := StablePaging.machine C.adapter (·.millis zone) (fun _ => none) dockerHost kind start n)
      (fun u e u' hI _ hu => StablePaging.step_inv hb hlo hn hI hu) (StablePaging.begin_inv hvalid) (Machine.along_true _ _) hreading
  refine ⟨hI.failure, hI.sorted, hI.windows, ?_⟩
  intro u hu x hx hw hspared hsweeps
  rw [ht] at hu
  cases hu
  obtain ⟨y, hy⟩ := Option.isSome_iff_exists.mp (hvalid x hx)
  have htrims := hlabels (fun d => ∀ minId, d = .trim minId → minId ≤ x.1) (along_spared (hserver ▸ hspared) hsweeps)
  have hcovers := StablePaging.run_covers hb hlo hn hvalid hreading hy hw
    (along_there hx fun d hd minId he => by
      rcases List.mem_cons.mp hd with rfl | hd
      · cases he
      · exact htrims d hd minId he)
  exact ⟨y, hcovers.1 hdone, hy⟩

/-- One entry to a page; before the second request another record is pushed and ingested, and a
    sweep runs. -/
def helloPaging : List Ev :=
  [.page tenSeconds, .server (.ingest (.push helloText)), .server (.ingest .blpop), .server (.ingest .lpop),
    .server (.sweep 604804000), .server (.ingest (.xadd 6000)), .server .trim, .page tenSeconds, .page tenSeconds]

/-- Both records are received, the first of them as one that no sweep reaches. -/
theorem a_traversal_beside_a_cycle_and_a_sweep :
    ∃ s c y, (Process.machine Process.helloConfig).run Process.helloStart Process.helloCycle = some s ∧
      (machine Process.helloConfig .utc "prod-a" .log epoch 1).run (begin s) helloPaging = some c ∧
      c.entries.map (·.1) = [⟨5000, 0⟩, ⟨6000, 0⟩] ∧ y ∈ c.entries ∧
      decodeEntry helloAdapter (⟨5000, 0⟩, [("data", helloText)]) = some y := by
  have hrun : ((Process.machine Process.helloConfig).run Process.helloStart Process.helloCycle).any (fun s =>
      s.calls = [] ∧ (streamAt s.db (streamKey "prod-a" .log)).toOption.map (·.entries) =
        some [(⟨5000, 0⟩, [("data", helloText)])] ∧
      ((machine Process.helloConfig .utc "prod-a" .log epoch 1).run (begin s) helloPaging).map
        (fun c => (c.next, c.entries.map (·.1))) = some (none, [⟨5000, 0⟩, ⟨6000, 0⟩])) = true := by decide +kernel
  obtain ⟨s, hs, hview⟩ := (Option.any_eq_true _ _).mp hrun
  obtain ⟨hcalls, hstream, hpages⟩ := of_decide_eq_true hview
  obtain ⟨c, hc, hids⟩ := Option.map_eq_some_iff.mp hpages
  obtain ⟨hdone, hids⟩ := Prod.mk.inj hids
  obtain ⟨t, ht, hentries⟩ : ∃ t, streamAt s.db (streamKey "prod-a" .log) = .ok t ∧
      t.entries = [(⟨5000, 0⟩, [("data", helloText)])] := by
    cases ht : streamAt s.db (streamKey "prod-a" .log) with
    | error e => rw [ht] at hstream; cases hstream
    | ok t => rw [ht] at hstream; exact ⟨t, rfl, Option.some.inj hstream⟩
  have hA : Process.helloConfig.adapter.KeepsIdentity := RecordAdapter.ofTexts_keepsIdentity (by decide +kernel)
  have hspared : Spared "prod-a" .log (⟨5000, 0⟩ : StreamId).ms.val s := by
    intro call hcall
    rw [hcalls] at hcall
    cases hcall
  obtain ⟨-, -, -, hreceived⟩ := paging_beside_the_process Process.helloConfig .utc hA Process.helloStart_init
    Process.helloStart_streams hs "prod-a" .log epoch 1 (by decide) (by decide +kernel) tenSeconds helloPaging.tail c hc hdone
  obtain ⟨y, hy, hdecode⟩ := hreceived t ht (⟨5000, 0⟩, [("data", helloText)]) (by rw [hentries]; exact List.mem_singleton_self _)
    (by decide +kernel) hspared (by
      intro nowMs hmem
      simp only [helloPaging, List.tail_cons, List.mem_cons, Ev.server.injEq, Process.Ev.sweep.injEq, reduceCtorEq, false_or,
        or_false, List.not_mem_nil] at hmem
      subst hmem
      decide)
  exact ⟨s, c, y, hs, hc, hids, hy, hdecode⟩

end LogSump.Server.LivePaging
