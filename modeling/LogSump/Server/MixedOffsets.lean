/-
  LogSump.Server.MixedOffsets — which requests over ingested records are answered with a
  page, given that the window, the limit and the cursors are valid.

  The schema accepts a `ts` with or without a UTC offset, and the page is sorted by `ts`.
  Python does not compare the two kinds of datetime.

  - `fetchKindPage_wanted`: a page is cut from the entries past the cursor.
  - `answered_iff`: a request is answered exactly where the records on its page all have an
    offset or none has.
-/

import LogSump.Server.Isolation

namespace LogSump.Server

open Common Python Redis Foundation

/-! ## Cursors -/

/-- A text that Redis reads as a stream ID other than the last one there is; an empty one
    counts as no cursor. -/
def ValidCursor (cursor : Option String) : Prop :=
  ∀ c ∈ cursor, c ≠ "" → ∃ i ∈ StreamId.parse 0 c, i ≠ maxId

/-- In the window; with a cursor, past it and not past the window's end. -/
def Wanted (ms : Datetime → Option Int) (start end_ : Datetime) (cursor : Option String) (i : StreamId) : Prop :=
  match cursor with
  | none => InWindow ms start end_ i
  | some c =>
    if c = "" then InWindow ms start end_ i
    else (∃ j ∈ StreamId.parse 0 c, j < i) ∧ ∃ n ∈ ms end_, (i.ms.val : Int) ≤ n

instance (ms : Datetime → Option Int) (start end_ : Datetime) (cursor : Option String) :
    DecidablePred (Wanted ms start end_ cursor) := fun i =>
  match cursor with
  | none => inferInstanceAs (Decidable (InWindow ms start end_ i))
  | some c => inferInstanceAs (Decidable (if c = "" then InWindow ms start end_ i
      else (∃ j ∈ StreamId.parse 0 c, j < i) ∧ ∃ n ∈ ms end_, (i.ms.val : Int) ≤ n))

/-- The first `limit` wanted entries of a stream. -/
def wanted (ms : Datetime → Option Int) (s : Stream Fields) (start end_ : Datetime) (cursor : Option String)
    (limit : Int) : List (StreamId × Fields) :=
  (s.entries.filter fun e => Wanted ms start end_ cursor e.1).take limit.toNat

section

variable {A : RecordAdapter} {ms : Datetime → Option Int} {db : Store} {dockerHost : String} {kind : Kind}
  {s : Stream Fields} {start end_ : Datetime} {limit : Int}

theorem fetchKindPage_wanted (hb : Bounded ms) (hs : streamAt db (streamKey dockerHost kind) = .ok s)
    (hw : ValidWindow ms start end_) {cursor : Option String} (hc : ValidCursor cursor) (hl : 1 ≤ limit) :
    fetchKindPage A ms db dockerHost kind start end_ cursor limit =
      pageOf A (wanted ms s start end_ cursor limit) limit := by
  obtain ⟨⟨lo, hlo⟩, hi, hhi⟩ := (validWindow_iff hb).mp hw
  have hfirst : fetchKindPage A ms db dockerHost kind start end_ none limit =
      pageOf A ((inRange ms s start end_).take limit.toNat) limit := by
    rw [fetchKindPage_start hb hs hlo hhi hl, Stream.xrange, inRange_eq hb hlo hhi]
  cases cursor with
  | none => exact hfirst
  | some c =>
    by_cases h : c = ""
    · -- an empty cursor asks for the first page
      subst h
      exact hfirst
    · obtain ⟨i, hi', hne⟩ := hc c rfl h
      rw [Option.mem_def] at hi'
      have hlim : ¬ limit < 1 := by omega
      have hrange : s.range (.after i) hi = s.entries.filter fun e => Wanted ms start end_ (some c) e.1 := by
        obtain ⟨n, hn, h0, hni, hs'⟩ := (timeId_eq_some hb).mp hhi
        refine List.filter_congr fun e _ => decide_eq_decide.mpr ?_
        have hup : e.1 ≤ hi ↔ (e.1.ms.val : Int) ≤ n := by
          have hmax : e.1.seq ≤ maxU64 := Fin.le_def.mpr (by have := e.1.seq.isLt; simp only [maxU64]; omega)
          rw [StreamId.le_iff, hs', Fin.lt_def, Fin.ext_iff, ← hni]
          simp only [hmax, and_true]
          omega
        simp [Wanted, h, hi', hn, hup, Stream.Lower.Admits]
      simp only [fetchKindPage, rangeStart, h, if_false, idCeiling_text hb hhi, xrange, hlim,
        parseLower_paren hi' hne, parseUpper_print, hs, Except.map, ok_bind, Stream.xrange, hrange, wanted]

end

/-! ## Pages of ingested records -/

variable (R : Runtime) (settings : ServerConfig) (now : Datetime)

/-- The records that belong on the request's page of one kind. -/
def pageRecords (db : Store) (req : RecordsRequest) (start : Datetime) (kind : Kind) : List Record :=
  match streamAt db (streamKey req.dockerHost kind) with
  | .error _ => []
  | .ok s =>
    if req.kind.includes kind then
      recordsOf R.adapter (wanted (·.millis R.zone) s start (req.end_.getD now) (req.cursor kind)
        (effectiveLimit settings req.limit))
    else []

variable {R settings now}

theorem kindPage_records {db : Store} (hC : Clean R.adapter db) {req : RecordsRequest} {start : Datetime}
    (hw : ValidWindow (·.millis R.zone) start (req.end_.getD now)) (hl : 1 ≤ effectiveLimit settings req.limit)
    (kind : Kind) (hc : ValidCursor (req.cursor kind)) :
    ∃ p, kindPage R settings now db req start kind = .ok p ∧
      p.records = pageRecords R settings now db req start kind := by
  obtain ⟨s, hs, hclean⟩ := hC req.dockerHost kind
  by_cases hk : req.kind.includes kind
  · have hfetch := fetchKindPage_wanted (A := R.adapter) (bounded_millis R.zone) hs hw hc hl
    generalize hx : wanted (·.millis R.zone) s start (req.end_.getD now) (req.cursor kind)
      (effectiveLimit settings req.limit) = xs at hfetch
    have hv : ∀ e ∈ xs, Valid R.adapter e := by
      intro e he
      rw [← hx, wanted] at he
      obtain ⟨r, hr, -⟩ := hclean e (List.mem_filter.mp (List.mem_of_mem_take he)).1
      exact Option.isSome_iff_exists.mpr ⟨_, hr⟩
    have hlen : xs.length ≤ (effectiveLimit settings req.limit).toNat := by
      rw [← hx, wanted]
      exact List.length_take_le _ _
    obtain ⟨next, hp, -⟩ := pageOf_valid (A := R.adapter) (by omega) hlen hv
    rw [Int.toNat_of_nonneg (by omega)] at hp
    refine ⟨⟨xs.filterMap (decodeEntry R.adapter), next⟩, ?_, ?_⟩
    · rw [kindPage, if_pos hk, hfetch, hp]
    · simp only [pageRecords, hs, hk, if_true, hx]
      rfl
  · exact ⟨⟨[], none⟩, by simp [kindPage, hk], by simp [pageRecords, hs, hk, Page.records]⟩

theorem getRecords_answered_iff {db : Store} (hC : Clean R.adapter db) {req : RecordsRequest}
    (hperm : Permitted R db req.apiKey req.dockerHost) {start : Datetime} (hstart : requestStart now req = .ok start)
    (hw : ValidWindow (·.millis R.zone) start (req.end_.getD now)) (hl : 1 ≤ effectiveLimit settings req.limit)
    (hc : ∀ kind, ValidCursor (req.cursor kind)) :
    (∃ page, getRecords R settings now db req = .ok page) ↔
      Uniform RecordAware
        (pageRecords R settings now db req start .log ++ pageRecords R settings now db req start .metric) := by
  obtain ⟨logs, hlog, hlr⟩ := kindPage_records hC hw hl .log (hc .log)
  obtain ⟨metrics, hmetric, hmr⟩ := kindPage_records hC hw hl .metric (hc .metric)
  rw [getRecords_eq hperm, hstart, ok_bind, hlog, ok_bind, hmetric, ok_bind, answer_ok_iff, hlr, hmr]

theorem permitted_history {db : Store} {apiKey : Option String} {dockerHost : String} (ops : List Op) :
    Permitted R (history R.adapter db ops) apiKey dockerHost ↔ Permitted R db apiKey dockerHost := by
  have hauth : ∀ a, history R.adapter db ops (authKey R.sha256 a) = db (authKey R.sha256 a) :=
    fun a => history_other (fun h kind => (streamKey_ne_authKey h kind _ a).symm) ops
  unfold Permitted getPermittedDaemons permittedDaemons smembers
  cases apiKey with
  | none => rfl
  | some a => simp only [setAt_congr (hauth a)]

/-- Whatever is ingested, a valid request is answered exactly where the records on its page
    compare: all with an offset or all without. -/
theorem answered_iff (R : Runtime) (settings : ServerConfig) (now : Datetime) (db : Store)
    (hA : R.adapter.KeepsIdentity) (h₀ : ∀ h k, db (streamKey h k) = none) (ops : List Op) (req : RecordsRequest)
    (hperm : Permitted R db req.apiKey req.dockerHost) (start : Datetime) (hstart : requestStart now req = .ok start)
    (hw : ValidWindow (·.millis R.zone) start (req.end_.getD now)) (hl : 1 ≤ effectiveLimit settings req.limit)
    (hc : ∀ kind, ValidCursor (req.cursor kind)) :
    (∃ page, getRecords R settings now (history R.adapter db ops) req = .ok page) ↔
      Uniform RecordAware (pageRecords R settings now (history R.adapter db ops) req start .log ++
        pageRecords R settings now (history R.adapter db ops) req start .metric) :=
  getRecords_answered_iff (history_clean hA h₀ ops) ((permitted_history ops).mpr hperm) hstart hw hl hc

/-! ## A timestamp without offset -/

/-- A line that begins with 1970-01-01T00:00:05, without a `Z`. -/
def naiveLog : LogRecord :=
  { helloLog with
    ts := { helloLog.ts with offset := none, offset_lt := nofun }
    raw := "1970-01-01T00:00:05 hello" }

def naiveText : String :=
  "\x7b\"docker_host\":\"prod-a\",\"container_name\":\"web-1\",\"container_id\":\"a1b2c3d4e5f6\"," ++
    "\"ts\":\"1970-01-01T00:00:05\",\"seq\":1,\"kind\":\"log\",\"stream\":\"stdout\",\"level\":\"info\"," ++
    "\"message\":\"hello\",\"fields\":\x7b\x7d,\"raw\":\"1970-01-01T00:00:05 hello\"\x7d"

/-- A sample of 1970-01-01T00:00:06, without a `Z` either. -/
def naiveMetric : MetricRecord := { cpuMetric with ts := { cpuMetric.ts with offset := none, offset_lt := nofun } }

def naiveCpuText : String :=
  "\x7b\"docker_host\":\"prod-a\",\"container_name\":\"web-1\",\"container_id\":\"a1b2c3d4e5f6\"," ++
    "\"ts\":\"1970-01-01T00:00:06\",\"seq\":1,\"kind\":\"metric\",\"metric_scope\":\"container\"," ++
    "\"cpu_pct\":1.5,\"mem_used_bytes\":null,\"mem_limit_bytes\":null,\"mem_pct\":null,\"net_rx_bytes\":null," ++
    "\"net_tx_bytes\":null,\"blk_read_bytes\":null,\"blk_write_bytes\":null,\"pids\":null,\"system\":null," ++
    "\"source\":\"docker stats\",\"raw\":null\x7d"

def naiveRuntime : Runtime :=
  { helloRuntime with
    adapter := .ofTexts [(naiveText, .log naiveLog), (naiveCpuText, .metric naiveMetric), (cpuText, .metric cpuMetric)] }

def naiveStore (batch : List (String × U64)) : Store := history naiveRuntime.adapter helloKeys [.ingest batch]

def naivePair : List (String × U64) := [(naiveText, 5000), (naiveCpuText, 6000)]

/-- Two records without an offset, of both kinds, are on one page. -/
theorem two_naive_timestamps_are_answered :
    ∃ page, getRecords naiveRuntime {} tenSeconds (naiveStore naivePair) prodRequest = .ok page ∧
      page.records.map Record.kind = [.log, .metric] := by
  have hA : naiveRuntime.adapter.KeepsIdentity := RecordAdapter.ofTexts_keepsIdentity (by decide +kernel)
  have hw : ValidWindow (·.millis .utc) epoch tenSeconds :=
    (validWindow_iff (bounded_millis .utc)).mpr ⟨⟨_, timeId_epoch .utc 0⟩, _, timeId_tenSeconds .utc maxU64⟩
  have hc : ∀ kind, ValidCursor (prodRequest.cursor kind) := fun kind c h => by cases kind <;> cases h
  have hnaive : ∀ r ∈ pageRecords naiveRuntime {} tenSeconds (naiveStore naivePair) prodRequest epoch .log ++
      pageRecords naiveRuntime {} tenSeconds (naiveStore naivePair) prodRequest epoch .metric, ¬ r.ts.Aware := by decide +kernel
  have hanswered : ∃ page, getRecords naiveRuntime {} tenSeconds (naiveStore naivePair) prodRequest = .ok page :=
    (answered_iff naiveRuntime {} tenSeconds helloKeys hA helloKeys_stream [.ingest naivePair] prodRequest
      ⟨["prod-a"], rfl, by decide⟩ epoch rfl hw (by decide) hc).mpr fun a ha b hb => iff_of_false (hnaive a ha) (hnaive b hb)
  have hkinds : (getRecords naiveRuntime {} tenSeconds (naiveStore naivePair) prodRequest).toOption.map
      (fun p => p.records.map Record.kind) = some [.log, .metric] := by decide +kernel
  obtain ⟨page, hpage⟩ := hanswered
  rw [hpage] at hkinds
  exact ⟨page, hpage, Option.some.inj hkinds⟩

/-- Beside a metric sample, which has an offset, the request fails. -/
theorem a_naive_timestamp_beside_an_aware_one_fails :
    (∀ raw ∈ [naiveText, cpuText], (Consumer.command naiveRuntime.adapter raw).isSome) ∧
      Permitted naiveRuntime helloKeys prodRequest.apiKey prodRequest.dockerHost ∧
      getRecords naiveRuntime {} tenSeconds (naiveStore [(naiveText, 5000), (cpuText, 6000)]) prodRequest =
        .error .typeError := by
  refine ⟨by decide +kernel, ⟨["prod-a"], rfl, by decide⟩, ?_⟩
  have h : (match getRecords naiveRuntime {} tenSeconds (naiveStore [(naiveText, 5000), (cpuText, 6000)]) prodRequest with
      | .error e => some e
      | .ok _ => none) = some .typeError := by decide +kernel
  split at h
  · rename_i e he
    rw [he, Option.some.inj h]
  · cases h

end LogSump.Server
