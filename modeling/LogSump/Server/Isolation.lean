/-
  LogSump.Server.Isolation — what ingestion and trimming leave in the store, and what a
  caller sees of it.

  A history is a sequence of ingest batches, each entry with the server's clock when its
  XADD is executed, and of trims. It starts from a store without streams; the API keys'
  sets are arbitrary.

  - `history_clean`: every entry of a stream is a record of the stream's daemon and kind.
  - `history_agrees`: the streams of a daemon are made by what carries the daemon's id.
  - `daemons_are_isolated`: a caller sees the requested daemon's records only, and only
    what concerns that daemon has an effect on the response.
-/

import LogSump.Server.Consumer
import LogSump.Server.LenientPaging
import LogSump.Server.Records

namespace LogSump.Server

open Common Python Redis Foundation

inductive Op where
  | ingest (batch : List (String × U64))
  | trim (dockerHost : String) (kind : Kind) (minId : Int)

/-- The store after an XADD; one that fails changes nothing. -/
def afterXadd (db : Store) (clock : U64) (c : Consumer.Command) : Store :=
  match xadd db c.key clock c.fields with
  | .error _ => db
  | .ok db => db

def afterTrim (db : Store) (dockerHost : String) (kind : Kind) (minId : Int) : Store :=
  match xtrim db (streamKey dockerHost kind) minId with
  | .error _ => db
  | .ok db => db

variable (A : RecordAdapter)

def ingestEntry (db : Store) (entry : String × U64) : Store :=
  match Consumer.command A entry.1 with
  | none => db
  | some c => afterXadd db entry.2 c

def applyOp (db : Store) : Op → Store
  | .ingest batch => batch.foldl (ingestEntry A) db
  | .trim dockerHost kind minId => afterTrim db dockerHost kind minId

def history (db : Store) (ops : List Op) : Store := ops.foldl (applyOp A) db

/-! ## What each command changes -/

theorem afterXadd_other {db : Store} {clock : U64} {c : Consumer.Command} {k : String} (h : k ≠ c.key) :
    afterXadd db clock c k = db k := by
  cases hx : xadd db c.key clock c.fields with
  | error e => simp only [afterXadd, hx]
  | ok db' =>
    obtain ⟨s, s', -, -, rfl⟩ := xadd_ok hx
    simp only [afterXadd, hx]
    exact putStream_other db s' h

/-- An XADD's effect on its own key depends on that key alone. -/
theorem afterXadd_congr {db db' : Store} {clock : U64} {c : Consumer.Command} (h : db c.key = db' c.key) :
    afterXadd db clock c c.key = afterXadd db' clock c c.key := by
  have hs : streamAt db c.key = streamAt db' c.key := streamAt_congr h
  unfold afterXadd xadd
  rw [hs]
  cases streamAt db' c.key with
  | error e => exact h
  | ok s =>
    simp only [Except.bind]
    cases s.xadd clock c.fields with
    | none => exact h
    | some s' => simp [putStream]

theorem afterTrim_other {db : Store} {dockerHost : String} {kind : Kind} {minId : Int} {k : String}
    (h : k ≠ streamKey dockerHost kind) : afterTrim db dockerHost kind minId k = db k := by
  unfold afterTrim xtrim
  cases StreamId.parse 0 (toString minId) with
  | none => rfl
  | some i =>
    cases streamAt db (streamKey dockerHost kind) with
    | error e => rfl
    | ok s =>
      simp only [Except.map]
      split
      · rfl
      · exact putStream_other db _ h

theorem afterTrim_congr {db db' : Store} {dockerHost : String} {kind : Kind} {minId : Int}
    (h : db (streamKey dockerHost kind) = db' (streamKey dockerHost kind)) :
    afterTrim db dockerHost kind minId (streamKey dockerHost kind) =
      afterTrim db' dockerHost kind minId (streamKey dockerHost kind) := by
  have hs : streamAt db (streamKey dockerHost kind) = streamAt db' (streamKey dockerHost kind) := streamAt_congr h
  unfold afterTrim xtrim
  rw [hs, h]
  cases StreamId.parse 0 (toString minId) with
  | none => exact h
  | some i =>
    cases streamAt db' (streamKey dockerHost kind) with
    | error e => exact h
    | ok s =>
      simp only [Except.map]
      split
      · exact h
      · simp [putStream]

variable {A}

theorem command_eq_some {raw : String} {c : Consumer.Command} (h : Consumer.command A raw = some c) :
    ∃ r, A.validateJson raw = some r ∧ c = ⟨streamKey r.dockerHost r.kind, [("data", A.dumpJson r)]⟩ := by
  obtain ⟨r, hr, rfl⟩ := Option.map_eq_some_iff.mp h
  exact ⟨r, hr, rfl⟩

theorem ingestEntry_other {db : Store} {k : String} (hk : ∀ h kind, k ≠ streamKey h kind) (entry : String × U64) :
    ingestEntry A db entry k = db k := by
  unfold ingestEntry
  cases hc : Consumer.command A entry.1 with
  | none => rfl
  | some c =>
    obtain ⟨r, -, rfl⟩ := command_eq_some hc
    exact afterXadd_other (hk _ _)

/-- Ingestion and trimming touch streams only. -/
theorem history_other {db : Store} {k : String} (hk : ∀ h kind, k ≠ streamKey h kind) (ops : List Op) :
    history A db ops k = db k := by
  induction ops generalizing db with
  | nil => rfl
  | cons op ops ih =>
    refine ih.trans ?_
    cases op with
    | trim h kind minId => exact afterTrim_other (hk h kind)
    | ingest batch =>
      show batch.foldl (ingestEntry A) db k = db k
      induction batch generalizing db with
      | nil => rfl
      | cons entry batch ihb =>
        rw [List.foldl_cons, ihb]
        exact ingestEntry_other hk entry

/-! ## Every entry is a record of its stream -/

/-- The entries of a daemon's stream of one kind are records of that daemon and kind. -/
def CleanStream (A : RecordAdapter) (dockerHost : String) (kind : Kind) (s : Stream Fields) : Prop :=
  ∀ e ∈ s.entries, ∃ r, decodeEntry A e = some (e.1, r) ∧ r.dockerHost = dockerHost ∧ r.kind = kind

def Clean (A : RecordAdapter) (db : Store) : Prop :=
  ∀ h k, ∃ s, streamAt db (streamKey h k) = .ok s ∧ CleanStream A h k s

theorem clean_update {db db' : Store} {h₀ : String} {k₀ : Kind} {s : Stream Fields} (hC : Clean A db)
    (hs : streamAt db' (streamKey h₀ k₀) = .ok s) (hclean : CleanStream A h₀ k₀ s)
    (hother : ∀ k, k ≠ streamKey h₀ k₀ → db' k = db k) : Clean A db' := by
  intro h k
  by_cases he : streamKey h k = streamKey h₀ k₀
  · obtain ⟨rfl, rfl⟩ := streamKey_inj he
    exact ⟨s, hs, hclean⟩
  · rw [streamAt_congr (hother _ he)]
    exact hC h k

theorem ingestEntry_clean (hA : A.KeepsIdentity) {db : Store} (hC : Clean A db) (entry : String × U64) :
    Clean A (ingestEntry A db entry) := by
  unfold ingestEntry
  cases hc : Consumer.command A entry.1 with
  | none => exact hC
  | some c =>
    obtain ⟨r, hr, rfl⟩ := command_eq_some hc
    obtain ⟨s, hs, hclean⟩ := hC r.dockerHost r.kind
    cases hx : xadd db (streamKey r.dockerHost r.kind) entry.2 [("data", A.dumpJson r)] with
    | error e => simpa only [afterXadd, hx] using hC
    | ok db' =>
      simp only [afterXadd, hx]
      obtain ⟨t, t', ht, hadd, rfl⟩ := xadd_ok hx
      rw [hs] at ht
      cases ht
      obtain ⟨i, -, he⟩ := Stream.xadd_entries hadd
      refine clean_update hC (putStream_same _ _ _) (fun e hm => ?_) fun k hk => putStream_other db t' hk
      rw [he] at hm
      rcases List.mem_append.mp hm with hm | hm
      · exact hclean e hm
      · -- the new entry is what the adapter wrote
        obtain ⟨r', hr', hh, hk⟩ := hA entry.1 r hr
        rw [List.mem_singleton.mp hm]
        exact ⟨r', by simp [decodeEntry, dataField, hr'], hh, hk⟩

theorem afterTrim_clean {db : Store} (hC : Clean A db) (dockerHost : String) (kind : Kind) (minId : Int) :
    Clean A (afterTrim db dockerHost kind minId) := by
  obtain ⟨s, hs, hclean⟩ := hC dockerHost kind
  unfold afterTrim xtrim
  cases StreamId.parse 0 (toString minId) with
  | none => exact hC
  | some i =>
    simp only [hs, Except.map]
    split
    · exact hC
    · refine clean_update hC (putStream_same _ _ _) (fun e he => ?_) fun k hk => putStream_other db _ hk
      exact hclean e (List.mem_filter.mp he).1

theorem applyOp_clean (hA : A.KeepsIdentity) {db : Store} (hC : Clean A db) (op : Op) : Clean A (applyOp A db op) := by
  cases op with
  | trim h k minId => exact afterTrim_clean hC h k minId
  | ingest batch =>
    show Clean A (batch.foldl (ingestEntry A) db)
    induction batch generalizing db with
    | nil => exact hC
    | cons entry batch ih => exact ih (ingestEntry_clean hA hC entry)

theorem history_clean (hA : A.KeepsIdentity) {db : Store} (h₀ : ∀ h k, db (streamKey h k) = none) (ops : List Op) :
    Clean A (history A db ops) := by
  have hC : Clean A db := fun h k => ⟨.empty, by rw [streamAt, h₀], by simp [CleanStream, Stream.empty]⟩
  clear h₀
  induction ops generalizing db with
  | nil => exact hC
  | cons op ops ih => exact ih (applyOp_clean hA hC op)

/-! ## What concerns one daemon -/

/-- What a history does to one daemon's streams. -/
inductive Concern where
  | record (r : Record) (clock : U64)
  | trim (kind : Kind) (minId : Int)

def concern (A : RecordAdapter) (dockerHost : String) : Op → List Concern
  | .ingest batch =>
    batch.filterMap fun entry =>
      match A.validateJson entry.1 with
      | none => none
      | some r => if r.dockerHost = dockerHost then some (.record r entry.2) else none
  | .trim h kind minId => if h = dockerHost then [.trim kind minId] else []

def concerns (A : RecordAdapter) (dockerHost : String) (ops : List Op) : List Concern := ops.flatMap (concern A dockerHost)

def applyConcern (A : RecordAdapter) (dockerHost : String) (db : Store) : Concern → Store
  | .record r clock => afterXadd db clock ⟨streamKey dockerHost r.kind, [("data", A.dumpJson r)]⟩
  | .trim kind minId => afterTrim db dockerHost kind minId

/-- The two stores hold the same for the daemon. -/
def Agree (dockerHost : String) (db db' : Store) : Prop :=
  ∀ k, db (streamKey dockerHost k) = db' (streamKey dockerHost k)

theorem agree_xadd {dockerHost : String} {db db' : Store} (h : Agree dockerHost db db') (clock : U64) (kind : Kind)
    (fields : Fields) :
    Agree dockerHost (afterXadd db clock ⟨streamKey dockerHost kind, fields⟩)
      (afterXadd db' clock ⟨streamKey dockerHost kind, fields⟩) := by
  intro k
  by_cases hk : streamKey dockerHost k = streamKey dockerHost kind
  · rw [hk]; exact afterXadd_congr (h kind)
  · rw [afterXadd_other hk, afterXadd_other hk]; exact h k

theorem agree_trim {dockerHost : String} {db db' : Store} (h : Agree dockerHost db db') (kind : Kind) (minId : Int) :
    Agree dockerHost (afterTrim db dockerHost kind minId) (afterTrim db' dockerHost kind minId) := by
  intro k
  by_cases hk : streamKey dockerHost k = streamKey dockerHost kind
  · rw [hk]; exact afterTrim_congr (h kind)
  · rw [afterTrim_other hk, afterTrim_other hk]; exact h k

/-- One operation acts on a daemon's streams as what concerns the daemon does. -/
theorem applyOp_agrees {dockerHost : String} {db db' : Store} (h : Agree dockerHost db db') (op : Op) :
    Agree dockerHost (applyOp A db op) ((concern A dockerHost op).foldl (applyConcern A dockerHost) db') := by
  cases op with
  | trim host kind minId =>
    by_cases hh : host = dockerHost
    · subst hh
      simpa [applyOp, concern, applyConcern] using agree_trim h kind minId
    · intro k
      have hne : streamKey dockerHost k ≠ streamKey host kind := fun e => hh (streamKey_inj e).1.symm
      simp only [applyOp, concern, hh, if_false, List.foldl_nil, afterTrim_other hne]
      exact h k
  | ingest batch =>
    show Agree dockerHost (batch.foldl (ingestEntry A) db) _
    induction batch generalizing db db' with
    | nil => exact h
    | cons entry batch ih =>
      rw [List.foldl_cons]
      simp only [concern, List.filterMap_cons]
      cases hv : A.validateJson entry.1 with
      | none =>
        have hn : ingestEntry A db entry = db := by simp [ingestEntry, Consumer.command, hv]
        rw [hn]
        exact ih h
      | some r =>
        have hs : ingestEntry A db entry =
            afterXadd db entry.2 ⟨streamKey r.dockerHost r.kind, [("data", A.dumpJson r)]⟩ := by
          simp [ingestEntry, Consumer.command, hv]
        rw [hs]
        by_cases hh : r.dockerHost = dockerHost
        · simp only [hh, if_true, List.foldl_cons]
          exact ih (agree_xadd h entry.2 r.kind _)
        · simp only [hh, if_false]
          refine ih fun k => ?_
          rw [afterXadd_other (fun e => hh (streamKey_inj e).1.symm)]
          exact h k

theorem history_agrees {dockerHost : String} {db db' : Store} (h : Agree dockerHost db db') (ops : List Op) :
    Agree dockerHost (history A db ops) ((concerns A dockerHost ops).foldl (applyConcern A dockerHost) db') := by
  induction ops generalizing db db' with
  | nil => exact h
  | cons op ops ih =>
    rw [concerns, List.flatMap_cons, List.foldl_append]
    exact ih (applyOp_agrees h op)

/-! ## What a caller sees -/

theorem pageOf_entries {raw : List (StreamId × Fields)} {limit : Int} {p : Page} (h : pageOf A raw limit = .ok p) :
    p.entries = raw.filterMap (decodeEntry A) := by
  simp only [pageOf] at h
  split at h
  · split at h <;> cases h
    rfl
  · cases h; rfl

theorem mem_fetchKindPage {ms : Datetime → Option Int} {db : Store} {dockerHost : String} {kind : Kind}
    {start end_ : Datetime} {cursor : Option String} {limit : Int} {p : Page} {x : StreamId × Record}
    (h : fetchKindPage A ms db dockerHost kind start end_ cursor limit = .ok p) (hx : x ∈ p.entries) :
    ∃ s e, streamAt db (streamKey dockerHost kind) = .ok s ∧ e ∈ s.entries ∧ decodeEntry A e = some x := by
  simp only [fetchKindPage] at h
  cases hmin : rangeStart ms start cursor with
  | error e => rw [hmin] at h; cases h
  | ok min =>
    cases hmax : idCeiling ms end_ with
    | error e => rw [hmin, hmax] at h; cases h
    | ok max =>
      rw [hmin, hmax, ok_bind, ok_bind] at h
      cases hr : xrange db (streamKey dockerHost kind) min max limit with
      | error e => rw [hr] at h; cases h
      | ok raw =>
        rw [hr] at h
        rw [pageOf_entries h] at hx
        obtain ⟨e, he, hd⟩ := List.mem_filterMap.mp hx
        obtain ⟨s, hs, hin⟩ := mem_xrange hr he
        exact ⟨s, e, hs, hin, hd⟩

variable {R : Runtime} {settings : ServerConfig} {now : Datetime}

/-- Every record of an answer comes from one of the daemon's two streams. -/
theorem mem_getRecords {db : Store} {req : RecordsRequest} {page : RecordsPage}
    (h : getRecords R settings now db req = .ok page) :
    ∃ permitted, getPermittedDaemons R db req.apiKey = .ok permitted ∧ req.dockerHost ∈ permitted ∧
      ∀ r ∈ page.records, ∃ k s e i, streamAt db (streamKey req.dockerHost k) = .ok s ∧ e ∈ s.entries ∧
        decodeEntry R.adapter e = some (i, r) := by
  simp only [getRecords] at h
  obtain ⟨permitted, hp, h⟩ := bind_eq_ok h
  obtain ⟨_, hacc, h⟩ := bind_eq_ok h
  obtain ⟨start, -, h⟩ := bind_eq_ok h
  obtain ⟨logs, hl, h⟩ := bind_eq_ok h
  obtain ⟨metrics, hm, h⟩ := bind_eq_ok h
  have hmem : req.dockerHost ∈ permitted := by
    unfold requireDaemonAccess at hacc
    split at hacc
    · assumption
    · cases hacc
  have hkind : ∀ {k p}, kindPage R settings now db req start k = .ok p → ∀ r ∈ p.records, ∃ k s e i,
      streamAt db (streamKey req.dockerHost k) = .ok s ∧ e ∈ s.entries ∧ decodeEntry R.adapter e = some (i, r) := by
    intro k p hk r hr
    obtain ⟨x, hx, rfl⟩ := List.mem_map.mp hr
    unfold kindPage at hk
    split at hk
    · obtain ⟨s, e, hs, he, hd⟩ := mem_fetchKindPage hk hx
      exact ⟨k, s, e, x.1, hs, he, hd⟩
    · cases hk; simp at hx
  refine ⟨permitted, hp, hmem, fun r hr => ?_⟩
  have hu := answer_ok_iff.mp ⟨page, h⟩
  obtain ⟨page', hpage, hperm, -⟩ := answer_of_uniform (R := R) req hu
  rw [h] at hpage
  cases hpage
  have hr' := hperm.mem_iff.mp hr
  rw [applyFilters_eq] at hr'
  rcases List.mem_append.mp (List.mem_filter.mp hr').1 with hr' | hr'
  · exact hkind hl r hr'
  · exact hkind hm r hr'

/-- An answer depends on the daemon's two streams and the set of the caller's key. -/
theorem getRecords_congr {db db' : Store} {req : RecordsRequest} (h : Agree req.dockerHost db db')
    (hauth : ∀ a, db (authKey R.sha256 a) = db' (authKey R.sha256 a)) :
    getRecords R settings now db req = getRecords R settings now db' req := by
  have hperm : getPermittedDaemons R db req.apiKey = getPermittedDaemons R db' req.apiKey := by
    unfold getPermittedDaemons
    cases req.apiKey with
    | none => rfl
    | some a => simp only [permittedDaemons, smembers, setAt_congr (hauth a)]
  have hkind : ∀ start k, kindPage R settings now db req start k = kindPage R settings now db' req start k := by
    intro start k
    unfold kindPage
    rw [fetchKindPage_congr _ _ (h k)]
  simp only [getRecords, hperm, hkind]

/-- The security contract: whatever is ingested, every stream holds records of its own
    daemon and kind; an answer holds records of the requested daemon, which the caller's key
    permits; and two histories that concern the requested daemon alike give the same
    response. -/
theorem daemons_are_isolated (R : Runtime) (settings : ServerConfig) (now : Datetime) (db : Store)
    (hA : R.adapter.KeepsIdentity) (h₀ : ∀ h k, db (streamKey h k) = none) :
    (∀ ops h k, ∃ s, streamAt (history R.adapter db ops) (streamKey h k) = .ok s ∧ CleanStream R.adapter h k s) ∧
      (∀ ops req page, getRecords R settings now (history R.adapter db ops) req = .ok page →
        ∃ permitted, getPermittedDaemons R (history R.adapter db ops) req.apiKey = .ok permitted ∧
          ∀ r ∈ page.records, r.dockerHost = req.dockerHost ∧ r.dockerHost ∈ permitted) ∧
      ∀ ops ops' req, concerns R.adapter req.dockerHost ops = concerns R.adapter req.dockerHost ops' →
        getRecords R settings now (history R.adapter db ops) req =
          getRecords R settings now (history R.adapter db ops') req := by
  refine ⟨fun ops => history_clean hA h₀ ops, fun ops req page h => ?_, fun ops ops' req h => ?_⟩
  · obtain ⟨permitted, hp, hmem, hr⟩ := mem_getRecords h
    refine ⟨permitted, hp, fun r hr' => ?_⟩
    obtain ⟨k, s, e, i, hs, he, hd⟩ := hr r hr'
    obtain ⟨s', hs', hclean⟩ := history_clean hA h₀ ops req.dockerHost k
    rw [hs] at hs'
    cases hs'
    obtain ⟨r', hr', hh, -⟩ := hclean e he
    rw [hd] at hr'
    cases hr'
    exact ⟨hh, hh ▸ hmem⟩
  · refine getRecords_congr (fun k => ?_) fun a => ?_
    · have hrefl : Agree req.dockerHost db db := fun _ => rfl
      rw [history_agrees (A := R.adapter) hrefl ops k, history_agrees (A := R.adapter) hrefl ops' k, h]
    · have hne : ∀ h kind, authKey R.sha256 a ≠ streamKey h kind := fun h kind => (streamKey_ne_authKey h kind _ a).symm
      rw [history_other hne, history_other hne]

/-! ## A daemon named like another daemon's stream -/

def lookalikeLog : LogRecord := { helloLog with dockerHost := "prod-a:log" }

def lookalikeText : String :=
  "\x7b\"docker_host\":\"prod-a:log\",\"container_name\":\"web-1\",\"container_id\":\"a1b2c3d4e5f6\"," ++
    "\"ts\":\"1970-01-01T00:00:05Z\",\"seq\":1,\"kind\":\"log\",\"stream\":\"stdout\",\"level\":\"info\"," ++
    "\"message\":\"hello\",\"fields\":\x7b\x7d,\"raw\":\"1970-01-01T00:00:05Z hello\"\x7d"

def lookalikeRuntime : Runtime :=
  { helloRuntime with adapter := .ofTexts [(helloText, .log helloLog), (lookalikeText, .log lookalikeLog)] }

def prodRequest : RecordsRequest where
  apiKey := some "key-1"
  dockerHost := "prod-a"
  start := some epoch
  end_ := some tenSeconds

/-- Its entries and the malformed ones leave prod-a's answer as it is. -/
theorem a_lookalike_changes_nothing :
    (getRecords lookalikeRuntime {} tenSeconds (history lookalikeRuntime.adapter helloKeys
        [.ingest [(helloText, 5000)]]) prodRequest).toOption.map (·.records.map Record.dockerHost) = some ["prod-a"] ∧
      getRecords lookalikeRuntime {} tenSeconds (history lookalikeRuntime.adapter helloKeys
          [.ingest [(helloText, 5000)]]) prodRequest =
        getRecords lookalikeRuntime {} tenSeconds (history lookalikeRuntime.adapter helloKeys
          [.ingest [(lookalikeText, 4000), ("hello", 4500), (helloText, 5000)], .trim "prod-a:log" .log 4500])
          prodRequest := by
  have hA : lookalikeRuntime.adapter.KeepsIdentity := RecordAdapter.ofTexts_keepsIdentity (by decide +kernel)
  have hne : helloText ≠ lookalikeText := by decide +kernel
  have hv : lookalikeRuntime.adapter.validateJson lookalikeText = some (.log lookalikeLog) := by
    simp [lookalikeRuntime, RecordAdapter.ofTexts, hne]
  have hn : lookalikeRuntime.adapter.validateJson "hello" = none := by
    have h1 : helloText ≠ "hello" := by decide +kernel
    have h2 : lookalikeText ≠ "hello" := by decide +kernel
    simp [lookalikeRuntime, RecordAdapter.ofTexts, h1, h2]
  have hhost : (Record.log lookalikeLog).dockerHost ≠ prodRequest.dockerHost := by decide
  refine ⟨by decide +kernel, (daemons_are_isolated lookalikeRuntime {} tenSeconds helloKeys hA
    helloKeys_stream).2.2 _ _ prodRequest ?_⟩
  have hd : ¬ "prod-a:log" = prodRequest.dockerHost := by decide
  simp only [concerns, concern, List.flatMap_cons, List.flatMap_nil, List.append_nil, List.filterMap_cons, List.filterMap_nil,
    hv, hn, hhost, hd, if_false]

end LogSump.Server
