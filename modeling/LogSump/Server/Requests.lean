/-
  LogSump.Server.Requests — a running log-server: the background work of one process and any
  number of requests on the same Redis, in any interleaving and with any failures.

  - `read_is_a_page`: a page of a kind is the page that one state of the process gives.
  - `a_page_is_read_after_the_key`: an answered `/records` was permitted by a state during the
    request, and each kind of it is the page of a state after that one. What it shows was pushed
    for the daemon.
-/

import LogSump.Server.Api
import LogSump.Server.Delivery
import LogSump.Server.Isolation

namespace LogSump.Server.Api

open Common Python Redis Foundation

/-- `create_app` with its settings. -/
structure App extends Env where
  batchSize : Int := 200
  retentionDays : Int := 7
  metricsRetentionDays : Option Int := none

def App.config (S : App) : Process.Config where
  adapter := S.adapter
  sha256 := S.sha256
  batchSize := S.batchSize
  daemonIds := S.daemons.map (·.id)
  retentionDays := S.retentionDays
  metricsRetentionDays := S.metricsRetentionDays.getD S.retentionDays

/-- The connection is lost before the reply. -/
def broken : (c : Command) → ReplyTo c
  | .smembers _ => .error .connection
  | .xrange _ _ _ _ => .error .connection
  | .ping => .error .connection
  | .execute _ _ => .error "Connection closed by server."

abbrev Task := Program Command ReplyTo (Except Failure Response)

abbrev Running := Serving Process.St Task

variable (S : App) (inspect : Store → String → List String → Except String Reply)

def execOn (s : Process.St) : (c : Command) → ReplyTo c := exec inspect s.db

def system : Machine Running (ServingEvent Process.Ev Task) := Serving.machine (Process.machine S.config) (execOn inspect) broken

/-- The states of the process in a run, in their order. -/
def visited (w : Running) (es : List (ServingEvent Process.Ev Task)) : List Process.St :=
  Serving.servers (Process.machine S.config) (execOn inspect) broken w es

variable {S inspect}

/-! ## One reply -/

theorem smembers_reply {o : Option Process.St} {key : String} {members : List String}
    (h : Except.ok members = Serving.replyOf (execOn inspect) broken o (.smembers key)) :
    ∃ s, o = some s ∧ setAt s.db key = .ok members := by
  cases o with
  | none => cases h
  | some s => exact ⟨s, rfl, h.symm⟩

theorem xrange_reply {o : Option Process.St} {key min max : String} {count : Int} {raw : List (StreamId × Fields)}
    (h : Except.ok raw = Serving.replyOf (execOn inspect) broken o (.xrange key min max count)) :
    ∃ s, o = some s ∧ Redis.xrange s.db key min max count = .ok raw := by
  cases o with
  | none => cases h
  | some s => exact ⟨s, rfl, h.symm⟩

/-- The set that was found permits the daemon. -/
theorem permitted_of_set {db : Store} {apiKey dockerHost : String} {permitted : List String} (hkey : apiKey ≠ "")
    (hset : setAt db (authKey S.sha256 apiKey) = .ok permitted) (hm : dockerHost ∈ permitted) :
    Permitted S.toRuntime db (some apiKey) dockerHost := by
  have hne : permitted ≠ [] := List.ne_nil_of_mem hm
  refine ⟨permitted, ?_, hm⟩
  simp only [Server.getPermittedDaemons, hkey, if_false, Server.permittedDaemons, Redis.smembers, hset, hne]

/-- The page of a kind is the one that this store gives. -/
theorem read_is_a_page {db : Store} {now start : Datetime} {r : RecordsRequest} {kind : Kind} {page : Page}
    {min max : String} {raw : List (StreamId × Fields)} (hk : r.kind.includes kind)
    (hmin : rangeStart (·.millis S.zone) start (r.cursor kind) = .ok min)
    (hmax : idCeiling (·.millis S.zone) (r.end_.getD now) = .ok max)
    (hraw : Redis.xrange db (streamKey r.dockerHost kind) min max (effectiveLimit S.server r.limit) = .ok raw)
    (hpage : pageOf S.adapter raw (effectiveLimit S.server r.limit) = .ok page) :
    Server.kindPage S.toRuntime S.server now db r start kind = .ok page := by
  rw [Server.kindPage, if_pos hk, Server.fetchKindPage, hmin, hmax, ok_bind, ok_bind, hraw]
  exact hpage

/-! ## An answer -/

/-- A record of the page was pushed, as a record of the daemon and the kind. -/
def WasPushed (A : RecordAdapter) (pushed : List String) (dockerHost : String) (kind : Kind) (x : Record) : Prop :=
  ∃ raw ∈ pushed, ∃ r, A.validateJson raw = some r ∧ A.validateJson (A.dumpJson r) = some x ∧ x.dockerHost = dockerHost ∧
    x.kind = kind

theorem page_was_pushed (hA : S.adapter.KeepsIdentity) {s₀ s : Process.St} {es : List Process.Ev}
    (hs : (Process.machine S.config).init s₀) (h₀ : ∀ h k, s₀.db (streamKey h k) = none)
    (hrun : (Process.machine S.config).run s₀ es = some s) {now start : Datetime} {r : RecordsRequest} {kind : Kind}
    {page : Page} (hk : r.kind.includes kind)
    (hpage : Server.kindPage S.toRuntime S.server now s.db r start kind = .ok page) :
    ∀ x ∈ page.records, WasPushed S.adapter s.pushed r.dockerHost kind x := by
  intro x hx
  obtain ⟨y, hy, rfl⟩ := List.mem_map.mp hx
  rw [Server.kindPage, if_pos hk] at hpage
  obtain ⟨t, e, ht, he, hdecode⟩ := mem_fetchKindPage hpage hy
  obtain ⟨raw, hraw, v, hv, hhost, hkind, hfields⟩ := Process.entries_pushed hs h₀ hrun ht he
  obtain ⟨v', hv', hhost', hkind'⟩ := hA raw v hv
  have hdumped : S.adapter.validateJson (S.adapter.dumpJson v) = some y.2 := by
    obtain ⟨data, hdata, hval⟩ := Option.bind_eq_some_iff.mp hdecode
    obtain ⟨rec, hrec, rfl⟩ := Option.map_eq_some_iff.mp hval
    rw [hfields] at hdata
    cases hdata
    exact hrec
  rw [hdumped] at hv'
  cases hv'
  exact ⟨raw, hraw, v, hv, hdumped, hhost'.trans hhost, hkind'.trans hkind⟩

/-- Where SMEMBERS has returned a set, it was the first command. -/
theorem first_is_smembers {R : Env} {now : Datetime} {req : Request} {tr : Trace} {q : Task} {key : String} {members : List String}
    (ht : Program.Trace (handle R now req).run tr q) (hmem : ⟨.smembers key, .ok members⟩ ∈ tr) :
    ∃ rest, tr = ⟨.smembers key, .ok members⟩ :: rest := by
  obtain ⟨pre, rest, rfl⟩ := List.mem_iff_append.mp hmem
  obtain ⟨rfl, -⟩ := trace_allowed ht
  exact ⟨rest, rfl⟩

/-- In every run of a log-server that began without streams: a request that is answered with a
    page was permitted by a state during the request, each kind of the page is the page of a
    state after that one, and every record on it was pushed for this daemon and kind. -/
theorem a_page_is_read_after_the_key (S : App) (inspect : Store → String → List String → Except String Reply)
    (hA : S.adapter.KeepsIdentity) {w v u : Running} {es es' : List (ServingEvent Process.Ev Task)}
    (hw : (system S inspect).init w) (h₀ : ∀ h k, w.server.db (streamKey h k) = none)
    (hrun : (system S inspect).run w es = some v) (hrun' : (system S inspect).run v es' = some u) {t : Nat} {now : Datetime}
    {r : RecordsRequest} {page : RecordsPage} (hasked : v.tasks[t]? = some (handle S.toEnv now (.records r)).run)
    (hanswered : u.tasks[t]? = some (.done (.ok (.page page)))) :
    ∃ s₁ ∈ visited S inspect v es', Permitted S.toRuntime s₁.db r.apiKey r.dockerHost ∧
      ∃ (start : Datetime) (pages : Kind → Page), requestStart now r = .ok start ∧
        answer S.toRuntime r (pages .log) (pages .metric) = .ok page ∧
        ∀ kind, (¬ r.kind.includes kind → pages kind = ⟨[], none⟩) ∧ (r.kind.includes kind →
          ∃ s₂, [s₁, s₂].Sublist (visited S inspect v es') ∧
            Server.kindPage S.toRuntime S.server now s₂.db r start kind = .ok (pages kind) ∧
            ∀ x ∈ (pages kind).records, WasPushed S.adapter s₂.pushed r.dockerHost kind x) := by
  obtain ⟨q, os, hq, hserved, hsub⟩ := Serving.task_run hrun' hasked
  rw [hanswered] at hq
  cases hq
  obtain ⟨tr, ht, hfirst⟩ := hserved.first
  obtain ⟨r', permitted, start, logs, metrics, hreq, ⟨-, key, hkey, hempty, hmem⟩, hm, hstart, hlogs, hmetrics, hpage⟩ :=
    trace_answered ht
  cases hreq
  obtain ⟨rest, rfl⟩ := first_is_smembers ht hmem
  obtain ⟨o, hset, hvisited, hlater⟩ := hfirst _ _ rest rfl
  obtain ⟨s₁, rfl, hfound⟩ := smembers_reply hset
  have hpermitted : Permitted S.toRuntime s₁.db r.apiKey r.dockerHost := by
    rw [show r.apiKey = some key from hkey]
    exact permitted_of_set hempty hfound hm
  refine ⟨s₁, hsub.subset (hvisited s₁ rfl), hpermitted, start, Kind.rec (motive := fun _ => Page) logs metrics, hstart,
    hpage, ?_⟩
  have hkind : ∀ {kind : Kind} {p : Page}, Read S.toEnv now (⟨.smembers (authKey S.sha256 key), .ok permitted⟩ :: rest) r start kind p →
      (¬ r.kind.includes kind → p = ⟨[], none⟩) ∧ (r.kind.includes kind → ∃ s₂, [s₁, s₂].Sublist (visited S inspect v es') ∧
        Server.kindPage S.toRuntime S.server now s₂.db r start kind = .ok p ∧
        ∀ x ∈ p.records, WasPushed S.adapter s₂.pushed r.dockerHost kind x) := by
    intro kind p hread
    unfold Read at hread
    split at hread
    · rename_i hk
      refine ⟨fun hnot => absurd hk hnot, fun _ => ?_⟩
      obtain ⟨min, max, raw, hmin, hmax, hin, hp⟩ := hread
      have hin : ⟨.xrange (streamKey r.dockerHost kind) min max (effectiveLimit S.server r.limit), .ok raw⟩ ∈ rest := by
        rcases List.mem_cons.mp hin with he | hin
        · cases he
        · exact hin
      obtain ⟨o', hraw, horder⟩ := hlater _ _ hin
      obtain ⟨s₂, rfl, hreply⟩ := xrange_reply hraw
      have hordered := (horder s₁ rfl s₂ rfl).trans hsub
      have hp' := read_is_a_page hk hmin hmax hreply hp
      -- the run of the process that leads to the state
      have hprocess := Serving.server_run hrun
      obtain ⟨ds, hds⟩ := Serving.servers_run hrun' (hordered.subset (List.mem_cons_of_mem _ (List.mem_singleton_self s₂)))
      exact ⟨s₂, hordered, hp', page_was_pushed hA hw.1 h₀ (Machine.run_append.mpr ⟨_, hprocess, hds⟩) hk hp'⟩
    · rename_i hk
      exact ⟨fun _ => hread, fun hnot => absurd hnot hk⟩
  intro kind
  cases kind with
  | log => exact hkind hlogs
  | metric => exact hkind hmetrics

/-! ## One request -/

def helloApp : App where
  toEnv := helloEnv

def helloRecords : RecordsRequest where
  apiKey := some "key-1"
  dockerHost := "prod-a"
  kind := .log
  start := some epoch
  end_ := some tenSeconds

/-- The inspection endpoint is not used. -/
def noInspection : Store → String → List String → Except String Reply := fun _ _ _ => .error ""

def helloIdle : Running := ⟨Process.helloStart, []⟩

theorem helloIdle_init : (system helloApp noInspection).init helloIdle := ⟨Process.helloStart_init, rfl⟩

/-- The messages on the page, and its cursor. -/
def shown : Task → Option (List String × Option String)
  | .done (.ok (.page page)) => some (page.records.map Record.message, page.nextLogCursor)
  | _ => none

theorem shown_page {task : Option Task} {messages : List String} {cursor : Option String}
    (h : task.bind shown = some (messages, cursor)) :
    ∃ page, task = some (.done (.ok (.page page))) ∧ page.records.map Record.message = messages := by
  obtain ⟨p, rfl, hp⟩ := Option.bind_eq_some_iff.mp h
  unfold shown at hp
  split at hp
  · rename_i page
    cases hp
    exact ⟨page, rfl, rfl⟩
  · cases hp

/-- The request has arrived. -/
def helloAsked : Running := ⟨Process.helloStart, [(handle helloEnv tenSeconds (.records helloRecords)).run]⟩

/-- Between its two commands the record that it asks for is written, and a sweep trims the stream. -/
def helloBusy : List (ServingEvent Process.Ev Task) :=
  [.server (.ingest .blpop), .server (.ingest .lpop), .serve 0, .server (.ingest (.xadd 5000)), .server (.sweep 604805000),
    .server .trim, .serve 0]

theorem a_request_beside_ingestion_and_a_sweep :
    ∃ u page, (system helloApp noInspection).run helloAsked helloBusy = some u ∧
      u.tasks[0]? = some (.done (.ok (.page page))) ∧ page.records.map Record.message = ["hello"] ∧
      ∃ s₁ ∈ visited helloApp noInspection helloAsked helloBusy, Permitted helloRuntime s₁.db (some "key-1") "prod-a" := by
  have hshown : ((system helloApp noInspection).run helloAsked helloBusy).map (fun u => u.tasks[0]?.bind shown) =
      some (some (["hello"], none)) := by decide +kernel
  obtain ⟨u, hu, hpage⟩ := Option.map_eq_some_iff.mp hshown
  obtain ⟨page, hdone, hmessages⟩ := shown_page hpage
  have hA : helloApp.adapter.KeepsIdentity := RecordAdapter.ofTexts_keepsIdentity (by decide +kernel)
  have harrived : (system helloApp noInspection).run helloIdle
      [.arrive (handle helloEnv tenSeconds (.records helloRecords)).run] = some helloAsked := rfl
  have hasked : helloAsked.tasks[0]? = some (handle helloApp.toEnv tenSeconds (.records helloRecords)).run := rfl
  obtain ⟨s₁, hvisited, hpermitted, -⟩ :=
    a_page_is_read_after_the_key helloApp noInspection hA helloIdle_init Process.helloStart_streams harrived hu hasked hdone
  exact ⟨u, page, hu, hdone, hmessages, s₁, hvisited, hpermitted⟩

end LogSump.Server.Api
