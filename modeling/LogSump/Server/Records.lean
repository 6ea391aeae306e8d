/-
  LogSump.Server.Records — `GET /records`: authorisation (`deps.py`, `auth.py`), and one page
  of one daemon's logs and metrics, sorted by `ts` and filtered (`records.py`).

  - `getRecords_eq`: for a caller who is permitted, the answer is made of the pages of the
    kinds asked for.
  - `answer_ok_iff`: two pages are merged exactly where their timestamps all have an offset
    or none has.
-/

import LogSump.Python.Sort
import LogSump.Server.Queries

namespace LogSump.Server

open Common Python Redis Foundation

/-- What the code takes from Python and its libraries: pydantic's adapter, `str.lower`,
    `repr`, SHA-256 in hexadecimal, and the machine's time zone. -/
structure Runtime where
  adapter : RecordAdapter
  lower : String → String
  repr : String → String
  sha256 : String → String
  zone : Zone

structure ServerConfig where
  pageSizeDefault : Int := 200
  pageSizeMax : Int := 1000

/-- The values that the `kind` parameter's pattern lets through. -/
inductive KindParam where
  | log
  | metric
  | both
  deriving DecidableEq, Repr

def KindParam.includes : KindParam → Kind → Bool
  | .both, _ => true
  | .log, k => k = .log
  | .metric, k => k = .metric

structure RecordsRequest where
  apiKey : Option String
  dockerHost : String
  kind : KindParam := .both
  containerId : Option String := none
  level : Option String := none
  q : Option String := none
  start : Option Datetime := none
  end_ : Option Datetime := none
  logCursor : Option String := none
  metricCursor : Option String := none
  limit : Option Int := none

def RecordsRequest.cursor (req : RecordsRequest) : Kind → Option String
  | .log => req.logCursor
  | .metric => req.metricCursor

structure RecordsPage where
  records : List Record
  nextLogCursor : Option String
  nextMetricCursor : Option String

/-- A runtime that knows the sample records and the digest of the API key `key-1`. -/
def helloRuntime : Runtime where
  adapter := helloAdapter
  lower s := s.map Char.toLower
  repr s := "'" ++ s ++ "'"
  sha256 _ := "be2974546978e3739e6d6da85c4be9f334ce32df2b9fd4b6ff1b55c0d57e9d44"
  zone := .utc

/-- A store with nothing but the set of `key-1`, which permits prod-a. -/
def helloKeys : Store := fun k => if k = authKey helloRuntime.sha256 "key-1" then some (.set ["prod-a"]) else none

theorem helloKeys_stream (h : String) (k : Kind) : helloKeys (streamKey h k) = none :=
  if_neg (streamKey_ne_authKey h k _ _)

variable (R : Runtime) (settings : ServerConfig) (now : Datetime) (db : Store)

/-! ## Authorisation -/

/-- `RedisApiKeyAuthBackend.permitted_daemons`. -/
def permittedDaemons (apiKey : String) : Except Failure (Option (List String)) :=
  if apiKey = "" then .ok none
  else
    match smembers db (authKey R.sha256 apiKey) with
    | .error e => .error (.redis e)
    | .ok members => .ok (if members = [] then none else some members)

def getPermittedDaemons (apiKey : Option String) : Except Failure (List String) :=
  match apiKey with
  | none => .error (.http 401 "missing API key")
  | some key =>
    if key = "" then .error (.http 401 "missing API key")
    else
      match permittedDaemons R db key with
      | .error e => .error e
      | .ok none => .error (.http 401 "invalid API key")
      | .ok (some permitted) => .ok permitted

def requireDaemonAccess (dockerHost : String) (permitted : List String) : Except Failure Unit :=
  if dockerHost ∈ permitted then .ok () else .error (.http 403 ("not permitted for daemon " ++ R.repr dockerHost))

/-! ## The page -/

/-- `limit or page_size_default`, at most `page_size_max`. -/
def effectiveLimit (limit : Option Int) : Int :=
  min (match limit with
    | none => settings.pageSizeDefault
    | some n => if n = 0 then settings.pageSizeDefault else n) settings.pageSizeMax

/-- One hour, in microseconds. -/
def hour : Int := 3600000000

def requestStart (req : RecordsRequest) : Except Failure Datetime :=
  match req.start with
  | some start => .ok start
  | none =>
    match now.minus hour with
    | none => .error .overflowError
    | some start => .ok start

/-- One kind's page where it is asked for. -/
def kindPage (req : RecordsRequest) (start : Datetime) (kind : Kind) : Except Failure Page :=
  if req.kind.includes kind then
    fetchKindPage R.adapter (·.millis R.zone) db req.dockerHost kind start (req.end_.getD now) (req.cursor kind)
      (effectiveLimit settings req.limit)
  else .ok ⟨[], none⟩

def Page.records (p : Page) : List Record := p.entries.map (·.2)

/-- The two pages sorted by `ts` and filtered. -/
def answer (req : RecordsRequest) (logs metrics : Page) : Except Failure RecordsPage :=
  match sortBy (fun a b => a.ts.lt? b.ts) (logs.records ++ metrics.records) with
  | none => .error .typeError
  | some sorted =>
    .ok ⟨applyFilters R.lower sorted req.containerId req.level req.q, logs.nextCursor, metrics.nextCursor⟩

def getRecords (req : RecordsRequest) : Except Failure RecordsPage := do
  let permitted ← getPermittedDaemons R db req.apiKey
  requireDaemonAccess R req.dockerHost permitted
  let start ← requestStart now req
  let logs ← kindPage R settings now db req start .log
  let metrics ← kindPage R settings now db req start .metric
  answer R req logs metrics

/-- The caller's key permits the daemon. -/
def Permitted (apiKey : Option String) (dockerHost : String) : Prop :=
  ∃ permitted, getPermittedDaemons R db apiKey = .ok permitted ∧ dockerHost ∈ permitted

variable {R settings now db}

theorem getRecords_eq {req : RecordsRequest} (h : Permitted R db req.apiKey req.dockerHost) :
    getRecords R settings now db req = (do
      let start ← requestStart now req
      let logs ← kindPage R settings now db req start .log
      let metrics ← kindPage R settings now db req start .metric
      answer R req logs metrics) := by
  obtain ⟨permitted, hp, hm⟩ := h
  simp only [getRecords, hp, ok_bind, requireDaemonAccess, hm, if_true]

def RecordAware (r : Record) : Prop := r.ts.Aware

theorem sort_isSome_iff (rs : List Record) :
    (sortBy (fun a b : Record => a.ts.lt? b.ts) rs).isSome ↔ Uniform RecordAware rs := by
  have hlt : ∀ a b : Record, (a.ts.lt? b.ts).isSome ↔ (RecordAware a ↔ RecordAware b) :=
    fun _ _ => Datetime.lt?_isSome
  exact sortBy_isSome_iff hlt rs

theorem answer_of_uniform (req : RecordsRequest) {logs metrics : Page}
    (h : Uniform RecordAware (logs.records ++ metrics.records)) :
    ∃ page, answer R req logs metrics = .ok page ∧
      page.records.Perm (applyFilters R.lower (logs.records ++ metrics.records) req.containerId req.level req.q) ∧
      page.nextLogCursor = logs.nextCursor ∧ page.nextMetricCursor = metrics.nextCursor := by
  obtain ⟨sorted, hs⟩ := Option.isSome_iff_exists.mp ((sort_isSome_iff _).mpr h)
  exact ⟨_, by rw [answer, hs], applyFilters_perm R.lower (sortBy_perm hs) _ _ _, rfl, rfl⟩

theorem answer_of_not_uniform (req : RecordsRequest) {logs metrics : Page}
    (h : ¬ Uniform RecordAware (logs.records ++ metrics.records)) : answer R req logs metrics = .error .typeError := by
  cases hs : sortBy (fun a b : Record => a.ts.lt? b.ts) (logs.records ++ metrics.records) with
  | none => rw [answer, hs]
  | some sorted => exact absurd ((sort_isSome_iff _).mp (by rw [hs]; rfl)) h

theorem answer_ok_iff {req : RecordsRequest} {logs metrics : Page} :
    (∃ page, answer R req logs metrics = .ok page) ↔ Uniform RecordAware (logs.records ++ metrics.records) := by
  constructor
  · intro ⟨page, hp⟩
    by_contra h
    rw [answer_of_not_uniform req h] at hp
    cases hp
  · intro h
    obtain ⟨page, hp, -⟩ := answer_of_uniform (R := R) req h
    exact ⟨page, hp⟩

end LogSump.Server
