/-
  LogSump.Server.Api — the endpoints as programs that send commands to Redis: `deps.py` and the
  routers of `records.py`, `catalog.py`, `admin.py` and `health.py`.

  Between two commands of a request Redis may change, and any command may fail, so what holds
  of a request is stated about all replies that it may get.

  - `answer_getRecords`: on a Redis that does not change meanwhile, `/records` is the function
    of `LogSump.Server.Records`.
  - `only_authorised_reads`: whatever Redis answers, a request asks for the set of the caller's
    key first, reads the streams of a daemon only where the daemon is in it, and sends a command
    of the caller only from the allowlist and where the set is not empty; only the PING of
    `/health/ready` needs no set. What it answers is made of what it was told.
-/

import LogSump.Foundation.Serving
import LogSump.Common.Config
import LogSump.Server.Inspection
import LogSump.Server.Records

namespace LogSump.Server.Api

open Common Python Redis Foundation

/-- The commands of the request path. -/
inductive Command where
  | smembers (key : String)
  | xrange (key min max : String) (count : Int)
  | ping
  /-- `execute_command(name, *args)`. -/
  | execute (name : String) (args : List String)
  deriving DecidableEq

/-- A `RedisError` of `execute_command` is its text. -/
abbrev ReplyTo : Command → Type
  | .smembers _ => Except RedisError (List String)
  | .xrange _ _ _ _ => Except RedisError (List (StreamId × Fields))
  | .ping => Except RedisError Unit
  | .execute _ _ => Except String Reply

abbrev Handler (α : Type) := ExceptT Failure (Program Command ReplyTo) α

/-- What was sent and answered so far. -/
abbrev Trace := List ((c : Command) × ReplyTo c)

structure Env extends Runtime where
  strip : String → String
  upper : String → String
  server : ServerConfig
  daemons : List DaemonConfig

structure CatalogEntry where
  id : String
  host : String
  enabled : Bool
  deriving DecidableEq

inductive Request where
  | live
  | ready
  | catalog (apiKey : Option String)
  | records (req : RecordsRequest)
  | command (apiKey : Option String) (command : String) (args : List String)

def Request.apiKey : Request → Option String
  | .catalog apiKey => apiKey
  | .records req => req.apiKey
  | .command apiKey _ _ => apiKey
  | _ => none

inductive Response where
  | health (code : Nat) (status : String)
  | catalog (entries : List CatalogEntry)
  | page (page : RecordsPage)
  | result (result : Reply)

/-- `ALLOWED_COMMANDS`. -/
def allowedCommands : List String :=
  ["GET", "MGET", "EXISTS", "TYPE", "TTL", "PTTL", "STRLEN", "KEYS", "SCAN", "DBSIZE", "HGET", "HMGET", "HGETALL", "HKEYS",
    "HVALS", "HLEN", "HEXISTS", "SMEMBERS", "SCARD", "SISMEMBER", "LRANGE", "LLEN", "LINDEX", "ZRANGE", "ZSCORE", "ZCARD",
    "ZRANK", "XRANGE", "XREVRANGE", "XLEN", "XINFO", "PING", "INFO", "MEMORY"]

/-! ## Commands -/

def ofExcept {α : Type} (x : Except Failure α) : Handler α := ExceptT.mk (.done x)

def smembers (key : String) : Handler (List String) := ExceptT.mk (.call (.smembers key) fun r => .done (r.mapError .redis))

def xrange (key min max : String) (count : Int) : Handler (List (StreamId × Fields)) :=
  ExceptT.mk (.call (.xrange key min max count) fun r => .done (r.mapError .redis))

variable (R : Env) (now : Datetime)

/-! ## Authorisation -/

/-- `RedisApiKeyAuthBackend.permitted_daemons`. -/
def permittedDaemons (apiKey : String) : Handler (Option (List String)) :=
  if apiKey = "" then pure none
  else do
    let members ← smembers (authKey R.sha256 apiKey)
    pure (if members = [] then none else some members)

def getPermittedDaemons (apiKey : Option String) : Handler (List String) :=
  match apiKey with
  | none => throw (.http 401 "missing API key")
  | some key =>
    if key = "" then throw (.http 401 "missing API key")
    else do
      match ← permittedDaemons R key with
      | none => throw (.http 401 "invalid API key")
      | some permitted => pure permitted

/-- `check_command_allowed`, with the answer to a `CommandNotAllowed`. -/
def checkCommandAllowed (command : String) : Except Failure String :=
  let normalized := R.upper (R.strip command)
  if normalized ∈ allowedCommands then .ok normalized
  else .error (.http 403 ("command " ++ R.repr command ++ " is not in the read-only allowlist"))

/-! ## Endpoints -/

def fetchKindPage (dockerHost : String) (kind : Kind) (start end_ : Datetime) (cursor : Option String) (limit : Int) :
    Handler Page := do
  let min ← ofExcept (rangeStart (·.millis R.zone) start cursor)
  let max ← ofExcept (idCeiling (·.millis R.zone) end_)
  let rawEntries ← xrange (streamKey dockerHost kind) min max limit
  ofExcept (pageOf R.adapter rawEntries limit)

/-- One kind's page where it is asked for. -/
def kindPage (req : RecordsRequest) (start : Datetime) (kind : Kind) : Handler Page :=
  if req.kind.includes kind then
    fetchKindPage R req.dockerHost kind start (req.end_.getD now) (req.cursor kind) (effectiveLimit R.server req.limit)
  else pure ⟨[], none⟩

def getRecords (req : RecordsRequest) : Handler RecordsPage := do
  let permitted ← getPermittedDaemons R req.apiKey
  ofExcept (requireDaemonAccess R.toRuntime req.dockerHost permitted)
  let start ← ofExcept (requestStart now req)
  let logs ← kindPage R now req start .log
  let metrics ← kindPage R now req start .metric
  ofExcept (answer R.toRuntime req logs metrics)

def getCatalog (apiKey : Option String) : Handler (List CatalogEntry) := do
  let permitted ← getPermittedDaemons R apiKey
  pure ((R.daemons.filter (·.id ∈ permitted)).map fun daemon => ⟨daemon.id, daemon.host, daemon.enabled⟩)

def runRedisCommand (apiKey : Option String) (command : String) (args : List String) : Handler Reply := do
  let _ ← getPermittedDaemons R apiKey
  let name ← ofExcept (checkCommandAllowed R command)
  ExceptT.mk (.call (.execute name args) fun r =>
    match r with
    | .error text => .done (.error (.http 400 text))
    | .ok result => .done (.ok result.decode))

def readiness : Handler Response :=
  ExceptT.mk (.call .ping fun r =>
    match r with
    | .error _ => .done (.ok (.health 503 "redis unreachable"))
    | .ok _ => .done (.ok (.health 200 "ok")))

def handle : Request → Handler Response
  | .live => pure (.health 200 "ok")
  | .ready => readiness
  | .catalog apiKey => do return .catalog (← getCatalog R apiKey)
  | .records req => do return .page (← getRecords R now req)
  | .command apiKey command args => do return .result (← runRedisCommand R apiKey command args)

/-! ## On one Redis -/

/-- How Redis executes the commands; those of the callers are not modelled. -/
def exec (inspect : Store → String → List String → Except String Reply) (db : Store) : (c : Command) → ReplyTo c
  | .smembers key => Redis.smembers db key
  | .xrange key min max count => Redis.xrange db key min max count
  | .ping => .ok ()
  | .execute name args => inspect db name args

variable {R now}

section

variable (inspect : Store → String → List String → Except String Reply) (db : Store)

theorem answer_ofExcept {α : Type} (x : Except Failure α) : (ofExcept x).run.answer (exec inspect db) = x := rfl

theorem answer_permitted (apiKey : Option String) :
    (getPermittedDaemons R apiKey).run.answer (exec inspect db) = Server.getPermittedDaemons R.toRuntime db apiKey := by
  cases apiKey with
  | none => rfl
  | some key =>
    by_cases hk : key = ""
    · simp only [getPermittedDaemons, Server.getPermittedDaemons, hk, if_true]
      rfl
    · simp only [getPermittedDaemons, Server.getPermittedDaemons, permittedDaemons, Server.permittedDaemons, hk, if_false,
        Program.answer_tryBind]
      have hmembers : (smembers (authKey R.sha256 key)).run.answer (exec inspect db) =
          (Redis.smembers db (authKey R.sha256 key)).mapError .redis := rfl
      rw [hmembers]
      cases Redis.smembers db (authKey R.sha256 key) with
      | error e => rfl
      | ok members => by_cases hm : members = [] <;> simp only [hm, Except.mapError, ok_bind] <;> rfl

theorem answer_kindPage (req : RecordsRequest) (start : Datetime) (kind : Kind) :
    (kindPage R now req start kind).run.answer (exec inspect db) =
      Server.kindPage R.toRuntime R.server now db req start kind := by
  unfold kindPage Server.kindPage
  by_cases hk : req.kind.includes kind
  · simp only [hk, if_true, fetchKindPage, Server.fetchKindPage, Program.answer_tryBind, answer_ofExcept]
    congr 1
    funext min
    congr 1
    funext max
    have hrange : (xrange (streamKey req.dockerHost kind) min max (effectiveLimit R.server req.limit)).run.answer
        (exec inspect db) =
        (Redis.xrange db (streamKey req.dockerHost kind) min max (effectiveLimit R.server req.limit)).mapError .redis := rfl
    rw [hrange]
    cases Redis.xrange db (streamKey req.dockerHost kind) min max (effectiveLimit R.server req.limit) <;> rfl
  · simp only [hk]
    rfl

theorem answer_getRecords (req : RecordsRequest) :
    (getRecords R now req).run.answer (exec inspect db) = Server.getRecords R.toRuntime R.server now db req := by
  simp only [getRecords, Server.getRecords, Program.answer_tryBind, answer_permitted, answer_ofExcept, answer_kindPage]

end

/-! ## What a request may send, and what it answers -/

/-- Redis has returned this set for the caller's key. -/
def Learned (R : Env) (apiKey : Option String) (permitted : List String) (tr : Trace) : Prop :=
  permitted ≠ [] ∧ ∃ key, apiKey = some key ∧ key ≠ "" ∧ ⟨.smembers (authKey R.sha256 key), .ok permitted⟩ ∈ tr

/-- A request may send the command after this trace. -/
def Allowed (R : Env) (req : Request) (tr : Trace) : Command → Prop
  | .smembers key => tr = [] ∧ ∃ apiKey, req.apiKey = some apiKey ∧ apiKey ≠ "" ∧ key = authKey R.sha256 apiKey
  | .xrange key _ _ _ => ∃ r kind permitted, req = .records r ∧ r.kind.includes kind ∧ key = streamKey r.dockerHost kind ∧
      Learned R req.apiKey permitted tr ∧ r.dockerHost ∈ permitted
  | .ping => req = .ready
  | .execute name args => name ∈ allowedCommands ∧ ∃ command permitted, req = .command req.apiKey command args ∧
      name = R.upper (R.strip command) ∧ Learned R req.apiKey permitted tr

/-- The page of a kind is made of a reply of the trace, where the kind is asked for. -/
def Read (R : Env) (now : Datetime) (tr : Trace) (r : RecordsRequest) (start : Datetime) (kind : Kind) (page : Page) : Prop :=
  if r.kind.includes kind then
    ∃ min max raw, rangeStart (·.millis R.zone) start (r.cursor kind) = .ok min ∧
      idCeiling (·.millis R.zone) (r.end_.getD now) = .ok max ∧
      ⟨.xrange (streamKey r.dockerHost kind) min max (effectiveLimit R.server r.limit), .ok raw⟩ ∈ tr ∧
      pageOf R.adapter raw (effectiveLimit R.server r.limit) = .ok page
  else page = ⟨[], none⟩

/-- What the answer says is what the trace told the request. -/
def Answered (R : Env) (now : Datetime) (req : Request) (tr : Trace) : Except Failure Response → Prop
  | .ok (.health _ _) => req = .live ∨ req = .ready
  | .ok (.catalog entries) => ∃ permitted, Learned R req.apiKey permitted tr ∧
      entries = (R.daemons.filter (·.id ∈ permitted)).map fun daemon => ⟨daemon.id, daemon.host, daemon.enabled⟩
  | .ok (.page page) => ∃ r permitted start logs metrics, req = .records r ∧ Learned R req.apiKey permitted tr ∧
      r.dockerHost ∈ permitted ∧ requestStart now r = .ok start ∧ Read R now tr r start .log logs ∧
      Read R now tr r start .metric metrics ∧ answer R.toRuntime r logs metrics = .ok page
  | .ok (.result result) => ∃ command args permitted name reply, req = .command req.apiKey command args ∧
      Learned R req.apiKey permitted tr ∧ checkCommandAllowed R command = .ok name ∧ ⟨.execute name args, .ok reply⟩ ∈ tr ∧
      result = reply.decode
  | .error (.http 401 _) => ∀ permitted, ¬ Learned R req.apiKey permitted tr
  | .error (.http 403 _) => ∃ permitted, Learned R req.apiKey permitted tr ∧
      ((∃ r, req = .records r ∧ r.dockerHost ∉ permitted) ∨
        ∃ command args, req = .command req.apiKey command args ∧ R.upper (R.strip command) ∉ allowedCommands)
  | .error _ => True

def IsHttp : Failure → Prop
  | .http _ _ => True
  | _ => False

theorem answered_error {req : Request} {tr : Trace} {e : Failure} (h : ¬ IsHttp e) :
    Answered R now req tr (.error e) := by
  cases e with
  | http code text => exact absurd trivial h
  | _ => trivial

theorem Learned.later {apiKey : Option String} {permitted : List String} {tr tr' : Trace} (h : Learned R apiKey permitted tr)
    (hsub : ∀ e ∈ tr, e ∈ tr') : Learned R apiKey permitted tr' := by
  obtain ⟨hne, key, hkey, hempty, hmem⟩ := h
  exact ⟨hne, key, hkey, hempty, hsub _ hmem⟩

theorem Read.later {r : RecordsRequest} {start : Datetime} {kind : Kind} {page : Page} {tr tr' : Trace}
    (h : Read R now tr r start kind page) (hsub : ∀ e ∈ tr, e ∈ tr') : Read R now tr' r start kind page := by
  unfold Read at h ⊢
  split at h
  · rename_i hk
    obtain ⟨min, max, raw, hmin, hmax, hmem, hpage⟩ := h
    rw [if_pos hk]
    exact ⟨min, max, raw, hmin, hmax, hsub _ hmem, hpage⟩
  · rename_i hk
    rw [if_neg hk]
    exact h

/-! ## The parts of a request -/

open Program (Ensures Outcome history)

/-- The only thing sent so far is SMEMBERS, and this is what it found. -/
def Found (R : Env) (key : String) (tr : Trace) (found : Option (List String)) : Prop :=
  ∃ members, found = (if members = [] then none else some members) ∧ tr = [⟨.smembers (authKey R.sha256 key), .ok members⟩]

theorem permittedDaemons_ensures {A : Trace → Command → Prop} {key : String} (hkey : key ≠ "")
    (h : A [] (.smembers (authKey R.sha256 key))) :
    Ensures A history (Outcome (Found R key) fun _ e => ¬ IsHttp e) [] (permittedDaemons R key).run := by
  have hmembers : Ensures A history
      (Outcome (fun tr members => tr = [⟨.smembers (authKey R.sha256 key), .ok members⟩]) fun _ e => ¬ IsHttp e) []
      (smembers (authKey R.sha256 key)).run := by
    refine ⟨h, ?_⟩
    intro reply
    cases reply with
    | error error => exact id
    | ok members => exact rfl
  simp only [permittedDaemons, hkey, if_false]
  refine hmembers.tryBind ?_
  intro tr members htr
  exact ⟨members, rfl, htr⟩

theorem permitted_ensures (req : Request) :
    Ensures (Allowed R req) history
      (Outcome (fun tr permitted => Learned R req.apiKey permitted tr) fun tr e => Answered R now req tr (.error e)) []
      (getPermittedDaemons R req.apiKey).run := by
  unfold getPermittedDaemons
  cases hkey : req.apiKey with
  | none =>
    intro permitted hl
    obtain ⟨-, key, hkey', -⟩ := hl
    rw [hkey] at hkey'
    cases hkey'
  | some key =>
    by_cases hempty : key = ""
    · simp only [hempty, if_true]
      intro permitted hl
      obtain ⟨-, key', hkey', hne, -⟩ := hl
      rw [hkey] at hkey'
      cases hkey'
      exact hne hempty
    · have hfound : Ensures (Allowed R req) history (Outcome (Found R key) fun tr e => Answered R now req tr (.error e)) []
          (permittedDaemons R key).run :=
        (permittedDaemons_ensures hempty ⟨rfl, key, hkey, hempty, rfl⟩).outcome (fun _ _ h => h) fun _ _ h => answered_error h
      simp only [hempty, if_false]
      refine hfound.tryBind ?_
      intro tr found hfound
      obtain ⟨members, rfl, rfl⟩ := hfound
      by_cases hm : members = []
      · -- the set was returned empty, and nothing else was sent
        subst hm
        intro permitted hl
        obtain ⟨hne, key', -, -, hmem⟩ := hl
        simp only [List.mem_singleton, Sigma.mk.injEq] at hmem
        obtain ⟨hkeys, hreply⟩ := hmem
        injection hkeys with hkeys
        rw [hkeys] at hreply
        exact hne (Except.ok.inj (eq_of_heq hreply))
      · simp only [hm, if_false]
        exact ⟨hm, key, rfl, hempty, List.mem_singleton_self _⟩

theorem ofExcept_ensures {α : Type} {A : Trace → Command → Prop} {ok : Trace → α → Prop} {fail : Trace → Failure → Prop}
    {x : Except Failure α} {tr : Trace} (hok : ∀ a, x = .ok a → ok tr a) (hfail : ∀ e, x = .error e → fail tr e) :
    Ensures A history (Outcome ok fail) tr (ofExcept x).run := by
  cases x with
  | ok a => exact hok a rfl
  | error e => exact hfail e rfl

theorem rangeStart_error {start : Datetime} {cursor : Option String} {e : Failure}
    (h : rangeStart (·.millis R.zone) start cursor = .error e) : ¬ IsHttp e := by
  unfold rangeStart idFloor at h
  split at h
  · split at h <;> cases h
    exact id
  · split at h
    · split at h <;> cases h
      exact id
    · cases h

theorem idCeiling_error {end_ : Datetime} {e : Failure} (h : idCeiling (·.millis R.zone) end_ = .error e) : ¬ IsHttp e := by
  unfold idCeiling at h
  split at h <;> cases h
  exact id

theorem pageOf_error {raw : List (StreamId × Fields)} {limit : Int} {e : Failure}
    (h : pageOf R.adapter raw limit = .error e) : ¬ IsHttp e := by
  simp only [pageOf] at h
  split at h
  · split at h <;> cases h
    exact id
  · cases h

theorem requestStart_error {r : RecordsRequest} {e : Failure} (h : requestStart now r = .error e) : ¬ IsHttp e := by
  unfold requestStart at h
  split at h
  · cases h
  · split at h <;> cases h
    exact id

theorem answer_error {r : RecordsRequest} {logs metrics : Page} {e : Failure}
    (h : answer R.toRuntime r logs metrics = .error e) : ¬ IsHttp e := by
  unfold answer at h
  split at h <;> cases h
  exact id

theorem kindPage_ensures (now start : Datetime) {A : Trace → Command → Prop} {r : RecordsRequest} {kind : Kind} {tr₀ : Trace}
    (hA : r.kind.includes kind → ∀ min max,
      A tr₀ (.xrange (streamKey r.dockerHost kind) min max (effectiveLimit R.server r.limit))) :
    Ensures A history
      (Outcome (fun tr page => (∀ e ∈ tr₀, e ∈ tr) ∧ Read R now tr r start kind page) fun _ e => ¬ IsHttp e) tr₀
      (kindPage R now r start kind).run := by
  unfold kindPage
  by_cases hk : r.kind.includes kind
  · simp only [hk, if_true, fetchKindPage]
    have hmin : Ensures A history
        (Outcome (fun tr min => tr = tr₀ ∧ rangeStart (·.millis R.zone) start (r.cursor kind) = .ok min) fun _ e => ¬ IsHttp e)
        tr₀ (ofExcept (rangeStart (·.millis R.zone) start (r.cursor kind))).run :=
      ofExcept_ensures (fun min h => ⟨rfl, h⟩) fun e h => rangeStart_error h
    refine hmin.tryBind ?_
    intro tr min hmin
    obtain ⟨rfl, hlower⟩ := hmin
    have hmax : Ensures A history
        (Outcome (fun tr' max => tr' = tr ∧ idCeiling (·.millis R.zone) (r.end_.getD now) = .ok max) fun _ e => ¬ IsHttp e)
        tr (ofExcept (idCeiling (·.millis R.zone) (r.end_.getD now))).run :=
      ofExcept_ensures (fun max h => ⟨rfl, h⟩) fun e h => idCeiling_error h
    refine hmax.tryBind ?_
    intro tr' max hmax
    obtain ⟨rfl, hupper⟩ := hmax
    have hraw : Ensures A history
        (Outcome (fun tr raw => tr = tr' ++
          [⟨.xrange (streamKey r.dockerHost kind) min max (effectiveLimit R.server r.limit), .ok raw⟩]) fun _ e => ¬ IsHttp e)
        tr' (xrange (streamKey r.dockerHost kind) min max (effectiveLimit R.server r.limit)).run := by
      refine ⟨hA hk min max, ?_⟩
      intro reply
      cases reply with
      | error error => exact id
      | ok raw => exact rfl
    refine hraw.tryBind ?_
    intro tr raw htr
    subst htr
    refine ofExcept_ensures ?_ fun e h => pageOf_error h
    intro page hpage
    refine ⟨fun e he => List.mem_append_left _ he, ?_⟩
    rw [Read, if_pos hk]
    exact ⟨min, max, raw, hlower, hupper, List.mem_append_right _ (List.mem_singleton_self _), hpage⟩
  · simp only [hk]
    refine ⟨fun e he => he, ?_⟩
    rw [Read, if_neg hk]

theorem getRecords_ensures (r : RecordsRequest) :
    Ensures (Allowed R (.records r)) history
      (Outcome (fun tr page => Answered R now (.records r) tr (.ok (.page page))) fun tr e =>
        Answered R now (.records r) tr (.error e)) [] (getRecords R now r).run := by
  refine (permitted_ensures (.records r)).tryBind ?_
  intro tr permitted hlearned
  have haccess : Ensures (Allowed R (.records r)) history
      (Outcome (fun tr' _ => tr' = tr ∧ r.dockerHost ∈ permitted) fun tr' e => Answered R now (.records r) tr' (.error e))
      tr (ofExcept (requireDaemonAccess R.toRuntime r.dockerHost permitted)).run := by
    unfold requireDaemonAccess
    by_cases hm : r.dockerHost ∈ permitted
    · rw [if_pos hm]
      exact ⟨rfl, hm⟩
    · rw [if_neg hm]
      exact ⟨permitted, hlearned, .inl ⟨r, rfl, hm⟩⟩
  refine haccess.tryBind ?_
  intro tr' u hu
  obtain ⟨rfl, hm⟩ := hu
  have hstart : Ensures (Allowed R (.records r)) history
      (Outcome (fun tr start => tr = tr' ∧ requestStart now r = .ok start) fun tr e =>
        Answered R now (.records r) tr (.error e)) tr' (ofExcept (requestStart now r)).run :=
    ofExcept_ensures (fun start h => ⟨rfl, h⟩) fun e h => answered_error (requestStart_error h)
  refine hstart.tryBind ?_
  intro tr start hstart
  obtain ⟨rfl, hfrom⟩ := hstart
  have hallowed : ∀ {tr' : Trace} (kind : Kind), (∀ e ∈ tr, e ∈ tr') → r.kind.includes kind → ∀ min max,
      Allowed R (.records r) tr' (.xrange (streamKey r.dockerHost kind) min max (effectiveLimit R.server r.limit)) :=
    fun kind hsub hk _ _ => ⟨r, kind, permitted, rfl, hk, rfl, hlearned.later hsub, hm⟩
  have hlogs := kindPage_ensures now start (hallowed .log fun e he => he)
  refine (hlogs.outcome (fun _ _ h => h) fun tr e h => answered_error h).tryBind ?_
  intro tr₁ logs hlogs
  obtain ⟨hsub₁, hlogs⟩ := hlogs
  have hmetrics := kindPage_ensures now start (hallowed .metric hsub₁)
  refine (hmetrics.outcome (fun _ _ h => h) fun tr e h => answered_error h).tryBind ?_
  intro tr₂ metrics hmetrics
  obtain ⟨hsub₂, hmetrics⟩ := hmetrics
  refine ofExcept_ensures ?_ fun e h => answered_error (answer_error h)
  intro page hpage
  exact ⟨r, permitted, start, logs, metrics, rfl, hlearned.later fun e he => hsub₂ e (hsub₁ e he), hm, hfrom,
    hlogs.later hsub₂, hmetrics, hpage⟩

theorem getCatalog_ensures (apiKey : Option String) :
    Ensures (Allowed R (.catalog apiKey)) history
      (Outcome (fun tr entries => Answered R now (.catalog apiKey) tr (.ok (.catalog entries))) fun tr e =>
        Answered R now (.catalog apiKey) tr (.error e)) [] (getCatalog R apiKey).run := by
  refine (permitted_ensures (.catalog apiKey)).tryBind ?_
  intro tr permitted hlearned
  exact ⟨permitted, hlearned, rfl⟩

theorem runRedisCommand_ensures (apiKey : Option String) (command : String) (args : List String) :
    Ensures (Allowed R (.command apiKey command args)) history
      (Outcome (fun tr result => Answered R now (.command apiKey command args) tr (.ok (.result result))) fun tr e =>
        Answered R now (.command apiKey command args) tr (.error e)) [] (runRedisCommand R apiKey command args).run := by
  refine (permitted_ensures (.command apiKey command args)).tryBind ?_
  intro tr permitted hlearned
  have hcheck : Ensures (Allowed R (.command apiKey command args)) history
      (Outcome (fun tr' name => tr' = tr ∧ checkCommandAllowed R command = .ok name) fun tr' e =>
        Answered R now (.command apiKey command args) tr' (.error e)) tr (ofExcept (checkCommandAllowed R command)).run := by
    refine ofExcept_ensures (fun name h => ⟨rfl, h⟩) ?_
    intro e he
    simp only [checkCommandAllowed] at he
    split at he <;> cases he
    exact ⟨permitted, hlearned, .inr ⟨command, args, rfl, ‹_›⟩⟩
  refine hcheck.tryBind ?_
  intro tr' name hname
  obtain ⟨rfl, hchecked⟩ := hname
  have hin : name ∈ allowedCommands ∧ name = R.upper (R.strip command) := by
    simp only [checkCommandAllowed] at hchecked
    split at hchecked <;> cases hchecked
    exact ⟨‹_›, rfl⟩
  refine ⟨⟨hin.1, command, permitted, rfl, hin.2, hlearned⟩, ?_⟩
  intro reply
  cases reply with
  | error text => trivial
  | ok reply =>
    exact ⟨command, args, permitted, name, reply, rfl, hlearned.later fun e he => List.mem_append_left _ he, hchecked,
      List.mem_append_right _ (List.mem_singleton_self _), rfl⟩

/-- What every request sends is allowed, and its answer is what it was told. -/
theorem handle_ensures (R : Env) (now : Datetime) (req : Request) :
    Ensures (Allowed R req) history (Answered R now req) [] (handle R now req).run := by
  have hweaken : ∀ {p : Handler Response}, Ensures (Allowed R req) history
      (Outcome (fun tr a => Answered R now req tr (.ok a)) fun tr e => Answered R now req tr (.error e)) [] p.run →
      Ensures (Allowed R req) history (Answered R now req) [] p.run := by
    intro p hp
    refine hp.weaken ?_
    intro tr r hr
    cases r <;> exact hr
  cases req with
  | live => exact .inl rfl
  | ready =>
    refine ⟨rfl, ?_⟩
    intro reply
    cases reply <;> exact .inr rfl
  | catalog apiKey => exact hweaken ((getCatalog_ensures apiKey).tryBind fun _ _ h => h)
  | records r => exact hweaken ((getRecords_ensures r).tryBind fun _ _ h => h)
  | command apiKey command args => exact hweaken ((runRedisCommand_ensures apiKey command args).tryBind fun _ _ h => h)

theorem trace_allowed {req : Request} {pre post : Trace} {c : Command} {reply : ReplyTo c}
    {rest : Program Command ReplyTo (Except Failure Response)}
    (h : Program.Trace (handle R now req).run (pre ++ ⟨c, reply⟩ :: post) rest) : Allowed R req pre c := by
  have hissue := (handle_ensures R now req).issues h
  rwa [Program.noted_history, List.nil_append] at hissue

theorem trace_answered {req : Request} {tr : Trace} {result : Except Failure Response}
    (h : Program.Trace (handle R now req).run tr (.done result)) : Answered R now req tr result := by
  have hresult := (handle_ensures R now req).result h
  rwa [Program.noted_history, List.nil_append] at hresult

/-- Whatever Redis replies to a request, whenever: the set of the caller's key is asked for
    first, and each other command, but the PING of `/health/ready`, is a reading one that it was
    found to permit; and the answer is made of what was replied after that, or is a 401 where no
    set was found, or a 403 where it does not permit this. -/
theorem only_authorised_reads (R : Env) (now : Datetime) (req : Request) {tr : Trace}
    {rest : Program Command ReplyTo (Except Failure Response)} (h : Program.Trace (handle R now req).run tr rest) :
    (∀ pre c reply post, tr = pre ++ ⟨c, reply⟩ :: post → Allowed R req pre c) ∧
      ∀ result, rest = .done result → Answered R now req tr result := by
  constructor
  · intro pre c reply post htr
    subst htr
    exact trace_allowed h
  · intro result hrest
    subst hrest
    exact trace_answered h

/-! ## One command -/

def helloEnv : Env where
  toRuntime := helloRuntime
  strip := id
  upper text := text.map Char.toUpper
  server := {}
  daemons := [⟨"prod-a", "10.0.0.1", "root", .ssh, [], true⟩]

/-- `get x`, asked with `key-1`. -/
def helloGet : Request := .command (some "key-1") "get" ["x"]

/-- It is sent when the sample record was made. -/
def helloNow : Datetime := (Record.log helloLog).ts

def helloTold : Trace := [⟨.smembers (authKey helloRuntime.sha256 "key-1"), .ok ["prod-a"]⟩, ⟨.execute "GET" ["x"], .ok .none⟩]

theorem hello_trace :
    Program.Trace (handle helloEnv helloNow helloGet).run helloTold (.done (.ok (.result .none))) := by
  have hkey : ("key-1" : String) ≠ "" := by decide
  have hname : checkCommandAllowed helloEnv "get" = .ok "GET" := by decide +kernel
  show Program.Trace (handle helloEnv helloNow (.command (some "key-1") "get" ["x"])).run _ _
  simp only [handle, runRedisCommand, getPermittedDaemons, permittedDaemons, hkey, if_false, hname]
  exact .call _ (.call _ (.here _))

/-- It is sent after the key's set was found, and answered with the reply. -/
theorem hello_get_is_authorised :
    Allowed helloEnv helloGet [⟨.smembers (authKey helloRuntime.sha256 "key-1"), .ok ["prod-a"]⟩] (.execute "GET" ["x"]) ∧
      Answered helloEnv helloNow helloGet helloTold (.ok (.result .none)) := by
  obtain ⟨hallowed, hanswered⟩ := only_authorised_reads helloEnv helloNow helloGet hello_trace
  exact ⟨hallowed _ _ _ [] rfl, hanswered _ rfl⟩

end LogSump.Server.Api
