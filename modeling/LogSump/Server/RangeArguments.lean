/-
  LogSump.Server.RangeArguments — what `fetch_kind_page` gives to `XRANGE`.

  A time is written as its milliseconds, a cursor as it came, and the limit as the smaller of
  the request's and the largest page. Nothing looks at the sign of a time or of the limit, or
  into the cursor.

  - `fetchKindPage_args`: a page in terms of the arguments.
  - `range_arguments_iff`: for which requests the arguments of every kind asked for are
    valid; these never end in a Redis error.
  - `redis_refuses_accepted_requests`: three requests that do.
-/

import LogSump.Server.MixedOffsets

namespace LogSump.Server

open Common Python Redis Foundation

structure RangeArgs where
  min : String
  max : String
  count : Int

/-- Redis reads both ends, and the count is at least 1 and at most a page. -/
structure RangeArgs.Valid (pageSizeMax : Int) (args : RangeArgs) : Prop where
  min : (parseLower args.min).isSome
  max : (parseUpper args.max).isSome
  count : 1 ≤ args.count
  count_le : args.count ≤ pageSizeMax

def rangeArgs (ms : Datetime → Option Int) (start end_ : Datetime) (cursor : Option String) (limit : Int) :
    Except Failure RangeArgs := do
  let min ← rangeStart ms start cursor
  let max ← idCeiling ms end_
  .ok ⟨min, max, limit⟩

/-- The arguments of a request's `XRANGE` for one kind. -/
def requestArgs (R : Runtime) (settings : ServerConfig) (now : Datetime) (req : RecordsRequest) (kind : Kind) :
    Except Failure RangeArgs := do
  let start ← requestStart now req
  rangeArgs (·.millis R.zone) start (req.end_.getD now) (req.cursor kind) (effectiveLimit settings req.limit)

/-- Each kind that is asked for is read with valid arguments. -/
def ArgumentsValid (R : Runtime) (settings : ServerConfig) (now : Datetime) (req : RecordsRequest) : Prop :=
  ∀ kind, req.kind.includes kind → ∃ args, requestArgs R settings now req kind = .ok args ∧ args.Valid settings.pageSizeMax

/-- Not before the millisecond of 1970-01-01T00:00:00Z. -/
def Since1970 (ms : Datetime → Option Int) (dt : Datetime) : Prop := ∃ m ∈ ms dt, 0 ≤ m

/-- A cursor that is not empty takes the place of the start. -/
def ValidStart (ms : Datetime → Option Int) (start : Datetime) (cursor : Option String) : Prop :=
  ValidCursor cursor ∧ (cursor.getD "" = "" → Since1970 ms start)

theorem fetchKindPage_args (A : RecordAdapter) (ms : Datetime → Option Int) (db : Store) (dockerHost : String) (kind : Kind)
    (start end_ : Datetime) (cursor : Option String) (limit : Int) :
    fetchKindPage A ms db dockerHost kind start end_ cursor limit = (do
      let args ← rangeArgs ms start end_ cursor limit
      match xrange db (streamKey dockerHost kind) args.min args.max args.count with
      | .error e => .error (.redis e)
      | .ok rawEntries => pageOf A rawEntries limit) := by
  unfold fetchKindPage rangeArgs
  cases rangeStart ms start cursor with
  | error e => rfl
  | ok min => cases idCeiling ms end_ <;> rfl

/-! ## Each argument -/

theorem idCeiling_valid_iff {ms : Datetime → Option Int} (hb : Bounded ms) {dt : Datetime} :
    (∃ text, idCeiling ms dt = .ok text ∧ (parseUpper text).isSome) ↔ Since1970 ms dt := by
  cases hm : ms dt with
  | none => simp [idCeiling, Since1970, hm]
  | some m =>
    by_cases h0 : 0 ≤ m
    · refine iff_of_true ?_ ⟨m, hm, h0⟩
      obtain ⟨i, hi⟩ : ∃ i, timeId ms maxU64 dt = some i := ⟨_, by rw [timeId, hm, Option.bind_some, dif_pos ⟨h0, hb dt m hm⟩]⟩
      exact ⟨_, idCeiling_text hb hi, by rw [parseUpper_print]; rfl⟩
    · apply iff_of_false
      · intro h
        obtain ⟨text, ht, hsome⟩ := h
        simp only [idCeiling, hm, Except.ok.injEq] at ht
        rw [← ht, String.append_assoc, parseUpper_neg (not_le.mp h0)] at hsome
        cases hsome
      · intro h
        obtain ⟨n, hn, hn0⟩ := h
        exact h0 (Option.some.inj (hm.symm.trans hn) ▸ hn0)

theorem idFloor_valid_iff {ms : Datetime → Option Int} (hb : Bounded ms) {dt : Datetime} :
    (∃ text, idFloor ms dt = .ok text ∧ (parseLower text).isSome) ↔ Since1970 ms dt := by
  cases hm : ms dt with
  | none => simp [idFloor, Since1970, hm]
  | some m =>
    by_cases h0 : 0 ≤ m
    · refine iff_of_true ?_ ⟨m, hm, h0⟩
      obtain ⟨i, hi⟩ : ∃ i, timeId ms 0 dt = some i := ⟨_, by rw [timeId, hm, Option.bind_some, dif_pos ⟨h0, hb dt m hm⟩]⟩
      exact ⟨_, idFloor_text hb hi, by rw [parseLower_print]; rfl⟩
    · apply iff_of_false
      · intro h
        obtain ⟨text, ht, hsome⟩ := h
        simp only [idFloor, hm, Except.ok.injEq] at ht
        rw [← ht, parseLower_neg (not_le.mp h0)] at hsome
        cases hsome
      · intro h
        obtain ⟨n, hn, hn0⟩ := h
        exact h0 (Option.some.inj (hm.symm.trans hn) ▸ hn0)

theorem parseLower_cursor_iff (c : String) :
    (parseLower ("(" ++ c)).isSome ↔ ∃ i ∈ StreamId.parse 0 c, i ≠ maxId := by
  have ht : ("(" ++ c).toList = '(' :: c.toList := by simp
  simp only [parseLower, ht, String.ofList_toList]
  cases StreamId.parse 0 c with
  | none => simp
  | some i => by_cases h : i = maxId <;> simp [h]

theorem rangeStart_valid_iff {ms : Datetime → Option Int} (hb : Bounded ms) {start : Datetime} {cursor : Option String} :
    (∃ text, rangeStart ms start cursor = .ok text ∧ (parseLower text).isSome) ↔ ValidStart ms start cursor := by
  cases cursor with
  | none =>
    have hcursor : ValidCursor none := fun c hc => by cases hc
    exact (idFloor_valid_iff hb).trans ⟨fun h => ⟨hcursor, fun _ => h⟩, fun h => h.2 rfl⟩
  | some c =>
    by_cases hc : c = ""
    · subst hc
      have hcursor : ValidCursor (some "") := fun c hc hne => absurd (Option.some.inj hc).symm hne
      exact (idFloor_valid_iff hb).trans ⟨fun h => ⟨hcursor, fun _ => h⟩, fun h => h.2 rfl⟩
    · have hstart : rangeStart ms start (some c) = .ok ("(" ++ c) := if_neg hc
      have hcursor : ValidCursor (some c) ↔ ∃ i ∈ StreamId.parse 0 c, i ≠ maxId :=
        ⟨fun h => h c rfl hc, fun h d hd _ => by cases hd; exact h⟩
      constructor
      · intro ⟨text, ht, hsome⟩
        rw [hstart] at ht
        cases ht
        exact ⟨hcursor.mpr ((parseLower_cursor_iff c).mp hsome), fun he => absurd he hc⟩
      · intro h
        exact ⟨_, hstart, (parseLower_cursor_iff c).mpr (hcursor.mp h.1)⟩

theorem effectiveLimit_valid_iff {settings : ServerConfig} (hdefault : 0 < settings.pageSizeDefault)
    (hmax : 0 < settings.pageSizeMax) (limit : Option Int) :
    1 ≤ effectiveLimit settings limit ↔ ∀ n ∈ limit, 0 ≤ n := by
  unfold effectiveLimit
  cases limit with
  | none => simp; omega
  | some n =>
    by_cases hn : n = 0
    · simp [hn]; omega
    · simp [hn]; omega

theorem rangeArgs_valid_iff {ms : Datetime → Option Int} (hb : Bounded ms) {start end_ : Datetime} {cursor : Option String}
    {limit pageSizeMax : Int} (hle : limit ≤ pageSizeMax) :
    (∃ args, rangeArgs ms start end_ cursor limit = .ok args ∧ args.Valid pageSizeMax) ↔
      ValidStart ms start cursor ∧ Since1970 ms end_ ∧ 1 ≤ limit := by
  rw [← rangeStart_valid_iff hb, ← idCeiling_valid_iff hb]
  unfold rangeArgs
  constructor
  · intro ⟨args, ha, hv⟩
    obtain ⟨min, hmin, ha⟩ := bind_eq_ok ha
    obtain ⟨max, hmax, ha⟩ := bind_eq_ok ha
    cases ha
    exact ⟨⟨min, hmin, hv.min⟩, ⟨max, hmax, hv.max⟩, hv.count⟩
  · intro ⟨⟨min, hmin, hlo⟩, ⟨max, hmax, hhi⟩, hcount⟩
    refine ⟨⟨min, max, limit⟩, ?_, hlo, hhi, hcount, hle⟩
    rw [hmin, ok_bind, hmax, ok_bind]

/-! ## A request -/

/-- The keys that a request reads hold what they are for. -/
structure WellTyped (R : Runtime) (db : Store) : Prop where
  streams : ∀ h k, ∃ s, streamAt db (streamKey h k) = .ok s
  keys : ∀ a, ∃ members, setAt db (authKey R.sha256 a) = .ok members

theorem pageOf_not_redis {A : RecordAdapter} {raw : List (StreamId × Fields)} {limit : Int} {e : RedisError} :
    pageOf A raw limit ≠ .error (.redis e) := by
  simp only [pageOf]
  split
  · split <;> simp
  · simp

/-- With valid arguments, a stream is read. -/
theorem xrange_valid {db : Store} {key : String} {s : Redis.Stream Fields} (hs : streamAt db key = .ok s) {args : RangeArgs}
    {pageSizeMax : Int} (hv : args.Valid pageSizeMax) : ∃ raw, xrange db key args.min args.max args.count = .ok raw := by
  obtain ⟨lo, hlo⟩ := Option.isSome_iff_exists.mp hv.min
  obtain ⟨hi, hhi⟩ := Option.isSome_iff_exists.mp hv.max
  have hcount := hv.count
  have hn : ¬ args.count < 1 := by omega
  refine ⟨s.xrange lo hi args.count.toNat, ?_⟩
  simp only [xrange, hn, if_false, hlo, hhi, hs, Except.map]

variable {R : Runtime} {settings : ServerConfig} {now : Datetime}

theorem kindPage_not_redis {db : Store} (hdb : WellTyped R db) {req : RecordsRequest} {start : Datetime}
    (hstart : requestStart now req = .ok start) {kind : Kind}
    (h : req.kind.includes kind → ∃ args, requestArgs R settings now req kind = .ok args ∧ args.Valid settings.pageSizeMax)
    {e : RedisError} : kindPage R settings now db req start kind ≠ .error (.redis e) := by
  unfold kindPage
  split
  · rename_i hk
    obtain ⟨args, ha, hv⟩ := h hk
    rw [requestArgs, hstart, ok_bind] at ha
    obtain ⟨s, hs⟩ := hdb.streams req.dockerHost kind
    obtain ⟨raw, hraw⟩ := xrange_valid hs hv
    rw [fetchKindPage_args, ha, ok_bind, hraw]
    exact pageOf_not_redis
  · intro he
    cases he

theorem getPermittedDaemons_not_redis {db : Store} (hdb : WellTyped R db) (apiKey : Option String) {e : RedisError} :
    getPermittedDaemons R db apiKey ≠ .error (.redis e) := by
  cases apiKey with
  | none => simp [getPermittedDaemons]
  | some key =>
    obtain ⟨members, hm⟩ := hdb.keys key
    by_cases hk : key = ""
    · simp [getPermittedDaemons, hk]
    · by_cases hempty : members = [] <;> simp [getPermittedDaemons, permittedDaemons, hk, smembers, hm, hempty]

theorem requestStart_not_redis {req : RecordsRequest} {e : RedisError} : requestStart now req ≠ .error (.redis e) := by
  unfold requestStart
  cases req.start with
  | some start => simp
  | none => cases now.minus hour <;> simp

theorem answer_not_redis {req : RecordsRequest} {logs metrics : Page} {e : RedisError} :
    answer R req logs metrics ≠ .error (.redis e) := by
  unfold answer
  split <;> simp

theorem getRecords_not_redis {db : Store} (hdb : WellTyped R db) {req : RecordsRequest}
    (h : ArgumentsValid R settings now req) (e : RedisError) : getRecords R settings now db req ≠ .error (.redis e) := by
  unfold getRecords
  intro he
  rcases bind_eq_error he with hp | ⟨permitted, -, he⟩
  · exact getPermittedDaemons_not_redis hdb req.apiKey hp
  rcases bind_eq_error he with hacc | ⟨-, -, he⟩
  · unfold requireDaemonAccess at hacc
    split at hacc <;> cases hacc
  rcases bind_eq_error he with hs | ⟨start, hs, he⟩
  · exact requestStart_not_redis hs
  rcases bind_eq_error he with hl | ⟨logs, -, he⟩
  · exact kindPage_not_redis hdb hs (h .log) hl
  rcases bind_eq_error he with hm | ⟨metrics, -, he⟩
  · exact kindPage_not_redis hdb hs (h .metric) hm
  · exact answer_not_redis he

/-- For a request and positive page sizes: the arguments of each kind asked for are valid
    exactly where the limit is not negative, the end is not before 1970, the cursor of each of
    these kinds is a stream ID other than the last one, and, where one of them has none, the
    start is not before 1970 either. Over keys that hold what they are for, a request with
    valid arguments never ends in a Redis error. -/
theorem range_arguments_iff (R : Runtime) (settings : ServerConfig) (now : Datetime) (req : RecordsRequest)
    (hdefault : 0 < settings.pageSizeDefault) (hmax : 0 < settings.pageSizeMax) :
    (ArgumentsValid R settings now req ↔
      ∃ start, requestStart now req = .ok start ∧ (∀ n ∈ req.limit, 0 ≤ n) ∧
        Since1970 (·.millis R.zone) (req.end_.getD now) ∧
        ∀ kind, req.kind.includes kind → ValidStart (·.millis R.zone) start (req.cursor kind)) ∧
      ∀ db, WellTyped R db → ArgumentsValid R settings now req → ∀ e, getRecords R settings now db req ≠ .error (.redis e) := by
  have hb := bounded_millis R.zone
  have hle : effectiveLimit settings req.limit ≤ settings.pageSizeMax := min_le_right _ _
  have hsome : ∃ kind, req.kind.includes kind := by
    cases req.kind with
    | both => exact ⟨.log, rfl⟩
    | log => exact ⟨.log, rfl⟩
    | metric => exact ⟨.metric, rfl⟩
  refine ⟨?_, fun db hdb h e => getRecords_not_redis hdb h e⟩
  unfold ArgumentsValid requestArgs
  cases hs : requestStart now req with
  | error f =>
    obtain ⟨kind, hk⟩ := hsome
    constructor
    · intro h
      obtain ⟨args, ha, -⟩ := h kind hk
      cases ha
    · intro hargs
      obtain ⟨start, h, -⟩ := hargs
      cases h
  | ok start =>
    simp only [ok_bind, rangeArgs_valid_iff hb hle, effectiveLimit_valid_iff hdefault hmax]
    constructor
    · intro h
      obtain ⟨kind, hk⟩ := hsome
      exact ⟨start, rfl, (h kind hk).2.2, (h kind hk).2.1, fun kind hk => (h kind hk).1⟩
    · intro hargs
      obtain ⟨start', hs', hlimit, hend, hstart⟩ := hargs
      intro kind hk
      cases hs'
      exact ⟨hstart kind hk, hend, hlimit⟩

/-- A start of 1970 and an end ten seconds later, no cursors and no limit. -/
theorem the_arguments_of_a_plain_request_are_valid : ArgumentsValid helloRuntime {} tenSeconds prodRequest := by
  have hstart : Since1970 (·.millis helloRuntime.zone) epoch :=
    ⟨0, Datetime.millis_seconds .utc (s := 0) rfl rfl, by decide⟩
  have hend : Since1970 (·.millis helloRuntime.zone) tenSeconds :=
    ⟨10000, Datetime.millis_seconds .utc (s := 10) rfl rfl, by decide⟩
  have hcursor : ∀ kind, ValidCursor (prodRequest.cursor kind) := fun kind c h => by cases kind <;> cases h
  have hlimit : ∀ n ∈ prodRequest.limit, 0 ≤ n := fun n hn => by cases hn
  exact (range_arguments_iff helloRuntime {} tenSeconds prodRequest (by decide) (by decide)).1.mpr
    ⟨epoch, rfl, hlimit, hend, fun kind _ => ⟨hcursor kind, fun _ => hstart⟩⟩

/-! ## Requests that Redis refuses -/

def negativeLimit : RecordsRequest := { prodRequest with limit := some (-1) }

/-- From the last second of 1969 on. -/
def beforeTheEpoch : RecordsRequest := { prodRequest with start := some (.utc (-1000000) (by decide)) }

/-- With a cursor that no page gave out. -/
def madeUpCursor : RecordsRequest := { prodRequest with logCursor := some "abc" }

def failure? : Except Failure RecordsPage → Option Failure
  | .error e => some e
  | .ok _ => none

theorem eq_error_of_failure? {x : Except Failure RecordsPage} {e : Failure} (h : failure? x = some e) : x = .error e := by
  cases x with
  | error e' =>
    cases h
    rfl
  | ok page => cases h

/-- Each of the three ends in a Redis error, over a store with nothing in it but the caller's
    key. -/
theorem redis_refuses_accepted_requests :
    getRecords helloRuntime {} tenSeconds helloKeys negativeLimit = .error (.redis .badCount) ∧
      getRecords helloRuntime {} tenSeconds helloKeys beforeTheEpoch = .error (.redis .invalidStreamId) ∧
      getRecords helloRuntime {} tenSeconds helloKeys madeUpCursor = .error (.redis .invalidStreamId) := by
  refine ⟨?_, ?_, ?_⟩ <;> apply eq_error_of_failure? <;> decide +kernel

end LogSump.Server
