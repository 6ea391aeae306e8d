/-
  LogSump.Server.Process — the background work of a log-server process on one Redis, command
  by command: the ingestion consumer, the retention trimmer, the producers' pushes and the
  provisioning of API keys, in any order.

  Beyond the failures of `LogSump.Server.Consumer`, a pipeline whose reply is lost may be sent
  a second time by the client library.

  - `step_effect`: what one step does to the store, and which event does it.
  - `reach_inv`: in every reachable state each key holds a value of its own type, and the
    consumer has commands for streams only.
  - `no_command_meets_a_foreign_type`: so no command of the process is refused for a type.
-/

import LogSump.Server.Trimmer

namespace LogSump.Server

open Common Redis Foundation

namespace Process

/-- One `_trim_stream` of a sweep. -/
structure Call where
  dockerHost : String
  kind : Kind
  minidMs : Int
  deriving DecidableEq

structure St where
  db : Store
  consumer : Consumer.Pc := .idle
  /-- What the last pipeline was queued with, until the next BLPOP. -/
  pipeline : List Consumer.Command := []
  pushed : List String
  /-- The calls that are left of the sweep. -/
  calls : List Call := []

inductive Ev where
  | ingest (e : Consumer.Ev)
  /-- The client sends the pipeline again, from its first command. -/
  | resend
  | sweep (nowMs : Int)
  | trim
  | trimFails
  | provision (apiKey : String) (daemons : List String)
  deriving DecidableEq

structure Config where
  adapter : RecordAdapter
  sha256 : String → String
  batchSize : Int
  daemonIds : List String
  retentionDays : Int
  metricsRetentionDays : Int

variable (C : Config)

/-- The calls of a sweep, in their order. -/
def callsOf (nowMs : Int) : List Call :=
  let r : Trimmer.Retention := ⟨nowMs, C.retentionDays, C.metricsRetentionDays⟩
  C.daemonIds.flatMap fun h => [⟨h, .log, r.minid .log⟩, ⟨h, .metric, r.minid .metric⟩]

/-- A new batch queues a new pipeline; the next BLPOP and a failure leave none. -/
def pipelineAfter (s : St) (e : Consumer.Ev) (pc : Consumer.Pc) : List Consumer.Command :=
  match e with
  | .lpop => pc.pending
  | .push _ | .lpopLost | .xadd _ => s.pipeline
  | _ => []

def putSet (db : Store) (key : String) (xs : List String) : Store :=
  Function.update db key (if xs = [] then none else some (.set xs))

def step (s : St) : Ev → Option St
  | .ingest e =>
    (Consumer.step C.adapter C.batchSize ⟨s.db, s.consumer, s.pushed⟩ e).map fun c =>
      { s with db := c.db, consumer := c.pc, pushed := c.pushed, pipeline := pipelineAfter s e c.pc }
  | .resend =>
    match s.consumer with
    | .popped _ => none
    | _ => if s.pipeline = [] then none else some { s with consumer := Consumer.execute s.pipeline }
  | .sweep nowMs => if s.calls = [] then some { s with calls := callsOf C nowMs } else none
  | .trim =>
    match s.calls with
    | [] => none
    | c :: calls => some { s with db := (Trimmer.trimStream false s.db c.dockerHost c.kind c.minidMs).1, calls }
  | .trimFails =>
    match s.calls with
    | [] => none
    | _ :: calls => some { s with calls }
  | .provision apiKey daemons => some { s with db := putSet s.db (authKey C.sha256 apiKey) daemons }

/-- Every key of log-sump holds a value of its own type, or nothing. -/
structure Typed (sha256 : String → String) (db : Store) : Prop where
  list : ∃ xs, listAt db ingestList = .ok xs
  streams : ∀ h k, ∃ t, streamAt db (streamKey h k) = .ok t
  sets : ∀ a, ∃ xs, setAt db (authKey sha256 a) = .ok xs

def machine : Machine St Ev where
  init s := Typed C.sha256 s.db ∧ s.consumer = .idle ∧ s.pipeline = [] ∧ s.calls = [] ∧ listAt s.db ingestList = .ok s.pushed
  step := step C

variable {C}

/-! ## The ways through a step -/

/-- Each with its guard and the state it leaves. -/
inductive Moves (C : Config) (s : St) : Ev → St → Prop where
  | ingest (e : Consumer.Ev) (c : Consumer.St) : Consumer.Moves C.adapter C.batchSize ⟨s.db, s.consumer, s.pushed⟩ e c →
      Moves C s (.ingest e)
        { s with db := c.db, consumer := c.pc, pushed := c.pushed, pipeline := pipelineAfter s e c.pc }
  | resend : s.consumer.inHand = [] → s.pipeline ≠ [] → Moves C s .resend { s with consumer := Consumer.execute s.pipeline }
  | sweep (nowMs : Int) : s.calls = [] → Moves C s (.sweep nowMs) { s with calls := callsOf C nowMs }
  | trim (c : Call) (calls : List Call) : s.calls = c :: calls →
      Moves C s .trim { s with db := (Trimmer.trimStream false s.db c.dockerHost c.kind c.minidMs).1, calls }
  | trimFails (c : Call) (calls : List Call) : s.calls = c :: calls → Moves C s .trimFails { s with calls }
  | provision (apiKey : String) (daemons : List String) :
      Moves C s (.provision apiKey daemons) { s with db := putSet s.db (authKey C.sha256 apiKey) daemons }

theorem step_moves {s s' : St} {e : Ev} (h : step C s e = some s') : Moves C s e s' := by
  cases e with
  | ingest e =>
    obtain ⟨c, hc, rfl⟩ := Option.map_eq_some_iff.mp h
    exact .ingest e c (Consumer.step_moves hc)
  | resend =>
    simp only [step] at h
    split at h
    · cases h
    · rename_i hpc
      split at h <;> cases h
      refine .resend ?_ ‹_›
      cases hc : s.consumer with
      | popped first => exact absurd hc (hpc first)
      | _ => rfl
  | sweep nowMs =>
    simp only [step] at h
    split at h <;> cases h
    exact .sweep nowMs ‹_›
  | trim =>
    simp only [step] at h
    split at h <;> cases h
    exact .trim _ _ ‹_›
  | trimFails =>
    simp only [step] at h
    split at h <;> cases h
    exact .trimFails _ _ ‹_›
  | provision a xs =>
    cases h
    exact .provision a xs

/-! ## What a step does to the store -/

inductive Action where
  | nothing
  /-- The ingest list becomes this. -/
  | list (xs : List String)
  | write (dockerHost : String) (kind : Kind) (i : StreamId) (fields : Fields)
  | expire (dockerHost : String) (kind : Kind) (minId : StreamId)
  | provision (apiKey : String) (daemons : List String)

inductive Effect (sha256 : String → String) (db : Store) : Action → Store → Prop
  | nothing : Effect sha256 db .nothing db
  | list (xs : List String) : Effect sha256 db (.list xs) (putList db ingestList xs)
  | write {h : String} {k : Kind} {t t' : Stream Fields} {clock : U64} {i : StreamId} {fields : Fields} :
      streamAt db (streamKey h k) = .ok t → t.xadd clock fields = some t' → Stream.nextId t.lastId clock = some i →
      Effect sha256 db (.write h k i fields) (putStream db (streamKey h k) t')
  | expire {h : String} {k : Kind} {t : Stream Fields} {minId : StreamId} :
      streamAt db (streamKey h k) = .ok t → Effect sha256 db (.expire h k minId) (putStream db (streamKey h k) (t.trim minId))
  | provision (a : String) (xs : List String) : Effect sha256 db (.provision a xs) (putSet db (authKey sha256 a) xs)

/-- The events that an action comes from. -/
def Causes (s : St) (e : Ev) : Action → Prop
  | .nothing => True
  | .list _ => ∃ c, e = .ingest c
  | .write h k _ fields => (∃ clock, e = .ingest (.xadd clock)) ∧ ∃ cs, s.consumer = .executing (⟨streamKey h k, fields⟩ :: cs)
  | .expire h k minId => e = .trim ∧ ∃ minidMs calls, s.calls = ⟨h, k, minidMs⟩ :: calls ∧ (minId.ms.val : Int) = minidMs ∧ minId.seq = 0
  | .provision a xs => e = .provision a xs

/-- What is known of the commands that the consumer may still send. -/
structure Queued (P : Consumer.Command → Prop) (s : St) : Prop where
  pending : ∀ c ∈ s.consumer.pending, P c
  pipeline : ∀ c ∈ s.pipeline, P c

/-- They are for streams only. -/
abbrev StreamKeys : St → Prop := Queued fun c => ∃ h k, c.key = streamKey h k

theorem trim_effect (sha256 : String → String) (db : Store) (c : Call) :
    Effect sha256 db .nothing (Trimmer.trimStream false db c.dockerHost c.kind c.minidMs).1 ∨
      ∃ minId : StreamId, (minId.ms.val : Int) = c.minidMs ∧ minId.seq = 0 ∧
        Effect sha256 db (.expire c.dockerHost c.kind minId) (Trimmer.trimStream false db c.dockerHost c.kind c.minidMs).1 := by
  unfold Trimmer.trimStream xtrim
  simp only [Bool.false_eq_true, if_false]
  cases hp : StreamId.parse 0 (toString c.minidMs) with
  | none => exact .inl .nothing
  | some i =>
    obtain ⟨hms, hseq⟩ := StreamId.parse_int hp
    cases hs : streamAt db (streamKey c.dockerHost c.kind) with
    | error e => exact .inl .nothing
    | ok t =>
      simp only [Except.map]
      by_cases hn : (db (streamKey c.dockerHost c.kind)).isNone
      · simp only [hn, if_true]
        exact .inl .nothing
      · simp only [hn]
        exact .inr ⟨i, hms, hseq, .expire hs⟩

theorem pop_effect (sha256 : String → String) {db db' : Store} (h : ∃ xs, db' = putList db ingestList xs) :
    ∃ xs, Effect sha256 db (.list xs) db' := by
  obtain ⟨xs, rfl⟩ := h
  exact ⟨xs, .list xs⟩

theorem step_effect {s s' : St} {e : Ev} (hK : StreamKeys s) (h : step C s e = some s') :
    ∃ a, Effect C.sha256 s.db a s'.db ∧ Causes s e a := by
  have hnothing : ∃ a, Effect C.sha256 s.db a s.db ∧ Causes s e a := ⟨.nothing, .nothing, trivial⟩
  cases step_moves h with
  | ingest e c hc =>
    have hlist : ∀ {db}, (∃ xs, db = putList s.db ingestList xs) →
        ∃ a, Effect C.sha256 s.db a db ∧ Causes s (.ingest e) a := by
      intro db hdb
      obtain ⟨xs, he⟩ := pop_effect C.sha256 hdb
      exact ⟨_, he, e, rfl⟩
    cases hc with
    | push _ _ hdb => exact hlist (rpush_ok hdb)
    | blpop _ _ _ hdb | blpopLost _ _ _ hdb => exact hlist (blpop_ok hdb)
    | lpop _ _ _ _ _ hdb | lpopLost _ _ _ _ _ hdb => exact hlist (lpop_ok hdb)
    | xadd clock c cs db hpc hdb =>
      obtain ⟨host, k, hk⟩ := hK.pending c (by rw [show s.consumer = .executing (c :: cs) from hpc]; exact List.mem_cons_self)
      obtain ⟨t, t', ht, hadd, rfl⟩ := xadd_ok hdb
      obtain ⟨i, hi, -⟩ := Stream.xadd_entries hadd
      obtain ⟨key, fields⟩ := c
      simp only at hk
      subst hk
      exact ⟨.write host k i fields, .write ht hadd hi, ⟨clock, rfl⟩, cs, hpc⟩
    | _ => exact hnothing
  | resend _ _ => exact hnothing
  | sweep _ _ => exact hnothing
  | trim c calls hcalls =>
    rcases trim_effect C.sha256 s.db c with he | ⟨minId, hms, hseq, he⟩
    · exact ⟨.nothing, he, trivial⟩
    · exact ⟨_, he, rfl, c.minidMs, calls, hcalls, hms, hseq⟩
  | trimFails _ _ _ => exact hnothing
  | provision a xs => exact ⟨_, .provision a xs, rfl⟩

/-! ## The consumer's commands -/

/-- What holds of all commands that a batch gives holds of those that are queued. -/
theorem step_queued {P : Consumer.Command → Prop} (hP : ∀ batch, ∀ c ∈ Consumer.commands C.adapter batch, P c) {s s' : St}
    {e : Ev} (hQ : Queued P s) (h : step C s e = some s') : Queued P s' := by
  have hnone : ∀ c ∈ ([] : List Consumer.Command), P c := fun c hc => by cases hc
  have hexecute : ∀ {cs : List Consumer.Command}, (∀ c ∈ cs, P c) → ∀ c ∈ (Consumer.execute cs).pending, P c := by
    intro cs hcs c hc
    rw [(Consumer.pending_execute cs).1] at hc
    exact hcs c hc
  have hrest : ∀ {c cs}, s.consumer = .executing (c :: cs) → ∀ d ∈ (Consumer.execute cs).pending, P d := by
    intro c cs hpc
    exact hexecute fun d hd => hQ.pending d (by rw [hpc]; exact List.mem_cons_of_mem _ hd)
  cases step_moves h with
  | ingest e c hc =>
    cases hc with
    | push _ _ _ => exact ⟨hQ.pending, hQ.pipeline⟩
    | nothing e he _ => rcases he with rfl | rfl <;> exact ⟨hQ.pending, hnone⟩
    | blpop _ _ _ _ => exact ⟨hnone, hnone⟩
    | lpop _ _ _ _ _ _ => exact ⟨hexecute (hP _), hexecute (hP _)⟩
    | single _ _ _ => exact ⟨hexecute (hP _), hexecute (hP _)⟩
    | lpopError _ _ _ _ => exact ⟨hnone, hnone⟩
    | lpopFails _ _ => exact ⟨hnone, hnone⟩
    | blpopLost _ _ _ _ => exact ⟨hQ.pending, hnone⟩
    | lpopLost _ _ _ _ _ _ => exact ⟨hQ.pending, hQ.pipeline⟩
    | xadd _ _ _ _ hpc _ => exact ⟨hrest hpc, hQ.pipeline⟩
    | xaddError _ _ _ _ hpc _ => exact ⟨hrest hpc, hQ.pipeline⟩
    | executeFails _ _ => exact ⟨hnone, hnone⟩
  | resend _ _ => exact ⟨hexecute hQ.pipeline, hQ.pipeline⟩
  | _ => exact ⟨hQ.pending, hQ.pipeline⟩

theorem init_queued {P : Consumer.Command → Prop} {s : St} (h : (machine C).init s) : Queued P s := by
  obtain ⟨-, hidle, hpipeline, -, -⟩ := h
  constructor
  · rw [hidle]
    intro c hc
    cases hc
  · rw [hpipeline]
    intro c hc
    cases hc

theorem step_streamKeys {s s' : St} {e : Ev} (hK : StreamKeys s) (h : step C s e = some s') : StreamKeys s' :=
  step_queued (fun _ _ hc => Consumer.key_of_mem_commands hc) hK h

/-! ## The types of the keys -/

theorem putSet_same (db : Store) (key : String) (xs : List String) : setAt (putSet db key xs) key = .ok xs := by
  by_cases h : xs = [] <;> simp [setAt, putSet, h]

theorem putSet_other (db : Store) {key k : String} (xs : List String) (h : k ≠ key) : putSet db key xs k = db k := by
  simp [putSet, h]

theorem authKey_ne_ingestList (sha256 : String → String) (a : String) : authKey sha256 a ≠ ingestList :=
  ne_of_eighth (authKey_eighth sha256 a) ingestList_eighth (by decide)

/-- A value at one key, of the right type, leaves the others as they are. -/
theorem Typed.putStream {sha256 : String → String} {db : Store} (hT : Typed sha256 db) (h : String) (k : Kind)
    (t : Stream Fields) : Typed sha256 (putStream db (streamKey h k) t) where
  list := by
    rw [listAt_congr (putStream_other db t (streamKey_ne_ingestList h k).symm)]
    exact hT.list
  streams h' k' := by
    by_cases hk : streamKey h' k' = streamKey h k
    · exact ⟨t, hk ▸ putStream_same db _ t⟩
    · rw [streamAt_congr (putStream_other db t hk)]
      exact hT.streams h' k'
  sets a := by
    rw [setAt_congr (putStream_other db t (streamKey_ne_authKey h k sha256 a).symm)]
    exact hT.sets a

theorem Typed.putList {sha256 : String → String} {db : Store} (hT : Typed sha256 db) (xs : List String) :
    Typed sha256 (putList db ingestList xs) where
  list := ⟨xs, putList_same db _ xs⟩
  streams h k := by
    rw [streamAt_congr (putList_other db xs (streamKey_ne_ingestList h k))]
    exact hT.streams h k
  sets a := by
    rw [setAt_congr (putList_other db xs (authKey_ne_ingestList sha256 a))]
    exact hT.sets a

theorem Typed.putSet {sha256 : String → String} {db : Store} (hT : Typed sha256 db) (a : String) (xs : List String) :
    Typed sha256 (putSet db (authKey sha256 a) xs) where
  list := by
    rw [listAt_congr (putSet_other db xs (authKey_ne_ingestList sha256 a).symm)]
    exact hT.list
  streams h k := by
    rw [streamAt_congr (putSet_other db xs (streamKey_ne_authKey h k sha256 a))]
    exact hT.streams h k
  sets a' := by
    by_cases hk : authKey sha256 a' = authKey sha256 a
    · exact ⟨xs, hk ▸ putSet_same db _ xs⟩
    · rw [setAt_congr (putSet_other db xs hk)]
      exact hT.sets a'

theorem Effect.typed {sha256 : String → String} {db db' : Store} {a : Action} (hT : Typed sha256 db)
    (h : Effect sha256 db a db') : Typed sha256 db' := by
  cases h with
  | nothing => exact hT
  | list xs => exact hT.putList xs
  | write _ _ _ => exact hT.putStream _ _ _
  | expire _ => exact hT.putStream _ _ _
  | provision a xs => exact hT.putSet a xs

structure Inv (C : Config) (s : St) : Prop where
  typed : Typed C.sha256 s.db
  keys : StreamKeys s

theorem init_inv {s : St} (h : (machine C).init s) : Inv C s := ⟨h.1, init_queued h⟩

theorem step_inv {s s' : St} {e : Ev} (hI : Inv C s) (h : step C s e = some s') : Inv C s' := by
  obtain ⟨a, he, -⟩ := step_effect hI.keys h
  exact ⟨he.typed hI.typed, step_streamKeys hI.keys h⟩

theorem reach_inv {s : St} (h : (machine C).Reach s) : Inv C s :=
  h.inv (fun _ => init_inv) fun _ _ _ hI hs => step_inv hI hs

/-- The commands that the process and its requests send, with the errors that Redis replies. -/
inductive Refused (C : Config) (s : St) : RedisError → Prop
  | rpush {raw : String} {error : RedisError} : rpush s.db ingestList raw = .error error → Refused C s error
  | blpop {error : RedisError} : blpop s.db ingestList = .error error → Refused C s error
  | lpop {n : Nat} {error : RedisError} : lpop s.db ingestList n = .error error → Refused C s error
  | xadd {c : Consumer.Command} {clock : U64} {error : RedisError} : c ∈ s.consumer.pending →
      xadd s.db c.key clock c.fields = .error error → Refused C s error
  | xtrim {c : Call} {error : RedisError} : xtrim s.db (streamKey c.dockerHost c.kind) c.minidMs = .error error →
      Refused C s error
  | smembers {apiKey : String} {error : RedisError} : smembers s.db (authKey C.sha256 apiKey) = .error error →
      Refused C s error
  | xrange {h : String} {k : Kind} {min max : String} {count : Int} {error : RedisError} :
      xrange s.db (streamKey h k) min max count = .error error → Refused C s error

/-- In every reachable state each key holds a value of its own type, so whatever the process
    or a request sends next, Redis does not refuse it for the type of its key. -/
theorem no_command_meets_a_foreign_type (C : Config) {s : St} (h : (machine C).Reach s) :
    Typed C.sha256 s.db ∧ ∀ error, Refused C s error → error ≠ .wrongType := by
  have hI := reach_inv h
  obtain ⟨xs, hlist⟩ := hI.typed.list
  refine ⟨hI.typed, ?_⟩
  intro error hr
  cases hr with
  | rpush hc => rw [rpush, hlist] at hc; cases hc
  | blpop hc => rw [blpop, hlist] at hc; cases hc
  | lpop hc => rw [lpop, hlist] at hc; cases hc
  | smembers hc =>
    obtain ⟨members, hset⟩ := hI.typed.sets _
    rw [smembers, hset] at hc
    cases hc
  | @xadd c _ _ hmem hc =>
    obtain ⟨host, k, hk⟩ := hI.keys.pending c hmem
    obtain ⟨t, ht⟩ := hI.typed.streams host k
    rw [xadd, hk, ht] at hc
    simp only [Except.bind] at hc
    split at hc <;> cases hc
    exact fun he => by cases he
  | @xtrim c _ hc =>
    obtain ⟨t, ht⟩ := hI.typed.streams c.dockerHost c.kind
    rw [xtrim, ht] at hc
    split at hc <;> cases hc
    exact fun he => by cases he
  | @xrange host k _ _ _ _ hc =>
    obtain ⟨t, ht⟩ := hI.typed.streams host k
    rw [xrange, ht] at hc
    split at hc
    · cases hc
      exact fun he => by cases he
    · split at hc <;> cases hc
      exact fun he => by cases he

/-! ## One record -/

def helloConfig : Config where
  adapter := helloAdapter
  sha256 := helloRuntime.sha256
  batchSize := 200
  daemonIds := ["prod-a"]
  retentionDays := 7
  metricsRetentionDays := 7

/-- One valid entry on the list, the set of `key-1`, and no stream. -/
def helloStart : St where
  db := putList helloKeys ingestList [helloText]
  pushed := [helloText]

theorem helloStart_init : (machine helloConfig).init helloStart := by
  have hkeys : Typed helloConfig.sha256 helloKeys := by
    refine ⟨⟨[], ?_⟩, fun h k => ⟨.empty, ?_⟩, fun a => ⟨["prod-a"], ?_⟩⟩
    · have hne : ingestList ≠ authKey helloRuntime.sha256 "key-1" := (authKey_ne_ingestList _ _).symm
      simp [listAt, helloKeys, hne]
    · rw [streamAt, helloKeys_stream]
    · have he : authKey helloConfig.sha256 a = authKey helloRuntime.sha256 "key-1" := rfl
      simp [setAt, helloKeys, he]
  exact ⟨hkeys.putList [helloText], rfl, rfl, rfl, putList_same _ _ _⟩

theorem helloStart_streams (h : String) (k : Kind) : helloStart.db (streamKey h k) = none := by
  show putList helloKeys ingestList [helloText] (streamKey h k) = none
  rw [putList_other _ _ (streamKey_ne_ingestList h k)]
  exact helloKeys_stream h k

/-- Its cycle. -/
def helloCycle : List Ev := [.ingest .blpop, .ingest .lpop, .ingest (.xadd 5000)]

/-- Nor while a pipeline is executed. -/
theorem a_pipeline_meets_no_foreign_type :
    ∃ s, (machine helloConfig).run helloStart [.ingest .blpop, .ingest .lpop] = some s ∧
      ∀ error, Refused helloConfig s error → error ≠ .wrongType := by
  obtain ⟨s, hs⟩ : ∃ s, (machine helloConfig).run helloStart [.ingest .blpop, .ingest .lpop] = some s :=
    Option.isSome_iff_exists.mp (by decide +kernel)
  exact ⟨s, hs, (no_command_meets_a_foreign_type helloConfig ((Machine.Reach.init helloStart_init).run hs)).2⟩

end Process

end LogSump.Server
