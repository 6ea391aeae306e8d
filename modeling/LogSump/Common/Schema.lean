/-
  LogSump.Common.Schema — the records that log-sump moves, and the adapter between a record
  and its JSON text.

  The adapter is pydantic's, a parameter here: `validateJson` accepts a text or refuses it,
  `dumpJson` writes an accepted record. What the code relies on is `KeepsIdentity`: the text
  of an accepted record is accepted again, as a record of the same daemon and kind.
-/

import LogSump.Python.Datetime
import LogSump.Transport.MergeStreams

namespace LogSump.Common

open Python

abbrev StreamName := Transport.MergeStreams.StreamName

def systemScopeId : String := "__system__"

inductive Kind where
  | log
  | metric
  deriving DecidableEq, Repr

def Kind.value : Kind → String
  | .log => "log"
  | .metric => "metric"

/-- A value of type `Any` that came out of JSON. -/
inductive Json where
  | null
  | bool (b : Bool)
  | int (n : Int)
  | float (x : PyFloat)
  | str (s : String)
  | arr (xs : List Json)
  | obj (members : List (String × Json))

structure RecordBase where
  dockerHost : String
  containerName : String
  containerId : String
  ts : Datetime
  seq : Int
  deriving DecidableEq

structure LogRecord extends RecordBase where
  stream : StreamName
  level : String
  message : String
  fields : List (String × Json) := []
  raw : String

inductive MetricScope where
  | container
  | system
  deriving DecidableEq, Repr

structure MetricRecord extends RecordBase where
  metricScope : MetricScope
  cpuPct : Option PyFloat := none
  memUsedBytes : Option Int := none
  memLimitBytes : Option Int := none
  memPct : Option PyFloat := none
  netRxBytes : Option Int := none
  netTxBytes : Option Int := none
  blkReadBytes : Option Int := none
  blkWriteBytes : Option Int := none
  pids : Option Int := none
  system : Option (List (String × Json)) := none
  source : String
  raw : Json := .null

inductive Record where
  | log (r : LogRecord)
  | metric (r : MetricRecord)

namespace Record

def base : Record → RecordBase
  | .log r => r.toRecordBase
  | .metric r => r.toRecordBase

def kind : Record → Kind
  | .log _ => .log
  | .metric _ => .metric

def dockerHost (r : Record) : String := r.base.dockerHost

def containerId (r : Record) : String := r.base.containerId

def ts (r : Record) : Datetime := r.base.ts

def seq (r : Record) : Int := r.base.seq

/-- Where its `ts`, if it has an offset, stands in time. -/
def instant (r : Record) : Int := r.ts.instant

/-- `getattr(r, "level", None)`. -/
def level? : Record → Option String
  | .log r => some r.level
  | .metric _ => none

/-- `getattr(r, "message", "")`. -/
def message : Record → String
  | .log r => r.message
  | .metric _ => ""

end Record

/-- `none` is a `ValidationError`. -/
structure RecordAdapter where
  validateJson : String → Option Record
  dumpJson : Record → String

/-- An accepted record's text is accepted, for the same daemon and kind. -/
def RecordAdapter.KeepsIdentity (A : RecordAdapter) : Prop :=
  ∀ raw r, A.validateJson raw = some r →
    ∃ r', A.validateJson (A.dumpJson r) = some r' ∧ r'.dockerHost = r.dockerHost ∧ r'.kind = r.kind

/-- An adapter that knows a few records by their texts. -/
def RecordAdapter.ofTexts (texts : List (String × Record)) : RecordAdapter where
  validateJson raw := (texts.find? (·.1 = raw)).map (·.2)
  dumpJson r := ((texts.find? fun t => t.2.base = r.base ∧ t.2.kind = r.kind).map (·.1)).getD ""

theorem RecordAdapter.ofTexts_keepsIdentity {texts : List (String × Record)}
    (h : ∀ t ∈ texts, ((ofTexts texts).validateJson ((ofTexts texts).dumpJson t.2)).any fun r' =>
      r'.dockerHost = t.2.dockerHost ∧ r'.kind = t.2.kind) : (ofTexts texts).KeepsIdentity := by
  intro raw r hr
  obtain ⟨t, ht, rfl⟩ := Option.map_eq_some_iff.mp hr
  have hdump := h t (List.mem_of_find?_eq_some ht)
  cases hv : (ofTexts texts).validateJson ((ofTexts texts).dumpJson t.2) with
  | none => simp [hv] at hdump
  | some r' => exact ⟨r', rfl, by simpa [hv] using hdump⟩

/-- A line that container web-1 of daemon prod-a wrote at 1970-01-01T00:00:05Z. -/
def helloLog : LogRecord where
  dockerHost := "prod-a"
  containerName := "web-1"
  containerId := "a1b2c3d4e5f6"
  ts := .utc 5000000 (by decide)
  seq := 1
  stream := .stdout
  level := "info"
  message := "hello"
  raw := "1970-01-01T00:00:05Z hello"

/-- Its JSON text, as `dump_json` writes it. -/
def helloText : String :=
  "\x7b\"docker_host\":\"prod-a\",\"container_name\":\"web-1\",\"container_id\":\"a1b2c3d4e5f6\"," ++
    "\"ts\":\"1970-01-01T00:00:05Z\",\"seq\":1,\"kind\":\"log\",\"stream\":\"stdout\",\"level\":\"info\"," ++
    "\"message\":\"hello\",\"fields\":\x7b\x7d,\"raw\":\"1970-01-01T00:00:05Z hello\"\x7d"

/-- A sample of the same container a second later. -/
def cpuMetric : MetricRecord where
  dockerHost := "prod-a"
  containerName := "web-1"
  containerId := "a1b2c3d4e5f6"
  ts := .utc 6000000 (by decide)
  seq := 1
  metricScope := .container
  cpuPct := some (.finite (3 / 2))
  source := "docker stats"

def cpuText : String :=
  "\x7b\"docker_host\":\"prod-a\",\"container_name\":\"web-1\",\"container_id\":\"a1b2c3d4e5f6\"," ++
    "\"ts\":\"1970-01-01T00:00:06Z\",\"seq\":1,\"kind\":\"metric\",\"metric_scope\":\"container\"," ++
    "\"cpu_pct\":1.5,\"mem_used_bytes\":null,\"mem_limit_bytes\":null,\"mem_pct\":null,\"net_rx_bytes\":null," ++
    "\"net_tx_bytes\":null,\"blk_read_bytes\":null,\"blk_write_bytes\":null,\"pids\":null,\"system\":null," ++
    "\"source\":\"docker stats\",\"raw\":null\x7d"

def helloAdapter : RecordAdapter := .ofTexts [(helloText, .log helloLog), (cpuText, .metric cpuMetric)]

end LogSump.Common
