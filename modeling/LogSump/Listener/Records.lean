/-
  LogSump.Listener.Records — the records as a listener builds them, from values that came out
  of JSON (`schema.py`). Unlike in a record that the server has read, a text may hold
  surrogates here; pydantic raises when it writes one.

  `datetime.fromisoformat`, `json.loads`, `repr` and pydantic are not in the repository; the
  first three are parameters, and so is the depth to which pydantic follows a value of type
  `Any`. Of the JSON text that pydantic writes only the failures are modelled.
-/

import LogSump.Common.Schema
import LogSump.Common.Value

namespace LogSump.Listener

open Common Python

structure Library where
  /-- `none` is a ValueError. -/
  fromisoformat : String → Option Datetime
  loads : PyStr → Except PyError PyVal
  /-- Of what is not a string. -/
  repr : PyVal → Except PyError PyStr
  maxDepth : Nat

/-- `str(v)`. -/
def Library.str (L : Library) : PyVal → Except PyError PyStr
  | .str s => .ok s
  | v => L.repr v

/-- A text that `str` gives, and pydantic writes. -/
def IsText (x : Except PyError PyStr) : Prop := ∃ text, x = .ok text ∧ text.Encodable

structure LogRecord extends RecordBase where
  stream : StreamName
  level : PyStr
  message : PyStr
  fields : List (PyStr × PyVal) := []
  raw : String

/-- One line of `docker system df`. -/
structure DiskRow where
  total : PyVal
  active : PyVal
  sizeBytes : Option Int
  reclaimableBytes : Option Int
  raw : List (PyStr × PyVal)

structure MetricRecord where
  dockerHost : String
  containerName : PyStr
  containerId : PyStr
  ts : Datetime
  seq : Nat
  metricScope : MetricScope
  cpuPct : Option PyFloat := none
  memUsedBytes : Option Int := none
  memLimitBytes : Option Int := none
  memPct : Option PyFloat := none
  netRxBytes : Option Int := none
  netTxBytes : Option Int := none
  blkReadBytes : Option Int := none
  blkWriteBytes : Option Int := none
  pids : Option Int := none
  /-- The `docker_disk_usage` of the `system` field; its keys are whatever the rows' types were. -/
  dockerDiskUsage : Option (List (PyVal × DiskRow)) := none
  source : String
  raw : PyVal := .none

/-- `RecordAdapter.dump_json` has a text for it. -/
def LogRecord.Writable (maxDepth : Nat) (r : LogRecord) : Prop :=
  r.level.Encodable ∧ r.message.Encodable ∧ ∀ m ∈ r.fields, m.1.Encodable ∧ m.2.Writable maxDepth

instance (maxDepth : Nat) (r : LogRecord) : Decidable (r.Writable maxDepth) := by
  unfold LogRecord.Writable
  infer_instance

/-- The row's members stand two levels below the `docker_disk_usage`. -/
def DiskRow.Writable (maxDepth : Nat) (r : DiskRow) : Prop :=
  2 ≤ maxDepth ∧ r.total.Writable (maxDepth - 2) ∧ r.active.Writable (maxDepth - 2) ∧ (PyVal.dict r.raw).Writable (maxDepth - 2)

instance (maxDepth : Nat) (r : DiskRow) : Decidable (r.Writable maxDepth) := by
  unfold DiskRow.Writable
  infer_instance

def MetricRecord.Writable (maxDepth : Nat) (r : MetricRecord) : Prop :=
  r.containerName.Encodable ∧ r.containerId.Encodable ∧ r.raw.Writable maxDepth ∧
    ∀ e ∈ r.dockerDiskUsage.getD [], e.1.KeyWritable ∧ e.2.Writable maxDepth

instance (maxDepth : Nat) (r : MetricRecord) : Decidable (r.Writable maxDepth) := by
  unfold MetricRecord.Writable
  infer_instance

/-- What pydantic raises is a ValueError. -/
def dumpJson (writable : Prop) [Decidable writable] : Except PyError Unit :=
  if writable then .ok () else .error .valueError

theorem dumpJson_true {writable : Prop} [Decidable writable] (h : writable) : dumpJson writable = .ok () := if_pos h

theorem dumpJson_false {writable : Prop} [Decidable writable] (h : ¬ writable) : dumpJson writable = .error .valueError :=
  if_neg h

theorem of_dumpJson {writable : Prop} [Decidable writable] {u : Unit} (h : dumpJson writable = .ok u) : writable := by
  by_contra hn
  rw [dumpJson_false hn] at h
  cases h

end LogSump.Listener
