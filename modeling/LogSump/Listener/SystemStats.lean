/-
  LogSump.Listener.SystemStats — `system_stats.py`: the loop that samples a daemon's host.

  A cycle takes Docker's disk usage and then, as `system_metrics_source` says, `/proc`, the
  sum of the containers' stats, or neither. Each sampler has a `try` of its own around the
  command, and skips lines that are no JSON; what the other lines raise is not caught, by it
  or by the loop.

  - `disk_ok_iff`, `aggregate_ok_iff`, `host_ok_iff`: what each sampler can take.
  - `cycle_ok_iff`: a cycle ends where its outputs can be taken; `cycle_ships`: then it has
    shipped one record, with the next number.
  - `survives_iff`: the runs in which every cycle does.
  - `a_size_ends_the_loop`.
-/

import LogSump.Foundation.Machine
import LogSump.Listener.ProcFiles
import LogSump.Listener.Units
import LogSump.Transport.Command

namespace LogSump.Listener.SystemStats

open Common Python Foundation Transport ProcFiles

inductive SystemMetricsSource where
  | proc
  | containerAggregate
  | none
  deriving DecidableEq, Repr

/-- `_CpuSample`; its time is not used. -/
structure CpuSample where
  total : Int
  idle : Int
  deriving DecidableEq, Repr

/-- `host_metrics`. -/
structure HostMetrics where
  cpuPct : Option PyFloat := none
  memUsedBytes : Option Int := none
  memLimitBytes : Option Int := none
  memPct : Option PyFloat := none
  netRxBytes : Option Int := none
  netTxBytes : Option Int := none
  blkReadBytes : Option Int := none
  blkWriteBytes : Option Int := none

variable (L : Library)

/-! ## `docker system df` -/

/-- The entry of a line; `none` is a line that is skipped. -/
def diskRow (line : PyStr) : Except PyError (Option (PyVal × DiskRow)) :=
  match L.loads line with
  | .error .valueError => .ok none
  | .error e => .error e
  | .ok (.dict members) =>
    let rowType := PyVal.get members "Type"
    if ¬ rowType.Truthy then .ok none
    else do
      let sizeBytes ← bytesOf L members "Size"
      let reclaimableBytes ← reclaimableOf L members "Reclaimable"
      if rowType.Hashable then
        return some (rowType, {
          total := PyVal.get members "TotalCount"
          active := PyVal.get members "Active"
          sizeBytes := sizeBytes
          reclaimableBytes := reclaimableBytes
          raw := members })
      else .error .typeError
  | .ok _ => .error .attributeError

/-- `rows[row_type] = …`. -/
def addDiskRow (rows : List (PyVal × DiskRow)) : Option (PyVal × DiskRow) → List (PyVal × DiskRow)
  | none => rows
  | some (rowType, row) => insert rows rowType row

/-- `_try_sample_docker_disk_usage`. -/
def sampleDockerDiskUsage (result : ExecResult) : Except PyError (Option (List (PyVal × DiskRow))) :=
  match result.check with
  | .error e => if e.Caught then .ok none else .error e
  | .ok _ => do
    let rows ← Loop.result (Loop.run (Loop.each (diskRow L) addDiskRow) [] result.rows)
    return if rows.isEmpty then none else some rows

/-! ## `/proc` -/

/-- The `try` of `_try_sample_proc`: total and idle, then total and available memory. -/
def parseProc (result : ExecResult) : Except PyError ((Int × Int) × (Int × Int)) := do
  result.check
  let cpu ← parseCpuTotalIdle (sectionText result.stdout markerStat)
  match cpu, parseMeminfo (sectionText result.stdout markerMeminfo) with
  | some cpu, some mem => return (cpu, mem)
  | _, _ => .error .valueError

/-- `100.0 * (mem_total - mem_available) / mem_total`, where there is memory. -/
def memPercent (total available : Int) : Except PyError (Option PyFloat) :=
  if total = 0 then .ok none
  else
    match PyFloat.ofInt (total - available), PyFloat.ofInt total with
    | some used, some (.finite q) => .ok (some ((used.scale 100).div q))
    | _, _ => .error .overflowError

/-- `metrics`, without `cpu_pct`. -/
def procMetrics (stdout : PyStr) (mem : Int × Int) (memPct : Option PyFloat) : HostMetrics :=
  let net := parseNetDev (sectionText stdout markerNetdev)
  let disk := parseDiskstats (sectionText stdout markerDiskstats)
  { memUsedBytes := some (mem.1 - mem.2)
    memLimitBytes := some mem.1
    memPct := memPct
    netRxBytes := net.map (·.1)
    netTxBytes := net.map (·.2)
    blkReadBytes := disk.map (·.1)
    blkWriteBytes := disk.map (·.2) }

/-- `_try_sample_proc`; `none` is a sample that has failed. -/
def sampleProc (result : ExecResult) : Except PyError (Option (HostMetrics × CpuSample)) :=
  match parseProc result with
  | .error e => if e.Caught then .ok none else .error e
  | .ok (cpu, mem) => do
    let memPct ← memPercent mem.1 mem.2
    return some (procMetrics result.stdout mem memPct, ⟨cpu.1, cpu.2⟩)

/-- `_cpu_percent`. -/
def cpuPercent (prev curr : CpuSample) : Except PyError (Option PyFloat) :=
  let dTotal := curr.total - prev.total
  let dIdle := curr.idle - prev.idle
  if dTotal ≤ 0 then .ok none
  else
    match PyFloat.divInt dIdle dTotal with
    | none => .error .overflowError
    | some q => .ok (some (q.oneMinus.scale 100).clampBelow)

/-! ## The containers' stats -/

structure Aggregate where
  cpuPct : PyFloat := .finite 0
  memUsed : Int := 0
  netRx : Int := 0
  netTx : Int := 0
  count : Nat := 0

/-- What a line adds; `none` is a line that is skipped. -/
def aggregateRow (line : PyStr) : Except PyError (Option (Option PyFloat × Option Int × Option Int × Option Int)) :=
  match L.loads line with
  | .error .valueError => .ok none
  | .error e => .error e
  | .ok (.dict members) => do
    let cpuPct ← percentOf L members "CPUPerc"
    let mem ← pairOf L members "MemUsage"
    let net ← pairOf L members "NetIO"
    return some (cpuPct, mem.1, net.1, net.2)
  | .ok _ => .error .attributeError

def addAggregateRow (a : Aggregate) : Option (Option PyFloat × Option Int × Option Int × Option Int) → Aggregate
  | none => a
  | some (cpuPct, memUsed, netRx, netTx) =>
    { cpuPct := a.cpuPct.add (cpuPct.getD (.finite 0))
      memUsed := a.memUsed + memUsed.getD 0
      netRx := a.netRx + netRx.getD 0
      netTx := a.netTx + netTx.getD 0
      count := a.count + 1 }

/-- `_try_sample_container_aggregate`. -/
def sampleContainerAggregate (result : ExecResult) : Except PyError HostMetrics :=
  match result.check with
  | .error e => if e.Caught then .ok {} else .error e
  | .ok _ => do
    let a ← Loop.result (Loop.run (Loop.each (aggregateRow L) addAggregateRow) {} result.rows)
    if a.count = 0 then return {}
    else return { cpuPct := some a.cpuPct, memUsedBytes := some a.memUsed, netRxBytes := some a.netRx, netTxBytes := some a.netTx }

/-! ## The loop -/

structure St where
  seq : Nat := 0
  prevCpu : Option CpuSample := none
  shipped : List MetricRecord := []

/-- What the commands of one cycle return, and the time of its record. -/
structure Outputs where
  df : ExecResult
  proc : ExecResult
  stats : ExecResult
  now : Datetime

section
variable (percent : CpuSample → CpuSample → Except PyError (Option PyFloat)) (dockerHost : String)
  (source : SystemMetricsSource)

/-- The host's metrics, their source, and the sample that the next cycle compares with. -/
def sampleHost (prevCpu : Option CpuSample) (o : Outputs) : Except PyError (HostMetrics × String × Option CpuSample) :=
  match source with
  | .proc => do
    match ← sampleProc o.proc with
    | some (metrics, sample) =>
      match prevCpu with
      | none => return (metrics, "/proc", some sample)
      | some prev => do
        let cpuPct ← percent prev sample
        return ({ metrics with cpuPct }, "/proc", some sample)
    | none => do
      let metrics ← sampleContainerAggregate L o.stats
      return (metrics, "container-aggregate", prevCpu)
  | .containerAggregate => do
    let metrics ← sampleContainerAggregate L o.stats
    return (metrics, "container-aggregate", prevCpu)
  | .none => return ({}, "docker system df", prevCpu)

def recordOf (disk : Option (List (PyVal × DiskRow))) (host : HostMetrics) (label : String) (now : Datetime) (seq : Nat) :
    MetricRecord where
  dockerHost := dockerHost
  containerName := py systemScopeId
  containerId := py systemScopeId
  ts := now
  seq := seq
  metricScope := .system
  cpuPct := host.cpuPct
  memUsedBytes := host.memUsedBytes
  memLimitBytes := host.memLimitBytes
  memPct := host.memPct
  netRxBytes := host.netRxBytes
  netTxBytes := host.netTxBytes
  blkReadBytes := host.blkReadBytes
  blkWriteBytes := host.blkWriteBytes
  dockerDiskUsage := disk
  source := label

/-- One cycle of `run_system_stats`. What it raises ends the loop. -/
def cycle (s : St) (o : Outputs) : Except PyError St := do
  let disk ← sampleDockerDiskUsage L o.df
  let host ← sampleHost L percent source s.prevCpu o
  let seq := s.seq + 1
  let record := recordOf dockerHost disk host.1 host.2.1 o.now seq
  dumpJson (record.Writable L.maxDepth)
  return ⟨seq, host.2.2, s.shipped ++ [record]⟩

/-- The loop, over the outputs of cycle after cycle; it has no step where a cycle raises. -/
def machine : Machine St Outputs where
  init s := s = {}
  step s o := (cycle L percent dockerHost source s o).toOption

end

/-! ## What the samplers can take -/

/-- The line is no JSON, or an object; and if it has a type, this has a hash, and the sizes can
    be converted. -/
def DiskLineOk (line : PyStr) : Prop :=
  L.loads line = .error .valueError ∨ ∃ members, L.loads line = .ok (.dict members) ∧
    ((PyVal.get members "Type").Truthy → (PyVal.get members "Type").Hashable ∧
      (∃ n, bytesOf L members "Size" = .ok n) ∧ ∃ n, reclaimableOf L members "Reclaimable" = .ok n)

/-- The objects that have a type, with it. -/
def typedRows (lines : List PyStr) : List (PyVal × List (PyStr × PyVal)) :=
  lines.filterMap fun line =>
    match L.loads line with
    | .ok (.dict members) => if (PyVal.get members "Type").Truthy then some (PyVal.get members "Type", members) else none
    | _ => none

/-- An object that stands two levels below the `docker_disk_usage`. -/
def ObjectWritable (members : List (PyStr × PyVal)) : Prop :=
  2 ≤ L.maxDepth ∧ (PyVal.dict members).Writable (L.maxDepth - 2)

/-- The command has failed, or each line can be taken, and the last object of each type written. -/
def DiskOk (result : ExecResult) : Prop :=
  result.returncode ≠ 0 ∨ ((∀ line ∈ result.rows, DiskLineOk L line) ∧
    (∀ r ∈ typedRows L result.rows, r.1.KeyWritable) ∧ ∀ r ∈ lastRows (typedRows L result.rows), ObjectWritable L r.2)

def AggregateLineOk (line : PyStr) : Prop :=
  L.loads line = .error .valueError ∨ ∃ members, L.loads line = .ok (.dict members) ∧
    (∃ x, percentOf L members "CPUPerc" = .ok x) ∧ (∃ p, pairOf L members "MemUsage" = .ok p) ∧
      ∃ p, pairOf L members "NetIO" = .ok p

def AggregateOk (result : ExecResult) : Prop := result.returncode ≠ 0 ∨ ∀ line ∈ result.rows, AggregateLineOk L line

/-- Where `/proc` is read: the memory, and the quotient of idle and total time, as doubles. -/
def ProcOk (prevCpu : Option CpuSample) (o : Outputs) : Prop :=
  match parseProc o.proc with
  | .error _ => AggregateOk L o.stats
  | .ok (cpu, mem) =>
    (mem.1 ≠ 0 → (PyFloat.ofInt (mem.1 - mem.2)).isSome ∧ (PyFloat.ofInt mem.1).isSome) ∧
      ∀ prev ∈ prevCpu, prev.total < cpu.1 → (PyFloat.divInt (cpu.2 - prev.idle) (cpu.1 - prev.total)).isSome

def HostOk (source : SystemMetricsSource) (prevCpu : Option CpuSample) (o : Outputs) : Prop :=
  match source with
  | .proc => ProcOk L prevCpu o
  | .containerAggregate => AggregateOk L o.stats
  | .none => True

/-- The outputs of a cycle can be taken. -/
def Survives (source : SystemMetricsSource) (s : St) (o : Outputs) : Prop := DiskOk L o.df ∧ HostOk L source s.prevCpu o

variable {L}

theorem diskRow_ok_iff {line : PyStr} : (∃ r, diskRow L line = .ok r) ↔ DiskLineOk L line := by
  unfold diskRow DiskLineOk
  cases hl : L.loads line with
  | error e => cases e <;> simp
  | ok v =>
    cases v with
    | dict members =>
      by_cases ht : (PyVal.get members "Type").Truthy
      · cases hs : bytesOf L members "Size" with
        | error e => simp [ht, hs]
        | ok size =>
          cases hr : reclaimableOf L members "Reclaimable" with
          | error e => simp [ht, hs, hr]
          | ok reclaimable => by_cases hh : (PyVal.get members "Type").Hashable <;> simp [ht, hs, hr, hh, pure, Except.pure]
      · simp [ht]
    | _ => simp

theorem aggregateRow_ok_iff {line : PyStr} : (∃ r, aggregateRow L line = .ok r) ↔ AggregateLineOk L line := by
  unfold aggregateRow AggregateLineOk
  cases hl : L.loads line with
  | error e => cases e <;> simp
  | ok v =>
    cases v with
    | dict members =>
      cases hc : percentOf L members "CPUPerc" with
      | error e => simp [hc]
      | ok cpu =>
        cases hm : pairOf L members "MemUsage" with
        | error e => simp [hc, hm]
        | ok mem =>
          obtain ⟨used, limit⟩ := mem
          cases hn : pairOf L members "NetIO" with
          | error e => simp [hc, hm, hn]
          | ok net =>
            obtain ⟨rx, tx⟩ := net
            simp [hc, hm, hn, pure, Except.pure]
    | _ => simp

theorem aggregate_ok_iff {result : ExecResult} : (∃ m, sampleContainerAggregate L result = .ok m) ↔ AggregateOk L result := by
  unfold sampleContainerAggregate AggregateOk
  by_cases hc : result.returncode = 0
  · rw [ExecResult.check_ok hc]
    simp only [hc, ne_eq, not_true_eq_false, false_or, ← aggregateRow_ok_iff]
    constructor
    · intro hsample
      obtain ⟨m, hm⟩ := hsample
      obtain ⟨a, ha, -⟩ := bind_eq_ok hm
      exact (Loop.result_each_iff.mp ha).1
    · intro h
      rw [Loop.result_each_iff.mpr ⟨h, rfl⟩, ok_bind]
      split
      · exact ⟨_, rfl⟩
      · exact ⟨_, rfl⟩
  · obtain ⟨text, ht⟩ := ExecResult.check_error hc
    rw [ht]
    exact ⟨fun _ => .inl hc, fun _ => ⟨{}, rfl⟩⟩

/-- The entries that the lines make, and the objects that they are made of. -/
def diskEntries (L : Library) (lines : List PyStr) : List (PyVal × DiskRow) := (Loop.converted (diskRow L) lines).reduceOption

theorem foldl_addDiskRow (rows : List (Option (PyVal × DiskRow))) (acc : List (PyVal × DiskRow)) :
    rows.foldl addDiskRow acc = rows.reduceOption.foldl (fun acc r => insert acc r.1 r.2) acc := by
  induction rows generalizing acc with
  | nil => rfl
  | cons r rows ih =>
    cases r with
    | none => exact ih acc
    | some r =>
      rw [List.foldl_cons, ih, List.reduceOption_cons_of_some]
      rfl

theorem diskEntries_cons {line : PyStr} (h : DiskLineOk L line) (lines : List PyStr) :
    (diskEntries L (line :: lines) = diskEntries L lines ∧ typedRows L (line :: lines) = typedRows L lines) ∨
      ∃ row : DiskRow, ∃ rowType, row.total = PyVal.get row.raw "TotalCount" ∧ row.active = PyVal.get row.raw "Active" ∧
        diskEntries L (line :: lines) = (rowType, row) :: diskEntries L lines ∧
        typedRows L (line :: lines) = (rowType, row.raw) :: typedRows L lines := by
  rcases h with hl | ⟨members, hl, ht⟩
  · refine .inl ⟨?_, ?_⟩
    · have hrow : diskRow L line = .ok none := by rw [diskRow, hl]
      rw [diskEntries, Loop.converted_cons_ok hrow]
      rfl
    · simp [typedRows, hl]
  · by_cases htruthy : (PyVal.get members "Type").Truthy
    · obtain ⟨hh, ⟨size, hs⟩, reclaimable, hr⟩ := ht htruthy
      refine .inr ⟨⟨PyVal.get members "TotalCount", PyVal.get members "Active", size, reclaimable, members⟩,
        PyVal.get members "Type", rfl, rfl, ?_, ?_⟩
      · have hrow : diskRow L line = .ok (some (PyVal.get members "Type",
            ⟨PyVal.get members "TotalCount", PyVal.get members "Active", size, reclaimable, members⟩)) := by
          simp [diskRow, hl, htruthy, hs, hr, hh, pure, Except.pure]
        rw [diskEntries, Loop.converted_cons_ok hrow]
        rfl
      · simp [typedRows, hl, htruthy]
    · refine .inl ⟨?_, ?_⟩
      · have hrow : diskRow L line = .ok none := by simp [diskRow, hl, htruthy]
        rw [diskEntries, Loop.converted_cons_ok hrow]
        rfl
      · simp [typedRows, hl, htruthy]

/-- The entries are those of the objects with a type, and their members are those of the object. -/
theorem diskEntries_typed {lines : List PyStr} (h : ∀ line ∈ lines, DiskLineOk L line) :
    typedRows L lines = (diskEntries L lines).map (fun r => (r.1, r.2.raw)) ∧
      ∀ r ∈ diskEntries L lines, r.2.total = PyVal.get r.2.raw "TotalCount" ∧ r.2.active = PyVal.get r.2.raw "Active" := by
  induction lines with
  | nil => exact ⟨rfl, fun r hr => by cases hr⟩
  | cons line lines ih =>
    obtain ⟨hmap, hmembers⟩ := ih fun l hl => h l (List.mem_cons_of_mem _ hl)
    rcases diskEntries_cons (h line List.mem_cons_self) lines with ⟨he, ht⟩ | ⟨row, rowType, htotal, hactive, he, ht⟩
    · rw [he, ht]
      exact ⟨hmap, hmembers⟩
    · rw [he, ht, hmap]
      refine ⟨rfl, ?_⟩
      intro r hr
      rcases List.mem_cons.mp hr with rfl | hr
      · exact ⟨htotal, hactive⟩
      · exact hmembers r hr

/-- An entry is written where its object is. -/
theorem diskRow_writable_iff {row : DiskRow} (htotal : row.total = PyVal.get row.raw "TotalCount")
    (hactive : row.active = PyVal.get row.raw "Active") : row.Writable L.maxDepth ↔ ObjectWritable L row.raw := by
  unfold DiskRow.Writable ObjectWritable
  constructor
  · intro h
    obtain ⟨hd, -, -, hraw⟩ := h
    exact ⟨hd, hraw⟩
  · intro h
    obtain ⟨hd, hraw⟩ := h
    rw [htotal, hactive]
    exact ⟨hd, PyVal.writable_get hraw _, PyVal.writable_get hraw _, hraw⟩

theorem insertAll_writable_iff {lines : List PyStr} (h : ∀ line ∈ lines, DiskLineOk L line) :
    (∀ e ∈ insertAll (diskEntries L lines), e.1.KeyWritable ∧ e.2.Writable L.maxDepth) ↔
      (∀ r ∈ typedRows L lines, r.1.KeyWritable) ∧ ∀ r ∈ lastRows (typedRows L lines), ObjectWritable L r.2 := by
  obtain ⟨hmap, hmembers⟩ := diskEntries_typed h
  rw [forall_insertAll PyVal.keyWritable_respects, hmap, lastRows_map, List.forall_mem_map, List.forall_mem_map]
  apply and_congr_right
  intro _
  refine forall₂_congr fun r hr => ?_
  obtain ⟨htotal, hactive⟩ := hmembers r (mem_of_mem_lastRows hr)
  exact diskRow_writable_iff htotal hactive

theorem disk_ok_iff {result : ExecResult} :
    (∃ disk, sampleDockerDiskUsage L result = .ok disk ∧ ∀ e ∈ disk.getD [], e.1.KeyWritable ∧ e.2.Writable L.maxDepth) ↔
      DiskOk L result := by
  unfold sampleDockerDiskUsage DiskOk
  by_cases hc : result.returncode = 0
  · rw [ExecResult.check_ok hc]
    simp only [hc, ne_eq, not_true_eq_false, false_or, ← diskRow_ok_iff]
    have hrows : (Loop.converted (diskRow L) result.rows).foldl addDiskRow [] = insertAll (diskEntries L result.rows) :=
      foldl_addDiskRow _ _
    have hget : ∀ rows : List (PyVal × DiskRow), (if rows.isEmpty then none else some rows).getD [] = rows := by
      intro rows
      cases rows <;> rfl
    constructor
    · intro h
      obtain ⟨disk, hd, hw⟩ := h
      obtain ⟨rows, hr, hd⟩ := bind_eq_ok hd
      obtain ⟨hall, rfl⟩ := Loop.result_each_iff.mp hr
      cases hd
      rw [hget, hrows] at hw
      exact ⟨hall, (insertAll_writable_iff fun l hl => diskRow_ok_iff.mp (hall l hl)).mp hw⟩
    · intro h
      obtain ⟨hall, hw⟩ := h
      refine ⟨_, by rw [Loop.result_each_iff.mpr ⟨hall, rfl⟩]; rfl, ?_⟩
      rw [hget, hrows]
      exact (insertAll_writable_iff fun l hl => diskRow_ok_iff.mp (hall l hl)).mpr hw
  · obtain ⟨text, ht⟩ := ExecResult.check_error hc
    rw [ht]
    refine ⟨fun _ => .inl hc, fun _ => ⟨none, rfl, ?_⟩⟩
    intro e he
    cases he

theorem parseProc_error {result : ExecResult} {e : PyError} (h : parseProc result = .error e) : e.Caught := by
  rcases bind_eq_error h with hc | ⟨-, -, h⟩
  · unfold ExecResult.check at hc
    split at hc
    · cases hc
      trivial
    · cases hc
  · rcases bind_eq_error h with hcpu | ⟨cpu, -, h⟩
    · rw [parseCpuTotalIdle_error hcpu]
      trivial
    · split at h
      · cases h
      · cases h
        trivial

theorem memPercent_ok_iff {total available : Int} : (∃ p, memPercent total available = .ok p) ↔
    (total ≠ 0 → (PyFloat.ofInt (total - available)).isSome ∧ (PyFloat.ofInt total).isSome) := by
  unfold memPercent
  by_cases ht : total = 0
  · simp [ht]
  · cases hu : PyFloat.ofInt (total - available) with
    | none => simp [ht]
    | some used =>
      cases hq : PyFloat.ofInt total with
      | none => simp [ht]
      | some x =>
        -- `float` of an int is finite
        unfold PyFloat.ofInt at hq
        split at hq
        · cases hq
          simp [ht]
        · cases hq

theorem cpuPercent_ok_iff {prev curr : CpuSample} : (∃ p, cpuPercent prev curr = .ok p) ↔
    (prev.total < curr.total → (PyFloat.divInt (curr.idle - prev.idle) (curr.total - prev.total)).isSome) := by
  unfold cpuPercent
  by_cases ht : curr.total - prev.total ≤ 0
  · have hn : ¬ prev.total < curr.total := by omega
    simp [ht, hn]
  · have hp : prev.total < curr.total := by omega
    simp only [ht, hp, if_false, true_imp_iff]
    cases PyFloat.divInt (curr.idle - prev.idle) (curr.total - prev.total) <;> simp

section
variable {percent : CpuSample → CpuSample → Except PyError (Option PyFloat)} {dockerHost : String}
  {source : SystemMetricsSource}

/-- Where the `try` fails, the containers' stats are taken. -/
theorem sampleHost_of_error {o : Outputs} {e : PyError} (h : parseProc o.proc = .error e) (prevCpu : Option CpuSample) :
    sampleHost L percent .proc prevCpu o = (do
      let metrics ← sampleContainerAggregate L o.stats
      return (metrics, "container-aggregate", prevCpu)) := by
  have hs : sampleProc o.proc = .ok none := by
    simp only [sampleProc, h]
    exact if_pos (parseProc_error h)
  simp only [sampleHost, hs, ok_bind]

/-- Where it does not, the first sample has nothing to be compared with. -/
theorem sampleHost_first {o : Outputs} {cpu mem : Int × Int} (h : parseProc o.proc = .ok (cpu, mem))
    {x : HostMetrics × String × Option CpuSample} :
    sampleHost L percent .proc none o = .ok x ↔
      ∃ p, memPercent mem.1 mem.2 = .ok p ∧ x = (procMetrics o.proc.stdout mem p, "/proc", some ⟨cpu.1, cpu.2⟩) := by
  simp only [sampleHost, sampleProc, h]
  cases memPercent mem.1 mem.2 <;> simp [pure, Except.pure, eq_comm]

theorem sampleHost_next {o : Outputs} {cpu mem : Int × Int} (h : parseProc o.proc = .ok (cpu, mem)) {prev : CpuSample}
    {x : HostMetrics × String × Option CpuSample} :
    sampleHost L percent .proc (some prev) o = .ok x ↔
      ∃ p c, memPercent mem.1 mem.2 = .ok p ∧ percent prev ⟨cpu.1, cpu.2⟩ = .ok c ∧
        x = ({ procMetrics o.proc.stdout mem p with cpuPct := c }, "/proc", some ⟨cpu.1, cpu.2⟩) := by
  simp only [sampleHost, sampleProc, h]
  cases memPercent mem.1 mem.2 with
  | error e => simp
  | ok p => cases hc : percent prev ⟨cpu.1, cpu.2⟩ <;> simp [hc, pure, Except.pure, eq_comm]

end

theorem bind_return_ok_iff {α β : Type} {x : Except PyError α} {f : α → β} :
    (∃ b, (x >>= fun a => pure (f a)) = .ok b) ↔ ∃ a, x = .ok a := by
  cases x <;> simp [pure, Except.pure]

theorem host_ok_iff {source : SystemMetricsSource} {prevCpu : Option CpuSample} {o : Outputs} :
    (∃ x, sampleHost L cpuPercent source prevCpu o = .ok x) ↔ HostOk L source prevCpu o := by
  cases source with
  | none => exact ⟨fun _ => trivial, fun _ => ⟨_, rfl⟩⟩
  | containerAggregate => exact bind_return_ok_iff.trans aggregate_ok_iff
  | proc =>
    unfold HostOk ProcOk
    cases h : parseProc o.proc with
    | error e =>
      rw [sampleHost_of_error h]
      exact bind_return_ok_iff.trans aggregate_ok_iff
    | ok x =>
      obtain ⟨cpu, mem⟩ := x
      cases prevCpu with
      | none =>
        simp only [sampleHost_first h, ← memPercent_ok_iff]
        simp
      | some prev =>
        simp only [sampleHost_next h, ← memPercent_ok_iff, Option.mem_def, Option.some.injEq, forall_eq']
        rw [← @cpuPercent_ok_iff prev ⟨cpu.1, cpu.2⟩]
        constructor
        · intro hhost
          obtain ⟨-, p, c, hp, hc, -⟩ := hhost
          exact ⟨⟨p, hp⟩, c, hc⟩
        · intro hparts
          obtain ⟨⟨p, hp⟩, c, hc⟩ := hparts
          exact ⟨_, p, c, hp, hc, rfl⟩

/-! ## A cycle -/

section
variable {percent : CpuSample → CpuSample → Except PyError (Option PyFloat)} {dockerHost : String}
  {source : SystemMetricsSource}

theorem recordOf_writable_iff {disk : Option (List (PyVal × DiskRow))} {host : HostMetrics} {label : String} {now : Datetime}
    {seq depth : Nat} : (recordOf dockerHost disk host label now seq).Writable depth ↔
      ∀ e ∈ disk.getD [], e.1.KeyWritable ∧ e.2.Writable depth := by
  constructor
  · intro hwritable
    obtain ⟨-, -, -, h⟩ := hwritable
    exact h
  · intro h
    exact ⟨PyStr.encodable_py _, PyStr.encodable_py _, PyVal.writable_none _, h⟩

/-- A cycle that does not raise: what its samplers give, and the record that it ships. -/
theorem cycle_ok {s s' : St} {o : Outputs} : cycle L percent dockerHost source s o = .ok s' ↔
    ∃ disk host, sampleDockerDiskUsage L o.df = .ok disk ∧ sampleHost L percent source s.prevCpu o = .ok host ∧
      (recordOf dockerHost disk host.1 host.2.1 o.now (s.seq + 1)).Writable L.maxDepth ∧
      s' = ⟨s.seq + 1, host.2.2, s.shipped ++ [recordOf dockerHost disk host.1 host.2.1 o.now (s.seq + 1)]⟩ := by
  constructor
  · intro h
    obtain ⟨disk, hdisk, h⟩ := bind_eq_ok h
    obtain ⟨host, hhost, h⟩ := bind_eq_ok h
    obtain ⟨_, hdump, h⟩ := bind_eq_ok h
    cases h
    exact ⟨disk, host, hdisk, hhost, of_dumpJson hdump, rfl⟩
  · intro hparts
    obtain ⟨disk, host, hdisk, hhost, hw, rfl⟩ := hparts
    simp only [cycle, hdisk, hhost, ok_bind]
    rw [dumpJson_true hw]
    rfl

/-- One record, with the next number. -/
theorem cycle_ships {s s' : St} {o : Outputs} (h : cycle L percent dockerHost source s o = .ok s') :
    s'.seq = s.seq + 1 ∧ ∃ r, s'.shipped = s.shipped ++ [r] ∧ r.seq = s.seq + 1 := by
  obtain ⟨disk, host, -, -, -, rfl⟩ := cycle_ok.mp h
  exact ⟨rfl, _, rfl, rfl⟩

end

theorem cycle_ok_iff {dockerHost : String} {source : SystemMetricsSource} {s : St} {o : Outputs} :
    (∃ s', cycle L cpuPercent dockerHost source s o = .ok s') ↔ Survives L source s o := by
  rw [Survives, ← disk_ok_iff, ← host_ok_iff]
  constructor
  · intro hcycle
    obtain ⟨s', h⟩ := hcycle
    obtain ⟨disk, host, hdisk, hhost, hw, -⟩ := cycle_ok.mp h
    exact ⟨⟨disk, hdisk, recordOf_writable_iff.mp hw⟩, host, hhost⟩
  · intro hparts
    obtain ⟨⟨disk, hdisk, hw⟩, host, hhost⟩ := hparts
    exact ⟨_, cycle_ok.mpr ⟨disk, host, hdisk, hhost, recordOf_writable_iff.mpr hw, rfl⟩⟩

/-! ## A run -/

theorem step_eq_some_iff {percent : CpuSample → CpuSample → Except PyError (Option PyFloat)} {dockerHost : String}
    {source : SystemMetricsSource} {s s' : St} {o : Outputs} :
    (machine L percent dockerHost source).step s o = some s' ↔ cycle L percent dockerHost source s o = .ok s' := by
  show (cycle L percent dockerHost source s o).toOption = some s' ↔ _
  cases cycle L percent dockerHost source s o <;> simp [Except.toOption]

/-- A run that is not ended ships one record in each cycle. -/
theorem run_ships {percent : CpuSample → CpuSample → Except PyError (Option PyFloat)} {dockerHost : String}
    {source : SystemMetricsSource} {cycles : List Outputs} {s s' : St}
    (h : (machine L percent dockerHost source).run s cycles = some s') :
    s'.shipped.map (·.seq) = s.shipped.map (·.seq) ++ List.range' (s.seq + 1) cycles.length := by
  induction cycles generalizing s with
  | nil =>
    cases h
    simp
  | cons o cycles ih =>
    obtain ⟨t, ht, h⟩ := Machine.run_cons.mp h
    obtain ⟨hseq, r, hr, hrseq⟩ := cycle_ships (step_eq_some_iff.mp ht)
    rw [ih h, hr, hseq, List.map_append, List.map_singleton, hrseq, List.length_cons, List.range'_succ, List.append_assoc,
      List.singleton_append]

/-- A run goes on to its end where the outputs of each of its cycles can be taken. -/
theorem run_iff_along {dockerHost : String} {source : SystemMetricsSource} {cycles : List Outputs} {s : St} :
    (∃ s', (machine L cpuPercent dockerHost source).run s cycles = some s') ↔
      (machine L cpuPercent dockerHost source).Along (Survives L source) s cycles := by
  induction cycles generalizing s with
  | nil => exact ⟨fun _ => trivial, fun _ => ⟨s, rfl⟩⟩
  | cons o cycles ih =>
    constructor
    · intro hrun
      obtain ⟨s', h⟩ := hrun
      obtain ⟨t, ht, h⟩ := Machine.run_cons.mp h
      refine ⟨cycle_ok_iff.mp ⟨t, step_eq_some_iff.mp ht⟩, ?_⟩
      intro t' ht'
      rw [ht] at ht'
      cases ht'
      exact ih.mp ⟨s', h⟩
    · intro halong
      obtain ⟨ho, hrest⟩ := halong
      obtain ⟨t, ht⟩ := cycle_ok_iff.mpr ho
      obtain ⟨s', hs'⟩ := ih.mpr (hrest t (step_eq_some_iff.mpr ht))
      exact ⟨s', Machine.run_cons.mpr ⟨t, step_eq_some_iff.mpr ht, hs'⟩⟩

/-- The loop goes on after every cycle, and each has shipped one record with the next number. -/
def OneRecordEach (L : Library) (dockerHost : String) (source : SystemMetricsSource) (cycles : List Outputs) : Prop :=
  ∃ s, (machine L cpuPercent dockerHost source).run {} cycles = some s ∧
    s.shipped.map (·.seq) = List.range' 1 cycles.length

/-- Every cycle of a run ships its one record and the loop goes on, exactly where the outputs of
    each cycle can be taken. -/
theorem survives_iff (L : Library) (dockerHost : String) (source : SystemMetricsSource) (cycles : List Outputs) :
    OneRecordEach L dockerHost source cycles ↔
      (machine L cpuPercent dockerHost source).Along (Survives L source) {} cycles := by
  rw [← run_iff_along]
  constructor
  · intro h
    obtain ⟨s, hs, -⟩ := h
    exact ⟨s, hs⟩
  · intro h
    obtain ⟨s, hs⟩ := h
    exact ⟨s, hs, run_ships hs⟩

/-! ## A size that `float` refuses -/

/-- The libraries on the one row below. -/
def sizeLibrary : Library where
  fromisoformat _ := none
  loads text :=
    if text = py "\x7b\"Type\":\"Images\",\"Size\":\"1.2.3MB\"\x7d" then
      .ok (.dict [(py "Type", .str (py "Images")), (py "Size", .str (py "1.2.3MB"))])
    else .error .valueError
  repr _ := .ok []
  maxDepth := 255

def sizeOutputs (now : Datetime) : Outputs where
  df := ⟨0, py "\x7b\"Type\":\"Images\",\"Size\":\"1.2.3MB\"\x7d\n", []⟩
  proc := ⟨1, [], []⟩
  stats := ⟨1, [], []⟩
  now := now

/-- Whatever the source is, one row of `docker system df` ends the loop with its first cycle. -/
theorem a_size_ends_the_loop :
    (∀ source, error? (cycle sizeLibrary cpuPercent "prod-a" source {} (sizeOutputs helloLog.ts)) = some .valueError) ∧
      ∀ source, ¬ OneRecordEach sizeLibrary "prod-a" source [sizeOutputs helloLog.ts] := by
  have hraised : ∀ source, error? (cycle sizeLibrary cpuPercent "prod-a" source {} (sizeOutputs helloLog.ts)) =
      some .valueError := by
    intro source
    cases source <;> decide +kernel
  refine ⟨hraised, ?_⟩
  intro source h
  obtain ⟨s, hs, -⟩ := h
  obtain ⟨t, ht, -⟩ := Machine.run_cons.mp hs
  have hok := step_eq_some_iff.mp ht
  rw [error?_eq_some_iff.mp (hraised source)] at hok
  cases hok

end LogSump.Listener.SystemStats
