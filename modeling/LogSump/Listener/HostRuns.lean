/-
  LogSump.Listener.HostRuns — runs of the system-stats loop beside a host that its kernel shows in
  `/proc`.

  In some cycles the command fails, and the containers' stats stand in for the host. The sample
  that the next one is compared with stays that of the last cycle in which it did not fail.

  - `cycle_reports`: what a cycle ships.
  - `a_run_shows_its_host`: every record of a run is that of its own cycle's host, and its `cpu_pct`
    that of the time since the last host before it.
-/

import LogSump.Listener.HostFiles

namespace LogSump.Listener.HostFiles

open Common Python Foundation Transport ProcFiles SystemStats

variable (L : Library)

/-- The outputs of a cycle can be taken, and show this host; none where the command fails. -/
def Shows (o : Outputs) (reading : Option Host) : Prop :=
  DiskOk L o.df ∧
    match reading with
    | some h => ∃ l stderr, o.proc = ⟨0, h.output l, stderr⟩
    | none => o.proc.returncode ≠ 0 ∧ AggregateOk L o.stats

/-- The `cpu_pct` of a sample after another. -/
def Since (prev : Option CpuSample) (curr : CpuSample) (cpuPct : Option PyFloat) : Prop :=
  match prev with
  | none => cpuPct = none
  | some prev => cpuPercent prev curr = .ok cpuPct

/-- The record of a cycle. -/
def Reports (dockerHost : String) (o : Outputs) (reading : Option Host) (prev : Option CpuSample) (seq : Nat) (r : MetricRecord) :
    Prop :=
  ∃ disk, sampleDockerDiskUsage L o.df = .ok disk ∧
    match reading with
    | some h => ∃ memPct cpuPct, memPercent (h.total.toNat * 1024) (h.available.toNat * 1024) = .ok memPct ∧
        Since prev h.sample cpuPct ∧ r = SystemStats.recordOf dockerHost disk { h.metrics memPct with cpuPct } "/proc" o.now seq
    | none => ∃ metrics, sampleContainerAggregate L o.stats = .ok metrics ∧
        r = SystemStats.recordOf dockerHost disk metrics "container-aggregate" o.now seq

/-- The sample of the last host. -/
def lastSample (readings : List (Option Host)) : Option CpuSample := readings.reduceOption.getLast?.map (·.sample)

variable {L}

theorem lastSample_cons (reading : Option Host) (readings : List (Option Host)) :
    lastSample (reading :: readings) = (lastSample readings).or (reading.map (·.sample)) := by
  cases reading with
  | none =>
    rw [lastSample, List.reduceOption_cons_of_none]
    simp [lastSample]
  | some h =>
    rw [lastSample, List.reduceOption_cons_of_some, List.getLast?_cons]
    cases hlast : readings.reduceOption.getLast? <;> simp [lastSample, hlast]

/-! ## A cycle -/

/-- The sample before was a host's too. -/
def FromHost (prevCpu : Option CpuSample) : Prop := ∀ prev ∈ prevCpu, ∃ g : Host, g.sample = prev

theorem sampleHost_reports (dockerHost : String) {o : Outputs} {reading : Option Host} (h : Shows L o reading)
    {prevCpu : Option CpuSample} (hprev : FromHost prevCpu) :
    ∃ host, sampleHost L cpuPercent .proc prevCpu o = .ok host ∧ host.2.2 = (reading.map (·.sample)).or prevCpu ∧
      ∀ disk, sampleDockerDiskUsage L o.df = .ok disk → ∀ seq,
        Reports L dockerHost o reading prevCpu seq (SystemStats.recordOf dockerHost disk host.1 host.2.1 o.now seq) := by
  obtain ⟨-, hreading⟩ := h
  cases reading with
  | none =>
    obtain ⟨hfailed, hstats⟩ := hreading
    obtain ⟨text, htext⟩ := ExecResult.check_error hfailed
    have herror : parseProc o.proc = .error (.transportError text) := by simp only [parseProc, htext, error_bind]
    obtain ⟨metrics, hmetrics⟩ := aggregate_ok_iff.mpr hstats
    refine ⟨(metrics, "container-aggregate", prevCpu), ?_, rfl, ?_⟩
    · rw [sampleHost_of_error herror, hmetrics]
      rfl
    · intro disk hdisk seq
      exact ⟨disk, hdisk, metrics, hmetrics, rfl⟩
  | some h =>
    obtain ⟨l, stderr, hproc⟩ := hreading
    have hparse : parseProc o.proc =
        .ok ((h.sample.total, h.sample.idle), ((h.total.toNat : Int) * 1024, (h.available.toNat : Int) * 1024)) := by
      rw [hproc, parseProc_output]
    obtain ⟨memPct, hpct⟩ := memPercent_ok h
    have hmetrics := procMetrics_output h l memPct
    cases prevCpu with
    | none =>
      refine ⟨(h.metrics memPct, "/proc", some h.sample), ?_, rfl, ?_⟩
      · refine (sampleHost_first hparse).mpr ⟨memPct, hpct, ?_⟩
        rw [hproc, hmetrics]
      · intro disk hdisk seq
        exact ⟨disk, hdisk, memPct, none, hpct, rfl, rfl⟩
    | some prev =>
      obtain ⟨g, hg⟩ := hprev prev rfl
      obtain ⟨cpuPct, hcpu⟩ := cpuPercent_ok g h
      rw [hg] at hcpu
      refine ⟨({ h.metrics memPct with cpuPct }, "/proc", some h.sample), ?_, rfl, ?_⟩
      · refine (sampleHost_next hparse).mpr ⟨memPct, cpuPct, hpct, hcpu, ?_⟩
        rw [hproc, hmetrics]
      · intro disk hdisk seq
        exact ⟨disk, hdisk, memPct, cpuPct, hpct, hcpu, rfl⟩

/-- A cycle goes through, and ships its host's record. -/
theorem cycle_reports (dockerHost : String) {s : St} {o : Outputs} {reading : Option Host} (h : Shows L o reading)
    (hprev : FromHost s.prevCpu) :
    ∃ r, cycle L cpuPercent dockerHost .proc s o = .ok ⟨s.seq + 1, (reading.map (·.sample)).or s.prevCpu, s.shipped ++ [r]⟩ ∧
      Reports L dockerHost o reading s.prevCpu (s.seq + 1) r := by
  obtain ⟨host, hhost, hnext, hreports⟩ := sampleHost_reports dockerHost h hprev
  obtain ⟨disk, hdisk, hwritable⟩ := disk_ok_iff.mpr h.1
  refine ⟨_, cycle_ok.mpr ⟨disk, host, hdisk, hhost, SystemStats.recordOf_writable_iff.mpr hwritable, ?_⟩, hreports disk hdisk _⟩
  rw [hnext]

/-! ## A run -/

/-- The records of the cycles that follow a state. -/
def RecordsAfter (L : Library) (dockerHost : String) (s : St) (cycles : List Outputs) (readings : List (Option Host))
    (records : List MetricRecord) : Prop :=
  records.length = cycles.length ∧ ∀ i o reading, cycles[i]? = some o → readings[i]? = some reading →
    ∃ r, records[i]? = some r ∧ Reports L dockerHost o reading ((lastSample (readings.take i)).or s.prevCpu) (s.seq + i + 1) r

theorem run_reports (dockerHost : String) {cycles : List Outputs} {readings : List (Option Host)} (h : List.Forall₂ (Shows L) cycles readings)
    {s : St} (hprev : FromHost s.prevCpu) :
    ∃ s' records, (machine L cpuPercent dockerHost .proc).run s cycles = some s' ∧ s'.shipped = s.shipped ++ records ∧
      RecordsAfter L dockerHost s cycles readings records := by
  induction h generalizing s with
  | nil =>
    refine ⟨s, [], rfl, (List.append_nil _).symm, rfl, ?_⟩
    intro i o reading ho
    simp at ho
  | @cons o reading cycles readings hshows _ ih =>
    obtain ⟨r, hcycle, hreport⟩ := cycle_reports dockerHost hshows hprev
    have hnext : FromHost ((reading.map (·.sample)).or s.prevCpu) := by
      cases reading with
      | none => exact hprev
      | some g =>
        intro prev hp
        exact ⟨g, Option.some.inj hp⟩
    obtain ⟨s', records, hrun, hshipped, hlen, hrecords⟩ :=
      ih (s := ⟨s.seq + 1, (reading.map (·.sample)).or s.prevCpu, s.shipped ++ [r]⟩) hnext
    refine ⟨s', r :: records, Machine.run_cons.mpr ⟨_, step_eq_some_iff.mpr hcycle, hrun⟩, ?_, ?_, ?_⟩
    · rw [hshipped, List.append_assoc, List.singleton_append]
    · rw [List.length_cons, List.length_cons, hlen]
    · intro i o' reading' ho hreading
      cases i with
      | zero =>
        cases ho
        cases hreading
        exact ⟨r, rfl, hreport⟩
      | succ i =>
        obtain ⟨r', hr', hreport'⟩ := hrecords i o' reading' ho hreading
        refine ⟨r', hr', ?_⟩
        rw [List.take_succ_cons, lastSample_cons, Option.or_assoc, show s.seq + (i + 1) + 1 = s.seq + 1 + i + 1 by omega]
        exact hreport'

/-- A run of the loop that reads `/proc`, of whatever hosts, widths of columns and failures of the
    command, goes on while the disk usage can be taken, and the containers' stats where the command
    has failed. It ships one record for each cycle: that of the cycle's host, with the `cpu_pct` of
    the time since the last host before it, or that of the containers' stats. -/
theorem a_run_shows_its_host (L : Library) (dockerHost : String) {cycles : List Outputs} {readings : List (Option Host)}
    (h : List.Forall₂ (Shows L) cycles readings) :
    ∃ s, (machine L cpuPercent dockerHost .proc).run {} cycles = some s ∧ s.shipped.length = cycles.length ∧
      ∀ i o reading, cycles[i]? = some o → readings[i]? = some reading →
        ∃ r, s.shipped[i]? = some r ∧ Reports L dockerHost o reading (lastSample (readings.take i)) (i + 1) r := by
  obtain ⟨s, records, hrun, hshipped, hlen, hrecords⟩ := run_reports dockerHost h (s := {}) fun _ hp => nomatch hp
  rw [List.nil_append] at hshipped
  subst hshipped
  refine ⟨s, hrun, hlen, ?_⟩
  intro i o reading ho hreading
  obtain ⟨r, hr, hreport⟩ := hrecords i o reading ho hreading
  rw [Option.or_none, Nat.zero_add] at hreport
  exact ⟨r, hr, hreport⟩

/-! ## Three cycles of one host -/

def loopback : Interface where
  name := py "lo"
  counters := [9, 0, 0, 0, 0, 0, 0, 0, 9, 0, 0, 0, 0, 0, 0, 0]
  isWord := by decide
  noColon := by decide
  nine := by decide

def eth0 (received : UInt64) : Interface where
  name := py "eth0"
  counters := [received, 1, 0, 0, 0, 0, 0, 0, 5, 1, 0, 0, 0, 0, 0, 0]
  isWord := by decide
  noColon := by decide
  nine := by simp

def sda (name : PyStr) (h : PyStr.IsWord name) : Device where
  major := 8
  minor := 0
  name := name
  counters := [1, 0, 2, 0, 3, 0, 4, 0, 0, 0, 0]
  isWord := h
  seven := by decide

/-- A megabyte of memory; `sda1` is a part of `sda`. -/
def smallHost (busy idle received : UInt64) : Host where
  cpu := [busy, 0, 0, idle]
  four := by simp
  stat := [py "cpu0 1 0 0 1", py "ctxt 7"]
  stat_isFileLine := by decide
  memory := [⟨py "MemTotal", 1024, true, by decide, by decide⟩, ⟨py "HugePages_Total", 0, false, by decide, by decide⟩]
  keys_nodup := by decide
  total := 1024
  has_total := ⟨_, List.mem_cons_self, rfl, rfl, rfl⟩
  interfaces := [loopback, eth0 received]
  devices := [sda (py "sda") (by decide), sda (py "sda1") (by decide)]

/-- The widths of Linux 6. -/
def linuxLayout : Layout := ⟨16, 8, 6, fun n => [7, 7, 4, 4, 4, 5, 10, 9, 8, 7, 4, 4, 4, 5, 7, 10].getD n 0, 4, 7⟩

def outputsOf (proc : ExecResult) : Outputs := ⟨⟨1, [], []⟩, proc, ⟨1, [], []⟩, helloLog.ts⟩

/-- The second cycle's command fails; of the 100 ticks from the first to the third one 75 were idle. -/
theorem a_host_after_a_failure :
    ∃ s, (machine noLibrary cpuPercent "prod-a" .proc).run {}
        [outputsOf ⟨0, (smallHost 100 900 7).output linuxLayout, []⟩, outputsOf ⟨1, [], []⟩,
          outputsOf ⟨0, (smallHost 125 975 8).output linuxLayout, []⟩] = some s ∧
      ∃ r, s.shipped[2]? = some r ∧ r.cpuPct = some (.finite 25) ∧ r.netRxBytes = some 8 ∧ r.blkReadBytes = some 1024 := by
  have hdisk : DiskOk noLibrary ⟨1, [], []⟩ := .inl (by decide)
  have hhost : ∀ h : Host, Shows noLibrary (outputsOf ⟨0, h.output linuxLayout, []⟩) (some h) :=
    fun h => ⟨hdisk, linuxLayout, [], rfl⟩
  have hfailed : Shows noLibrary (outputsOf ⟨1, [], []⟩) none := ⟨hdisk, by decide, .inl (by decide)⟩
  obtain ⟨s, hrun, -, hrecords⟩ := a_run_shows_its_host noLibrary "prod-a"
    (.cons (hhost (smallHost 100 900 7)) (.cons hfailed (.cons (hhost (smallHost 125 975 8)) .nil)))
  refine ⟨s, hrun, ?_⟩
  obtain ⟨r, hr, disk, -, memPct, cpuPct, -, hsince, rfl⟩ := hrecords 2 _ _ rfl rfl
  have hcpu : cpuPercent (smallHost 100 900 7).sample (smallHost 125 975 8).sample = .ok (some (.finite 25)) := by decide +kernel
  have hsame : cpuPct = some (.finite 25) := Except.ok.inj (hsince.symm.trans hcpu)
  refine ⟨_, hr, hsame, ?_, ?_⟩
  · show (smallHost 125 975 8).net.map (·.1) = some 8
    decide +kernel
  · show (smallHost 125 975 8).disk.map (·.1) = some 1024
    decide +kernel

end LogSump.Listener.HostFiles
