/-
  LogSump.Listener.CpuPercent — the `cpu_pct` of the host's records, over runs of the
  system-stats loop that read `/proc`, in exact arithmetic.

  The percentage is clamped from below only. The idle time, which counts iowait, may go down
  while the total goes up; the busy time then exceeds the total.

  - `exactPercent_iff`: two samples give a percentage where the total does not go up, or idle
    does not go down.
  - `percentages_iff`: the runs that ship percentages only.
  - `iowait_goes_down`.
-/

import LogSump.Listener.SystemStats

namespace LogSump.Listener.SystemStats

open Common Python Foundation Transport ProcFiles

/-- `_cpu_percent`, without rounding. -/
def exactPercent (prev curr : CpuSample) : Except PyError (Option PyFloat) :=
  let dTotal := curr.total - prev.total
  let dIdle := curr.idle - prev.idle
  if dTotal ≤ 0 then .ok none else .ok (some (.finite (max 0 (100 * (1 - (dIdle / dTotal : ℚ))))))

/-- The loop that reads `/proc`. -/
def procMachine (L : Library) (dockerHost : String) : Machine St Outputs := machine L exactPercent dockerHost .proc

/-- None, or between 0 and 100. -/
def IsPercentage (x : Option PyFloat) : Prop := ∀ v ∈ x, ∃ q : ℚ, v = .finite q ∧ 0 ≤ q ∧ q ≤ 100

/-- Of the records whose `cpu_pct` was made of two samples. -/
def ShipsPercentages (s : St) : Prop := ∀ r ∈ s.shipped, r.source = "/proc" → IsPercentage r.cpuPct

/-- From the sample before to this one the total does not go up, or idle does not go down. -/
def IdleKeepsUp (s : St) (o : Outputs) : Prop :=
  match parseProc o.proc with
  | .error _ => True
  | .ok (cpu, _) => ∀ prev ∈ s.prevCpu, cpu.1 ≤ prev.total ∨ prev.idle ≤ cpu.2

instance (s : St) (o : Outputs) : Decidable (IdleKeepsUp s o) := by
  unfold IdleKeepsUp
  split <;> infer_instance

/-! ## Two samples -/

/-- The side that is not clamped. -/
theorem percent_le_iff {dTotal : ℤ} (h : 0 < dTotal) (dIdle : ℤ) :
    max 0 (100 * (1 - (dIdle / dTotal : ℚ))) ≤ 100 ↔ 0 ≤ dIdle := by
  have hpos : (0 : ℚ) < dTotal := by exact_mod_cast h
  calc max 0 (100 * (1 - (dIdle / dTotal : ℚ))) ≤ 100
      ↔ 100 * (1 - (dIdle / dTotal : ℚ)) ≤ 100 := max_le_iff.trans (and_iff_right (by norm_num))
    _ ↔ 0 ≤ (dIdle / dTotal : ℚ) := by constructor <;> intro hle <;> linarith
    _ ↔ 0 ≤ dIdle := by rw [le_div_iff₀ hpos, zero_mul, Int.cast_nonneg_iff]

theorem exactPercent_iff {prev curr : CpuSample} {c : Option PyFloat} (h : exactPercent prev curr = .ok c) :
    IsPercentage c ↔ curr.total ≤ prev.total ∨ prev.idle ≤ curr.idle := by
  unfold exactPercent at h
  by_cases ht : curr.total - prev.total ≤ 0
  · simp only [ht, if_true] at h
    cases h
    refine ⟨fun _ => .inl (by omega), ?_⟩
    intro _ v hv
    cases hv
  · simp only [ht, if_false] at h
    cases h
    have hle := percent_le_iff (not_le.mp ht) (curr.idle - prev.idle)
    constructor
    · intro h
      obtain ⟨q, hq, -, h100⟩ := h _ rfl
      cases hq
      exact .inr (sub_nonneg.mp (hle.mp h100))
    · intro hkeeps v hv
      cases hv
      refine ⟨_, rfl, le_max_left _ _, ?_⟩
      apply hle.mpr
      omega

/-! ## Runs -/

variable {L : Library} {dockerHost : String}

/-- The record of a cycle is a percentage's where idle keeps up. -/
theorem cycle_ships_percentage {s s' : St} {o : Outputs} (h : cycle L exactPercent dockerHost .proc s o = .ok s') :
    ∃ r, s'.shipped = s.shipped ++ [r] ∧ ((r.source = "/proc" → IsPercentage r.cpuPct) ↔ IdleKeepsUp s o) := by
  obtain ⟨disk, host, -, hhost, -, rfl⟩ := cycle_ok.mp h
  refine ⟨_, rfl, ?_⟩
  show (host.2.1 = "/proc" → IsPercentage host.1.cpuPct) ↔ IdleKeepsUp s o
  unfold IdleKeepsUp
  cases hp : parseProc o.proc with
  | error e =>
    rw [sampleHost_of_error hp] at hhost
    obtain ⟨metrics, -, hhost⟩ := bind_eq_ok hhost
    cases hhost
    refine ⟨fun _ => trivial, ?_⟩
    intro _ hsource
    exact absurd hsource (show ("container-aggregate" : String) ≠ "/proc" by decide)
  | ok x =>
    obtain ⟨cpu, mem⟩ := x
    cases hprev : s.prevCpu with
    | none =>
      rw [hprev] at hhost
      obtain ⟨p, -, rfl⟩ := (sampleHost_first hp).mp hhost
      constructor
      · intro _ prev hnone
        cases hnone
      · intro _ _ v hnone
        cases hnone
    | some prev =>
      rw [hprev] at hhost
      obtain ⟨p, c, -, hc, rfl⟩ := (sampleHost_next hp).mp hhost
      have hiff := exactPercent_iff hc
      constructor
      · intro h prev' hsame
        cases hsame
        exact hiff.mp (h rfl)
      · intro h _
        exact hiff.mpr (h prev rfl)

theorem run_ships_percentages {cycles : List Outputs} {s s' : St} (h : (procMachine L dockerHost).run s cycles = some s') :
    ShipsPercentages s' ↔ ShipsPercentages s ∧ (procMachine L dockerHost).Along IdleKeepsUp s cycles := by
  induction cycles generalizing s with
  | nil =>
    cases h
    exact ⟨fun h => ⟨h, trivial⟩, And.left⟩
  | cons o cycles ih =>
    obtain ⟨t, ht, h⟩ := Machine.run_cons.mp h
    obtain ⟨r, hr, hiff⟩ := cycle_ships_percentage (step_eq_some_iff.mp ht)
    have ht' : ShipsPercentages t ↔ ShipsPercentages s ∧ IdleKeepsUp s o := by
      rw [← hiff]
      unfold ShipsPercentages
      rw [hr]
      simp [or_imp, forall_and]
    rw [ih h, ht', and_assoc]
    apply and_congr_right
    intro _
    constructor
    · intro halong
      obtain ⟨ho, hrest⟩ := halong
      refine ⟨ho, ?_⟩
      intro u hu
      rw [ht] at hu
      cases hu
      exact hrest
    · intro halong
      obtain ⟨ho, hrest⟩ := halong
      exact ⟨ho, hrest t ht⟩

/-- In a run of the loop that reads `/proc`, every `cpu_pct` that was made of two samples is none
    or between 0 and 100, exactly where from each sample to the next the total does not go up or
    idle does not go down. -/
theorem percentages_iff (L : Library) (dockerHost : String) {cycles : List Outputs} {s : St}
    (h : (procMachine L dockerHost).run {} cycles = some s) :
    ShipsPercentages s ↔ (procMachine L dockerHost).Along IdleKeepsUp {} cycles := by
  rw [run_ships_percentages h]
  refine ⟨And.right, fun h => ⟨?_, h⟩⟩
  intro r hr
  cases hr

/-! ## Samples of one host -/

def noLibrary : Library where
  fromisoformat _ := none
  loads _ := .error .valueError
  repr _ := .ok []
  maxDepth := 255

/-- `/proc` with a first line of counters, and a megabyte of memory. -/
def procOutputs (counters : String) : Outputs where
  df := ⟨1, [], []⟩
  proc := ⟨0, py ("===STAT===\ncpu  " ++ counters ++ "\n===MEMINFO===\nMemTotal: 1024 kB\n===NETDEV===\n===DISKSTATS===\n"), []⟩
  stats := ⟨1, [], []⟩
  now := helloLog.ts

/-- 75 of 100 ticks were idle. -/
theorem an_ordinary_pair_gives_a_percentage :
    ∃ s, (procMachine noLibrary "prod-a").run {} [procOutputs "100 0 100 800 0", procOutputs "120 0 105 875 0"] = some s ∧
      s.shipped.map (·.cpuPct) = [none, some (.finite 25)] ∧ ShipsPercentages s := by
  have hrun : ((procMachine noLibrary "prod-a").run {}
      [procOutputs "100 0 100 800 0", procOutputs "120 0 105 875 0"]).map (fun s => s.shipped.map (·.cpuPct)) =
        some [none, some (.finite 25)] := by decide +kernel
  obtain ⟨s, hs, hcpu⟩ := Option.map_eq_some_iff.mp hrun
  exact ⟨s, hs, hcpu, (percentages_iff noLibrary "prod-a" hs).mpr (by decide +kernel)⟩

/-- Between two samples 50 ticks pass, and iowait goes down by 50: the host was busy for 200 %. -/
theorem iowait_goes_down :
    ∃ s, (procMachine noLibrary "prod-a").run {} [procOutputs "100 0 100 800 100", procOutputs "150 0 150 800 50"] = some s ∧
      s.shipped.map (·.cpuPct) = [none, some (.finite 200)] ∧ ¬ ShipsPercentages s := by
  have hrun : ((procMachine noLibrary "prod-a").run {}
      [procOutputs "100 0 100 800 100", procOutputs "150 0 150 800 50"]).map
        (fun s => s.shipped.map fun r => (r.source, r.cpuPct)) = some [("/proc", none), ("/proc", some (.finite 200))] := by
    decide +kernel
  obtain ⟨s, hs, hcpu⟩ := Option.map_eq_some_iff.mp hrun
  have hpcts := congrArg (List.map Prod.snd) hcpu
  rw [List.map_map] at hpcts
  refine ⟨s, hs, hpcts, ?_⟩
  intro h
  have hmem : ("/proc", some (PyFloat.finite 200)) ∈ s.shipped.map fun r => (r.source, r.cpuPct) := by rw [hcpu]; simp
  obtain ⟨r, hr, he⟩ := List.mem_map.mp hmem
  obtain ⟨hsource, hpct⟩ := Prod.mk.inj he
  obtain ⟨q, hq, -, h100⟩ := h r hr hsource _ hpct
  cases hq
  norm_num at h100

end LogSump.Listener.SystemStats
