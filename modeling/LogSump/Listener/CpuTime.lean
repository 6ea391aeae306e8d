/-
  LogSump.Listener.CpuTime — the `cpu_pct` of two aggregate lines of `/proc/stat`, and the one in
  which each tick counts once.

  The kernel counts a guest's ticks in `user` and `nice` too, so the time that has passed is the sum
  of the first eight counters. `_parse_cpu_total_idle` adds all ten.

  - `parseCpuTotalIdle_line`: what the code reads from a line.
  - `cpuPct_iff`: the percentages are the same where no guest has run, or the host was never idle.
  - `a_guest_counts_twice`.
-/

import LogSump.Python.Numerals
import LogSump.Listener.CpuPercent

namespace LogSump.Listener.SystemStats

open Common Python Foundation ProcFiles

structure CpuCounters where
  user : Nat
  nice : Nat
  system : Nat
  idle : Nat
  iowait : Nat
  irq : Nat
  softirq : Nat
  steal : Nat
  guest : Nat
  guestNice : Nat

namespace CpuCounters

def toList (c : CpuCounters) : List Nat :=
  [c.user, c.nice, c.system, c.idle, c.iowait, c.irq, c.softirq, c.steal, c.guest, c.guestNice]

/-- Each tick once. -/
def elapsed (c : CpuCounters) : Nat := (c.toList.take 8).sum

def idleTime (c : CpuCounters) : Nat := c.idle + c.iowait

def guests (c : CpuCounters) : Nat := c.guest + c.guestNice

/-- No counter goes down. -/
def LE (a b : CpuCounters) : Prop := List.Forall₂ (· ≤ ·) a.toList b.toList

instance (a b : CpuCounters) : Decidable (a.LE b) := inferInstanceAs (Decidable (List.Forall₂ (· ≤ ·) a.toList b.toList))

end CpuCounters

/-- Digits, as many as `int` reads. -/
def IsCounter (text : PyStr) (n : Nat) : Prop :=
  text ≠ [] ∧ (∀ c ∈ text, c.decimal?.isSome) ∧ text.length ≤ 4300 ∧ natOf (text.filterMap PyChar.decimal?) = n

instance (text : PyStr) (n : Nat) : Decidable (IsCounter text n) :=
  inferInstanceAs (Decidable (text ≠ [] ∧ (∀ c ∈ text, c.decimal?.isSome = true) ∧ text.length ≤ 4300 ∧
    natOf (text.filterMap PyChar.decimal?) = n))

/-- The first line that starts with `cpu ` has these ten counters. -/
def HasCounters (statText : PyStr) (c : CpuCounters) : Prop :=
  ∃ line : PyStr, (statText.splitlines.find? fun line => (py "cpu ").isPrefixOf line) = some line ∧
    List.Forall₂ IsCounter (line.split.drop 1) c.toList

/-- The sample of a text; without a line of counters there is none. -/
def cpuSample (statText : PyStr) : Except PyError CpuSample := do
  match ← parseCpuTotalIdle statText with
  | none => .error .valueError
  | some cpu => return ⟨cpu.1, cpu.2⟩

/-- The `cpu_pct` between two texts. -/
def cpuPct (percent : CpuSample → CpuSample → Except PyError (Option PyFloat)) (prev curr : PyStr) :
    Except PyError (Option PyFloat) := do
  let p ← cpuSample prev
  let c ← cpuSample curr
  percent p c

/-! ## One line -/

theorem IsCounter.isdigit {text : PyStr} {n : Nat} (h : IsCounter text n) : text.isdigit :=
  ⟨h.1, fun c hc => .inl (h.2.1 c hc)⟩

theorem IsCounter.int? {text : PyStr} {n : Nat} (h : IsCounter text n) : Python.int? text = some (n : Int) := by
  obtain ⟨hne, hdigits, hlen, rfl⟩ := h
  exact int?_decimals hne hdigits hlen

theorem counters_line {line : PyStr} {ns : List Nat} (h : List.Forall₂ IsCounter (line.split.drop 1) ns) :
    counters line = .ok (ns.map (Nat.cast : Nat → Int)) := by
  unfold counters
  generalize line.split.drop 1 = ps at h ⊢
  induction h with
  | nil => rfl
  | cons hp _ ih =>
    rw [List.filter_cons_of_pos (by simpa using hp.isdigit), List.mapM_cons, hp.int?, ih]
    rfl

theorem toList_sum (c : CpuCounters) : c.toList.sum = c.elapsed + c.guests := by
  simp only [CpuCounters.elapsed, CpuCounters.guests, CpuCounters.toList, List.take_succ_cons, List.take_zero, List.sum_cons,
    List.sum_nil]
  omega

theorem parseCpuTotalIdle_line {statText : PyStr} {c : CpuCounters} (h : HasCounters statText c) :
    parseCpuTotalIdle statText = .ok (some ((c.elapsed + c.guests : Nat), (c.idleTime : Nat))) := by
  obtain ⟨line, hline, hcounters⟩ := h
  simp only [parseCpuTotalIdle, hline, counters_line hcounters, ok_bind]
  show Except.ok (some ((c.toList.map (Nat.cast : Nat → Int)).sum, (c.idle : Int) + (c.iowait : Int))) = _
  rw [← Nat.cast_list_sum, toList_sum, CpuCounters.idleTime, Nat.cast_add c.idle]

theorem cpuSample_line {statText : PyStr} {c : CpuCounters} (h : HasCounters statText c) :
    cpuSample statText = .ok ⟨(c.elapsed + c.guests : Nat), (c.idleTime : Nat)⟩ := by
  rw [cpuSample, parseCpuTotalIdle_line h]
  rfl

/-! ## Two lines -/

/-- The two percentages, of `dIdle` ticks among `dElapsed`, of which guests had `dGuests`. -/
theorem percent_eq_iff {dIdle dElapsed dGuests : ℚ} (hidle : dIdle ≤ dElapsed) (hpos : 0 < dElapsed) (hguests : 0 ≤ dGuests) :
    max 0 (100 * (1 - dIdle / (dElapsed + dGuests))) = 100 * (1 - dIdle / dElapsed) ↔ dGuests = 0 ∨ dIdle = 0 := by
  have hsum : 0 < dElapsed + dGuests := by linarith
  have hle : dIdle / (dElapsed + dGuests) ≤ 1 := (div_le_one hsum).mpr (by linarith)
  rw [max_eq_right (by linarith), mul_right_inj' (by norm_num), sub_right_inj, div_eq_div_iff hsum.ne' hpos.ne']
  constructor
  · intro h
    have hzero : dGuests * dIdle = 0 := by linarith
    exact mul_eq_zero.mp hzero
  · intro h
    rcases h with rfl | rfl
    · rw [add_zero]
    · rw [zero_mul, zero_mul]

/-- The idle ticks are among those that have passed. -/
theorem CpuCounters.LE.ticks {a b : CpuCounters} (h : a.LE b) :
    a.guests ≤ b.guests ∧ a.idleTime ≤ b.idleTime ∧ b.idleTime + a.elapsed ≤ a.idleTime + b.elapsed := by
  simp only [LE, toList, List.forall₂_cons, List.forall₂_nil_left_iff] at h
  simp only [guests, idleTime, elapsed, toList, List.take_succ_cons, List.take_zero, List.sum_cons, List.sum_nil]
  omega

theorem exactPercent_counters {a b : CpuCounters} (hguests : a.guests ≤ b.guests) (hpos : a.elapsed < b.elapsed) :
    exactPercent ⟨(a.elapsed + a.guests : Nat), a.idleTime⟩ ⟨(b.elapsed + b.guests : Nat), b.idleTime⟩ =
      .ok (some (.finite (max 0 (100 * (1 - ((b.idleTime : ℚ) - a.idleTime) /
        (((b.elapsed : ℚ) - a.elapsed) + ((b.guests : ℚ) - a.guests))))))) := by
  have hdiff : ¬ (((b.elapsed + b.guests : Nat) : Int) - (a.elapsed + a.guests : Nat) ≤ 0) := by omega
  simp only [exactPercent, hdiff, if_false]
  push_cast
  rw [add_sub_add_comm]

/-- Between two texts of counters that do not go down while time passes, the `cpu_pct` is that of
    the ticks that have passed, each counted once, exactly where the guests had none of them or the
    host was idle in none of them. It is then also that of the doubles. -/
theorem cpuPct_iff {prev curr : PyStr} {a b : CpuCounters} (ha : HasCounters prev a) (hb : HasCounters curr b) (hle : a.LE b)
    (hpos : a.elapsed < b.elapsed) :
    (cpuPct exactPercent prev curr =
        .ok (some (.finite (100 * (1 - ((b.idleTime : ℚ) - a.idleTime) / ((b.elapsed : ℚ) - a.elapsed))))) ↔
      b.guests = a.guests ∨ b.idleTime = a.idleTime) ∧
    (b.guests = a.guests ∨ b.idleTime = a.idleTime →
      cpuPct cpuPercent prev curr = cpuPercent ⟨a.elapsed, a.idleTime⟩ ⟨b.elapsed, b.idleTime⟩) := by
  obtain ⟨hguests, hidle, hticks⟩ := hle.ticks
  refine ⟨?_, ?_⟩
  · rw [cpuPct, cpuSample_line ha, cpuSample_line hb, ok_bind, ok_bind, exactPercent_counters hguests hpos]
    simp only [Except.ok.injEq, Option.some.injEq, PyFloat.finite.injEq]
    have hticks' : (b.idleTime : ℚ) + a.elapsed ≤ a.idleTime + b.elapsed := by exact_mod_cast hticks
    have hpos' : (a.elapsed : ℚ) < b.elapsed := by exact_mod_cast hpos
    have hguests' : (a.guests : ℚ) ≤ b.guests := by exact_mod_cast hguests
    rw [percent_eq_iff (by linarith) (by linarith) (by linarith), sub_eq_zero, sub_eq_zero, Nat.cast_inj, Nat.cast_inj]
  · intro h
    rw [cpuPct, cpuSample_line ha, cpuSample_line hb, ok_bind, ok_bind]
    have hwith : ¬ (((b.elapsed + b.guests : Nat) : Int) - (a.elapsed + a.guests : Nat) ≤ 0) := by omega
    have hwithout : ¬ ((b.elapsed : Int) - a.elapsed ≤ 0) := by omega
    simp only [cpuPercent, hwith, hwithout, if_false]
    rcases h with hg | hi
    · -- the guests' ticks cancel out
      have htotal : ((b.elapsed + b.guests : Nat) : Int) - (a.elapsed + a.guests : Nat) = (b.elapsed : Int) - a.elapsed := by omega
      rw [htotal]
    · -- nothing is divided
      rw [hi, sub_self, PyFloat.divInt_congr]
      rw [Int.cast_zero, zero_div, zero_div]

/-- The line of a text that is this line only. -/
theorem hasCounters_line {line : PyStr} {c : CpuCounters} (h : line.splitlines = [line]) (hcpu : (py "cpu ").isPrefixOf line)
    (hcounters : List.Forall₂ IsCounter (line.split.drop 1) c.toList) : HasCounters line c := by
  refine ⟨line, ?_, hcounters⟩
  rw [h, List.find?_cons_of_pos hcpu]

def bootCounters : CpuCounters := ⟨100, 0, 100, 800, 0, 0, 0, 0, 0, 0⟩

def bootLine : PyStr := py "cpu  100 0 100 800 0 0 0 0 0 0"

theorem bootLine_hasCounters : HasCounters bootLine bootCounters :=
  hasCounters_line (by decide +kernel) (by decide +kernel) (by decide +kernel)

/-- Of 100 ticks 50 were idle, and no guest has run. -/
theorem without_guests_half_the_time_is_idle :
    cpuPct exactPercent bootLine (py "cpu  150 0 100 850 0 0 0 0 0 0") = .ok (some (.finite 50)) := by
  have hafter : HasCounters (py "cpu  150 0 100 850 0 0 0 0 0 0") ⟨150, 0, 100, 850, 0, 0, 0, 0, 0, 0⟩ :=
    hasCounters_line (by decide +kernel) (by decide +kernel) (by decide +kernel)
  refine ((cpuPct_iff bootLine_hasCounters hafter (by decide +kernel) (by decide +kernel)).1.mpr (by decide +kernel)).trans ?_
  norm_num [CpuCounters.idleTime, CpuCounters.elapsed, CpuCounters.toList, bootCounters]

/-- The other 50 ticks were a guest's: the percentage is 66.7 where the host was idle half the time. -/
theorem a_guest_counts_twice :
    let after : CpuCounters := ⟨150, 0, 100, 850, 0, 0, 0, 0, 50, 0⟩
    let line := py "cpu  150 0 100 850 0 0 0 0 50 0"
    HasCounters bootLine bootCounters ∧ HasCounters line after ∧ bootCounters.LE after ∧ bootCounters.elapsed < after.elapsed ∧
      cpuPct exactPercent bootLine line = .ok (some (.finite (200 / 3))) ∧
      100 * (1 - ((after.idleTime : ℚ) - bootCounters.idleTime) / ((after.elapsed : ℚ) - bootCounters.elapsed)) = 50 := by
  refine ⟨bootLine_hasCounters, hasCounters_line ?_ ?_ ?_, ?_, ?_, ?_, ?_⟩ <;> decide +kernel

end LogSump.Listener.SystemStats
