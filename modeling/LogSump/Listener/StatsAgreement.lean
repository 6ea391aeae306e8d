/-
  LogSump.Listener.StatsAgreement — one output of `docker stats`, as the loop of the containers and
  the aggregate of the host read it.

  The loop skips the containers that it does not know, and stops at the first row that raises. The
  aggregate counts every container, and skips a line that is no JSON.

  - `row_agrees`: a row adds to the aggregate what its record says.
  - `sampled_parts`: the records that the loop ships, among the rows of the aggregate.
  - `the_aggregate_covers_the_records`: the aggregate is a total that has every record in it.
-/

import LogSump.Listener.ContainerStats
import LogSump.Listener.SystemStats

namespace LogSump.Listener.StatsAgreement

open Common Python Foundation Transport SystemStats
open ContainerStats (goodRecord Good knownRow_some_iff sampleLine sampleLine_raises sampleLine_ships sampleLine_raisedBy
  goodRecord_eq_none_iff)

/-- The CPU, the memory, and the received and sent bytes of a container, where they are known. -/
abbrev Part := Option PyFloat × Option Int × Option Int × Option Int

def partOf (r : MetricRecord) : Part := (r.cpuPct, r.memUsedBytes, r.netRxBytes, r.netTxBytes)

/-- The metrics of a host with these containers; none where there are none. -/
def totalOf (parts : List Part) : HostMetrics :=
  if parts = [] then {}
  else
    { cpuPct := some (parts.foldl (fun x p => x.add (p.1.getD (.finite 0))) (.finite 0))
      memUsedBytes := some (parts.map fun p => p.2.1.getD 0).sum
      netRxBytes := some (parts.map fun p => p.2.2.1.getD 0).sum
      netTxBytes := some (parts.map fun p => p.2.2.2.getD 0).sum }

/-- What the lines add to the aggregate. -/
def partsOf (L : Library) (lines : List PyStr) : List Part := (Loop.converted (aggregateRow L) lines).reduceOption

variable {L : Library} {dockerHost : String} {known : List PyVal} {now : Datetime}

/-! ## One row -/

theorem row_agrees {line : PyStr} {seq : Nat} {r : MetricRecord} (h : goodRecord L dockerHost known now line seq = some r) :
    aggregateRow L line = .ok (some (partOf r)) := by
  unfold goodRecord at h
  split at h
  · rename_i members hknown
    obtain ⟨hl, -⟩ := knownRow_some_iff.mp hknown
    have hrecord : ContainerStats.recordOf L dockerHost members now seq = .ok r := by
      cases hr : ContainerStats.recordOf L dockerHost members now seq with
      | error e =>
        rw [hr] at h
        cases h
      | ok r' =>
        rw [hr] at h
        cases h
        rfl
    obtain ⟨record, hp, h⟩ := bind_eq_ok hrecord
    obtain ⟨_, -, h⟩ := bind_eq_ok h
    cases h
    obtain ⟨mem, hmem, hp⟩ := bind_eq_ok hp
    obtain ⟨net, hnet, hp⟩ := bind_eq_ok hp
    obtain ⟨blk, -, hp⟩ := bind_eq_ok hp
    obtain ⟨containerName, -, hp⟩ := bind_eq_ok hp
    obtain ⟨containerId, -, hp⟩ := bind_eq_ok hp
    obtain ⟨cpuPct, hcpu, hp⟩ := bind_eq_ok hp
    obtain ⟨memPct, -, hp⟩ := bind_eq_ok hp
    obtain ⟨pids, -, hp⟩ := bind_eq_ok hp
    cases hp
    simp only [aggregateRow, hl, hcpu, hmem, hnet, ok_bind]
    rfl
  · cases h

/-- What the loop has shipped when it ends, at its first row that raises or after the last one. -/
theorem sampled_parts (dockerHost : String) (known : List PyVal) (now : Datetime) {lines : List PyStr}
    (h : ∀ line ∈ lines, ∃ r, aggregateRow L line = .ok r) (s : ContainerStats.St) :
    ∃ records, (Loop.run (sampleLine L dockerHost known now) s lines).1.shipped = s.shipped ++ records ∧
      (records.map partOf).Sublist (partsOf L lines) ∧
      ((∀ line ∈ lines, Good L dockerHost known now line) → records.map partOf = partsOf L lines) := by
  induction lines generalizing s with
  | nil => exact ⟨[], (List.append_nil _).symm, List.Sublist.refl _, fun _ => rfl⟩
  | cons line lines ih =>
    obtain ⟨row, hrow⟩ := h line List.mem_cons_self
    have hrest := fun l hl => h l (List.mem_cons_of_mem line hl)
    have hparts : partsOf L (line :: lines) = row.toList ++ partsOf L lines := by
      rw [partsOf, Loop.converted_cons_ok hrow]
      cases row with
      | none => rw [List.reduceOption_cons_of_none]; rfl
      | some p => rw [List.reduceOption_cons_of_some]; rfl
    have hlater : (partsOf L lines).Sublist (partsOf L (line :: lines)) := by
      rw [hparts]
      exact List.sublist_append_right _ _
    cases hraised : ContainerStats.raised L dockerHost known now line with
    | some e =>
      obtain ⟨-, hshipped, hnone⟩ := sampleLine_raises hraised s
      refine ⟨[], ?_, List.nil_sublist _, ?_⟩
      · rw [sampleLine_raisedBy.cons_some hraised, hshipped, List.append_nil]
      · intro hgood
        exact absurd (hgood line List.mem_cons_self) ((goodRecord_eq_none_iff line 0).mp (hnone 0))
    | none =>
      rcases sampleLine_ships hraised s with ⟨hnone, hs⟩ | ⟨r, hr, hs⟩
      · obtain ⟨records, hshipped, hsub, -⟩ := ih hrest s
        refine ⟨records, ?_, hsub.trans hlater, ?_⟩
        · rw [Loop.run_cons_none hs, hshipped]
        · intro hgood
          exact absurd (hgood line List.mem_cons_self) ((goodRecord_eq_none_iff line (s.seq + 1)).mp hnone)
      · obtain ⟨records, hshipped, hsub, hall⟩ := ih hrest ⟨s.seq + 1, s.shipped ++ [r]⟩
        have hpart : row = some (partOf r) := Except.ok.inj (hrow.symm.trans (row_agrees hr))
        rw [hpart, Option.toList_some, List.singleton_append] at hparts
        refine ⟨r :: records, ?_, ?_, ?_⟩
        · rw [Loop.run_cons_none hs, hshipped, List.append_assoc, List.singleton_append]
        · rw [hparts, List.map_cons]
          exact hsub.cons_cons _
        · intro hgood
          rw [hparts, List.map_cons, hall fun l hl => hgood l (List.mem_cons_of_mem line hl)]

/-! ## The total -/

theorem foldl_addAggregateRow (rows : List (Option Part)) (a : Aggregate) :
    rows.foldl addAggregateRow a =
      { cpuPct := rows.reduceOption.foldl (fun x p => x.add (p.1.getD (.finite 0))) a.cpuPct
        memUsed := a.memUsed + (rows.reduceOption.map fun p => p.2.1.getD 0).sum
        netRx := a.netRx + (rows.reduceOption.map fun p => p.2.2.1.getD 0).sum
        netTx := a.netTx + (rows.reduceOption.map fun p => p.2.2.2.getD 0).sum
        count := a.count + rows.reduceOption.length } := by
  induction rows generalizing a with
  | nil => simp
  | cons row rows ih =>
    cases row with
    | none =>
      rw [List.foldl_cons, ih, List.reduceOption_cons_of_none]
      rfl
    | some p =>
      obtain ⟨cpuPct, memUsed, netRx, netTx⟩ := p
      rw [List.foldl_cons, ih, List.reduceOption_cons_of_some]
      simp only [addAggregateRow, List.foldl_cons, List.map_cons, List.sum_cons, List.length_cons, Aggregate.mk.injEq, true_and]
      omega

/-- The aggregate of a command that has not failed. -/
theorem aggregate_eq_total {result : ExecResult} {m : HostMetrics} (hc : result.returncode = 0)
    (h : sampleContainerAggregate L result = .ok m) :
    (∀ line ∈ result.rows, ∃ r, aggregateRow L line = .ok r) ∧ m = totalOf (partsOf L result.rows) := by
  unfold sampleContainerAggregate at h
  rw [ExecResult.check_ok hc] at h
  obtain ⟨a, ha, h⟩ := bind_eq_ok h
  obtain ⟨hall, rfl⟩ := Loop.result_each_iff.mp ha
  refine ⟨hall, ?_⟩
  rw [foldl_addAggregateRow] at h
  unfold totalOf partsOf
  by_cases hnil : (Loop.converted (aggregateRow L) result.rows).reduceOption = []
  · simp only [hnil, List.length_nil, Nat.add_zero, if_true] at h ⊢
    cases h
    rfl
  · have hcount : ¬ (Loop.converted (aggregateRow L) result.rows).reduceOption.length = 0 := by
      rw [List.length_eq_zero_iff]
      exact hnil
    simp only [zero_add, hcount, hnil, if_false] at h ⊢
    cases h
    rfl

/-- Whatever `docker stats` returns, where the aggregate can be taken it is the total of some
    containers, in their order, among which are all those whose records the loop ships of the same
    output; and it is the total of these records where every row is good. -/
theorem the_aggregate_covers_the_records (L : Library) (dockerHost : String) (known : List PyVal) (now : Datetime)
    (s : ContainerStats.St) {result : ExecResult} {m : HostMetrics} (h : sampleContainerAggregate L result = .ok m) :
    ∃ parts records, m = totalOf parts ∧
      (ContainerStats.cycle L dockerHost known now s result).1.shipped = s.shipped ++ records ∧
      (records.map partOf).Sublist parts ∧
      ((∀ line ∈ ContainerStats.rowsOf result, Good L dockerHost known now line) → records.map partOf = parts) := by
  rw [ContainerStats.cycle_shipped]
  by_cases hc : result.returncode = 0
  · obtain ⟨hall, htotal⟩ := aggregate_eq_total hc h
    obtain ⟨records, hshipped, hsub, hgood⟩ := sampled_parts dockerHost known now hall s
    have honce : ContainerStats.sampleOnce L dockerHost known now s result =
        Loop.run (sampleLine L dockerHost known now) s result.rows := by
      rw [ContainerStats.sampleOnce, ExecResult.check_ok hc]
    have hrows : ContainerStats.rowsOf result = result.rows := if_pos hc
    rw [honce, hrows]
    exact ⟨partsOf L result.rows, records, htotal, hshipped, hsub, hgood⟩
  · obtain ⟨text, ht⟩ := ExecResult.check_error hc
    refine ⟨[], [], ?_, ?_, List.Sublist.refl _, fun _ => rfl⟩
    · unfold sampleContainerAggregate at h
      rw [ht] at h
      cases h
      rfl
    · rw [ContainerStats.sampleOnce, ht, List.append_nil]

/-- The loop stops at a line that is no JSON and ships one record; the aggregate has its CPU. -/
theorem one_record_is_covered :
    let result : ExecResult := ⟨0, ContainerStats.goodRow ++ py "\nx\n", []⟩
    let cycle := ContainerStats.cycle ContainerStats.rowLibrary "prod-a" ContainerStats.knownIds helloLog.ts {} result
    ∃ m parts records, sampleContainerAggregate ContainerStats.rowLibrary result = .ok m ∧ m = totalOf parts ∧
      cycle.1.shipped = records ∧ (records.map partOf).Sublist parts ∧ records.length = 1 := by
  intro result cycle
  have hlength : cycle.1.shipped.length = 1 := by decide +kernel
  have hok : error? (sampleContainerAggregate ContainerStats.rowLibrary result) = none := by decide +kernel
  obtain ⟨m, hm⟩ := error?_eq_none_iff.mp hok
  obtain ⟨parts, records, htotal, hshipped, hsub, -⟩ :=
    the_aggregate_covers_the_records ContainerStats.rowLibrary "prod-a" ContainerStats.knownIds helloLog.ts {} hm
  rw [List.nil_append] at hshipped
  exact ⟨m, parts, records, hm, htotal, hshipped, hsub, hshipped ▸ hlength⟩

end LogSump.Listener.StatsAgreement
