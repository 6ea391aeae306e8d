/-
  LogSump.Listener.ContainerStats — `container_stats.py`: one cycle of the loop that samples a
  daemon's containers.

  The rows of a cycle share one `try`: the first row that raises ends the cycle, and those
  after it have no record. What is raised is caught only where it is a TransportError or a
  ValueError.

  - `raised_eq_some_iff`, `good_iff`: what a row raises, and which rows are good.
  - `run_ships`: rows that raise nothing are shipped in order, with consecutive numbers.
  - `rows_are_independent_iff`: when a cycle ships every good row, and the loop goes on.
  - `a_bad_row_costs_the_rows_after_it`.
-/

import LogSump.Foundation.Loop
import LogSump.Listener.Units
import LogSump.Transport.Command

namespace LogSump.Listener.ContainerStats

open Common Python Foundation Transport

variable (L : Library)

/-- `_parse_stats_line`. -/
def parseStatsLine (dockerHost : String) (members : List (PyStr × PyVal)) (ts : Datetime) (seq : Nat) :
    Except PyError MetricRecord := do
  let mem ← pairOf L members "MemUsage"
  let net ← pairOf L members "NetIO"
  let blk ← pairOf L members "BlockIO"
  let containerName ← L.str (PyVal.getText members "Name")
  let containerId ← L.str (PyVal.getText members "ID")
  let cpuPct ← percentOf L members "CPUPerc"
  let memPct ← percentOf L members "MemPerc"
  let pids ← parseInt L (PyVal.get members "PIDs")
  return {
    dockerHost := dockerHost
    containerName := containerName
    containerId := containerId
    ts := ts
    seq := seq
    metricScope := .container
    cpuPct := cpuPct
    memUsedBytes := mem.1
    memLimitBytes := mem.2
    memPct := memPct
    netRxBytes := net.1
    netTxBytes := net.2
    blkReadBytes := blk.1
    blkWriteBytes := blk.2
    pids := pids
    source := "docker stats"
    raw := .dict members }

/-- The record of a row, once pydantic has written it. -/
def recordOf (dockerHost : String) (members : List (PyStr × PyVal)) (ts : Datetime) (seq : Nat) : Except PyError MetricRecord := do
  let record ← parseStatsLine L dockerHost members ts seq
  dumpJson (record.Writable L.maxDepth)
  return record

/-- `data.get("ID") in known_ids`. -/
def isKnown (known : List PyVal) (containerId : PyVal) : Except PyError Bool :=
  if containerId.Hashable then .ok (decide (∃ k ∈ known, SameKey k containerId)) else .error .typeError

structure St where
  seq : Nat := 0
  shipped : List MetricRecord := []

section
variable (dockerHost : String) (known : List PyVal) (now : Datetime)

/-- The row of a known container; `none` is a row that is skipped. -/
def knownRow (line : PyStr) : Except PyError (Option (List (PyStr × PyVal))) :=
  match L.loads line with
  | .error e => .error e
  | .ok (.dict members) => do
    let found ← isKnown known (PyVal.get members "ID")
    return if found then some members else none
  | .ok _ => .error .attributeError

def sampleLine (s : St) (line : PyStr) : St × Option PyError :=
  match knownRow L known line with
  | .error e => (s, some e)
  | .ok none => (s, none)
  | .ok (some members) =>
    let seq := s.seq + 1
    match recordOf L dockerHost members now seq with
    | .error e => ({ s with seq }, some e)
    | .ok record => (⟨seq, s.shipped ++ [record]⟩, none)

/-- `_sample_once`; `known` are the ids of the registry. -/
def sampleOnce (s : St) (result : ExecResult) : St × Option PyError :=
  match result.check with
  | .error e => (s, some e)
  | .ok _ => Loop.run (sampleLine L dockerHost known now) s result.rows

/-- One cycle of `run_container_stats`; the loop goes on where nothing is raised out of it. -/
def cycle (s : St) (result : ExecResult) : St × Option PyError :=
  match sampleOnce L dockerHost known now s result with
  | (s', some e) => if e.Caught then (s', none) else (s', some e)
  | out => out

/-! ## Good rows -/

/-- The record of a JSON object whose id is known, where it has one. -/
def goodRecord (line : PyStr) (seq : Nat) : Option MetricRecord :=
  match knownRow L known line with
  | .ok (some members) => (recordOf L dockerHost members now seq).toOption
  | _ => none

def Good (line : PyStr) : Prop := (goodRecord L dockerHost known now line 0).isSome

/-- The records of the good rows, with consecutive numbers after `seq`. -/
def goodRecords (seq : Nat) : List PyStr → List MetricRecord
  | [] => []
  | line :: lines =>
    match goodRecord L dockerHost known now line (seq + 1) with
    | some record => record :: goodRecords (seq + 1) lines
    | none => goodRecords seq lines

/-- What a row raises. -/
def raised (line : PyStr) : Option PyError :=
  match knownRow L known line with
  | .error e => some e
  | .ok none => none
  | .ok (some members) => error? (recordOf L dockerHost members now 0)

end

variable {L} {dockerHost : String} {known : List PyVal} {now : Datetime}

/-! ## One row -/

/-- The number is that of the record, and decides nothing else. -/
theorem recordOf_seq (members : List (PyStr × PyVal)) (seq : Nat) :
    recordOf L dockerHost members now seq =
      (fun r : MetricRecord => { r with seq := seq }) <$> recordOf L dockerHost members now 0 := by
  have hp : parseStatsLine L dockerHost members now seq =
      (fun r : MetricRecord => { r with seq := seq }) <$> parseStatsLine L dockerHost members now 0 := by
    simp only [parseStatsLine, map_bind, map_pure]
  rw [recordOf, recordOf, hp]
  cases parseStatsLine L dockerHost members now 0 with
  | error e => rfl
  | ok r =>
    show (dumpJson (r.Writable L.maxDepth) >>= fun _ => .ok { r with seq := seq }) =
      (fun r : MetricRecord => { r with seq := seq }) <$> (dumpJson (r.Writable L.maxDepth) >>= fun _ => .ok r)
    cases dumpJson (r.Writable L.maxDepth) <;> rfl

theorem recordOf_error {members : List (PyStr × PyVal)} {e : PyError} (h : recordOf L dockerHost members now 0 = .error e)
    (seq : Nat) : recordOf L dockerHost members now seq = .error e := by
  rw [recordOf_seq, h]
  rfl

/-- A row that raises has no record, and its cycle ships nothing for it. -/
theorem sampleLine_raises {line : PyStr} {e : PyError} (h : raised L dockerHost known now line = some e) (s : St) :
    (sampleLine L dockerHost known now s line).2 = some e ∧ (sampleLine L dockerHost known now s line).1.shipped = s.shipped ∧
      ∀ seq, goodRecord L dockerHost known now line seq = none := by
  unfold raised at h
  unfold sampleLine goodRecord
  cases hk : knownRow L known line with
  | error e' =>
    rw [hk] at h
    cases h
    exact ⟨rfl, rfl, fun _ => rfl⟩
  | ok row =>
    rw [hk] at h
    cases row with
    | none => cases h
    | some members =>
      have hr := recordOf_error (error?_eq_some_iff.mp h)
      simp [hr, Except.toOption]

/-- A row that raises nothing is shipped where it is good. -/
theorem sampleLine_ships {line : PyStr} (h : raised L dockerHost known now line = none) (s : St) :
    (goodRecord L dockerHost known now line (s.seq + 1) = none ∧ sampleLine L dockerHost known now s line = (s, none)) ∨
      ∃ r, goodRecord L dockerHost known now line (s.seq + 1) = some r ∧
        sampleLine L dockerHost known now s line = (⟨s.seq + 1, s.shipped ++ [r]⟩, none) := by
  unfold raised at h
  unfold sampleLine goodRecord
  cases hk : knownRow L known line with
  | error e =>
    rw [hk] at h
    cases h
  | ok row =>
    rw [hk] at h
    cases row with
    | none => exact .inl ⟨rfl, rfl⟩
    | some members =>
      obtain ⟨r, hr⟩ := error?_eq_none_iff.mp h
      simp only [recordOf_seq members (s.seq + 1), hr]
      exact .inr ⟨_, rfl, rfl⟩

theorem sampleLine_raisedBy : Loop.RaisedBy (sampleLine L dockerHost known now) (raised L dockerHost known now) := by
  intro s line
  cases h : raised L dockerHost known now line with
  | some e => exact (sampleLine_raises h s).1
  | none =>
    rcases sampleLine_ships h s with ⟨-, hs⟩ | ⟨r, -, hs⟩
    · rw [hs]
    · rw [hs]

/-- Whether a row is good, its number does not decide. -/
theorem goodRecord_eq_none_iff (line : PyStr) (seq : Nat) :
    goodRecord L dockerHost known now line seq = none ↔ ¬ Good L dockerHost known now line := by
  unfold Good goodRecord
  rw [Option.not_isSome_iff_eq_none]
  split
  · rename_i members _
    rw [recordOf_seq members seq]
    cases recordOf L dockerHost members now 0 <;> simp [Functor.map, Except.map, Except.toOption]
  · exact Iff.rfl

theorem knownRow_dict {line : PyStr} {members : List (PyStr × PyVal)} (h : L.loads line = .ok (.dict members)) :
    knownRow L known line =
      (isKnown known (PyVal.get members "ID")).map fun found => if found then some members else none := by
  rw [knownRow, h]
  rfl

/-- The texts of a row can be converted, and the row itself can be written. -/
structure Convertible (L : Library) (members : List (PyStr × PyVal)) : Prop where
  mem : ∃ p, pairOf L members "MemUsage" = .ok p
  net : ∃ p, pairOf L members "NetIO" = .ok p
  blk : ∃ p, pairOf L members "BlockIO" = .ok p
  name : IsText (L.str (PyVal.getText members "Name"))
  id : IsText (L.str (PyVal.getText members "ID"))
  cpu : ∃ x, percentOf L members "CPUPerc" = .ok x
  memPct : ∃ x, percentOf L members "MemPerc" = .ok x
  pids : ∃ n, parseInt L (PyVal.get members "PIDs") = .ok n
  raw : (PyVal.dict members).Writable L.maxDepth

theorem recordOf_ok_iff {members : List (PyStr × PyVal)} {seq : Nat} :
    (∃ r, recordOf L dockerHost members now seq = .ok r) ↔ Convertible L members := by
  constructor
  · intro h
    obtain ⟨r, h⟩ := h
    obtain ⟨record, hp, h⟩ := bind_eq_ok h
    obtain ⟨_, hdump, -⟩ := bind_eq_ok h
    obtain ⟨mem, hmem, hp⟩ := bind_eq_ok hp
    obtain ⟨net, hnet, hp⟩ := bind_eq_ok hp
    obtain ⟨blk, hblk, hp⟩ := bind_eq_ok hp
    obtain ⟨containerName, hname, hp⟩ := bind_eq_ok hp
    obtain ⟨containerId, hid, hp⟩ := bind_eq_ok hp
    obtain ⟨cpuPct, hcpu, hp⟩ := bind_eq_ok hp
    obtain ⟨memPct, hpct, hp⟩ := bind_eq_ok hp
    obtain ⟨pids, hpids, hp⟩ := bind_eq_ok hp
    cases hp
    obtain ⟨hn, hi, hraw, -⟩ := of_dumpJson hdump
    exact ⟨⟨mem, hmem⟩, ⟨net, hnet⟩, ⟨blk, hblk⟩, ⟨containerName, hname, hn⟩, ⟨containerId, hid, hi⟩, ⟨cpuPct, hcpu⟩,
      ⟨memPct, hpct⟩, ⟨pids, hpids⟩, hraw⟩
  · intro h
    obtain ⟨⟨mem, hmem⟩, ⟨net, hnet⟩, ⟨blk, hblk⟩, ⟨containerName, hname, hn⟩, ⟨containerId, hid, hi⟩, ⟨cpuPct, hcpu⟩,
      ⟨memPct, hpct⟩, ⟨pids, hpids⟩, hraw⟩ := h
    unfold recordOf parseStatsLine
    simp only [hmem, hnet, hblk, hname, hid, hcpu, hpct, hpids, ok_bind, pure, Except.pure]
    rw [dumpJson_true]
    · exact ⟨_, rfl⟩
    · refine ⟨hn, hi, hraw, ?_⟩
      intro e he
      cases he

theorem knownRow_some_iff {line : PyStr} {members : List (PyStr × PyVal)} :
    knownRow L known line = .ok (some members) ↔
      L.loads line = .ok (.dict members) ∧ isKnown known (PyVal.get members "ID") = .ok true := by
  constructor
  · intro h
    unfold knownRow at h
    split at h
    · cases h
    · rename_i hl
      obtain ⟨found, hk, h⟩ := bind_eq_ok h
      cases found with
      | false => cases h
      | true =>
        cases h
        exact ⟨hl, hk⟩
    · cases h
  · intro h
    obtain ⟨hl, hk⟩ := h
    rw [knownRow_dict hl, hk]
    rfl

/-- The good rows: JSON objects with a known id that can be converted and written. -/
theorem good_iff {line : PyStr} :
    Good L dockerHost known now line ↔
      ∃ members, L.loads line = .ok (.dict members) ∧ isKnown known (PyVal.get members "ID") = .ok true ∧
        Convertible L members := by
  constructor
  · intro h
    unfold Good goodRecord at h
    split at h
    · rename_i members hk
      obtain ⟨hl, hknown⟩ := knownRow_some_iff.mp hk
      refine ⟨members, hl, hknown, ?_⟩
      cases hr : recordOf L dockerHost members now 0 with
      | error e =>
        rw [hr] at h
        cases h
      | ok r => exact recordOf_ok_iff.mp ⟨r, hr⟩
    · cases h
  · intro h
    obtain ⟨members, hl, hknown, hc⟩ := h
    have hrecord : ∃ r, recordOf L dockerHost members now 0 = .ok r := recordOf_ok_iff.mpr hc
    obtain ⟨r, hr⟩ := hrecord
    unfold Good goodRecord
    rw [knownRow_some_iff.mpr ⟨hl, hknown⟩]
    simp only [hr]
    rfl

/-! ## A cycle -/

theorem goodRecords_append (seq : Nat) (xs ys : List PyStr) :
    goodRecords L dockerHost known now seq (xs ++ ys) = goodRecords L dockerHost known now seq xs ++
      goodRecords L dockerHost known now (seq + (goodRecords L dockerHost known now seq xs).length) ys := by
  induction xs generalizing seq with
  | nil => rfl
  | cons x xs ih =>
    rw [List.cons_append, goodRecords, goodRecords]
    cases goodRecord L dockerHost known now x (seq + 1) with
    | none => exact ih seq
    | some r =>
      simp only [ih, List.cons_append, List.length_cons]
      rw [Nat.add_right_comm, Nat.add_assoc]

theorem goodRecords_eq_nil_iff (seq : Nat) (lines : List PyStr) :
    goodRecords L dockerHost known now seq lines = [] ↔ ∀ line ∈ lines, ¬ Good L dockerHost known now line := by
  induction lines generalizing seq with
  | nil => simp [goodRecords]
  | cons line lines ih =>
    rw [goodRecords, List.forall_mem_cons, ← goodRecord_eq_none_iff line (seq + 1)]
    cases goodRecord L dockerHost known now line (seq + 1) with
    | none => simp [ih]
    | some r => simp

/-- Rows that raise nothing: the good ones are shipped, in order and with consecutive numbers. -/
theorem run_ships {lines : List PyStr} (h : ∀ line ∈ lines, raised L dockerHost known now line = none) (s : St) :
    (Loop.run (sampleLine L dockerHost known now) s lines).1 =
      ⟨s.seq + (goodRecords L dockerHost known now s.seq lines).length,
        s.shipped ++ goodRecords L dockerHost known now s.seq lines⟩ := by
  induction lines generalizing s with
  | nil => simp [Loop.run, goodRecords]
  | cons line lines ih =>
    have hrest := fun l hl => h l (List.mem_cons_of_mem _ hl)
    rw [goodRecords]
    rcases sampleLine_ships (h line List.mem_cons_self) s with ⟨hg, hs⟩ | ⟨r, hg, hs⟩
    · rw [Loop.run_cons_none hs, ih hrest, hg]
    · rw [Loop.run_cons_none hs, ih hrest, hg, List.append_assoc]
      simp only [List.length_cons, List.singleton_append, St.mk.injEq, and_true]
      omega

/-- The rows of a command that has not failed. -/
def rowsOf (result : ExecResult) : List PyStr := if result.returncode = 0 then result.rows else []

/-- The cycle ships the records of the good rows, in order and with the next numbers, and the
    loop goes on. -/
def Independent (L : Library) (dockerHost : String) (known : List PyVal) (now : Datetime) (s : St) (result : ExecResult)
    (out : St × Option PyError) : Prop :=
  out.1.shipped = s.shipped ++ goodRecords L dockerHost known now s.seq (rowsOf result) ∧ out.2 = none

/-- The first row that raises, if there is one, raises what is caught, and no row after it is good. -/
def LastsToTheEnd (L : Library) (dockerHost : String) (known : List PyVal) (now : Datetime) (result : ExecResult) : Prop :=
  Loop.First (raised L dockerHost known now) (rowsOf result) fun e after =>
    e.Caught ∧ ∀ line ∈ after, ¬ Good L dockerHost known now line

theorem cycle_shipped (s : St) (result : ExecResult) :
    (cycle L dockerHost known now s result).1 = (sampleOnce L dockerHost known now s result).1 := by
  unfold cycle
  split
  · rename_i h
    split <;> rw [h]
  · rfl

theorem cycle_ends_iff (s : St) (result : ExecResult) :
    (cycle L dockerHost known now s result).2 = none ↔
      ∀ e, (sampleOnce L dockerHost known now s result).2 = some e → e.Caught := by
  unfold cycle
  split
  · rename_i s' e h
    rw [h]
    split
    · rename_i hc
      simpa using hc
    · rename_i hc
      simpa using hc
  · rename_i h
    cases hs : (sampleOnce L dockerHost known now s result).2 with
    | none => simp
    | some e => exact (h _ e (Prod.ext rfl hs)).elim

/-- A cycle ships every good row and the loop goes on, exactly where the first row that raises,
    if there is one, raises a TransportError or a ValueError, and no row after it is good. -/
theorem rows_are_independent_iff (L : Library) (dockerHost : String) (known : List PyVal) (now : Datetime) (s : St)
    (result : ExecResult) :
    Independent L dockerHost known now s result (cycle L dockerHost known now s result) ↔
      LastsToTheEnd L dockerHost known now result := by
  rw [Independent, LastsToTheEnd, cycle_shipped, cycle_ends_iff]
  by_cases hc : result.returncode = 0
  · have hrows : rowsOf result = result.rows := if_pos hc
    have honce : sampleOnce L dockerHost known now s result =
        Loop.run (sampleLine L dockerHost known now) s result.rows := by
      rw [sampleOnce, ExecResult.check_ok hc]
    rw [hrows, honce]
    rcases Loop.none_or_split (raised L dockerHost known now) result.rows with hnone | ⟨pre, line, post, e, hsplit, hpre, hline⟩
    · have hend : (Loop.run (sampleLine L dockerHost known now) s result.rows).2 = none :=
        (Loop.run_none_iff sampleLine_raisedBy).mpr hnone
      rw [run_ships hnone, hend]
      exact ⟨fun _ => Loop.first_of_none hnone _, fun _ => ⟨rfl, fun e he => by cases he⟩⟩
    · obtain ⟨hraises, hships, hrecord⟩ := sampleLine_raises hline
        (Loop.run (sampleLine L dockerHost known now) s pre).1
      -- the numbers of the rows after it do not matter to what they are
      have hpost := @goodRecords_eq_nil_iff L dockerHost known now
        (s.seq + (goodRecords L dockerHost known now s.seq pre).length) post
      rw [Loop.first_iff hsplit hpre hline, hsplit, Loop.run_eq_split sampleLine_raisedBy hpre hline, hships, hraises,
        run_ships hpre, goodRecords_append, goodRecords, hrecord, ← hpost]
      simp [and_comm]
  · obtain ⟨text, ht⟩ := ExecResult.check_error hc
    have hrows : rowsOf result = [] := if_neg hc
    have honce : sampleOnce L dockerHost known now s result = (s, some (.transportError text)) := by rw [sampleOnce, ht]
    rw [hrows, honce]
    refine ⟨fun _ => Loop.first_of_none (by simp) _, fun _ => ⟨(List.append_nil _).symm, ?_⟩⟩
    intro e h
    cases h
    trivial

/-! ## A bad row before a good one -/

def badRow : PyStr := py "\x7b\"ID\":\"a1b2c3d4e5f6\",\"NetIO\":\"1.2.3kB / 0B\"\x7d"

def goodRow : PyStr := py "\x7b\"ID\":\"b1c2d3e4f5a6\",\"CPUPerc\":\"1.50%\"\x7d"

/-- The libraries on these rows. -/
def rowLibrary : Library where
  fromisoformat _ := none
  loads text :=
    if text = badRow then .ok (.dict [(py "ID", .str (py "a1b2c3d4e5f6")), (py "NetIO", .str (py "1.2.3kB / 0B"))])
    else if text = goodRow then .ok (.dict [(py "ID", .str (py "b1c2d3e4f5a6")), (py "CPUPerc", .str (py "1.50%"))])
    else if text = py "null" then .ok .none
    else .error .valueError
  repr _ := .ok []
  maxDepth := 255

def knownIds : List PyVal := [.str (py "a1b2c3d4e5f6"), .str (py "b1c2d3e4f5a6")]

/-- A size that `float` refuses costs the good row its record too; a `null` ends the loop. -/
theorem a_bad_row_costs_the_rows_after_it :
    let after := fun bad : PyStr => ExecResult.mk 0 (bad ++ py "\n" ++ goodRow ++ py "\n") []
    let cycle := cycle rowLibrary "prod-a" knownIds helloLog.ts {}
    (goodRecords rowLibrary "prod-a" knownIds helloLog.ts 0 (rowsOf (after badRow))).length = 1 ∧
      (cycle (after badRow)).1.shipped.length = 0 ∧
      ¬ Independent rowLibrary "prod-a" knownIds helloLog.ts {} (after badRow) (cycle (after badRow)) ∧
      (cycle (after (py "null"))).2 = some .attributeError ∧
      ¬ Independent rowLibrary "prod-a" knownIds helloLog.ts {} (after (py "null")) (cycle (after (py "null"))) := by
  intro after cycle
  have hgood : (goodRecords rowLibrary "prod-a" knownIds helloLog.ts 0 (rowsOf (after badRow))).length = 1 := by decide +kernel
  have hshipped : (cycle (after badRow)).1.shipped.length = 0 := by decide +kernel
  have hends : (cycle (after (py "null"))).2 = some .attributeError := by decide +kernel
  refine ⟨hgood, hshipped, ?_, hends, ?_⟩
  · intro hships
    obtain ⟨h, -⟩ := hships
    rw [h, List.length_append, hgood] at hshipped
    cases hshipped
  · intro hships
    obtain ⟨-, h⟩ := hships
    rw [hends] at h
    cases h

end LogSump.Listener.ContainerStats
