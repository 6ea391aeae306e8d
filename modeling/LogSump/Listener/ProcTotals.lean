/-
  LogSump.Listener.ProcTotals — the totals of `_parse_net_dev` and `_parse_diskstats`: the sums
  over the rows that the filters let through and whose two counters parse.

  The first counter of a row is added before the second one is read. A row whose second counter
  alone does not parse is skipped, and its first counter stays in the total.

  - `foldl_add`: what the loop of both parsers adds up.
  - `totals_iff`: the totals are those of the accepted rows where nothing is accepted, or what the
    skipped rows leave behind adds up to zero.
  - `a_skipped_row_is_counted`.
-/

import LogSump.Listener.ProcFiles

namespace LogSump.Listener.ProcFiles

open Common Python

/-- The two counters of a row, as texts. -/
abbrev Row := PyStr × PyStr

/-- A row of `/proc/net/dev` that has an interface name other than `lo`, and nine fields. -/
def netDevRow (line : PyStr) : Option Row :=
  match line.partition ':' with
  | (_, none) => none
  | (iface, some rest) =>
    if iface.strip = py "lo" ∨ iface.strip = [] ∨ rest.split.length < 9 then none
    else some (rest.split.getD 0 [], rest.split.getD 8 [])

/-- A row of `/proc/diskstats` that has ten fields, of a device that is not virtual and no partition. -/
def diskstatsRow (line : PyStr) : Option Row :=
  if line.split.length < 10 then none
  else if isVirtual (line.split.getD 2 []) || isPartition (line.split.getD 2 []) then none
  else some (line.split.getD 5 [], line.split.getD 9 [])

def Totals.addRow (t : Totals) (r : Row) : Totals := t.add r.1 r.2

/-- What a parser returns, whose counters are in units of so many bytes. -/
def Totals.result (unit : Int) (t : Totals) : Option (Int × Int) :=
  if t.found then some (t.first * unit, t.second * unit) else none

/-- The counters of the rows that have two. -/
def accepted (rows : List Row) : List (Int × Int) :=
  rows.filterMap fun r => (int? r.1).bind fun m => (int? r.2).map fun n => (m, n)

/-- The first counters of the rows that have no second one. -/
def leftBehind (rows : List Row) : List Int := rows.filterMap fun r => if int? r.2 = none then int? r.1 else none

/-- The totals of the accepted rows, in units of so many bytes. -/
def rowTotals (unit : Int) (rows : List Row) : Option (Int × Int) :=
  if accepted rows = [] then none
  else some (((accepted rows).map (·.1)).sum * unit, ((accepted rows).map (·.2)).sum * unit)

/-! ## The loop -/

theorem takeNetDev_eq (t : Totals) (line : PyStr) : takeNetDev t line = (netDevRow line).elim t t.addRow := by
  unfold takeNetDev netDevRow
  rcases line.partition ':' with ⟨iface, _ | rest⟩
  · rfl
  · simp only
    split <;> rfl

theorem takeDiskstats_eq (t : Totals) (line : PyStr) :
    takeDiskstats t line = (diskstatsRow line).elim t t.addRow := by
  unfold takeDiskstats diskstatsRow
  simp only
  split
  · rfl
  · split <;> rfl

/-- Only the rows that the filters let through count. -/
theorem foldl_rows {take : Totals → PyStr → Totals} {row : PyStr → Option Row}
    (h : ∀ t line, take t line = (row line).elim t t.addRow) (lines : List PyStr) (t : Totals) :
    lines.foldl take t = (lines.filterMap row).foldl Totals.addRow t := by
  induction lines generalizing t with
  | nil => rfl
  | cons line lines ih =>
    rw [List.foldl_cons, h, ih]
    cases hr : row line with
    | none => rw [List.filterMap_cons_none hr, Option.elim_none]
    | some r => rw [List.filterMap_cons_some hr, List.foldl_cons, Option.elim_some]

theorem foldl_add (rows : List Row) (t : Totals) :
    rows.foldl Totals.addRow t =
      ⟨t.first + ((accepted rows).map (·.1)).sum + (leftBehind rows).sum, t.second + ((accepted rows).map (·.2)).sum,
        t.found || accepted rows ≠ []⟩ := by
  induction rows generalizing t with
  | nil => simp [accepted, leftBehind]
  | cons r rows ih =>
    rw [List.foldl_cons, ih]
    unfold Totals.addRow Totals.add
    cases hm : int? r.1 with
    | none =>
      have ha : accepted (r :: rows) = accepted rows := List.filterMap_cons_none (by simp [hm])
      have hl : leftBehind (r :: rows) = leftBehind rows := List.filterMap_cons_none (by simp [hm])
      rw [ha, hl]
    | some m =>
      cases hn : int? r.2 with
      | none =>
        have ha : accepted (r :: rows) = accepted rows := List.filterMap_cons_none (by simp [hn])
        have hl : leftBehind (r :: rows) = m :: leftBehind rows := List.filterMap_cons_some (by simp [hm, hn])
        rw [ha, hl, List.sum_cons, Totals.mk.injEq]
        refine ⟨?_, rfl, rfl⟩
        dsimp only
        omega
      | some n =>
        have ha : accepted (r :: rows) = (m, n) :: accepted rows := List.filterMap_cons_some (by simp [hm, hn])
        have hl : leftBehind (r :: rows) = leftBehind rows := List.filterMap_cons_none (by simp [hn])
        rw [ha, hl, List.map_cons, List.map_cons, List.sum_cons, List.sum_cons, Totals.mk.injEq]
        dsimp only
        refine ⟨?_, ?_, ?_⟩
        · omega
        · omega
        · simp

theorem result_iff {unit : Int} (hunit : unit ≠ 0) (rows : List Row) :
    (rows.foldl Totals.addRow {}).result unit = rowTotals unit rows ↔
      accepted rows = [] ∨ (leftBehind rows).sum = 0 := by
  rw [foldl_add]
  unfold rowTotals Totals.result
  by_cases ha : accepted rows = []
  · simp [ha]
  · simp only [ha, ne_eq, not_false_eq_true, decide_true, Bool.or_true, if_true, if_false, false_or, zero_add, Option.some.injEq,
      Prod.mk.injEq, and_true, mul_eq_mul_right_iff, hunit, or_false]
    omega

/-- `_parse_net_dev` returns the totals of the accepted rows, and `_parse_diskstats` 512 times
    theirs, exactly where no row is accepted, or the first counters of the rows whose second counter
    alone does not parse add up to zero. -/
theorem totals_iff (text : PyStr) :
    (parseNetDev text = rowTotals 1 (text.splitlines.filterMap netDevRow) ↔
        accepted (text.splitlines.filterMap netDevRow) = [] ∨ (leftBehind (text.splitlines.filterMap netDevRow)).sum = 0) ∧
      (parseDiskstats text = rowTotals 512 (text.splitlines.filterMap diskstatsRow) ↔
        accepted (text.splitlines.filterMap diskstatsRow) = [] ∨
          (leftBehind (text.splitlines.filterMap diskstatsRow)).sum = 0) := by
  refine ⟨?_, ?_⟩
  · rw [← result_iff one_ne_zero, ← foldl_rows takeNetDev_eq, Totals.result, mul_one, mul_one]
    rfl
  · rw [← result_iff (show (512 : Int) ≠ 0 by decide), ← foldl_rows takeDiskstats_eq]
    rfl

/-- The received bytes of `eth0`, whose sent bytes do not parse, stay in the total. -/
theorem a_skipped_row_is_counted :
    let text := py "  eth0: 5 0 0 0 0 0 0 0 x\n  eth1: 1 0 0 0 0 0 0 0 2\n"
    parseNetDev text = some (6, 2) ∧ rowTotals 1 (text.splitlines.filterMap netDevRow) = some (1, 2) := by
  decide +kernel

end LogSump.Listener.ProcFiles
