/-
  LogSump.Server.Filters — what the filters of `GET /records` mean: `container_id` is matched
  exactly, `level` and `q` are for logs only.

  The code gives a metric record no level and an empty message. The level of no log is none, so
  that `level` keeps logs only; an empty `q` is found in every message, an empty one too.

  - `applyFilters_iff`: the filters mean this unless an empty `q` alone stands between a metric
    record and the answer.
  - `an_empty_needle_finds_a_metric`.
-/

import LogSump.Server.Queries

namespace LogSump.Server

open Common

/-- The record is what the request asks for. -/
def Matches (lower : String → String) (containerId level q : Option String) (r : Record) : Prop :=
  (∀ c ∈ containerId, r.containerId = c) ∧ (∀ l ∈ level, ∃ g, r = .log g ∧ g.level = l) ∧
    ∀ needle ∈ q, ∃ g, r = .log g ∧ (lower needle).toList <:+: (lower g.message).toList

/-- No metric record gets as far as an empty `q`. -/
def NeedleTells (lower : String → String) (records : List Record) (containerId level q : Option String) : Prop :=
  (∀ needle ∈ q, ¬ (lower needle).toList <:+: (lower "").toList) ∨ level.isSome ∨
    ∀ r ∈ records, r.kind = .metric → ∃ c ∈ containerId, r.containerId ≠ c

section

variable {lower : String → String} {containerId level q : Option String}

theorem level?_eq_some {r : Record} {l : String} : r.level? = some l ↔ ∃ g, r = .log g ∧ g.level = l := by
  cases r <;> simp [Record.level?]

/-- Of a log the code asks what the request asks for. -/
theorem passes_log (g : LogRecord) :
    Passes lower containerId level q (.log g) ↔ Matches lower containerId level q (.log g) := by
  simp only [Passes, Matches, level?_eq_some, Record.message, Record.log.injEq, exists_eq_left']

/-- Of a metric record the code asks for no `level`, and for a `q` that is in an empty message. -/
theorem passes_metric (m : MetricRecord) :
    Passes lower containerId level q (.metric m) ↔
      (∀ c ∈ containerId, m.containerId = c) ∧ level = none ∧ ∀ needle ∈ q, (lower needle).toList <:+: (lower "").toList := by
  simp only [Passes, Record.level?, Record.message, reduceCtorEq, imp_false]
  rw [← Option.eq_none_iff_forall_not_mem]
  rfl

theorem matches_metric (m : MetricRecord) :
    Matches lower containerId level q (.metric m) ↔ (∀ c ∈ containerId, m.containerId = c) ∧ level = none ∧ q = none := by
  simp only [Matches, reduceCtorEq, false_and, exists_false, imp_false]
  rw [← Option.eq_none_iff_forall_not_mem, ← Option.eq_none_iff_forall_not_mem]
  rfl

instance : DecidablePred (Matches lower containerId level q)
  | .log g => decidable_of_iff _ (passes_log g)
  | .metric m => decidable_of_iff _ (matches_metric m).symm

theorem filter_eq_iff {α : Type} {p p' : α → Prop} [DecidablePred p] [DecidablePred p'] (xs : List α) :
    (xs.filter fun x => p x) = (xs.filter fun x => p' x) ↔ ∀ x ∈ xs, (p x ↔ p' x) := by
  constructor
  · intro h x hx
    have hmem := congrArg (x ∈ ·) h
    simpa [List.mem_filter, hx] using hmem
  · intro h
    apply List.filter_congr
    intro x hx
    exact decide_eq_decide.mpr (h x hx)

end

/-- `apply_filters` returns the records that the request asks for, in their order, exactly where
    `q` is absent or not empty, a level is given, or no metric record has the container asked for. -/
theorem applyFilters_iff (lower : String → String) (records : List Record) (containerId level q : Option String) :
    applyFilters lower records containerId level q = records.filter (Matches lower containerId level q) ↔
      NeedleTells lower records containerId level q := by
  rw [applyFilters_eq, filter_eq_iff]
  constructor
  · intro h
    by_contra hn
    simp only [NeedleTells, not_or, not_forall, not_exists, not_and, not_not, Option.not_isSome_iff_eq_none] at hn
    obtain ⟨⟨needle, hq, hneedle⟩, hlevel, r, hr, hkind, hc⟩ := hn
    cases r with
    | log g => cases hkind
    | metric m =>
      -- the metric record passes for an empty needle, and the request does not ask for it
      have hpasses : Passes lower containerId level q (.metric m) := by
        refine passes_metric m |>.mpr ⟨hc, hlevel, ?_⟩
        intro needle' hq'
        cases Option.mem_unique hq hq'
        exact hneedle
      obtain ⟨-, -, hnone⟩ := (matches_metric m).mp ((h _ hr).mp hpasses)
      rw [hnone] at hq
      cases hq
  · intro h r hr
    cases r with
    | log g => exact passes_log g
    | metric m =>
      rw [passes_metric, matches_metric]
      apply and_congr_right
      intro hc
      apply and_congr_right
      intro hlevel
      constructor
      · intro hneedle
        rcases h with hq | hl | hm
        · exact Option.eq_none_iff_forall_not_mem.mpr fun needle hq' => hq needle hq' (hneedle needle hq')
        · rw [hlevel] at hl
          cases hl
        · obtain ⟨c, hc', hne⟩ := hm _ hr rfl
          exact absurd (hc c hc') hne
      · intro hq needle hq'
        rw [hq] at hq'
        cases hq'

/-- An empty `q` is answered with a sample. -/
theorem an_empty_needle_finds_a_metric :
    applyFilters String.toLower [.metric cpuMetric] none none (some "") ≠
      [Record.metric cpuMetric].filter (Matches String.toLower none none (some "")) := by
  intro h
  have hlen := congrArg List.length h
  revert hlen
  decide +kernel

end LogSump.Server
