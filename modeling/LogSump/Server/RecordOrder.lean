/-
  LogSump.Server.RecordOrder — the order of the records on a page.

  The page is sorted by `ts`, stably: two records with equal `ts` stand as they stood on the
  fetched pages, logs before metrics and each kind in the order of its stream, which is the
  order of ingestion. The schema's tie-breaker `seq` is not in the sort key.

  - `answer_sorted`: the answer rearranges the fetched records that pass the filters, sorts
    them, and keeps ties as they were.
  - `order_iff`: ties come in the order of `seq` exactly where they were fetched so.
  - `a_tie_keeps_the_order_of_ingestion`: two lines of one microsecond, ingested in either
    order.
-/

import LogSump.Server.MixedOffsets

namespace LogSump.Server

open Common Python Redis

/-- Two records of one source with equal `ts` come in the order of `seq`. -/
def TiesInSeq {σ : Type} (source : Record → σ) (records : List Record) : Prop :=
  records.Pairwise fun a b => a.instant = b.instant → source a = source b → a.seq < b.seq

instance {σ : Type} [DecidableEq σ] (source : Record → σ) : DecidablePred (TiesInSeq source) := fun records =>
  inferInstanceAs (Decidable (records.Pairwise fun a b => a.instant = b.instant → source a = source b → a.seq < b.seq))

/-- What the pages hold for the request, logs first. -/
def fetched (R : Runtime) (req : RecordsRequest) (logs metrics : Page) : List Record :=
  applyFilters R.lower (logs.records ++ metrics.records) req.containerId req.level req.q

/-- The records of a page in order: all that was fetched, sorted by `ts`, and the ties of each
    source by `seq`. -/
def OrderedPage {σ : Type} (source : Record → σ) (fetched records : List Record) : Prop :=
  records.Perm fetched ∧ records.Pairwise (·.instant ≤ ·.instant) ∧ TiesInSeq source records

variable {R : Runtime} {req : RecordsRequest} {logs metrics : Page} {σ : Type} {source : Record → σ}

theorem answer_sorted (haware : ∀ r ∈ logs.records ++ metrics.records, r.ts.Aware) :
    ∃ page, answer R req logs metrics = .ok page ∧ page.records.Perm (fetched R req logs metrics) ∧
      page.records.Pairwise (·.instant ≤ ·.instant) ∧
      ∀ t, page.records.filter (·.instant = t) = (fetched R req logs metrics).filter (·.instant = t) := by
  have hc : ComparesBy (fun a b : Record => a.ts.lt? b.ts) Record.instant (logs.records ++ metrics.records) :=
    fun a ha b hb => Datetime.lt?_aware (haware a ha) (haware b hb)
  have hu : Uniform RecordAware (logs.records ++ metrics.records) := fun a ha b hb => iff_of_true (haware a ha) (haware b hb)
  obtain ⟨sorted, hs⟩ := Option.isSome_iff_exists.mp ((sort_isSome_iff _).mpr hu)
  refine ⟨_, by rw [answer, hs], ?_, ?_, ?_⟩
  · exact applyFilters_perm R.lower (sortBy_perm hs) _ _ _
  · rw [applyFilters_eq]
    exact (sortBy_sorted hc hs).filter _
  · intro t
    rw [fetched, applyFilters_eq, applyFilters_eq, List.filter_comm, sortBy_filter hc hs t, List.filter_comm]

theorem TiesInSeq.congr {xs ys : List Record}
    (h : ∀ t, xs.filter (·.instant = t) = ys.filter (·.instant = t)) :
    TiesInSeq source xs ↔ TiesInSeq source ys := by
  unfold TiesInSeq
  simp only [pairwise_ties_iff, h]

/-- One source's records, sorted by `ts` and then by `seq`, can stand in one order only. -/
theorem source_order_unique [DecidableEq σ] {xs ys : List Record} (hperm : xs.Perm ys)
    (hx : xs.Pairwise (·.instant ≤ ·.instant)) (hy : ys.Pairwise (·.instant ≤ ·.instant))
    (htx : TiesInSeq source xs) (hty : TiesInSeq source ys) (s : σ) :
    xs.filter (source · = s) = ys.filter (source · = s) := by
  have hboth : ∀ {zs : List Record}, zs.Pairwise (·.instant ≤ ·.instant) → TiesInSeq source zs →
      (zs.filter (source · = s)).Pairwise
        fun a b => a.instant ≤ b.instant ∧ (a.instant = b.instant → a.seq < b.seq) := by
    intro zs hz ht
    rw [List.pairwise_filter]
    refine (hz.and ht).imp fun hab ha hb => ⟨hab.1, fun he => hab.2 he ?_⟩
    exact (of_decide_eq_true ha).trans (of_decide_eq_true hb).symm
  refine (hperm.filter _).eq_of_pairwise (fun a b _ _ hab hba => ?_) (hboth hx htx) (hboth hy hty)
  have he : a.instant = b.instant := le_antisymm hab.1 hba.1
  have h1 := hab.2 he
  have h2 := hba.2 he.symm
  omega

/-- Of any two pages whose timestamps have an offset, and for any naming of the records'
    sources: the answer is in order exactly where the fetched records with equal `ts` already
    came in the order of `seq`; and two answers made of the same records in different
    orders agree on each source where both are. -/
theorem order_iff (R : Runtime) (req : RecordsRequest) (logs metrics : Page)
    (haware : ∀ r ∈ logs.records ++ metrics.records, r.ts.Aware) {σ : Type} [DecidableEq σ] (source : Record → σ) :
    ((∃ page, answer R req logs metrics = .ok page ∧ OrderedPage source (fetched R req logs metrics) page.records) ↔
        TiesInSeq source (fetched R req logs metrics)) ∧
      ∀ logs' metrics' : Page, (fetched R req logs' metrics').Perm (fetched R req logs metrics) →
        (∀ r ∈ logs'.records ++ metrics'.records, r.ts.Aware) →
        TiesInSeq source (fetched R req logs metrics) → TiesInSeq source (fetched R req logs' metrics') →
        ∃ page page', answer R req logs metrics = .ok page ∧ answer R req logs' metrics' = .ok page' ∧
          ∀ s, page.records.filter (source · = s) = page'.records.filter (source · = s) := by
  obtain ⟨page, hpage, hperm, hsorted, hties⟩ := @answer_sorted R req logs metrics haware
  refine ⟨?_, ?_⟩
  · constructor
    · intro h
      obtain ⟨page', hpage', -, -, ht⟩ := h
      rw [hpage] at hpage'
      cases hpage'
      exact (TiesInSeq.congr hties).mp ht
    · intro ht
      exact ⟨page, hpage, hperm, hsorted, (TiesInSeq.congr hties).mpr ht⟩
  · intro logs' metrics' hsame haware' ht ht'
    obtain ⟨page', hpage', hperm', hsorted', hties'⟩ := @answer_sorted R req logs' metrics' haware'
    refine ⟨page, page', hpage, hpage', ?_⟩
    have hboth : page.records.Perm page'.records := hperm.trans (hsame.symm.trans hperm'.symm)
    exact source_order_unique hboth hsorted hsorted' ((TiesInSeq.congr hties).mpr ht) ((TiesInSeq.congr hties').mpr ht')

/-! ## Two lines of one microsecond -/

/-- The line after `helloLog`, whose nanoseconds are cut to the same microsecond. -/
def secondLog : LogRecord :=
  { helloLog with seq := 2, message := "again", raw := "1970-01-01T00:00:05.000000001Z again" }

def secondText : String :=
  "\x7b\"docker_host\":\"prod-a\",\"container_name\":\"web-1\",\"container_id\":\"a1b2c3d4e5f6\"," ++
    "\"ts\":\"1970-01-01T00:00:05Z\",\"seq\":2,\"kind\":\"log\",\"stream\":\"stdout\",\"level\":\"info\"," ++
    "\"message\":\"again\",\"fields\":\x7b\x7d,\"raw\":\"1970-01-01T00:00:05.000000001Z again\"\x7d"

def tiedRuntime : Runtime :=
  { helloRuntime with adapter := .ofTexts [(helloText, .log helloLog), (secondText, .log secondLog)] }

def tiedStore (batch : List (String × U64)) : Store := history tiedRuntime.adapter helloKeys [.ingest batch]

/-- The source of a record where each kind of a container has had one run. -/
def kindAndContainer (r : Record) : Kind × String := (r.kind, r.containerId)

theorem exists_page {x : Except Failure RecordsPage} {P : RecordsPage → Prop} [DecidablePred P]
    (h : x.toOption.any (fun page => decide (P page)) = true) : ∃ page, x = .ok page ∧ P page := by
  cases x with
  | error e => cases h
  | ok page => exact ⟨page, rfl, of_decide_eq_true h⟩

/-- Both lines of one container have the same `ts`; the page shows them in the order in which
    they were ingested, the second line first where it came first. -/
theorem a_tie_keeps_the_order_of_ingestion :
    (∃ page, getRecords tiedRuntime {} tenSeconds (tiedStore [(helloText, 5000), (secondText, 6000)]) prodRequest =
        .ok page ∧ page.records.map Record.seq = [1, 2] ∧ TiesInSeq kindAndContainer page.records) ∧
      ∃ page, getRecords tiedRuntime {} tenSeconds (tiedStore [(secondText, 5000), (helloText, 6000)]) prodRequest =
        .ok page ∧ page.records.map Record.seq = [2, 1] ∧ (∀ r ∈ page.records, r.ts.Aware) ∧
          ¬ TiesInSeq kindAndContainer page.records := by
  constructor
  · apply exists_page
    decide +kernel
  · apply exists_page
    decide +kernel

/-- Fetched in the order of `seq`, they are shown so. -/
theorem a_tie_in_seq_is_shown_in_seq :
    let logs : Page := ⟨[(⟨5000, 0⟩, .log helloLog), (⟨6000, 0⟩, .log secondLog)], none⟩
    ∃ page, answer tiedRuntime prodRequest logs ⟨[], none⟩ = .ok page ∧
      OrderedPage kindAndContainer (fetched tiedRuntime prodRequest logs ⟨[], none⟩) page.records := by
  intro logs
  exact (order_iff tiedRuntime prodRequest logs ⟨[], none⟩ (by decide) kindAndContainer).1.mpr (by decide +kernel)

end LogSump.Server
