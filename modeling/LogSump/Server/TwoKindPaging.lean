/-
  LogSump.Server.TwoKindPaging — a client that pages through both kinds of one window: it
  passes each cursor that is not null back, leaves a null one out, and stops when both are
  null.

  A null cursor in a response means that the kind is exhausted, but a request without a
  cursor starts at the window's beginning. So when one kind ends on an earlier page than the
  other, it starts again.

  - `pages_length_ge`: a traversal returns at least what is left of both kinds, and more
    when they end on different pages and neither is empty.
  - `both_kinds_once_iff`: when every entry is received exactly once.
-/

import LogSump.Foundation.Paging
import LogSump.Server.LenientPaging
import LogSump.Server.Records

namespace LogSump.Server.TwoKindPaging

open Common Python Redis Foundation

/-- The client's request for both kinds with these cursors. -/
def bothRequest (apiKey : Option String) (dockerHost : String) (start end_ : Datetime) (limit : Option Int)
    (cursors : Option String × Option String) : RecordsRequest where
  apiKey := apiKey
  dockerHost := dockerHost
  start := some start
  end_ := some end_
  limit := limit
  logCursor := cursors.1
  metricCursor := cursors.2

def nextCursors (p : RecordsPage) : Option (Option String × Option String) :=
  if p.nextLogCursor = none ∧ p.nextMetricCursor = none then none else some (p.nextLogCursor, p.nextMetricCursor)

/-! ## One kind -/

section Kind

variable {A : RecordAdapter} {n : Nat} {fetch : Option String → Except Failure Page} {all : List (StreamId × Fields)}

/-- `fetch` reads the list `all` of valid entries in pages of `n`. -/
structure Reads (A : RecordAdapter) (n : Nat) (fetch : Option String → Except Failure Page)
    (all : List (StreamId × Fields)) : Prop where
  valid : ∀ e ∈ all, Valid A e
  first : fetch none = pageOf A (all.take n) n
  after : ∀ pre e post, all = pre ++ e :: post → fetch (some e.1.print) = pageOf A (post.take n) n

/-- What is left of the list past a cursor. -/
def Leaves (all : List (StreamId × Fields)) : Option String → List (StreamId × Fields) → Prop
  | none, xs => xs = all
  | some c, xs => ∃ pre e, all = pre ++ e :: xs ∧ c = e.1.print

theorem Leaves.sub {c : Option String} {xs : List (StreamId × Fields)} (h : Leaves all c xs) : ∀ e ∈ xs, e ∈ all := by
  intro e he
  cases c with
  | none => exact h ▸ he
  | some c =>
    obtain ⟨pre, x, rfl, -⟩ := h
    exact List.mem_append_right _ (List.mem_cons_of_mem _ he)

/-- A page takes `n` entries of what is left. A short one has no cursor; a full one leaves
    the rest. -/
theorem Reads.step (hR : Reads A n fetch all) (hn : 1 ≤ n) {c : Option String} {xs : List (StreamId × Fields)}
    (h : Leaves all c xs) :
    ∃ p, fetch c = .ok p ∧ p.records = recordsOf A (xs.take n) ∧
      ((xs.length < n ∧ p.nextCursor = none) ∨
        (n ≤ xs.length ∧ p.nextCursor ≠ none ∧ Leaves all p.nextCursor (xs.drop n))) := by
  have hv : ∀ e ∈ xs.take n, Valid A e := fun e he => hR.valid e (h.sub e (List.mem_of_mem_take he))
  obtain ⟨next, hp, hnext⟩ := pageOf_valid hn (List.length_take_le n xs) hv
  have hf : fetch c = pageOf A (xs.take n) n := by
    cases c with
    | none => rw [show xs = all from h]; exact hR.first
    | some c =>
      obtain ⟨pre, e, hall, rfl⟩ := h
      exact hR.after pre e xs hall
  refine ⟨_, hf.trans hp, rfl, ?_⟩
  rcases hnext with ⟨hlt, rfl⟩ | ⟨pre, e, hpre, hlen, rfl⟩
  · refine .inl ⟨?_, rfl⟩
    rw [List.length_take] at hlt
    omega
  · rw [List.length_take] at hlen
    have hsplit : xs = pre ++ e :: xs.drop n := by
      conv_lhs => rw [← List.take_append_drop n xs, hpre]
      simp
    refine .inr ⟨by omega, by simp, ?_⟩
    cases c with
    | none => exact ⟨pre, e, (show xs = all from h) ▸ hsplit, rfl⟩
    | some c =>
      obtain ⟨pre', e', hall, -⟩ := h
      refine ⟨pre' ++ e' :: pre, e, ?_, rfl⟩
      rw [hall]
      conv_lhs => rw [hsplit]
      simp

end Kind

/-! ## Both kinds -/

section Both

variable {R : Runtime} {n : Nat} {fetchLog fetchMetric : Option String → Except Failure Page}
  {logs metrics : List (StreamId × Fields)} {request : Option String × Option String → Except Failure RecordsPage}

/-- `request` answers with one page of each kind, merged. -/
structure Merges (R : Runtime) (n : Nat) (fetchLog fetchMetric : Option String → Except Failure Page)
    (logs metrics : List (StreamId × Fields)) (request : Option String × Option String → Except Failure RecordsPage) :
    Prop where
  one_le : 1 ≤ n
  logs : Reads R.adapter n fetchLog logs
  metrics : Reads R.adapter n fetchMetric metrics
  answers : ∀ c, ∃ req : RecordsRequest, req.containerId = none ∧ req.level = none ∧ req.q = none ∧
    request c = (do
      let logPage ← fetchLog c.1
      let metricPage ← fetchMetric c.2
      answer R req logPage metricPage)

/-- What the client gets next of a kind: the rest, or everything again after a short page. -/
def rest (n : Nat) (all xs : List (StreamId × Fields)) : List (StreamId × Fields) :=
  if xs.length < n then all else xs.drop n

theorem rest_length (n : Nat) (all xs : List (StreamId × Fields)) :
    (xs.length < n ∧ (rest n all xs).length = all.length) ∨
      (n ≤ xs.length ∧ (rest n all xs).length = xs.length - n) := by
  unfold rest
  split
  · exact .inl ⟨by assumption, rfl⟩
  · exact .inr ⟨by omega, by simp⟩

/-- The records of one response. -/
def pair (R : Runtime) (n : Nat) (xs ys : List (StreamId × Fields)) : List Record :=
  recordsOf R.adapter (xs.take n) ++ recordsOf R.adapter (ys.take n)

theorem Reads.rest (hR : Reads R.adapter n fetchLog logs) (hn : 1 ≤ n) {c : Option String}
    {xs : List (StreamId × Fields)} (h : Leaves logs c xs) :
    ∃ p, fetchLog c = .ok p ∧ p.records = recordsOf R.adapter (xs.take n) ∧
      (p.nextCursor = none ↔ xs.length < n) ∧ Leaves logs p.nextCursor (rest n logs xs) := by
  obtain ⟨p, hf, hr, ⟨hlt, hc⟩ | ⟨hge, hc, hl⟩⟩ := hR.step hn h
  · refine ⟨p, hf, hr, by simp [hc, hlt], ?_⟩
    rw [TwoKindPaging.rest, if_pos hlt, hc]
    rfl
  · have hnlt : ¬ xs.length < n := by omega
    refine ⟨p, hf, hr, by simp [hc, hnlt], ?_⟩
    rwa [TwoKindPaging.rest, if_neg hnlt]

/-- One response: an error where timestamps with and without an offset meet, otherwise both
    pages, and cursors that leave the rest of each kind. -/
theorem Merges.step (hM : Merges R n fetchLog fetchMetric logs metrics request)
    {c : Option String × Option String} {xs ys : List (StreamId × Fields)} (hx : Leaves logs c.1 xs)
    (hy : Leaves metrics c.2 ys) :
    (¬ Uniform RecordAware (pair R n xs ys) ∧ request c = .error .typeError) ∨
      (Uniform RecordAware (pair R n xs ys) ∧ ∃ p, request c = .ok p ∧ p.records.Perm (pair R n xs ys) ∧
        ((xs.length < n ∧ ys.length < n ∧ nextCursors p = none) ∨
          ((n ≤ xs.length ∨ n ≤ ys.length) ∧ ∃ c', nextCursors p = some c' ∧ Leaves logs c'.1 (rest n logs xs) ∧
            Leaves metrics c'.2 (rest n metrics ys)))) := by
  obtain ⟨lp, hl, hlr, hlc, hll⟩ := hM.logs.rest hM.one_le hx
  obtain ⟨mp, hm, hmr, hmc, hml⟩ := hM.metrics.rest hM.one_le hy
  obtain ⟨req, h1, h2, h3, ha⟩ := hM.answers c
  have hpair : lp.records ++ mp.records = pair R n xs ys := by rw [hlr, hmr, pair]
  rw [ha, hl, ok_bind, hm, ok_bind]
  by_cases hu : Uniform RecordAware (pair R n xs ys)
  · obtain ⟨p, hp, hperm, hnl, hnm⟩ := answer_of_uniform (R := R) req (hpair.symm ▸ hu)
    rw [h1, h2, h3, applyFilters_none, hpair] at hperm
    refine .inr ⟨hu, p, hp, hperm, ?_⟩
    have hiff := and_congr hlc hmc
    rw [nextCursors, hnl, hnm]
    by_cases hboth : xs.length < n ∧ ys.length < n
    · exact .inl ⟨hboth.1, hboth.2, if_pos (hiff.mpr hboth)⟩
    · exact .inr ⟨by omega, (lp.nextCursor, mp.nextCursor), if_neg (hboth ∘ hiff.mp), hll, hml⟩
  · exact .inl ⟨hu, answer_of_not_uniform req (hpair.symm ▸ hu)⟩

theorem pair_length (hM : Merges R n fetchLog fetchMetric logs metrics request) {c : Option String × Option String}
    {xs ys : List (StreamId × Fields)} (hx : Leaves logs c.1 xs) (hy : Leaves metrics c.2 ys) :
    (pair R n xs ys).length = min n xs.length + min n ys.length := by
  have h1 : ∀ e ∈ xs.take n, Valid R.adapter e := fun e he => hM.logs.valid e (hx.sub e (List.mem_of_mem_take he))
  have h2 : ∀ e ∈ ys.take n, Valid R.adapter e := fun e he => hM.metrics.valid e (hy.sub e (List.mem_of_mem_take he))
  rw [pair, List.length_append, recordsOf_length h1, recordsOf_length h2, List.length_take, List.length_take]

/-- At least what is left of both kinds is returned, and more when they end on different
    pages and neither kind is empty. -/
theorem pages_length_ge (hM : Merges R n fetchLog fetchMetric logs metrics request)
    {c : Option String × Option String} {pages : List RecordsPage} (ht : Traversal request nextCursors c pages)
    {xs ys : List (StreamId × Fields)} (hx : Leaves logs c.1 xs) (hy : Leaves metrics c.2 ys) :
    xs.length + ys.length ≤ (pages.flatMap (·.records)).length ∧
      (logs ≠ [] → metrics ≠ [] → xs.length / n ≠ ys.length / n →
        xs.length + ys.length < (pages.flatMap (·.records)).length) := by
  have hn := hM.one_le
  induction ht generalizing xs ys with
  | last h hnone =>
    rcases hM.step hx hy with ⟨-, he⟩ | ⟨-, p', hp, hperm, hc⟩
    · rw [he] at h; cases h
    · rw [hp] at h; cases h
      have hlen := hperm.length_eq
      rw [pair_length hM hx hy] at hlen
      rcases hc with ⟨h1, h2, -⟩ | ⟨-, c', hc', -⟩
      · simp only [List.flatMap_cons, List.flatMap_nil, List.append_nil, hlen]
        refine ⟨by omega, fun _ _ hne => absurd ?_ hne⟩
        rw [Nat.div_eq_of_lt h1, Nat.div_eq_of_lt h2]
      · rw [hnone] at hc'; cases hc'
  | more h hsome _ ih =>
    rcases hM.step hx hy with ⟨-, he⟩ | ⟨-, p', hp, hperm, hc⟩
    · rw [he] at h; cases h
    · rw [hp] at h; cases h
      have hlen := hperm.length_eq
      rw [pair_length hM hx hy] at hlen
      rcases hc with ⟨-, -, hc'⟩ | ⟨hfull, c', hc', hlx, hly⟩
      · rw [hsome] at hc'; cases hc'
      · rw [hsome] at hc'; cases hc'
        obtain ⟨ih1, ih2⟩ := ih hlx hly
        simp only [List.flatMap_cons, List.length_append, hlen]
        have hrx := rest_length n logs xs
        have hry := rest_length n metrics ys
        refine ⟨by omega, fun hl hm hne => ?_⟩
        have hl' := List.length_pos_iff.mpr hl
        have hm' := List.length_pos_iff.mpr hm
        by_cases hboth : n ≤ xs.length ∧ n ≤ ys.length
        · -- both go on: their page counts differ as before
          have h1 : xs.length / n = (xs.length - n) / n + 1 := Nat.div_eq_sub_div hn hboth.1
          have h2 : ys.length / n = (ys.length - n) / n + 1 := Nat.div_eq_sub_div hn hboth.2
          have hx' : (rest n logs xs).length = xs.length - n := by omega
          have hy' : (rest n metrics ys).length = ys.length - n := by omega
          have := ih2 hl hm (by rw [hx', hy']; omega)
          omega
        · -- one kind starts again
          omega

/-- The two kinds end on the same page, or one is empty. -/
def Aligned (n : Nat) (logs metrics xs ys : List (StreamId × Fields)) : Prop :=
  (logs = [] ∧ xs = []) ∨ (metrics = [] ∧ ys = []) ∨ xs.length / n = ys.length / n

/-- Aligned kinds stay aligned: what the client gets next of each is its rest. -/
theorem Aligned.rest {xs ys : List (StreamId × Fields)} (hn : 1 ≤ n) (ha : Aligned n logs metrics xs ys)
    (hfull : n ≤ xs.length ∨ n ≤ ys.length) :
    TwoKindPaging.rest n logs xs = xs.drop n ∧ TwoKindPaging.rest n metrics ys = ys.drop n ∧
      Aligned n logs metrics (xs.drop n) (ys.drop n) := by
  rcases ha with ⟨rfl, rfl⟩ | ⟨rfl, rfl⟩ | hdiv
  · have hy : n ≤ ys.length := hfull.resolve_left (by simp; omega)
    exact ⟨by simp [TwoKindPaging.rest], if_neg (by omega), .inl ⟨rfl, by simp⟩⟩
  · have hx : n ≤ xs.length := hfull.resolve_right (by simp; omega)
    exact ⟨if_neg (by omega), by simp [TwoKindPaging.rest], .inr (.inl ⟨rfl, by simp⟩)⟩
  · have hge : ∀ a : List (StreamId × Fields), n ≤ a.length → a.length / n = (a.length - n) / n + 1 :=
      fun a h => Nat.div_eq_sub_div hn h
    have hlt : ∀ a : List (StreamId × Fields), a.length < n → a.length / n = 0 := fun a h => Nat.div_eq_of_lt h
    have hboth : n ≤ xs.length ∧ n ≤ ys.length := by
      rcases Nat.lt_or_ge xs.length n with hx | hx <;> rcases Nat.lt_or_ge ys.length n with hy | hy
      · omega
      · rw [hlt xs hx, hge ys hy] at hdiv; exact absurd hdiv (Nat.succ_ne_zero _).symm
      · rw [hge xs hx, hlt ys hy] at hdiv; exact absurd hdiv (Nat.succ_ne_zero _)
      · exact ⟨hx, hy⟩
    refine ⟨if_neg (by omega), if_neg (by omega), .inr (.inr ?_)⟩
    have h1 := hge xs hboth.1
    have h2 := hge ys hboth.2
    simp only [List.length_drop]
    omega

theorem perm_pair_iff {p : List Record} (rest : List Record) {xs ys : List (StreamId × Fields)} (hp : p.Perm (pair R n xs ys)) :
    (p ++ rest).Perm (recordsOf R.adapter xs ++ recordsOf R.adapter ys) ↔
      rest.Perm (recordsOf R.adapter (xs.drop n) ++ recordsOf R.adapter (ys.drop n)) := by
  have hx : recordsOf R.adapter xs = recordsOf R.adapter (xs.take n) ++ recordsOf R.adapter (xs.drop n) := by
    rw [← recordsOf_append, List.take_append_drop]
  have hy : recordsOf R.adapter ys = recordsOf R.adapter (ys.take n) ++ recordsOf R.adapter (ys.drop n) := by
    rw [← recordsOf_append, List.take_append_drop]
  have hswap : (recordsOf R.adapter xs ++ recordsOf R.adapter ys).Perm
      (pair R n xs ys ++ (recordsOf R.adapter (xs.drop n) ++ recordsOf R.adapter (ys.drop n))) := by
    rw [hx, hy, pair, List.append_assoc, List.append_assoc]
    exact (List.perm_append_comm_assoc _ _ _).append_left _
  constructor
  · intro h
    have := ((hp.append_right rest).symm.trans h).trans hswap
    exact (List.perm_append_left_iff _).mp this
  · exact fun h => ((hp.append_right rest).trans (h.append_left _)).trans hswap.symm

/-- With aligned kinds the client receives what is left of both exactly once, unless one of
    the responses fails. -/
theorem aligned_once_iff (hM : Merges R n fetchLog fetchMetric logs metrics request)
    {c : Option String × Option String} {xs ys : List (StreamId × Fields)} (hx : Leaves logs c.1 xs)
    (hy : Leaves metrics c.2 ys) (ha : Aligned n logs metrics xs ys) :
    (∃ pages, Traversal request nextCursors c pages ∧
        (pages.flatMap (·.records)).Perm (recordsOf R.adapter xs ++ recordsOf R.adapter ys)) ↔
      ∀ i, Uniform RecordAware (pair R n (xs.drop (i * n)) (ys.drop (i * n))) := by
  have hn := hM.one_le
  -- on what is left of both
  induction hk : xs.length + ys.length using Nat.strong_induction_on generalizing c xs ys with
  | _ k ih =>
    subst hk
    rcases hM.step hx hy with ⟨hu, he⟩ | ⟨hu, p, hp, hperm, hc⟩
    · refine iff_of_false (fun ⟨pages, ht, _⟩ => not_traversal_of_error request _ he pages ht) fun h => hu ?_
      simpa using h 0
    · rcases hc with ⟨hsx, hsy, hnone⟩ | ⟨hfull, c', hsome, hlx, hly⟩
      · refine iff_of_true ⟨[p], .last hp hnone, ?_⟩ fun i => ?_
        · have hd : xs.drop n = [] ∧ ys.drop n = [] := ⟨List.drop_of_length_le hsx.le, List.drop_of_length_le hsy.le⟩
          have := (perm_pair_iff [] hperm).mpr (by rw [hd.1, hd.2]; exact .refl _)
          simpa using this
        · rcases Nat.eq_zero_or_pos i with rfl | hi
          · simpa using hu
          · have hle : n ≤ i * n := Nat.le_mul_of_pos_left n hi
            rw [List.drop_of_length_le (by omega), List.drop_of_length_le (by omega)]
            exact fun a h => by simp [pair, recordsOf] at h
      · obtain ⟨hrx, hry, ha'⟩ := ha.rest hn hfull
        rw [hrx] at hlx
        rw [hry] at hly
        have hless : (xs.drop n).length + (ys.drop n).length < xs.length + ys.length := by
          simp only [List.length_drop]
          omega
        have hih := ih _ hless hlx hly ha' rfl
        have hdrop : ∀ (zs : List (StreamId × Fields)) i, (zs.drop n).drop (i * n) = zs.drop ((i + 1) * n) :=
          fun zs i => by rw [List.drop_drop]; congr 1; ring
        simp only [traversal_more_iff hp hsome]
        constructor
        · intro htrav
          obtain ⟨_, ⟨ps, rfl, ht⟩, h⟩ := htrav
          intro i
          rw [List.flatMap_cons, perm_pair_iff _ hperm] at h
          rcases i with _ | i
          · simpa using hu
          · have := hih.mp ⟨ps, ht, h⟩ i
            rwa [hdrop, hdrop] at this
        · intro h
          obtain ⟨ps, ht, hps⟩ := hih.mpr fun i => by rw [hdrop, hdrop]; exact h (i + 1)
          exact ⟨_, ⟨ps, rfl, ht⟩, by rw [List.flatMap_cons, perm_pair_iff _ hperm]; exact hps⟩

end Both

/-! ## The client -/

section Client

variable {R : Runtime} {settings : ServerConfig} {now : Datetime} {db : Store} {apiKey : Option String}
  {dockerHost : String} {start end_ : Datetime} {limit : Option Int}

theorem reads_kind {kind : Kind} {s : Stream Fields} {n : Nat} (hn : 1 ≤ n)
    (hs : streamAt db (streamKey dockerHost kind) = .ok s) (hv : ∀ e ∈ s.entries, Valid R.adapter e)
    (hw : ValidWindow (·.millis R.zone) start end_) :
    Reads R.adapter n (fun c => fetchKindPage R.adapter (·.millis R.zone) db dockerHost kind start end_ c n)
      (inRange (·.millis R.zone) s start end_) := by
  have hb := bounded_millis R.zone
  obtain ⟨⟨lo, hlo⟩, hi, hhi⟩ := (validWindow_iff hb).mp hw
  rw [inRange_eq hb hlo hhi]
  refine ⟨fun e he => hv e (Stream.mem_range.mp he).1, fetchKindPage_start hb hs hlo hhi (by omega), ?_⟩
  intro pre e post hsplit
  have he : e ∈ s.range (.from lo) hi := hsplit ▸ List.mem_append_right pre List.mem_cons_self
  have hne : e.1 ≠ maxId := ((Stream.mem_range.mp he).2.2.trans_lt (timeId_lt_maxId hb hhi)).ne
  refine (fetchKindPage_after hb hs hne hhi (by omega)).trans ?_
  rw [Stream.xrange, Int.toNat_natCast, Stream.range_after hsplit]

theorem getRecords_both (hperm : Permitted R db apiKey dockerHost) (c : Option String × Option String) :
    getRecords R settings now db (bothRequest apiKey dockerHost start end_ limit c) = (do
      let logPage ← fetchKindPage R.adapter (·.millis R.zone) db dockerHost .log start end_ c.1
        (effectiveLimit settings limit)
      let metricPage ← fetchKindPage R.adapter (·.millis R.zone) db dockerHost .metric start end_ c.2
        (effectiveLimit settings limit)
      answer R (bothRequest apiKey dockerHost start end_ limit c) logPage metricPage) :=
  getRecords_eq (show Permitted R db (bothRequest apiKey dockerHost start end_ limit c).apiKey dockerHost from hperm)

/-- Every entry of the window is received exactly once, precisely when the window lies after
    1970, the effective limit is positive, the two kinds end on the same page or one of them
    is empty, and on no page do timestamps with and without an offset meet. -/
theorem both_kinds_once_iff (R : Runtime) (settings : ServerConfig) (now : Datetime) (db : Store)
    (apiKey : Option String) (dockerHost : String) (start end_ : Datetime) (limit : Option Int)
    (logs metrics : Stream Fields) (hperm : Permitted R db apiKey dockerHost)
    (hlogs : streamAt db (streamKey dockerHost .log) = .ok logs)
    (hmetrics : streamAt db (streamKey dockerHost .metric) = .ok metrics)
    (hvl : ∀ e ∈ logs.entries, Valid R.adapter e) (hvm : ∀ e ∈ metrics.entries, Valid R.adapter e) :
    let L := inRange (·.millis R.zone) logs start end_
    let M := inRange (·.millis R.zone) metrics start end_
    let n := (effectiveLimit settings limit).toNat
    (∃ pages, Traversal (fun c => getRecords R settings now db (bothRequest apiKey dockerHost start end_ limit c))
        nextCursors (none, none) pages ∧
        (pages.flatMap (·.records)).Perm (recordsOf R.adapter L ++ recordsOf R.adapter M)) ↔
      ValidWindow (·.millis R.zone) start end_ ∧ 1 ≤ effectiveLimit settings limit ∧
        (L = [] ∨ M = [] ∨ L.length / n = M.length / n) ∧
        ∀ i, Uniform RecordAware (pair R n (L.drop (i * n)) (M.drop (i * n))) := by
  intro L M n
  have hb := bounded_millis R.zone
  by_cases hok : ValidWindow (·.millis R.zone) start end_ ∧ 1 ≤ effectiveLimit settings limit
  · obtain ⟨hw, hl⟩ := hok
    have hn : effectiveLimit settings limit = (n : Int) := by omega
    have hM : Merges R n _ _ L M
        (fun c => getRecords R settings now db (bothRequest apiKey dockerHost start end_ limit c)) :=
      { one_le := by omega
        logs := reads_kind (by omega) hlogs hvl hw
        metrics := reads_kind (by omega) hmetrics hvm hw
        answers := fun c => ⟨bothRequest apiKey dockerHost start end_ limit c, rfl, rfl, rfl, by
          rw [getRecords_both hperm, hn]⟩ }
    by_cases ha : L = [] ∨ M = [] ∨ L.length / n = M.length / n
    · have hal : Aligned n L M L M := ha.imp (fun h => ⟨h, h⟩) (Or.imp_left fun h => ⟨h, h⟩)
      exact (aligned_once_iff (c := (none, none)) hM rfl rfl hal).trans (by simp [hw, hl, ha])
    · refine iff_of_false (fun ⟨pages, ht, hp⟩ => ?_) fun h => ha h.2.2.1
      push Not at ha
      have hlt := (pages_length_ge hM ht (show Leaves L none L from rfl) (show Leaves M none M from rfl)).2 ha.1 ha.2.1 ha.2.2
      have hlen := hp.length_eq
      rw [List.length_append, recordsOf_length hM.logs.valid, recordsOf_length hM.metrics.valid] at hlen
      omega
  · have herr : ∃ e, fetchKindPage R.adapter (·.millis R.zone) db dockerHost .log start end_ none
        (effectiveLimit settings limit) = .error e := by
      rcases not_and_or.mp hok with hw | hl
      · refine fetchKindPage_start_error hb ?_
        by_contra h
        push Not at h
        exact hw ((validWindow_iff hb).mpr ⟨Option.ne_none_iff_exists'.mp h.1, Option.ne_none_iff_exists'.mp h.2⟩)
      · exact fetchKindPage_limit_error (by omega) none
    obtain ⟨e, he⟩ := herr
    have hreq : getRecords R settings now db (bothRequest apiKey dockerHost start end_ limit (none, none)) = .error e := by
      rw [getRecords_both hperm, he, error_bind]
    refine iff_of_false (fun ⟨pages, ht, _⟩ => ?_) fun h => hok ⟨h.1, h.2.1⟩
    exact not_traversal_of_error
      (fun c => getRecords R settings now db (bothRequest apiKey dockerHost start end_ limit c)) _ hreq pages ht

end Client

/-! ## Two pages -/

def oneLog : Stream Fields := .singleton ⟨5000, 0⟩ [("data", helloText)]

def threeLogs : Stream Fields :=
  (oneLog.add ⟨5000, 1⟩ [("data", helloText)] (by simp [oneLog, Stream.singleton, Stream.empty, Stream.add]; decide)).add
    ⟨5000, 2⟩ [("data", helloText)] (by simp [oneLog, Stream.singleton, Stream.empty, Stream.add]; decide)

def twoMetrics : Stream Fields :=
  (Stream.singleton ⟨6000, 0⟩ [("data", cpuText)]).add ⟨6000, 1⟩ [("data", cpuText)]
    (by simp [Stream.singleton, Stream.empty, Stream.add]; decide)

/-- The key `key-1` permits prod-a, which has these log records and two metric records. -/
def storeWith (logs : Stream Fields) : Store :=
  putStream (putStream helloKeys (streamKey "prod-a" .log) logs) (streamKey "prod-a" .metric) twoMetrics

/-- The window from 1970-01-01T00:00:00Z to ten seconds later, two entries of a kind to a page. -/
def helloRequest (cursors : Option String × Option String) : RecordsRequest :=
  bothRequest (some "key-1") "prod-a" epoch tenSeconds (some 2) cursors

/-- A page, from the kinds of its records and its cursors. -/
theorem page_of_view {db : Store} {c : Option String × Option String} {kinds : List Kind}
    {next : Option (Option String × Option String)}
    (h : (getRecords helloRuntime {} tenSeconds db (helloRequest c)).toOption.map
      (fun p => (p.records.map Record.kind, nextCursors p)) = some (kinds, next)) :
    ∃ p, getRecords helloRuntime {} tenSeconds db (helloRequest c) = .ok p ∧ p.records.map Record.kind = kinds ∧
      nextCursors p = next := by
  cases hg : getRecords helloRuntime {} tenSeconds db (helloRequest c) with
  | error e =>
    rw [hg] at h
    cases h
  | ok p =>
    rw [hg] at h
    cases h
    exact ⟨p, rfl, rfl, rfl⟩

/-- Both kinds end on the second page: every record is received once. -/
theorem both_kinds_end_together :
    ∃ pages, Traversal (fun c => getRecords helloRuntime {} tenSeconds (storeWith threeLogs) (helloRequest c)) nextCursors
        (none, none) pages ∧
      pages.map (fun p => p.records.map Record.kind) = [[.log, .log, .metric, .metric], [.log]] ∧
      (pages.flatMap (·.records)).Perm (recordsOf helloAdapter (inRange (·.millis .utc) threeLogs epoch tenSeconds) ++
        recordsOf helloAdapter (inRange (·.millis .utc) twoMetrics epoch tenSeconds)) := by
  have haware : ∀ s ∈ [threeLogs, twoMetrics], ∀ e ∈ s.entries, ∀ y ∈ decodeEntry helloAdapter e, y.2.ts.Aware := by
    decide +kernel
  have hall : ∀ s ∈ [threeLogs, twoMetrics], ∀ i n, ∀ r ∈ recordsOf helloAdapter
      (((inRange (·.millis .utc) s epoch tenSeconds).drop i).take n), RecordAware r := by
    intro s hs i n r hr
    obtain ⟨e, he, y, hd, rfl⟩ := mem_recordsOf hr
    exact haware s hs e (List.mem_filter.mp (List.mem_of_mem_drop (List.mem_of_mem_take he))).1 y hd
  have hpair : ∀ i n, ∀ r ∈ pair helloRuntime n ((inRange (·.millis .utc) threeLogs epoch tenSeconds).drop i)
      ((inRange (·.millis .utc) twoMetrics epoch tenSeconds).drop i), RecordAware r := fun i n r hr =>
    (List.mem_append.mp hr).elim (hall threeLogs (by simp) i n r) (hall twoMetrics (by simp) i n r)
  have hw : ValidWindow (·.millis .utc) epoch tenSeconds :=
    (validWindow_iff (bounded_millis .utc)).mpr ⟨⟨_, timeId_epoch .utc 0⟩, _, timeId_tenSeconds .utc maxU64⟩
  obtain ⟨pages, ht, hperm⟩ := (both_kinds_once_iff helloRuntime {} tenSeconds (storeWith threeLogs) (some "key-1") "prod-a"
    epoch tenSeconds (some 2) threeLogs twoMetrics ⟨["prod-a"], rfl, by decide⟩ rfl rfl (by decide +kernel)
    (by decide +kernel)).mpr ⟨hw, by decide, .inr (.inr (by decide +kernel)), fun i a ha b hb =>
      iff_of_true (hpair _ _ a ha) (hpair _ _ b hb)⟩
  refine ⟨pages, ht, ?_, hperm⟩
  -- the same two pages, read off the requests
  have h1 : (getRecords helloRuntime {} tenSeconds (storeWith threeLogs) (helloRequest (none, none))).toOption.map
      (fun p => (p.records.map Record.kind, nextCursors p)) =
        some ([.log, .log, .metric, .metric], some (some "5000-1", some "6000-1")) := by decide +kernel
  have h2 : (getRecords helloRuntime {} tenSeconds (storeWith threeLogs) (helloRequest (some "5000-1", some "6000-1"))).toOption.map
      (fun p => (p.records.map Record.kind, nextCursors p)) = some ([.log], none) := by decide +kernel
  obtain ⟨p, hp, hk, hn⟩ := page_of_view h1
  obtain ⟨q, hq, hk', hn'⟩ := page_of_view h2
  rw [ht.unique (.more hp hn (.last hq hn')), List.map_cons, List.map_singleton, hk, hk']

/-- The log stream ends on the first page and the metric stream on the second, which holds
    the log record again. -/
theorem a_short_kind_starts_again :
    (∃ pages, Traversal (fun c => getRecords helloRuntime {} tenSeconds (storeWith oneLog) (helloRequest c)) nextCursors
        (none, none) pages ∧ pages.map (fun p => p.records.map Record.kind) = [[.log, .metric, .metric], [.log]]) ∧
      ¬ ∃ pages, Traversal (fun c => getRecords helloRuntime {} tenSeconds (storeWith oneLog) (helloRequest c)) nextCursors
        (none, none) pages ∧
        (pages.flatMap (·.records)).Perm (recordsOf helloAdapter (inRange (·.millis .utc) oneLog epoch tenSeconds) ++
          recordsOf helloAdapter (inRange (·.millis .utc) twoMetrics epoch tenSeconds)) := by
  have h1 : (getRecords helloRuntime {} tenSeconds (storeWith oneLog) (helloRequest (none, none))).toOption.map
      (fun p => (p.records.map Record.kind, nextCursors p)) =
        some ([.log, .metric, .metric], some (none, some "6000-1")) := by decide +kernel
  have h2 : (getRecords helloRuntime {} tenSeconds (storeWith oneLog) (helloRequest (none, some "6000-1"))).toOption.map
      (fun p => (p.records.map Record.kind, nextCursors p)) = some ([.log], none) := by decide +kernel
  have hlen : (recordsOf helloAdapter (inRange (·.millis .utc) oneLog epoch tenSeconds) ++
      recordsOf helloAdapter (inRange (·.millis .utc) twoMetrics epoch tenSeconds)).length = 3 := by decide +kernel
  obtain ⟨p, hp, hk, hn⟩ := page_of_view h1
  obtain ⟨q, hq, hk', hn'⟩ := page_of_view h2
  have ht : Traversal (fun c => getRecords helloRuntime {} tenSeconds (storeWith oneLog) (helloRequest c)) nextCursors
      (none, none) [p, q] := .more hp hn (.last hq hn')
  refine ⟨⟨[p, q], ht, by simp [hk, hk']⟩, fun ⟨pages, ht', hperm⟩ => ?_⟩
  rw [ht'.unique ht] at hperm
  have hl := hperm.length_eq
  have hkl := congrArg List.length hk
  have hkl' := congrArg List.length hk'
  simp only [List.length_map, List.length_cons, List.length_nil] at hkl hkl'
  rw [hlen] at hl
  simp only [List.flatMap_cons, List.flatMap_nil, List.append_nil, List.length_append] at hl
  omega

end LogSump.Server.TwoKindPaging
