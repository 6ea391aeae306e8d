/-
  LogSump.Server.LenientPaging — following `fetch_kind_page`'s own cursors over a stream
  some of whose entries are invalid: they lack the data field or fail the schema.

  A page's cursor is the ID of its last valid entry, but whether there is a next page is
  decided by the number of raw entries: a full page of invalid entries has no last valid
  entry, and `entries[-1]` raises.

  - `lenient_pages_iff`: the traversal ends and yields the valid entries of the window, each
    once and in order, exactly when the window does not begin or end before 1970 and no
    `limit` consecutive entries of it are all invalid.
-/

import LogSump.Foundation.Paging
import LogSump.Server.Queries

namespace LogSump.Server

open Common Python Redis Foundation

variable {A : RecordAdapter}

/-! ## The traversal -/

/-- From any cursor, by what is left of the window. -/
theorem traversal_iff_noRun {fetch : Option String → Except Failure Page} {s : Stream Fields} {hi : StreamId} {n : Nat}
    (hafter : ∀ i ≤ hi, fetch (some i.print) = pageOf A (s.xrange (.after i) hi n) n)
    (lower : Stream.Lower) {c : Option String} (hc : fetch c = pageOf A (s.xrange lower hi n) n) :
    (∃ pages, Traversal fetch nextRequest c pages ∧
        pages.flatMap (·.entries) = (s.range lower hi).filterMap (decodeEntry A)) ↔
      NoRun (Valid A) n (s.range lower hi) := by
  -- on what is left: every cursor leaves less
  induction hk : (s.range lower hi).length using Nat.strong_induction_on generalizing lower c with
  | _ k ih =>
    subst hk
    simp only [Stream.xrange] at hc hafter
    rcases Nat.lt_or_ge (s.range lower hi).length n with hlt | hge
    · -- a short page is the last
      rw [List.take_of_length_le hlt.le, pageOf_short hlt] at hc
      refine iff_of_true ⟨_, .last hc rfl, ?_⟩ (noRun_of_length_lt _ hlt)
      simp
    · have hlen : ((s.range lower hi).take n).length = n := List.length_take_of_le hge
      by_cases hv : ((s.range lower hi).take n).filterMap (decodeEntry A) = []
      · -- a full page without a valid entry
        rw [pageOf_invalid hlen hv] at hc
        refine iff_of_false (fun ⟨pages, ht, _⟩ => not_traversal_of_error fetch _ hc pages ht) fun hr => ?_
        obtain ⟨x, hx, hvx⟩ := hr.prefix hge
        obtain ⟨y, hy⟩ := Option.isSome_iff_exists.mp hvx
        have : y ∈ ((s.range lower hi).take n).filterMap (decodeEntry A) := List.mem_filterMap.mpr ⟨x, hx, hy⟩
        rw [hv] at this
        exact List.not_mem_nil this
      · obtain ⟨pre, e, y, tail, hs, hy, -, htail⟩ := exists_last_some hv
        rw [hs] at hlen hc
        rw [pageOf_full hlen hy htail] at hc
        have hsplit : s.range lower hi = pre ++ e :: (tail ++ (s.range lower hi).drop n) := by
          conv_lhs => rw [← List.take_append_drop n (s.range lower hi), hs]
          simp
        generalize tail ++ (s.range lower hi).drop n = post at hsplit
        have he : e ∈ s.range lower hi := hsplit ▸ List.mem_append_right pre List.mem_cons_self
        have hrest : s.range (.after e.1) hi = post := Stream.range_after hsplit
        have hp : pre.length < n := by simp at hlen; omega
        have hsub : (s.range (.after e.1) hi).length < (s.range lower hi).length := by
          rw [hrest, hsplit]; simp; omega
        have hih := ih _ hsub (.after e.1) (hafter e.1 (Stream.mem_range.mp he).2.2) rfl
        rw [hrest] at hih
        have hx : Valid A e := by rw [Valid, hy]; rfl
        rw [hsplit, noRun_split hx hp, ← hih]
        simp only [traversal_more_iff hc (show nextRequest _ = some (some e.1.print) from rfl)]
        constructor
        · intro h
          obtain ⟨_, ⟨qs, rfl, ht⟩, hf⟩ := h
          exact ⟨qs, ht, by simpa [hy] using hf⟩
        · intro h
          obtain ⟨qs, ht, hf⟩ := h
          exact ⟨_, ⟨qs, rfl, ht⟩, by simp [hy, hf]⟩

/-- Following the cursors yields the valid entries of the window, each once and in order,
    exactly when the window lies after 1970 and has no full page's worth of consecutive
    invalid entries. -/
theorem lenient_pages_iff (A : RecordAdapter) (zone : Zone) (db : Store) (dockerHost : String) (kind : Kind)
    (s : Stream Fields) (start end_ : Datetime) (limit : Int)
    (hs : streamAt db (streamKey dockerHost kind) = .ok s) (hl : 1 ≤ limit) :
    (∃ pages, Traversal
        (fun cursor => fetchKindPage A (·.millis zone) db dockerHost kind start end_ cursor limit) nextRequest none pages ∧
        pages.flatMap (·.entries) = (inRange (·.millis zone) s start end_).filterMap (decodeEntry A)) ↔
      ValidWindow (·.millis zone) start end_ ∧
        NoRun (Valid A) limit.toNat (inRange (·.millis zone) s start end_) := by
  have hb := bounded_millis zone
  obtain ⟨n, rfl⟩ := Int.eq_ofNat_of_zero_le (by omega : 0 ≤ limit)
  by_cases hw : ValidWindow (·.millis zone) start end_
  · obtain ⟨⟨lo, hlo⟩, hi, hhi⟩ := (validWindow_iff hb).mp hw
    have hafter : ∀ i ≤ hi, fetchKindPage A (·.millis zone) db dockerHost kind start end_ (some i.print) n =
        pageOf A (s.xrange (.after i) hi n) n := fun i hle =>
      fetchKindPage_after hb hs (hle.trans_lt (timeId_lt_maxId hb hhi)).ne hhi hl
    have hfirst : fetchKindPage A (·.millis zone) db dockerHost kind start end_ none n =
        pageOf A (s.xrange (.from lo) hi n) n := fetchKindPage_start hb hs hlo hhi hl
    rw [inRange_eq hb hlo hhi]
    exact (traversal_iff_noRun hafter (.from lo) hfirst).trans (by simp [hw])
  · have hnone : timeId (·.millis zone) 0 start = none ∨ timeId (·.millis zone) maxU64 end_ = none := by
      by_contra h
      push Not at h
      exact hw ((validWindow_iff hb).mpr ⟨Option.ne_none_iff_exists'.mp h.1, Option.ne_none_iff_exists'.mp h.2⟩)
    have herr : ∃ e, fetchKindPage A (·.millis zone) db dockerHost kind start end_ none n = .error e :=
      fetchKindPage_start_error hb hnone
    obtain ⟨e, he⟩ := herr
    exact iff_of_false (fun ⟨pages, ht, _⟩ => not_traversal_of_error (fun cursor =>
      fetchKindPage A (·.millis zone) db dockerHost kind start end_ cursor n) _ he pages ht) fun h => hw h.1

/-! ## A page of invalid entries -/

/-- 1970-01-01T00:00:00Z and ten seconds later. -/
def epoch : Datetime := .utc 0 (by decide)

def tenSeconds : Datetime := .utc 10000000 (by decide)

theorem timeId_epoch (zone : Zone) (seq : U64) : timeId (·.millis zone) seq epoch = some ⟨0, seq⟩ :=
  (timeId_eq_some (bounded_millis zone)).mpr ⟨0, Datetime.millis_seconds zone (s := 0) rfl rfl, by decide, rfl, rfl⟩

theorem timeId_tenSeconds (zone : Zone) (seq : U64) : timeId (·.millis zone) seq tenSeconds = some ⟨10000, seq⟩ :=
  (timeId_eq_some (bounded_millis zone)).mpr ⟨10000, Datetime.millis_seconds zone (s := 10) rfl rfl, by decide, rfl, rfl⟩

/-- One entry at millisecond 5000, without a data field. -/
def dataless : Stream Fields := .singleton ⟨5000, 0⟩ []

def datalessStore : Store := putStream (fun _ => none) (streamKey "prod-a" .log) dataless

/-- A page of one invalid entry raises, so the traversal of this stream yields nothing. -/
theorem an_invalid_page_raises :
    fetchKindPage (.ofTexts []) (·.millis .utc) datalessStore "prod-a" .log epoch tenSeconds none 1 =
        .error .indexError ∧
      ¬ ∃ pages, Traversal (fun cursor => fetchKindPage (.ofTexts []) (·.millis .utc) datalessStore "prod-a" .log epoch
        tenSeconds cursor 1) nextRequest none pages := by
  have hb := bounded_millis .utc
  have hs : streamAt datalessStore (streamKey "prod-a" .log) = .ok dataless := putStream_same _ _ _
  have he : fetchKindPage (.ofTexts []) (·.millis .utc) datalessStore "prod-a" .log epoch tenSeconds none 1 =
      .error .indexError := by
    rw [fetchKindPage_start hb hs (timeId_epoch .utc 0) (timeId_tenSeconds .utc maxU64) (by decide)]
    rfl
  refine ⟨he, fun ⟨pages, ht⟩ => ?_⟩
  exact not_traversal_of_error (fun cursor => fetchKindPage (.ofTexts []) (·.millis .utc) datalessStore "prod-a" .log
    epoch tenSeconds cursor 1) _ he pages ht

/-- Two valid entries, with one in between that has no data field. -/
def patchy : Stream Fields :=
  ((Stream.singleton ⟨5000, 0⟩ [("data", helloText)]).add ⟨5001, 0⟩ []
    (by simp [Stream.singleton, Stream.empty, Stream.add]; decide)).add ⟨5002, 0⟩ [("data", helloText)]
    (by simp [Stream.singleton, Stream.empty, Stream.add]; decide)

def patchyStore : Store := putStream (fun _ => none) (streamKey "prod-a" .log) patchy

/-- With two entries to a page this stream is read to its end, over a second page. -/
theorem a_short_invalid_page_is_skipped :
    ∃ pages, Traversal (fun cursor => fetchKindPage helloAdapter (·.millis .utc) patchyStore "prod-a" .log epoch
        tenSeconds cursor 2) nextRequest none pages ∧
      (pages.flatMap (·.entries)).map (·.1) = [⟨5000, 0⟩, ⟨5002, 0⟩] ∧ 2 ≤ pages.length := by
  have hb := bounded_millis .utc
  have hs : streamAt patchyStore (streamKey "prod-a" .log) = .ok patchy := putStream_same _ _ _
  have hentries : inRange (·.millis .utc) patchy epoch tenSeconds = patchy.entries := by decide +kernel
  have hvalid : (patchy.entries.filterMap (decodeEntry helloAdapter)).map (·.1) = [⟨5000, 0⟩, ⟨5002, 0⟩] := by decide +kernel
  have hw : ValidWindow (·.millis .utc) epoch tenSeconds :=
    (validWindow_iff hb).mpr ⟨⟨_, timeId_epoch .utc 0⟩, _, timeId_tenSeconds .utc maxU64⟩
  have hsplit : patchy.entries =
      [] ++ (⟨5000, 0⟩, [("data", helloText)]) :: ([(⟨5001, 0⟩, [])] ++ (⟨5002, 0⟩, [("data", helloText)]) :: []) := rfl
  have hrun : NoRun (Valid helloAdapter) 2 (inRange (·.millis .utc) patchy epoch tenSeconds) := by
    rw [hentries, hsplit, noRun_split (by decide +kernel) (by decide), noRun_split (by decide +kernel) (by decide)]
    exact noRun_of_length_lt _ (by decide)
  obtain ⟨pages, ht, hp⟩ := (lenient_pages_iff helloAdapter .utc patchyStore "prod-a" .log patchy epoch tenSeconds 2 hs
    (by decide)).mpr ⟨hw, hrun⟩
  refine ⟨pages, ht, by rw [hp, hentries, hvalid], ?_⟩
  -- the first page is full, and names a cursor
  have hfirst : (fetchKindPage helloAdapter (·.millis .utc) patchyStore "prod-a" .log epoch tenSeconds none 2).toOption.map
      nextRequest = some (some (some "5000-0")) := by decide +kernel
  cases ht with
  | last h hn =>
    rw [h] at hfirst
    simp [Except.toOption, hn] at hfirst
  | more h hn ht =>
    cases ht <;> simp

end LogSump.Server
