/-
  LogSump.Server.StablePaging — one traversal of one kind's stream while the consumer adds
  entries and the trimmer removes old ones.

  The client requests pages with one start, with ends that never decrease, and with each
  page's cursor; between two requests there may be any number of XADDs of valid entries
  whose IDs exceed all others, and of XTRIM MINIDs.

  - `page_cases`: what a page request does, in terms of the entries in range.
  - `step_inv`: the IDs returned increase and none exceeds the cursor.
  - `run_covers`: an entry up to the cursor that is there at every request was returned.
  - `paging_is_stable`: the traversal as a whole.
-/

import LogSump.Foundation.Machine
import LogSump.Server.LenientPaging

namespace LogSump.Server.StablePaging

open Common Python Redis Foundation

structure Reading where
  stream : Stream Fields
  /-- The next request's cursor; `none` when the traversal is over. -/
  next : Option (Option String)
  /-- The pages so far, each with its request's end. -/
  pages : List (Datetime × Page)
  failure : Option Failure

inductive Ev where
  | page (end_ : Datetime)
  | add (i : StreamId) (fields : Fields)
  | trim (minId : StreamId)

def Ev.IsPage : Ev → Prop
  | .page _ => True
  | _ => False

def Reading.entries (r : Reading) : List (StreamId × Record) := r.pages.flatMap (·.2.entries)

def begin (s : Stream Fields) : Reading := ⟨s, some none, [], none⟩

variable (A : RecordAdapter) (ms : Datetime → Option Int) (db : Store) (dockerHost : String) (kind : Kind)
  (start : Datetime) (limit : Int)

/-- A window's end after 1970 and not before that of an earlier page. -/
def EndsWell (pages : List (Datetime × Page)) (end_ : Datetime) : Prop :=
  ∃ n ∈ ms end_, 0 ≤ n ∧ ∀ pe ∈ pages, ∀ m ∈ ms pe.1, m ≤ n

instance (pages : List (Datetime × Page)) (end_ : Datetime) : Decidable (EndsWell ms pages end_) :=
  inferInstanceAs (Decidable (∃ n ∈ ms end_, 0 ≤ n ∧ ∀ pe ∈ pages, ∀ m ∈ ms pe.1, m ≤ n))

def step (r : Reading) : Ev → Option Reading
  | .page end_ =>
    match r.next with
    | none => none
    | some cursor =>
      if EndsWell ms r.pages end_ then
        match fetchKindPage A ms (putStream db (streamKey dockerHost kind) r.stream) dockerHost kind start end_ cursor
          limit with
        | .error e => some { r with next := none, failure := some e }
        | .ok p => some { r with next := nextRequest p, pages := r.pages ++ [(end_, p)] }
      else none
  | .add i fields =>
    if h : (∀ e ∈ r.stream.entries, e.1 < i) ∧ Valid A (i, fields) then
      some { r with stream := r.stream.add i fields h.1 }
    else none
  | .trim minId => some { r with stream := r.stream.trim minId }

/-- A traversal begins on a stream of valid entries. -/
def machine : Machine Reading Ev where
  init r := ∃ s : Stream Fields, (∀ e ∈ s.entries, Valid A e) ∧ r = begin s
  step := step A ms db dockerHost kind start limit

/-! ## One request -/

/-- The cursor of a traversal that starts at `lo`: what it has returned lies up to it. -/
def CursorAt (lo : StreamId) (entries : List (StreamId × Record)) (cursor : Option String) : Stream.Lower → Prop
  | .from i => cursor = none ∧ i = lo ∧ entries = []
  | .after i => cursor = some i.print ∧ i ≠ maxId ∧ lo ≤ i ∧ ∀ x ∈ entries, x.1 ≤ i

structure Inv (lo : StreamId) (r : Reading) : Prop where
  failure : r.failure = none
  valid : ∀ e ∈ r.stream.entries, Valid A e
  sorted : (r.entries.map (·.1)).Pairwise (· < ·)
  windows : ∀ pe ∈ r.pages, ∀ x ∈ pe.2.entries, InWindow ms start pe.1 x.1
  cursor : ∀ c, r.next = some c → ∃ lower, CursorAt lo r.entries c lower

variable {A ms db dockerHost kind start limit}

/-- A page request takes the first `n` entries of what is in range past the cursor. Only a
    full page names a next cursor, its last entry. -/
theorem page_cases (hb : Bounded ms) {lo : StreamId} (hlo : timeId ms 0 start = some lo) {n : Nat} (hn : 1 ≤ n)
    {r r' : Reading} {end_ : Datetime} (hI : Inv A ms start lo r)
    (h : step A ms db dockerHost kind start n r (.page end_) = some r') :
    ∃ cursor lower hi next, r.next = some cursor ∧ CursorAt lo r.entries cursor lower ∧
      timeId ms maxU64 end_ = some hi ∧ EndsWell ms r.pages end_ ∧
      r' = { r with
        next := next.map some
        pages := r.pages ++ [(end_, ⟨(r.stream.xrange lower hi n).filterMap (decodeEntry A), next⟩)] } ∧
      (((r.stream.xrange lower hi n).length < n ∧ next = none) ∨
        ∃ pre e, r.stream.xrange lower hi n = pre ++ [e] ∧ next = some e.1.print) := by
  simp only [step] at h
  split at h
  · cases h
  · rename_i cursor hc
    split at h
    · rename_i he
      obtain ⟨lower, hl⟩ := hI.cursor cursor hc
      have hhi : ∃ hi, timeId ms maxU64 end_ = some hi := by
        obtain ⟨m, hm, h0, -⟩ := he
        exact ⟨_, by rw [timeId, Option.mem_def.mp hm, Option.bind_some, dif_pos ⟨h0, hb end_ m hm⟩]⟩
      obtain ⟨hi, hhi⟩ := hhi
      have hs := putStream_same db (streamKey dockerHost kind) r.stream
      have hfetch : fetchKindPage A ms (putStream db (streamKey dockerHost kind) r.stream) dockerHost kind start end_
          cursor n = pageOf A (r.stream.xrange lower hi n) n := by
        cases lower with
        | «from» i =>
          obtain ⟨rfl, rfl, -⟩ := hl
          exact fetchKindPage_start hb hs hlo hhi (by omega)
        | after i =>
          obtain ⟨rfl, hi', -⟩ := hl
          exact fetchKindPage_after hb hs hi' hhi (by omega)
      have hv : ∀ e ∈ r.stream.xrange lower hi n, Valid A e := fun e hm =>
        hI.valid e (Stream.mem_range.mp (List.mem_of_mem_take hm)).1
      have hlen : (r.stream.xrange lower hi n).length ≤ n := List.length_take_le n _
      obtain ⟨next, hp, hnext⟩ := pageOf_valid hn hlen hv
      rw [hfetch, hp] at h
      cases h
      refine ⟨cursor, lower, hi, next, hc, hl, hhi, he, rfl, ?_⟩
      rcases hnext with hshort | ⟨pre, e, hpre, -, hlast⟩
      · exact .inl hshort
      · exact .inr ⟨pre, e, hpre, hlast⟩
    · cases h

/-- What a range returns lies in the window and past what was returned before. -/
theorem mem_range_of_cursorAt {lo hi : StreamId} {entries : List (StreamId × Record)} {cursor : Option String}
    {lower : Stream.Lower} {s : Stream Fields} {e : StreamId × Fields} (hc : CursorAt lo entries cursor lower)
    (he : e ∈ s.range lower hi) : lo ≤ e.1 ∧ e.1 ≤ hi ∧ ∀ x ∈ entries, x.1 < e.1 := by
  obtain ⟨-, hlow, hhi⟩ := Stream.mem_range.mp he
  cases lower with
  | «from» i =>
    obtain ⟨-, rfl, rfl⟩ := hc
    exact ⟨hlow, hhi, by simp⟩
  | after i =>
    obtain ⟨-, -, hlo, hx⟩ := hc
    have hlt : i < e.1 := hlow
    exact ⟨hlo.trans hlt.le, hhi, fun x hm => (hx x hm).trans_lt hlt⟩

theorem entries_snoc (r : Reading) (end_ : Datetime) (p : Page) (next : Option (Option String)) :
    Reading.entries { r with next := next, pages := r.pages ++ [(end_, p)] } = r.entries ++ p.entries := by
  simp [Reading.entries]

theorem begin_inv {lo : StreamId} {s : Stream Fields} (hs : ∀ e ∈ s.entries, Valid A e) :
    Inv A ms start lo (begin s) :=
  ⟨rfl, hs, .nil, by simp [begin], fun c hc => ⟨.from lo, by cases hc; exact ⟨rfl, rfl, rfl⟩⟩⟩

theorem page_inv (hb : Bounded ms) {lo : StreamId} (hlo : timeId ms 0 start = some lo) {n : Nat} (hn : 1 ≤ n)
    {r r' : Reading} {end_ : Datetime} (hI : Inv A ms start lo r)
    (h : step A ms db dockerHost kind start n r (.page end_) = some r') : Inv A ms start lo r' := by
  obtain ⟨cursor, lower, hi, next, -, hc, hhi, -, rfl, hnext⟩ := page_cases hb hlo hn hI h
  have hv : ∀ e ∈ r.stream.xrange lower hi n, Valid A e := fun e hm =>
    hI.valid e (Stream.mem_range.mp (List.mem_of_mem_take hm)).1
  have hids := filterMap_ids hv
  have hraw := fun e (he : e ∈ r.stream.xrange lower hi n) => mem_range_of_cursorAt hc (List.mem_of_mem_take he)
  have hsorted : (r.stream.xrange lower hi n).Pairwise (·.1 < ·.1) := (r.stream.range_sorted lower hi).take
  have hpage : ∀ y ∈ (r.stream.xrange lower hi n).filterMap (decodeEntry A), ∃ e ∈ r.stream.xrange lower hi n,
      y.1 = e.1 := fun y hy => by
    obtain ⟨e, he, hd⟩ := List.mem_filterMap.mp hy
    exact ⟨e, he, decodeEntry_id hd⟩
  refine ⟨hI.failure, hI.valid, ?_, ?_, ?_⟩
  · rw [entries_snoc, List.map_append, List.pairwise_append]
    refine ⟨hI.sorted, by rw [hids]; exact List.pairwise_map.mpr hsorted, ?_⟩
    intro a ha b hb'
    obtain ⟨x, hx, rfl⟩ := List.mem_map.mp ha
    rw [hids] at hb'
    obtain ⟨e, he, rfl⟩ := List.mem_map.mp hb'
    exact (hraw e he).2.2 x hx
  · intro pe hpe
    rcases List.mem_append.mp hpe with hpe | hpe
    · exact hI.windows pe hpe
    · rw [List.mem_singleton.mp hpe]
      intro x hx
      obtain ⟨e, he, hxe⟩ := hpage x hx
      rw [hxe]
      exact (inWindow_iff hb hlo hhi e.1).mpr ⟨(hraw e he).1, (hraw e he).2.1⟩
  · intro c hc'
    rcases hnext with ⟨-, rfl⟩ | ⟨pre, e, hpre, rfl⟩
    · cases hc'
    · cases hc'
      have he : e ∈ r.stream.xrange lower hi n := hpre ▸ by simp
      refine ⟨.after e.1, rfl, ((hraw e he).2.1.trans_lt (timeId_lt_maxId hb hhi)).ne, (hraw e he).1, ?_⟩
      rw [entries_snoc]
      intro x hx
      rcases List.mem_append.mp hx with hx | hx
      · exact ((hraw e he).2.2 x hx).le
      · obtain ⟨e', he', hxe⟩ := hpage x hx
        rw [hxe]
        rw [hpre] at he' hsorted
        rcases List.mem_append.mp he' with he' | he'
        · exact ((List.pairwise_append.mp hsorted).2.2 e' he' e (by simp)).le
        · rw [List.mem_singleton.mp he']

theorem step_inv (hb : Bounded ms) {lo : StreamId} (hlo : timeId ms 0 start = some lo) {n : Nat} (hn : 1 ≤ n)
    {r r' : Reading} {e : Ev} (hI : Inv A ms start lo r)
    (h : step A ms db dockerHost kind start n r e = some r') : Inv A ms start lo r' := by
  cases e with
  | page end_ => exact page_inv hb hlo hn hI h
  | add i fields =>
    simp only [step] at h
    split at h
    · rename_i hg
      cases h
      refine ⟨hI.failure, fun x hx => ?_, hI.sorted, hI.windows, hI.cursor⟩
      rcases List.mem_append.mp hx with hx | hx
      · exact hI.valid x hx
      · rw [List.mem_singleton.mp hx]; exact hg.2
    · cases h
  | trim minId =>
    cases h
    exact ⟨hI.failure, fun x hx => hI.valid x (List.mem_filter.mp hx).1, hI.sorted, hI.windows, hI.cursor⟩

/-! ## What stays is returned -/

/-- If `x` lies up to the cursor, its record has been returned. -/
def Covers (x : StreamId × Fields) (y : StreamId × Record) (r : Reading) : Prop :=
  (r.next = none → y ∈ r.entries) ∧ ∀ i, r.next = some (some i.print) → x.1 ≤ i → y ∈ r.entries

theorem print_inj {i j : StreamId} (h : i.print = j.print) : i = j := by
  have hi := StreamId.parse_print 0 i
  rw [h, StreamId.parse_print] at hi
  exact (Option.some.inj hi).symm

/-- A request that finds `x` in its window covers it. -/
theorem page_covers (hb : Bounded ms) {lo : StreamId} (hlo : timeId ms 0 start = some lo) {n : Nat} (hn : 1 ≤ n)
    {r r' : Reading} {end_ : Datetime} (hI : Inv A ms start lo r)
    (h : step A ms db dockerHost kind start n r (.page end_) = some r') {x : StreamId × Fields}
    {y : StreamId × Record} (hy : decodeEntry A x = some y) (hx : x ∈ r.stream.entries)
    (hw : InWindow ms start end_ x.1) (hcov : Covers x y r) : Covers x y r' := by
  obtain ⟨cursor, lower, hi, next, hcur, hc, hhi, -, rfl, hnext⟩ := page_cases hb hlo hn hI h
  obtain ⟨hlx, hxh⟩ := (inWindow_iff hb hlo hhi x.1).mp hw
  unfold Covers
  rw [entries_snoc]
  -- either `x` was covered before, or it is in range
  have hcase : y ∈ r.entries ∨ x ∈ r.stream.range lower hi := by
    cases lower with
    | «from» i => exact .inr (Stream.mem_range.mpr ⟨hx, hc.2.1 ▸ hlx, hxh⟩)
    | after i =>
      rcases le_or_gt x.1 i with hle | hlt
      · exact .inl (hcov.2 i (hcur.trans (by rw [hc.1])) hle)
      · exact .inr (Stream.mem_range.mpr ⟨hx, hlt, hxh⟩)
  rcases hcase with hold | hin
  · exact ⟨fun _ => List.mem_append_left _ hold, fun _ _ _ => List.mem_append_left _ hold⟩
  · rcases hnext with ⟨hshort, rfl⟩ | ⟨pre, e, hpre, rfl⟩
    · -- a short page holds everything in range
      have hall : r.stream.xrange lower hi n = r.stream.range lower hi := by
        refine List.take_of_length_le ?_
        rw [Stream.xrange, List.length_take] at hshort
        omega
      have hmem : y ∈ (r.stream.xrange lower hi n).filterMap (decodeEntry A) :=
        List.mem_filterMap.mpr ⟨x, hall ▸ hin, hy⟩
      exact ⟨fun _ => List.mem_append_right _ hmem, fun i hi' => by simp at hi'⟩
    · refine ⟨fun hn' => by simp at hn', fun i hi' hle => List.mem_append_right _ ?_⟩
      have hie : e.1 = i := print_inj (by simpa using hi')
      have hs := r.stream.range_sorted lower hi
      rw [← List.take_append_drop n (r.stream.range lower hi)] at hs hin
      rcases List.mem_append.mp hin with hin | hin
      · exact List.mem_filterMap.mpr ⟨x, hin, hy⟩
      · have he : e ∈ (r.stream.range lower hi).take n := by
          show e ∈ r.stream.xrange lower hi n
          rw [hpre]; simp
        have hlt := (List.pairwise_append.mp hs).2.2 e he x hin
        rw [hie] at hlt
        exact absurd hle (not_le.mpr hlt)

theorem InWindow.mono {end₀ end_ : Datetime} {i : StreamId} (h : InWindow ms start end₀ i)
    (hle : ∀ m ∈ ms end₀, ∃ n ∈ ms end_, m ≤ n) : InWindow ms start end_ i := by
  obtain ⟨m, hm, n, hn, h1, h2⟩ := h
  obtain ⟨n', hn', hnn⟩ := hle n hn
  exact ⟨m, hm, n', hn', h1, h2.trans hnn⟩

/-- Along a traversal: what was in the first page's window, and there at every request, is
    covered. -/
theorem run_covers (hb : Bounded ms) {lo : StreamId} (hlo : timeId ms 0 start = some lo) {n : Nat} (hn : 1 ≤ n)
    {s : Stream Fields} (hs : ∀ e ∈ s.entries, Valid A e) {end₀ : Datetime} {es : List Ev} {r : Reading}
    (hrun : (machine A ms db dockerHost kind start n).run (begin s) (.page end₀ :: es) = some r)
    {x : StreamId × Fields} {y : StreamId × Record} (hy : decodeEntry A x = some y)
    (hw : InWindow ms start end₀ x.1)
    (hx : (machine A ms db dockerHost kind start n).Along (fun t e => e.IsPage → x ∈ t.stream.entries) (begin s)
      (.page end₀ :: es)) : Covers x y r := by
  have hI0 : Inv A ms start lo (begin s) := begin_inv hs
  have hC0 : Covers x y (begin s) := ⟨fun h => (nomatch h), fun i h => (nomatch h)⟩
  obtain ⟨t, ht', hrun⟩ := Machine.run_cons.mp hrun
  have ht : step A ms db dockerHost kind start n (begin s) (.page end₀) = some t := ht'
  have hfirst : ∃ pe ∈ t.pages, pe.1 = end₀ := by
    obtain ⟨_, _, _, _, -, -, -, -, rfl, -⟩ := page_cases hb hlo hn hI0 ht
    exact ⟨_, List.mem_append_right _ (List.mem_singleton_self _), rfl⟩
  -- the invariant also remembers that the first page's end is not above any later one
  have key := Machine.run_inv (M := machine A ms db dockerHost kind start n)
    (I := fun r => Inv A ms start lo r ∧ Covers x y r ∧ ∃ pe ∈ r.pages, pe.1 = end₀)
    (fun u e u' hI hok hu => by
      obtain ⟨hI, hC, pe, hpe, hend⟩ := hI
      refine ⟨step_inv hb hlo hn hI hu, ?_⟩
      cases e with
      | page end_ =>
        obtain ⟨_, _, _, _, -, -, -, hew, hu', -⟩ := page_cases hb hlo hn hI hu
        obtain ⟨m, hm, -, hle⟩ := hew
        have hw' : InWindow ms start end_ x.1 := InWindow.mono hw fun k hk => ⟨m, hm, hle pe hpe k (hend ▸ hk)⟩
        refine ⟨page_covers hb hlo hn hI hu hy (hok trivial) hw' hC, pe, ?_, hend⟩
        rw [hu']
        exact List.mem_append_left _ hpe
      | add i fields =>
        change step A ms db dockerHost kind start n u (.add i fields) = some u' at hu
        simp only [step] at hu
        split at hu
        · cases hu; exact ⟨hC, pe, hpe, hend⟩
        · cases hu
      | trim minId => cases hu; exact ⟨hC, pe, hpe, hend⟩)
    ⟨step_inv hb hlo hn hI0 ht, page_covers hb hlo hn hI0 ht hy (hx.1 trivial) hw hC0, hfirst⟩ (hx.2 t ht) hrun
  exact key.2.1

/-- Filters commute with cutting into pages, whatever the order within a page. -/
theorem filters_by_page (lower : String → String) (containerId level q : Option String) {shown pages : List (List Record)}
    (h : List.Forall₂ List.Perm shown pages) :
    (shown.flatMap fun rs => applyFilters lower rs containerId level q).Perm
      (applyFilters lower pages.flatten containerId level q) := by
  induction h with
  | nil => rw [applyFilters_eq]; exact .refl _
  | cons hxy _ ih =>
    rw [List.flatMap_cons, List.flatten_cons, applyFilters_append]
    exact (applyFilters_perm lower hxy containerId level q).append ih

/-- One traversal with everything that goes on beside it: no request fails, IDs increase
    over all pages, every entry lies in its page's window, every entry of the first page's
    window that is there at every request is returned, and filtering page by page is
    filtering the whole. -/
theorem paging_is_stable (A : RecordAdapter) (zone : Zone) (lower : String → String) (db : Store) (dockerHost : String)
    (kind : Kind) (start : Datetime) (limit : Int) (hl : 1 ≤ limit) (hstart : ∃ us ∈ start.micros zone, 0 ≤ us)
    (s : Stream Fields) (hs : ∀ e ∈ s.entries, Valid A e) (end₀ : Datetime) (es : List Ev) (r : Reading)
    (hrun : (machine A (·.floorMillis zone) db dockerHost kind start limit).run (begin s) (.page end₀ :: es) = some r)
    (hdone : r.next = none) :
    r.failure = none ∧
      (r.entries.map (·.1)).Pairwise (· < ·) ∧
      (∀ pe ∈ r.pages, ∀ x ∈ pe.2.entries, InWindow (·.floorMillis zone) start pe.1 x.1) ∧
      (∀ x y, decodeEntry A x = some y → InWindow (·.floorMillis zone) start end₀ x.1 →
        (machine A (·.floorMillis zone) db dockerHost kind start limit).Along
          (fun t e => e.IsPage → x ∈ t.stream.entries) (begin s) (.page end₀ :: es) → y ∈ r.entries) ∧
      ∀ containerId level q shown,
        List.Forall₂ List.Perm shown (r.pages.map fun pe => pe.2.entries.map (·.2)) →
        (shown.flatMap fun rs => applyFilters lower rs containerId level q).Perm
          (applyFilters lower (r.entries.map (·.2)) containerId level q) := by
  have hb := bounded_floorMillis zone
  obtain ⟨n, rfl⟩ := Int.eq_ofNat_of_zero_le (by omega : 0 ≤ limit)
  have hn : 1 ≤ n := by omega
  have hlo : ∃ lo, timeId (·.floorMillis zone) 0 start = some lo := by
    obtain ⟨us, hus, h0⟩ := hstart
    have hm : start.floorMillis zone = some (us / 1000) := by rw [Datetime.floorMillis, Option.mem_def.mp hus]; rfl
    have hlt : us / 1000 < 2 ^ 53 := Datetime.floorMillis_lt hm
    exact ⟨_, by rw [timeId, hm, Option.bind_some, dif_pos ⟨by omega, hlt⟩]⟩
  obtain ⟨lo, hlo⟩ := hlo
  have hI : Inv A (·.floorMillis zone) start lo r := by
    refine Machine.run_inv (M := machine A (·.floorMillis zone) db dockerHost kind start n)
      (fun u e u' hI _ hu => step_inv hb hlo hn hI hu) (begin_inv hs) (Machine.along_true _ _) hrun
  refine ⟨hI.failure, hI.sorted, hI.windows, fun x y hy hw hx => ?_, fun containerId level q shown h => ?_⟩
  · exact (run_covers hb hlo hn hs hrun hy hw hx).1 hdone
  · have hall : (r.pages.map fun pe => pe.2.entries.map (·.2)).flatten = r.entries.map (·.2) := by
      simp [Reading.entries, List.flatMap, List.map_flatten, Function.comp_def]
    exact hall ▸ filters_by_page lower containerId level q h

/-- One entry, at millisecond 5000. -/
def helloStream : Stream Fields := .singleton ⟨5000, 0⟩ [("data", helloText)]

/-- One entry to a page: an entry is added and the first one trimmed before the second
    request, and both are returned. -/
theorem a_traversal_beside_an_add_and_a_trim :
    ∃ r, (machine helloAdapter (·.floorMillis .utc) (fun _ => none) "prod-a" .log epoch 1).run (begin helloStream)
        [.page tenSeconds, .add ⟨6000, 0⟩ [("data", helloText)], .trim ⟨5500, 0⟩, .page tenSeconds, .page tenSeconds] =
          some r ∧
      r.entries.map (·.1) = [⟨5000, 0⟩, ⟨6000, 0⟩] ∧ (r.entries.map (·.1)).Pairwise (· < ·) := by
  have hrun : ((machine helloAdapter (·.floorMillis .utc) (fun _ => none) "prod-a" .log epoch 1).run
      (begin helloStream) [.page tenSeconds, .add ⟨6000, 0⟩ [("data", helloText)], .trim ⟨5500, 0⟩, .page tenSeconds,
        .page tenSeconds]).map (fun r => (r.next, r.entries.map (·.1))) = some (none, [⟨5000, 0⟩, ⟨6000, 0⟩]) := by
    decide +kernel
  obtain ⟨r, hr, hids⟩ := Option.map_eq_some_iff.mp hrun
  refine ⟨r, hr, congrArg Prod.snd hids, ?_⟩
  exact (paging_is_stable helloAdapter .utc id (fun _ => none) "prod-a" .log epoch 1 (by decide) (by decide)
    helloStream (by decide +kernel) tenSeconds _ r hr (congrArg Prod.fst hids)).2.1

end LogSump.Server.StablePaging
