/-
  LogSump.Server.Queries — `queries.py`: one kind's page of `GET /records`, and the filters.

  A page is read with one `XRANGE` from the window's start, or from after the cursor, to the
  window's end. An entry without a data field, or whose data is refused, is left out. The
  conversion of a datetime to milliseconds is a parameter, `ms`: the code's own is
  `Datetime.millis`.

  - `fetchKindPage_start`, `fetchKindPage_after`: a page is cut from the entries in range.
  - `fetchKindPage_start_error`: a window from before 1970 gives no page.
  - `applyFilters_eq`: filtering keeps the records that pass every filter given.
-/

import LogSump.Foundation.Loop
import LogSump.Common.RedisKeys
import LogSump.Redis.Store

namespace LogSump.Server

open Common Python Redis Foundation

/-- Why a request is not answered with a page. -/
inductive Failure where
  | redis (e : RedisError)
  | indexError
  | typeError
  | overflowError
  | http (status : Nat) (detail : String)
  deriving DecidableEq, Repr

def maxStreamSeq : Nat := 2 ^ 64 - 1

section Page

variable (A : RecordAdapter) (ms : Datetime → Option Int)

def idFloor (dt : Datetime) : Except Failure String :=
  match ms dt with
  | none => .error .overflowError
  | some m => .ok (toString m ++ "-0")

def idCeiling (dt : Datetime) : Except Failure String :=
  match ms dt with
  | none => .error .overflowError
  | some m => .ok (toString m ++ "-" ++ toString maxStreamSeq)

structure Page where
  entries : List (StreamId × Record)
  nextCursor : Option String

/-- `fields.get(b"data")`; of two pairs with one name, the later one stands. -/
def dataField (fields : Fields) : Option String := (fields.reverse.find? (·.1 = "data")).map (·.2)

def decodeEntry (e : StreamId × Fields) : Option (StreamId × Record) :=
  (dataField e.2).bind fun data => (A.validateJson data).map fun record => (e.1, record)

/-- The page made of what `XRANGE` returned. -/
def pageOf (rawEntries : List (StreamId × Fields)) (limit : Int) : Except Failure Page :=
  let entries := rawEntries.filterMap (decodeEntry A)
  if (rawEntries.length : Int) = limit then
    match entries.getLast? with
    | none => .error .indexError
    | some e => .ok ⟨entries, some e.1.print⟩
  else .ok ⟨entries, none⟩

/-- An empty cursor counts as none. -/
def rangeStart (start : Datetime) (cursor : Option String) : Except Failure String :=
  match cursor with
  | none => idFloor ms start
  | some c => if c = "" then idFloor ms start else .ok ("(" ++ c)

def fetchKindPage (db : Store) (dockerHost : String) (kind : Kind) (start end_ : Datetime) (cursor : Option String)
    (limit : Int) : Except Failure Page := do
  let min ← rangeStart ms start cursor
  let max ← idCeiling ms end_
  match xrange db (streamKey dockerHost kind) min max limit with
  | .error e => .error (.redis e)
  | .ok rawEntries => pageOf A rawEntries limit

end Page

/-- The request after a page: the page's own cursor. -/
def nextRequest (p : Page) : Option (Option String) := p.nextCursor.map some

def Valid (A : RecordAdapter) (e : StreamId × Fields) : Prop := (decodeEntry A e).isSome

def recordsOf (A : RecordAdapter) (xs : List (StreamId × Fields)) : List Record := (xs.filterMap (decodeEntry A)).map (·.2)

instance (A : RecordAdapter) : DecidablePred (Valid A) := fun e =>
  inferInstanceAs (Decidable ((decodeEntry A e).isSome = true))

/-- `lower` is `str.lower`. -/
def applyFilters (lower : String → String) (records : List Record) (containerId level q : Option String) :
    List Record :=
  let result := match containerId with
    | none => records
    | some c => records.filter (·.containerId = c)
  let result := match level with
    | none => result
    | some l => result.filter (·.level? = some l)
  match q with
  | none => result
  | some q => result.filter fun r => (lower q).toList <:+: (lower r.message).toList

/-! ## Filters -/

/-- The record passes every filter that is given. -/
def Passes (lower : String → String) (containerId level q : Option String) (r : Record) : Prop :=
  (∀ c ∈ containerId, r.containerId = c) ∧ (∀ l ∈ level, r.level? = some l) ∧
    ∀ needle ∈ q, (lower needle).toList <:+: (lower r.message).toList

instance (lower : String → String) (containerId level q : Option String) :
    DecidablePred (Passes lower containerId level q) := fun r =>
  inferInstanceAs (Decidable ((∀ c ∈ containerId, r.containerId = c) ∧ (∀ l ∈ level, r.level? = some l) ∧
    ∀ needle ∈ q, (lower needle).toList <:+: (lower r.message).toList))

theorem applyFilters_eq (lower : String → String) (xs : List Record) (containerId level q : Option String) :
    applyFilters lower xs containerId level q = xs.filter (Passes lower containerId level q) := by
  unfold applyFilters Passes
  cases containerId <;> cases level <;> cases q <;> simp [List.filter_filter, Bool.and_comm, ← Bool.and_assoc]

theorem applyFilters_append (lower : String → String) (xs ys : List Record) (containerId level q : Option String) :
    applyFilters lower (xs ++ ys) containerId level q =
      applyFilters lower xs containerId level q ++ applyFilters lower ys containerId level q := by
  simp only [applyFilters_eq, List.filter_append]

theorem applyFilters_perm (lower : String → String) {xs ys : List Record} (h : xs.Perm ys)
    (containerId level q : Option String) :
    (applyFilters lower xs containerId level q).Perm (applyFilters lower ys containerId level q) := by
  simp only [applyFilters_eq]
  exact h.filter _

theorem applyFilters_none (lower : String → String) (xs : List Record) : applyFilters lower xs none none none = xs :=
  rfl

/-! ## Windows -/

/-- A conversion that stays below 2^53, as one of datetimes does. -/
def Bounded (ms : Datetime → Option Int) : Prop := ∀ dt m, ms dt = some m → m < 2 ^ 53

theorem bounded_millis (zone : Zone) : Bounded (·.millis zone) := fun _ _ h => Datetime.millis_lt h

theorem bounded_floorMillis (zone : Zone) : Bounded (·.floorMillis zone) := fun _ _ h => Datetime.floorMillis_lt h

/-- The ID with a time's millisecond; there is none before 1970. -/
def timeId (ms : Datetime → Option Int) (seq : U64) (dt : Datetime) : Option StreamId :=
  (ms dt).bind fun m => if h : 0 ≤ m ∧ m < 2 ^ 53 then some ⟨⟨m.toNat, by omega⟩, seq⟩ else none

theorem timeId_eq_some {ms : Datetime → Option Int} (hb : Bounded ms) {seq : U64} {dt : Datetime} {i : StreamId} :
    timeId ms seq dt = some i ↔ ∃ m, ms dt = some m ∧ 0 ≤ m ∧ (i.ms.val : Int) = m ∧ i.seq = seq := by
  simp only [timeId, Option.bind_eq_some_iff]
  constructor
  · intro hparse
    obtain ⟨m, hm, h⟩ := hparse
    split at h
    · rename_i h0
      cases h
      exact ⟨m, hm, h0.1, Int.toNat_of_nonneg h0.1, rfl⟩
    · cases h
  · intro hmillis
    obtain ⟨m, hm, h0, hi, rfl⟩ := hmillis
    refine ⟨m, hm, ?_⟩
    rw [dif_pos ⟨h0, hb dt m hm⟩, Option.some.injEq]
    have : m.toNat = i.ms.val := by omega
    simp only [this]

/-- A time's ID is not the last one there is. -/
theorem timeId_lt_maxId {ms : Datetime → Option Int} (hb : Bounded ms) {seq : U64} {dt : Datetime} {i : StreamId}
    (h : timeId ms seq dt = some i) : i < maxId := by
  obtain ⟨m, hm, h0, hi, -⟩ := (timeId_eq_some hb).mp h
  have := hb dt m hm
  exact StreamId.lt_iff.mpr (.inl (Fin.lt_def.mpr (by simp only [maxId, maxU64]; omega)))

theorem toString_nonneg {m : Int} (h : 0 ≤ m) : toString m = Nat.repr m.toNat := by
  obtain ⟨n, rfl⟩ := Int.eq_ofNat_of_zero_le h
  rfl

theorem toList_neg {m : Int} (h : m < 0) (suffix : String) :
    ∃ c cs, (toString m ++ suffix).toList = '-' :: c :: cs ∧ c ≠ '\x00' := by
  obtain ⟨n, rfl⟩ := Int.eq_negSucc_of_lt_zero h
  obtain ⟨c, cs, hd⟩ := List.exists_cons_of_ne_nil (Nat.toDigits_ne_nil (b := 10) (n := n + 1))
  refine ⟨c, cs ++ suffix.toList, ?_, ?_⟩
  · show ("-" ++ Nat.repr (n + 1) ++ suffix).toList = _
    simp [Nat.toList_repr, hd]
  · have hmem : c ∈ (Nat.repr (n + 1)).toList := by simp [Nat.toList_repr, hd]
    simpa using StreamId.isDigit_ne hmem (d := '\x00') rfl

theorem parseLower_neg {m : Int} (h : m < 0) : parseLower (toString m ++ "-0") = none := by
  obtain ⟨c, cs, hl, hc⟩ := toList_neg h "-0"
  unfold parseLower
  split
  · rename_i hp; rw [hl] at hp; simp at hp
  · rw [parseEnd_dash 0 hl hc, Option.map_none]

theorem parseUpper_neg {m : Int} (h : m < 0) (suffix : String) : parseUpper (toString m ++ suffix) = none := by
  obtain ⟨c, cs, hl, hc⟩ := toList_neg h suffix
  exact parseEnd_dash maxU64 hl hc

theorem idFloor_text {ms : Datetime → Option Int} (hb : Bounded ms) {dt : Datetime} {i : StreamId}
    (h : timeId ms 0 dt = some i) : idFloor ms dt = .ok i.print := by
  obtain ⟨m, hm, h0, hi, hs⟩ := (timeId_eq_some hb).mp h
  have hn : m.toNat = i.ms.val := by omega
  simp only [idFloor, hm, StreamId.print, hs, toString_nonneg h0, hn, String.append_assoc]
  rfl

theorem idCeiling_text {ms : Datetime → Option Int} (hb : Bounded ms) {dt : Datetime} {i : StreamId}
    (h : timeId ms maxU64 dt = some i) : idCeiling ms dt = .ok i.print := by
  obtain ⟨m, hm, h0, hi, hs⟩ := (timeId_eq_some hb).mp h
  have hn : m.toNat = i.ms.val := by omega
  simp only [idCeiling, hm, StreamId.print, hs, toString_nonneg h0, hn]
  rfl

/-- An ID whose millisecond lies between the window's two. -/
def InWindow (ms : Datetime → Option Int) (start end_ : Datetime) (i : StreamId) : Prop :=
  ∃ m ∈ ms start, ∃ n ∈ ms end_, m ≤ i.ms.val ∧ (i.ms.val : Int) ≤ n

instance (ms : Datetime → Option Int) (start end_ : Datetime) : DecidablePred (InWindow ms start end_) := fun i =>
  inferInstanceAs (Decidable (∃ m ∈ ms start, ∃ n ∈ ms end_, m ≤ i.ms.val ∧ (i.ms.val : Int) ≤ n))

/-- A window that begins and ends no earlier than the millisecond of 1970-01-01T00:00:00Z. -/
def ValidWindow (ms : Datetime → Option Int) (start end_ : Datetime) : Prop :=
  (∃ m ∈ ms start, 0 ≤ m) ∧ ∃ n ∈ ms end_, 0 ≤ n

theorem validWindow_iff {ms : Datetime → Option Int} (hb : Bounded ms) {start end_ : Datetime} :
    ValidWindow ms start end_ ↔ (∃ lo, timeId ms 0 start = some lo) ∧ ∃ hi, timeId ms maxU64 end_ = some hi := by
  have key : ∀ seq dt, (∃ m ∈ ms dt, 0 ≤ m) ↔ ∃ i, timeId ms seq dt = some i := by
    intro seq dt
    constructor
    · intro h
      obtain ⟨m, hm, h0⟩ := h
      exact ⟨_, by rw [timeId, Option.mem_def.mp hm, Option.bind_some, dif_pos ⟨h0, hb dt m hm⟩]⟩
    · intro h
      obtain ⟨i, hi⟩ := h
      obtain ⟨m, hm, h0, -⟩ := (timeId_eq_some hb).mp hi
      exact ⟨m, hm, h0⟩
  rw [ValidWindow, key 0, key maxU64]

/-- The range that a window is read with. -/
theorem inWindow_iff {ms : Datetime → Option Int} (hb : Bounded ms) {start end_ : Datetime} {lo hi : StreamId}
    (hlo : timeId ms 0 start = some lo) (hhi : timeId ms maxU64 end_ = some hi) (i : StreamId) :
    InWindow ms start end_ i ↔ lo ≤ i ∧ i ≤ hi := by
  obtain ⟨m, hm, h0, hmi, hs⟩ := (timeId_eq_some hb).mp hlo
  obtain ⟨n, hn, h0', hni, hs'⟩ := (timeId_eq_some hb).mp hhi
  have hl : lo ≤ i ↔ m ≤ i.ms.val := by
    have hmin : (0 : U64) ≤ i.seq := Fin.zero_le _
    rw [StreamId.le_iff, hs, Fin.lt_def, Fin.ext_iff, ← hmi]
    simp only [hmin, and_true]
    omega
  have hr : i ≤ hi ↔ (i.ms.val : Int) ≤ n := by
    have hmax : i.seq ≤ maxU64 := Fin.le_def.mpr (by have := i.seq.isLt; simp only [maxU64]; omega)
    rw [StreamId.le_iff, hs', Fin.lt_def, Fin.ext_iff, ← hni]
    simp only [hmax, and_true]
    omega
  simp [InWindow, hm, hn, hl, hr]

/-- The entries of a window, oldest first. -/
def inRange (ms : Datetime → Option Int) (s : Stream Fields) (start end_ : Datetime) : List (StreamId × Fields) :=
  s.entries.filter fun e => InWindow ms start end_ e.1

theorem inRange_eq {ms : Datetime → Option Int} (hb : Bounded ms) {start end_ : Datetime} {lo hi : StreamId}
    (hlo : timeId ms 0 start = some lo) (hhi : timeId ms maxU64 end_ = some hi) (s : Stream Fields) :
    inRange ms s start end_ = s.range (.from lo) hi :=
  List.filter_congr fun e _ => decide_eq_decide.mpr (inWindow_iff hb hlo hhi e.1)

theorem fetchKindPage_congr (A : RecordAdapter) (ms : Datetime → Option Int) {db db' : Store} {dockerHost : String}
    {kind : Kind} (h : db (streamKey dockerHost kind) = db' (streamKey dockerHost kind)) (start end_ : Datetime)
    (cursor : Option String) (limit : Int) :
    fetchKindPage A ms db dockerHost kind start end_ cursor limit =
      fetchKindPage A ms db' dockerHost kind start end_ cursor limit := by
  simp only [fetchKindPage, xrange_congr h]

/-! ## Pages -/

section

variable {A : RecordAdapter} {ms : Datetime → Option Int} {db : Store} {dockerHost : String} {kind : Kind}
  {s : Stream Fields} {start end_ : Datetime} {limit : Int}

theorem decodeEntry_id {e : StreamId × Fields} {y : StreamId × Record} (h : decodeEntry A e = some y) : y.1 = e.1 := by
  simp only [decodeEntry, Option.bind_eq_some_iff, Option.map_eq_some_iff] at h
  obtain ⟨_, _, _, _, rfl⟩ := h
  rfl

theorem pageOf_short {raw : List (StreamId × Fields)} {n : Nat} (h : raw.length < n) :
    pageOf A raw n = .ok ⟨raw.filterMap (decodeEntry A), none⟩ := by
  have hn : ¬ (raw.length : Int) = n := by omega
  simp only [pageOf, hn, if_false]

theorem pageOf_invalid {raw : List (StreamId × Fields)} {n : Nat} (h : raw.length = n)
    (hf : raw.filterMap (decodeEntry A) = []) : pageOf A raw n = .error .indexError := by
  simp [pageOf, h, hf]

/-- A full page's cursor is the last valid entry. -/
theorem pageOf_full {pre tail : List (StreamId × Fields)} {e : StreamId × Fields} {y : StreamId × Record} {n : Nat}
    (h : (pre ++ e :: tail).length = n) (hy : decodeEntry A e = some y) (ht : tail.filterMap (decodeEntry A) = []) :
    pageOf A (pre ++ e :: tail) n = .ok ⟨pre.filterMap (decodeEntry A) ++ [y], some e.1.print⟩ := by
  have hl : ((pre ++ e :: tail).length : Int) = n := by omega
  have hf : (pre ++ e :: tail).filterMap (decodeEntry A) = pre.filterMap (decodeEntry A) ++ [y] := by
    simp [hy, ht]
  simp only [pageOf, hl, hf, if_true, List.getLast?_append, List.getLast?_singleton, Option.some_or,
    decodeEntry_id hy]

/-- A page of valid entries: the last one but a short page has a cursor, its last entry. -/
theorem pageOf_valid {raw : List (StreamId × Fields)} {n : Nat} (hn : 1 ≤ n) (hlen : raw.length ≤ n)
    (hv : ∀ e ∈ raw, Valid A e) :
    ∃ next, pageOf A raw n = .ok ⟨raw.filterMap (decodeEntry A), next⟩ ∧
      ((raw.length < n ∧ next = none) ∨
        ∃ pre e, raw = pre ++ [e] ∧ raw.length = n ∧ next = some e.1.print) := by
  rcases hlen.lt_or_eq with hlt | heq
  · exact ⟨none, pageOf_short hlt, .inl ⟨hlt, rfl⟩⟩
  · rcases List.eq_nil_or_concat raw with rfl | ⟨pre, e, rfl⟩
    · simp at heq; omega
    · obtain ⟨y, hy⟩ := Option.isSome_iff_exists.mp (hv e (by simp))
      refine ⟨some e.1.print, ?_, .inr ⟨pre, e, by simp, heq, rfl⟩⟩
      rw [List.concat_eq_append] at heq ⊢
      rw [pageOf_full heq hy rfl]
      simp [hy]

theorem filterMap_ids {raw : List (StreamId × Fields)} (hv : ∀ e ∈ raw, Valid A e) :
    (raw.filterMap (decodeEntry A)).map (·.1) = raw.map (·.1) := by
  induction raw with
  | nil => rfl
  | cons e raw ih =>
    obtain ⟨y, hy⟩ := Option.isSome_iff_exists.mp (hv e List.mem_cons_self)
    rw [List.filterMap_cons_some hy, List.map_cons, List.map_cons, decodeEntry_id hy,
      ih fun x hx => hv x (List.mem_cons_of_mem _ hx)]

theorem recordsOf_append (A : RecordAdapter) (xs ys : List (StreamId × Fields)) :
    recordsOf A (xs ++ ys) = recordsOf A xs ++ recordsOf A ys := by simp [recordsOf]

theorem recordsOf_length {A : RecordAdapter} {xs : List (StreamId × Fields)} (h : ∀ e ∈ xs, Valid A e) :
    (recordsOf A xs).length = xs.length := by
  have := congrArg List.length (filterMap_ids h)
  simpa [recordsOf] using this

theorem mem_recordsOf {A : RecordAdapter} {xs : List (StreamId × Fields)} {r : Record} (h : r ∈ recordsOf A xs) :
    ∃ e ∈ xs, ∃ y, decodeEntry A e = some y ∧ y.2 = r := by
  obtain ⟨y, hy, rfl⟩ := List.mem_map.mp h
  obtain ⟨e, he, hd⟩ := List.mem_filterMap.mp hy
  exact ⟨e, he, y, hd, rfl⟩

/-- A first page is cut from the window. -/
theorem fetchKindPage_start (hb : Bounded ms) (hs : streamAt db (streamKey dockerHost kind) = .ok s) {lo hi : StreamId}
    (hlo : timeId ms 0 start = some lo) (hhi : timeId ms maxU64 end_ = some hi) (hl : 1 ≤ limit) :
    fetchKindPage A ms db dockerHost kind start end_ none limit =
      pageOf A (s.xrange (.from lo) hi limit.toNat) limit := by
  have hc : ¬ limit < 1 := by omega
  simp only [fetchKindPage, rangeStart, idFloor_text hb hlo, idCeiling_text hb hhi, xrange, hc, if_false,
    parseLower_print, parseUpper_print, hs, Except.map, ok_bind]

/-- A later page is cut from what follows the cursor. -/
theorem fetchKindPage_after (hb : Bounded ms) (hs : streamAt db (streamKey dockerHost kind) = .ok s)
    {i hi : StreamId} (hi' : i ≠ maxId) (hhi : timeId ms maxU64 end_ = some hi) (hl : 1 ≤ limit) :
    fetchKindPage A ms db dockerHost kind start end_ (some i.print) limit =
      pageOf A (s.xrange (.after i) hi limit.toNat) limit := by
  have hc : ¬ limit < 1 := by omega
  have hne : i.print ≠ "" := by
    intro h
    have hp := StreamId.parse_print 0 i
    rw [h] at hp
    cases hp
  simp only [fetchKindPage, rangeStart, hne, if_false, idCeiling_text hb hhi, xrange, hc, parseLower_after hi',
    parseUpper_print, hs, Except.map, ok_bind]

/-- A window that begins or ends before 1970 gives no first page. -/
theorem fetchKindPage_start_error (hb : Bounded ms)
    (h : timeId ms 0 start = none ∨ timeId ms maxU64 end_ = none) :
    ∃ e, fetchKindPage A ms db dockerHost kind start end_ none limit = .error e := by
  have hneg : ∀ {seq dt}, timeId ms seq dt = none → ms dt = none ∨ ∃ m, ms dt = some m ∧ m < 0 := by
    intro seq dt hn
    cases hm : ms dt with
    | none => exact .inl rfl
    | some m =>
      refine .inr ⟨m, rfl, ?_⟩
      by_contra h0
      have := hb dt m hm
      rw [timeId, hm, Option.bind_some, dif_pos ⟨not_lt.mp h0, this⟩] at hn
      cases hn
  simp only [fetchKindPage, rangeStart]
  cases hs : ms start with
  | none => exact ⟨.overflowError, by simp [idFloor, hs]⟩
  | some m =>
    cases he : ms end_ with
    | none => exact ⟨.overflowError, by simp [idFloor, idCeiling, hs, he]⟩
    | some n =>
      by_cases hl : limit < 1
      · exact ⟨.redis .badCount, by simp [idFloor, idCeiling, hs, he, xrange, hl]⟩
      · refine ⟨.redis .invalidStreamId, ?_⟩
        rcases h with h | h
        · obtain ⟨m', hm', h0⟩ := (hneg h).resolve_left (by simp [hs])
          rw [hs] at hm'; cases hm'
          simp only [idFloor, idCeiling, hs, he, ok_bind, xrange, hl, if_false, parseLower_neg h0]
        · obtain ⟨n', hn', h0⟩ := (hneg h).resolve_left (by simp [he])
          rw [he] at hn'; cases hn'
          simp only [idFloor, idCeiling, hs, he, ok_bind, xrange, hl, if_false, String.append_assoc, parseUpper_neg h0]
          cases parseLower (toString m ++ "-0") <;> rfl

/-- A limit below 1 gives no page. -/
theorem fetchKindPage_limit_error (h : limit < 1) (cursor : Option String) :
    ∃ e, fetchKindPage A ms db dockerHost kind start end_ cursor limit = .error e := by
  simp only [fetchKindPage]
  cases rangeStart ms start cursor with
  | error e => exact ⟨e, rfl⟩
  | ok min =>
    cases idCeiling ms end_ with
    | error e => exact ⟨e, rfl⟩
    | ok max => exact ⟨.redis .badCount, by simp only [ok_bind, xrange, h, if_true]⟩

end

end LogSump.Server
