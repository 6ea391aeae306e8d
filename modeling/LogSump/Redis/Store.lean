/-
  LogSump.Redis.Store — one Redis keyspace: a key holds a list, a stream or a set, or
  nothing. Each command is a function on the keyspace that may fail; a failed command
  changes nothing. A list whose last element is popped is removed with its key, and a
  command on a key of another type is `WRONGTYPE`.

  - `putList_same`, `putStream_other`, …: what a command leaves at its own key and at the
    others.
  - `parseLower_print`, `parseLower_after`, `parseUpper_print`: the bounds an `XRANGE` is
    given are read back from their text.
-/

import LogSump.Redis.Stream

namespace LogSump.Redis

/-- The field-value pairs of a stream entry. -/
abbrev Fields := List (String × String)

inductive Value where
  | list (xs : List String)
  | stream (s : Stream Fields)
  | set (xs : List String)

abbrev Store := String → Option Value

inductive RedisError where
  | wrongType
  | invalidStreamId
  /-- redis-py's `DataError` for an `XRANGE` count below 1. -/
  | badCount
  | exhaustedIds
  /-- The connection failed or timed out. -/
  | connection
  deriving DecidableEq, Repr

def listAt (db : Store) (key : String) : Except RedisError (List String) :=
  match db key with
  | none => .ok []
  | some (.list xs) => .ok xs
  | some _ => .error .wrongType

def streamAt (db : Store) (key : String) : Except RedisError (Stream Fields) :=
  match db key with
  | none => .ok .empty
  | some (.stream s) => .ok s
  | some _ => .error .wrongType

def setAt (db : Store) (key : String) : Except RedisError (List String) :=
  match db key with
  | none => .ok []
  | some (.set xs) => .ok xs
  | some _ => .error .wrongType

def putList (db : Store) (key : String) (xs : List String) : Store :=
  Function.update db key (if xs = [] then none else some (.list xs))

def putStream (db : Store) (key : String) (s : Stream Fields) : Store := Function.update db key (some (.stream s))

/-! ## Commands -/

def rpush (db : Store) (key x : String) : Except RedisError Store :=
  (listAt db key).map fun xs => putList db key (xs ++ [x])

/-- `LPOP key n`: up to `n` elements; none of them where the key is missing. -/
def lpop (db : Store) (key : String) (n : Nat) : Except RedisError (List String × Store) :=
  (listAt db key).map fun xs => (xs.take n, putList db key (xs.drop n))

/-- `BLPOP`; `none` when the list stayed empty until the timeout. -/
def blpop (db : Store) (key : String) : Except RedisError (Option (String × Store)) :=
  (listAt db key).map fun xs =>
    match xs with
    | [] => none
    | x :: xs => some (x, putList db key xs)

def xadd (db : Store) (key : String) (clock : U64) (fields : Fields) : Except RedisError Store :=
  (streamAt db key).bind fun s =>
    match s.xadd clock fields with
    | none => .error .exhaustedIds
    | some s' => .ok (putStream db key s')

/-- `XTRIM key MINID =minId`; trimming a missing key does not create it. -/
def xtrim (db : Store) (key : String) (minId : Int) : Except RedisError Store :=
  match StreamId.parse 0 (toString minId) with
  | none => .error .invalidStreamId
  | some i => (streamAt db key).map fun s => if (db key).isNone then db else putStream db key (s.trim i)

def maxU64 : U64 := ⟨2 ^ 64 - 1, by decide⟩

def maxId : StreamId := ⟨maxU64, maxU64⟩

/-- An inclusive end of an `XRANGE`: `-` and `+` are the first and the last ID there can be. -/
def parseEnd (missingSeq : U64) (text : String) : Option StreamId :=
  (StreamId.chars text).bind fun cs =>
    if cs = ['-'] then some ⟨0, 0⟩ else if cs = ['+'] then some maxId else StreamId.parseChars missingSeq cs

/-- The lower end. Nothing can follow the last possible ID. -/
def parseLower (text : String) : Option Stream.Lower :=
  match text.toList with
  | '(' :: cs => (StreamId.parse 0 (String.ofList cs)).bind fun i => if i = maxId then none else some (.after i)
  | _ => (parseEnd 0 text).map .from

/-- The upper end, in the inclusive form. -/
def parseUpper (text : String) : Option StreamId := parseEnd maxU64 text

/-- Redis also refuses a count above 2^63 - 1, which only a page size of that order leads to. -/
def xrange (db : Store) (key min max : String) (count : Int) : Except RedisError (List (StreamId × Fields)) :=
  if count < 1 then .error .badCount
  else
    match parseLower min, parseUpper max with
    | some lo, some hi => (streamAt db key).map fun s => s.xrange lo hi count.toNat
    | _, _ => .error .invalidStreamId

def smembers (db : Store) (key : String) : Except RedisError (List String) := setAt db key

/-! ## Frames -/

theorem putList_same (db : Store) (key : String) (xs : List String) : listAt (putList db key xs) key = .ok xs := by
  by_cases h : xs = [] <;> simp [listAt, putList, h]

theorem putList_other (db : Store) {key k : String} (xs : List String) (h : k ≠ key) : putList db key xs k = db k := by
  simp [putList, h]

theorem putStream_same (db : Store) (key : String) (s : Stream Fields) : streamAt (putStream db key s) key = .ok s := by
  simp [streamAt, putStream]

theorem putStream_other (db : Store) {key k : String} (s : Stream Fields) (h : k ≠ key) :
    putStream db key s k = db k := by
  simp [putStream, h]

theorem streamAt_congr {db db' : Store} {k : String} (h : db' k = db k) : streamAt db' k = streamAt db k := by
  simp [streamAt, h]

theorem listAt_congr {db db' : Store} {k : String} (h : db' k = db k) : listAt db' k = listAt db k := by
  simp [listAt, h]

theorem setAt_congr {db db' : Store} {k : String} (h : db' k = db k) : setAt db' k = setAt db k := by
  simp [setAt, h]

/-- A successful `XADD` appends one entry to its own stream and touches no other key. -/
theorem xadd_ok {db db' : Store} {key : String} {clock : U64} {fields : Fields} (h : xadd db key clock fields = .ok db') :
    ∃ s s', streamAt db key = .ok s ∧ s.xadd clock fields = some s' ∧ db' = putStream db key s' := by
  simp only [xadd] at h
  cases hs : streamAt db key with
  | error e => simp [hs, Except.bind] at h
  | ok s =>
    simp only [hs, Except.bind] at h
    split at h
    · cases h
    · rename_i s' hs'
      cases h
      exact ⟨s, s', rfl, hs', rfl⟩

/-! A successful list command changes its own list only. -/

theorem rpush_ok {db db' : Store} {key x : String} (h : rpush db key x = .ok db') : ∃ xs, db' = putList db key xs := by
  unfold rpush at h
  cases hl : listAt db key with
  | error e => rw [hl] at h; cases h
  | ok xs =>
    rw [hl] at h
    cases h
    exact ⟨_, rfl⟩

theorem lpop_ok {db db' : Store} {key : String} {n : Nat} {taken : List String} (h : lpop db key n = .ok (taken, db')) :
    ∃ xs, db' = putList db key xs := by
  unfold lpop at h
  cases hl : listAt db key with
  | error e => rw [hl] at h; cases h
  | ok xs =>
    rw [hl] at h
    cases h
    exact ⟨_, rfl⟩

theorem blpop_ok {db db' : Store} {key x : String} (h : blpop db key = .ok (some (x, db'))) :
    ∃ xs, db' = putList db key xs := by
  unfold blpop at h
  cases hl : listAt db key with
  | error e => rw [hl] at h; cases h
  | ok xs =>
    rw [hl] at h
    cases xs with
    | nil => cases h
    | cons y ys =>
      cases h
      exact ⟨_, rfl⟩

theorem mem_xrange {db : Store} {key min max : String} {count : Int} {raw : List (StreamId × Fields)}
    (h : xrange db key min max count = .ok raw) {e : StreamId × Fields} (he : e ∈ raw) :
    ∃ s, streamAt db key = .ok s ∧ e ∈ s.entries := by
  unfold xrange at h
  split at h
  · cases h
  · split at h
    · cases hs : streamAt db key with
      | error e => rw [hs] at h; cases h
      | ok s =>
        rw [hs] at h
        cases h
        exact ⟨s, rfl, (Stream.mem_range.mp (List.mem_of_mem_take he)).1⟩
    · cases h

theorem xrange_congr {db db' : Store} {key : String} (h : db key = db' key) (min max : String) (count : Int) :
    xrange db key min max count = xrange db' key min max count := by
  unfold xrange
  rw [streamAt_congr h]

/-! ## Bounds in text -/

theorem parseLower_paren {c : String} {i : StreamId} (hc : StreamId.parse 0 c = some i) (h : i ≠ maxId) :
    parseLower ("(" ++ c) = some (.after i) := by
  have ht : ("(" ++ c).toList = '(' :: c.toList := by simp
  simp only [parseLower, ht, String.ofList_toList, hc, Option.bind_some, h, if_false]

theorem parseLower_after {i : StreamId} (h : i ≠ maxId) : parseLower ("(" ++ i.print) = some (.after i) :=
  parseLower_paren (StreamId.parse_print 0 i) h

/-- An ID has a form of its own: it is neither of the two special ends. -/
theorem parseEnd_parse {missingSeq : U64} {text : String} {i : StreamId} (h : StreamId.parse missingSeq text = some i) :
    parseEnd missingSeq text = some i := by
  obtain ⟨cs, hcs, hi⟩ := Option.bind_eq_some_iff.mp h
  have hne : ∀ c, StreamId.parseChars missingSeq [c] = none → cs ≠ [c] := by
    intro c hc he
    rw [he, hc] at hi
    cases hi
  rw [parseEnd, hcs, Option.bind_some, if_neg (hne '-' rfl), if_neg (hne '+' rfl), hi]

/-- Nothing longer than the sign that begins with a minus sign is an end. -/
theorem parseEnd_dash (missingSeq : U64) {text : String} {c : Char} {cs : List Char} (h : text.toList = '-' :: c :: cs)
    (hc : c ≠ '\x00') : parseEnd missingSeq text = none := by
  unfold parseEnd StreamId.chars
  split
  · rfl
  · rw [h, List.takeWhile_cons_of_pos (by decide), List.takeWhile_cons_of_pos (by simpa using hc), Option.bind_some,
      if_neg (by simp), if_neg (by simp)]
    rfl

theorem parseUpper_print (i : StreamId) : parseUpper i.print = some i := parseEnd_parse (StreamId.parse_print maxU64 i)

theorem print_ne_paren (i : StreamId) (cs : List Char) : i.print.toList ≠ '(' :: cs := by
  intro he
  have hmem : ∀ c ∈ (Nat.repr i.ms.val).toList, c ≠ '(' := by
    intro c hc
    simpa using StreamId.isDigit_ne hc (d := '(') rfl
  have ht : i.print.toList = (Nat.repr i.ms.val).toList ++ '-' :: (Nat.repr i.seq.val).toList := by
    simp [StreamId.print]
  rw [ht] at he
  cases hms : (Nat.repr i.ms.val).toList with
  | nil =>
    rw [hms] at he
    cases he
  | cons c ds =>
    rw [hms, List.cons_append] at he
    exact hmem c (by simp [hms]) (List.cons.inj he).1

theorem parseLower_print (i : StreamId) : parseLower i.print = some (.from i) := by
  unfold parseLower
  split
  · exact absurd ‹_› (print_ne_paren i _)
  · rw [parseEnd_parse (StreamId.parse_print 0 i), Option.map_some]

end LogSump.Redis
