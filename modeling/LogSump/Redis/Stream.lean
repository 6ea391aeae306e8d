/-
  LogSump.Redis.Stream — Redis Streams: stream IDs with their text form, and a stream as
  its entries in ID order.

  An ID is `<ms>-<seq>`, two unsigned 64-bit numbers, ordered by `ms` and then `seq`. A
  stream keeps the last ID it ever gave out, so an ID that `XADD *` generates (`nextId`)
  exceeds every ID the stream has had, trimmed entries included, and depends only on that
  last ID and the clock. `XTRIM MINID m` removes the entries below `m-0`.

  IDs arrive as text. Redis reads a number as C's `strtoull` does, with blanks, signs and
  leading zeros, except that it refuses a plain negative one.

  - `StreamId.parse_print`: an ID is read back from its text.
  - `StreamId.parse_int_isSome_iff`: the whole numbers that are read as IDs.
  - `nextId_lt`: a generated ID is new.
  - `mem_range`, `range_sorted`: what an `XRANGE` without `COUNT` returns.
-/

import Mathlib

namespace LogSump.Redis

abbrev U64 := Fin (2 ^ 64)

instance instNeZeroU64 : NeZero (2 ^ 64) := ⟨by decide⟩

structure StreamId where
  ms : U64
  seq : U64
  deriving DecidableEq, Repr

namespace StreamId

instance : LinearOrder StreamId :=
  LinearOrder.lift' (fun i => toLex (i.ms, i.seq)) fun a b h => by
    cases a; cases b; simpa using h

theorem lt_iff {a b : StreamId} : a < b ↔ a.ms < b.ms ∨ (a.ms = b.ms ∧ a.seq < b.seq) :=
  Prod.Lex.toLex_lt_toLex

theorem le_iff {a b : StreamId} : a ≤ b ↔ a.ms < b.ms ∨ (a.ms = b.ms ∧ a.seq ≤ b.seq) :=
  Prod.Lex.toLex_le_toLex

/-! ## Text -/

def print (i : StreamId) : String := Nat.repr i.ms.val ++ "-" ++ Nat.repr i.seq.val

/-- The decimal digits of a number below 2^64. -/
def parseDigits (cs : List Char) : Option U64 :=
  if cs ≠ [] ∧ cs.all Char.isDigit then
    let n := Nat.ofDigitChars 10 cs 0
    if h : n < 2 ^ 64 then some ⟨n, h⟩ else none
  else none

/-- C's `isspace`. -/
def isSpace (c : Char) : Bool := [' ', '\t', '\n', '\x0b', '\x0c', '\r'].contains c

/-- C's `strtoull` in base 10, of a text that it reads to the end: a `-` negates modulo 2^64. -/
def strtoull (cs : List Char) : Option U64 :=
  match cs.dropWhile isSpace with
  | '-' :: ds => (parseDigits ds).map fun n => -n
  | '+' :: ds => parseDigits ds
  | ds => parseDigits ds

/-- A negative 64-bit number without blanks and leading zeros. -/
def isNegative : List Char → Bool
  | '-' :: c :: cs => c.isDigit && c != '0' && cs.all Char.isDigit && Nat.ofDigitChars 10 (c :: cs) 0 ≤ 2 ^ 63
  | _ => false

/-- Redis refuses what it reads as a negative number, and leaves every other form to `strtoull`. -/
def string2ull (cs : List Char) : Option U64 := if isNegative cs then none else strtoull cs

/-- An ID in text is at most 127 bytes long, and is read up to its first zero byte. -/
def chars (text : String) : Option (List Char) :=
  if 127 < text.utf8ByteSize then none else some (text.toList.takeWhile (· != '\x00'))

/-- `<ms>-<seq>`, or `<ms>` alone, where the command says which `seq` is meant. -/
def parseChars (missingSeq : U64) (cs : List Char) : Option StreamId :=
  let ms := cs.takeWhile (· != '-')
  match cs.dropWhile (· != '-') with
  | [] => (string2ull ms).map (⟨·, missingSeq⟩)
  | _ :: seq => (string2ull ms).bind fun m => (string2ull seq).map fun s => ⟨m, s⟩

def parse (missingSeq : U64) (text : String) : Option StreamId := (chars text).bind (parseChars missingSeq)

theorem string2ull_digit {c : Char} (hc : c.isDigit = true) (cs : List Char) :
    string2ull (c :: cs) = parseDigits (c :: cs) := by
  have hdash : c ≠ '-' := fun he => by subst he; simp [Char.isDigit] at hc
  have hplus : c ≠ '+' := fun he => by subst he; simp [Char.isDigit] at hc
  have hspace : isSpace c = false := by
    by_contra h
    simp only [isSpace, Bool.not_eq_false, List.contains_iff_mem, List.mem_cons, List.not_mem_nil, or_false] at h
    rcases h with rfl | rfl | rfl | rfl | rfl | rfl <;> simp [Char.isDigit] at hc
  have hneg : isNegative (c :: cs) = false := by
    unfold isNegative
    split
    · rename_i he
      exact absurd (List.cons.inj he).1 hdash
    · rfl
  rw [string2ull, hneg, if_neg Bool.false_ne_true, strtoull, List.dropWhile_cons_of_neg (by simp [hspace])]
  split
  · rename_i he
    exact absurd (List.cons.inj he).1 hdash
  · rename_i he
    exact absurd (List.cons.inj he).1 hplus
  · rfl

theorem isDigit_of_mem_repr {n : Nat} {c : Char} (h : c ∈ (Nat.repr n).toList) : c.isDigit = true := by
  rw [Nat.toList_repr] at h
  exact Nat.isDigit_of_mem_toDigits (by decide) (by decide) h

/-- A number in its usual form is read by its digits. -/
theorem string2ull_repr (n : Nat) : string2ull (Nat.repr n).toList = parseDigits (Nat.repr n).toList := by
  have hdigit := fun c (h : c ∈ (Nat.repr n).toList) => isDigit_of_mem_repr h
  cases hcs : (Nat.repr n).toList with
  | nil => exact absurd (Nat.toList_repr ▸ hcs) Nat.toDigits_ne_nil
  | cons c cs => exact string2ull_digit (hdigit c (by simp [hcs])) cs

theorem parseDigits_repr (n : U64) : parseDigits (Nat.repr n.val).toList = some n := by
  have h1 : Nat.toDigits 10 n.val ≠ [] := Nat.toDigits_ne_nil
  have h2 : (Nat.toDigits 10 n.val).all Char.isDigit = true :=
    List.all_eq_true.mpr fun c hc => Nat.isDigit_of_mem_toDigits (by decide) (by decide) hc
  simp [parseDigits, Nat.toList_repr, h1, h2, Nat.ofDigitChars_ten_toDigits]

theorem parseDigits_repr_some {n : Nat} {u : U64} (h : parseDigits (Nat.repr n).toList = some u) : u.val = n := by
  unfold parseDigits at h
  split at h
  · simp only [Nat.toList_repr, Nat.ofDigitChars_ten_toDigits] at h
    split at h
    · cases h; rfl
    · cases h
  · cases h

theorem isDigit_ne {n : Nat} {c d : Char} (h : c ∈ (Nat.repr n).toList) (hd : d.isDigit = false) : (c != d) = true := by
  have hc := isDigit_of_mem_repr h
  by_contra he
  simp only [bne_iff_ne, ne_eq, not_not] at he
  rw [he, hd] at hc
  cases hc

theorem utf8ByteSize_digits {cs : List Char} (h : ∀ c ∈ cs, c.isDigit = true) :
    (String.ofList cs).utf8ByteSize = cs.length := by
  rw [String.utf8ByteSize_ofList]
  induction cs with
  | nil => rfl
  | cons c cs ih =>
    have hc : c.utf8Size = 1 := by
      have hdigit := h c List.mem_cons_self
      simp only [Char.isDigit, Bool.and_eq_true, decide_eq_true_eq] at hdigit
      exact Char.utf8Size_eq_one_iff.mpr (UInt32.le_trans hdigit.2 (by decide : (57 : UInt32) ≤ 127))
    rw [String.utf8Len_cons, ih fun d hd => h d (List.mem_cons_of_mem _ hd), hc, List.length_cons]

theorem utf8ByteSize_repr (n : U64) : (Nat.repr n.val).utf8ByteSize ≤ 20 := by
  have hdigits := utf8ByteSize_digits fun c (h : c ∈ (Nat.repr n.val).toList) => isDigit_of_mem_repr h
  rw [String.ofList_toList, String.length_toList] at hdigits
  rw [hdigits]
  exact (Nat.length_repr_le_iff (by decide)).mpr (n.isLt.trans (by decide))

/-- A text of digits, and of digits around a dash, is read in full. -/
theorem chars_eq {text : String} (hsize : text.utf8ByteSize ≤ 127) (h : ∀ c ∈ text.toList, (c != '\x00') = true) :
    chars text = some text.toList := by
  rw [chars, if_neg (by omega), List.takeWhile_eq_self_iff.mpr h]

theorem parse_print (missingSeq : U64) (i : StreamId) : parse missingSeq (print i) = some i := by
  have hdash : ∀ c ∈ (Nat.repr i.ms.val).toList, (c != '-') = true := fun c h => isDigit_ne h rfl
  have ht : (print i).toList = (Nat.repr i.ms.val).toList ++ '-' :: (Nat.repr i.seq.val).toList := by
    simp [print]
  have hchars : chars (print i) = some (print i).toList := by
    refine chars_eq ?_ ?_
    · have h1 := utf8ByteSize_repr i.ms
      have h2 := utf8ByteSize_repr i.seq
      have h3 : "-".utf8ByteSize = 1 := by decide
      simp only [print, String.utf8ByteSize_append, h3]
      omega
    · intro c hc
      rw [ht, List.mem_append, List.mem_cons] at hc
      rcases hc with hc | rfl | hc
      · exact isDigit_ne hc rfl
      · decide
      · exact isDigit_ne hc rfl
  have h1 : (print i).toList.takeWhile (· != '-') = (Nat.repr i.ms.val).toList := by
    rw [ht, List.takeWhile_append_of_pos hdash]; simp
  have h2 : (print i).toList.dropWhile (· != '-') = '-' :: (Nat.repr i.seq.val).toList := by
    rw [ht, List.dropWhile_append_of_pos hdash]; simp
  simp only [parse, hchars, Option.bind_some, parseChars, h1, h2, string2ull_repr, parseDigits_repr, Option.map_some]

theorem parseChars_repr (missingSeq : U64) (n : Nat) :
    parseChars missingSeq (Nat.repr n).toList = (parseDigits (Nat.repr n).toList).map (⟨·, missingSeq⟩) := by
  have h1 : (Nat.repr n).toList.takeWhile (· != '-') = (Nat.repr n).toList :=
    List.takeWhile_eq_self_iff.mpr fun c hc => isDigit_ne hc rfl
  have h2 : (Nat.repr n).toList.dropWhile (· != '-') = [] :=
    List.dropWhile_eq_nil_iff.mpr fun c hc => isDigit_ne hc rfl
  simp only [parseChars, h1, h2, string2ull_repr]

theorem parse_repr (missingSeq n : U64) : parse missingSeq (Nat.repr n.val) = some ⟨n, missingSeq⟩ := by
  have hsize := utf8ByteSize_repr n
  rw [parse, chars_eq (by omega) fun c hc => isDigit_ne hc rfl, Option.bind_some, parseChars_repr, parseDigits_repr]
  rfl

/-- Nothing that begins with a minus sign is an ID. -/
theorem parse_dash (missingSeq : U64) {text : String} {cs : List Char} (h : text.toList = '-' :: cs) :
    parse missingSeq text = none := by
  unfold parse chars
  split
  · rfl
  · rw [h, List.takeWhile_cons_of_pos (by decide), Option.bind_some]
    rfl

/-- A whole number that is read as an ID is its milliseconds. -/
theorem parse_int {missingSeq : U64} {m : Int} {i : StreamId} (h : parse missingSeq (toString m) = some i) :
    (i.ms.val : Int) = m ∧ i.seq = missingSeq := by
  cases m with
  | ofNat n =>
    have ht : toString (Int.ofNat n) = Nat.repr n := rfl
    have hnul : (Nat.repr n).toList.takeWhile (· != '\x00') = (Nat.repr n).toList :=
      List.takeWhile_eq_self_iff.mpr fun c hc => isDigit_ne hc rfl
    rw [ht] at h
    unfold parse chars at h
    split at h
    · cases h
    · rw [hnul, Option.bind_some, parseChars_repr] at h
      obtain ⟨u, hu, rfl⟩ := Option.map_eq_some_iff.mp h
      exact ⟨congrArg Int.ofNat (parseDigits_repr_some hu), rfl⟩
  | negSucc n =>
    have ht : (toString (Int.negSucc n)).toList = '-' :: (Nat.repr (n + 1)).toList := by
      show ("-" ++ Nat.repr (n + 1)).toList = _
      rw [String.toList_append]
      rfl
    rw [parse_dash missingSeq ht] at h
    cases h

example : parse 0 "+5000-0" = some ⟨5000, 0⟩ ∧ parse 0 " 005000" = some ⟨5000, 0⟩ ∧ parse 0 "5000--1" = none ∧
    parse 0 "5000- -1" = some ⟨5000, -1⟩ ∧ parse 0 (String.ofList (List.replicate 130 '0') ++ "5000-0") = none := by
  decide +kernel

end StreamId

/-! ## Streams -/

/-- The entries in ID order, and the last ID the stream gave out. -/
structure Stream (α : Type*) where
  entries : List (StreamId × α)
  lastId : StreamId
  sorted : entries.Pairwise (·.1 < ·.1)
  le_lastId : ∀ e ∈ entries, e.1 ≤ lastId

namespace Stream

variable {α : Type*}

def empty : Stream α := ⟨[], ⟨0, 0⟩, .nil, by simp⟩

/-- `XADD` with an ID that exceeds every ID in the stream. -/
def add (s : Stream α) (i : StreamId) (v : α) (h : ∀ e ∈ s.entries, e.1 < i) : Stream α where
  entries := s.entries ++ [(i, v)]
  lastId := max s.lastId i
  sorted := List.pairwise_append.mpr ⟨s.sorted, List.pairwise_singleton _ _, fun a ha b hb => by
    rw [List.mem_singleton.mp hb]; exact h a ha⟩
  le_lastId := fun e he => by
    rcases List.mem_append.mp he with he | he
    · exact (s.le_lastId e he).trans (le_max_left _ _)
    · rw [List.mem_singleton.mp he]; exact le_max_right _ _

def singleton (i : StreamId) (v : α) : Stream α := empty.add i v (by simp [empty])

/-- `XTRIM MINID`: what is below the ID goes. -/
def trim (s : Stream α) (minId : StreamId) : Stream α where
  entries := s.entries.filter (fun e => minId ≤ e.1)
  lastId := s.lastId
  sorted := s.sorted.filter _
  le_lastId := fun e he => s.le_lastId e (List.mem_filter.mp he).1

/-- The ID that `XADD *` gives: the clock's millisecond, or the successor of the last ID
    where the clock has not moved past it; `none` when there is no ID left. -/
def nextId (last : StreamId) (clock : U64) : Option StreamId :=
  if last.ms < clock then some ⟨clock, 0⟩
  else if h : last.seq.val + 1 < 2 ^ 64 then some ⟨last.ms, ⟨last.seq.val + 1, h⟩⟩
  else if h : last.ms.val + 1 < 2 ^ 64 then some ⟨⟨last.ms.val + 1, h⟩, 0⟩
  else none

theorem nextId_lt {last : StreamId} {clock : U64} {i : StreamId} (h : nextId last clock = some i) : last < i := by
  unfold nextId at h
  rw [StreamId.lt_iff]
  split_ifs at h <;> cases h
  · left; assumption
  · right; exact ⟨rfl, Fin.lt_def.mpr (Nat.lt_succ_self _)⟩
  · left; exact Fin.lt_def.mpr (Nat.lt_succ_self _)

/-- `XADD *`. -/
def xadd (s : Stream α) (clock : U64) (v : α) : Option (Stream α) :=
  match h : nextId s.lastId clock with
  | none => none
  | some i => some (s.add i v fun e he => (s.le_lastId e he).trans_lt (nextId_lt h))

theorem xadd_entries {s s' : Stream α} {clock : U64} {v : α} (h : s.xadd clock v = some s') :
    ∃ i, nextId s.lastId clock = some i ∧ s'.entries = s.entries ++ [(i, v)] := by
  unfold xadd at h
  split at h
  · cases h
  · rename_i i hi
    cases h
    exact ⟨i, hi, rfl⟩

/-! ## Ranges -/

/-- The lower end of a range; `after` is the exclusive form, written with a parenthesis. -/
inductive Lower where
  | from (i : StreamId)
  | after (i : StreamId)
  deriving DecidableEq, Repr

def Lower.Admits : Lower → StreamId → Prop
  | .from i, j => i ≤ j
  | .after i, j => i < j

instance (l : Lower) : DecidablePred l.Admits := fun j => by cases l <;> unfold Lower.Admits <;> infer_instance

/-- Everything in the range, oldest first. -/
def range (s : Stream α) (lo : Lower) (hi : StreamId) : List (StreamId × α) :=
  s.entries.filter fun e => lo.Admits e.1 ∧ e.1 ≤ hi

/-- `XRANGE` with `COUNT`. -/
def xrange (s : Stream α) (lo : Lower) (hi : StreamId) (count : Nat) : List (StreamId × α) := (s.range lo hi).take count

theorem mem_range {s : Stream α} {lo : Lower} {hi : StreamId} {e : StreamId × α} :
    e ∈ s.range lo hi ↔ e ∈ s.entries ∧ lo.Admits e.1 ∧ e.1 ≤ hi := by
  simp [range]

theorem range_sorted (s : Stream α) (lo : Lower) (hi : StreamId) : (s.range lo hi).Pairwise (·.1 < ·.1) :=
  s.sorted.filter _

theorem Lower.Admits.trans {lo : Lower} {i j : StreamId} (h : lo.Admits i) (hij : i < j) : lo.Admits j := by
  cases lo with
  | «from» k => exact le_trans (show k ≤ i from h) hij.le
  | after k => exact lt_trans (show k < i from h) hij

/-- Past a member of a range, the range goes on with what follows that member. -/
theorem range_after {s : Stream α} {lo : Lower} {hi : StreamId} {pre post : List (StreamId × α)}
    {e : StreamId × α} (h : s.range lo hi = pre ++ e :: post) : s.range (.after e.1) hi = post := by
  have hs := s.range_sorted lo hi
  have hr : s.range (.after e.1) hi = (s.range lo hi).filter fun x => e.1 < x.1 := by
    rw [range, range, List.filter_filter]
    refine List.filter_congr fun x _ => ?_
    have he : lo.Admits e.1 := (mem_range.mp (h ▸ List.mem_append_right pre List.mem_cons_self)).2.1
    have hx : (Lower.after e.1).Admits x.1 ↔ e.1 < x.1 := Iff.rfl
    have ht : e.1 < x.1 → lo.Admits x.1 := fun hlt => he.trans hlt
    simp only [hx, ← Bool.decide_and, decide_eq_decide]
    tauto
  rw [h] at hs hr
  obtain ⟨-, hpost, hcross⟩ := List.pairwise_append.mp hs
  rw [hr, List.filter_append, List.filter_cons]
  have h1 : pre.filter (fun x => e.1 < x.1) = [] := List.filter_eq_nil_iff.mpr fun x hx => by
    have := hcross x hx e List.mem_cons_self
    simpa using this.le
  have h2 : post.filter (fun x => e.1 < x.1) = post := List.filter_eq_self.mpr fun x hx => by
    simpa using (List.pairwise_cons.mp hpost).1 x hx
  simp [h1, h2]

end Stream

end LogSump.Redis
