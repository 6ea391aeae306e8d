/-
  LogSump.Python.Codec — what Python makes of the bytes of a subprocess: `bytes.decode` with
  `errors="replace"`, the lines that a `StreamReader` gives, and `str.rstrip("\n")`.

  The decoder reads one byte at a time. A byte that starts a character leaves it pending until
  its continuation bytes have come; a byte that may not follow ends it there, and it becomes
  one U+FFFD, whatever part of it has been read.

  - `decode_newline`, `newline_not_mem_decode`: a newline is decoded as itself, and nothing
    else is decoded as one.
  - `chomp_rawLines`: the lines of a text, with and without their newline.
  - `rstrip_decode`: stripping the decoded line takes away its newline and nothing else.
-/

import Mathlib

namespace LogSump.Python.Codec

def newline : UInt8 := 10

def replacement : Char := '\uFFFD'

/-- A character of which `more` continuation bytes are to come, the next one of them in
    `low..high`; the bits read so far are `acc`. No character in two bytes or more is ASCII. -/
structure Pending where
  more : Nat
  low : Nat
  high : Nat
  acc : Nat
  low_ge : 128 ≤ low
  not_ascii : 128 ≤ (acc * 64 + (low - 128)) * 64 ^ more

/-- What a byte may start: of `more + 1` continuation bytes, the first one is restricted after
    0xE0, 0xED, 0xF0 and 0xF4. -/
def lead (b : Nat) : Option Pending :=
  if h : 0xC2 ≤ b ∧ b ≤ 0xDF then some ⟨0, 0x80, 0xBF, b - 0xC0, by omega, by omega⟩
  else if b = 0xE0 then some ⟨1, 0xA0, 0xBF, 0, by omega, by omega⟩
  else if b = 0xED then some ⟨1, 0x80, 0x9F, 0xD, by omega, by omega⟩
  else if h : 0xE1 ≤ b ∧ b ≤ 0xEF then some ⟨1, 0x80, 0xBF, b - 0xE0, by omega, by omega⟩
  else if b = 0xF0 then some ⟨2, 0x90, 0xBF, 0, by omega, by omega⟩
  else if h : 0xF1 ≤ b ∧ b ≤ 0xF3 then some ⟨2, 0x80, 0xBF, b - 0xF0, by omega, by omega⟩
  else if b = 0xF4 then some ⟨2, 0x80, 0x8F, 4, by omega, by omega⟩
  else none

/-- A byte between characters. -/
def start (b : Nat) : List Char × Option Pending :=
  if b < 128 then ([Char.ofNat b], none)
  else
    match lead b with
    | some p => ([], some p)
    | none => ([replacement], none)

/-- The next continuation byte, and the character where it was the last one. -/
def Pending.take (b : Nat) : (p : Pending) → p.low ≤ b → List Char × Option Pending
  | ⟨0, _, _, acc, _, _⟩, _ => ([Char.ofNat (acc * 64 + (b - 128))], none)
  | ⟨more + 1, _, _, acc, _, not_ascii⟩, h =>
    ([], some ⟨more, 0x80, 0xBF, acc * 64 + (b - 128), Nat.le_refl _, by
      rw [pow_succ, mul_comm (64 ^ more) 64, ← mul_assoc] at not_ascii
      exact not_ascii.trans (Nat.mul_le_mul_right _ (by simp only at h; omega))⟩)

def next : Option Pending → Nat → List Char × Option Pending
  | none, b => start b
  | some p, b => if h : p.low ≤ b ∧ b ≤ p.high then p.take b h.1 else (replacement :: (start b).1, (start b).2)

def decodeFrom : Option Pending → List UInt8 → List Char
  | none, [] => []
  | some _, [] => [replacement]
  | p, b :: bs => (next p b.toNat).1 ++ decodeFrom (next p b.toNat).2 bs

/-- `bytes.decode(errors="replace")`. -/
def decode (bytes : List UInt8) : List Char := decodeFrom none bytes

/-- `str.rstrip("\n")`. -/
def rstripNewline (text : List Char) : List Char := text.rdropWhile (· = '\n')

/-- The lines that a `StreamReader` gives until the end of file, each with its newline. -/
def rawLines : List UInt8 → List (List UInt8)
  | [] => []
  | b :: bs =>
    if b = newline then [b] :: rawLines bs
    else
      match rawLines bs with
      | [] => [[b]]
      | line :: lines => (b :: line) :: lines

/-- A line without its newline. -/
def chomp (line : List UInt8) : List UInt8 := if line.getLast? = some newline then line.dropLast else line

/-- What stands between the newlines; after the last one, only where something does. -/
def dropFinalEmpty (pieces : List (List UInt8)) : List (List UInt8) :=
  if pieces.getLast? = some [] then pieces.dropLast else pieces

def lines (bytes : List UInt8) : List (List UInt8) := dropFinalEmpty (bytes.splitOn newline)

/-! ## Newlines -/

theorem next_newline (p : Option Pending) :
    next p newline.toNat = (if p.isSome then [replacement, '\n'] else ['\n'], none) := by
  have hstart : start newline.toNat = (['\n'], none) := rfl
  cases p with
  | none => exact hstart
  | some p =>
    have hlow : ¬ (p.low ≤ newline.toNat ∧ newline.toNat ≤ p.high) := by
      have hge := p.low_ge
      have hn : newline.toNat = 10 := rfl
      omega
    rw [next, dif_neg hlow, hstart]
    rfl

theorem decodeFrom_newline (p : Option Pending) (bytes : List UInt8) :
    decodeFrom p (bytes ++ [newline]) = decodeFrom p bytes ++ ['\n'] := by
  induction bytes generalizing p with
  | nil => cases p <;> simp [decodeFrom, next_newline]
  | cons b bs ih => simp only [List.cons_append, decodeFrom, ih, List.append_assoc]

theorem decode_newline (bytes : List UInt8) : decode (bytes ++ [newline]) = decode bytes ++ ['\n'] :=
  decodeFrom_newline none bytes

theorem ofNat_ne_newline {n : Nat} (h : n ≠ 10) : Char.ofNat n ≠ '\n' := by
  intro he
  have hn : (Char.ofNat n).toNat = 10 := by rw [he]; rfl
  by_cases hv : n.isValidChar
  · rw [Char.toNat_ofNat, if_pos hv] at hn
    exact h hn
  · rw [Char.toNat_ofNat, if_neg hv] at hn
    cases hn

theorem newline_not_mem_start {b : Nat} (hb : b ≠ 10) : '\n' ∉ (start b).1 := by
  unfold start
  split
  · simpa using (ofNat_ne_newline hb).symm
  · cases lead b with
    | none => decide
    | some p => simp

theorem newline_not_mem_take {p : Pending} {b : Nat} (h : p.low ≤ b) : '\n' ∉ (p.take b h).1 := by
  obtain ⟨_ | more, low, high, acc, hlow, hascii⟩ := p
  · simp only [pow_zero, mul_one] at hascii
    have hne : acc * 64 + (b - 128) ≠ 10 := by
      have hb : low ≤ b := h
      omega
    simpa [Pending.take] using (ofNat_ne_newline hne).symm
  · simp [Pending.take]

theorem newline_not_mem_next {p : Option Pending} {b : Nat} (hb : b ≠ 10) : '\n' ∉ (next p b).1 := by
  cases p with
  | none => exact newline_not_mem_start hb
  | some p =>
    rw [next]
    split
    · exact newline_not_mem_take _
    · simpa [replacement] using newline_not_mem_start hb

theorem newline_not_mem_decodeFrom {bytes : List UInt8} (h : newline ∉ bytes) (p : Option Pending) :
    '\n' ∉ decodeFrom p bytes := by
  induction bytes generalizing p with
  | nil => cases p <;> simp [decodeFrom, replacement]
  | cons b bs ih =>
    obtain ⟨hb, hbs⟩ := not_or.mp (mt List.mem_cons.mpr h)
    have hne : b.toNat ≠ 10 := fun he => hb (UInt8.toNat_inj.mp he).symm
    rw [decodeFrom]
    intro hmem
    rcases List.mem_append.mp hmem with hmem | hmem
    · exact newline_not_mem_next hne hmem
    · exact ih hbs _ hmem

theorem newline_not_mem_decode {bytes : List UInt8} (h : newline ∉ bytes) : '\n' ∉ decode bytes :=
  newline_not_mem_decodeFrom h none

theorem rstripNewline_append (text : List Char) : rstripNewline (text ++ ['\n']) = rstripNewline text :=
  List.rdropWhile_concat_pos _ _ _ (by simp)

theorem rstripNewline_self {text : List Char} (h : '\n' ∉ text) : rstripNewline text = text := by
  rw [rstripNewline, List.rdropWhile_eq_self_iff]
  intro hne hlast
  exact h (of_decide_eq_true hlast ▸ List.getLast_mem hne)

/-! ## Lines -/

theorem chomp_snoc (line : List UInt8) : chomp (line ++ [newline]) = line := by
  rw [chomp, List.getLast?_concat, if_pos rfl, List.dropLast_concat]

theorem chomp_cons {b : UInt8} (hb : b ≠ newline) (line : List UInt8) : chomp (b :: line) = b :: chomp line := by
  unfold chomp
  cases line with
  | nil => simp [hb]
  | cons c cs =>
    rw [List.getLast?_cons_cons]
    split <;> rfl

theorem newline_not_mem_chomp {bytes line : List UInt8} (h : line ∈ rawLines bytes) : newline ∉ chomp line := by
  induction bytes generalizing line with
  | nil => cases h
  | cons b bs ih =>
    unfold rawLines at h
    split at h
    · rename_i hb
      rcases List.mem_cons.mp h with rfl | h
      · rw [hb]; decide
      · exact ih h
    · rename_i hb
      have hcons : ∀ l, newline ∉ chomp l → newline ∉ chomp (b :: l) := by
        intro l hl hmem
        rw [chomp_cons hb] at hmem
        exact (List.mem_cons.mp hmem).elim (fun he => hb he.symm) hl
      cases hr : rawLines bs with
      | nil =>
        rw [hr] at h
        rw [List.mem_singleton.mp h]
        exact hcons [] (by decide)
      | cons l ls =>
        rw [hr] at h ih
        rcases List.mem_cons.mp h with rfl | h
        · exact hcons l (ih List.mem_cons_self)
        · exact ih (List.mem_cons_of_mem _ h)

/-- What `rstrip` leaves of a decoded line is what stands before its newline. -/
theorem rstrip_decode {bytes line : List UInt8} (h : line ∈ rawLines bytes) :
    rstripNewline (decode line) = decode (chomp line) := by
  have hno := newline_not_mem_decode (newline_not_mem_chomp h)
  by_cases hlast : line.getLast? = some newline
  · obtain ⟨content, rfl⟩ := List.getLast?_eq_some_iff.mp hlast
    rw [chomp_snoc] at hno ⊢
    rw [decode_newline, rstripNewline_append, rstripNewline_self hno]
  · have hc : chomp line = line := if_neg hlast
    rw [hc] at hno ⊢
    exact rstripNewline_self hno

theorem dropFinalEmpty_cons {piece : List UInt8} {pieces : List (List UInt8)} (h : pieces ≠ []) :
    dropFinalEmpty (piece :: pieces) = piece :: dropFinalEmpty pieces := by
  obtain ⟨q, qs, rfl⟩ := List.exists_cons_of_ne_nil h
  unfold dropFinalEmpty
  rw [List.getLast?_cons_cons]
  split <;> rfl

theorem dropFinalEmpty_singleton (piece : List UInt8) :
    dropFinalEmpty [piece] = if piece = [] then [] else [piece] := by
  simp [dropFinalEmpty]

theorem dropFinalEmpty_cons_ne_nil {piece q : List UInt8} {qs : List (List UInt8)} :
    dropFinalEmpty (piece :: q :: qs) ≠ [] := by
  rw [dropFinalEmpty_cons (List.cons_ne_nil _ _)]
  exact List.cons_ne_nil _ _

/-- A byte before a text belongs to its first line, which may be the only one. -/
theorem chomp_cons_rawLines {b : UInt8} (hb : b ≠ newline) {bs : List UInt8} {pieces : List (List UInt8)}
    (hne : pieces ≠ []) (h : (rawLines bs).map chomp = dropFinalEmpty pieces) :
    (rawLines (b :: bs)).map chomp = dropFinalEmpty (pieces.modifyHead (b :: ·)) := by
  obtain ⟨piece, rest, rfl⟩ := List.exists_cons_of_ne_nil hne
  rw [rawLines, if_neg hb, List.modifyHead_cons]
  cases hr : rawLines bs with
  | nil =>
    rw [hr] at h
    cases rest with
    | nil =>
      have hpiece : piece = [] := by
        by_contra hp
        rw [dropFinalEmpty_singleton, if_neg hp] at h
        cases h
      subst hpiece
      simp [dropFinalEmpty_singleton, chomp, hb]
    | cons q qs => exact absurd h.symm dropFinalEmpty_cons_ne_nil
  | cons line others =>
    rw [hr, List.map_cons] at h
    show chomp (b :: line) :: others.map chomp = _
    rw [chomp_cons hb]
    cases rest with
    | nil =>
      rw [dropFinalEmpty_singleton] at h ⊢
      rw [if_neg (List.cons_ne_nil _ _)]
      split at h
      · cases h
      · obtain ⟨h1, h2⟩ := List.cons.inj h
        rw [h1, h2]
    | cons q qs =>
      rw [dropFinalEmpty_cons (List.cons_ne_nil _ _)] at h ⊢
      obtain ⟨h1, h2⟩ := List.cons.inj h
      rw [h1, h2]

theorem chomp_rawLines (bytes : List UInt8) : (rawLines bytes).map chomp = lines bytes := by
  induction bytes with
  | nil => simp [rawLines, lines, dropFinalEmpty]
  | cons b bs ih =>
    unfold lines at ih ⊢
    rw [List.splitOn_cons_eq_if_modifyHead]
    by_cases hb : b = newline
    · subst hb
      rw [if_pos (beq_self_eq_true _), dropFinalEmpty_cons (List.splitOn_ne_nil _ _), rawLines, if_pos rfl,
        List.map_cons, ih]
      rfl
    · rw [if_neg (by simpa using hb)]
      exact chomp_cons_rawLines hb (List.splitOn_ne_nil _ _) ih

end LogSump.Python.Codec
