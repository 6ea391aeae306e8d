/-
  LogSump.Python.Text — Python's `str`, a sequence of code points that may be surrogates, with
  the methods that log-sump uses, and the texts that `int` and `float` read. The character
  tables are those of Unicode 15.0.

  A call that raises ValueError gives `none`.

  - `splitlines_unlines`: lines that are written with their newlines are split into themselves.
-/

import LogSump.Python.Float

namespace LogSump.Python

/-- A code point; unlike a `Char` it may be a surrogate. -/
structure PyChar where
  code : Nat
  lt : code < 0x110000
  deriving DecidableEq

abbrev PyStr := List PyChar

namespace PyChar

def ofChar (c : Char) : PyChar := ⟨c.toNat, by have h := c.valid; simp [UInt32.isValidChar, Nat.isValidChar] at h; grind⟩

instance : Coe Char PyChar := ⟨ofChar⟩

/-- Half of a UTF-16 pair, which has no UTF-8 encoding. -/
def IsSurrogate (c : PyChar) : Prop := 0xD800 ≤ c.code ∧ c.code ≤ 0xDFFF

instance : DecidablePred IsSurrogate := fun c => inferInstanceAs (Decidable (0xD800 ≤ c.code ∧ c.code ≤ 0xDFFF))

/-- `str.isspace`. -/
def IsSpace (c : PyChar) : Prop :=
  (9 ≤ c.code ∧ c.code ≤ 13) ∨ (0x1C ≤ c.code ∧ c.code ≤ 0x20) ∨ (0x2000 ≤ c.code ∧ c.code ≤ 0x200A) ∨
    c.code ∈ [0x85, 0xA0, 0x1680, 0x2028, 0x2029, 0x202F, 0x205F, 0x3000]

instance : DecidablePred IsSpace := fun c => by unfold IsSpace; infer_instance

/-- Where `splitlines` ends a line. -/
def IsBreak (c : PyChar) : Prop :=
  (10 ≤ c.code ∧ c.code ≤ 13) ∨ (0x1C ≤ c.code ∧ c.code ≤ 0x1E) ∨ c.code ∈ [0x85, 0x2028, 0x2029]

instance : DecidablePred IsBreak := fun c => by unfold IsBreak; infer_instance

/-- The zeros of the decimal digits, general category Nd. -/
def zeros : List Nat :=
  [0x30, 0x660, 0x6F0, 0x7C0, 0x966, 0x9E6, 0xA66, 0xAE6, 0xB66, 0xBE6, 0xC66, 0xCE6, 0xD66, 0xDE6, 0xE50, 0xED0, 0xF20,
    0x1040, 0x1090, 0x17E0, 0x1810, 0x1946, 0x19D0, 0x1A80, 0x1A90, 0x1B50, 0x1BB0, 0x1C40, 0x1C50, 0xA620, 0xA8D0, 0xA900,
    0xA9D0, 0xA9F0, 0xAA50, 0xABF0, 0xFF10, 0x104A0, 0x10D30, 0x11066, 0x110F0, 0x11136, 0x111D0, 0x112F0, 0x11450, 0x114D0,
    0x11650, 0x116C0, 0x11730, 0x118E0, 0x11950, 0x11C50, 0x11D50, 0x11DA0, 0x11F50, 0x16A60, 0x16AC0, 0x16B50, 0x1D7CE,
    0x1D7D8, 0x1D7E2, 0x1D7EC, 0x1D7F6, 0x1E140, 0x1E2F0, 0x1E4F0, 0x1E950, 0x1FBF0]

def decimal? (c : PyChar) : Option Nat :=
  (zeros.find? fun z => z ≤ c.code ∧ c.code ≤ z + 9).map (c.code - ·)

/-- The digits that are not decimal, such as superscripts, each range with its last one. -/
def otherDigits : List (Nat × Nat) :=
  [(0xB2, 0xB3), (0xB9, 0xB9), (0x1369, 0x1371), (0x19DA, 0x19DA), (0x2070, 0x2070), (0x2074, 0x2079), (0x2080, 0x2089),
    (0x2460, 0x2468), (0x2474, 0x247C), (0x2488, 0x2490), (0x24EA, 0x24EA), (0x24F5, 0x24FD), (0x24FF, 0x24FF),
    (0x2776, 0x277E), (0x2780, 0x2788), (0x278A, 0x2792), (0x10A40, 0x10A43), (0x10E60, 0x10E68), (0x11052, 0x1105A),
    (0x1F100, 0x1F10A)]

/-- `str.isdigit` of one character; `int` does not read all of these. -/
def IsDigit (c : PyChar) : Prop := c.decimal?.isSome ∨ ∃ r ∈ otherDigits, r.1 ≤ c.code ∧ c.code ≤ r.2

instance : DecidablePred IsDigit := fun c =>
  inferInstanceAs (Decidable (c.decimal?.isSome = true ∨ ∃ r ∈ otherDigits, r.1 ≤ c.code ∧ c.code ≤ r.2))

/-- `[A-Za-z]`. -/
def IsLetter (c : PyChar) : Prop := (0x41 ≤ c.code ∧ c.code ≤ 0x5A) ∨ (0x61 ≤ c.code ∧ c.code ≤ 0x7A)

instance : DecidablePred IsLetter := fun c => by unfold IsLetter; infer_instance

end PyChar

/-- A text without surrogates. -/
def py (text : String) : PyStr := text.toList.map PyChar.ofChar

namespace PyStr

/-- It has a UTF-8 encoding. -/
def Encodable (text : PyStr) : Prop := ∀ c ∈ text, ¬ c.IsSurrogate

instance : DecidablePred Encodable := fun text => inferInstanceAs (Decidable (∀ c ∈ text, ¬ c.IsSurrogate))

theorem encodable_py (text : String) : Encodable (py text) := by
  intro c hc
  obtain ⟨d, -, rfl⟩ := List.mem_map.mp hc
  have hd := d.valid
  simp only [UInt32.isValidChar, Nat.isValidChar] at hd
  simp only [PyChar.IsSurrogate, PyChar.ofChar, Char.toNat]
  omega

def strip (text : PyStr) : PyStr := (text.dropWhile (·.IsSpace)).rdropWhile (·.IsSpace)

/-- A `\r\n` ends one line. -/
def dropCr : PyStr → PyStr
  | [] => []
  | c :: cs => if c.code = 13 ∧ cs.head?.map PyChar.code = some 10 then dropCr cs else c :: dropCr cs

def breakLines : PyStr → List PyStr
  | [] => []
  | c :: cs =>
    if c.IsBreak then [] :: breakLines cs
    else
      match breakLines cs with
      | [] => [[c]]
      | line :: lines => (c :: line) :: lines

def splitlines (text : PyStr) : List PyStr := breakLines (dropCr text)

/-- The lines, each with a newline after it. -/
def unlines (lines : List PyStr) : PyStr := lines.flatMap (· ++ py "\n")

/-- The words between spaces, the current one so far in `word`. -/
def words (word : PyStr) : PyStr → List PyStr
  | [] => if word = [] then [] else [word]
  | c :: cs =>
    if c.IsSpace then if word = [] then words [] cs else word :: words [] cs
    else words (word ++ [c]) cs

/-- `text.split()`. -/
def split (text : PyStr) : List PyStr := words [] text

/-- What stands before the separator, and what after it; `none` where it does not occur. -/
def partition (text : PyStr) (sep : PyChar) : PyStr × Option PyStr :=
  match text.dropWhile (· ≠ sep) with
  | [] => (text, none)
  | _ :: rest => (text.takeWhile (· ≠ sep), some rest)

def isdigit (text : PyStr) : Prop := text ≠ [] ∧ ∀ c ∈ text, c.IsDigit

instance : DecidablePred isdigit := fun text => inferInstanceAs (Decidable (text ≠ [] ∧ ∀ c ∈ text, c.IsDigit))

/-! ## Lines -/

theorem dropCr_eq_self {text : PyStr} (h : ∀ c ∈ text, c.code ≠ 13) : dropCr text = text := by
  induction text with
  | nil => rfl
  | cons c cs ih =>
    have hc : ¬ (c.code = 13 ∧ cs.head?.map PyChar.code = some 10) := fun hcr => h c List.mem_cons_self hcr.1
    rw [dropCr, if_neg hc, ih fun d hd => h d (List.mem_cons_of_mem c hd)]

theorem breakLines_line {line : PyStr} (h : ∀ c ∈ line, ¬ c.IsBreak) (rest : PyStr) :
    breakLines (line ++ py "\n" ++ rest) = line :: breakLines rest := by
  induction line with
  | nil => rfl
  | cons c cs ih =>
    have hc := h c List.mem_cons_self
    rw [List.cons_append, List.cons_append, breakLines, if_neg hc, ih fun d hd => h d (List.mem_cons_of_mem c hd)]

theorem splitlines_unlines {lines : List PyStr} (h : ∀ line ∈ lines, ∀ c ∈ line, ¬ c.IsBreak) :
    splitlines (unlines lines) = lines := by
  have hcr : ∀ c ∈ unlines lines, c.code ≠ 13 := by
    intro c hc
    obtain ⟨line, hline, hc⟩ := List.mem_flatMap.mp hc
    rcases List.mem_append.mp hc with hc | hc
    · intro he
      exact h line hline c hc (.inl (by omega))
    · cases List.mem_singleton.mp hc
      decide
  rw [splitlines, dropCr_eq_self hcr]
  clear hcr
  induction lines with
  | nil => rfl
  | cons line lines ih =>
    rw [unlines, List.flatMap_cons, breakLines_line (h line List.mem_cons_self)]
    exact congrArg (line :: ·) (ih fun l hl => h l (List.mem_cons_of_mem line hl))

end PyStr

/-! ## Numbers in text -/

/-- A character as `int` and `float` see it: decimal digits of any script, and spaces, in ASCII. -/
def PyChar.ascii (c : PyChar) : Char :=
  match c.decimal? with
  | some d => Char.ofNat (48 + d)
  | none =>
    if c.IsSpace ∧ ¬ (0x1C ≤ c.code ∧ c.code ≤ 0x1F) then ' '
    else if c.code < 128 then Char.ofNat c.code else '?'

def asciiDigit? (c : Char) : Option Nat := if '0' ≤ c ∧ c ≤ '9' then some (c.toNat - 48) else none

/-- Digits, between which single underscores may stand. -/
def digits : List Char → Option (List Nat)
  | [] => none
  | [c] => (asciiDigit? c).map ([·])
  | c :: '_' :: rest => (asciiDigit? c).bind fun d => (digits rest).map (d :: ·)
  | c :: rest => (asciiDigit? c).bind fun d => (digits rest).map (d :: ·)

/-- No digits, or `digits`. -/
def digits? (cs : List Char) : Option (List Nat) := if cs = [] then some [] else digits cs

def natOf (ds : List Nat) : Nat := ds.foldl (fun n d => 10 * n + d) 0

/-- Whether a minus sign stands in front, and what follows the sign. -/
def signed : List Char → Bool × List Char
  | '-' :: cs => (true, cs)
  | '+' :: cs => (false, cs)
  | cs => (false, cs)

def numeral (text : PyStr) : Bool × List Char :=
  signed (((text.map PyChar.ascii).dropWhile (· = ' ')).rdropWhile (· = ' '))

def applySign {α : Type} [Neg α] (negative : Bool) (x : α) : α := if negative then -x else x

/-- `int(text)`, of at most 4300 digits. -/
def int? (text : PyStr) : Option Int :=
  let (negative, cs) := numeral text
  (digits cs).bind fun ds => if ds.length ≤ 4300 then some (applySign negative (natOf ds : Int)) else none

/-- A decimal fraction, with an exponent or without. -/
def decimal? (cs : List Char) : Option ℚ :=
  let isExp := fun c : Char => c = 'e' ∨ c = 'E'
  let mantissa := cs.takeWhile fun c => ¬ isExp c
  let whole := mantissa.takeWhile (· ≠ '.')
  let fraction := (mantissa.dropWhile (· ≠ '.')).drop 1
  let exponent := match cs.dropWhile fun c => ¬ isExp c with
    | [] => some 0
    | _ :: cs => (digits (signed cs).2).map fun ds => applySign (signed cs).1 (natOf ds : Int)
  if whole = [] ∧ fraction = [] then none
  else do
    let w ← digits? whole
    let f ← digits? fraction
    let e ← exponent
    return natOf (w ++ f) * (10 : ℚ) ^ (e - f.length)

/-- `float(text)`. -/
def float? (text : PyStr) : Option PyFloat :=
  let (negative, cs) := numeral text
  let word := String.ofList (cs.map Char.toLower)
  if word = "inf" ∨ word = "infinity" then some (.infinity negative)
  else if word = "nan" then some .nan
  else (decimal? cs).map fun q => .ofRat (applySign negative q)

end LogSump.Python
