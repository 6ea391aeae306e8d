/-
  LogSump.Listener.Units — `units.py`: the sizes and percentages that Docker writes, and the
  other conversions of texts in `container_stats.py` and `system_stats.py`.

  - `parseBytes_error`: a size text raises a ValueError where `float` refuses its digits
    (`1.2.3MB`), and an OverflowError where they are too many; all other texts give a size or
    none at all.
-/

import LogSump.Listener.Records

namespace LogSump.Listener

open Common Python

/-- `_SIZE_UNITS`. -/
def sizeUnits : List (String × Nat) :=
  [("B", 1), ("KB", 1000), ("KIB", 1024), ("MB", 1000 ^ 2), ("MIB", 1024 ^ 2), ("GB", 1000 ^ 3), ("GIB", 1024 ^ 3),
    ("TB", 1000 ^ 4), ("TIB", 1024 ^ 4), ("PB", 1000 ^ 5), ("PIB", 1024 ^ 5)]

/-- `unit.upper()`, of letters. -/
def upper (unit : PyStr) : String := String.ofList (unit.map fun c => (Char.ofNat c.code).toUpper)

/-- `_SIZE_RE`: digits and dots, spaces, letters. -/
def sizeGroups (text : PyStr) : Option (PyStr × PyStr) :=
  let isValue := fun c : PyChar => c.decimal?.isSome ∨ c = '.'
  let value := text.takeWhile fun c => isValue c
  let unit := (text.dropWhile fun c => isValue c).dropWhile (·.IsSpace)
  if value ≠ [] ∧ unit ≠ [] ∧ ∀ c ∈ unit, c.IsLetter then some (value, unit) else none

/-- `round(float(value) * multiplier)`. -/
def roundBytes (value : PyStr) (multiplier : Nat) : Except PyError (Option Int) :=
  match float? value with
  | none => .error .valueError
  | some x =>
    match (x.scale multiplier).round with
    | none => .error .overflowError
    | some n => .ok (some n)

def parseBytes (text : PyStr) : Except PyError (Option Int) :=
  match sizeGroups text.strip with
  | none => .ok none
  | some (value, unit) =>
    match sizeUnits.lookup (upper unit) with
    | none => .ok none
    | some multiplier => roundBytes value multiplier

def parsePairBytes (text : PyStr) : Except PyError (Option Int × Option Int) :=
  match text.partition '/' with
  | (_, none) => .ok (none, none)
  | (left, some right) => do
    let l ← parseBytes left
    let r ← parseBytes right
    return (l, r)

def parsePercent (text : PyStr) : Option PyFloat :=
  let text := text.strip
  if text.getLast? = some '%' then float? text.dropLast else none

/-- `_parse_reclaimable`. -/
def parseReclaimable (text : PyStr) : Except PyError (Option Int) :=
  parseBytes (PyStr.strip (text.takeWhile fun c : PyChar => c ≠ '('))

/-- `_parse_int`. -/
def parseInt (L : Library) : PyVal → Except PyError (Option Int)
  | .none => .ok none
  | value =>
    match L.str value with
    | .ok text => .ok (int? text.strip)
    | .error .valueError => .ok none
    | .error e => .error e

/-! ## Members of a row -/

section
variable (L : Library) (members : List (PyStr × PyVal)) (key : String)

/-- `parse_pair_bytes(str(data.get(key, "")))`. -/
def pairOf : Except PyError (Option Int × Option Int) := L.str (PyVal.getText members key) >>= parsePairBytes

/-- `parse_percent(str(data.get(key, "")))`. -/
def percentOf : Except PyError (Option PyFloat) := (L.str (PyVal.getText members key)).map parsePercent

/-- `parse_bytes(str(data.get(key, "")))`. -/
def bytesOf : Except PyError (Option Int) := L.str (PyVal.getText members key) >>= parseBytes

/-- `_parse_reclaimable(str(data.get(key, "")))`. -/
def reclaimableOf : Except PyError (Option Int) := L.str (PyVal.getText members key) >>= parseReclaimable

end

/-! ## Sizes -/

example : parseBytes (py "50MiB") = .ok (some 52428800) := by decide +kernel

theorem roundBytes_error {value : PyStr} {multiplier : Nat} {e : PyError} :
    roundBytes value multiplier = .error e ↔
      (float? value = none ∧ e = .valueError) ∨
        ∃ x, float? value = some x ∧ (x.scale multiplier).round = none ∧ e = .overflowError := by
  unfold roundBytes
  cases hv : float? value with
  | none => simp [eq_comm]
  | some x => cases hr : (x.scale multiplier).round <;> simp [hr, eq_comm]

theorem parseBytes_error {text : PyStr} {e : PyError} :
    parseBytes text = .error e ↔
      ∃ value unit multiplier, sizeGroups text.strip = some (value, unit) ∧ sizeUnits.lookup (upper unit) = some multiplier ∧
        ((float? value = none ∧ e = .valueError) ∨
          ∃ x, float? value = some x ∧ (x.scale multiplier).round = none ∧ e = .overflowError) := by
  unfold parseBytes
  constructor
  · intro h
    split at h
    · cases h
    · rename_i value unit hg
      split at h
      · cases h
      · rename_i multiplier hm
        exact ⟨value, unit, multiplier, hg, hm, roundBytes_error.mp h⟩
  · intro htext
    obtain ⟨value, unit, multiplier, hg, hm, h⟩ := htext
    simp only [hg, hm]
    exact roundBytes_error.mpr h

end LogSump.Listener
