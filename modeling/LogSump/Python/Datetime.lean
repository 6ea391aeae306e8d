/-
  LogSump.Python.Datetime — Python's `datetime`, and its way to a number of milliseconds
  through `timestamp()`, which runs in doubles.

  A datetime is its wall clock, in microseconds from 1970-01-01T00:00:00, and the UTC
  offset of an aware one; a naive one has none, and means local time. An aware and a naive
  one do not compare.

  - `millis_seconds`: whole seconds become milliseconds exactly.
  - `millis_lt`: a number of milliseconds stays far below 2^64.
-/

import LogSump.Python.Float

namespace LogSump.Python

/-- The microseconds of a day. -/
def day : Int := 86400000000

/-- 0001-01-01T00:00:00. -/
def minWall : Int := -62135596800000000

/-- 9999-12-31T23:59:59.999999. -/
def maxWall : Int := 253402300799999999

structure Datetime where
  wall : Int
  offset : Option Int
  le_wall : minWall ≤ wall
  wall_le : wall ≤ maxWall
  offset_lt : ∀ o ∈ offset, -day < o ∧ o < day
  deriving DecidableEq

namespace Datetime

/-- With offset zero. -/
def utc (wall : Int) (h : minWall ≤ wall ∧ wall ≤ maxWall) : Datetime := ⟨wall, some 0, h.1, h.2, by decide⟩

/-- `a < b`; `none` is the TypeError of comparing an aware with a naive datetime. -/
def lt? (a b : Datetime) : Option Bool :=
  match a.offset, b.offset with
  | some o, some p => some (a.wall - o < b.wall - p)
  | none, none => some (a.wall < b.wall)
  | _, _ => none

def Aware (dt : Datetime) : Prop := dt.offset.isSome

instance : DecidablePred Aware := fun dt => inferInstanceAs (Decidable (dt.offset.isSome = true))

theorem lt?_isSome {a b : Datetime} : (a.lt? b).isSome ↔ (a.Aware ↔ b.Aware) := by
  unfold lt? Aware
  cases a.offset <;> cases b.offset <;> simp

/-- Where an aware datetime stands in time, in microseconds. -/
def instant (dt : Datetime) : Int := dt.wall - dt.offset.getD 0

theorem lt?_aware {a b : Datetime} (ha : a.Aware) (hb : b.Aware) : a.lt? b = some (a.instant < b.instant : Bool) := by
  obtain ⟨o, ho⟩ := Option.isSome_iff_exists.mp ha
  obtain ⟨p, hp⟩ := Option.isSome_iff_exists.mp hb
  simp only [lt?, instant, ho, hp, Option.getD_some]

/-- `dt - delta`; `none` is the OverflowError of leaving the years 1 to 9999. -/
def minus (dt : Datetime) (delta : Int) : Option Datetime :=
  if h : minWall ≤ dt.wall - delta ∧ dt.wall - delta ≤ maxWall then
    some { dt with wall := dt.wall - delta, le_wall := h.1, wall_le := h.2 }
  else none

end Datetime

/-! ## Timestamps -/

/-- The machine's time zone: the UTC offset, in seconds, at a local time in seconds;
    `none` where the platform refuses the time. -/
structure Zone where
  offset : Int → Option Int
  offset_lt : ∀ t, ∀ o ∈ offset t, -86400 < o ∧ o < 86400

def Zone.utc : Zone := ⟨fun _ => some 0, fun _ o h => by cases h; decide⟩

/-- `dt.timestamp()`, in seconds; `none` is an OverflowError. A naive time is converted
    in whole seconds and its fraction added in doubles. -/
def Datetime.timestamp (zone : Zone) (dt : Datetime) : Option ℚ :=
  match dt.offset with
  | some o => some (double ((dt.wall - o : ℤ) / 10 ^ 6))
  | none =>
    (zone.offset (dt.wall / 10 ^ 6)).map fun o =>
      double ((dt.wall / 10 ^ 6 - o : ℤ) + double ((dt.wall % 10 ^ 6 : ℤ) / 10 ^ 6))

/-- `int(q)`. -/
def toInt (q : ℚ) : ℤ := if 0 ≤ q then ⌊q⌋ else ⌈q⌉

/-- `int(dt.timestamp() * 1000)`. -/
def Datetime.millis (zone : Zone) (dt : Datetime) : Option Int :=
  (dt.timestamp zone).map fun t => toInt (double (t * 1000))

/-- The microseconds since the epoch, exactly. -/
def Datetime.micros (zone : Zone) (dt : Datetime) : Option Int :=
  match dt.offset with
  | some o => some (dt.wall - o)
  | none => (zone.offset (dt.wall / 10 ^ 6)).map fun o => dt.wall - o * 10 ^ 6

/-- The milliseconds since the epoch, rounded down exactly. -/
def Datetime.floorMillis (zone : Zone) (dt : Datetime) : Option Int := (dt.micros zone).map (· / 1000)

theorem toInt_int (n : ℤ) : toInt n = n := by simp [toInt]

theorem toInt_le {q : ℚ} {b : ℤ} (h : q ≤ b) : toInt q ≤ b := by
  unfold toInt
  split
  · exact_mod_cast (Int.floor_le q).trans h
  · exact Int.ceil_le.mpr h

theorem Datetime.timestamp_le {zone : Zone} {dt : Datetime} {t : ℚ} (h : dt.timestamp zone = some t) :
    t ≤ 2 * 2 ^ 38 := by
  have hw := dt.wall_le
  unfold maxWall at hw
  unfold timestamp at h
  cases ho : dt.offset with
  | some o =>
    simp only [ho, Option.some.injEq] at h
    have hlt := dt.offset_lt o ho
    unfold day at hlt
    have hs : ((dt.wall - o : ℤ) : ℚ) ≤ 2 ^ 38 * 10 ^ 6 := by
      have : dt.wall - o ≤ 2 ^ 38 * 10 ^ 6 := by omega
      exact_mod_cast this
    rw [← h]
    exact double_le_two_mul (by linarith) (by norm_num)
  | none =>
    simp only [ho, Option.map_eq_some_iff] at h
    obtain ⟨o, hz, rfl⟩ := h
    have hlt := zone.offset_lt _ o hz
    have hs : ((dt.wall / 10 ^ 6 - o : ℤ) : ℚ) ≤ 2 ^ 38 - 2 := by
      have : dt.wall / 10 ^ 6 - o ≤ 2 ^ 38 - 2 := by omega
      exact_mod_cast this
    have hf : ((dt.wall % 10 ^ 6 : ℤ) : ℚ) ≤ 10 ^ 6 := by
      have : dt.wall % 10 ^ 6 ≤ 10 ^ 6 := by omega
      exact_mod_cast this
    have hd : double (((dt.wall % 10 ^ 6 : ℤ) : ℚ) / 10 ^ 6) ≤ 2 * 1 :=
      double_le_two_mul ((div_le_one (by norm_num)).mpr hf) (by norm_num)
    exact double_le_two_mul (by linarith) (by norm_num)

theorem Datetime.millis_lt {zone : Zone} {dt : Datetime} {m : Int} (h : dt.millis zone = some m) : m < 2 ^ 53 := by
  simp only [millis, Option.map_eq_some_iff] at h
  obtain ⟨t, ht, rfl⟩ := h
  have hd : double (t * 1000) ≤ 2 * (2 * 2 ^ 38 * 1000) :=
    double_le_two_mul (by linarith [timestamp_le ht]) (by norm_num)
  have hi : toInt (double (t * 1000)) ≤ 2 * (2 * 2 ^ 38 * 1000) := toInt_le (by exact_mod_cast hd)
  omega

theorem Datetime.floorMillis_lt {zone : Zone} {dt : Datetime} {m : Int} (h : dt.floorMillis zone = some m) :
    m < 2 ^ 53 := by
  have hw := dt.wall_le
  unfold maxWall at hw
  simp only [floorMillis, Option.map_eq_some_iff] at h
  obtain ⟨us, hus, rfl⟩ := h
  unfold micros at hus
  cases ho : dt.offset with
  | some o =>
    have hlt := dt.offset_lt o ho
    unfold day at hlt
    simp only [ho, Option.some.injEq] at hus
    omega
  | none =>
    simp only [ho, Option.map_eq_some_iff] at hus
    obtain ⟨o, hz, rfl⟩ := hus
    have hlt := zone.offset_lt _ o hz
    omega

/-- Whole seconds become milliseconds exactly. -/
theorem Datetime.millis_seconds (zone : Zone) {dt : Datetime} {s : Int} (ho : dt.offset = some 0)
    (hs : dt.wall = s * 10 ^ 6) : dt.millis zone = some (s * 1000) := by
  have hl := dt.le_wall
  have hu := dt.wall_le
  unfold minWall at hl
  unfold maxWall at hu
  have h1 : |s| < 2 ^ 53 := abs_lt.mpr ⟨by omega, by omega⟩
  have h2 : |s * 1000| < 2 ^ 53 := abs_lt.mpr ⟨by omega, by omega⟩
  have hq : ((dt.wall - 0 : ℤ) : ℚ) / 10 ^ 6 = (s : ℤ) := by rw [hs]; push_cast; ring
  have ht : dt.timestamp zone = some (s : ℚ) := by simp only [timestamp, ho, hq, double_int h1]
  have hm : (s : ℚ) * 1000 = ((s * 1000 : ℤ) : ℚ) := by push_cast; ring
  rw [millis, ht, Option.map_some, hm, double_int h2, toInt_int]

end LogSump.Python
