/-
  LogSump.Common.Value — the values that `json.loads` gives, and the exceptions that log-sump's
  code raises or catches.

  Some values are equal as dictionary keys though they are not the same (`1`, `1.0` and
  `True`); `keyOf?` is what they have in common.

  - `forall_insertAll`: a dictionary that was filled row by row holds the last row of each key.
  - `writable_get`: pydantic writes the members of what it writes.
-/

import LogSump.Python.Text

namespace LogSump.Common

open Python

inductive PyError where
  | transportError (text : PyStr)
  | valueError
  | keyError
  | typeError
  | attributeError
  | overflowError
  | recursionError
  deriving DecidableEq

def PyError.name : PyError → String
  | .transportError _ => "TransportError"
  | .valueError => "ValueError"
  | .keyError => "KeyError"
  | .typeError => "TypeError"
  | .attributeError => "AttributeError"
  | .overflowError => "OverflowError"
  | .recursionError => "RecursionError"

/-- `except (TransportError, ValueError)`. -/
def PyError.Caught : PyError → Prop
  | .transportError _ => True
  | .valueError => True
  | _ => False

instance : DecidablePred PyError.Caught := fun e => by cases e <;> unfold PyError.Caught <;> infer_instance

/-- What comes out of JSON; strings may hold surrogates. -/
inductive PyVal where
  | none
  | bool (b : Bool)
  | int (n : Int)
  | float (x : PyFloat)
  | str (s : PyStr)
  | list (xs : List PyVal)
  | dict (members : List (PyStr × PyVal))

namespace PyVal

/-- `bool(v)`. -/
def Truthy : PyVal → Prop
  | .none => False
  | .bool b => b
  | .int n => n ≠ 0
  | .float x => x ≠ .finite 0
  | .str s => s ≠ []
  | .list xs => xs.length ≠ 0
  | .dict members => members.length ≠ 0

instance : DecidablePred Truthy := fun v => by cases v <;> unfold Truthy <;> infer_instance

def Hashable : PyVal → Prop
  | .list _ => False
  | .dict _ => False
  | _ => True

instance : DecidablePred Hashable := fun v => by cases v <;> unfold Hashable <;> infer_instance

/-- `members.get(key)` where it is there. -/
def get? (members : List (PyStr × PyVal)) (key : String) : Option PyVal := members.lookup (py key)

/-- `members.get(key)`. -/
def get (members : List (PyStr × PyVal)) (key : String) : PyVal := (get? members key).getD .none

/-- `members.get(key, "")`. -/
def getText (members : List (PyStr × PyVal)) (key : String) : PyVal := (get? members key).getD (.str [])

end PyVal

/-! ## Keys -/

inductive PyKey where
  | none
  | number (q : ℚ)
  | infinity (negative : Bool)
  | nan
  | str (s : PyStr)
  deriving DecidableEq

/-- What a lookup compares. A NaN is equal to nothing, but `json.loads` has one NaN object for
    all of them, and lookups ask for identity before they ask for equality. -/
def keyOf? : PyVal → Option PyKey
  | .none => some .none
  | .bool b => some (.number (if b then 1 else 0))
  | .int n => some (.number n)
  | .float (.finite q) => some (.number q)
  | .float (.infinity negative) => some (.infinity negative)
  | .float .nan => some .nan
  | .str s => some (.str s)
  | _ => .none

/-- Two values are the same key of a dict or a set. -/
def SameKey (a b : PyVal) : Prop := (keyOf? a).isSome ∧ keyOf? a = keyOf? b

instance (a b : PyVal) : Decidable (SameKey a b) := inferInstanceAs (Decidable ((keyOf? a).isSome = true ∧ keyOf? a = keyOf? b))

theorem SameKey.symm {a b : PyVal} (h : SameKey a b) : SameKey b a := ⟨h.2 ▸ h.1, h.2.symm⟩

theorem SameKey.trans {a b c : PyVal} (h : SameKey a b) (h' : SameKey b c) : SameKey a c := ⟨h.1, h.2.trans h'.2⟩

section
variable {α : Type}

/-- `rows[key] = value`: a key that is there already stays. -/
def insert (rows : List (PyVal × α)) (key : PyVal) (value : α) : List (PyVal × α) :=
  if ∃ e ∈ rows, SameKey e.1 key then rows.map fun e => if SameKey e.1 key then (e.1, value) else e
  else rows ++ [(key, value)]

def insertAll (rows : List (PyVal × α)) : List (PyVal × α) := rows.foldl (fun acc r => insert acc r.1 r.2) []

/-- The rows that no later row of the same key replaces. -/
def lastRows : List (PyVal × α) → List (PyVal × α)
  | [] => []
  | r :: rows => if ∃ r' ∈ rows, SameKey r.1 r'.1 then lastRows rows else r :: lastRows rows

theorem insertAll_concat (rows : List (PyVal × α)) (r : PyVal × α) :
    insertAll (rows ++ [r]) = insert (insertAll rows) r.1 r.2 := by
  rw [insertAll, List.foldl_append]
  rfl

theorem lastRows_concat (rows : List (PyVal × α)) (r : PyVal × α) :
    lastRows (rows ++ [r]) = (lastRows rows).filter (fun e => ¬ SameKey e.1 r.1) ++ [r] := by
  induction rows with
  | nil => simp [lastRows]
  | cons e rows ih =>
    rw [List.cons_append, lastRows, lastRows, ih]
    by_cases hr : SameKey e.1 r.1
    · rw [if_pos ⟨r, by simp, hr⟩]
      split
      · rfl
      · rw [List.filter_cons_of_neg (by simpa using hr)]
    · by_cases he : ∃ r' ∈ rows, SameKey e.1 r'.1
      · obtain ⟨r', hm, hs⟩ := he
        rw [if_pos ⟨r', List.mem_append_left _ hm, hs⟩, if_pos ⟨r', hm, hs⟩]
      · have hn : ¬ ∃ r' ∈ rows ++ [r], SameKey e.1 r'.1 := by
          intro h
          obtain ⟨r', hm, hs⟩ := h
          rcases List.mem_append.mp hm with hm | hm
          · exact he ⟨r', hm, hs⟩
          · exact hr (List.mem_singleton.mp hm ▸ hs)
        rw [if_neg hn, if_neg he, List.filter_cons_of_pos (by simpa using hr), List.cons_append]

theorem mem_of_mem_lastRows {rows : List (PyVal × α)} {r : PyVal × α} (h : r ∈ lastRows rows) : r ∈ rows := by
  induction rows with
  | nil => exact h
  | cons e rows ih =>
    unfold lastRows at h
    split at h
    · exact List.mem_cons_of_mem _ (ih h)
    · rcases List.mem_cons.mp h with rfl | h
      · exact List.mem_cons_self
      · exact List.mem_cons_of_mem _ (ih h)

/-- The values do not decide which rows these are. -/
theorem lastRows_map {β : Type} (f : α → β) (rows : List (PyVal × α)) :
    lastRows (rows.map fun r => (r.1, f r.2)) = (lastRows rows).map fun r => (r.1, f r.2) := by
  induction rows with
  | nil => rfl
  | cons e rows ih =>
    have hex : (∃ r ∈ rows.map fun r => (r.1, f r.2), SameKey e.1 r.1) ↔ ∃ r ∈ rows, SameKey e.1 r.1 := by simp
    rw [List.map_cons, lastRows, lastRows, ih]
    by_cases h : ∃ r ∈ rows, SameKey e.1 r.1
    · rw [if_pos h, if_pos (hex.mpr h)]
    · rw [if_neg h, if_neg (fun hn => h (hex.mp hn)), List.map_cons]

/-- What holds of a key holds of every key that is equal to it. -/
def Respects (P : PyVal → Prop) : Prop := ∀ a b, SameKey a b → (P a ↔ P b)

theorem forall_insert_key {P : PyVal → Prop} (hP : Respects P) {rows : List (PyVal × α)} {key : PyVal} {value : α} :
    (∀ e ∈ insert rows key value, P e.1) ↔ (∀ e ∈ rows, P e.1) ∧ P key := by
  unfold insert
  split
  · rename_i h
    obtain ⟨e, he, hs⟩ := h
    have hmap : (∀ e ∈ rows.map fun e => if SameKey e.1 key then (e.1, value) else e, P e.1) ↔ ∀ e ∈ rows, P e.1 := by
      rw [List.forall_mem_map]
      refine forall₂_congr fun e _ => ?_
      split <;> rfl
    rw [hmap]
    exact ⟨fun h => ⟨h, (hP _ _ hs).mp (h e he)⟩, And.left⟩
  · simp [or_imp, forall_and]

/-- `P` selects the keys that are looked at. -/
theorem forall_insert_value {P : PyVal → Prop} (hP : Respects P) {Q : α → Prop} {rows : List (PyVal × α)} {key : PyVal}
    {value : α} : (∀ e ∈ insert rows key value, P e.1 → Q e.2) ↔
      (∀ e ∈ rows, P e.1 ∧ ¬ SameKey e.1 key → Q e.2) ∧ (P key → Q value) := by
  unfold insert
  split
  · rename_i h
    obtain ⟨e, he, hs⟩ := h
    rw [List.forall_mem_map]
    constructor
    · intro h
      constructor
      · intro r hr hselected
        obtain ⟨hp, hn⟩ := hselected
        have := h r hr
        rw [if_neg hn] at this
        exact this hp
      · intro hp
        have := h e he
        rw [if_pos hs] at this
        exact this ((hP _ _ hs).mpr hp)
    · intro hboth
      obtain ⟨h, hv⟩ := hboth
      intro r hr
      by_cases hk : SameKey r.1 key
      · rw [if_pos hk]
        intro hp
        exact hv ((hP _ _ hk).mp hp)
      · rw [if_neg hk]
        intro hp
        exact h r hr ⟨hp, hk⟩
  · rename_i hn
    have hne : ∀ e ∈ rows, ¬ SameKey e.1 key := fun e he hs => hn ⟨e, he, hs⟩
    constructor
    · intro h
      exact ⟨fun e he hp => h e (List.mem_append_left _ he) hp.1, h (key, value) (by simp)⟩
    · intro hboth
      obtain ⟨h, hv⟩ := hboth
      intro e he hp
      rcases List.mem_append.mp he with he | he
      · exact h e he ⟨hp, hne e he⟩
      · rw [List.mem_singleton.mp he] at hp ⊢
        exact hv hp

theorem forall_insertAll_key {P : PyVal → Prop} (hP : Respects P) {rows : List (PyVal × α)} :
    (∀ e ∈ insertAll rows, P e.1) ↔ ∀ r ∈ rows, P r.1 := by
  induction rows using List.reverseRecOn with
  | nil => simp [insertAll]
  | append_singleton rows r ih =>
    rw [insertAll_concat, forall_insert_key hP, ih]
    simp [or_imp, forall_and]

theorem forall_insertAll_value {P : PyVal → Prop} (hP : Respects P) {Q : α → Prop} {rows : List (PyVal × α)} :
    (∀ e ∈ insertAll rows, P e.1 → Q e.2) ↔ ∀ r ∈ lastRows rows, P r.1 → Q r.2 := by
  induction rows using List.reverseRecOn generalizing P with
  | nil => simp [insertAll, lastRows]
  | append_singleton rows r ih =>
    have hP' : Respects fun k => P k ∧ ¬ SameKey k r.1 := by
      intro a b h
      have hs : SameKey a r.1 ↔ SameKey b r.1 := ⟨h.symm.trans, h.trans⟩
      simp only [hP a b h, hs]
    rw [insertAll_concat, forall_insert_value hP, ih hP', lastRows_concat]
    simp [or_imp, forall_and]
    grind

/-- A dictionary that was filled row by row holds the last row of each key. -/
theorem forall_insertAll {P : PyVal → Prop} (hP : Respects P) {Q : α → Prop} {rows : List (PyVal × α)} :
    (∀ e ∈ insertAll rows, P e.1 ∧ Q e.2) ↔ (∀ r ∈ rows, P r.1) ∧ ∀ r ∈ lastRows rows, Q r.2 := by
  have hv := @forall_insertAll_value α (fun _ => True) (fun _ _ _ => Iff.rfl) Q rows
  simp only [true_imp_iff] at hv
  rw [forall₂_and, forall_insertAll_key hP, hv]

end

/-! ## What pydantic writes -/

namespace PyVal

/-- A value as JSON text, with at most `depth` levels below it: its strings have a UTF-8 encoding. -/
def Writable : Nat → PyVal → Prop
  | _, .str s => s.Encodable
  | 0, .list xs => xs = []
  | 0, .dict members => members = []
  | depth + 1, .list xs => ∀ x ∈ xs, Writable depth x
  | depth + 1, .dict members => ∀ m ∈ members, m.1.Encodable ∧ Writable depth m.2
  | _, _ => True

def decidableWritable : ∀ (depth : Nat) (v : PyVal), Decidable (Writable depth v)
  | 0, .list xs => inferInstanceAs (Decidable (xs = []))
  | 0, .dict members => inferInstanceAs (Decidable (members = []))
  | depth + 1, .list xs =>
    have := decidableWritable depth
    inferInstanceAs (Decidable (∀ x ∈ xs, Writable depth x))
  | depth + 1, .dict members =>
    have := decidableWritable depth
    inferInstanceAs (Decidable (∀ m ∈ members, m.1.Encodable ∧ Writable depth m.2))
  | 0, .str s | _ + 1, .str s => inferInstanceAs (Decidable s.Encodable)
  | 0, .none | 0, .bool _ | 0, .int _ | 0, .float _ | _ + 1, .none | _ + 1, .bool _ | _ + 1, .int _ | _ + 1, .float _ =>
    isTrue trivial

instance (depth : Nat) (v : PyVal) : Decidable (Writable depth v) := decidableWritable depth v

theorem writable_succ {depth : Nat} {v : PyVal} (h : Writable depth v) : Writable (depth + 1) v := by
  induction depth generalizing v with
  | zero =>
    cases v with
    | list xs =>
      cases (show xs = [] from h)
      exact fun x hx => by cases hx
    | dict members =>
      cases (show members = [] from h)
      exact fun m hm => by cases hm
    | _ => exact h
  | succ depth ih =>
    cases v with
    | list xs => exact fun x hx => ih (h x hx)
    | dict members => exact fun m hm => ⟨(h m hm).1, ih (h m hm).2⟩
    | _ => exact h

theorem writable_none (depth : Nat) : Writable depth .none := by cases depth <;> exact trivial

/-- A dictionary's members are written with it. -/
theorem writable_get {depth : Nat} {members : List (PyStr × PyVal)} (h : Writable depth (.dict members)) (key : String) :
    Writable depth (get members key) := by
  unfold get get?
  cases hl : members.lookup (py key) with
  | none => exact writable_none depth
  | some v =>
    obtain ⟨l₁, l₂, rfl, -⟩ := List.lookup_eq_some_iff.mp hl
    cases depth with
    | zero => cases l₁ <;> cases (show _ = [] from h)
    | succ depth => exact writable_succ (h (py key, v) (by simp)).2

/-- A key of a dictionary, which need not be a string. -/
def KeyWritable : PyVal → Prop
  | .str s => s.Encodable
  | _ => True

instance : DecidablePred KeyWritable := fun v => by cases v <;> unfold KeyWritable <;> infer_instance

theorem keyWritable_respects : Respects KeyWritable := by
  have h : ∀ a b, SameKey a b → KeyWritable a → KeyWritable b := by
    intro a b hsame
    obtain ⟨-, he⟩ := hsame
    intro ha
    cases b with
    | str s =>
      cases a with
      | str t =>
        cases he
        exact ha
      | float x => cases x <;> cases he
      | _ => cases he
    | _ => exact trivial
  exact fun a b hs => ⟨h a b hs, h b a hs.symm⟩

end PyVal

end LogSump.Common
