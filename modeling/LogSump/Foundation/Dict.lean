/-
  LogSump.Foundation.Dict — a dictionary as the list of its entries, in the order in which their
  keys came.

  - `mem_keys_ofItems`: filling a dictionary loses no key.
  - `ofItems_eq_self`, `length_ofItems_iff`: it loses no entry exactly where the keys differ.
-/

import Mathlib

namespace LogSump.Foundation.Dict

variable {κ ν : Type}

def keys (d : List (κ × ν)) : List κ := d.map (·.1)

theorem keys_concat (items : List (κ × ν)) (e : κ × ν) : keys (items ++ [e]) = keys items ++ [e.1] := List.map_append

theorem nodup_keys_concat {items : List (κ × ν)} {e : κ × ν} :
    (keys (items ++ [e])).Nodup ↔ (keys items).Nodup ∧ e.1 ∉ keys items := by
  rw [keys_concat, List.nodup_append]
  simp only [List.nodup_singleton, true_and, List.mem_singleton, forall_eq]
  apply and_congr_right
  intro _
  constructor
  · intro h hmem
    exact h _ hmem rfl
  · intro h key hkey he
    exact h (he ▸ hkey)

variable [DecidableEq κ]

/-- A key that is there already keeps its place. -/
def setItem (d : List (κ × ν)) (key : κ) (value : ν) : List (κ × ν) :=
  if key ∈ keys d then d.map fun e => if e.1 = key then (key, value) else e else d ++ [(key, value)]

def ofItems (items : List (κ × ν)) : List (κ × ν) := items.foldl (fun d e => setItem d e.1 e.2) []

theorem ofItems_concat (items : List (κ × ν)) (e : κ × ν) : ofItems (items ++ [e]) = setItem (ofItems items) e.1 e.2 := by
  rw [ofItems, List.foldl_append]
  rfl

theorem keys_setItem (d : List (κ × ν)) (key : κ) (value : ν) :
    keys (setItem d key value) = if key ∈ keys d then keys d else keys d ++ [key] := by
  unfold setItem
  split
  · rw [keys, keys, List.map_map]
    apply List.map_congr_left
    intro e _
    by_cases he : e.1 = key <;> simp [he]
  · exact keys_concat d (key, value)

theorem length_setItem (d : List (κ × ν)) (key : κ) (value : ν) :
    (setItem d key value).length = if key ∈ keys d then d.length else d.length + 1 := by
  unfold setItem
  split
  · exact List.length_map _
  · simp

theorem mem_keys_ofItems {items : List (κ × ν)} {key : κ} : key ∈ keys (ofItems items) ↔ key ∈ keys items := by
  induction items using List.reverseRecOn with
  | nil => rfl
  | append_singleton items e ih =>
    rw [ofItems_concat, keys_setItem, keys_concat, List.mem_append, List.mem_singleton, ← ih]
    split
    · rename_i hmem
      refine ⟨.inl, ?_⟩
      intro h
      rcases h with h | rfl
      · exact h
      · exact hmem
    · rw [List.mem_append, List.mem_singleton]

theorem length_ofItems_le (items : List (κ × ν)) : (ofItems items).length ≤ items.length := by
  induction items using List.reverseRecOn with
  | nil => rfl
  | append_singleton items e ih =>
    rw [ofItems_concat, length_setItem, List.length_append, List.length_singleton]
    split <;> omega

theorem ofItems_eq_self {items : List (κ × ν)} (h : (keys items).Nodup) : ofItems items = items := by
  induction items using List.reverseRecOn with
  | nil => rfl
  | append_singleton items e ih =>
    obtain ⟨hitems, hnew⟩ := nodup_keys_concat.mp h
    rw [ofItems_concat, ih hitems, setItem, if_neg hnew]

/-- Two items of one key are one entry. -/
theorem length_ofItems_iff {items : List (κ × ν)} : (ofItems items).length = items.length ↔ (keys items).Nodup := by
  induction items using List.reverseRecOn with
  | nil => simp [ofItems, keys]
  | append_singleton items e ih =>
    have hle := length_ofItems_le items
    have hkey : e.1 ∈ keys (ofItems items) ↔ e.1 ∈ keys items := mem_keys_ofItems
    rw [ofItems_concat, length_setItem, nodup_keys_concat, ← ih, ← hkey, List.length_append, List.length_singleton]
    split
    · rename_i hmem
      constructor
      · intro h
        omega
      · intro h
        exact absurd hmem h.2
    · rename_i hmem
      refine ⟨fun h => ⟨by omega, hmem⟩, ?_⟩
      intro h
      omega

end LogSump.Foundation.Dict
