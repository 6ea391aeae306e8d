/-
  LogSump.Foundation.Paging — a client that follows cursors to the end, and a list read in
  pages of `n` elements of which only some count.

  - `Traversal.unique`: following the cursors leaves no choice.
  - `noRun_split`: where a page ends with an element that counts, a run of `n` elements
    that do not is in the whole list exactly when it is in what follows.
-/

import Mathlib

namespace LogSump.Foundation

/-! ## Following cursors -/

section Traversal

variable {γ π ε : Type*} (request : γ → Except ε π) (next : π → Option γ)

/-- The pages that a client receives when it starts with cursor `c`, requests after each
    page the one that page names, and stops at a page that names none. -/
inductive Traversal : γ → List π → Prop
  | last {c : γ} {p : π} (h : request c = .ok p) (hn : next p = none) : Traversal c [p]
  | more {c c' : γ} {p : π} {ps : List π} (h : request c = .ok p) (hn : next p = some c')
      (ht : Traversal c' ps) : Traversal c (p :: ps)

variable {request next}

theorem Traversal.unique {c : γ} {ps qs : List π} (hp : Traversal request next c ps)
    (hq : Traversal request next c qs) : ps = qs := by
  induction hp generalizing qs with
  | last h hn =>
    cases hq with
    | last h' hn' => rw [h] at h'; cases h'; rfl
    | more h' hn' _ => rw [h] at h'; cases h'; rw [hn] at hn'; cases hn'
  | more h hn _ ih =>
    cases hq with
    | last h' hn' => rw [h] at h'; cases h'; rw [hn] at hn'; cases hn'
    | more h' hn' ht' => rw [h] at h'; cases h'; rw [hn] at hn'; cases hn'; rw [ih ht']

theorem traversal_more_iff {c c' : γ} {p : π} (h : request c = .ok p) (hn : next p = some c') (ps : List π) :
    Traversal request next c ps ↔ ∃ qs, ps = p :: qs ∧ Traversal request next c' qs := by
  constructor
  · intro ht
    cases ht with
    | last h' hn' => rw [h] at h'; cases h'; rw [hn] at hn'; cases hn'
    | more h' hn' ht' => rw [h] at h'; cases h'; rw [hn] at hn'; cases hn'; exact ⟨_, rfl, ht'⟩
  · rintro ⟨qs, rfl, ht⟩; exact .more h hn ht

variable (request next) in
theorem not_traversal_of_error {c : γ} {e : ε} (h : request c = .error e) (ps : List π) :
    ¬ Traversal request next c ps := by
  intro ht
  cases ht with
  | last h' _ => rw [h] at h'; cases h'
  | more h' _ _ => rw [h] at h'; cases h'

end Traversal

/-! ## Runs of elements that do not count -/

variable {α β : Type*}

/-- Of any `n` consecutive elements one counts. -/
def NoRun (counts : α → Prop) (n : Nat) (xs : List α) : Prop :=
  ∀ run, run <:+: xs → run.length = n → ∃ x ∈ run, counts x

theorem noRun_of_length_lt (counts : α → Prop) {n : Nat} {xs : List α} (h : xs.length < n) : NoRun counts n xs :=
  fun _ hi hn => absurd hi.length_le (by omega)

theorem NoRun.prefix {counts : α → Prop} {n : Nat} {xs : List α} (h : NoRun counts n xs) (hn : n ≤ xs.length) :
    ∃ x ∈ xs.take n, counts x :=
  h _ (List.take_prefix n xs).isInfix (List.length_take_of_le hn)

theorem noRun_split {counts : α → Prop} {n : Nat} {pre post : List α} {x : α} (hx : counts x) (hp : pre.length < n) :
    NoRun counts n (pre ++ x :: post) ↔ NoRun counts n post := by
  constructor
  · exact fun h run hr hn => h run (hr.trans ⟨pre ++ [x], [], by simp⟩) hn
  · intro h run hr hn
    obtain ⟨a, b, hab⟩ := hr
    by_cases ha : a.length ≤ pre.length
    · -- the run reaches over `x`
      refine ⟨x, ?_, hx⟩
      have h1 : (a ++ run ++ b)[pre.length]? = some x := by rw [hab]; simp
      rw [List.append_assoc, List.getElem?_append_right ha, List.getElem?_append_left (by omega)] at h1
      exact List.mem_of_getElem? h1
    · have ha' : a <+: pre ++ x :: post := ⟨run ++ b, by simpa using hab⟩
      have hx' : pre ++ [x] <+: pre ++ x :: post := ⟨post, by simp⟩
      have hpre : pre ++ [x] <+: a := List.prefix_of_prefix_length_le hx' ha' (by simp; omega)
      obtain ⟨c, rfl⟩ := hpre
      exact h run ⟨c, b, by simpa using hab⟩ hn

/-- The last element that counts, with what comes before and after it. -/
theorem exists_last_some {f : α → Option β} {xs : List α} (h : xs.filterMap f ≠ []) :
    ∃ pre x y tail, xs = pre ++ x :: tail ∧ f x = some y ∧ xs.filterMap f = pre.filterMap f ++ [y] ∧
      tail.filterMap f = [] := by
  induction xs using List.reverseRecOn with
  | nil => exact absurd rfl h
  | append_singleton xs x ih =>
    cases hx : f x with
    | some y => exact ⟨xs, x, y, [], rfl, hx, by simp [hx], rfl⟩
    | none =>
      have he : (xs ++ [x]).filterMap f = xs.filterMap f := by simp [hx]
      obtain ⟨pre, z, y, tail, hs, hz, hf, ht⟩ := ih (he ▸ h)
      exact ⟨pre, z, y, tail ++ [x], by simp [hs], hz, he.trans hf, by simp [ht, hx]⟩

end LogSump.Foundation
