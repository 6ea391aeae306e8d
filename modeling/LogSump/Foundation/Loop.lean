/-
  LogSump.Foundation.Loop — code that may raise: chains of calls in `Except`, and a loop over
  a list. What the loop's body has done when it raises stays, and the items that follow are
  not looked at.

  - `bind_eq_ok`, `bind_eq_error`: what a chain's end says of its calls.
  - `run_raises`: where the items decide what is raised, the first one that raises does.
  - `run_eq_split`: the state then is the body's, after the items before it.
  - `result_each_iff`: a loop that converts its items returns where each of them is converted.
-/

import Mathlib

namespace LogSump.Foundation

/-! ## Chains -/

@[simp] theorem ok_bind {α β ε : Type} (a : α) (f : α → Except ε β) : (Except.ok a >>= f) = f a := rfl

@[simp] theorem error_bind {α β ε : Type} (e : ε) (f : α → Except ε β) :
    ((Except.error e : Except ε α) >>= f) = .error e := rfl

theorem bind_eq_ok {α β ε : Type} {x : Except ε α} {f : α → Except ε β} {b : β} (h : (x >>= f) = .ok b) :
    ∃ a, x = .ok a ∧ f a = .ok b := by
  cases x with
  | error e => cases h
  | ok a => exact ⟨a, rfl, h⟩

theorem bind_eq_error {α β ε : Type} {x : Except ε α} {f : α → Except ε β} {e : ε} (h : (x >>= f) = .error e) :
    x = .error e ∨ ∃ a, x = .ok a ∧ f a = .error e := by
  cases x with
  | error e' =>
    cases h
    exact .inl rfl
  | ok a => exact .inr ⟨a, rfl, h⟩

def error? {β ε : Type} : Except ε β → Option ε
  | .ok _ => none
  | .error e => some e

theorem error?_eq_none_iff {β ε : Type} {x : Except ε β} : error? x = none ↔ ∃ b, x = .ok b := by
  cases x <;> simp [error?]

theorem error?_eq_some_iff {β ε : Type} {x : Except ε β} {e : ε} : error? x = some e ↔ x = .error e := by
  cases x <;> simp [error?]

/-! ## Loops -/

namespace Loop

variable {σ α ε : Type*} {body : σ → α → σ × Option ε} {raises : α → Option ε}

def run (body : σ → α → σ × Option ε) : σ → List α → σ × Option ε
  | s, [] => (s, none)
  | s, x :: xs =>
    match body s x with
    | (s', none) => run body s' xs
    | (s', some e) => (s', some e)

theorem run_cons_none {s s' : σ} {x : α} {xs : List α} (h : body s x = (s', none)) :
    run body s (x :: xs) = run body s' xs := by
  rw [run, h]

theorem run_cons_some {s s' : σ} {x : α} {xs : List α} {e : ε} (h : body s x = (s', some e)) :
    run body s (x :: xs) = (s', some e) := by
  rw [run, h]

/-- What a function returns or raises after the loop. -/
def result : σ × Option ε → Except ε σ
  | (s, none) => .ok s
  | (_, some e) => .error e

theorem result_error {out : σ × Option ε} {e : ε} (h : out.2 = some e) : result out = .error e := by
  obtain ⟨s, e'⟩ := out
  cases h
  rfl

/-- The items decide whether the body raises, and what. -/
def RaisedBy (body : σ → α → σ × Option ε) (raises : α → Option ε) : Prop := ∀ s x, (body s x).2 = raises x

theorem RaisedBy.cons_none (hr : RaisedBy body raises) {x : α} (h : raises x = none) (s : σ) (xs : List α) :
    run body s (x :: xs) = run body (body s x).1 xs := by
  apply run_cons_none
  rw [← h, ← hr s x]

theorem RaisedBy.cons_some (hr : RaisedBy body raises) {x : α} {e : ε} (h : raises x = some e) (s : σ) (xs : List α) :
    run body s (x :: xs) = body s x := by
  have hb : body s x = ((body s x).1, some e) := by rw [← h, ← hr s x]
  rw [run_cons_some hb, ← hb]

theorem run_raises (hr : RaisedBy body raises) (s : σ) (xs : List α) : (run body s xs).2 = xs.findSome? raises := by
  induction xs generalizing s with
  | nil => rfl
  | cons x xs ih =>
    cases h : raises x with
    | none => rw [hr.cons_none h, ih, List.findSome?_cons, h]
    | some e => rw [hr.cons_some h, hr, List.findSome?_cons, h]

theorem run_none_iff (hr : RaisedBy body raises) {s : σ} {xs : List α} :
    (run body s xs).2 = none ↔ ∀ x ∈ xs, raises x = none := by
  rw [run_raises hr, List.findSome?_eq_none_iff]

theorem run_eq_split (hr : RaisedBy body raises) {pre post : List α} {x : α} {e : ε}
    (hpre : ∀ a ∈ pre, raises a = none) (hx : raises x = some e) (s : σ) :
    run body s (pre ++ x :: post) = body (run body s pre).1 x := by
  induction pre generalizing s with
  | nil => exact hr.cons_some hx s post
  | cons a pre ih =>
    have ha := hpre a List.mem_cons_self
    rw [List.cons_append, hr.cons_none ha, hr.cons_none ha]
    exact ih (fun b hb => hpre b (List.mem_cons_of_mem _ hb)) _

/-- No item raises, or there is a first one that does. -/
theorem none_or_split (raises : α → Option ε) (xs : List α) :
    (∀ x ∈ xs, raises x = none) ∨
      ∃ pre x post e, xs = pre ++ x :: post ∧ (∀ a ∈ pre, raises a = none) ∧ raises x = some e := by
  cases h : xs.findSome? raises with
  | none => exact .inl (List.findSome?_eq_none_iff.mp h)
  | some e =>
    obtain ⟨pre, x, post, hxs, hx, hpre⟩ := List.findSome?_eq_some_iff.mp h
    exact .inr ⟨pre, x, post, e, hxs, hpre, hx⟩

/-- There is one first item that raises. -/
theorem split_unique {pre pre' post post' : List α} {x x' : α} {e e' : ε} (h : pre ++ x :: post = pre' ++ x' :: post')
    (hpre : ∀ a ∈ pre, raises a = none) (hx : raises x = some e) (hpre' : ∀ a ∈ pre', raises a = none)
    (hx' : raises x' = some e') : pre = pre' ∧ x = x' ∧ post = post' := by
  induction pre generalizing pre' with
  | nil =>
    cases pre' with
    | nil =>
      cases h
      exact ⟨rfl, rfl, rfl⟩
    | cons a pre' =>
      cases h
      have := hpre' x List.mem_cons_self
      rw [this] at hx
      cases hx
  | cons a pre ih =>
    cases pre' with
    | nil =>
      cases h
      have := hpre x' List.mem_cons_self
      rw [this] at hx'
      cases hx'
    | cons b pre' =>
      rw [List.cons_append, List.cons_append] at h
      obtain ⟨rfl, htail⟩ := List.cons.inj h
      obtain ⟨rfl, rfl, rfl⟩ := ih htail (fun c hc => hpre c (List.mem_cons_of_mem _ hc))
        fun c hc => hpre' c (List.mem_cons_of_mem _ hc)
      exact ⟨rfl, rfl, rfl⟩

/-- Of the first item that raises, if there is one, and of those after it. -/
def First (raises : α → Option ε) (xs : List α) (P : ε → List α → Prop) : Prop :=
  ∀ pre x post e, xs = pre ++ x :: post → (∀ a ∈ pre, raises a = none) → raises x = some e → P e post

theorem first_of_none {xs : List α} (h : ∀ x ∈ xs, raises x = none) (P : ε → List α → Prop) : First raises xs P := by
  intro pre x post e hxs _ hx
  have hn := h x (by rw [hxs]; simp)
  rw [hx] at hn
  cases hn

theorem first_iff {xs pre post : List α} {x : α} {e : ε} (hxs : xs = pre ++ x :: post) (hpre : ∀ a ∈ pre, raises a = none)
    (hx : raises x = some e) {P : ε → List α → Prop} : First raises xs P ↔ P e post := by
  constructor
  · intro h
    exact h pre x post e hxs hpre hx
  · intro h pre' x' post' e' hxs' hpre' hx'
    obtain ⟨-, rfl, rfl⟩ := split_unique (hxs.symm.trans hxs') hpre hx hpre' hx'
    rw [hx] at hx'
    cases hx'
    exact h

/-! ## Loops that convert each item -/

section Each

variable {σ α β ε : Type} {f : α → Except ε β} {g : σ → β → σ}

/-- The body that converts its item and takes the result into the state. -/
def each (f : α → Except ε β) (g : σ → β → σ) (s : σ) (x : α) : σ × Option ε :=
  match f x with
  | .ok b => (g s b, none)
  | .error e => (s, some e)

theorem each_raises : RaisedBy (each f g) fun x => error? (f x) := by
  intro s x
  show (each f g s x).2 = error? (f x)
  unfold each
  cases f x <;> rfl

theorem each_ok {x : α} {b : β} (h : f x = .ok b) (s : σ) : each f g s x = (g s b, none) := by rw [each, h]

/-- What the items that are converted give. -/
def converted (f : α → Except ε β) (xs : List α) : List β := xs.filterMap fun x => (f x).toOption

theorem converted_cons_ok {x : α} {b : β} (h : f x = .ok b) (xs : List α) : converted f (x :: xs) = b :: converted f xs := by
  simp [converted, h, Except.toOption]

theorem run_each {xs : List α} (h : ∀ x ∈ xs, ∃ b, f x = .ok b) (s : σ) :
    run (each f g) s xs = ((converted f xs).foldl g s, none) := by
  induction xs generalizing s with
  | nil => rfl
  | cons x xs ih =>
    obtain ⟨b, hb⟩ := h x List.mem_cons_self
    rw [run_cons_none (each_ok hb s), ih fun y hy => h y (List.mem_cons_of_mem _ hy), converted_cons_ok hb, List.foldl_cons]

/-- The loop returns exactly where every item is converted. -/
theorem result_each_iff {xs : List α} {s s' : σ} :
    result (run (each f g) s xs) = .ok s' ↔
      (∀ x ∈ xs, ∃ b, f x = .ok b) ∧ (converted f xs).foldl g s = s' := by
  have hnone : (run (each f g) s xs).2 = none ↔ ∀ x ∈ xs, ∃ b, f x = .ok b := by
    rw [run_none_iff each_raises]
    exact forall₂_congr fun x _ => error?_eq_none_iff
  cases hr : (run (each f g) s xs).2 with
  | none =>
    have hall := hnone.mp hr
    rw [run_each hall]
    exact ⟨fun h => ⟨hall, Except.ok.inj h⟩, fun h => congrArg _ h.2⟩
  | some e =>
    rw [result_error hr]
    constructor
    · intro h
      cases h
    · intro hboth
      obtain ⟨hall, -⟩ := hboth
      rw [hnone.mpr hall] at hr
      cases hr

end Each

end Loop

end LogSump.Foundation
