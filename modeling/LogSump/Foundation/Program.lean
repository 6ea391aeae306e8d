/-
  LogSump.Foundation.Program — programs that issue commands to a server and go on with each
  reply.

  A trace is what was asked and answered so far. `Ensures` is the logic of programs whose
  replies may be anything: it notes each reply in a ghost state, says which commands may be
  issued in it, and what holds of the result.

  - `Ensures.bind`, `Ensures.weaken`: the rules.
  - `Ensures.along`: what is ensured stays so along every trace; `Ensures.issues`: so every
    command of a trace was allowed where it was issued.
  - `answer_bind`: a chain of programs, run by a server that does not change meanwhile.
  - `Ensures.tryBind`, `answer_tryBind`: the same of programs that may fail.
  - `history`: the ghost state that is the trace itself.
-/

import Mathlib

namespace LogSump.Foundation

/-- Commands `γ`, with replies of their own types. -/
inductive Program (γ : Type) (ρ : γ → Type) (α : Type) where
  | done (a : α)
  | call (c : γ) (next : ρ c → Program γ ρ α)

namespace Program

variable {γ : Type} {ρ : γ → Type} {α β : Type}

def bind : Program γ ρ α → (α → Program γ ρ β) → Program γ ρ β
  | .done a, f => f a
  | .call c next, f => .call c fun r => (next r).bind f

instance : Monad (Program γ ρ) where
  pure := .done
  bind := bind

@[simp] theorem done_bind (a : α) (f : α → Program γ ρ β) : (Program.done a >>= f) = f a := rfl

@[simp] theorem call_bind (c : γ) (next : ρ c → Program γ ρ α) (f : α → Program γ ρ β) :
    (Program.call c next >>= f) = .call c fun r => next r >>= f := rfl

/-- The result, when every command is executed by one server. -/
def answer (server : (c : γ) → ρ c) : Program γ ρ α → α
  | .done a => a
  | .call c next => (next (server c)).answer server

theorem answer_bind (server : (c : γ) → ρ c) (p : Program γ ρ α) (f : α → Program γ ρ β) :
    (p >>= f).answer server = (f (p.answer server)).answer server := by
  induction p with
  | done a => rfl
  | call c next ih => exact ih (server c)

/-! ## Traces -/

/-- After these commands and replies, the second program is left. -/
inductive Trace : Program γ ρ α → List ((c : γ) × ρ c) → Program γ ρ α → Prop
  | here (p : Program γ ρ α) : Trace p [] p
  | call {c : γ} {next : ρ c → Program γ ρ α} {tr : List ((c : γ) × ρ c)} {q : Program γ ρ α} (r : ρ c) :
      Trace (next r) tr q → Trace (.call c next) (⟨c, r⟩ :: tr) q

theorem Trace.split {p r : Program γ ρ α} {tr tr' : List ((c : γ) × ρ c)} (h : Trace p (tr ++ tr') r) :
    ∃ q, Trace p tr q ∧ Trace q tr' r := by
  induction tr generalizing p with
  | nil => exact ⟨p, .here p, h⟩
  | cons e tr ih =>
    cases h with
    | call r h =>
      obtain ⟨q, hq, hr⟩ := ih h
      exact ⟨q, .call _ hq, hr⟩

/-! ## What a program ensures -/

section Ensures

variable {η : Type} (allowed : η → γ → Prop) (note : η → (c : γ) → ρ c → η)

/-- From ghost state `g` on: every command is allowed where it is issued, and the result is
    `post`, whatever the replies are. -/
def Ensures (post : η → α → Prop) (g : η) : Program γ ρ α → Prop
  | .done a => post g a
  | .call c next => allowed g c ∧ ∀ r, (next r).Ensures post (note g c r)

variable {allowed note} {post : η → α → Prop} {post' : η → β → Prop}

theorem Ensures.bind {p : Program γ ρ α} {f : α → Program γ ρ β} {g : η} (h : p.Ensures allowed note post g)
    (hf : ∀ g a, post g a → (f a).Ensures allowed note post' g) : (p >>= f).Ensures allowed note post' g := by
  induction p generalizing g with
  | done a => exact hf g a h
  | call c next ih =>
    obtain ⟨hc, hnext⟩ := h
    exact ⟨hc, fun r => ih r (hnext r)⟩

theorem Ensures.weaken {p : Program γ ρ α} {post₂ : η → α → Prop} {g : η} (h : p.Ensures allowed note post g)
    (hpost : ∀ g a, post g a → post₂ g a) : p.Ensures allowed note post₂ g := by
  induction p generalizing g with
  | done a => exact hpost g a h
  | call c next ih =>
    obtain ⟨hc, hnext⟩ := h
    exact ⟨hc, fun r => ih r (hnext r)⟩

/-- The ghost state after a trace. -/
def noted (note : η → (c : γ) → ρ c → η) (g : η) (tr : List ((c : γ) × ρ c)) : η := tr.foldl (fun g e => note g e.1 e.2) g

theorem Ensures.along {p q : Program γ ρ α} {tr : List ((c : γ) × ρ c)} {g : η} (h : p.Ensures allowed note post g)
    (ht : Trace p tr q) : q.Ensures allowed note post (noted note g tr) := by
  induction ht generalizing g with
  | here p => exact h
  | call r _ ih => exact ih (h.2 r)

/-- Every command of a trace was allowed after what came before it. -/
theorem Ensures.issues {p q : Program γ ρ α} {pre post₁ : List ((c : γ) × ρ c)} {c : γ} {r : ρ c} {g : η}
    (h : p.Ensures allowed note post g) (ht : Trace p (pre ++ ⟨c, r⟩ :: post₁) q) : allowed (noted note g pre) c := by
  obtain ⟨q', hq', hrest⟩ := ht.split
  have hq := h.along hq'
  cases hrest with
  | call r _ => exact hq.1

theorem Ensures.result {p : Program γ ρ α} {tr : List ((c : γ) × ρ c)} {a : α} {g : η}
    (h : p.Ensures allowed note post g) (ht : Trace p tr (.done a)) : post (noted note g tr) a := h.along ht

/-! ### Programs that may fail -/

/-- A postcondition of its own for each outcome. -/
def Outcome {ε : Type} (mid : η → α → Prop) (fail : η → ε → Prop) (g : η) : Except ε α → Prop
  | .ok a => mid g a
  | .error e => fail g e

/-- A failure ends the whole program. -/
theorem Ensures.tryBind {ε : Type} {x : ExceptT ε (Program γ ρ) α} {f : α → ExceptT ε (Program γ ρ) β}
    {mid : η → α → Prop} {ok : η → β → Prop} {fail : η → ε → Prop} {g : η}
    (h : Ensures allowed note (Outcome mid fail) g x.run)
    (hf : ∀ g a, mid g a → Ensures allowed note (Outcome ok fail) g (f a).run) :
    Ensures allowed note (Outcome ok fail) g (x >>= f).run := by
  refine Ensures.bind (p := x.run) h ?_
  intro g r hr
  cases r with
  | ok a => exact hf g a hr
  | error e => exact hr

theorem Ensures.outcome {ε : Type} {x : ExceptT ε (Program γ ρ) α} {ok ok' : η → α → Prop} {fail fail' : η → ε → Prop}
    {g : η} (h : Ensures allowed note (Outcome ok fail) g x.run) (hok : ∀ g a, ok g a → ok' g a)
    (hfail : ∀ g e, fail g e → fail' g e) : Ensures allowed note (Outcome ok' fail') g x.run := by
  refine h.weaken ?_
  intro g r hr
  cases r with
  | ok a => exact hok g a hr
  | error e => exact hfail g e hr

/-- The trace as the ghost state. -/
def history (tr : List ((c : γ) × ρ c)) (c : γ) (r : ρ c) : List ((c : γ) × ρ c) := tr ++ [⟨c, r⟩]

theorem noted_history (tr tr' : List ((c : γ) × ρ c)) : noted history tr tr' = tr ++ tr' := by
  induction tr' generalizing tr with
  | nil => simp [noted]
  | cons e tr' ih =>
    show noted history (history tr e.1 e.2) tr' = _
    rw [ih]
    simp [history]

end Ensures

theorem answer_tryBind {ε : Type} (server : (c : γ) → ρ c) (x : ExceptT ε (Program γ ρ) α)
    (f : α → ExceptT ε (Program γ ρ) β) :
    (x >>= f).run.answer server = x.run.answer server >>= fun a => (f a).run.answer server := by
  refine (answer_bind server x.run _).trans ?_
  cases x.run.answer server <;> rfl

end Program

end LogSump.Foundation
