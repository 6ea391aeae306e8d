/-
  LogSump.Foundation.Serving — tasks that read from a server while the server goes on with
  steps of its own. A task is a program; between two of its commands anything may happen, and
  any of its commands may fail. A command changes nothing.

  - `server_run`: the server runs as it does without tasks.
  - `task_run`: what a task has become is what states of the server on the way, in their
    order, have answered.
  - `Served.first`: the first command of a task was executed before its others.
  - `Served.ensures`: so what a program ensures holds of a task in every run.
  - `Served.answer`: a server that does not change gives the result of the program alone.
-/

import LogSump.Foundation.Machine
import LogSump.Foundation.Program

namespace LogSump.Foundation

structure Serving (σ P : Type) where
  server : σ
  tasks : List P

inductive ServingEvent (ε P : Type) where
  | server (e : ε)
  | arrive (p : P)
  /-- A task's next command is executed. -/
  | serve (t : Nat)
  /-- The connection fails instead. -/
  | fail (t : Nat)

namespace Serving

variable {σ ε γ : Type} {ρ : γ → Type} {α : Type}

section

variable (M : Machine σ ε) (exec : σ → (c : γ) → ρ c) (broken : (c : γ) → ρ c)

/-- The task goes on with the reply to its next command. -/
def resume (s : Serving σ (Program γ ρ α)) (t : Nat) (reply : (c : γ) → ρ c) : Option (Serving σ (Program γ ρ α)) :=
  match s.tasks[t]? with
  | some (.call c next) => some { s with tasks := s.tasks.set t (next (reply c)) }
  | _ => none

def step (s : Serving σ (Program γ ρ α)) : ServingEvent ε (Program γ ρ α) → Option (Serving σ (Program γ ρ α))
  | .server e => (M.step s.server e).map fun x => { s with server := x }
  | .arrive p => some { s with tasks := s.tasks ++ [p] }
  | .serve t => resume s t (exec s.server)
  | .fail t => resume s t broken

def machine : Machine (Serving σ (Program γ ρ α)) (ServingEvent ε (Program γ ρ α)) where
  init s := M.init s.server ∧ s.tasks = []
  step := step M exec broken

/-- The server's own events. -/
def serverEvent? {P : Type} : ServingEvent ε P → Option ε
  | .server e => some e
  | _ => none

/-- The states of the server before each event of a run. -/
def servers (s : Serving σ (Program γ ρ α)) : List (ServingEvent ε (Program γ ρ α)) → List σ
  | [] => []
  | e :: es => s.server :: (step M exec broken s e).elim [] fun s' => servers s' es

/-- The reply of a server; `none` is the failure. -/
def replyOf (o : Option σ) (c : γ) : ρ c := o.elim (broken c) fun x => exec x c

/-- The program becomes the other one when these servers execute its commands in turn. -/
inductive Served : Program γ ρ α → List (Option σ) → Program γ ρ α → Prop
  | here (p : Program γ ρ α) : Served p [] p
  | call {c : γ} {next : ρ c → Program γ ρ α} {o : Option σ} {os : List (Option σ)} {q : Program γ ρ α} :
      Served (next (replyOf exec broken o c)) os q → Served (.call c next) (o :: os) q

end

variable {M : Machine σ ε} {exec : σ → (c : γ) → ρ c} {broken : (c : γ) → ρ c}

theorem resume_cases {s s' : Serving σ (Program γ ρ α)} {t : Nat} {reply : (c : γ) → ρ c} (h : resume s t reply = some s') :
    ∃ c next, s.tasks[t]? = some (.call c next) ∧ s' = { s with tasks := s.tasks.set t (next (reply c)) } := by
  unfold resume at h
  split at h
  · rename_i c next ht
    cases h
    exact ⟨c, next, ht, rfl⟩
  · cases h

/-! ## The server -/

theorem resume_server {s s' : Serving σ (Program γ ρ α)} {t : Nat} {reply : (c : γ) → ρ c} (h : resume s t reply = some s') :
    s'.server = s.server := by
  obtain ⟨_, _, -, rfl⟩ := resume_cases h
  rfl

theorem server_run {s s' : Serving σ (Program γ ρ α)} {es : List (ServingEvent ε (Program γ ρ α))}
    (h : (machine M exec broken).run s es = some s') : M.run s.server (es.filterMap serverEvent?) = some s'.server := by
  induction es generalizing s with
  | nil => cases h; rfl
  | cons e es ih =>
    obtain ⟨u, hu, h⟩ := Machine.run_cons.mp h
    have hrest := ih h
    cases e with
    | server e =>
      obtain ⟨x, hx, rfl⟩ := Option.map_eq_some_iff.mp hu
      exact Machine.run_cons.mpr ⟨x, hx, hrest⟩
    | arrive p => cases hu; exact hrest
    | serve t => rw [resume_server hu] at hrest; exact hrest
    | fail t => rw [resume_server hu] at hrest; exact hrest

/-- Each of its states on the way is reached by some of its events. -/
theorem servers_run {s s' : Serving σ (Program γ ρ α)} {es : List (ServingEvent ε (Program γ ρ α))} {x : σ}
    (h : (machine M exec broken).run s es = some s') (hx : x ∈ servers M exec broken s es) :
    ∃ ds, M.run s.server ds = some x := by
  induction es generalizing s with
  | nil => cases hx
  | cons e es ih =>
    obtain ⟨u, hu, h⟩ := Machine.run_cons.mp h
    rw [servers, show step M exec broken s e = some u from hu, Option.elim_some] at hx
    rcases List.mem_cons.mp hx with rfl | hx
    · exact ⟨[], rfl⟩
    · obtain ⟨ds, hds⟩ := ih h hx
      cases e with
      | server e =>
        obtain ⟨y, hy, rfl⟩ := Option.map_eq_some_iff.mp hu
        exact ⟨e :: ds, Machine.run_cons.mpr ⟨y, hy, hds⟩⟩
      | arrive p => cases hu; exact ⟨ds, hds⟩
      | serve t => exact ⟨ds, resume_server hu ▸ hds⟩
      | fail t => exact ⟨ds, resume_server hu ▸ hds⟩

/-! ## A task -/

/-- One step: a task stays as it is, or its command is executed, or fails. -/
theorem task_step {s s' : Serving σ (Program γ ρ α)} {e : ServingEvent ε (Program γ ρ α)} {t : Nat} {p : Program γ ρ α}
    (h : step M exec broken s e = some s') (hp : s.tasks[t]? = some p) :
    s'.tasks[t]? = some p ∨ ∃ c next o, p = .call c next ∧ (∀ x ∈ o, x = s.server) ∧
      s'.tasks[t]? = some (next (replyOf exec broken o c)) := by
  have hset : ∀ {u reply}, resume s u reply = some s' → s'.tasks[t]? = some p ∨
      ∃ c next, p = .call c next ∧ s'.tasks[t]? = some (next (reply c)) := by
    intro u reply hr
    obtain ⟨c, next, hc, rfl⟩ := resume_cases hr
    by_cases hut : u = t
    · subst hut
      rw [hp] at hc
      cases hc
      exact .inr ⟨c, next, rfl, by simp [(List.getElem?_eq_some_iff.mp hp).1]⟩
    · exact .inl (by simp [List.getElem?_set_ne hut, hp])
  cases e with
  | server e =>
    obtain ⟨x, -, rfl⟩ := Option.map_eq_some_iff.mp h
    exact .inl hp
  | arrive q =>
    cases h
    exact .inl (by simp [List.getElem?_append, (List.getElem?_eq_some_iff.mp hp).1, (List.getElem?_eq_some_iff.mp hp).2])
  | serve u =>
    obtain hp' | ⟨c, next, rfl, hp'⟩ := hset h
    · exact .inl hp'
    · exact .inr ⟨c, next, some s.server, rfl, fun _ hx => (Option.mem_some.mp hx).symm, hp'⟩
  | fail u =>
    obtain hp' | ⟨c, next, rfl, hp'⟩ := hset h
    · exact .inl hp'
    · exact .inr ⟨c, next, none, rfl, fun _ hx => (Option.not_mem_none _ hx).elim, hp'⟩

/-- What a task has become after a run: its commands were executed, in order, by states that
    the server went through, except for those that failed. -/
theorem task_run {s s' : Serving σ (Program γ ρ α)} {es : List (ServingEvent ε (Program γ ρ α))} {t : Nat}
    {p : Program γ ρ α} (h : (machine M exec broken).run s es = some s') (hp : s.tasks[t]? = some p) :
    ∃ q os, s'.tasks[t]? = some q ∧ Served exec broken p os q ∧
      os.reduceOption.Sublist (servers M exec broken s es) := by
  induction es generalizing s p with
  | nil => cases h; exact ⟨p, [], hp, .here p, .slnil⟩
  | cons e es ih =>
    obtain ⟨u, hu, h⟩ := Machine.run_cons.mp h
    have hservers : servers M exec broken s (e :: es) = s.server :: servers M exec broken u es := by
      rw [servers, show step M exec broken s e = some u from hu, Option.elim_some]
    obtain hsame | ⟨c, next, o, rfl, ho, hnext⟩ := task_step hu hp
    · obtain ⟨q, os, hq, hserved, hsub⟩ := ih h hsame
      exact ⟨q, os, hq, hserved, hservers ▸ hsub.cons _⟩
    · obtain ⟨q, os, hq, hserved, hsub⟩ := ih h hnext
      refine ⟨q, o :: os, hq, .call hserved, ?_⟩
      rw [hservers]
      cases o with
      | none => exact List.reduceOption_cons_of_none os ▸ hsub.cons _
      | some x =>
        rw [List.reduceOption_cons_of_some, ho x rfl]
        exact hsub.cons_cons _

/-! ## What is known of the result -/

theorem forall₂_mem {A B : Type} {P : A → B → Prop} {xs : List A} {ys : List B} (h : List.Forall₂ P xs ys) {x : A} (hx : x ∈ xs) :
    ∃ y ∈ ys, P x y := by
  induction h with
  | nil => cases hx
  | cons hxy _ ih =>
    rcases List.mem_cons.mp hx with rfl | hx
    · exact ⟨_, List.mem_cons_self, hxy⟩
    · obtain ⟨y, hy, hxy⟩ := ih hx
      exact ⟨y, List.mem_cons_of_mem _ hy, hxy⟩

/-- The replies were those of the servers. -/
theorem Served.trace {p q : Program γ ρ α} {os : List (Option σ)} (h : Served exec broken p os q) :
    ∃ tr, Program.Trace p tr q ∧ List.Forall₂ (fun e o => e.2 = replyOf exec broken o e.1) tr os := by
  induction h with
  | here p => exact ⟨[], .here p, .nil⟩
  | @call c next o os q _ ih =>
    obtain ⟨tr, ht, hall⟩ := ih
    exact ⟨⟨c, replyOf exec broken o c⟩ :: tr, .call _ ht, .cons rfl hall⟩

/-- The first command was executed before any other. -/
theorem Served.first {p q : Program γ ρ α} {os : List (Option σ)} (h : Served exec broken p os q) :
    ∃ tr, Program.Trace p tr q ∧ ∀ c r rest, tr = ⟨c, r⟩ :: rest → ∃ o, r = replyOf exec broken o c ∧
      (∀ x ∈ o, x ∈ os.reduceOption) ∧ ∀ c' r', ⟨c', r'⟩ ∈ rest → ∃ o', r' = replyOf exec broken o' c' ∧
        ∀ x ∈ o, ∀ y ∈ o', [x, y].Sublist os.reduceOption := by
  obtain ⟨tr, ht, hall⟩ := h.trace
  refine ⟨tr, ht, ?_⟩
  intro c r rest htr
  subst htr
  cases hall with
  | @cons _ o _ os hr hrest =>
    refine ⟨o, hr, ?_, ?_⟩
    · intro x hx
      rw [Option.mem_def.mp hx, List.reduceOption_cons_of_some]
      exact List.mem_cons_self
    · intro c' r' hmem
      obtain ⟨o', ho', hr'⟩ := forall₂_mem hrest hmem
      refine ⟨o', hr', ?_⟩
      intro x hx y hy
      rw [Option.mem_def.mp hx, List.reduceOption_cons_of_some]
      have hin : y ∈ os.reduceOption := List.reduceOption_mem_iff.mpr (Option.mem_def.mp hy ▸ ho')
      exact (List.singleton_sublist.mpr hin).cons_cons x

theorem Served.ensures {η : Type} {allowed : η → γ → Prop} {note : η → (c : γ) → ρ c → η} {post : η → α → Prop} {g : η}
    {p : Program γ ρ α} {os : List (Option σ)} {a : α} (hp : p.Ensures allowed note post g)
    (h : Served exec broken p os (.done a)) : ∃ g, post g a := by
  obtain ⟨tr, ht, -⟩ := h.trace
  exact ⟨_, hp.result ht⟩

theorem Served.answer {p : Program γ ρ α} {os : List (Option σ)} {a : α} {x : σ} (h : Served exec broken p os (.done a))
    (hx : ∀ o ∈ os, o = some x) : p.answer (exec x) = a := by
  generalize hq : Program.done a = q at h
  induction h with
  | here p => subst hq; rfl
  | @call c next o os q _ ih =>
    have ho := hx o List.mem_cons_self
    subst ho
    exact ih (fun o ho => hx o (List.mem_cons_of_mem _ ho)) hq

end Serving

end LogSump.Foundation
