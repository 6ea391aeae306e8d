/-
  LogSump.Foundation.Machine — labelled machines: states, initial states and a partial
  step function that an event drives. A schedule is a list of events; an event that is not
  possible in a state has no step.

  - `Reach.inv`: what holds initially and is kept by every step holds of every reachable
    state.
  - `run_inv`: the same along one run, where the steps may also be assumed to be `ok`.
  - `reach_iff_run`: the reachable states are the ends of runs.
  - `run_length_le`, `exists_quiescent`: where every step lowers a measure, runs are
    bounded, and some run leads to a state with no step left.
  - `collect`, `run_history`: what the steps of a run give out, and invariants of a state
    together with the run that led to it.
  - `family`, `family_run_inv`: machines side by side, and what the steps of each keep.
-/

import Mathlib

namespace LogSump.Foundation

structure Machine (σ ε : Type*) where
  init : σ → Prop
  step : σ → ε → Option σ

namespace Machine

variable {σ ε : Type*} (M : Machine σ ε)

inductive Reach : σ → Prop
  | init {s : σ} : M.init s → Reach s
  | step {s s' : σ} (e : ε) : Reach s → M.step s e = some s' → Reach s'

def run (s : σ) : List ε → Option σ
  | [] => some s
  | e :: es => (M.step s e).bind fun s' => run s' es

/-- Every step that the run takes is `ok` where it is taken. -/
def Along (ok : σ → ε → Prop) : σ → List ε → Prop
  | _, [] => True
  | s, e :: es => ok s e ∧ ∀ s', M.step s e = some s' → Along ok s' es

variable {M}

@[simp] theorem run_nil (s : σ) : M.run s [] = some s := rfl

theorem run_cons {s s' : σ} {e : ε} {es : List ε} :
    M.run s (e :: es) = some s' ↔ ∃ t, M.step s e = some t ∧ M.run t es = some s' := by
  simp [run, Option.bind_eq_some_iff]

theorem run_append {s s' : σ} {es fs : List ε} :
    M.run s (es ++ fs) = some s' ↔ ∃ t, M.run s es = some t ∧ M.run t fs = some s' := by
  induction es generalizing s with
  | nil => simp
  | cons e es ih => simp only [List.cons_append, run_cons, ih]; grind

theorem run_snoc {s s' : σ} {e : ε} {es : List ε} :
    M.run s (es ++ [e]) = some s' ↔ ∃ t, M.run s es = some t ∧ M.step t e = some s' := by
  rw [run_append]
  simp [run]

/-! ## Invariants -/

theorem Reach.inv {I : σ → Prop} (h0 : ∀ s, M.init s → I s)
    (hs : ∀ s e s', I s → M.step s e = some s' → I s') {s : σ} (h : M.Reach s) : I s := by
  induction h with
  | init h => exact h0 _ h
  | step e _ he ih => exact hs _ e _ ih he

/-- Along a run of `ok` steps, what every `ok` step keeps still holds at the end. -/
theorem run_inv {ok : σ → ε → Prop} {I : σ → Prop} (hs : ∀ s e s', I s → ok s e → M.step s e = some s' → I s')
    {es : List ε} {s s' : σ} (h : I s) (hok : M.Along ok s es) (hr : M.run s es = some s') : I s' := by
  induction es generalizing s with
  | nil => cases hr; exact h
  | cons e es ih =>
    obtain ⟨t, ht, hr⟩ := run_cons.mp hr
    exact ih (hs _ _ _ h hok.1 ht) (hok.2 t ht) hr

instance decidableAlong {ok : σ → ε → Prop} [∀ s e, Decidable (ok s e)] : ∀ (s : σ) (es : List ε), Decidable (M.Along ok s es)
  | _, [] => isTrue trivial
  | s, e :: es =>
    have : ∀ s', Decidable (M.Along ok s' es) := fun s' => decidableAlong s' es
    inferInstanceAs (Decidable (ok s e ∧ ∀ s' ∈ M.step s e, M.Along ok s' es))

theorem along_true (s : σ) (es : List ε) : M.Along (fun _ _ => True) s es := by
  induction es generalizing s with
  | nil => exact trivial
  | cons e es ih => exact ⟨trivial, fun s' _ => ih s'⟩

/-! ## Runs and reachability -/

theorem Reach.run {s s' : σ} {es : List ε} (h : M.Reach s) (hr : M.run s es = some s') : M.Reach s' :=
  run_inv (I := M.Reach) (fun _ e _ hI _ he => .step e hI he) h (along_true s es) hr

theorem reach_iff_run {s : σ} : M.Reach s ↔ ∃ s₀ es, M.init s₀ ∧ M.run s₀ es = some s := by
  constructor
  · intro h
    induction h with
    | init h => exact ⟨_, [], h, rfl⟩
    | step e _ he ih =>
      obtain ⟨s₀, es, h0, hr⟩ := ih
      exact ⟨s₀, es ++ [e], h0, run_snoc.mpr ⟨_, hr, he⟩⟩
  · intro hrun
    obtain ⟨s₀, es, h0, hr⟩ := hrun
    exact (Reach.init h0).run hr

/-! ## What a run gives out -/

/-- What the steps that the run takes give out, in their order. -/
def collect {β : Type*} (M : Machine σ ε) (f : σ → ε → List β) (s : σ) : List ε → List β
  | [] => []
  | e :: es => f s e ++ (M.step s e).elim [] fun s' => collect M f s' es

theorem collect_snoc {β : Type*} {f : σ → ε → List β} {s s' : σ} {es : List ε} (e : ε) (hrun : M.run s es = some s') :
    M.collect f s (es ++ [e]) = M.collect f s es ++ f s' e := by
  induction es generalizing s with
  | nil =>
    cases hrun
    cases h : M.step s' e <;> simp [collect, h]
  | cons d es ih =>
    obtain ⟨t, ht, hrun⟩ := run_cons.mp hrun
    simp only [List.cons_append, collect, ht, Option.elim_some, ih hrun, List.append_assoc]

/-- An invariant of the state and of the events so far. -/
theorem run_history {I : List ε → σ → Prop} {s : σ} (h0 : I [] s)
    (hs : ∀ es u e u', M.run s es = some u → I es u → M.step u e = some u' → I (es ++ [e]) u') {es : List ε} {s' : σ}
    (hrun : M.run s es = some s') : I es s' := by
  induction es using List.reverseRecOn generalizing s' with
  | nil =>
    cases hrun
    exact h0
  | append_singleton es e ih =>
    obtain ⟨t, ht, he⟩ := run_snoc.mp hrun
    exact hs es t e s' ht (ih ht) he

/-! ## Measures -/

/-- A run that lowers a measure in every step is no longer than the measure. -/
theorem run_length_le {μ : σ → Nat} (hμ : ∀ s e s', M.step s e = some s' → μ s' < μ s) {s s' : σ} {es : List ε}
    (hr : M.run s es = some s') : es.length + μ s' ≤ μ s := by
  induction es generalizing s with
  | nil => cases hr; simp
  | cons e es ih =>
    obtain ⟨t, ht, hr⟩ := run_cons.mp hr
    have h1 := ih hr
    have h2 := hμ _ _ _ ht
    simp only [List.length_cons]; omega

/-- Where every allowed step lowers a measure, some run of allowed steps ends in a state
    with no allowed step. -/
theorem exists_quiescent {P : σ → ε → Prop} {μ : σ → Nat}
    (hμ : ∀ s e s', P s e → M.step s e = some s' → μ s' < μ s) (s : σ) :
    ∃ es s', M.run s es = some s' ∧ M.Along P s es ∧ ∀ e, P s' e → M.step s' e = none := by
  induction hn : μ s using Nat.strong_induction_on generalizing s with
  | _ n ih =>
    by_cases hq : ∀ e, P s e → M.step s e = none
    · exact ⟨[], s, rfl, trivial, hq⟩
    · simp only [not_forall] at hq
      obtain ⟨e, he, hne⟩ := hq
      obtain ⟨t, ht⟩ := Option.ne_none_iff_exists'.mp hne
      obtain ⟨es, s', hr, hok, hq⟩ := ih (μ t) (hn ▸ hμ _ _ _ he ht) t rfl
      exact ⟨e :: es, s', run_cons.mpr ⟨t, ht, hr⟩, ⟨he, fun u hu => by rw [ht] at hu; cases hu; exact hok⟩, hq⟩

/-! ## Machines side by side -/

section Family

variable {ι : Type*} [DecidableEq ι]

/-- One machine for each index; an event is an event of one of them. -/
def family (M : ι → Machine σ ε) : Machine (ι → σ) (ι × ε) where
  init f := ∀ i, (M i).init (f i)
  step f e := ((M e.1).step (f e.1) e.2).map (Function.update f e.1)

variable {M : ι → Machine σ ε}

theorem family_step {f g : ι → σ} {e : ι × ε} (h : (family M).step f e = some g) :
    ∃ s, (M e.1).step (f e.1) e.2 = some s ∧ g = Function.update f e.1 s := by
  obtain ⟨s, hs, rfl⟩ := Option.map_eq_some_iff.mp h
  exact ⟨s, hs, rfl⟩

theorem family_run_inv {ok : ι → σ → ε → Prop} {I : ι → σ → Prop}
    (hs : ∀ i s e s', I i s → ok i s e → (M i).step s e = some s' → I i s') {es : List (ι × ε)} {f g : ι → σ}
    (h : ∀ i, I i (f i)) (hok : (family M).Along (fun f e => ok e.1 (f e.1) e.2) f es)
    (hr : (family M).run f es = some g) : ∀ i, I i (g i) := by
  refine run_inv (M := family M) (I := fun f => ∀ i, I i (f i)) (fun u e v hu hk huv => ?_) h hok hr
  obtain ⟨s, hstep, rfl⟩ := family_step huv
  apply (Function.forall_update_iff u I).mpr
  exact ⟨hs e.1 _ _ _ (hu e.1) hk hstep, fun i _ => hu i⟩

end Family

end Machine

end LogSump.Foundation
