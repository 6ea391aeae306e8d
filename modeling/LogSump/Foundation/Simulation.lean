/-
  LogSump.Foundation.Simulation — one machine refines another: each step of the first is
  matched by a run of the second, and the relation between their states is kept.

  A label says which of the second machine's events a step may be matched by, so that what is
  known of the steps of a run is known of the events that match them.

  - `Simulation.run`: what matches a run.
  - `Simulation.reach`: a reachable state is related to a reachable one.
-/

import LogSump.Foundation.Machine

namespace LogSump.Foundation

variable {σ ε τ δ : Type*}

theorem Machine.along_of_mem {M : Machine σ ε} {ok : σ → ε → Prop} {es : List ε} (h : ∀ e ∈ es, ∀ s, ok s e) (s : σ) :
    M.Along ok s es := by
  induction es generalizing s with
  | nil => exact trivial
  | cons e es ih => exact ⟨h e List.mem_cons_self s, fun s' _ => ih (fun x hx => h x (List.mem_cons_of_mem _ hx)) s'⟩

/-- `M` refines `N`. -/
structure Simulation (M : Machine σ ε) (N : Machine τ δ) (R : σ → τ → Prop) (label : σ → ε → δ → Prop) : Prop where
  step : ∀ s e s' t, R s t → M.step s e = some s' → ∃ ds t', N.run t ds = some t' ∧ R s' t' ∧ ∀ d ∈ ds, label s e d

namespace Simulation

variable {M : Machine σ ε} {N : Machine τ δ} {R : σ → τ → Prop} {label : σ → ε → δ → Prop}

theorem run (h : Simulation M N R label) {s s' : σ} {t : τ} {es : List ε} (hR : R s t) (hrun : M.run s es = some s') :
    ∃ ds t', N.run t ds = some t' ∧ R s' t' ∧
      ∀ P : δ → Prop, M.Along (fun s e => ∀ d, label s e d → P d) s es → ∀ d ∈ ds, P d := by
  induction es generalizing s t with
  | nil =>
    cases hrun
    exact ⟨[], t, rfl, hR, fun _ _ d hd => by cases hd⟩
  | cons e es ih =>
    obtain ⟨u, hu, hrun⟩ := Machine.run_cons.mp hrun
    obtain ⟨ds, v, hds, hR', hlabel⟩ := h.step s e u t hR hu
    obtain ⟨ds', t', hds', hR'', hP⟩ := ih hR' hrun
    refine ⟨ds ++ ds', t', Machine.run_append.mpr ⟨v, hds, hds'⟩, hR'', ?_⟩
    intro P halong d hd
    obtain ⟨hnow, hlater⟩ := halong
    rcases List.mem_append.mp hd with hd | hd
    · exact hnow d (hlabel d hd)
    · exact hP P (hlater u hu) d hd

theorem reach (h : Simulation M N R label) (h0 : ∀ s, M.init s → ∃ t, N.init t ∧ R s t) {s : σ} (hs : M.Reach s) :
    ∃ t, N.Reach t ∧ R s t := by
  induction hs with
  | init hi =>
    obtain ⟨t, ht, hR⟩ := h0 _ hi
    exact ⟨t, .init ht, hR⟩
  | step e _ he ih =>
    obtain ⟨t, ht, hR⟩ := ih
    obtain ⟨ds, t', hds, hR', -⟩ := h.step _ e _ t hR he
    exact ⟨t', ht.run hds, hR'⟩

end Simulation

end LogSump.Foundation
