/-
  LogSump.Foundation.Ledger — an append-only record with expiry: what was ever written, in
  the order of growing ids, and what of it is still kept. Writing takes an id above all
  earlier ones; expiry removes what is below a bound from what is kept.

  - `id_unique`: an id names one entry.
  - `run_written`: what was written stays written, and what comes later has larger ids.
  - `run_keeps`: a kept entry stays until an expiry above its id.
  - `run_kept`: what is not kept any more does not come back.
-/

import LogSump.Foundation.Machine

namespace LogSump.Foundation

structure Ledger (ι α : Type*) [LinearOrder ι] where
  written : List (ι × α)
  kept : List (ι × α)
  sorted : written.Pairwise (·.1 < ·.1)
  sub : kept.Sublist written

inductive LedgerEvent (ι α : Type*) where
  | write (i : ι) (a : α)
  | expire (bound : ι)

namespace Ledger

variable {ι α : Type*} [LinearOrder ι]

/-- Nothing has expired. -/
def ofList (entries : List (ι × α)) (h : entries.Pairwise (·.1 < ·.1)) : Ledger ι α := ⟨entries, entries, h, .refl _⟩

def write (l : Ledger ι α) (i : ι) (a : α) (h : ∀ e ∈ l.written, e.1 < i) : Ledger ι α where
  written := l.written ++ [(i, a)]
  kept := l.kept ++ [(i, a)]
  sorted := List.pairwise_append.mpr ⟨l.sorted, List.pairwise_singleton _ _, fun x hx y hy => by
    rw [List.mem_singleton.mp hy]; exact h x hx⟩
  sub := l.sub.append (.refl _)

def expire (l : Ledger ι α) (bound : ι) : Ledger ι α where
  written := l.written
  kept := l.kept.filter (fun e => bound ≤ e.1)
  sorted := l.sorted
  sub := List.filter_sublist.trans l.sub

def step (l : Ledger ι α) : LedgerEvent ι α → Option (Ledger ι α)
  | .write i a => if h : ∀ e ∈ l.written, e.1 < i then some (l.write i a h) else none
  | .expire bound => some (l.expire bound)

/-- A ledger starts with everything kept. -/
def machine : Machine (Ledger ι α) (LedgerEvent ι α) where
  init l := l.kept = l.written
  step := step

theorem step_write {l l' : Ledger ι α} {i : ι} {a : α} (h : step l (.write i a) = some l') :
    l'.written = l.written ++ [(i, a)] ∧ l'.kept = l.kept ++ [(i, a)] ∧ ∀ e ∈ l.written, e.1 < i := by
  simp only [step] at h
  split at h
  · rename_i hi
    cases h
    exact ⟨rfl, rfl, hi⟩
  · cases h

theorem id_unique (l : Ledger ι α) {e e' : ι × α} (he : e ∈ l.written) (he' : e' ∈ l.written) (h : e.1 = e'.1) : e = e' := by
  have hnodup : (l.written.map (·.1)).Nodup := (List.pairwise_map.mpr l.sorted).imp ne_of_lt
  exact List.inj_on_of_nodup_map hnodup he he' h

/-! ## Runs -/

theorem run_written {l l' : Ledger ι α} {es : List (LedgerEvent ι α)} (hrun : machine.run l es = some l') :
    ∃ new, l'.written = l.written ++ new := by
  induction es generalizing l with
  | nil => cases hrun; exact ⟨[], by simp⟩
  | cons e es ih =>
    obtain ⟨u, hu, hrest⟩ := Machine.run_cons.mp hrun
    obtain ⟨new, hnew⟩ := ih hrest
    cases e with
    | write i a => exact ⟨(i, a) :: new, by rw [hnew, (step_write hu).1]; simp⟩
    | expire bound => cases hu; exact ⟨new, hnew⟩

/-- What was written later has larger ids. -/
theorem run_later {l l' : Ledger ι α} {es : List (LedgerEvent ι α)} (hrun : machine.run l es = some l') {e : ι × α}
    (he : e ∈ l'.written) : e ∈ l.written ∨ ∀ x ∈ l.written, x.1 < e.1 := by
  obtain ⟨new, hnew⟩ := run_written hrun
  have hs := l'.sorted
  rw [hnew] at he hs
  rcases List.mem_append.mp he with he | he
  · exact .inl he
  · exact .inr fun x hx => (List.pairwise_append.mp hs).2.2 x hx e he

theorem run_keeps {l l' : Ledger ι α} {es : List (LedgerEvent ι α)} (hrun : machine.run l es = some l') {e : ι × α}
    (he : e ∈ l.kept) (hes : ∀ bound, .expire bound ∈ es → bound ≤ e.1) : e ∈ l'.kept := by
  induction es generalizing l with
  | nil => cases hrun; exact he
  | cons d es ih =>
    obtain ⟨u, hu, hrest⟩ := Machine.run_cons.mp hrun
    refine ih hrest ?_ fun bound hb => hes bound (List.mem_cons_of_mem _ hb)
    cases d with
    | write i a => rw [(step_write hu).2.1]; exact List.mem_append_left _ he
    | expire bound =>
      cases hu
      exact List.mem_filter.mpr ⟨he, by simpa using hes bound List.mem_cons_self⟩

/-- What is kept was kept before, or was not yet written. -/
theorem run_kept {l l' : Ledger ι α} {es : List (LedgerEvent ι α)} (hrun : machine.run l es = some l') {e : ι × α}
    (he : e ∈ l'.kept) : e ∈ l.kept ∨ e ∉ l.written := by
  induction es generalizing l with
  | nil => cases hrun; exact .inl he
  | cons d es ih =>
    obtain ⟨u, hu, hrest⟩ := Machine.run_cons.mp hrun
    cases d with
    | write i a =>
      obtain ⟨hw, hk, hi⟩ := step_write hu
      rcases ih hrest with hin | hout
      · rw [hk] at hin
        rcases List.mem_append.mp hin with hin | hin
        · exact .inl hin
        · refine .inr fun hold => ?_
          rw [List.mem_singleton.mp hin] at hold
          exact lt_irrefl _ (hi _ hold)
      · exact .inr fun hold => hout (hw ▸ List.mem_append_left _ hold)
    | expire bound =>
      cases hu
      rcases ih hrest with hin | hout
      · exact .inl (List.mem_filter.mp hin).1
      · exact .inr hout

end Ledger

end LogSump.Foundation
