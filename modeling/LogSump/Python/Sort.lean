/-
  LogSump.Python.Sort — `list.sort` with a comparison that may raise: the stable result, or
  an exception as soon as two elements that are compared do not compare.

  - `sortBy_perm`: what is returned is a rearrangement.
  - `sortBy_isSome_iff`: where comparability is having a property in common, sorting
    succeeds exactly where all elements or none have it.
  - `sortBy_sorted`, `sortBy_filter`: where elements compare as their keys do, the result is
    sorted by key, and elements of one key keep their order.
  - `pairwise_ties_iff`: a property of the pairs with equal keys, and of each key's elements.
-/

import Mathlib

namespace LogSump.Python

variable {α : Type*} (lt? : α → α → Option Bool)

/-- After everything that is not greater. -/
def insertBy (x : α) : List α → Option (List α)
  | [] => some [x]
  | y :: ys =>
    match lt? x y with
    | none => none
    | some true => some (x :: y :: ys)
    | some false => (insertBy x ys).map (y :: ·)

def sortBy (xs : List α) : Option (List α) := xs.foldlM (fun sorted x => insertBy lt? x sorted) []

variable {lt?}

theorem insertBy_perm {x : α} {ys zs : List α} (h : insertBy lt? x ys = some zs) : zs.Perm (x :: ys) := by
  induction ys generalizing zs with
  | nil => cases h; rfl
  | cons y ys ih =>
    unfold insertBy at h
    split at h
    · cases h
    · cases h; rfl
    · obtain ⟨ws, hw, rfl⟩ := Option.map_eq_some_iff.mp h
      exact ((ih hw).cons y).trans (.swap x y ys)

theorem foldlM_insertBy_perm {xs ys zs : List α}
    (h : xs.foldlM (fun sorted x => insertBy lt? x sorted) ys = some zs) : zs.Perm (ys ++ xs) := by
  induction xs generalizing ys with
  | nil => cases h; simp
  | cons x xs ih =>
    simp only [List.foldlM_cons, Option.bind_eq_bind, Option.bind_eq_some_iff] at h
    obtain ⟨ws, hw, h⟩ := h
    have hx : (ws ++ xs).Perm (x :: ys ++ xs) := (insertBy_perm hw).append_right xs
    exact (ih h).trans (hx.trans List.perm_middle.symm)

theorem sortBy_perm {xs zs : List α} (h : sortBy lt? xs = some zs) : zs.Perm xs := foldlM_insertBy_perm h

/-! ## When sorting succeeds -/

variable {p : α → Prop}

/-- All elements have the property, or none has. -/
def Uniform (p : α → Prop) (xs : List α) : Prop := ∀ a ∈ xs, ∀ b ∈ xs, p a ↔ p b

theorem Uniform.mono {xs ys : List α} (h : Uniform p ys) (hs : ∀ a ∈ xs, a ∈ ys) : Uniform p xs :=
  fun a ha b hb => h a (hs a ha) b (hs b hb)

theorem insertBy_isSome_iff (hlt : ∀ a b, (lt? a b).isSome ↔ (p a ↔ p b)) {x : α} {ys : List α}
    (hu : Uniform p ys) : (insertBy lt? x ys).isSome ↔ Uniform p (x :: ys) := by
  induction ys with
  | nil =>
    refine ⟨fun _ a ha b hb => ?_, fun _ => rfl⟩
    rw [List.mem_singleton.mp ha, List.mem_singleton.mp hb]
  | cons y ys ih =>
    have hc := hlt x y
    -- the first comparison decides: the rest is of one kind with `y`
    have hiff : Uniform p (x :: y :: ys) ↔ (p x ↔ p y) := by
      refine ⟨fun h => h x (by simp) y (by simp), fun h a ha b hb => ?_⟩
      have key : ∀ c ∈ x :: y :: ys, p c ↔ p y := fun c hm => by
        rcases List.mem_cons.mp hm with rfl | hm
        · exact h
        · exact hu c hm y List.mem_cons_self
      rw [key a ha, key b hb]
    have hys : Uniform p ys := hu.mono fun a ha => List.mem_cons_of_mem _ ha
    unfold insertBy
    split
    · rename_i hn
      rw [hn] at hc
      simpa [hiff] using hc
    · rename_i hn
      rw [hn] at hc
      simpa [hiff] using hc
    · rename_i hn
      rw [hn] at hc
      have hxy : p x ↔ p y := hc.mp rfl
      have hx : Uniform p (x :: ys) := (hiff.mpr hxy).mono fun a ha => by
        rcases List.mem_cons.mp ha with rfl | ha
        · exact List.mem_cons_self
        · exact List.mem_cons_of_mem _ (List.mem_cons_of_mem _ ha)
      simpa [hiff, hxy] using (ih hys).mpr hx

theorem foldlM_insertBy_isSome_iff (hlt : ∀ a b, (lt? a b).isSome ↔ (p a ↔ p b)) {xs ys : List α}
    (hu : Uniform p ys) :
    (xs.foldlM (fun sorted x => insertBy lt? x sorted) ys).isSome ↔ Uniform p (ys ++ xs) := by
  induction xs generalizing ys with
  | nil => simpa using hu
  | cons x xs ih =>
    have hx := insertBy_isSome_iff hlt (x := x) hu
    have hperm : Uniform p (ys ++ x :: xs) ↔ Uniform p (x :: ys ++ xs) :=
      ⟨fun h => h.mono fun a ha => by simp at ha ⊢; tauto, fun h => h.mono fun a ha => by simp at ha ⊢; tauto⟩
    rw [List.foldlM_cons, hperm]
    cases hi : insertBy lt? x ys with
    | none =>
      rw [hi] at hx
      have hn : ¬ Uniform p (x :: ys) := fun h => by simpa using hx.mpr h
      refine ⟨fun h => by simp at h, fun h => absurd (h.mono fun a ha => ?_) hn⟩
      exact List.mem_append_left _ ha
    | some ws =>
      rw [hi] at hx
      have hm : ∀ a, a ∈ ws ↔ a ∈ x :: ys := fun a => (insertBy_perm hi).mem_iff
      have hws : Uniform p ws := (hx.mp rfl).mono fun a ha => (hm a).mp ha
      have hl : ∀ a, a ∈ ws ++ xs ↔ a ∈ x :: ys ++ xs := fun a => by simp only [List.mem_append, hm]
      show (xs.foldlM (fun sorted x => insertBy lt? x sorted) ws).isSome ↔ _
      rw [ih hws]
      exact ⟨fun h => h.mono fun a ha => (hl a).mpr ha, fun h => h.mono fun a ha => (hl a).mp ha⟩

theorem sortBy_isSome_iff (hlt : ∀ a b, (lt? a b).isSome ↔ (p a ↔ p b)) (xs : List α) :
    (sortBy lt? xs).isSome ↔ Uniform p xs := by
  have hnil : Uniform p ([] : List α) := fun a ha => absurd ha List.not_mem_nil
  exact foldlM_insertBy_isSome_iff hlt hnil

/-! ## What the result is sorted by -/

variable {κ : Type*} [LinearOrder κ] {key : α → κ}

/-- On these elements the comparison is that of the keys. -/
def ComparesBy (lt? : α → α → Option Bool) (key : α → κ) (xs : List α) : Prop :=
  ∀ a ∈ xs, ∀ b ∈ xs, lt? a b = some (key a < key b : Bool)

theorem ComparesBy.mono {xs ys : List α} (h : ComparesBy lt? key ys) (hs : ∀ a ∈ xs, a ∈ ys) : ComparesBy lt? key xs :=
  fun a ha b hb => h a (hs a ha) b (hs b hb)

/-- The new element stands before the greater ones and after all others, which it does not
    overtake. -/
theorem insertBy_split {x : α} {ys zs : List α} (hc : ComparesBy lt? key (x :: ys)) (h : insertBy lt? x ys = some zs) :
    ∃ pre post, ys = pre ++ post ∧ zs = pre ++ x :: post ∧ (∀ y ∈ pre, key y ≤ key x) ∧
      ∀ y ∈ post.head?, key x < key y := by
  induction ys generalizing zs with
  | nil =>
    cases h
    exact ⟨[], [], rfl, rfl, by simp, by simp⟩
  | cons y ys ih =>
    have hxy := hc x List.mem_cons_self y (List.mem_cons_of_mem _ List.mem_cons_self)
    unfold insertBy at h
    rw [hxy] at h
    by_cases hlt : key x < key y
    · rw [decide_eq_true hlt] at h
      cases h
      exact ⟨[], y :: ys, rfl, rfl, by simp, by simpa using hlt⟩
    · rw [decide_eq_false hlt] at h
      obtain ⟨ws, hw, rfl⟩ := Option.map_eq_some_iff.mp h
      have hrest : ComparesBy lt? key (x :: ys) := hc.mono fun a ha => by
        rcases List.mem_cons.mp ha with rfl | ha
        · exact List.mem_cons_self
        · exact List.mem_cons_of_mem _ (List.mem_cons_of_mem _ ha)
      obtain ⟨pre, post, rfl, rfl, hpre, hpost⟩ := ih hrest hw
      refine ⟨y :: pre, post, rfl, rfl, ?_, hpost⟩
      intro z hz
      rcases List.mem_cons.mp hz with rfl | hz
      · exact not_lt.mp hlt
      · exact hpre z hz

theorem insertBy_stable {x : α} {ys zs : List α} (hc : ComparesBy lt? key (x :: ys))
    (hs : ys.Pairwise (key · ≤ key ·)) (h : insertBy lt? x ys = some zs) :
    zs.Pairwise (key · ≤ key ·) ∧ ∀ t, zs.filter (key · = t) = (ys ++ [x]).filter (key · = t) := by
  obtain ⟨pre, post, rfl, rfl, hpre, hpost⟩ := insertBy_split hc h
  obtain ⟨hspre, hspost, hcross⟩ := List.pairwise_append.mp hs
  -- the head of what follows is greater, and so is the rest
  have hgreater : ∀ y ∈ post, key x < key y := by
    cases post with
    | nil => intro y hy; cases hy
    | cons p ps =>
      have hp : key x < key p := hpost p rfl
      intro y hy
      rcases List.mem_cons.mp hy with rfl | hy
      · exact hp
      · exact hp.trans_le ((List.pairwise_cons.mp hspost).1 y hy)
  constructor
  · refine List.pairwise_append.mpr ⟨hspre, List.pairwise_cons.mpr ⟨fun y hy => (hgreater y hy).le, hspost⟩, ?_⟩
    intro a ha b hb
    rcases List.mem_cons.mp hb with rfl | hb
    · exact hpre a ha
    · exact hcross a ha b hb
  · intro t
    simp only [List.filter_append, List.append_assoc, List.filter_cons, List.filter_nil]
    by_cases ht : key x = t
    · have hnone : post.filter (key · = t) = [] := List.filter_eq_nil_iff.mpr fun y hy => by
        simpa [← ht] using (hgreater y hy).ne'
      simp [ht, hnone]
    · simp [ht]

theorem foldlM_insertBy_stable {xs ys zs : List α} (hc : ComparesBy lt? key (ys ++ xs))
    (hs : ys.Pairwise (key · ≤ key ·)) (h : xs.foldlM (fun sorted x => insertBy lt? x sorted) ys = some zs) :
    zs.Pairwise (key · ≤ key ·) ∧ ∀ t, zs.filter (key · = t) = (ys ++ xs).filter (key · = t) := by
  induction xs generalizing ys with
  | nil =>
    cases h
    exact ⟨hs, fun t => by rw [List.append_nil]⟩
  | cons x xs ih =>
    simp only [List.foldlM_cons, Option.bind_eq_bind, Option.bind_eq_some_iff] at h
    obtain ⟨ws, hw, h⟩ := h
    have hx : ComparesBy lt? key (x :: ys) := hc.mono fun a ha => by simp at ha ⊢; tauto
    obtain ⟨hsorted, hfilter⟩ := insertBy_stable hx hs hw
    have hws : ComparesBy lt? key (ws ++ xs) := hc.mono fun a ha => by
      rcases List.mem_append.mp ha with ha | ha
      · have := (insertBy_perm hw).mem_iff.mp ha
        simp at this ⊢
        tauto
      · simp [ha]
    obtain ⟨hz, hzf⟩ := ih hws hsorted h
    refine ⟨hz, fun t => ?_⟩
    rw [hzf t, List.filter_append, hfilter t, ← List.filter_append, List.append_assoc]
    rfl

theorem sortBy_sorted {xs zs : List α} (hc : ComparesBy lt? key xs) (h : sortBy lt? xs = some zs) :
    zs.Pairwise (key · ≤ key ·) :=
  (foldlM_insertBy_stable hc .nil h).1

theorem sortBy_filter {xs zs : List α} (hc : ComparesBy lt? key xs) (h : sortBy lt? xs = some zs) (t : κ) :
    zs.filter (key · = t) = xs.filter (key · = t) :=
  (foldlM_insertBy_stable hc .nil h).2 t

theorem pairwise_ties_iff {Q : α → α → Prop} {xs : List α} :
    xs.Pairwise (fun a b => key a = key b → Q a b) ↔ ∀ t, (xs.filter (key · = t)).Pairwise Q := by
  simp only [List.pairwise_filter]
  simp only [List.pairwise_iff_forall_sublist, decide_eq_true_eq]
  constructor
  · intro h t a b hab ha hb
    exact h hab (ha.trans hb.symm)
  · intro h a b hab he
    exact h (key b) hab he rfl

end LogSump.Python
