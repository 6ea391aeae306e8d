/-
  LogSump.Listener.SizeGrammar — which texts `parse_bytes` reads as sizes.

  A size is a decimal literal, blanks, and a unit. The regular expression also lets a run of
  digits and dots through that is no literal, and a number that is too large for a float; both
  raise.

  - `sizeGroups_eq_some`: the parts that the regular expression finds.
  - `sizes_iff`: sizes are read as natural numbers and other texts as none, but for these two;
    with what follows for pairs of sizes and reclaimable space.
  - `several_dots_raise`.
-/

import LogSump.Foundation.Loop
import LogSump.Python.Numerals
import LogSump.Listener.Units

namespace LogSump.Listener

open Common Python Foundation

/-- Digits and dots, blanks, and a unit of the table in any letter case. -/
def HasSizeParts (text value : PyStr) (multiplier : Nat) : Prop :=
  value ≠ [] ∧ (∀ c ∈ value, c.IsNumeric) ∧
    ∃ blanks unit : PyStr, text = value ++ (blanks ++ unit) ∧ (∀ c ∈ blanks, c.IsSpace) ∧ (∀ c ∈ unit, c.IsLetter) ∧
      sizeUnits.lookup (upper unit) = some multiplier

/-- The value times the unit is finite as a float. -/
def Fits (value : PyStr) (multiplier : Nat) : Prop :=
  ∃ q, (PyFloat.ofRat (literalValue value)).scale multiplier = .finite q

/-- The stripped text is a decimal literal, blanks and a unit, not too large. -/
def IsSize (text : PyStr) : Prop :=
  ∃ value multiplier, HasSizeParts text.strip value multiplier ∧ IsLiteral value ∧ Fits value multiplier

/-- The stripped text has the parts of a size, of which the first is no literal or too large. -/
def IsGap (text : PyStr) : Prop :=
  ∃ value multiplier, HasSizeParts text.strip value multiplier ∧ ¬ (IsLiteral value ∧ Fits value multiplier)

/-! ## The parts of a size -/

/-- No zero's decade meets the letters, the dot or a space. -/
theorem zeros_apart : ∀ z ∈ PyChar.zeros, 0x2E < z ∧ (z + 9 < 0x41 ∨ 0x7A < z) ∧ (z + 9 < 0x2000 ∨ 0x200A < z) ∧
    ∀ s ∈ [0x85, 0xA0, 0x1680, 0x2028, 0x2029, 0x202F, 0x205F, 0x3000], s < z ∨ z + 9 < s := by decide +kernel

theorem decimal?_range {c : PyChar} (h : c.decimal?.isSome) : ∃ z ∈ PyChar.zeros, z ≤ c.code ∧ c.code ≤ z + 9 := by
  obtain ⟨d, hd⟩ := Option.isSome_iff_exists.mp h
  obtain ⟨z, hz, -⟩ := Option.map_eq_some_iff.mp hd
  exact ⟨z, List.mem_of_find?_eq_some hz, by simpa using List.find?_some hz⟩

theorem not_numeric_of_letter {c : PyChar} (h : c.IsLetter) : ¬ c.IsNumeric := by
  intro hn
  rcases hn with hd | rfl
  · obtain ⟨z, hz, hlo, hhi⟩ := decimal?_range hd
    obtain ⟨hdot, hletter, -⟩ := zeros_apart z hz
    unfold PyChar.IsLetter at h
    omega
  · revert h
    decide

theorem not_numeric_of_space {c : PyChar} (h : c.IsSpace) : ¬ c.IsNumeric := by
  intro hn
  rcases hn with hd | rfl
  · obtain ⟨z, hz, hlo, hhi⟩ := decimal?_range hd
    obtain ⟨hdot, -, hwide, hspace⟩ := zeros_apart z hz
    rcases h with h | h | h | h
    · omega
    · omega
    · omega
    · have := hspace _ h
      omega
  · revert h
    decide

theorem not_space_of_letter {c : PyChar} (h : c.IsLetter) : ¬ c.IsSpace := by
  intro hs
  unfold PyChar.IsLetter at h
  rcases hs with hs | hs | hs | hs
  · omega
  · omega
  · omega
  · simp only [List.mem_cons, List.not_mem_nil, or_false] at hs
    omega

/-- A run is taken up to where nothing of its kind follows. -/
theorem takeWhile_run {α : Type} {p : α → Bool} {run rest : List α} (hrun : ∀ a ∈ run, p a) (hrest : ∀ a ∈ rest, ¬ p a) :
    (run ++ rest).takeWhile p = run ∧ (run ++ rest).dropWhile p = rest := by
  rw [List.takeWhile_append_of_pos hrun, List.dropWhile_append_of_pos hrun]
  cases rest with
  | nil => simp
  | cons a as => simp [hrest a List.mem_cons_self]

theorem sizeGroups_cut {text value unit : PyStr} :
    sizeGroups text = some (value, unit) ↔
      (value ≠ [] ∧ unit ≠ [] ∧ ∀ c ∈ unit, c.IsLetter) ∧ text.takeWhile (fun c => decide c.IsNumeric) = value ∧
        (text.dropWhile fun c => decide c.IsNumeric).dropWhile (fun c => decide c.IsSpace) = unit := by
  show (if _ then some (_, _) else none) = _ ↔ _
  rw [Option.ite_none_right_eq_some, Option.some.injEq, Prod.mk.injEq]
  constructor
  · intro h
    obtain ⟨hparts, rfl, rfl⟩ := h
    exact ⟨hparts, rfl, rfl⟩
  · intro h
    obtain ⟨hparts, rfl, rfl⟩ := h
    exact ⟨hparts, rfl, rfl⟩

theorem sizeGroups_eq_some {text value unit : PyStr} :
    sizeGroups text = some (value, unit) ↔
      value ≠ [] ∧ unit ≠ [] ∧ (∀ c ∈ value, c.IsNumeric) ∧ (∀ c ∈ unit, c.IsLetter) ∧
        ∃ blanks : PyStr, text = value ++ (blanks ++ unit) ∧ ∀ c ∈ blanks, c.IsSpace := by
  rw [sizeGroups_cut]
  constructor
  · intro h
    obtain ⟨⟨hvalue, hunit, hletters⟩, rfl, rfl⟩ := h
    refine ⟨hvalue, hunit, ?_, hletters, (text.dropWhile fun c => decide c.IsNumeric).takeWhile fun c => decide c.IsSpace, ?_, ?_⟩
    · intro c hc
      simpa using List.mem_takeWhile_imp hc
    · rw [List.takeWhile_append_dropWhile, List.takeWhile_append_dropWhile]
    · intro c hc
      simpa using List.mem_takeWhile_imp hc
  · intro h
    obtain ⟨hvalue, hunit, hnumeric, hletters, blanks, rfl, hblanks⟩ := h
    have hrest : ∀ c ∈ blanks ++ unit, ¬ decide c.IsNumeric = true := by
      intro c hc
      rw [decide_eq_true_eq]
      rcases List.mem_append.mp hc with hc | hc
      · exact not_numeric_of_space (hblanks c hc)
      · exact not_numeric_of_letter (hletters c hc)
    obtain ⟨htake, hdrop⟩ := takeWhile_run (fun c hc => decide_eq_true (hnumeric c hc)) hrest
    have hunit' : ∀ c ∈ unit, ¬ decide c.IsSpace = true := by
      intro c hc
      rw [decide_eq_true_eq]
      exact not_space_of_letter (hletters c hc)
    rw [htake, hdrop, (takeWhile_run (fun c hc => decide_eq_true (hblanks c hc)) hunit').2]
    exact ⟨⟨hvalue, hunit, hletters⟩, rfl, rfl⟩

theorem hasSizeParts_iff {text value : PyStr} {multiplier : Nat} :
    HasSizeParts text value multiplier ↔
      ∃ unit, sizeGroups text = some (value, unit) ∧ sizeUnits.lookup (upper unit) = some multiplier := by
  constructor
  · intro h
    obtain ⟨hvalue, hnumeric, blanks, unit, htext, hblanks, hletters, hlookup⟩ := h
    have hunit : unit ≠ [] := by
      intro hnil
      have hempty : sizeUnits.lookup (upper []) = none := by decide +kernel
      rw [hnil, hempty] at hlookup
      cases hlookup
    exact ⟨unit, sizeGroups_eq_some.mpr ⟨hvalue, hunit, hnumeric, hletters, blanks, htext, hblanks⟩, hlookup⟩
  · intro h
    obtain ⟨unit, hgroups, hlookup⟩ := h
    obtain ⟨hvalue, -, hnumeric, hletters, blanks, htext, hblanks⟩ := sizeGroups_eq_some.mp hgroups
    exact ⟨hvalue, hnumeric, blanks, unit, htext, hblanks, hletters, hlookup⟩

/-! ## What `parse_bytes` makes of them -/

theorem parseBytes_parts {text value : PyStr} {multiplier : Nat} (h : HasSizeParts text.strip value multiplier) :
    parseBytes text = roundBytes value multiplier := by
  obtain ⟨unit, hgroups, hlookup⟩ := hasSizeParts_iff.mp h
  simp only [parseBytes, hgroups, hlookup]

theorem parseBytes_no_parts {text : PyStr} (h : ¬ ∃ value multiplier, HasSizeParts text.strip value multiplier) :
    parseBytes text = .ok none := by
  unfold parseBytes
  cases hgroups : sizeGroups text.strip with
  | none => rfl
  | some parts =>
    obtain ⟨value, unit⟩ := parts
    cases hlookup : sizeUnits.lookup (upper unit) with
    | none => simp only [hlookup]
    | some multiplier => exact absurd ⟨value, multiplier, hasSizeParts_iff.mpr ⟨unit, hgroups, hlookup⟩⟩ h

/-- A literal that fits is rounded to a natural number. -/
theorem roundBytes_literal {value : PyStr} {multiplier : Nat} (hliteral : IsLiteral value) (hfits : Fits value multiplier) :
    ∃ n : Nat, roundBytes value multiplier = .ok (some n) := by
  obtain ⟨q, hq⟩ := hfits
  have hnonneg : 0 ≤ q := by
    cases hx : PyFloat.ofRat (literalValue value) with
    | finite x =>
      have hx0 : 0 ≤ x := PyFloat.ofRat_nonneg (by unfold literalValue; positivity) hx
      rw [hx] at hq
      exact PyFloat.ofRat_nonneg (mul_nonneg (Nat.cast_nonneg _) hx0) hq
    | infinity negative =>
      rw [hx] at hq
      cases hq
    | nan =>
      rw [hx] at hq
      cases hq
  obtain ⟨n, hn⟩ := Int.eq_ofNat_of_zero_le (roundEven_nonneg hnonneg)
  refine ⟨n, ?_⟩
  simp only [roundBytes, float?_literal hliteral, hq, PyFloat.round, hn]

theorem roundBytes_gap {value : PyStr} {multiplier : Nat} (hnumeric : ∀ c ∈ value, c.IsNumeric)
    (h : ¬ (IsLiteral value ∧ Fits value multiplier)) : ∃ e, roundBytes value multiplier = .error e := by
  by_cases hliteral : IsLiteral value
  · refine ⟨.overflowError, roundBytes_error.mpr (.inr ⟨_, float?_literal hliteral, ?_, rfl⟩)⟩
    cases hx : (PyFloat.ofRat (literalValue value)).scale multiplier with
    | finite q => exact absurd ⟨hliteral, q, hx⟩ h
    | infinity negative => rfl
    | nan => rfl
  · exact ⟨.valueError, roundBytes_error.mpr (.inl ⟨float?_eq_none hnumeric hliteral, rfl⟩)⟩

theorem parseBytes_gap {text : PyStr} (h : IsGap text) : ∃ e, parseBytes text = .error e := by
  obtain ⟨value, multiplier, hparts, hgap⟩ := h
  rw [parseBytes_parts hparts]
  exact roundBytes_gap hparts.2.1 hgap

/-- A size is read as a natural number, any other text as none. -/
def ReadsSizes (text : PyStr) : Prop :=
  (IsSize text → ∃ n : Nat, parseBytes text = .ok (some n)) ∧ (¬ IsSize text → parseBytes text = .ok none)

theorem readsSizes_iff (text : PyStr) : ReadsSizes text ↔ ¬ IsGap text := by
  constructor
  · intro hreads hgap
    obtain ⟨e, he⟩ := parseBytes_gap hgap
    by_cases hsize : IsSize text
    · obtain ⟨n, hn⟩ := hreads.1 hsize
      rw [he] at hn
      cases hn
    · have hnone := hreads.2 hsize
      rw [he] at hnone
      cases hnone
  · intro hgap
    refine ⟨?_, ?_⟩
    · intro hsize
      obtain ⟨value, multiplier, hparts, hliteral, hfits⟩ := hsize
      rw [parseBytes_parts hparts]
      exact roundBytes_literal hliteral hfits
    · intro hsize
      apply parseBytes_no_parts
      intro hparts
      obtain ⟨value, multiplier, hparts⟩ := hparts
      by_cases h : IsLiteral value ∧ Fits value multiplier
      · exact hsize ⟨value, multiplier, hparts, h⟩
      · exact hgap ⟨value, multiplier, hparts, h⟩

/-- `parse_bytes` returns for a text that is not in the gap, and for no other. -/
theorem parseBytes_total_iff (text : PyStr) : (∃ n, parseBytes text = .ok n) ↔ ¬ IsGap text := by
  constructor
  · intro hok hgap
    obtain ⟨n, hn⟩ := hok
    obtain ⟨e, he⟩ := parseBytes_gap hgap
    rw [he] at hn
    cases hn
  · intro hgap
    have hreads := (readsSizes_iff text).mpr hgap
    by_cases hsize : IsSize text
    · obtain ⟨n, hn⟩ := hreads.1 hsize
      exact ⟨_, hn⟩
    · exact ⟨_, hreads.2 hsize⟩

theorem parsePairBytes_total_iff (text : PyStr) :
    (∃ p, parsePairBytes text = .ok p) ↔
      ∀ left right, text.partition '/' = (left, some right) → ¬ IsGap left ∧ ¬ IsGap right := by
  unfold parsePairBytes
  rcases hp : text.partition '/' with ⟨left, _ | right⟩
  · simp
  · constructor
    · intro hok left' right' hsame
      cases hsame
      obtain ⟨p, hok⟩ := hok
      obtain ⟨l, hl, hok⟩ := bind_eq_ok hok
      obtain ⟨r, hr, -⟩ := bind_eq_ok hok
      exact ⟨(parseBytes_total_iff left).mp ⟨l, hl⟩, (parseBytes_total_iff right).mp ⟨r, hr⟩⟩
    · intro h
      obtain ⟨hleft, hright⟩ := h left right rfl
      obtain ⟨l, hl⟩ := (parseBytes_total_iff left).mpr hleft
      obtain ⟨r, hr⟩ := (parseBytes_total_iff right).mpr hright
      refine ⟨(l, r), ?_⟩
      simp only [hl, hr, ok_bind]
      rfl

/-- `parse_bytes` reads exactly the sizes, and none of the three raises, exactly where no text it is
    given is in the gap. -/
theorem sizes_iff (text : PyStr) :
    (ReadsSizes text ↔ ¬ IsGap text) ∧
      ((∃ p, parsePairBytes text = .ok p) ↔
        ∀ left right, text.partition '/' = (left, some right) → ¬ IsGap left ∧ ¬ IsGap right) ∧
      ((∃ n, parseReclaimable text = .ok n) ↔ ¬ IsGap (PyStr.strip (text.takeWhile fun c : PyChar => c ≠ '('))) :=
  ⟨readsSizes_iff text, parsePairBytes_total_iff text, parseBytes_total_iff _⟩

/-- Several dots, a lone dot, and a number that no float reaches. -/
theorem several_dots_raise :
    parseBytes (py "1.2.3MB") = .error .valueError ∧ parseBytes (py ". MB") = .error .valueError ∧
      parseBytes (List.replicate 310 (PyChar.ofChar '9') ++ py "B") = .error .overflowError := by
  decide +kernel

end LogSump.Listener
