/-
  LogSump.Python.Numerals — texts of decimal digits and dots, as `int` and `float` read them.

  - `int?_decimals`: `int` reads a text of digits as their number.
  - `float?_literal`, `float?_eq_none`: `float` reads digits among which one dot may stand, and of
    the other texts of digits and dots none.
-/

import LogSump.Python.Text

namespace LogSump.Python

/-- The digits of a text of decimal digits. -/
def decimals (text : PyStr) : Option (List Nat) := text.mapM PyChar.decimal?

/-- `[\d.]`. -/
def PyChar.IsNumeric (c : PyChar) : Prop := c.decimal?.isSome ∨ c = '.'

instance : DecidablePred PyChar.IsNumeric := fun c => inferInstanceAs (Decidable (c.decimal?.isSome = true ∨ c = '.'))

/-! ## Characters -/

theorem decimal?_lt {c : PyChar} {d : Nat} (h : c.decimal? = some d) : d < 10 := by
  obtain ⟨z, hz, rfl⟩ := Option.map_eq_some_iff.mp h
  have hbounds := List.find?_some hz
  simp only [decide_eq_true_eq] at hbounds
  omega

theorem decimal?_dot : PyChar.decimal? '.' = none := by decide

theorem ascii_dot : PyChar.ascii '.' = '.' := by decide

theorem ascii_digit {c : PyChar} {d : Nat} (h : c.decimal? = some d) : c.ascii = Char.ofNat (48 + d) := by
  simp only [PyChar.ascii, h]

/-- The ASCII digits are none of the other characters that a number is written with. -/
theorem digit_ne {d : Nat} (h : d < 10) {e : Char} (he : e ∈ [' ', '-', '+', '.', '_', 'e', 'E']) : Char.ofNat (48 + d) ≠ e := by
  have hrange : ∀ e ∈ [' ', '-', '+', '.', '_', 'e', 'E'], e.toNat < 48 ∨ 57 < e.toNat := by simp
  intro heq
  have hnat : (Char.ofNat (48 + d)).toNat = 48 + d := by
    interval_cases d <;> rfl
  have := hrange e he
  rw [← heq, hnat] at this
  omega

theorem asciiDigit?_digit {d : Nat} (h : d < 10) : asciiDigit? (Char.ofNat (48 + d)) = some d := by
  interval_cases d <;> decide

/-- Of a digit or a dot. -/
theorem ascii_ne {c : PyChar} (h : c.IsNumeric) {e : Char} (he : e ∈ [' ', '-', '+', '_', 'e', 'E']) : c.ascii ≠ e := by
  rcases h with hd | rfl
  · obtain ⟨d, hd⟩ := Option.isSome_iff_exists.mp hd
    rw [ascii_digit hd]
    apply digit_ne (decimal?_lt hd)
    simp only [List.mem_cons] at he ⊢
    tauto
  · rw [ascii_dot]
    intro hdot
    subst hdot
    revert he
    decide

theorem ascii_eq_dot {c : PyChar} (h : c.IsNumeric) : c.ascii = '.' ↔ c = '.' := by
  rcases h with hd | rfl
  · obtain ⟨d, hd⟩ := Option.isSome_iff_exists.mp hd
    rw [ascii_digit hd]
    refine ⟨fun hdot => absurd hdot (digit_ne (decimal?_lt hd) (by decide)), ?_⟩
    intro hc
    rw [hc, decimal?_dot] at hd
    cases hd
  · simp only [ascii_dot]

theorem asciiDigit?_ascii {c : PyChar} (h : c.IsNumeric) : asciiDigit? c.ascii = c.decimal? := by
  rcases h with hd | rfl
  · obtain ⟨d, hd⟩ := Option.isSome_iff_exists.mp hd
    rw [ascii_digit hd, hd, asciiDigit?_digit (decimal?_lt hd)]
  · decide

/-! ## Texts of digits and dots -/

theorem mapM_asciiDigit? {text : PyStr} (h : ∀ c ∈ text, c.IsNumeric) :
    (text.map PyChar.ascii).mapM asciiDigit? = decimals text := by
  unfold decimals
  induction text with
  | nil => rfl
  | cons c cs ih =>
    rw [List.map_cons, List.mapM_cons, List.mapM_cons, asciiDigit?_ascii (h c List.mem_cons_self),
      ih fun d hd => h d (List.mem_cons_of_mem c hd)]

/-- Without underscores every character is a digit. -/
theorem digits_eq_mapM {cs : List Char} (hne : cs ≠ []) (h : '_' ∉ cs) : digits cs = cs.mapM asciiDigit? := by
  induction cs with
  | nil => exact absurd rfl hne
  | cons c rest ih =>
    cases rest with
    | nil => cases hd : asciiDigit? c <;> simp [digits, hd]
    | cons e rest =>
      have he : e ≠ '_' := fun he => h (by simp [he])
      have hrest := ih (List.cons_ne_nil _ _) fun hmem => h (List.mem_cons_of_mem c hmem)
      rw [List.mapM_cons, ← hrest]
      rw [digits]
      · cases asciiDigit? c with
        | none => rfl
        | some d => cases digits (e :: rest) <;> rfl
      · intro hnil
        cases hnil
      · intro rest' hcons
        exact he (List.cons.inj hcons).1

theorem digits?_eq_mapM {cs : List Char} (h : '_' ∉ cs) : digits? cs = cs.mapM asciiDigit? := by
  unfold digits?
  split
  · rename_i hnil
    subst hnil
    rfl
  · rename_i hne
    exact digits_eq_mapM hne h

theorem underscore_not_mem {text : PyStr} (h : ∀ c ∈ text, c.IsNumeric) : '_' ∉ text.map PyChar.ascii := by
  intro hmem
  obtain ⟨c, hc, he⟩ := List.mem_map.mp hmem
  exact ascii_ne (h c hc) (by decide) he

theorem digits?_numeric {text : PyStr} (h : ∀ c ∈ text, c.IsNumeric) : digits? (text.map PyChar.ascii) = decimals text := by
  rw [digits?_eq_mapM (underscore_not_mem h), mapM_asciiDigit? h]

/-- There is nothing to strip, and no sign. -/
theorem numeral_numeric {text : PyStr} (h : ∀ c ∈ text, c.IsNumeric) : numeral text = (false, text.map PyChar.ascii) := by
  have hspace : ∀ a ∈ text.map PyChar.ascii, ¬ (a = ' ') := by
    intro a ha
    obtain ⟨c, hc, rfl⟩ := List.mem_map.mp ha
    exact ascii_ne (h c hc) (by decide)
  have hleft : (text.map PyChar.ascii).dropWhile (· = ' ') = text.map PyChar.ascii :=
    List.dropWhile_eq_self_iff.mpr fun hpos => by simpa using hspace _ (List.getElem_mem hpos)
  have hright : (text.map PyChar.ascii).rdropWhile (· = ' ') = text.map PyChar.ascii :=
    List.rdropWhile_eq_self_iff.mpr fun hne => by simpa using hspace _ (List.getLast_mem hne)
  rw [numeral, hleft, hright]
  cases text with
  | nil => rfl
  | cons c cs =>
    have hminus : c.ascii ≠ '-' := ascii_ne (h c List.mem_cons_self) (by decide)
    have hplus : c.ascii ≠ '+' := ascii_ne (h c List.mem_cons_self) (by decide)
    unfold signed
    split
    · rename_i hcons
      exact absurd (List.cons.inj hcons).1 hminus
    · rename_i hcons
      exact absurd (List.cons.inj hcons).1 hplus
    · rfl

/-! ## Digits only -/

theorem decimals_of_digits {text : PyStr} (h : ∀ c ∈ text, c.decimal?.isSome) :
    decimals text = some (text.filterMap PyChar.decimal?) ∧ (text.filterMap PyChar.decimal?).length = text.length := by
  unfold decimals
  induction text with
  | nil => exact ⟨rfl, rfl⟩
  | cons c cs ih =>
    obtain ⟨d, hd⟩ := Option.isSome_iff_exists.mp (h c List.mem_cons_self)
    obtain ⟨hcs, hlen⟩ := ih fun e he => h e (List.mem_cons_of_mem c he)
    rw [List.mapM_cons, hd, hcs, List.filterMap_cons_some hd, List.length_cons, List.length_cons, hlen]
    exact ⟨rfl, rfl⟩

theorem decimals_eq_none {text : PyStr} {c : PyChar} (hc : c ∈ text) (h : c.decimal? = none) : decimals text = none := by
  unfold decimals
  induction text with
  | nil => cases hc
  | cons e cs ih =>
    rw [List.mapM_cons]
    rcases List.mem_cons.mp hc with rfl | hc
    · rw [h]
      rfl
    · rw [ih hc]
      cases e.decimal? <;> rfl

/-- `int` reads at most 4300 digits. -/
theorem int?_decimals {text : PyStr} (hne : text ≠ []) (h : ∀ c ∈ text, c.decimal?.isSome) (hlen : text.length ≤ 4300) :
    int? text = some (natOf (text.filterMap PyChar.decimal?) : Int) := by
  have hnumeric : ∀ c ∈ text, c.IsNumeric := fun c hc => .inl (h c hc)
  obtain ⟨hds, hl⟩ := decimals_of_digits h
  have hdigits : digits (text.map PyChar.ascii) = some (text.filterMap PyChar.decimal?) := by
    rw [digits_eq_mapM (by simpa using hne) (underscore_not_mem hnumeric), mapM_asciiDigit? hnumeric, hds]
  rw [int?, numeral_numeric hnumeric]
  simp only [hdigits, Option.bind_some, hl, hlen, if_true, applySign, Bool.false_eq_true, if_false]

/-! ## Digits and dots -/

/-- What stands before the first dot. -/
def wholePart (value : PyStr) : PyStr := value.takeWhile fun c : PyChar => c ≠ '.'

/-- What stands after the first dot. -/
def fractionPart (value : PyStr) : PyStr := (value.dropWhile fun c : PyChar => c ≠ '.').drop 1

/-- Digits, at least one of them, and at most one dot. -/
def IsLiteral (value : PyStr) : Prop :=
  (∀ c ∈ value, c.IsNumeric) ∧ value.count (PyChar.ofChar '.') ≤ 1 ∧ ∃ c ∈ value, c.decimal?.isSome

instance : DecidablePred IsLiteral := fun value =>
  inferInstanceAs (Decidable ((∀ c ∈ value, c.IsNumeric) ∧ value.count (PyChar.ofChar '.') ≤ 1 ∧ ∃ c ∈ value, c.decimal?.isSome = true))

def literalValue (value : PyStr) : ℚ := natOf (value.filterMap PyChar.decimal?) / 10 ^ (fractionPart value).length

theorem wholePart_subset {value : PyStr} : wholePart value ⊆ value := (List.takeWhile_prefix _).subset

theorem fractionPart_subset {value : PyStr} : fractionPart value ⊆ value :=
  fun _ hc => List.dropWhile_subset _ (List.mem_of_mem_drop hc)

theorem ne_dot {text : PyStr} (h : PyChar.ofChar '.' ∉ text) : ∀ c ∈ text, decide (c ≠ PyChar.ofChar '.') = true := by
  intro c hc
  apply decide_eq_true
  intro he
  exact h (he ▸ hc)

theorem isSome_of_not_dot {text : PyStr} (h : ∀ c ∈ text, c.IsNumeric) (hdot : PyChar.ofChar '.' ∉ text) :
    ∀ c ∈ text, c.decimal?.isSome := by
  intro c hc
  refine (h c hc).resolve_right ?_
  intro he
  exact hdot (he ▸ hc)

theorem dot_not_mem {text : PyStr} (h : ∀ c ∈ text, c.decimal?.isSome) : PyChar.ofChar '.' ∉ text := by
  intro hdot
  have hsome := h _ hdot
  rw [decimal?_dot] at hsome
  cases hsome

/-- Without a dot, or cut at the first one. -/
theorem parts_of_numeric {value : PyStr} (h : ∀ c ∈ value, c.IsNumeric) :
    ((∀ c ∈ value, c.decimal?.isSome) ∧ wholePart value = value ∧ fractionPart value = []) ∨
      ∃ w f : PyStr, value = w ++ PyChar.ofChar '.' :: f ∧ (∀ c ∈ w, c.decimal?.isSome) ∧ wholePart value = w ∧
        fractionPart value = f := by
  by_cases hdot : PyChar.ofChar '.' ∈ value
  · obtain ⟨w, f, rfl, hw⟩ := List.eq_append_cons_of_mem hdot
    refine .inr ⟨w, f, rfl, isSome_of_not_dot (fun c hc => h c (List.mem_append_left _ hc)) hw, ?_, ?_⟩
    · rw [wholePart, List.takeWhile_append_of_pos (ne_dot hw)]
      simp
    · rw [fractionPart, List.dropWhile_append_of_pos (ne_dot hw)]
      simp
  · refine .inl ⟨isSome_of_not_dot h hdot, List.takeWhile_eq_self_iff.mpr (ne_dot hdot), ?_⟩
    rw [fractionPart, List.dropWhile_eq_nil_iff.mpr (ne_dot hdot)]
    rfl

/-- The parts as `float` sees them. -/
theorem parts_ascii {value : PyStr} (h : ∀ c ∈ value, c.IsNumeric) :
    (value.map PyChar.ascii).takeWhile (· ≠ '.') = (wholePart value).map PyChar.ascii ∧
      ((value.map PyChar.ascii).dropWhile (· ≠ '.')).drop 1 = (fractionPart value).map PyChar.ascii := by
  have hdot : ∀ c ∈ value, decide (c.ascii ≠ '.') = decide (c ≠ PyChar.ofChar '.') := by
    intro c hc
    exact decide_eq_decide.mpr (not_congr (ascii_eq_dot (h c hc)))
  rw [List.takeWhile_map, List.dropWhile_map, wholePart, fractionPart, ← List.map_drop]
  clear h
  induction value with
  | nil => exact ⟨rfl, rfl⟩
  | cons c cs ih =>
    obtain ⟨hw, hf⟩ := ih fun d hd => hdot d (List.mem_cons_of_mem c hd)
    have hc := hdot c List.mem_cons_self
    by_cases he : c = PyChar.ofChar '.'
    · simp [he, ascii_dot]
    · have ha : c.ascii ≠ '.' := by simpa [he] using hc
      simp only [List.takeWhile_cons, List.dropWhile_cons, Function.comp_apply, ne_eq, he, ha, not_false_eq_true, decide_true,
        if_true, List.map_cons, List.cons.injEq, true_and]
      exact ⟨hw, hf⟩

theorem decimal?_numeric {value : PyStr} (h : ∀ c ∈ value, c.IsNumeric) :
    decimal? (value.map PyChar.ascii) =
      if wholePart value = [] ∧ fractionPart value = [] then none
      else (decimals (wholePart value)).bind fun w => (decimals (fractionPart value)).map fun f =>
        (natOf (w ++ f) : ℚ) * 10 ^ (0 - (f.length : ℤ)) := by
  have hexp : ∀ a ∈ value.map PyChar.ascii, decide (¬ (a = 'e' ∨ a = 'E')) = true := by
    intro a ha
    obtain ⟨c, hc, rfl⟩ := List.mem_map.mp ha
    have he : c.ascii ≠ 'e' := ascii_ne (h c hc) (by decide)
    have hE : c.ascii ≠ 'E' := ascii_ne (h c hc) (by decide)
    simp [he, hE]
  have hmantissa : (value.map PyChar.ascii).takeWhile (fun a => ¬ (a = 'e' ∨ a = 'E')) = value.map PyChar.ascii :=
    List.takeWhile_eq_self_iff.mpr hexp
  have hrest : (value.map PyChar.ascii).dropWhile (fun a => ¬ (a = 'e' ∨ a = 'E')) = [] := List.dropWhile_eq_nil_iff.mpr hexp
  obtain ⟨hw, hf⟩ := parts_ascii h
  have hwhole := digits?_numeric fun c (hc : c ∈ wholePart value) => h c (wholePart_subset hc)
  have hfraction := digits?_numeric fun c (hc : c ∈ fractionPart value) => h c (fractionPart_subset hc)
  simp only [decimal?, hmantissa, hrest, hw, hf, hwhole, hfraction, List.map_eq_nil_iff]
  split
  · rfl
  · cases decimals (wholePart value) with
    | none => rfl
    | some w => cases decimals (fractionPart value) <;> rfl

/-- No digit and no dot begins a word. -/
theorem toLower_ne {c : PyChar} (h : c.IsNumeric) : c.ascii.toLower ≠ 'i' ∧ c.ascii.toLower ≠ 'n' := by
  rcases h with hd | rfl
  · obtain ⟨d, hd⟩ := Option.isSome_iff_exists.mp hd
    have hlt := decimal?_lt hd
    rw [ascii_digit hd]
    interval_cases d <;> simp [Char.toLower]
  · rw [ascii_dot]
    simp [Char.toLower]

theorem not_word {value : PyStr} (h : ∀ c ∈ value, c.IsNumeric) {word : String} {a : Char} {as : List Char}
    (hword : word.toList = a :: as) (ha : a = 'i' ∨ a = 'n') :
    String.ofList ((value.map PyChar.ascii).map Char.toLower) ≠ word := by
  intro he
  have hl := congrArg String.toList he
  rw [String.toList_ofList, hword] at hl
  cases value with
  | nil => cases hl
  | cons c cs =>
    obtain ⟨hi, hn⟩ := toLower_ne (h c List.mem_cons_self)
    obtain ⟨hc, -⟩ := List.cons.inj hl
    rcases ha with rfl | rfl
    · exact hi hc
    · exact hn hc

theorem float?_numeric {value : PyStr} (h : ∀ c ∈ value, c.IsNumeric) :
    float? value = (decimal? (value.map PyChar.ascii)).map PyFloat.ofRat := by
  have hinf : _ ≠ "inf" := not_word h rfl (.inl rfl)
  have hinfinity : _ ≠ "infinity" := not_word h rfl (.inl rfl)
  have hnan : _ ≠ "nan" := not_word h rfl (.inr rfl)
  rw [float?, numeral_numeric h]
  simp only [hinf, hinfinity, hnan, or_self, if_false, applySign, Bool.false_eq_true]

/-- A literal is cut into digits and digits, not both empty. -/
theorem isLiteral_iff {value : PyStr} (h : ∀ c ∈ value, c.IsNumeric) :
    IsLiteral value ↔ ¬ (wholePart value = [] ∧ fractionPart value = []) ∧ PyChar.ofChar '.' ∉ fractionPart value := by
  rcases parts_of_numeric h with ⟨hdigits, hw, hf⟩ | ⟨w, f, hvalue, hdigits, hw, hf⟩
  · have hcount : value.count (PyChar.ofChar '.') = 0 := List.count_eq_zero.mpr (dot_not_mem hdigits)
    rw [hw, hf]
    constructor
    · intro hlit
      obtain ⟨-, -, c, hc, -⟩ := hlit
      exact ⟨fun hnil => List.ne_nil_of_mem hc hnil.1, List.not_mem_nil⟩
    · intro hne
      obtain ⟨c, hc⟩ := List.exists_mem_of_ne_nil value fun hnil => hne.1 ⟨hnil, rfl⟩
      exact ⟨h, by omega, c, hc, hdigits c hc⟩
  · have hcount : value.count (PyChar.ofChar '.') = f.count (PyChar.ofChar '.') + 1 := by
      rw [hvalue, List.count_append, List.count_eq_zero.mpr (dot_not_mem hdigits), List.count_cons_self, zero_add]
    rw [hw, hf]
    constructor
    · intro hlit
      obtain ⟨-, hle, c, hc, hsome⟩ := hlit
      refine ⟨?_, List.count_eq_zero.mp (by omega)⟩
      intro hnil
      rw [hvalue, hnil.1, hnil.2, List.nil_append, List.mem_singleton] at hc
      rw [hc, decimal?_dot] at hsome
      cases hsome
    · intro hne
      obtain ⟨hne, hdot⟩ := hne
      have hfdigits : ∀ c ∈ f, c.decimal?.isSome := by
        apply isSome_of_not_dot _ hdot
        intro c hc
        apply h
        rw [hvalue]
        exact List.mem_append_right _ (List.mem_cons_of_mem _ hc)
      have hzero := List.count_eq_zero.mpr hdot
      refine ⟨h, by omega, ?_⟩
      rw [hvalue]
      by_cases hwnil : w = []
      · obtain ⟨c, hc⟩ := List.exists_mem_of_ne_nil f fun hnil => hne ⟨hwnil, hnil⟩
        exact ⟨c, List.mem_append_right _ (List.mem_cons_of_mem _ hc), hfdigits c hc⟩
      · obtain ⟨c, hc⟩ := List.exists_mem_of_ne_nil w hwnil
        exact ⟨c, List.mem_append_left _ hc, hdigits c hc⟩

theorem filterMap_parts {value : PyStr} (h : ∀ c ∈ value, c.IsNumeric) :
    value.filterMap PyChar.decimal? =
      (wholePart value).filterMap PyChar.decimal? ++ (fractionPart value).filterMap PyChar.decimal? := by
  rcases parts_of_numeric h with ⟨-, hw, hf⟩ | ⟨w, f, hvalue, -, hw, hf⟩
  · rw [hw, hf, List.filterMap_nil, List.append_nil]
  · rw [hw, hf, hvalue, List.filterMap_append, List.filterMap_cons_none decimal?_dot]

theorem wholePart_digits {value : PyStr} (h : ∀ c ∈ value, c.IsNumeric) : ∀ c ∈ wholePart value, c.decimal?.isSome := by
  rcases parts_of_numeric h with ⟨hdigits, hw, -⟩ | ⟨w, f, -, hdigits, hw, -⟩
  · rw [hw]
    exact hdigits
  · rw [hw]
    exact hdigits

/-- The number that `float` rounds. -/
theorem float?_literal {value : PyStr} (h : IsLiteral value) : float? value = some (.ofRat (literalValue value)) := by
  obtain ⟨hne, hdot⟩ := (isLiteral_iff h.1).mp h
  obtain ⟨hw, -⟩ := decimals_of_digits (wholePart_digits h.1)
  obtain ⟨hf, hlen⟩ := decimals_of_digits (isSome_of_not_dot (fun c hc => h.1 c (fractionPart_subset hc)) hdot)
  rw [float?_numeric h.1, decimal?_numeric h.1, if_neg hne, hw, hf, literalValue, filterMap_parts h.1]
  simp only [Option.bind_some, Option.map_some, hlen, zero_sub, zpow_neg, zpow_natCast, div_eq_mul_inv]

theorem float?_eq_none {value : PyStr} (hnumeric : ∀ c ∈ value, c.IsNumeric) (h : ¬ IsLiteral value) : float? value = none := by
  rw [isLiteral_iff hnumeric, not_and_or, not_not, not_not] at h
  rw [float?_numeric hnumeric, decimal?_numeric hnumeric]
  rcases h with hnil | hdot
  · rw [if_pos hnil, Option.map_none]
  · rw [decimals_eq_none hdot decimal?_dot]
    split
    · rfl
    · cases decimals (wholePart value) <;> rfl

end LogSump.Python
