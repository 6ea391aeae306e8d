/-
  LogSump.Python.Fields — texts that are laid out in columns, as they are read back with `split`,
  `strip`, `partition`, `splitlines` and `int`.

  - `int?_decimalText`: `int` reads what `str` writes of a natural number.
  - `split_line`: the fields of a line, whatever the spaces between them.
  - `partition_at`: the text is split at the first separator.
  - `splitlines_intercalate`: lines that are joined by newlines, of which the last is not empty.
-/

import LogSump.Python.Numerals

namespace LogSump.Python

def space : PyChar := PyChar.ofChar ' '

def spaces (n : Nat) : PyStr := List.replicate n space

/-- `str(n)`. -/
def decimalText (n : Nat) : PyStr := (Nat.toDigits 10 n).map PyChar.ofChar

namespace PyStr

/-- The text after as many spaces as make it so wide. -/
def rjust (width : Nat) (text : PyStr) : PyStr := spaces (width - text.length) ++ text

/-- Fields, with one space before each, of the widths that stand beside them. -/
def columns (fields : List (Nat × PyStr)) : PyStr := fields.flatMap fun f => space :: rjust f.1 f.2

/-- It is not empty, and has no spaces in it. -/
def IsWord (text : PyStr) : Prop := text ≠ [] ∧ ∀ c ∈ text, ¬ c.IsSpace

instance : DecidablePred IsWord := fun text => inferInstanceAs (Decidable (text ≠ [] ∧ ∀ c ∈ text, ¬ c.IsSpace))

end PyStr

/-! ## Numbers -/

theorem space_isSpace : space.IsSpace := by decide

theorem decimal?_ofChar {c : Char} (h : c.isDigit) : (PyChar.ofChar c).decimal? = some (c.toNat - 48) := by
  have hc : 48 ≤ c.toNat ∧ c.toNat ≤ 57 := by
    simp only [Char.isDigit, Bool.and_eq_true, decide_eq_true_eq, UInt32.le_iff_toNat_le] at h
    exact h
  have hfirst : PyChar.zeros.find? (fun z => z ≤ c.toNat ∧ c.toNat ≤ z + 9) = some 48 :=
    List.find?_cons_of_pos (by simpa using hc)
  show (PyChar.zeros.find? fun z => z ≤ c.toNat ∧ c.toNat ≤ z + 9).map (c.toNat - ·) = _
  rw [hfirst, Option.map_some]

theorem decimal?_decimalText {n : Nat} {c : PyChar} (h : c ∈ decimalText n) : c.decimal?.isSome := by
  obtain ⟨d, hd, rfl⟩ := List.mem_map.mp h
  rw [decimal?_ofChar (Nat.isDigit_of_mem_toDigits (by decide) (by decide) hd)]
  rfl

theorem decimalText_ne_nil (n : Nat) : decimalText n ≠ [] := by
  intro h
  exact Nat.toDigits_ne_nil (List.map_eq_nil_iff.mp h)

theorem natOf_decimalText (n : Nat) : natOf ((decimalText n).filterMap PyChar.decimal?) = n := by
  have hdigits : (decimalText n).filterMap PyChar.decimal? = (Nat.toDigits 10 n).map fun c => c.toNat - 48 := by
    rw [decimalText, List.filterMap_map, ← List.filterMap_eq_map]
    apply List.filterMap_congr
    intro c hc
    exact decimal?_ofChar (Nat.isDigit_of_mem_toDigits (by decide) (by decide) hc)
  rw [hdigits, natOf, List.foldl_map]
  exact Nat.ofDigitChars_ten_toDigits

/-- Of 64 bits; `int` reads as many digits. -/
theorem length_decimalText {n : Nat} (h : n < 2 ^ 64) : (decimalText n).length ≤ 4300 := by
  have hdigits : (Nat.toDigits 10 n).length ≤ 20 := (Nat.length_toDigits_le_iff (by decide) (by decide)).mpr (h.trans (by decide))
  rw [decimalText, List.length_map]
  omega

theorem int?_decimalText {n : Nat} (h : n < 2 ^ 64) : int? (decimalText n) = some (n : Int) := by
  rw [int?_decimals (decimalText_ne_nil n) (fun c hc => decimal?_decimalText hc) (length_decimalText h), natOf_decimalText]

/-- A decimal digit is no space. -/
theorem not_isSpace_of_decimal {c : PyChar} (h : c.decimal?.isSome) : ¬ c.IsSpace := by
  obtain ⟨d, hd⟩ := Option.isSome_iff_exists.mp h
  obtain ⟨z, hz, -⟩ := Option.map_eq_some_iff.mp hd
  have hmem := List.mem_of_find?_eq_some hz
  have hbounds := List.find?_some hz
  simp only [decide_eq_true_eq] at hbounds
  have hzeros : ∀ z ∈ PyChar.zeros, ∀ d < 10, ∀ h : z + d < 0x110000, ¬ (⟨z + d, h⟩ : PyChar).IsSpace := by decide +kernel
  have hcode : z + (c.code - z) = c.code := by omega
  have hc : c = ⟨z + (c.code - z), hcode.le.trans_lt c.lt⟩ := by
    cases c
    simp only [PyChar.mk.injEq]
    exact hcode.symm
  rw [hc]
  exact hzeros z hmem _ (by omega) _

theorem isWord_decimalText (n : Nat) : PyStr.IsWord (decimalText n) :=
  ⟨decimalText_ne_nil n, fun _ hc => not_isSpace_of_decimal (decimal?_decimalText hc)⟩

namespace PyStr

/-! ## Fields -/

theorem isSpace_of_isBreak {c : PyChar} (h : c.IsBreak) : c.IsSpace := by
  unfold PyChar.IsBreak at h
  unfold PyChar.IsSpace
  simp only [List.mem_cons, List.not_mem_nil, or_false] at h ⊢
  omega

theorem IsWord.no_break {text : PyStr} (h : IsWord text) : ∀ c ∈ text, ¬ c.IsBreak :=
  fun c hc hb => h.2 c hc (isSpace_of_isBreak hb)

theorem words_word {text : PyStr} (h : ∀ c ∈ text, ¬ c.IsSpace) (word rest : PyStr) :
    words word (text ++ rest) = words (word ++ text) rest := by
  induction text generalizing word with
  | nil => rw [List.nil_append, List.append_nil]
  | cons c cs ih =>
    rw [List.cons_append, words, if_neg (h c List.mem_cons_self), ih fun d hd => h d (List.mem_cons_of_mem c hd), List.append_assoc,
      List.singleton_append]

theorem words_spaces (n : Nat) (rest : PyStr) : words [] (spaces n ++ rest) = words [] rest := by
  induction n with
  | zero => rfl
  | succ n ih =>
    rw [spaces, List.replicate_succ, List.cons_append, words, if_pos space_isSpace, if_pos rfl]
    exact ih

theorem words_columns {fields : List (Nat × PyStr)} (h : ∀ f ∈ fields, IsWord f.2) (word : PyStr) :
    words word (columns fields) = (if word = [] then [] else [word]) ++ fields.map (·.2) := by
  induction fields generalizing word with
  | nil =>
    rw [List.map_nil, List.append_nil]
    rfl
  | cons f fields ih =>
    have hf := h f List.mem_cons_self
    have hrest : words [] (rjust f.1 f.2 ++ columns fields) = f.2 :: fields.map (·.2) := by
      rw [rjust, List.append_assoc, words_spaces, words_word hf.2, List.nil_append, ih fun g hg => h g (List.mem_cons_of_mem f hg),
        if_neg hf.1, List.singleton_append]
    have hcolumns : columns (f :: fields) = space :: (rjust f.1 f.2 ++ columns fields) := rfl
    rw [hcolumns, words, if_pos space_isSpace, hrest]
    split
    · rfl
    · rfl

theorem split_columns {fields : List (Nat × PyStr)} (h : ∀ f ∈ fields, IsWord f.2) : split (columns fields) = fields.map (·.2) :=
  words_columns h []

/-- A line that begins with a field. -/
theorem split_line {first : PyStr} (hfirst : IsWord first) {fields : List (Nat × PyStr)} (h : ∀ f ∈ fields, IsWord f.2)
    (width : Nat) : split (rjust width first ++ columns fields) = first :: fields.map (·.2) := by
  rw [split, rjust, List.append_assoc, words_spaces, words_word hfirst.2, List.nil_append, words_columns h, if_neg hfirst.1,
    List.singleton_append]

/-- Every character of a line of columns is a space or one of a field. -/
theorem mem_columns {fields : List (Nat × PyStr)} {c : PyChar} (h : c ∈ columns fields) : c = space ∨ ∃ f ∈ fields, c ∈ f.2 := by
  obtain ⟨f, hf, hc⟩ := List.mem_flatMap.mp h
  rcases List.mem_cons.mp hc with rfl | hc
  · exact .inl rfl
  · rcases List.mem_append.mp hc with hc | hc
    · exact .inl (List.eq_of_mem_replicate hc)
    · exact .inr ⟨f, hf, hc⟩

theorem mem_rjust {width : Nat} {text : PyStr} {c : PyChar} (h : c ∈ rjust width text) : c = space ∨ c ∈ text := by
  rcases List.mem_append.mp h with hc | hc
  · exact .inl (List.eq_of_mem_replicate hc)
  · exact .inr hc

/-! ## Ends of a text -/

theorem strip_spaces (n : Nat) (text : PyStr) : strip (spaces n ++ text) = strip text := by
  induction n with
  | zero => rfl
  | succ n ih =>
    have hdrop : (spaces (n + 1) ++ text).dropWhile (·.IsSpace) = (spaces n ++ text).dropWhile (·.IsSpace) :=
      List.dropWhile_cons_of_pos (decide_eq_true space_isSpace)
    rw [← ih, strip, hdrop]
    rfl

/-- A text that begins and ends with other characters than spaces. -/
theorem strip_self {text : PyStr} (h : text ≠ []) (hhead : ¬ (text.head h).IsSpace) (hlast : ¬ (text.getLast h).IsSpace) :
    strip text = text := by
  have hleft : text.dropWhile (·.IsSpace) = text := by
    cases text with
    | nil => rfl
    | cons c cs => exact List.dropWhile_cons_of_neg (by simpa using hhead)
  have hright : text.rdropWhile (·.IsSpace) = text := List.rdropWhile_eq_self_iff.mpr fun _ => by simpa using hlast
  rw [strip, hleft, hright]

theorem strip_word {text : PyStr} (h : IsWord text) : strip text = text :=
  strip_self h.1 (h.2 _ (List.head_mem h.1)) (h.2 _ (List.getLast_mem h.1))

/-- A word with one space after it. -/
theorem strip_word_space {text : PyStr} (h : IsWord text) : strip (text ++ [space]) = text := by
  have hleft : (text ++ [space]).dropWhile (·.IsSpace) = text ++ [space] := by
    obtain ⟨c, cs, rfl⟩ := List.exists_cons_of_ne_nil h.1
    exact List.dropWhile_cons_of_neg (by simpa using h.2 c List.mem_cons_self)
  have hlast : (text ++ [space]).rdropWhile (·.IsSpace) = text.rdropWhile (·.IsSpace) :=
    List.rdropWhile_concat_pos _ _ _ (decide_eq_true space_isSpace)
  rw [strip, hleft, hlast]
  exact List.rdropWhile_eq_self_iff.mpr fun hne => by simpa using h.2 _ (List.getLast_mem hne)

theorem partition_at {left : PyStr} {sep : PyChar} (h : sep ∉ left) (right : PyStr) :
    partition (left ++ sep :: right) sep = (left, some right) := by
  have hne : ∀ c ∈ left, decide (c ≠ sep) = true := by
    intro c hc
    apply decide_eq_true
    rintro rfl
    exact h hc
  have hdrop : (left ++ sep :: right).dropWhile (· ≠ sep) = sep :: right :=
    (List.dropWhile_append_of_pos hne).trans (List.dropWhile_cons_of_neg (by simp))
  have htake : (left ++ sep :: right).takeWhile (· ≠ sep) = left := by
    rw [List.takeWhile_append_of_pos hne]
    simp
  simp only [partition, hdrop, htake]

/-! ## Lines -/

theorem breakLines_end {line : PyStr} (hne : line ≠ []) (h : ∀ c ∈ line, ¬ c.IsBreak) : breakLines line = [line] := by
  induction line with
  | nil => exact absurd rfl hne
  | cons c cs ih =>
    rw [breakLines, if_neg (h c List.mem_cons_self)]
    cases cs with
    | nil => rfl
    | cons d ds => rw [ih (List.cons_ne_nil d ds) fun e he => h e (List.mem_cons_of_mem c he)]

theorem splitlines_intercalate {lines : List PyStr} (h : ∀ line ∈ lines, line ≠ [] ∧ ∀ c ∈ line, ¬ c.IsBreak) :
    splitlines ((py "\n").intercalate lines) = lines := by
  have hjoin : ∀ (line next : PyStr) (rest : List PyStr), (py "\n").intercalate (line :: next :: rest) =
      line ++ py "\n" ++ (py "\n").intercalate (next :: rest) := by
    intro line next rest
    simp [List.intercalate]
  have hcr : ∀ c ∈ (py "\n").intercalate lines, c.code ≠ 13 := by
    induction lines with
    | nil => simp [List.intercalate]
    | cons line lines ih =>
      have hline : ∀ c ∈ line, c.code ≠ 13 := fun c hc he => (h line List.mem_cons_self).2 c hc (.inl (by omega))
      cases lines with
      | nil => simpa [List.intercalate] using hline
      | cons next rest =>
        rw [hjoin]
        intro c hc
        rcases List.mem_append.mp hc with hc | hc
        · rcases List.mem_append.mp hc with hc | hc
          · exact hline c hc
          · cases List.mem_singleton.mp hc
            decide
        · exact ih (fun l hl => h l (List.mem_cons_of_mem line hl)) c hc
  rw [splitlines, dropCr_eq_self hcr]
  clear hcr
  induction lines with
  | nil => rfl
  | cons line lines ih =>
    obtain ⟨hne, hbreak⟩ := h line List.mem_cons_self
    cases lines with
    | nil =>
      rw [show (py "\n").intercalate [line] = line by simp [List.intercalate]]
      exact breakLines_end hne hbreak
    | cons next rest =>
      rw [hjoin, breakLines_line hbreak, ih fun l hl => h l (List.mem_cons_of_mem line hl)]

end PyStr

end LogSump.Python
