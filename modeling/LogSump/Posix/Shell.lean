/-
  LogSump.Posix.Shell — how a POSIX shell reads one command line into the argument
  vector it executes (Shell Command Language: 2.2 quoting, 2.3 token recognition, 2.4
  reserved words, 2.6 word expansions, 2.9.1 simple commands).

  `scan` is token recognition, one character at a time. Blanks separate words;
  backslashes and quotes are removed and mark what they protect; an unquoted operator or
  newline ends the simple command; a backquote that is not protected starts an expansion, and
  so does a `$` before the name of a parameter. `read` then drops the leading assignments and
  looks at what is left. Only a line whose words are fixed by its text alone has an argument
  vector: where an expansion, a pathname pattern or a tilde makes the words depend on the host,
  it is `expands`.

  The standard leaves open what a `$` before any other character and a backslash at the end of
  a line are. Shells keep both, and so does `scan`.

  Proved:
  - `scan_weight`: the words of a line, one separator each, are never longer than it.
  - `scan_tight`: where they are as long, nothing was quoted and nothing was removed.
  - `literals_iff`: a text of characters that are kept, each before what follows it.
  - `isPattern_iff`, `isBracket_iff`: which words are pathname patterns; a `[` that no `]`
    closes is an ordinary character.
  - `read_join_iff`: the line made of `args` joined by single spaces is read back as
    `args` exactly when every argument is `Plain` before the blank or the end that follows it,
    and the first one is neither a reserved word nor an assignment.
-/

import Mathlib

namespace LogSump.Posix.Shell

/-- A character of a word, and whether a quote or a backslash protected it. -/
structure Glyph where
  char : Char
  quoted : Bool
  deriving DecidableEq, Repr

abbrev Word := List Glyph

/-- Why a line is not one simple command whose words its text fixes. -/
inductive Stop where
  /-- An operator, a newline or a reserved word. -/
  | compound
  /-- The words depend on the host's variables, files, users or shell. -/
  | expands
  /-- An open quote. -/
  | incomplete
  deriving DecidableEq, Repr

def isBlank (c : Char) : Bool := c == ' ' || c == '\t'

def isOperator (c : Char) : Bool := ['\n', ';', '&', '|', '<', '>', '(', ')'].contains c

def isQuote (c : Char) : Bool := c == '\'' || c == '"'

/-- The next character, without line continuations. -/
def peek : List Char → Option Char
  | '\\' :: '\n' :: cs => peek cs
  | cs => cs.head?

/-- Before what a `$` starts an expansion (2.6). Of what the standard leaves open, some shells
    take `$[` for arithmetic. -/
def isParameter (c : Char) : Bool :=
  c.isAlphanum || ['_', '@', '*', '#', '?', '-', '$', '!', '\x7b', '(', '['].contains c

/-- Whether a character starts an expansion before what follows it. Outside double quotes some
    shells also have quotes of their own behind a `$`. -/
def isExpansion (quoted : Bool) (c : Char) (cs : List Char) : Bool :=
  c == '`' || c == '$' && (peek cs).any fun d => isParameter d || !quoted && isQuote d

inductive Mode where
  | bare
  | escaped
  | single
  | double
  | doubleEscaped
  | comment
  deriving DecidableEq, Repr

/-- The word in progress is `none` between words: an empty word needs a quote. -/
def push (cur : Option Word) (c : Char) (quoted : Bool) : Option Word := some (cur.getD [] ++ [⟨c, quoted⟩])

def opened (cur : Option Word) : Option Word := some (cur.getD [])

def scan : Mode → Option Word → List Char → Except Stop (List Word)
  | .bare, cur, [] => .ok cur.toList
  | .comment, cur, [] => .ok cur.toList
  | _, _, [] => .error .incomplete
  | .bare, cur, c :: cs =>
    -- at the end of the line there is nothing for a backslash to protect
    if c = '\\' ∧ cs ≠ [] then scan .escaped cur cs
    else if c = '\'' then scan .single (opened cur) cs
    else if c = '"' then scan .double (opened cur) cs
    else if isBlank c then (scan .bare none cs).map (cur.toList ++ ·)
    else if isOperator c then .error .compound
    else if isExpansion false c cs then .error .expands
    -- a `#` inside a word is an ordinary character
    else if c = '#' ∧ cur = none then scan .comment none cs
    else scan .bare (push cur c false) cs
  -- backslash-newline is a line continuation
  | .escaped, cur, c :: cs => if c = '\n' then scan .bare cur cs else scan .bare (push cur c true) cs
  | .single, cur, c :: cs => if c = '\'' then scan .bare cur cs else scan .single (push cur c true) cs
  | .double, cur, c :: cs =>
    if c = '"' then scan .bare cur cs
    else if c = '\\' then scan .doubleEscaped cur cs
    else if isExpansion true c cs then .error .expands
    else scan .double (push cur c true) cs
  -- inside double quotes a backslash protects only `$`, a backquote, `"`, `\` and a newline
  | .doubleEscaped, cur, c :: cs =>
    if c = '\n' then scan .double cur cs
    else if ['$', '`', '"', '\\'].contains c then scan .double (push cur c true) cs
    else scan .double (push (push cur '\\' true) c true) cs
  | .comment, cur, c :: cs => if c = '\n' then .error .compound else scan .comment cur cs

def text (w : Word) : String := String.ofList (w.map (·.char))

/-- A word without quoting. -/
def bare (cs : List Char) : Word := cs.map (⟨·, false⟩)

/-- With those that some shells reserve and others do not. -/
def reservedWords : List String :=
  ["!", "\x7b", "\x7d", "case", "do", "done", "elif", "else", "esac", "fi", "for", "if", "in", "then", "until", "while",
   "[[", "]]", "function", "select", "time"]

def isReserved (w : Word) : Bool := w.all (!·.quoted) && reservedWords.contains (text w)

def isName : List Char → Bool
  | [] => false
  | c :: cs => (c.isAlpha || c == '_') && cs.all (fun d => d.isAlphanum || d == '_')

/-- `name=value`, with the name and the `=` unquoted. -/
def isAssignment (w : Word) : Bool :=
  let name := w.takeWhile (· != ⟨'=', false⟩)
  name.length < w.length && name.all (!·.quoted) && isName (name.map (·.char))

/-- Whether an unquoted `]` comes before every slash: a bracket expression stays inside one
    component of a path (2.14.3). -/
def closes : Word → Bool
  | [] => false
  | g :: gs => g == ⟨']', false⟩ || g.char != '/' && closes gs

/-- What follows a `[` makes a bracket expression of it. The first member may be a `]` itself;
    a `!` negates, while a `^`, which the standard leaves open, is a member like any other. -/
def isBracket : Word → Bool
  | ⟨'!', false⟩ :: g :: gs => g.char != '/' && closes gs
  | g :: gs => g.char != '/' && closes gs
  | [] => false

/-- A pathname pattern (2.14): it has an unquoted `*`, `?` or bracket expression. Any other `[`
    stands for itself. -/
def isPattern : Word → Bool
  | [] => false
  | g :: gs => !g.quoted && (g.char == '*' || g.char == '?' || g.char == '[' && isBracket gs) || isPattern gs

theorem closes_iff (w : Word) :
    closes w = true ↔ ∃ ms post, w = ms ++ ⟨']', false⟩ :: post ∧ ∀ g ∈ ms, g.char ≠ '/' := by
  induction w with
  | nil => simp [closes]
  | cons g gs ih =>
    simp only [closes, Bool.or_eq_true, beq_iff_eq, Bool.and_eq_true, bne_iff_ne, ih]
    constructor
    · intro h
      rcases h with rfl | ⟨hg, ms, post, rfl, hms⟩
      · exact ⟨[], gs, rfl, by simp⟩
      · exact ⟨g :: ms, post, rfl, by simpa using ⟨hg, hms⟩⟩
    · intro h
      obtain ⟨ms, post, he, hms⟩ := h
      cases ms with
      | nil => exact .inl (List.cons.inj he).1
      | cons m ms =>
        obtain ⟨rfl, rfl⟩ := List.cons.inj he
        exact .inr ⟨hms g List.mem_cons_self, ms, post, rfl, fun x hx => hms x (List.mem_cons_of_mem _ hx)⟩

/-- A bracket expression has a member, and none of its members is a slash. -/
theorem isBracket_iff (w : Word) :
    isBracket w = true ↔ ∃ ms post, w = ms ++ ⟨']', false⟩ :: post ∧ ms ≠ [] ∧ ms ≠ [⟨'!', false⟩] ∧
      ∀ g ∈ ms, g.char ≠ '/' := by
  have hmember : ∀ (g : Glyph) (gs : Word), (g.char != '/' && closes gs) = true ↔
      ∃ ms post, gs = ms ++ ⟨']', false⟩ :: post ∧ ∀ x ∈ g :: ms, x.char ≠ '/' := by
    intro g gs
    simp only [Bool.and_eq_true, bne_iff_ne, closes_iff, List.forall_mem_cons]
    constructor
    · intro h
      obtain ⟨hg, ms, post, he, hms⟩ := h
      exact ⟨ms, post, he, hg, hms⟩
    · intro h
      obtain ⟨ms, post, he, hg, hms⟩ := h
      exact ⟨hg, ms, post, he, hms⟩
  unfold isBracket
  split
  · rename_i g gs
    rw [hmember]
    constructor
    · intro h
      obtain ⟨ms, post, rfl, hms⟩ := h
      exact ⟨⟨'!', false⟩ :: g :: ms, post, rfl, by simp, by simp, by simpa using hms⟩
    · intro h
      obtain ⟨ms, post, he, hne, hnot, hms⟩ := h
      match ms, hne, hnot with
      | [m], _, hnot => exact absurd (by rw [(List.cons.inj he).1]) hnot
      | m :: n :: ms, _, _ =>
        obtain ⟨-, he⟩ := List.cons.inj he
        obtain ⟨rfl, rfl⟩ := List.cons.inj he
        exact ⟨ms, post, rfl, fun x hx => hms x (List.mem_cons_of_mem _ hx)⟩
  · rename_i g gs hfirst
    rw [hmember]
    constructor
    · intro h
      obtain ⟨ms, post, rfl, hms⟩ := h
      refine ⟨g :: ms, post, rfl, by simp, ?_, hms⟩
      intro he
      obtain ⟨rfl, rfl⟩ := List.cons.inj he
      exact hfirst _ _ rfl rfl
    · intro h
      obtain ⟨ms, post, he, hne, -, hms⟩ := h
      cases ms with
      | nil => exact absurd rfl hne
      | cons m ms =>
        obtain ⟨rfl, rfl⟩ := List.cons.inj he
        exact ⟨ms, post, rfl, hms⟩
  · simp

theorem isPattern_iff (w : Word) :
    isPattern w = true ↔ ⟨'*', false⟩ ∈ w ∨ ⟨'?', false⟩ ∈ w ∨
      ∃ pre post, w = pre ++ ⟨'[', false⟩ :: post ∧ isBracket post = true := by
  induction w with
  | nil => simp [isPattern]
  | cons g gs ih =>
    have hglyph : ∀ c : Char, (g.quoted = false ∧ g.char = c) ↔ ⟨c, false⟩ = g := by
      intro c
      cases g
      simp only [Glyph.mk.injEq]
      exact ⟨fun h => ⟨h.2.symm, h.1.symm⟩, fun h => ⟨h.2.symm, h.1.symm⟩⟩
    have hbracket : (∃ pre post, g :: gs = pre ++ ⟨'[', false⟩ :: post ∧ isBracket post = true) ↔
        (⟨'[', false⟩ = g ∧ isBracket gs = true) ∨
          ∃ pre post, gs = pre ++ ⟨'[', false⟩ :: post ∧ isBracket post = true := by
      constructor
      · intro h
        obtain ⟨pre, post, he, hp⟩ := h
        cases pre with
        | nil =>
          obtain ⟨rfl, rfl⟩ := List.cons.inj he
          exact .inl ⟨rfl, hp⟩
        | cons x pre => exact .inr ⟨pre, post, (List.cons.inj he).2, hp⟩
      · intro h
        rcases h with ⟨rfl, hp⟩ | ⟨pre, post, rfl, hp⟩
        · exact ⟨[], gs, rfl, hp⟩
        · exact ⟨g :: pre, post, rfl, hp⟩
    simp only [isPattern, Bool.or_eq_true, Bool.and_eq_true, Bool.not_eq_true', beq_iff_eq, ih, hbracket, List.mem_cons]
    simp only [and_or_left, ← and_assoc, hglyph]
    exact iff_of_eq (by ac_rfl)

/-- Pathname and tilde expansion. Which files a pattern names is for the host to say, also by its
    locale (`[z-a]`). -/
def dependsOnHost (w : Word) : Bool := isPattern w || w.head? == some ⟨'~', false⟩

/-- The argument vector of the command that the line is. -/
def read (line : String) : Except Stop (List String) :=
  match scan .bare none line.toList with
  | .error e => .error e
  | .ok ws =>
    if ws.head?.any isReserved then .error .compound
    else
      let argv := ws.dropWhile isAssignment
      if argv.any dependsOnHost then .error .expands else .ok (argv.map text)

/-! ## Lines without quoting -/

/-- A character that token recognition keeps as it is, before what follows it. -/
def isLiteral (c : Char) (cs : List Char) : Bool :=
  !isBlank c && !isOperator c && !isQuote c && !isExpansion false c cs && (c != '\\' || cs.isEmpty)

/-- A text of literal characters, before the rest of its line. -/
def literals : List Char → List Char → Bool
  | [], _ => true
  | c :: cs, rest => isLiteral c (cs ++ rest) && literals cs rest

/-- An argument that survives the shell as it is, before the rest of its line. -/
def Plain (rest : List Char) (a : String) : Prop :=
  a ≠ "" ∧ literals a.toList rest = true ∧ isPattern (bare a.toList) = false ∧
    a.toList.head? ≠ some '#' ∧ a.toList.head? ≠ some '~'

instance (rest : List Char) : DecidablePred (Plain rest) := fun _ => inferInstanceAs (Decidable (_ ∧ _ ∧ _ ∧ _ ∧ _))

theorem literals_iff (cs rest : List Char) :
    literals cs rest = true ↔ ∀ pre c post, cs = pre ++ c :: post → isLiteral c (post ++ rest) = true := by
  induction cs with
  | nil => simp [literals]
  | cons c cs ih =>
    rw [literals, Bool.and_eq_true, ih]
    constructor
    · intro h pre d post he
      cases pre with
      | nil =>
        obtain ⟨rfl, rfl⟩ := List.cons.inj he
        exact h.1
      | cons x pre => exact h.2 pre d post (List.cons.inj he).2
    · intro h
      refine ⟨h [] c cs rfl, ?_⟩
      intro pre d post he
      exact h (c :: pre) d post (by rw [he, List.cons_append])

theorem peek_blank (post rest : List Char) :
    (peek (post ++ ' ' :: rest)).any (fun d => isParameter d || isQuote d) =
      (peek (post ++ [' '])).any (fun d => isParameter d || isQuote d) := by
  induction post using peek.induct with
  | case1 cs ih => simpa [peek] using ih
  | case2 cs h =>
    cases cs with
    | nil => rfl
    | cons c cs =>
      -- a blank completes no line continuation
      have hcut : ∀ r, peek (c :: cs ++ ' ' :: r) = some c := by
        intro r
        rw [peek]
        · rfl
        · intro ds he
          cases cs with
          | nil => simp at he
          | cons d cs =>
            simp only [List.cons_append, List.cons.injEq] at he
            obtain ⟨rfl, rfl, -⟩ := he
            exact h cs rfl
      rw [hcut, hcut]

/-- A blank ends what a character can be a part of. -/
theorem literals_blank (cs rest : List Char) : literals cs (' ' :: rest) = literals cs [' '] := by
  have hchar : ∀ c post, isLiteral c (post ++ ' ' :: rest) = isLiteral c (post ++ [' ']) := by
    intro c post
    simp only [isLiteral, isExpansion, Bool.not_false, Bool.true_and, peek_blank post rest]
    cases post <;> rfl
  rw [Bool.eq_iff_iff, literals_iff, literals_iff]
  simp only [hchar]

/-- A first argument that is the command's name. -/
def IsCommandName (a : String) : Prop := isReserved (bare a.toList) = false ∧ isAssignment (bare a.toList) = false

instance : DecidablePred IsCommandName := fun a => by unfold IsCommandName; infer_instance

/-! ## A line is at least as long as its words -/

/-- The characters of the words, with one separator for each word. -/
def weight (ws : List Word) : Nat := (ws.map (·.length + 1)).sum

/-- What the word in progress already weighs; the backslash of `doubleEscaped` is still to be pushed. -/
def load (m : Mode) (cur : Option Word) : Nat := (cur.getD []).length + if m = .doubleEscaped then 1 else 0

@[simp] theorem weight_nil : weight [] = 0 := rfl
@[simp] theorem weight_cons (w : Word) (ws : List Word) : weight (w :: ws) = w.length + 1 + weight ws := by
  simp [weight]
@[simp] theorem weight_append (ws vs : List Word) : weight (ws ++ vs) = weight ws + weight vs := by
  simp [weight]

theorem weight_cur (m : Mode) (cur : Option Word) : weight cur.toList ≤ load m cur + 1 := by
  cases cur <;> simp [load]

@[simp] theorem push_length (cur : Option Word) (c : Char) (q : Bool) :
    ((push cur c q).getD []).length = (cur.getD []).length + 1 := by simp [push]

@[simp] theorem opened_getD (cur : Option Word) : (opened cur).getD [] = cur.getD [] := rfl

theorem map_ok {f : List Word → List Word} {r : Except Stop (List Word)} {ws : List Word}
    (h : r.map f = .ok ws) : ∃ vs, r = .ok vs ∧ ws = f vs := by
  cases r with
  | error e => cases h
  | ok vs => cases h; exact ⟨vs, rfl, rfl⟩

/-- What one character does: it separates words, it is kept, or it is spent on quoting or
    a comment (in mode `bare`, nothing is kept then). -/
theorem scan_cons {m : Mode} {cur : Option Word} {c : Char} {cs : List Char} {ws : List Word}
    (h : scan m cur (c :: cs) = .ok ws) :
    (m = .bare ∧ isBlank c = true ∧ ∃ vs, scan .bare none cs = .ok vs ∧ ws = cur.toList ++ vs) ∨
    (m = .bare ∧ isLiteral c cs = true ∧ (cur = none → c ≠ '#') ∧ scan .bare (push cur c false) cs = .ok ws) ∨
    ∃ m' cur', scan m' cur' cs = .ok ws ∧ load m' cur' ≤ load m cur + if m = .bare then 0 else 1 := by
  cases m with
  | bare =>
    simp only [scan] at h
    split_ifs at h with h1 h2 h3 h4 h5 h6 h7
    · exact .inr (.inr ⟨_, _, h, by simp [load]⟩)
    · exact .inr (.inr ⟨_, _, h, by simp [load]⟩)
    · exact .inr (.inr ⟨_, _, h, by simp [load]⟩)
    · obtain ⟨vs, hvs, rfl⟩ := map_ok h
      exact .inl ⟨rfl, h4, vs, hvs, rfl⟩
    · exact .inr (.inr ⟨_, _, h, by simp [load]⟩)
    · refine .inr (.inl ⟨rfl, ?_, fun hc he => h7 ⟨he, hc⟩, h⟩)
      have hend : (c != '\\' || cs.isEmpty) = true := by
        rw [Bool.or_eq_true, bne_iff_ne, List.isEmpty_iff]
        exact (not_and_or.mp h1).imp id not_not.mp
      simp [isLiteral, isQuote, h2, h3, h4, h5, h6, hend]
  | escaped =>
    simp only [scan] at h
    split_ifs at h
    · exact .inr (.inr ⟨_, _, h, by simp [load]⟩)
    · exact .inr (.inr ⟨_, _, h, by simp [load]⟩)
  | single =>
    simp only [scan] at h
    split_ifs at h
    · exact .inr (.inr ⟨_, _, h, by simp [load]⟩)
    · exact .inr (.inr ⟨_, _, h, by simp [load]⟩)
  | double =>
    simp only [scan] at h
    split_ifs at h
    · exact .inr (.inr ⟨_, _, h, by simp [load]⟩)
    · exact .inr (.inr ⟨_, _, h, by simp [load]⟩)
    · exact .inr (.inr ⟨_, _, h, by simp [load]⟩)
  | doubleEscaped =>
    simp only [scan] at h
    split_ifs at h
    · exact .inr (.inr ⟨_, _, h, by simp [load]; omega⟩)
    · exact .inr (.inr ⟨_, _, h, by simp [load]⟩)
    · exact .inr (.inr ⟨_, _, h, by simp [load]⟩)
  | comment =>
    simp only [scan] at h
    split_ifs at h
    exact .inr (.inr ⟨_, _, h, by simp [load]⟩)

theorem scan_nil {m : Mode} {cur : Option Word} {ws : List Word} (h : scan m cur [] = .ok ws) :
    ws = cur.toList := by
  cases m <;> simp only [scan, Except.ok.injEq, reduceCtorEq] at h
  · exact h.symm
  · exact h.symm

theorem scan_weight : ∀ (cs : List Char) (m : Mode) (cur : Option Word) (ws : List Word),
    scan m cur cs = .ok ws → weight ws ≤ cs.length + load m cur + 1 := by
  intro cs
  induction cs with
  | nil =>
    intro m cur ws h
    rw [scan_nil h]
    have := weight_cur m cur
    simp only [List.length_nil]; omega
  | cons c cs ih =>
    intro m cur ws h
    simp only [List.length_cons]
    rcases scan_cons h with ⟨rfl, -, vs, hvs, rfl⟩ | ⟨rfl, -, -, h⟩ | ⟨m', cur', h, hl⟩
    · have h1 := ih _ _ _ hvs
      have h2 := weight_cur .bare cur
      have h3 : load .bare none = 0 := rfl
      rw [weight_append]; omega
    · have h1 := ih _ _ _ h
      simp only [load, push_length, reduceCtorEq, if_false] at h1 ⊢; omega
    · have h1 := ih _ _ _ h
      split_ifs at hl <;> omega

/-- A word that token recognition took without removing anything. -/
def Untouched (w : Word) : Prop :=
  w ≠ [] ∧ (∀ g ∈ w, g.quoted = false ∧ isBlank g.char = false) ∧ w.head? ≠ some ⟨'#', false⟩

theorem untouched_push {cur : Option Word} (hcur : ∀ w ∈ cur, Untouched w) {c : Char} (hc : isBlank c = false)
    (hh : cur = none → c ≠ '#') : ∀ w ∈ push cur c false, Untouched w := by
  intro w hw
  obtain rfl : cur.getD [] ++ [⟨c, false⟩] = w := by simpa [push] using hw
  cases cur with
  | none => exact ⟨by simp, by simpa using hc, by simpa using hh rfl⟩
  | some w =>
    obtain ⟨h1, h2, h3⟩ := hcur w rfl
    refine ⟨by simp, fun g hg => ?_, ?_⟩
    · rcases List.mem_append.mp hg with hg | hg
      · exact h2 g hg
      · simp only [List.mem_singleton] at hg; subst hg; exact ⟨rfl, hc⟩
    · simpa [List.head?_append_of_ne_nil _ h1] using h3

/-- A line in which only blanks are no literals. -/
def kept : List Char → Bool
  | [] => true
  | c :: cs => (isBlank c || isLiteral c cs) && kept cs

theorem isBlank_of_isLiteral {c : Char} {cs : List Char} (h : isLiteral c cs = true) : isBlank c = false := by
  simp only [isLiteral, Bool.and_eq_true, Bool.not_eq_true'] at h
  exact h.1.1.1.1

/-- A line as long as its words allow was read without removing a character. -/
theorem scan_tight : ∀ (cs : List Char) (cur : Option Word) (ws : List Word), (∀ w ∈ cur, Untouched w) →
    scan .bare cur cs = .ok ws → cs.length + load .bare cur + 1 ≤ weight ws →
    kept cs = true ∧ ∀ w ∈ ws, Untouched w := by
  intro cs
  induction cs with
  | nil =>
    intro cur ws hcur h _
    rw [scan_nil h]
    exact ⟨rfl, by simpa using hcur⟩
  | cons c cs ih =>
    intro cur ws hcur h hw
    simp only [List.length_cons] at hw
    rw [kept, Bool.and_eq_true, Bool.or_eq_true]
    rcases scan_cons h with ⟨-, hc, vs, hvs, rfl⟩ | ⟨-, hc, hh, h⟩ | ⟨m', cur', h, hl⟩
    · rw [weight_append] at hw
      have h1 := weight_cur .bare cur
      obtain ⟨hk, hvs'⟩ := ih none vs (by simp) hvs (by have h3 : load .bare none = 0 := rfl; omega)
      refine ⟨⟨.inl hc, hk⟩, ?_⟩
      intro w hm
      rcases List.mem_append.mp hm with hm | hm
      · exact hcur w (by simpa using hm)
      · exact hvs' w hm
    · have hload : cs.length + load .bare (push cur c false) + 1 ≤ weight ws := by
        simp only [load, push_length, reduceCtorEq, if_false] at hw ⊢; omega
      obtain ⟨hk, hut⟩ := ih _ ws (untouched_push hcur (isBlank_of_isLiteral hc) hh) h hload
      exact ⟨⟨.inr hc, hk⟩, hut⟩
    · have h1 := scan_weight _ _ _ _ h
      simp only [if_true] at hl; omega

/-! ## Joined arguments -/

/-- What joining with single spaces gives. -/
def join (args : List String) : String := " ".intercalate args

theorem join_cons_cons (a b : String) (args : List String) :
    (join (a :: b :: args)).toList = a.toList ++ ' ' :: (join (b :: args)).toList := by
  simp [join, String.intercalate_cons_cons]

theorem join_weight (a : String) (args : List String) :
    (join (a :: args)).toList.length + 1 = ((a :: args).map (·.toList.length + 1)).sum := by
  induction args generalizing a with
  | nil => simp [join]
  | cons b args ih =>
    rw [join_cons_cons, List.map_cons, List.sum_cons, ← ih b]
    simp only [List.length_append, List.length_cons]; omega

@[simp] theorem text_bare (a : String) : text (bare a.toList) = a := by
  simp [text, bare, Function.comp_def]

theorem weight_text (ws : List Word) : weight ws = ((ws.map text).map (·.toList.length + 1)).sum := by
  simp [weight, text, Function.comp_def]

theorem scan_literal {c : Char} {cs : List Char} (hc : isLiteral c cs = true) (cur : Option Word) (hh : cur = none → c ≠ '#') :
    scan .bare cur (c :: cs) = scan .bare (push cur c false) cs := by
  simp only [isLiteral, Bool.and_eq_true, Bool.not_eq_true', Bool.or_eq_true, bne_iff_ne, List.isEmpty_iff] at hc
  obtain ⟨⟨⟨⟨h1, h2⟩, h3⟩, h4⟩, hend⟩ := hc
  have hq : c ≠ '\'' ∧ c ≠ '"' := by simpa [isQuote] using h3
  have h0 : ¬ (c = '\\' ∧ cs ≠ []) := not_and_or.mpr (hend.imp id not_not_intro)
  have h5 : ¬ (c = '#' ∧ cur = none) := fun h => hh h.2 h.1
  simp only [scan, h0, hq.1, hq.2, h1, h2, h4, h5, if_false, Bool.false_eq_true]

theorem scan_literals {cs rest : List Char} (h : literals cs rest = true) (w : Word) :
    scan .bare (some w) (cs ++ rest) = scan .bare (some (w ++ bare cs)) rest := by
  induction cs generalizing w with
  | nil => simp [bare]
  | cons c cs ih =>
    obtain ⟨hc, hcs⟩ := Bool.and_eq_true_iff.mp h
    rw [List.cons_append, scan_literal hc _ (by simp)]
    have := ih hcs (w ++ [⟨c, false⟩])
    simpa [push, bare] using this

theorem scan_plain {rest : List Char} {a : String} (ha : Plain rest a) :
    scan .bare none (a.toList ++ rest) = scan .bare (some (bare a.toList)) rest := by
  obtain ⟨hne, hl, -, hh, -⟩ := ha
  cases hcs : a.toList with
  | nil => exact absurd (by simpa using hcs) hne
  | cons c cs =>
    rw [hcs] at hl hh
    obtain ⟨hc, hcs⟩ := Bool.and_eq_true_iff.mp hl
    rw [List.cons_append, scan_literal hc none (fun _ he => hh (by simp [he]))]
    have := scan_literals hcs [⟨c, false⟩]
    simpa [push, bare] using this

/-- Each argument survives: the last one before the end of the line, the others before a blank. -/
def AllPlain (args : List String) : Prop := (∀ a ∈ args.dropLast, Plain [' '] a) ∧ ∀ a ∈ args.getLast?, Plain [] a

instance : DecidablePred AllPlain := fun args => by unfold AllPlain; infer_instance

theorem allPlain_singleton {a : String} : AllPlain [a] ↔ Plain [] a := by simp [AllPlain]

theorem allPlain_cons_cons {a b : String} {args : List String} :
    AllPlain (a :: b :: args) ↔ Plain [' '] a ∧ AllPlain (b :: args) := by
  simp [AllPlain, and_assoc]

theorem mem_allPlain {args : List String} (h : AllPlain args) {a : String} (ha : a ∈ args) : ∃ rest, Plain rest a := by
  obtain ⟨hinit, hlast⟩ := h
  rcases List.eq_nil_or_concat args with rfl | ⟨init, last, rfl⟩
  · cases ha
  · rw [List.concat_eq_append, List.mem_append, List.mem_singleton] at ha
    rcases ha with ha | rfl
    · exact ⟨_, hinit a (by simpa using ha)⟩
    · exact ⟨_, hlast a (by simp)⟩

/-- Plain arguments joined by single spaces are recognized as they are. -/
theorem scan_join (args : List String) (h : AllPlain args) :
    scan .bare none (join args).toList = .ok (args.map fun a => bare a.toList) := by
  induction args with
  | nil => rfl
  | cons a args ih =>
    cases args with
    | nil =>
      have := scan_plain (allPlain_singleton.mp h)
      simpa [join, scan] using this
    | cons b args =>
      obtain ⟨⟨hne, hl, ha⟩, hargs⟩ := allPlain_cons_cons.mp h
      have hline : Plain (' ' :: (join (b :: args)).toList) a := ⟨hne, (literals_blank _ _).trans hl, ha⟩
      rw [join_cons_cons, scan_plain hline]
      have hs : scan .bare (some (bare a.toList)) (' ' :: (join (b :: args)).toList) =
          (scan .bare none (join (b :: args)).toList).map ([bare a.toList] ++ ·) := rfl
      rw [hs, ih hargs]
      rfl

/-- An argument vector that needs no quoting. -/
def Verbatim (args : List String) : Prop := AllPlain args ∧ ∀ a ∈ args.head?, IsCommandName a

instance : DecidablePred Verbatim := fun args => by unfold Verbatim; infer_instance

theorem plain_dependsOnHost {rest : List Char} {a : String} (ha : Plain rest a) : dependsOnHost (bare a.toList) = false := by
  obtain ⟨-, -, hp, -, ht⟩ := ha
  rw [dependsOnHost, hp, Bool.false_or]
  simpa [bare] using ht

theorem read_join {args : List String} (h : Verbatim args) : read (join args) = .ok args := by
  obtain ⟨hp, hn⟩ := h
  have hd : (args.map fun a => bare a.toList).dropWhile isAssignment = args.map fun a => bare a.toList := by
    cases args with
    | nil => rfl
    | cons a args => simp [(hn a rfl).2]
  have hr : ((args.map fun a => bare a.toList).head?.any isReserved) = false := by
    cases args with
    | nil => rfl
    | cons a args => simpa using (hn a rfl).1
  have hh : (args.map fun a => bare a.toList).any dependsOnHost = false := by
    have hall : ∀ a ∈ args, dependsOnHost (bare a.toList) = false := by
      intro a ha
      obtain ⟨rest, hplain⟩ := mem_allPlain hp ha
      exact plain_dependsOnHost hplain
    simpa using hall
  simp only [read, scan_join args hp, hr, hd, hh, Bool.false_eq_true, if_false, List.map_map]
  congr 1
  simp [Function.comp_def]

theorem untouched_eq {w : Word} (h : Untouched w) : bare (text w).toList = w := by
  obtain ⟨-, hg, -⟩ := h
  simp only [bare, text, String.toList_ofList, List.map_map]
  refine (List.map_congr_left fun g hw => ?_).trans (List.map_id w)
  have hq := (hg g hw).1
  cases g
  simp only [Function.comp_apply, id_eq, Glyph.mk.injEq, true_and] at hq ⊢
  exact hq.symm

theorem plain_of_untouched {w : Word} (h : Untouched w) (hd : dependsOnHost w = false) {rest : List Char}
    (hl : literals (text w).toList rest = true) : Plain rest (text w) := by
  have hw : bare (text w).toList = w := untouched_eq h
  obtain ⟨hne, hg, hh⟩ := h
  rw [← hw] at hd hh hg hne
  simp only [dependsOnHost, Bool.or_eq_false_iff, beq_eq_false_iff_ne] at hd
  obtain ⟨hp, ht⟩ := hd
  exact ⟨fun he => hne (by simp [he, bare]), hl, hp, fun he => hh (by simp [bare, he]), fun he => ht (by simp [bare, he])⟩

theorem kept_append {cs : List Char} (h : ∀ c ∈ cs, isBlank c = false) (rest : List Char) :
    kept (cs ++ rest) = (literals cs rest && kept rest) := by
  induction cs with
  | nil => rfl
  | cons c cs ih =>
    rw [List.cons_append, kept, h c List.mem_cons_self, ih fun d hd => h d (List.mem_cons_of_mem _ hd), literals,
      Bool.false_or, Bool.and_assoc]

/-- Where the line is kept, each argument is literal before what follows it. -/
theorem allPlain_of_kept {args : List String} (hblank : ∀ a ∈ args, ∀ c ∈ a.toList, isBlank c = false)
    (hplain : ∀ a ∈ args, ∀ rest, literals a.toList rest = true → Plain rest a) (h : kept (join args).toList = true) :
    AllPlain args := by
  induction args with
  | nil => simp [AllPlain]
  | cons a args ih =>
    have ha := hblank a List.mem_cons_self
    have hpa := hplain a List.mem_cons_self
    cases args with
    | nil =>
      have hjoin : (join [a]).toList = a.toList ++ [] := by simp [join]
      rw [hjoin, kept_append ha, Bool.and_eq_true] at h
      exact allPlain_singleton.mpr (hpa _ h.1)
    | cons b args =>
      rw [join_cons_cons, kept_append ha, Bool.and_eq_true, literals_blank, kept, Bool.and_eq_true] at h
      refine allPlain_cons_cons.mpr ⟨hpa _ h.1, ?_⟩
      exact ih (fun x hx => hblank x (List.mem_cons_of_mem _ hx)) (fun x hx => hplain x (List.mem_cons_of_mem _ hx)) h.2.2

/-- The words of a joined vector that reads back as itself fill the whole line. -/
theorem verbatim_of_read {args : List String} (h : read (join args) = .ok args) : Verbatim args := by
  cases args with
  | nil => exact ⟨by simp [AllPlain], by simp⟩
  | cons a args =>
    simp only [read] at h
    split at h
    · cases h
    rename_i ws hws
    split_ifs at h with hr hd
    simp only [Except.ok.injEq] at h
    have hle := scan_weight _ _ _ _ hws
    have h0 : load .bare none = 0 := rfl
    have hargs : weight (ws.dropWhile isAssignment) = (join (a :: args)).toList.length + 1 := by
      rw [weight_text, h, join_weight]
    have hsplit : weight (ws.takeWhile isAssignment) + weight (ws.dropWhile isAssignment) = weight ws := by
      rw [← weight_append, List.takeWhile_append_dropWhile]
    have htake : ws.takeWhile isAssignment = [] := by
      cases ht : ws.takeWhile isAssignment with
      | nil => rfl
      | cons w vs => rw [ht, weight_cons] at hsplit; omega
    have hdrop : ws.dropWhile isAssignment = ws := by
      have := List.takeWhile_append_dropWhile (p := isAssignment) (l := ws)
      rwa [htake, List.nil_append] at this
    rw [hdrop] at h hd hargs
    obtain ⟨hkept, hut⟩ := scan_tight _ none ws (by simp) hws (by omega)
    have hd' : ∀ w ∈ ws, dependsOnHost w = false := by simpa using hd
    refine ⟨allPlain_of_kept ?_ ?_ hkept, ?_⟩
    · intro b hb c hc
      rw [← h] at hb
      obtain ⟨w, hw, rfl⟩ := List.mem_map.mp hb
      have hg := (hut w hw).2.1
      rw [← untouched_eq (hut w hw)] at hg
      exact (hg ⟨c, false⟩ (List.mem_map_of_mem hc)).2
    · intro b hb rest hl
      rw [← h] at hb
      obtain ⟨w, hw, rfl⟩ := List.mem_map.mp hb
      exact plain_of_untouched (hut w hw) (hd' w hw) hl
    · cases ws with
      | nil => cases h
      | cons w ws =>
        obtain ⟨rfl, -⟩ := List.cons.inj h
        intro _ hmem
        cases hmem
        rw [IsCommandName, untouched_eq (hut w (by simp))]
        refine ⟨by simpa using hr, ?_⟩
        by_contra hc
        simp [List.takeWhile_cons, hc] at htake

theorem read_join_iff (args : List String) : read (join args) = .ok args ↔ Verbatim args :=
  ⟨verbatim_of_read, read_join⟩

example : Verbatim ["docker", "ps", "--filter", "name=["] ∧ ¬ Verbatim ["docker", "ps", "--filter", "name=[ab]"] ∧
    Verbatim ["docker", "ps", "--filter", "name=web$"] ∧ ¬ Verbatim ["docker", "ps", "--filter", "name=$web"] := by decide

end LogSump.Posix.Shell
