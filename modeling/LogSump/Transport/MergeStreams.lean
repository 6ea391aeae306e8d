/-
  LogSump.Transport.MergeStreams — `_merge_streams`: two pump tasks read a subprocess's
  stdout and stderr and put the lines, and a `None` at end of file, on one unbounded queue;
  the generator takes them off, counts the `None`s down in `remaining` and yields the rest.

  Each subprocess output ends by EOF or by a read error (`StreamReader` raises `ValueError`
  on a line over its limit). A pump that meets EOF puts its `None` and is done. A pump that
  meets a read error ends by the exception, and puts nothing: the marker stands after
  the loop, not in a `finally`.

  One event is one task's turn between two suspensions: a pump reads, the generator takes
  an item, the consumer asks for the next line, or it closes the generator (which cancels
  the pumps).

  - `Inv.accounts`: `remaining` is the number of pumps that have not sent their marker plus
    the markers on the queue.
  - `step_work`: every turn lowers the work left, so every schedule is finite.
  - `never_hangs_iff`: the merge never hangs exactly when both outputs end by EOF.
  - `a_read_error_hangs_the_merge`: one over-long line on stdout, nothing on stderr.
-/

import LogSump.Foundation.Machine

namespace LogSump.Transport.MergeStreams

open Foundation

inductive StreamName where
  | stdout
  | stderr
  deriving DecidableEq, Repr

/-- `StreamLine`. -/
structure StreamLine where
  stream : StreamName
  text : String
  deriving DecidableEq, Repr

inductive Ending where
  | eof
  | readError
  deriving DecidableEq, Repr

/-- What the subprocess writes to one stream: the lines that are read, and how it ends. -/
structure Output (Raw : Type) where
  lines : List Raw
  ending : Ending

inductive TaskSt where
  | running
  | done
  | failed
  | cancelled
  deriving DecidableEq, Repr

structure Pump (Raw : Type) where
  input : List Raw
  ending : Ending
  task : TaskSt

inductive GenSt where
  /-- In `await queue.get()`. -/
  | getting
  /-- Suspended at `yield`. -/
  | yielded
  | ended
  /-- `aclose()`d by the consumer, or cancelled in it. -/
  | closed
  deriving DecidableEq, Repr

structure St (Raw : Type) where
  pumps : StreamName → Pump Raw
  queue : List (Option StreamLine)
  remaining : Nat
  gen : GenSt
  yielded : List StreamLine

inductive Ev where
  | pump (n : StreamName)
  | get
  | next
  | close
  deriving DecidableEq, Repr

variable {Raw : Type} (decode : Raw → String)

def setPump (s : St Raw) (n : StreamName) (p : Pump Raw) : St Raw := { s with pumps := Function.update s.pumps n p }

/-- The pump's task until it suspends again: one line, or the end of its stream. -/
def pump (s : St Raw) (n : StreamName) : St Raw :=
  let p := s.pumps n
  match p.input with
  | raw :: rest =>
    { setPump s n { p with input := rest } with queue := s.queue ++ [some ⟨n, decode raw⟩] }
  | [] =>
    match p.ending with
    | .eof => { setPump s n { p with task := .done } with queue := s.queue ++ [none] }
    -- the exception leaves `async for`, so no `None` is put
    | .readError => setPump s n { p with task := .failed }

def cancel (p : Pump Raw) : Pump Raw := if p.task = .running then { p with task := .cancelled } else p

/-- The `finally` block: both pumps are cancelled. -/
def cancelPumps (s : St Raw) : St Raw := { s with pumps := fun n => cancel (s.pumps n) }

def get (s : St Raw) : Option (St Raw) :=
  match s.queue with
  | [] => none
  | some line :: q => some { s with queue := q, gen := .yielded, yielded := s.yielded ++ [line] }
  | none :: q =>
    let s := { s with queue := q, remaining := s.remaining - 1 }
    some (if 0 < s.remaining then s else { cancelPumps s with gen := .ended })

def step (s : St Raw) : Ev → Option (St Raw)
  | .pump n => if (s.pumps n).task = .running then some (pump decode s n) else none
  | .get => if s.gen = .getting then get s else none
  | .next => if s.gen = .yielded then some { s with gen := .getting } else none
  | .close => if s.gen = .getting ∨ s.gen = .yielded then some { cancelPumps s with gen := .closed } else none

/-- The generator's first turn: the pumps are created and it waits for an item. -/
def start (out : StreamName → Output Raw) : St Raw :=
  ⟨fun n => ⟨(out n).lines, (out n).ending, .running⟩, [], 2, .getting, []⟩

def machine (out : StreamName → Output Raw) : Machine (St Raw) Ev := ⟨(· = start out), step decode⟩

/-- Both pumps have ended, the queue is empty and the generator waits for a marker. -/
def Stuck (s : St Raw) : Prop :=
  (∀ n, (s.pumps n).task ≠ .running) ∧ s.queue = [] ∧ s.gen = .getting ∧ 0 < s.remaining

def Finished (s : St Raw) : Prop := s.gen = .ended ∨ s.gen = .closed

/-- Only closing the generator is left. -/
def Quiescent (s : St Raw) : Prop := ∀ e, e ≠ .close → step decode s e = none

/-! ## Steps -/

@[simp] theorem setPump_same (s : St Raw) (n : StreamName) (p : Pump Raw) : (setPump s n p).pumps n = p := by
  simp [setPump]

/-- The state after pump `n` became `p` and put `items`. -/
def pumped (s : St Raw) (n : StreamName) (p : Pump Raw) (items : List (Option StreamLine)) : St Raw :=
  { setPump s n p with queue := s.queue ++ items }

/-- A pump's turn: a line, the end of file or a read error. -/
theorem pump_cases (s : St Raw) (n : StreamName) : ∃ p items, pump decode s n = pumped s n p items ∧
    p.ending = (s.pumps n).ending ∧
    ((∃ raw, (s.pumps n).input = raw :: p.input ∧ p.task = (s.pumps n).task ∧ items = [some ⟨n, decode raw⟩]) ∨
      ((s.pumps n).input = [] ∧ p.input = [] ∧ p.ending = .eof ∧ p.task = .done ∧ items = [none]) ∨
      ((s.pumps n).input = [] ∧ p.input = [] ∧ p.ending = .readError ∧ p.task = .failed ∧ items = [])) := by
  rcases hi : (s.pumps n).input with _ | ⟨raw, rest⟩
  · cases he : (s.pumps n).ending with
    | eof => exact ⟨{ s.pumps n with task := .done }, [none], by simp [pump, hi, he, pumped], he, .inr (.inl ⟨rfl, hi, he, rfl, rfl⟩)⟩
    | readError =>
      exact ⟨{ s.pumps n with task := .failed }, [], by simp [pump, hi, he, pumped, setPump], he, .inr (.inr ⟨rfl, hi, he, rfl, rfl⟩)⟩
  · exact ⟨{ s.pumps n with input := rest }, _, by simp [pump, hi, pumped], rfl, .inl ⟨raw, rfl, rfl, rfl⟩⟩

/-- The generator's turn: it waits, yields a line, counts a marker, or ends. -/
theorem get_cases {s s' : St Raw} (h : get s = some s') :
    (∃ line q, s.queue = some line :: q ∧
      s' = { s with queue := q, gen := .yielded, yielded := s.yielded ++ [line] }) ∨
    (∃ q, s.queue = none :: q ∧ 1 < s.remaining ∧ s' = { s with queue := q, remaining := s.remaining - 1 }) ∨
    (∃ q, s.queue = none :: q ∧ s.remaining ≤ 1 ∧
      s' = { cancelPumps { s with queue := q, remaining := s.remaining - 1 } with gen := .ended }) := by
  simp only [get] at h
  split at h
  · cases h
  · rename_i line q hq
    cases h
    exact .inl ⟨line, q, hq, rfl⟩
  · rename_i q hq
    simp only [Option.some.injEq] at h
    subst h
    split
    · exact .inr (.inl ⟨q, hq, by omega, rfl⟩)
    · exact .inr (.inr ⟨q, hq, by omega, rfl⟩)

/-! ## Accounting -/

/-- Whether the pump still has to send its marker. -/
def owes (p : Pump Raw) : Nat := if p.task = .done then 0 else 1

def owed (f : StreamName → Pump Raw) : Nat := owes (f .stdout) + owes (f .stderr)

/-- A pump's task ends the way its stream does. -/
structure PumpsOk (out : StreamName → Output Raw) (f : StreamName → Pump Raw) : Prop where
  endings : ∀ n, (f n).ending = (out n).ending
  doneEof : ∀ n, (f n).task = .done → (out n).ending = .eof
  failedError : ∀ n, (f n).task = .failed → (out n).ending = .readError

structure Inv (out : StreamName → Output Raw) (s : St Raw) : Prop where
  pumpsOk : PumpsOk out s.pumps
  accounts : ¬ Finished s → s.remaining = owed s.pumps + s.queue.count none
  waiting : ¬ Finished s → 0 < s.remaining ∧ ∀ n, (s.pumps n).task ≠ .cancelled
  endedDone : s.gen = .ended → ∀ n, (s.pumps n).task = .done

theorem owed_update (f : StreamName → Pump Raw) (n : StreamName) (p : Pump Raw) :
    owed (Function.update f n p) + owes (f n) = owed f + owes p := by
  cases n <;> simp [owed] <;> omega

theorem cancel_ending (p : Pump Raw) : (cancel p).ending = p.ending := by unfold cancel; split <;> rfl

theorem cancel_task (p : Pump Raw) : (cancel p).task = p.task ∨ (cancel p).task = .cancelled := by
  unfold cancel
  split
  · exact .inr rfl
  · exact .inl rfl

theorem PumpsOk.cancel {out : StreamName → Output Raw} {f : StreamName → Pump Raw} (h : PumpsOk out f) :
    PumpsOk out fun n => cancel (f n) := by
  refine ⟨fun n => (cancel_ending _).trans (h.endings n), fun n hn => ?_, fun n hn => ?_⟩
  · rcases cancel_task (f n) with e | e
    · exact h.doneEof n (e ▸ hn)
    · exact absurd (e.symm.trans hn) (by simp)
  · rcases cancel_task (f n) with e | e
    · exact h.failedError n (e ▸ hn)
    · exact absurd (e.symm.trans hn) (by simp)

theorem PumpsOk.update {out : StreamName → Output Raw} {f : StreamName → Pump Raw} (h : PumpsOk out f)
    {n : StreamName} {p : Pump Raw} (he : p.ending = (f n).ending) (hd : p.task = .done → p.ending = .eof)
    (hf : p.task = .failed → p.ending = .readError) : PumpsOk out (Function.update f n p) := by
  have hout := h.endings n
  refine ⟨fun m => ?_, fun m hm => ?_, fun m hm => ?_⟩ <;> by_cases e : m = n
  · subst e; rw [Function.update_self, he, hout]
  · rw [Function.update_of_ne e]; exact h.endings m
  · subst e; rw [Function.update_self] at hm; rw [← hout, ← he]; exact hd hm
  · rw [Function.update_of_ne e] at hm; exact h.doneEof m hm
  · subst e; rw [Function.update_self] at hm; rw [← hout, ← he]; exact hf hm
  · rw [Function.update_of_ne e] at hm; exact h.failedError m hm

theorem start_inv (out : StreamName → Output Raw) : Inv out (start out) := by
  refine ⟨⟨fun _ => rfl, ?_, ?_⟩, fun _ => rfl, fun _ => ⟨?_, ?_⟩, ?_⟩
  all_goals simp [start]

theorem pump_inv {out : StreamName → Output Raw} {s : St Raw} {n : StreamName} (hi : Inv out s)
    (hr : (s.pumps n).task = .running) : Inv out (pump decode s n) := by
  obtain ⟨p, items, hp, he, hc⟩ := pump_cases decode s n
  have howed := owed_update s.pumps n p
  have hok : PumpsOk out (pumped s n p items).pumps := hi.pumpsOk.update he (by grind) (by grind)
  rw [hp]
  refine ⟨hok, fun hf => ?_, fun hf => ⟨(hi.waiting hf).1, fun m => ?_⟩,
    fun hg => absurd (hi.endedDone hg n) (by simp [hr])⟩
  · have hacc := hi.accounts hf
    have h1 : owes (s.pumps n) = 1 := by simp [owes, hr]
    show s.remaining = owed (Function.update s.pumps n p) + (s.queue ++ items).count none
    rw [List.count_append]
    rcases hc with ⟨raw, -, ht, rfl⟩ | ⟨-, -, -, ht, rfl⟩ | ⟨-, -, -, ht, rfl⟩
    · have h2 : owes p = 1 := by simp [owes, ht, hr]
      simp; omega
    · have h2 : owes p = 0 := by simp [owes, ht]
      simp; omega
    · have h2 : owes p = 1 := by simp [owes, ht]
      simp; omega
  · show (Function.update s.pumps n p m).task ≠ .cancelled
    by_cases e : m = n
    · subst e; rw [Function.update_self]; grind
    · rw [Function.update_of_ne e]; exact (hi.waiting hf).2 m

theorem get_inv {out : StreamName → Output Raw} {s s' : St Raw} (hi : Inv out s) (hg : s.gen = .getting)
    (h : get s = some s') : Inv out s' := by
  have hf : ¬ Finished s := by simp [Finished, hg]
  have hacc := hi.accounts hf
  have hw := hi.waiting hf
  rcases get_cases h with ⟨line, q, hq, rfl⟩ | ⟨q, hq, hr, rfl⟩ | ⟨q, hq, hr, rfl⟩
  · exact ⟨hi.pumpsOk, fun _ => by rw [hq] at hacc; simpa using hacc, fun _ => hw, fun he => by cases he⟩
  · rw [hq, List.count_cons_self] at hacc
    refine ⟨hi.pumpsOk, fun _ => ?_, fun _ => ⟨?_, hw.2⟩, fun he => absurd (hg.symm.trans he) (by simp)⟩
    · show s.remaining - 1 = owed s.pumps + q.count none; omega
    · show 0 < s.remaining - 1; omega
  · rw [hq, List.count_cons_self] at hacc
    refine ⟨hi.pumpsOk.cancel, fun h => absurd (.inl rfl) h, fun h => absurd (.inl rfl) h, fun _ n => ?_⟩
    -- nothing is owed any more, so cancelling finds both tasks done
    have hn : (s.pumps n).task = .done := by
      have h0 : owes (s.pumps n) = 0 := by cases n <;> simp only [owed] at hacc <;> omega
      by_contra hd
      simp [owes, hd] at h0
    show (cancel (s.pumps n)).task = .done
    simp [cancel, hn]

theorem step_inv {out : StreamName → Output Raw} {s : St Raw} {e : Ev} {s' : St Raw} (hi : Inv out s)
    (h : step decode s e = some s') : Inv out s' := by
  cases e with
  | pump n =>
    simp only [step, Option.ite_none_right_eq_some, Option.some.injEq] at h
    obtain ⟨hr, rfl⟩ := h
    exact pump_inv decode hi hr
  | get =>
    simp only [step, Option.ite_none_right_eq_some] at h
    exact get_inv hi h.1 h.2
  | next =>
    simp only [step, Option.ite_none_right_eq_some, Option.some.injEq] at h
    obtain ⟨hg, rfl⟩ := h
    have hf : ¬ Finished s := by simp [Finished, hg]
    exact ⟨hi.pumpsOk, fun _ => hi.accounts hf, fun _ => hi.waiting hf, fun he => by cases he⟩
  | close =>
    simp only [step, Option.ite_none_right_eq_some, Option.some.injEq] at h
    obtain ⟨-, rfl⟩ := h
    exact ⟨hi.pumpsOk.cancel, fun h => absurd (.inr rfl) h, fun h => absurd (.inr rfl) h, fun he => by cases he⟩

theorem reach_inv {out : StreamName → Output Raw} {s : St Raw} (h : (machine decode out).Reach s) : Inv out s := by
  refine h.inv (I := Inv out) (fun t ht => ?_) fun _ _ _ hi hs => step_inv decode hi hs
  obtain rfl : t = start out := ht
  exact start_inv out

/-! ## Progress -/

/-- A line still has to be read, taken and asked past; a marker to be sent and taken. -/
def pumpWork (p : Pump Raw) : Nat := if p.task = .running then 3 * p.input.length + 2 else 0

def itemWork : Option StreamLine → Nat
  | some _ => 2
  | none => 1

def genWork : GenSt → Nat
  | .getting => 1
  | .yielded => 2
  | _ => 0

def work (s : St Raw) : Nat :=
  pumpWork (s.pumps .stdout) + pumpWork (s.pumps .stderr) + (s.queue.map itemWork).sum + genWork s.gen

theorem pumpWork_cancel (p : Pump Raw) : pumpWork (cancel p) ≤ pumpWork p := by
  unfold cancel
  split
  · simp [pumpWork]
  · exact Nat.le_refl _

theorem pumpWork_update (f : StreamName → Pump Raw) (n : StreamName) (p : Pump Raw) :
    pumpWork (Function.update f n p .stdout) + pumpWork (Function.update f n p .stderr) + pumpWork (f n) =
      pumpWork (f .stdout) + pumpWork (f .stderr) + pumpWork p := by
  cases n <;> simp <;> omega

theorem pump_work (s : St Raw) (n : StreamName) (hr : (s.pumps n).task = .running) :
    work (pump decode s n) < work s := by
  obtain ⟨p, items, hp, -, hc⟩ := pump_cases decode s n
  have hu := pumpWork_update s.pumps n p
  rw [hp]
  show pumpWork (Function.update s.pumps n p .stdout) + pumpWork (Function.update s.pumps n p .stderr) +
    ((s.queue ++ items).map itemWork).sum + genWork s.gen < work s
  simp only [work, List.map_append, List.sum_append]
  rcases hc with ⟨raw, hin, ht, rfl⟩ | ⟨hin, -, -, ht, rfl⟩ | ⟨hin, -, -, ht, rfl⟩
  · simp only [pumpWork, ht, hr, hin, List.length_cons, if_true, List.map_cons, List.map_nil, List.sum_cons,
      List.sum_nil, itemWork] at hu ⊢
    omega
  · simp only [pumpWork, ht, hr, hin, List.length_nil, if_true, List.map_cons, List.map_nil, List.sum_cons,
      List.sum_nil, itemWork, reduceCtorEq, if_false] at hu ⊢
    omega
  · simp only [pumpWork, ht, hr, hin, List.length_nil, if_true, List.map_nil, List.sum_nil, reduceCtorEq,
      if_false] at hu ⊢
    omega

theorem get_work {s s' : St Raw} (hg : s.gen = .getting) (h : get s = some s') : work s' < work s := by
  rcases get_cases h with ⟨line, q, hq, rfl⟩ | ⟨q, hq, -, rfl⟩ | ⟨q, hq, -, rfl⟩
  · simp only [work, hq, hg, List.map_cons, List.sum_cons, itemWork, genWork]; omega
  · simp only [work, hq, List.map_cons, List.sum_cons, itemWork]; omega
  · have h1 := pumpWork_cancel (s.pumps .stdout)
    have h2 := pumpWork_cancel (s.pumps .stderr)
    simp only [work, cancelPumps, hq, List.map_cons, List.sum_cons, itemWork, genWork]; omega

/-- Every turn lowers the work left, so every schedule is finite. -/
theorem step_work (s : St Raw) (e : Ev) (s' : St Raw) (h : step decode s e = some s') : work s' < work s := by
  cases e with
  | pump n =>
    simp only [step, Option.ite_none_right_eq_some, Option.some.injEq] at h
    obtain ⟨hr, rfl⟩ := h
    exact pump_work decode s n hr
  | get =>
    simp only [step, Option.ite_none_right_eq_some] at h
    exact get_work h.1 h.2
  | next =>
    simp only [step, Option.ite_none_right_eq_some, Option.some.injEq] at h
    obtain ⟨hg, rfl⟩ := h
    simp only [work, hg, genWork]; omega
  | close =>
    simp only [step, Option.ite_none_right_eq_some, Option.some.injEq] at h
    obtain ⟨hg, rfl⟩ := h
    have h1 := pumpWork_cancel (s.pumps .stdout)
    have h2 := pumpWork_cancel (s.pumps .stderr)
    rcases hg with hg | hg <;> simp only [work, cancelPumps, hg, genWork] <;> omega

/-- Where only closing is left and the generator has not finished, it is stuck. -/
theorem quiescent_stuck {out : StreamName → Output Raw} {s : St Raw} (hi : Inv out s) (hq : Quiescent decode s)
    (hf : ¬ Finished s) : Stuck s := by
  have hrun : ∀ n, (s.pumps n).task ≠ .running := fun n hr => by
    have := hq (.pump n) (by simp)
    simp [step, hr] at this
  have hgen : s.gen = .getting := by
    have hy := hq .next (by simp)
    cases hg : s.gen with
    | getting => rfl
    | yielded => simp [step, hg] at hy
    | ended => exact absurd (.inl hg) hf
    | closed => exact absurd (.inr hg) hf
  have hqueue : s.queue = [] := by
    have hg := hq .get (by simp)
    simp only [step, hgen, if_true] at hg
    rcases h : s.queue with _ | ⟨_ | line, q⟩
    · rfl
    · simp [get, h] at hg
    · simp [get, h] at hg
  exact ⟨hrun, hqueue, hgen, (hi.waiting hf).1⟩

/-- With both outputs ending by EOF, every task that has ended has sent its marker. -/
theorem eof_not_stuck {out : StreamName → Output Raw} (he : ∀ n, (out n).ending = .eof) {s : St Raw}
    (hi : Inv out s) : ¬ Stuck s := by
  intro h
  obtain ⟨hrun, hqueue, hgen, hpos⟩ := h
  have hf : ¬ Finished s := by simp [Finished, hgen]
  have hdone : ∀ n, owes (s.pumps n) = 0 := fun n => by
    have h1 := hrun n
    have h2 := (hi.waiting hf).2 n
    have h3 := hi.pumpsOk.failedError n
    rw [he n] at h3
    cases ht : (s.pumps n).task <;> simp_all [owes]
  have hacc := hi.accounts hf
  rw [hqueue] at hacc
  simp only [owed, hdone, List.count_nil] at hacc
  omega

theorem step_not_closed {s : St Raw} {e : Ev} {s' : St Raw} (hg : s.gen ≠ .closed) (he : e ≠ .close)
    (h : step decode s e = some s') : s'.gen ≠ .closed := by
  cases e with
  | pump n =>
    simp only [step, Option.ite_none_right_eq_some, Option.some.injEq] at h
    obtain ⟨-, rfl⟩ := h
    obtain ⟨p, items, hp, -⟩ := pump_cases decode s n
    rw [hp]; exact hg
  | get =>
    simp only [step, Option.ite_none_right_eq_some] at h
    rcases get_cases h.2 with ⟨line, q, -, rfl⟩ | ⟨q, -, -, rfl⟩ | ⟨q, -, -, rfl⟩
    · simp
    · exact hg
    · simp
  | next =>
    simp only [step, Option.ite_none_right_eq_some, Option.some.injEq] at h
    obtain ⟨-, rfl⟩ := h
    simp
  | close => exact absurd rfl he

/-- The merge never hangs: no reachable state is stuck, every schedule is finite, and
    where nothing but closing is left the generator has ended. -/
structure NeverHangs (out : StreamName → Output Raw) : Prop where
  notStuck : ∀ s, (machine decode out).Reach s → ¬ Stuck s
  ends : ∀ s, (machine decode out).Reach s → Quiescent decode s → Finished s
  finite : ∀ es s, (machine decode out).run (start out) es = some s → es.length ≤ work (start out)

/-- The merge never hangs exactly when neither output ends by a read error. -/
theorem never_hangs_iff (out : StreamName → Output Raw) : NeverHangs decode out ↔ ∀ n, (out n).ending = .eof := by
  constructor
  · intro h
    by_contra hne
    -- run without closing until nothing is left: the generator is then still waiting
    obtain ⟨es, s, hr, hok, hq⟩ := (machine decode out).exists_quiescent (P := fun _ e => e ≠ .close)
      (μ := work) (fun s e s' _ hs => step_work decode s e s' hs) (start out)
    have hs : (machine decode out).Reach s := (Machine.Reach.init rfl).run hr
    have hi := reach_inv decode hs
    have hc : s.gen ≠ .closed := Machine.run_inv (I := fun s => s.gen ≠ .closed)
      (fun s e s' hg he hs => step_not_closed decode hg he hs) (by simp [start]) hok hr
    have hf : ¬ Finished s := by
      intro hway
      rcases hway with he | he
      · exact hne fun n => hi.pumpsOk.doneEof n (hi.endedDone he n)
      · exact hc he
    exact h.notStuck s hs (quiescent_stuck decode hi hq hf)
  · intro he
    have hns : ∀ s, (machine decode out).Reach s → ¬ Stuck s := fun s hs => eof_not_stuck he (reach_inv decode hs)
    refine ⟨hns, fun s hs hq => ?_, fun es s hr => ?_⟩
    · by_contra hf
      exact hns s hs (quiescent_stuck decode (reach_inv decode hs) hq hf)
    · have := Machine.run_length_le (M := machine decode out) (μ := work) (step_work decode) hr
      omega

/-- One over-long line on stdout and an empty stderr: both pumps have ended, and the
    generator waits for a marker that nobody will send. -/
theorem a_read_error_hangs_the_merge :
    let out : StreamName → Output String := fun n => ⟨[], if n = .stdout then .readError else .eof⟩
    ∃ s, (machine id out).Reach s ∧ Stuck s := by
  intro out
  let s := ((machine id out).run (start out) [.pump .stdout, .pump .stderr, .get]).get rfl
  have hr : (machine id out).run (start out) [.pump .stdout, .pump .stderr, .get] = some s := (Option.some_get rfl).symm
  exact ⟨s, (Machine.Reach.init rfl).run hr, fun n => by cases n <;> decide, by decide, by decide, by decide⟩

end LogSump.Transport.MergeStreams
