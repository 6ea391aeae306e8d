/-
  LogSump.Transport.Subprocess — the children of a transport: `run`, which waits for a command's
  whole output, and `stream_lines`, inside whose block the lines are read one by one.

  A task can be cancelled at each of its awaits, also more than once. The request is delivered
  on the task's next turn, where `CancelledError` leaves the await; two requests before that are
  one. `kill` raises `ProcessLookupError` where asyncio has already finished with the child.

  - `run_leaves_no_child`: whenever `run` ends, the child has exited or been killed; and how a
    cancelled `run` ends.
  - `a_child_outlives_its_block_iff`: `stream_lines` leaves a child running exactly when a
    cancellation reaches the wait for the pumps in `await lines.aclose()`, and so not where the
    block is left for one reason only.
  - `a_cancelled_block_ends`: whatever the pumps do, a few turns end a block that is cancelled.
-/

import LogSump.Transport.MergeStreams

namespace LogSump.Transport.Subprocess

open Foundation MergeStreams

inductive Child where
  | alive
  /-- It has been sent SIGKILL. -/
  | killed
  /-- `returncode` is set. -/
  | exited
  /-- Its pipes are closed as well, and asyncio has let go of it. -/
  | gone
  deriving DecidableEq, Repr

/-- `returncode is not None`, and then `wait` returns. -/
def Child.Noted : Child → Prop
  | .exited | .gone => True
  | _ => False

instance : DecidablePred Child.Noted := fun c => by cases c <;> unfold Child.Noted <;> infer_instance

/-- The signal, where the child can still be signalled. -/
def Child.kill : Child → Child
  | .alive => .killed
  | c => c

/-- The child ends, by itself or by the signal. -/
def Child.exit : Child → Option Child
  | .alive | .killed => some .exited
  | _ => none

def Child.finish : Child → Option Child
  | .exited => some .gone
  | _ => none

@[simp] theorem kill_ne_alive (c : Child) : c.kill ≠ .alive := by cases c <;> simp [Child.kill]

theorem ne_alive_of_noted {c : Child} (h : c.Noted) : c ≠ .alive := by
  rintro rfl
  exact h

theorem noted_of_exit {c c' : Child} (h : c.exit = some c') : c'.Noted := by cases c <;> cases h <;> trivial

theorem gone_of_finish {c c' : Child} (h : c.finish = some c') : c' = .gone := by
  cases c <;> cases h
  rfl

/-! ## `run` -/

namespace Run

inductive Outcome where
  | returned
  | cancelled
  | processLookupError
  deriving DecidableEq, Repr

inductive Pos where
  /-- In `create_subprocess_exec`, the child forked. -/
  | spawning
  | communicating
  /-- In `await proc.wait()`, after the kill. -/
  | waiting
  | ended (o : Outcome)
  deriving DecidableEq, Repr

structure St where
  child : Child := .alive
  pos : Pos := .spawning
  requested : Bool := false
  deriving DecidableEq, Repr

inductive Ev where
  | turn
  | cancel
  | exit
  | finish
  deriving DecidableEq, Repr

/-- The task's turn: on with the result, or with the cancellation. -/
def turn (s : St) : Option St :=
  match s.pos with
  | .spawning =>
    -- asyncio closes the transport, which kills the child, and waits for it
    if s.requested then some ⟨s.child.kill, .waiting, false⟩ else some { s with pos := .communicating }
  | .communicating =>
    if s.requested then
      if s.child = .gone then some ⟨.gone, .ended .processLookupError, false⟩ else some ⟨s.child.kill, .waiting, false⟩
    else if s.child.Noted then some { s with pos := .ended .returned }
    else none
  | .waiting => if s.requested ∨ s.child.Noted then some { s with pos := .ended .cancelled, requested := false } else none
  | .ended _ => none

def step (s : St) : Ev → Option St
  | .turn => turn s
  | .cancel =>
    match s.pos with
    | .ended _ => none
    | _ => some { s with requested := true }
  | .exit => s.child.exit.map fun c => { s with child := c }
  | .finish => s.child.finish.map fun c => { s with child := c }

def machine : Machine St Ev := ⟨(· = {}), step⟩

/-- How it can have ended. -/
def Ends (es : List Ev) (s : St) : Outcome → Prop
  | .returned => s.child.Noted
  | .cancelled => s.child ≠ .alive ∧ .cancel ∈ es
  | .processLookupError => s.child = .gone ∧ .cancel ∈ es

structure Inv (es : List Ev) (s : St) : Prop where
  requested : s.requested = true → .cancel ∈ es
  waiting : s.pos = .waiting → s.child ≠ .alive ∧ .cancel ∈ es
  ended : ∀ o, s.pos = .ended o → Ends es s o

/-- A later child is no worse. -/
theorem Inv.child {es : List Ev} {s : St} (hI : Inv es s) {c : Child} (hc : c.Noted) (hgone : s.child = .gone → c = .gone) :
    Inv es { s with child := c } := by
  refine ⟨hI.requested, fun h => ⟨ne_alive_of_noted hc, (hI.waiting h).2⟩, ?_⟩
  intro o ho
  have h := hI.ended o ho
  cases o with
  | returned => exact hc
  | cancelled => exact ⟨ne_alive_of_noted hc, h.2⟩
  | processLookupError => exact ⟨hgone h.1, h.2⟩

theorem turn_inv {es : List Ev} {s s' : St} (hI : Inv es s) (h : turn s = some s') : Inv es s' := by
  unfold turn at h
  split at h
  · split at h <;> cases h
    · exact ⟨fun hr => (nomatch hr), fun _ => ⟨kill_ne_alive _, hI.requested ‹_›⟩, fun _ ho => nomatch ho⟩
    · exact ⟨hI.requested, fun hp => (nomatch hp), fun _ ho => nomatch ho⟩
  · split at h
    · rename_i hr
      split at h <;> cases h
      · refine ⟨fun hr => (nomatch hr), fun hp => (nomatch hp), fun o ho => ?_⟩
        cases ho
        exact ⟨rfl, hI.requested hr⟩
      · exact ⟨fun hr => (nomatch hr), fun _ => ⟨kill_ne_alive _, hI.requested hr⟩, fun _ ho => nomatch ho⟩
    · split at h <;> cases h
      refine ⟨hI.requested, fun hp => (nomatch hp), fun o ho => ?_⟩
      cases ho
      assumption
  · rename_i hp
    split at h <;> cases h
    refine ⟨fun hr => (nomatch hr), fun hp => (nomatch hp), fun o ho => ?_⟩
    cases ho
    exact hI.waiting hp
  · cases h

theorem step_inv {es : List Ev} {s s' : St} {e : Ev} (hI : Inv es s) (h : step s e = some s') : Inv (es ++ [e]) s' := by
  have hlater : Inv (es ++ [e]) s := by
    refine ⟨fun hr => List.mem_append_left _ (hI.requested hr),
      fun hp => ⟨(hI.waiting hp).1, List.mem_append_left _ (hI.waiting hp).2⟩, ?_⟩
    intro o ho
    have h := hI.ended o ho
    cases o with
    | returned => exact h
    | cancelled => exact ⟨h.1, List.mem_append_left _ h.2⟩
    | processLookupError => exact ⟨h.1, List.mem_append_left _ h.2⟩
  cases e with
  | turn => exact turn_inv hlater h
  | cancel =>
    simp only [step] at h
    split at h
    · cases h
    · cases h
      exact ⟨fun _ => List.mem_append_right _ (List.mem_singleton_self _), hlater.waiting, hlater.ended⟩
  | exit =>
    obtain ⟨c, hc, rfl⟩ := Option.map_eq_some_iff.mp h
    exact hlater.child (noted_of_exit hc) fun hgone => by rw [hgone] at hc; cases hc
  | finish =>
    obtain ⟨c, hc, rfl⟩ := Option.map_eq_some_iff.mp h
    have hgone := gone_of_finish hc
    exact hlater.child (by rw [hgone]; trivial) fun _ => hgone

/-- Turns of the task, beside the exit of the child. -/
def Passes (e : Ev) : Prop := e = .turn ∨ e = .exit

theorem waiting_ends (c : Child) (requested : Bool) :
    ∃ es s, es.length ≤ 2 ∧ (∀ e ∈ es, Passes e) ∧ machine.run ⟨c, .waiting, requested⟩ es = some s ∧
      s.pos = .ended .cancelled := by
  by_cases hc : c.Noted
  · refine ⟨[.turn], ⟨c, .ended .cancelled, false⟩, by decide, ?_, ?_, rfl⟩
    · intro e he
      exact .inl (List.mem_singleton.mp he)
    · simp [Machine.run, machine, step, turn, hc]
  · refine ⟨[.exit, .turn], ⟨.exited, .ended .cancelled, false⟩, by decide, ?_, ?_, rfl⟩
    · intro e he
      rcases List.mem_pair.mp he with rfl | rfl
      · exact .inr rfl
      · exact .inl rfl
    · cases c <;> first | exact absurd trivial hc | simp [Machine.run, machine, step, turn, Child.exit, Child.Noted]

/-- A requested cancellation ends the task. -/
theorem cancelled_ends {s : St} (hr : s.requested = true) (hp : ∀ o, s.pos ≠ .ended o) :
    ∃ es s' o, es.length ≤ 3 ∧ (∀ e ∈ es, Passes e) ∧ machine.run s es = some s' ∧ s'.pos = .ended o := by
  obtain ⟨child, pos, requested⟩ := s
  cases hr
  have hthen : ∀ s', turn ⟨child, pos, true⟩ = some s' → s'.pos = .waiting →
      ∃ es s' o, es.length ≤ 3 ∧ (∀ e ∈ es, Passes e) ∧ machine.run ⟨child, pos, true⟩ es = some s' ∧ s'.pos = .ended o := by
    intro s' hturn hwaiting
    obtain ⟨c, p, r⟩ := s'
    cases hwaiting
    obtain ⟨es, s', hlen, hpass, hrun, hend⟩ := waiting_ends c r
    refine ⟨.turn :: es, s', .cancelled, Nat.succ_le_succ hlen, ?_, Machine.run_cons.mpr ⟨_, hturn, hrun⟩, hend⟩
    intro e he
    rcases List.mem_cons.mp he with rfl | he
    · exact .inl rfl
    · exact hpass e he
  cases pos with
  | spawning => exact hthen _ rfl rfl
  | communicating =>
    by_cases hgone : child = .gone
    · subst hgone
      exact ⟨[.turn], ⟨.gone, .ended .processLookupError, false⟩, _, by decide, by simp [Passes], rfl, rfl⟩
    · exact hthen ⟨child.kill, .waiting, false⟩ (by simp [turn, hgone]) rfl
  | waiting =>
    obtain ⟨es, s', hlen, hpass, hrun, hend⟩ := waiting_ends child true
    exact ⟨es, s', _, hlen.trans (by decide), hpass, hrun, hend⟩
  | ended o => exact absurd rfl (hp o)

/-- In every run: when `run` ends, its child does not run on. It returns when the child has
    exited, ends by a cancellation only where one was requested, and by ProcessLookupError only
    where this was delivered when the child was gone. A requested cancellation needs no more than
    two turns and the exit of the child to end it. -/
theorem run_leaves_no_child {s : St} {es : List Ev} (hrun : machine.run {} es = some s) :
    (∀ o, s.pos = .ended o → s.child ≠ .alive ∧ Ends es s o) ∧
      (s.requested = true → (∀ o, s.pos ≠ .ended o) → ∃ fs s' o, fs.length ≤ 3 ∧ (∀ e ∈ fs, Passes e) ∧
        machine.run s fs = some s' ∧ s'.pos = .ended o) := by
  have hI : Inv es s := Machine.run_history (M := machine) (s := {}) (I := Inv)
    ⟨fun h => (nomatch h), fun h => (nomatch h), fun _ h => nomatch h⟩ (fun _ _ _ _ _ hI h => step_inv hI h) hrun
  refine ⟨?_, cancelled_ends⟩
  intro o ho
  refine ⟨?_, hI.ended o ho⟩
  have h := hI.ended o ho
  cases o with
  | returned => exact ne_alive_of_noted h
  | cancelled => exact h.1
  | processLookupError =>
    rw [h.1]
    simp

/-- A cancellation that is delivered after the child has gone, and before the output is. -/
theorem a_cancellation_of_a_gone_child : ∃ s, machine.run {} [.turn, .exit, .finish, .cancel, .turn] = some s ∧
    s.pos = .ended .processLookupError ∧ s.child ≠ .alive := by
  refine ⟨⟨.gone, .ended .processLookupError, false⟩, by decide, rfl, ?_⟩
  have hrun : machine.run {} [.turn, .exit, .finish, .cancel, .turn] = some ⟨.gone, .ended .processLookupError, false⟩ := by decide
  exact ((run_leaves_no_child hrun).1 .processLookupError rfl).1

end Run

/-! ## `stream_lines` -/

inductive Pos where
  /-- In `create_subprocess_exec`, the child forked. -/
  | spawning
  /-- Inside the block: in `__anext__` of the lines, or in the body. -/
  | inside
  /-- In the generator's `finally`, where `__anext__` waits for the pumps, after a cancellation or
      the end of the lines. -/
  | draining (cancelled : Bool)
  /-- The same in `await lines.aclose()`, when the body has left the block. -/
  | closing
  /-- In `await proc.wait()`, after the kill. -/
  | waiting
  | ended
  deriving DecidableEq, Repr

structure St (Raw : Type) where
  child : Child
  pos : Pos
  requested : Bool
  merge : MergeStreams.St Raw

inductive Ev where
  /-- A pump reads. -/
  | pump (n : StreamName)
  /-- The generator takes an item. -/
  | get
  /-- The body asks for the next line. -/
  | next
  /-- The body leaves the block by itself, perhaps by an exception. -/
  | leave
  | cancel
  /-- The task's turn after a cancellation or one of the waits of its cleanup. -/
  | turn
  | exit
  | finish
  deriving DecidableEq, Repr

variable {Raw : Type} (decode : Raw → String)

/-- `if proc.returncode is None`: the child is killed and waited for. -/
def leaveBlock (s : St Raw) : St Raw :=
  if s.child.Noted then { s with pos := .ended } else { s with child := s.child.kill, pos := .waiting }

/-- `await lines.aclose()`: a generator that is over returns at once, one at its `yield` cancels
    the pumps and waits for them. -/
def closeLines (s : St Raw) : St Raw :=
  if s.merge.gen = .yielded then { s with merge := { cancelPumps s.merge with gen := .closed }, pos := .closing } else leaveBlock s

def turn (s : St Raw) : Option (St Raw) :=
  match s.pos with
  | .spawning =>
    -- asyncio closes the transport, which kills the child, and waits for it
    if s.requested then some { s with child := s.child.kill, pos := .waiting, requested := false }
    else some { s with pos := .inside }
  | .inside =>
    if s.requested then
      if s.merge.gen = .getting then
        some { s with merge := { cancelPumps s.merge with gen := .closed }, pos := .draining true, requested := false }
      else some (closeLines { s with requested := false })
    else none
  | .draining cancelled =>
    if cancelled ∨ s.requested then some (leaveBlock { s with requested := false }) else some { s with pos := .inside }
  | .closing =>
    -- the cancellation leaves the `finally`, before the kill
    if s.requested then some { s with pos := .ended, requested := false } else some (leaveBlock s)
  | .waiting => if s.requested ∨ s.child.Noted then some { s with pos := .ended, requested := false } else none
  | .ended => none

def step (s : St Raw) : Ev → Option (St Raw)
  | .pump n =>
    if s.pos = .spawning then none else (MergeStreams.step decode s.merge (.pump n)).map fun m => { s with merge := m }
  | .get =>
    if s.pos = .inside ∧ s.requested = false then
      (MergeStreams.step decode s.merge .get).map fun m =>
        { s with merge := m, pos := if m.gen = .ended then .draining false else .inside }
    else none
  | .next =>
    if s.pos = .inside ∧ s.requested = false then
      (MergeStreams.step decode s.merge .next).map fun m => { s with merge := m }
    else none
  | .leave =>
    if s.pos = .inside ∧ s.requested = false ∧ s.merge.gen ≠ .getting then some (closeLines s) else none
  | .cancel => if s.pos = .ended then none else some { s with requested := true }
  | .turn => turn s
  | .exit => s.child.exit.map fun c => { s with child := c }
  | .finish => s.child.finish.map fun c => { s with child := c }

def start (out : StreamName → Output Raw) : St Raw := ⟨.alive, .spawning, false, MergeStreams.start out⟩

def machine (out : StreamName → Output Raw) : Machine (St Raw) Ev := ⟨(· = start out), step decode⟩

/-- The reasons for which the block is left: cancellations, and the body's own. -/
def reasons (es : List Ev) : Nat := es.count .cancel + es.count .leave

/-- A second reason comes while the pumps are waited for. -/
def Interrupted (s : St Raw) : Prop := s.pos = .closing ∧ s.requested = true ∧ s.child = .alive

structure Inv (es : List Ev) (s : St Raw) : Prop where
  requested : s.requested = true → 1 ≤ reasons es
  closing : s.pos = .closing → 1 ≤ reasons es ∧ (s.requested = true → 2 ≤ reasons es)
  waiting : s.pos = .waiting → s.child ≠ .alive
  ended : s.pos = .ended → s.child = .alive → 2 ≤ reasons es

variable {decode}

/-! ### Leaving the block -/

theorem leaveBlock_cases (s : St Raw) :
    (s.child.Noted ∧ leaveBlock s = { s with pos := .ended }) ∨
      (¬ s.child.Noted ∧ leaveBlock s = { s with child := s.child.kill, pos := .waiting }) := by
  unfold leaveBlock
  split
  · exact .inl ⟨‹_›, rfl⟩
  · exact .inr ⟨‹_›, rfl⟩

theorem leaveBlock_ne_alive (s : St Raw) : (leaveBlock s).child ≠ .alive := by
  rcases leaveBlock_cases s with ⟨hc, he⟩ | ⟨-, he⟩
  · rw [he]
    exact ne_alive_of_noted hc
  · rw [he]
    exact kill_ne_alive s.child

theorem leaveBlock_ne_closing (s : St Raw) : (leaveBlock s).pos ≠ .closing := by
  rcases leaveBlock_cases s with ⟨-, he⟩ | ⟨-, he⟩ <;> rw [he] <;> simp

theorem leaveBlock_requested (s : St Raw) : (leaveBlock s).requested = s.requested := by
  rcases leaveBlock_cases s with ⟨-, he⟩ | ⟨-, he⟩ <;> rw [he]

theorem closeLines_cases (s : St Raw) :
    closeLines s = { s with merge := { cancelPumps s.merge with gen := .closed }, pos := .closing } ∨
      closeLines s = leaveBlock s := by
  unfold closeLines
  split
  · exact .inl rfl
  · exact .inr rfl

/-- The block is left with a child that is dead, or will be killed. -/
theorem leaveBlock_inv {es : List Ev} {s : St Raw} (hr : s.requested = true → 1 ≤ reasons es) : Inv es (leaveBlock s) where
  requested := by rwa [leaveBlock_requested]
  closing h := absurd h (leaveBlock_ne_closing s)
  waiting _ := leaveBlock_ne_alive s
  ended _ halive := absurd halive (leaveBlock_ne_alive s)

theorem closeLines_inv {es : List Ev} {s : St Raw} (hr : s.requested = false) (hes : 1 ≤ reasons es) : Inv es (closeLines s) := by
  rcases closeLines_cases s with he | he
  · rw [he]
    refine ⟨fun _ => hes, fun _ => ⟨hes, fun h => ?_⟩, fun h => (nomatch h), fun h => nomatch h⟩
    exact absurd (hr.symm.trans h) (by simp)
  · rw [he]
    exact leaveBlock_inv fun _ => hes

/-! ### Steps -/

/-- What does not touch the child, the request or the wait keeps the invariant. -/
theorem Inv.frame {es : List Ev} {s s' : St Raw} (hI : Inv es s) (hr : s'.requested = s.requested)
    (hpos : s'.pos ≠ .closing ∧ s'.pos ≠ .waiting ∧ s'.pos ≠ .ended) : Inv es s' :=
  ⟨fun h => hI.requested (hr ▸ h), fun h => absurd h hpos.1, fun h => absurd h hpos.2.1, fun h => absurd h hpos.2.2⟩

theorem turn_inv {es : List Ev} {s s' : St Raw} (hI : Inv es s) (h : turn s = some s') : Inv es s' := by
  unfold turn at h
  split at h
  · split at h <;> cases h
    · exact ⟨fun h => (nomatch h), fun h => (nomatch h), fun _ => kill_ne_alive _, fun h => nomatch h⟩
    · exact hI.frame rfl (by simp)
  · split at h
    · rename_i hr
      split at h <;> cases h
      · exact ⟨fun h => (nomatch h), fun h => (nomatch h), fun h => (nomatch h), fun h => nomatch h⟩
      · exact closeLines_inv rfl (hI.requested hr)
    · cases h
  · split at h <;> cases h
    · exact leaveBlock_inv fun h => nomatch h
    · exact hI.frame rfl (by simp)
  · rename_i hpos
    split at h <;> cases h
    · rename_i hr
      exact ⟨fun h => (nomatch h), fun h => (nomatch h), fun h => (nomatch h), fun _ _ => (hI.closing hpos).2 hr⟩
    · exact leaveBlock_inv hI.requested
  · rename_i hpos
    split at h <;> cases h
    exact ⟨fun h => (nomatch h), fun h => (nomatch h), fun h => (nomatch h), fun _ halive => absurd halive (hI.waiting hpos)⟩
  · cases h

theorem reasons_snoc (es : List Ev) (e : Ev) : reasons (es ++ [e]) = reasons es + reasons [e] := by
  simp only [reasons, List.count_append]
  omega

theorem Inv.later {es : List Ev} {s : St Raw} (hI : Inv es s) (e : Ev) : Inv (es ++ [e]) s := by
  have hle : reasons es ≤ reasons (es ++ [e]) := by
    rw [reasons_snoc]
    omega
  exact ⟨fun h => (hI.requested h).trans hle, fun h => ⟨(hI.closing h).1.trans hle, fun hr => ((hI.closing h).2 hr).trans hle⟩,
    hI.waiting, fun h halive => (hI.ended h halive).trans hle⟩

/-- The child ends, or asyncio lets go of it. -/
theorem Inv.child {es : List Ev} {s : St Raw} (hI : Inv es s) {c : Child} (hc : c ≠ .alive) : Inv es { s with child := c } :=
  ⟨hI.requested, hI.closing, fun _ => hc, fun _ halive => absurd halive hc⟩

theorem step_inv {es : List Ev} {s s' : St Raw} {e : Ev} (hI : Inv es s) (h : step decode s e = some s') : Inv (es ++ [e]) s' := by
  have hlater := hI.later e
  cases e with
  | pump n =>
    simp only [step] at h
    split at h
    · cases h
    · obtain ⟨m, -, rfl⟩ := Option.map_eq_some_iff.mp h
      exact ⟨hlater.requested, hlater.closing, hlater.waiting, hlater.ended⟩
  | get =>
    simp only [step] at h
    split at h
    · obtain ⟨m, -, rfl⟩ := Option.map_eq_some_iff.mp h
      refine hlater.frame rfl ?_
      dsimp only
      split <;> simp
    · cases h
  | next =>
    simp only [step] at h
    split at h
    · rename_i hpos
      obtain ⟨m, -, rfl⟩ := Option.map_eq_some_iff.mp h
      exact hlater.frame rfl (by simp [hpos.1])
    · cases h
  | leave =>
    simp only [step] at h
    split at h <;> cases h
    rename_i hpos
    refine closeLines_inv hpos.2.1 ?_
    rw [reasons_snoc]
    exact Nat.le_add_left 1 _
  | cancel =>
    have hone : reasons (es ++ [.cancel]) = reasons es + 1 := reasons_snoc es .cancel
    simp only [step] at h
    split at h <;> cases h
    refine ⟨fun _ => ?_, fun hpos => ⟨(hlater.closing hpos).1, fun _ => ?_⟩, hlater.waiting, fun hpos => absurd hpos ‹_›⟩
    · omega
    · have h := (hI.closing hpos).1
      omega
  | turn => exact turn_inv hlater h
  | exit =>
    obtain ⟨c, hc, rfl⟩ := Option.map_eq_some_iff.mp h
    exact hlater.child (ne_alive_of_noted (noted_of_exit hc))
  | finish =>
    obtain ⟨c, hc, rfl⟩ := Option.map_eq_some_iff.mp h
    rw [gone_of_finish hc]
    exact hlater.child (by simp)

/-- The step that leaves the block leaves the child alive where it is interrupted. -/
theorem ends_alive_iff {es : List Ev} {s s' : St Raw} {e : Ev} (hI : Inv es s) (h : step decode s e = some s')
    (hin : s.pos ≠ .ended) (hend : s'.pos = .ended) : s'.child = .alive ↔ Interrupted s := by
  have hleave : ∀ t : St Raw, s' = leaveBlock t → s.pos ≠ .closing ∨ s.requested = false → (s'.child = .alive ↔ Interrupted s) := by
    intro t ht hnot
    refine iff_of_false (ht ▸ leaveBlock_ne_alive t) fun hs => ?_
    rcases hnot with hpos | hr
    · exact hpos hs.1
    · exact absurd (hr.symm.trans hs.2.1) (by simp)
  have hclose : ∀ t : St Raw, s' = closeLines t → s.pos = .inside → (s'.child = .alive ↔ Interrupted s) := by
    intro t ht hpos
    rcases closeLines_cases t with he | he
    · rw [ht, he] at hend
      cases hend
    · exact hleave t (ht.trans he) (.inl (by simp [hpos]))
  cases e with
  | turn =>
    simp only [step, turn] at h
    split at h
    · split at h <;> cases h <;> cases hend
    · split at h
      · split at h <;> cases h
        · cases hend
        · exact hclose _ rfl ‹_›
      · cases h
    · split at h <;> cases h
      · exact hleave _ rfl (.inl (by simp [*]))
      · cases hend
    · rename_i hpos
      split at h <;> cases h
      · exact ⟨fun halive => ⟨hpos, ‹_›, halive⟩, fun hs => hs.2.2⟩
      · rename_i hr
        exact hleave _ rfl (.inr (by simpa using hr))
    · rename_i hpos
      split at h <;> cases h
      exact iff_of_false (hI.waiting hpos) fun hs => absurd (hpos.symm.trans hs.1) (by simp)
    · cases h
  | leave =>
    simp only [step] at h
    split at h <;> cases h
    exact hclose s rfl (by simp [*])
  | get =>
    simp only [step] at h
    split at h
    · obtain ⟨m, -, rfl⟩ := Option.map_eq_some_iff.mp h
      dsimp only at hend
      split at hend <;> cases hend
    · cases h
  | pump n =>
    simp only [step] at h
    split at h
    · cases h
    · obtain ⟨m, -, rfl⟩ := Option.map_eq_some_iff.mp h
      exact absurd hend hin
  | next =>
    simp only [step] at h
    split at h
    · obtain ⟨m, -, rfl⟩ := Option.map_eq_some_iff.mp h
      exact absurd hend hin
    · cases h
  | cancel =>
    simp only [step] at h
    split at h <;> cases h
    exact absurd hend hin
  | exit =>
    obtain ⟨c, -, rfl⟩ := Option.map_eq_some_iff.mp h
    exact absurd hend hin
  | finish =>
    obtain ⟨c, -, rfl⟩ := Option.map_eq_some_iff.mp h
    exact absurd hend hin

theorem run_inv {out : StreamName → Output Raw} {s : St Raw} {es : List Ev}
    (hrun : (machine decode out).run (start out) es = some s) :
    Inv es s :=
  Machine.run_history (M := machine decode out) (s := start out) (I := Inv)
    ⟨fun h => (nomatch h), fun h => (nomatch h), fun h => (nomatch h), fun h => nomatch h⟩
    (fun _ _ _ _ _ hI h => step_inv hI h) hrun

/-- In every run, at the step that leaves the block: the child runs on exactly where a
    cancellation is delivered while `await lines.aclose()` waits for the pumps, with the child
    alive. So it needs two reasons to leave the block, one after the other. -/
theorem a_child_outlives_its_block_iff (decode : Raw → String) (out : StreamName → Output Raw) {es : List Ev} {s s' : St Raw}
    {e : Ev} (hrun : (machine decode out).run (start out) es = some s) (h : step decode s e = some s') (hin : s.pos ≠ .ended)
    (hend : s'.pos = .ended) : (s'.child = .alive ↔ Interrupted s) ∧ (s'.child = .alive → 2 ≤ reasons es) := by
  have hI := run_inv hrun
  have hiff := ends_alive_iff hI h hin hend
  refine ⟨hiff, ?_⟩
  intro halive
  obtain ⟨hpos, hr, -⟩ := hiff.mp halive
  exact (hI.closing hpos).2 hr

/-! ### The end of a cancelled block -/

def Passes (e : Ev) : Prop := e = .turn ∨ e = .exit

theorem waiting_ends (out : StreamName → Output Raw) {s : St Raw} (hpos : s.pos = .waiting) (hchild : s.child ≠ .alive) :
    ∃ es s', es.length ≤ 2 ∧ (∀ e ∈ es, Passes e) ∧ (machine decode out).run s es = some s' ∧ s'.pos = .ended ∧
      s'.child ≠ .alive := by
  by_cases hc : s.child.Noted
  · refine ⟨[.turn], { s with pos := .ended, requested := false }, by decide, by simp [Passes], ?_, rfl, hchild⟩
    simp [Machine.run, machine, step, turn, hpos, hc]
  · have hexit : s.child.exit = some .exited := by
      cases h : s.child with
      | alive => exact absurd h hchild
      | killed => rfl
      | exited => exact absurd (h ▸ trivial) hc
      | gone => exact absurd (h ▸ trivial) hc
    refine ⟨[.exit, .turn], { s with child := .exited, pos := .ended, requested := false }, by decide, by simp [Passes], ?_, rfl,
      by simp⟩
    simp [Machine.run, machine, step, turn, hpos, hexit, Child.Noted]

theorem leaveBlock_ends (out : StreamName → Output Raw) (s : St Raw) :
    ∃ es s', es.length ≤ 2 ∧ (∀ e ∈ es, Passes e) ∧ (machine decode out).run (leaveBlock s) es = some s' ∧ s'.pos = .ended ∧
      s'.child ≠ .alive := by
  have hne := leaveBlock_ne_alive s
  rcases leaveBlock_cases s with ⟨-, he⟩ | ⟨-, he⟩
  · exact ⟨[], _, by decide, by simp, rfl, by rw [he], hne⟩
  · exact waiting_ends out (by rw [he]) hne

/-- One turn more. -/
theorem then_ends {out : StreamName → Output Raw} {s t : St Raw} {n : Nat} (h : turn s = some t)
    (ht : ∃ es s', es.length ≤ n ∧ (∀ e ∈ es, Passes e) ∧ (machine decode out).run t es = some s' ∧ s'.pos = .ended ∧
      s'.child ≠ .alive) :
    ∃ es s', es.length ≤ n + 1 ∧ (∀ e ∈ es, Passes e) ∧ (machine decode out).run s es = some s' ∧ s'.pos = .ended ∧
      s'.child ≠ .alive := by
  obtain ⟨es, s', hlen, hpass, hrun, hend⟩ := ht
  refine ⟨.turn :: es, s', Nat.succ_le_succ hlen, ?_, Machine.run_cons.mpr ⟨t, h, hrun⟩, hend⟩
  intro e he
  rcases List.mem_cons.mp he with rfl | he
  · exact .inl rfl
  · exact hpass e he

/-- In every run: once a cancellation is requested, three turns of the task and the exit of the
    child end the block, whatever its outputs and its pumps do; and the child is left alive
    exactly where it is interrupted already. -/
theorem a_cancelled_block_ends (decode : Raw → String) (out : StreamName → Output Raw) {es : List Ev} {s : St Raw}
    (hrun : (machine decode out).run (start out) es = some s) (hr : s.requested = true) (hpos : s.pos ≠ .ended) :
    ∃ fs s', fs.length ≤ 4 ∧ (∀ e ∈ fs, Passes e) ∧ (machine decode out).run s fs = some s' ∧ s'.pos = .ended ∧
      (s'.child = .alive ↔ Interrupted s) := by
  by_cases hs : Interrupted s
  · obtain ⟨hp, -, halive⟩ := hs
    have hturn : turn s = some { s with pos := .ended, requested := false } := by simp [turn, hp, hr]
    exact ⟨[.turn], _, by decide, by simp [Passes], Machine.run_cons.mpr ⟨_, hturn, rfl⟩, rfl, iff_of_true halive ⟨hp, hr, halive⟩⟩
  suffices hend : ∃ fs s', fs.length ≤ 4 ∧ (∀ e ∈ fs, Passes e) ∧ (machine decode out).run s fs = some s' ∧ s'.pos = .ended ∧
      s'.child ≠ .alive by
    obtain ⟨fs, s', hlen, hpass, hfs, hend, hchild⟩ := hend
    exact ⟨fs, s', hlen, hpass, hfs, hend, iff_of_false hchild hs⟩
  have hI := run_inv hrun
  have hmono : ∀ {n}, n ≤ 4 → (∃ fs s', fs.length ≤ n ∧ (∀ e ∈ fs, Passes e) ∧ (machine decode out).run s fs = some s' ∧
      s'.pos = .ended ∧ s'.child ≠ .alive) → ∃ fs s', fs.length ≤ 4 ∧ (∀ e ∈ fs, Passes e) ∧
        (machine decode out).run s fs = some s' ∧ s'.pos = .ended ∧ s'.child ≠ .alive := by
    intro n hn h
    obtain ⟨fs, s', hlen, hrest⟩ := h
    exact ⟨fs, s', hlen.trans hn, hrest⟩
  cases hp : s.pos with
  | spawning =>
    have hturn : turn s = some { s with child := s.child.kill, pos := .waiting, requested := false } := by simp [turn, hp, hr]
    exact hmono (by decide) (then_ends hturn (waiting_ends out rfl (kill_ne_alive _)))
  | inside =>
    by_cases hg : s.merge.gen = .getting
    · have hturn : turn s = some { s with
          merge := { cancelPumps s.merge with gen := .closed }, pos := .draining true, requested := false } := by
        simp [turn, hp, hr, hg]
      exact hmono le_rfl (then_ends hturn (then_ends (by simp [turn]; rfl) (leaveBlock_ends out _)))
    · have hturn : turn s = some (closeLines { s with requested := false }) := by simp [turn, hp, hr, hg]
      rcases closeLines_cases { s with requested := false } with he | he
      · rw [he] at hturn
        exact hmono le_rfl (then_ends hturn (then_ends (by simp [turn]; rfl) (leaveBlock_ends out _)))
      · rw [he] at hturn
        exact hmono (by decide) (then_ends hturn (leaveBlock_ends out _))
  | draining cancelled =>
    have hturn : turn s = some (leaveBlock { s with requested := false }) := by simp [turn, hp, hr]
    exact hmono (by decide) (then_ends hturn (leaveBlock_ends out _))
  | closing =>
    have hchild : s.child ≠ .alive := fun halive => hs ⟨hp, hr, halive⟩
    have hturn : turn s = some { s with pos := .ended, requested := false } := by simp [turn, hp, hr]
    exact hmono (by decide) (then_ends hturn ⟨[], _, le_rfl, by simp, rfl, rfl, hchild⟩)
  | waiting => exact hmono (by decide) (waiting_ends out hp (hI.waiting hp))
  | ended => exact absurd hp hpos

/-! ### A child that runs on -/

/-- One line on stdout, and no end of either output. -/
def helloOutput : StreamName → Output String
  | .stdout => ⟨["hello"], .eof⟩
  | .stderr => ⟨[], .eof⟩

/-- The body raises on the line, and the task is cancelled while the pumps are waited for. -/
def helloLeft : List Ev := [.turn, .pump .stdout, .get, .leave, .cancel]

theorem a_second_reason_leaves_the_child :
    ∃ s s', (machine id helloOutput).run (start helloOutput) helloLeft = some s ∧ step id s .turn = some s' ∧ s'.pos = .ended ∧
      s'.child = .alive ∧ 2 ≤ reasons helloLeft := by
  have hrun : ((machine id helloOutput).run (start helloOutput) helloLeft).map (fun s => (s.child, s.pos, s.requested)) =
      some (.alive, .closing, true) := by decide +kernel
  obtain ⟨s, hs, hview⟩ := Option.map_eq_some_iff.mp hrun
  obtain ⟨hchild, hview⟩ := Prod.mk.inj hview
  obtain ⟨hpos, hr⟩ := Prod.mk.inj hview
  have hturn : step id s .turn = some { s with pos := .ended, requested := false } := by simp [step, turn, hpos, hr]
  obtain ⟨hiff, htwo⟩ := a_child_outlives_its_block_iff id helloOutput hs hturn (by simp [hpos]) rfl
  exact ⟨s, _, hs, hturn, rfl, hiff.mpr ⟨hpos, hr, hchild⟩, htwo hchild⟩

/-- A cancellation while the next line is waited for. -/
theorem one_cancellation_leaves_no_child :
    ∃ s fs s', (machine id helloOutput).run (start helloOutput) [.turn, .cancel] = some s ∧
      (machine id helloOutput).run s fs = some s' ∧ s'.pos = .ended ∧ s'.child ≠ .alive := by
  have hrun : ((machine id helloOutput).run (start helloOutput) [.turn, .cancel]).map (fun s => (s.pos, s.requested)) =
      some (.inside, true) := by decide +kernel
  obtain ⟨s, hs, hview⟩ := Option.map_eq_some_iff.mp hrun
  obtain ⟨hpos, hr⟩ := Prod.mk.inj hview
  obtain ⟨fs, s', -, -, hfs, hend, halive⟩ := a_cancelled_block_ends id helloOutput hs hr (by simp [hpos])
  exact ⟨s, fs, s', hs, hfs, hend, fun h => absurd (hpos.symm.trans (halive.mp h).1) (by simp)⟩

end LogSump.Transport.Subprocess
