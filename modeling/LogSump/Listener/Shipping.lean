/-
  LogSump.Listener.Shipping — the log records that a log-listener process ships.

  Each listener task reads its container's log from the first line that Docker still has,
  and counts the lines that it takes with a counter of its own. A container has one listener
  after another along a run: stopped and forgotten, it is listed and spawned again.

  - `takeLine_turn`: a task takes a line as the loop of `LogSump.Listener.ContainerListener` does.
  - `daemon_reach`: the daemon below goes on as in `LogSump.Listener.Daemon`.
  - `step_inv`: the records of one container that one task has shipped have growing numbers
    and come from different lines.
  - `shipped_once`: in a run in which no container has lines shipped by a second task, no
    two records are of the same line, or have the same identity.
  - `a_restarted_listener_ships_a_line_again`.
-/

import LogSump.Listener.Books
import LogSump.Listener.ContainerListener

namespace LogSump.Listener.Shipping

open Common Python Foundation
open Transport.MergeStreams (StreamLine)

/-- What a container has written to one stream, and the first line that Docker still has. -/
structure DockerLog where
  lines : List String := []
  first : Nat := 0

/-- A listener's place in its container's log. -/
structure Reader where
  /-- The next line of each stream. -/
  position : StreamName → Nat := fun _ => 0
  /-- The lines taken so far. -/
  seq : Nat := 0

/-- A record, with the task that shipped it and the line that it was made of. -/
structure Shipped where
  task : TaskId
  index : Nat
  record : LogRecord

structure St where
  daemon : Daemon := {}
  logs : String → StreamName → DockerLog := fun _ _ => {}
  readers : TaskId → Reader := fun _ => {}
  shipped : List Shipped := []

inductive Ev where
  | daemon (e : Event)
  | written (containerId : String) (stream : StreamName) (line : String)
  /-- Docker drops old lines. -/
  | rotated (containerId : String) (stream : StreamName) (first : Nat)
  /-- The listener takes its next line of a stream. -/
  | line (t : TaskId) (stream : StreamName)
  deriving DecidableEq, Repr

def setLog (s : St) (c : String) (stream : StreamName) (log : DockerLog) : St :=
  { s with logs := Function.update s.logs c (Function.update (s.logs c) stream log) }

/-- `docker logs -f` is started: without `--since` and `--tail` it begins at the first line. -/
def attach (s : St) (t : TaskId) (c : String) : St :=
  { s with readers := Function.update s.readers t ⟨fun stream => (s.logs c stream).first, 0⟩ }

def Reader.advance (r : Reader) (stream : StreamName) : Reader :=
  ⟨Function.update r.position stream (r.position stream + 1), r.seq + 1⟩

variable (L : Library) (missingThresholdCycles : Int) (dockerHost : String)

/-- One turn of the listener's loop. -/
def takeLine (s : St) (t : TaskId) (x : ListenerTask) (stream : StreamName) (text : String) : St :=
  let reader := (s.readers t).advance stream
  let s' := { s with readers := Function.update s.readers t reader }
  match recordOf L dockerHost x.ref ⟨stream, text⟩ reader.seq with
  | .error error => { s' with daemon := Daemon.setPhase s.daemon t x (.ended (.raised error.name) true) }
  | .ok none => s'
  | .ok (some record) => { s' with shipped := s.shipped ++ [⟨t, (s.readers t).position stream, record⟩] }

def step (s : St) : Ev → Option St
  | .daemon (.started t) => do
    let daemon ← Daemon.step missingThresholdCycles s.daemon (.started t)
    let x ← s.daemon.listeners[t]?
    return attach { s with daemon } t x.containerId
  | .daemon e => do
    let daemon ← Daemon.step missingThresholdCycles s.daemon e
    return { s with daemon }
  | .written c stream line => some (setLog s c stream { s.logs c stream with lines := (s.logs c stream).lines ++ [line] })
  | .rotated c stream first => some (setLog s c stream { s.logs c stream with first })
  | .line t stream => do
    let x ← s.daemon.listeners[t]?
    if x.phase = .streaming then
      let text ← (s.logs x.containerId stream).lines[(s.readers t).position stream]?
      return takeLine L dockerHost s t x stream text
    else none

def machine : Machine St Ev where
  init s := s.daemon = {} ∧ s.shipped = []
  step := step L missingThresholdCycles dockerHost

/-- The process: one daemon for each id. -/
def process : Machine (String → St) (String × Ev) :=
  Machine.family fun dockerHost => machine L missingThresholdCycles dockerHost

/-- What tells one record from another. -/
structure Identity where
  dockerHost : String
  containerId : String
  ts : Datetime
  seq : Int
  deriving DecidableEq

def identity (r : LogRecord) : Identity := ⟨r.dockerHost, r.containerId, r.ts, r.seq⟩

/-- A listener takes a line only where no other listener of its container has shipped one. -/
def OneLife (s : St) : Ev → Prop
  | .line t _ => ∀ x ∈ s.daemon.listeners[t]?, ∀ a ∈ s.shipped, a.record.containerId = x.containerId → a.task = t
  | _ => True

instance (s : St) : (e : Ev) → Decidable (OneLife s e)
  | .line t _ =>
    inferInstanceAs (Decidable
      (∀ x ∈ s.daemon.listeners[t]?, ∀ a ∈ s.shipped, a.record.containerId = x.containerId → a.task = t))
  | .daemon _ | .written _ _ _ | .rotated _ _ _ => isTrue trivial

variable {L missingThresholdCycles dockerHost}

/-- A task takes its line as `run_container_listener` does, and ends where that raises. -/
theorem takeLine_turn (s : St) (t : TaskId) (x : ListenerTask) (stream : StreamName) (text : String) :
    let s' := takeLine L dockerHost s t x stream text
    let out := turn L dockerHost x.ref ⟨(s.readers t).seq, s.shipped.map (·.record)⟩ ⟨stream, text⟩
    (s'.readers t).seq = out.1.seq ∧ s'.shipped.map (·.record) = out.1.shipped ∧
      s'.daemon = match out.2 with
        | none => s.daemon
        | some e => Daemon.setPhase s.daemon t x (.ended (.raised e.name) true) := by
  simp only [takeLine, turn, Reader.advance]
  cases recordOf L dockerHost x.ref ⟨stream, text⟩ ((s.readers t).seq + 1) with
  | error e => simp
  | ok o => cases o <;> simp

/-! ## The daemon -/

/-- A listener that raises ends its task. -/
theorem raised_step {s : Daemon} {t : TaskId} {x : ListenerTask} (hx : s.listeners[t]? = some x) (hp : x.phase = .streaming)
    (error : String) : Daemon.step missingThresholdCycles s (.ended t (.raised error)) =
      some (Daemon.setPhase s t x (.ended (.raised error) true)) := by
  rw [Daemon.step, hx]
  exact if_pos (by rw [ListenerTask.Running, ListenerTask.outcome?, hp])

/-- A step of the daemon that starts no listener. -/
theorem bind_daemon {s s' : St} {e : Event}
    (h : (Daemon.step missingThresholdCycles s.daemon e >>= fun daemon => some { s with daemon }) = some s') :
    ∃ daemon, Daemon.step missingThresholdCycles s.daemon e = some daemon ∧ s' = { s with daemon } := by
  obtain ⟨daemon, hd, h⟩ := Option.bind_eq_some_iff.mp h
  cases h
  exact ⟨daemon, hd, rfl⟩

theorem step_daemon {s s' : St} {e : Ev} (h : step L missingThresholdCycles dockerHost s e = some s') :
    s'.daemon = s.daemon ∨ ∃ e, Daemon.step missingThresholdCycles s.daemon e = some s'.daemon := by
  cases e with
  | daemon e =>
    right
    cases e with
    | started t =>
      obtain ⟨daemon, hd, h⟩ := Option.bind_eq_some_iff.mp h
      obtain ⟨x, -, h⟩ := Option.bind_eq_some_iff.mp h
      cases h
      exact ⟨.started t, hd⟩
    | _ =>
      obtain ⟨daemon, hd, rfl⟩ := bind_daemon h
      exact ⟨_, hd⟩
  | written c stream line =>
    cases h
    exact .inl rfl
  | rotated c stream first =>
    cases h
    exact .inl rfl
  | line t stream =>
    obtain ⟨x, hx, h⟩ := Option.bind_eq_some_iff.mp h
    split at h
    · rename_i hp
      obtain ⟨text, -, h⟩ := Option.bind_eq_some_iff.mp h
      cases h
      simp only [takeLine]
      split
      · exact .inr ⟨_, raised_step hx hp _⟩
      · exact .inl rfl
      · exact .inl rfl
    · cases h

/-- The daemon is one as it is alone, whatever its listeners take and ship. -/
theorem daemon_reach {s : St} (h : (machine L missingThresholdCycles dockerHost).Reach s) :
    (Daemon.machine missingThresholdCycles).Reach s.daemon := by
  induction h with
  | init h => exact .init h.1
  | step e _ hs ih =>
    rcases step_daemon hs with he | ⟨e, he⟩
    · rw [he]
      exact ih
    · exact .step e ih he

/-! ## The invariant -/

/-- Of two records of one container, the later one has the greater number, and comes from a
    later line of its stream. -/
def Later (a b : Shipped) : Prop :=
  a.record.containerId = b.record.containerId →
    a.record.seq < b.record.seq ∧ (a.record.stream = b.record.stream → a.index < b.index)

structure Inv (dockerHost : String) (s : St) : Prop where
  host : ∀ a ∈ s.shipped, a.record.dockerHost = dockerHost
  /-- The task has begun to stream, for the record's container, and is past its line. -/
  owned : ∀ a ∈ s.shipped, ∃ x : ListenerTask, s.daemon.listeners[a.task]? = some x ∧ x.phase ≠ .starting ∧
    x.containerId = a.record.containerId
  passed : ∀ a ∈ s.shipped, a.record.seq ≤ (s.readers a.task).seq ∧ a.index < (s.readers a.task).position a.record.stream
  ordered : s.shipped.Pairwise Later

/-- A task that has begun to stream does not begin again. -/
theorem step_stays_begun {s s' : Daemon} {e : Event} (h : Daemon.step missingThresholdCycles s e = some s') {t : TaskId}
    {x : ListenerTask} (hx : s.listeners[t]? = some x) (hp : x.phase ≠ .starting) :
    ∃ x' : ListenerTask, s'.listeners[t]? = some x' ∧ x'.phase ≠ .starting ∧ x'.ref = x.ref := by
  have hlt := (List.getElem?_eq_some_iff.mp hx).1
  rcases Daemon.step_listeners h with he | ⟨ref, rest, -, -, he⟩ | ⟨u, y, phase, hy, he, hm⟩
  · exact ⟨x, by rw [he, hx], hp, rfl⟩
  · exact ⟨x, by rw [he, List.getElem?_append_left hlt, hx], hp, rfl⟩
  · by_cases hu : u = t
    · subst hu
      rw [hx] at hy
      cases hy
      refine ⟨{ x with phase }, by rw [he, List.getElem?_set_self hlt], ?_, rfl⟩
      cases hm <;> simp
    · exact ⟨x, by rw [he, List.getElem?_set_ne hu, hx], hp, rfl⟩

/-- Where the tasks go on and the readers of those that have shipped stay. -/
theorem inv_daemon {s : St} (hI : Inv dockerHost s) {daemon : Daemon} {e : Event}
    (h : Daemon.step missingThresholdCycles s.daemon e = some daemon) {readers : TaskId → Reader}
    (hr : ∀ a ∈ s.shipped, readers a.task = s.readers a.task) : Inv dockerHost { s with daemon, readers } := by
  refine ⟨hI.host, ?_, ?_, hI.ordered⟩
  · intro a ha
    obtain ⟨x, hx, hp, hc⟩ := hI.owned a ha
    obtain ⟨x', hx', hp', href⟩ := step_stays_begun h hx hp
    exact ⟨x', hx', hp', by rw [ListenerTask.containerId, href]; exact hc⟩
  · intro a ha
    show a.record.seq ≤ (readers a.task).seq ∧ a.index < (readers a.task).position a.record.stream
    rw [hr a ha]
    exact hI.passed a ha

/-- The reader goes on by one line. -/
theorem inv_advance {s : St} (hI : Inv dockerHost s) (t : TaskId) (stream : StreamName) :
    Inv dockerHost { s with readers := Function.update s.readers t ((s.readers t).advance stream) } := by
  refine ⟨hI.host, hI.owned, ?_, hI.ordered⟩
  intro a ha
  obtain ⟨hseq, hpos⟩ := hI.passed a ha
  show a.record.seq ≤ (Function.update s.readers t ((s.readers t).advance stream) a.task).seq ∧
    a.index < (Function.update s.readers t ((s.readers t).advance stream) a.task).position a.record.stream
  by_cases ht : a.task = t
  · rw [ht, Function.update_self]
    rw [ht] at hseq hpos
    constructor
    · show a.record.seq ≤ ((s.readers t).seq + 1 : Nat)
      omega
    · show a.index < Function.update (s.readers t).position stream ((s.readers t).position stream + 1) a.record.stream
      by_cases hs : a.record.stream = stream
      · rw [hs, Function.update_self]
        rw [hs] at hpos
        omega
      · rw [Function.update_of_ne hs]
        exact hpos
  · rw [Function.update_of_ne ht]
    exact ⟨hseq, hpos⟩

/-- What a listener ships next is later than what it has shipped. -/
theorem Inv.next_later {s : St} (hI : Inv dockerHost s) {t : TaskId} {stream : StreamName} {record : LogRecord}
    (hseq : record.seq = ((s.readers t).seq + 1 : Nat)) (hstream : record.stream = stream) (a : Shipped) (ha : a ∈ s.shipped)
    (hone : a.record.containerId = record.containerId → a.task = t) : Later a ⟨t, (s.readers t).position stream, record⟩ := by
  intro hsame
  obtain ⟨hle, hlt⟩ := hI.passed a ha
  rw [hone hsame] at hle hlt
  refine ⟨?_, ?_⟩
  · show a.record.seq < record.seq
    omega
  · intro hs
    rw [hs, hstream] at hlt
    exact hlt

theorem inv_takeLine {s : St} (hI : Inv dockerHost s) {t : TaskId} {x : ListenerTask} (hx : s.daemon.listeners[t]? = some x)
    (hp : x.phase = .streaming) (stream : StreamName) (text : String)
    (hone : ∀ a ∈ s.shipped, a.record.containerId = x.containerId → a.task = t) :
    Inv dockerHost (takeLine L dockerHost s t x stream text) := by
  have hadv := inv_advance hI t stream
  simp only [takeLine]
  split
  · -- the listener raises
    rename_i error _
    exact inv_daemon hadv (@raised_step 0 _ t x hx hp error.name) fun _ _ => rfl
  · exact hadv
  · rename_i record hrec
    obtain ⟨hhost, hc, hseq, hstream, -⟩ := recordOf_base hrec
    have hseq : record.seq = ((s.readers t).seq + 1 : Nat) := hseq
    refine ⟨?_, ?_, ?_, ?_⟩
    · intro a ha
      rcases List.mem_append.mp ha with ha | ha
      · exact hI.host a ha
      · rw [List.mem_singleton.mp ha]
        exact hhost
    · intro a ha
      rcases List.mem_append.mp ha with ha | ha
      · exact hI.owned a ha
      · rw [List.mem_singleton.mp ha]
        exact ⟨x, hx, by rw [hp]; simp, hc.symm⟩
    · intro a ha
      rcases List.mem_append.mp ha with ha | ha
      · exact hadv.passed a ha
      · rw [List.mem_singleton.mp ha]
        show record.seq ≤ (Function.update s.readers t ((s.readers t).advance stream) t).seq ∧
          (s.readers t).position stream < (Function.update s.readers t ((s.readers t).advance stream) t).position record.stream
        rw [Function.update_self, hstream]
        constructor
        · rw [hseq]
          exact le_rfl
        · show (s.readers t).position stream <
            Function.update (s.readers t).position stream ((s.readers t).position stream + 1) stream
          rw [Function.update_self]
          omega
    · show (s.shipped ++ [_]).Pairwise Later
      refine List.pairwise_append.mpr ⟨hI.ordered, List.pairwise_singleton _ _, ?_⟩
      intro a ha b hb
      rw [List.mem_singleton.mp hb]
      exact hI.next_later hseq hstream a ha fun hsame => hone a ha (hsame.trans hc)

theorem step_inv {s s' : St} {e : Ev} (hI : Inv dockerHost s) (hok : OneLife s e)
    (h : step L missingThresholdCycles dockerHost s e = some s') : Inv dockerHost s' := by
  cases e with
  | daemon e =>
    cases e with
    | started t =>
      obtain ⟨daemon, hd, h⟩ := Option.bind_eq_some_iff.mp h
      obtain ⟨x, hx, h⟩ := Option.bind_eq_some_iff.mp h
      cases h
      -- who has shipped has begun to stream before
      have hstarting : x.phase = .starting := by
        simp only [Daemon.step, hx] at hd
        by_contra hn
        rw [if_neg hn] at hd
        cases hd
      refine inv_daemon hI hd fun a ha => Function.update_of_ne (?_) _ _
      intro ht
      obtain ⟨y, hy, hp, -⟩ := hI.owned a ha
      rw [ht, hx] at hy
      cases hy
      exact hp hstarting
    | _ =>
      obtain ⟨daemon, hd, rfl⟩ := bind_daemon h
      exact inv_daemon hI hd fun _ _ => rfl
  | written c stream line =>
    cases h
    exact ⟨hI.host, hI.owned, hI.passed, hI.ordered⟩
  | rotated c stream first =>
    cases h
    exact ⟨hI.host, hI.owned, hI.passed, hI.ordered⟩
  | line t stream =>
    obtain ⟨x, hx, h⟩ := Option.bind_eq_some_iff.mp h
    split at h
    · rename_i hp
      obtain ⟨text, -, h⟩ := Option.bind_eq_some_iff.mp h
      cases h
      exact inv_takeLine hI hx hp stream text (hok x hx)
    · cases h

theorem init_inv {s : St} (h : (machine L missingThresholdCycles dockerHost).init s) : Inv dockerHost s := by
  obtain ⟨-, hs⟩ := h
  refine ⟨?_, ?_, ?_, ?_⟩
  all_goals rw [hs]
  all_goals simp

/-- Two records of one daemon: the same place, or different numbers and different lines. -/
theorem Inv.same_place {s : St} (hI : Inv dockerHost s) {i j : Nat} {a b : Shipped} (ha : s.shipped[i]? = some a)
    (hb : s.shipped[j]? = some b) (hc : a.record.containerId = b.record.containerId)
    (hsame : a.record.seq = b.record.seq ∨ (a.record.stream = b.record.stream ∧ a.index = b.index)) : i = j := by
  obtain ⟨hi, rfl⟩ := List.getElem?_eq_some_iff.mp ha
  obtain ⟨hj, rfl⟩ := List.getElem?_eq_some_iff.mp hb
  have hlater := List.pairwise_iff_getElem.mp hI.ordered
  rcases Nat.lt_trichotomy i j with hlt | he | hlt
  · obtain ⟨h1, h2⟩ := hlater i j hi hj hlt hc
    rcases hsame with hs | ⟨hst, hidx⟩
    · omega
    · exact absurd (h2 hst) (by omega)
  · exact he
  · obtain ⟨h1, h2⟩ := hlater j i hj hi hlt hc.symm
    rcases hsame with hs | ⟨hst, hidx⟩
    · omega
    · exact absurd (h2 hst.symm) (by omega)

/-- In a run of the process in which no container has lines shipped by a second listener
    task, no two records have the same identity, and no two are of the same line. -/
theorem shipped_once (L : Library) (missingThresholdCycles : Int) {p q : String → St} {es : List (String × Ev)}
    (h₀ : (process L missingThresholdCycles).init p) (hrun : (process L missingThresholdCycles).run p es = some q)
    (hok : (process L missingThresholdCycles).Along (fun p e => OneLife (p e.1) e.2) p es) :
    (∀ (h h' : String) (i j : Nat) (a b : Shipped), (q h).shipped[i]? = some a → (q h').shipped[j]? = some b →
        identity a.record = identity b.record → h = h' ∧ i = j) ∧
      ∀ (h : String) (i j : Nat) (a b : Shipped), (q h).shipped[i]? = some a → (q h).shipped[j]? = some b →
        a.record.containerId = b.record.containerId → a.record.stream = b.record.stream → a.index = b.index → i = j := by
  have hI : ∀ h, Inv h (q h) := @Machine.family_run_inv _ _ _ _ (fun h => machine L missingThresholdCycles h)
    (fun _ => OneLife) Inv (fun _ _ _ _ hI hok hs => step_inv hI hok hs) _ _ _ (fun h => init_inv (h₀ h)) hok hrun
  constructor
  · intro h h' i j a b ha hb hid
    obtain ⟨hhost, hc, -, hseq⟩ : a.record.dockerHost = b.record.dockerHost ∧ a.record.containerId = b.record.containerId ∧
        a.record.ts = b.record.ts ∧ a.record.seq = b.record.seq := by simpa [identity] using hid
    rw [(hI h).host a (List.mem_iff_getElem?.mpr ⟨i, ha⟩), (hI h').host b (List.mem_iff_getElem?.mpr ⟨j, hb⟩)] at hhost
    subst hhost
    exact ⟨rfl, (hI h).same_place ha hb hc (.inl hseq)⟩
  · intro h i j a b ha hb hc hs hidx
    exact (hI h).same_place ha hb hc (.inr ⟨hs, hidx⟩)

/-! ## One line, two listeners -/

/-- The libraries on the one line that is written here. -/
def helloLibrary : Library where
  fromisoformat text := if text = "1970-01-01T00:00:05+00:00" then some helloLog.ts else none
  loads _ := .error .valueError
  repr _ := .ok []
  maxDepth := 255

def onProd (es : List Ev) : List (String × Ev) := es.map fun e => ("prod-a", e)

/-- Container web-1 writes a line, and its listener ships it. -/
def firstLife : List Ev :=
  .written Daemon.web.containerId .stdout helloLog.raw :: (Daemon.webStarts.map Ev.daemon ++ [.line 0 .stdout])

def webReturns : List Event :=
  [.listed [], .listed [], .listed [], .sweep [Daemon.web.containerId], .stopLogged, .ended 0 .cancelled, .callback 0,
    .awaited, .listed [Daemon.web], .permit, .spawnLogged, .started 1]

/-- The container is gone for three listings, is stopped and forgotten, and is back. -/
def secondLife : List Ev := webReturns.map Ev.daemon ++ [.line 1 .stdout]

/-- Who has shipped what, to be read off a run. -/
def sent (q : String → St) : List (TaskId × Nat × Identity) :=
  (q "prod-a").shipped.map fun a => (a.task, a.index, identity a.record)

/-- The second listener ships the same line again, with the same identity. -/
theorem a_restarted_listener_ships_a_line_again :
    ∃ q, (process helloLibrary 3).run (fun _ => {}) (onProd (firstLife ++ secondLife)) = some q ∧
      sent q = [(0, 0, ⟨"prod-a", "a1b2c3d4e5f6", helloLog.ts, 1⟩), (1, 0, ⟨"prod-a", "a1b2c3d4e5f6", helloLog.ts, 1⟩)] ∧
      ∃ (i j : Nat) (a b : Shipped), i ≠ j ∧ (q "prod-a").shipped[i]? = some a ∧ (q "prod-a").shipped[j]? = some b ∧
        identity a.record = identity b.record := by
  have hrun : ((process helloLibrary 3).run (fun _ => {}) (onProd (firstLife ++ secondLife))).map sent =
      some [(0, 0, ⟨"prod-a", "a1b2c3d4e5f6", helloLog.ts, 1⟩), (1, 0, ⟨"prod-a", "a1b2c3d4e5f6", helloLog.ts, 1⟩)] := by
    decide +kernel
  obtain ⟨q, hq, hsent⟩ := Option.map_eq_some_iff.mp hrun
  refine ⟨q, hq, hsent, 0, 1, ?_⟩
  cases hs : (q "prod-a").shipped with
  | nil => simp [sent, hs] at hsent
  | cons a rest =>
    cases rest with
    | nil => simp [sent, hs] at hsent
    | cons b rest =>
      simp only [sent, hs, List.map_cons, List.cons.injEq, Prod.mk.injEq] at hsent
      obtain ⟨⟨-, -, ha⟩, ⟨-, -, hb⟩, -⟩ := hsent
      exact ⟨a, b, by decide, rfl, rfl, ha.trans hb.symm⟩

/-- The container writes the line again, and the same listener ships it. -/
def secondLine : List Ev :=
  firstLife ++ [.written Daemon.web.containerId .stdout helloLog.raw, .line 0 .stdout]

/-- One listener ships each of two lines once, though their texts are the same. -/
theorem one_listener_ships_a_line_once :
    ∃ q, (process helloLibrary 3).run (fun _ => {}) (onProd secondLine) = some q ∧
      sent q = [(0, 0, ⟨"prod-a", "a1b2c3d4e5f6", helloLog.ts, 1⟩), (0, 1, ⟨"prod-a", "a1b2c3d4e5f6", helloLog.ts, 2⟩)] ∧
      ∀ (h h' : String) (i j : Nat) (a b : Shipped), (q h).shipped[i]? = some a → (q h').shipped[j]? = some b →
        identity a.record = identity b.record → h = h' ∧ i = j := by
  have hrun : ((process helloLibrary 3).run (fun _ => {}) (onProd secondLine)).map sent =
      some [(0, 0, ⟨"prod-a", "a1b2c3d4e5f6", helloLog.ts, 1⟩), (0, 1, ⟨"prod-a", "a1b2c3d4e5f6", helloLog.ts, 2⟩)] := by
    decide +kernel
  obtain ⟨q, hq, hsent⟩ := Option.map_eq_some_iff.mp hrun
  exact ⟨q, hq, hsent, (shipped_once helloLibrary 3 (fun _ => ⟨rfl, rfl⟩) hq (by decide +kernel)).1⟩

end LogSump.Listener.Shipping
