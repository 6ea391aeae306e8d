/-
  LogSump.Server.Restarts — log-server processes on one Redis, one after the other. A process
  ends at any of its awaits: `lifespan` cancels the consumer and the trimmer, or the process is
  killed. The next one begins with nothing in its hands.

  What a task was waiting for when it ended may have reached Redis, a pipeline perhaps in part,
  and is executed some time later, beside the commands of the next process.

  - `step_lived`: every step accounts for what was pushed; a command that is still on its way
    counts as sent.
  - `a_restart_costs_a_batch`: over any number of processes, a restart costs no more than a
    failure, and no record is written more often than its pipelines were sent.
-/

import LogSump.Server.Delivery

namespace LogSump.Server.Restarts

open Common Redis Foundation
open Consumer (Command commands fieldsFor)
open Process (Config Call Delivered Recorded Announced Expired StreamKeys batch horizon)

/-- A command of a process that has ended, as far as Redis has received it. -/
inductive Late where
  | blpop
  | lpop (n : Nat)
  | pipeline (cs : List Command)
  | trim (c : Call)

structure St where
  process : Process.St
  late : List Late

inductive Ev where
  | process (e : Process.Ev)
  /-- The process ends and the next one begins; so many of the consumer's commands have reached
      Redis, and that of the trimmer. -/
  | restart (received : Nat) (trim : Bool)
  /-- Redis goes on with what it has of an ended process. -/
  | late (clock : U64) (i : Nat)
  deriving DecidableEq

variable (C : Config)

/-- What Redis has of the commands that the tasks are waiting for. -/
def inFlight (s : Process.St) (received : Nat) (trim : Bool) : List Late :=
  (match s.consumer with
    | .idle => [.blpop].take received
    | .popped _ => if 1 < C.batchSize then [.lpop (C.batchSize - 1).toNat].take received else []
    | .executing cs => [.pipeline (cs.take received)]) ++
  (if trim then (s.calls.take 1).map .trim else [])

/-- A new process; Redis keeps what it has. -/
def fresh (s : Process.St) : Process.St := { s with consumer := .idle, pipeline := [], calls := [] }

/-- The next command of an ended process, and what is left; a client that is gone is not woken. -/
def execute (db : Store) (clock : U64) : Late → Option (Store × Late)
  | .blpop =>
    match blpop db ingestList with
    | .ok (some (_, db)) => some (db, .pipeline [])
    | _ => none
  | .lpop n =>
    match lpop db ingestList n with
    | .ok (_, db) => some (db, .pipeline [])
    | .error _ => none
  | .pipeline [] => none
  | .pipeline (c :: cs) => some ((xadd db c.key clock c.fields).toOption.getD db, .pipeline cs)
  | .trim c => some ((Trimmer.trimStream false db c.dockerHost c.kind c.minidMs).1, .pipeline [])

def step (w : St) : Ev → Option St
  | .process e => (Process.step C w.process e).map fun s => { w with process := s }
  | .restart received trim => some ⟨fresh w.process, w.late ++ inFlight C w.process received trim⟩
  | .late clock i =>
    w.late[i]?.bind fun l => (execute w.process.db clock l).map fun r =>
      ⟨{ w.process with db := r.1 }, w.late.set i r.2⟩

def machine : Machine St Ev where
  init w := (Process.machine C).init w.process ∧ w.late = []
  step := step C

/-- The command that a step executes, unless Redis refuses it. -/
def executes (w : St) : Ev → List Command
  | .process e => Process.executes w.process e
  | .restart _ _ => []
  | .late clock i =>
    match w.late[i]? with
    | some (.pipeline (c :: _)) => if (xadd w.process.db c.key clock c.fields).isOk then [c] else []
    | _ => []

/-- A failure, a restart, or the refusal of a command on its way. -/
def setback (w : St) (e : Ev) : List Ev :=
  match e with
  | .process f => (Process.failed w.process f).map .process
  | .restart _ _ => [e]
  | .late clock i =>
    match w.late[i]? with
    | some (.pipeline (c :: _)) => if (xadd w.process.db c.key clock c.fields).isOk then [] else [e]
    | _ => []

def applied (w : St) (es : List Ev) : List Command := (machine C).collect executes w es

def setbacks (w : St) (es : List Ev) : Nat := ((machine C).collect setback w es).length

def resends (es : List Ev) : Nat := es.count (.process .resend)

/-- The events of the processes. -/
def processEvent? : Ev → Option Process.Ev
  | .process e => some e
  | _ => none

/-- The commands that are on their way. -/
def Late.commands : Late → List Command
  | .pipeline cs => cs
  | _ => []

/-- The entries that are popped for nobody. -/
def Late.pops : Late → Nat
  | .blpop => 1
  | .lpop n => n
  | _ => 0

def onTheWay (late : List Late) : List Command := late.flatMap Late.commands

def owed (late : List Late) : Nat := (late.map Late.pops).sum

/-- Everything pushed is accounted for, where what is on its way counts as sent; and what will be
    popped for nobody is within the budget. -/
structure Lived (executed : List Command) (n budget : Nat) (w : St) : Prop where
  account : ∃ sent onList gone lost dropped spent, Delivered C sent n spent w.process onList gone lost dropped ∧
    spent + owed w.late ≤ budget ∧ ∀ c, sent.count c = executed.count c + (onTheWay w.late).count c
  late : ∀ c ∈ onTheWay w.late, ∃ h k, c.key = streamKey h k

variable {C}

/-! ## What is on its way -/

theorem onTheWay_append (xs ys : List Late) : onTheWay (xs ++ ys) = onTheWay xs ++ onTheWay ys := List.flatMap_append

theorem owed_append (xs ys : List Late) : owed (xs ++ ys) = owed xs + owed ys := by
  rw [owed, List.map_append, List.sum_append]
  rfl

/-- One of them goes on. -/
theorem late_set {late : List Late} {i : Nat} {l : Late} (hl : late[i]? = some l) (l' : Late) :
    (owed (late.set i l') + l.pops = owed late + l'.pops) ∧
      ∀ c, (onTheWay (late.set i l')).count c + l.commands.count c = (onTheWay late).count c + l'.commands.count c := by
  induction late generalizing i with
  | nil => cases hl
  | cons x late ih =>
    cases i with
    | zero =>
      cases hl
      refine ⟨?_, ?_⟩
      · simp only [owed, List.set_cons_zero, List.map_cons, List.sum_cons]
        omega
      · intro c
        simp only [onTheWay, List.set_cons_zero, List.flatMap_cons, List.count_append]
        omega
    | succ i =>
      obtain ⟨howed, hcount⟩ := ih (List.getElem?_cons_succ ▸ hl)
      refine ⟨?_, ?_⟩
      · simp only [owed, List.set_cons_succ, List.map_cons, List.sum_cons] at howed ⊢
        omega
      · intro c
        have h := hcount c
        simp only [onTheWay, List.set_cons_succ, List.flatMap_cons, List.count_append] at h ⊢
        omega

theorem mem_late_set {late : List Late} {i : Nat} {l l' : Late} (hl : late[i]? = some l) (hsub : l'.commands ⊆ l.commands) :
    ∀ c ∈ onTheWay (late.set i l'), c ∈ onTheWay late := by
  intro c hc
  obtain ⟨x, hx, hmem⟩ := List.mem_flatMap.mp hc
  rcases List.mem_or_eq_of_mem_set hx with hx | rfl
  · exact List.mem_flatMap.mpr ⟨x, hx, hmem⟩
  · exact List.mem_flatMap.mpr ⟨l, List.mem_of_getElem? hl, hsub hmem⟩

/-- What a process leaves to Redis, and the entries in its hands, are no more than a batch. -/
theorem inFlight_spec (s : Process.St) (received : Nat) (trim : Bool)
    (hsize : s.consumer.pending.length ≤ batch C) :
    ∃ k, onTheWay (inFlight C s received trim) = s.consumer.pending.take k ∧
      s.consumer.inHand.length + (s.consumer.pending.drop k).length + owed (inFlight C s received trim) ≤ batch C := by
  have hone : 1 ≤ batch C := le_max_left _ _
  have htrims : onTheWay (if trim then (s.calls.take 1).map .trim else []) = [] ∧
      owed (if trim then (s.calls.take 1).map .trim else []) = 0 := by
    cases trim <;> cases s.calls <;> simp [onTheWay, owed, Late.commands, Late.pops]
  unfold inFlight
  rw [onTheWay_append, owed_append, htrims.1, htrims.2]
  cases hpc : s.consumer with
  | idle =>
    refine ⟨0, ?_, ?_⟩ <;> cases received <;> simp [onTheWay, owed, Late.commands, Late.pops, Consumer.Pc.pending, Consumer.Pc.inHand]
    exact hone
  | popped first =>
    have hle : C.batchSize.toNat ≤ batch C := le_max_right _ _
    refine ⟨0, ?_, ?_⟩ <;> by_cases hb : 1 < C.batchSize <;> cases received <;>
      simp [hb, onTheWay, owed, Late.commands, Late.pops, Consumer.Pc.pending, Consumer.Pc.inHand] <;> omega
  | executing cs =>
    rw [hpc] at hsize
    refine ⟨received, ?_, ?_⟩
    · simp [onTheWay, Late.commands, Consumer.Pc.pending]
    · have hle : (cs.drop received).length ≤ cs.length := by
        rw [List.length_drop]
        exact Nat.sub_le _ _
      have hsize : cs.length ≤ batch C := hsize
      simpa [owed, Late.pops, Consumer.Pc.inHand, Consumer.Pc.pending] using hle.trans hsize

/-! ## Steps -/

/-- Each with what it finds and the store that it leaves. -/
inductive Executes (db : Store) (clock : U64) : Late → Store → Late → Prop
  | blpop (first : String) (db' : Store) : Redis.blpop db ingestList = .ok (some (first, db')) →
      Executes db clock .blpop db' (.pipeline [])
  | lpop (n : Nat) (rest : List String) (db' : Store) : Redis.lpop db ingestList n = .ok (rest, db') →
      Executes db clock (.lpop n) db' (.pipeline [])
  | xadd (c : Command) (cs : List Command) (db' : Store) : Redis.xadd db c.key clock c.fields = .ok db' →
      Executes db clock (.pipeline (c :: cs)) db' (.pipeline cs)
  | refused (c : Command) (cs : List Command) (error : RedisError) : Redis.xadd db c.key clock c.fields = .error error →
      Executes db clock (.pipeline (c :: cs)) db (.pipeline cs)
  | trim (c : Call) : Executes db clock (.trim c) (Trimmer.trimStream false db c.dockerHost c.kind c.minidMs).1 (.pipeline [])

theorem execute_executes {db db' : Store} {clock : U64} {l l' : Late} (h : execute db clock l = some (db', l')) :
    Executes db clock l db' l' := by
  unfold execute at h
  split at h
  · split at h <;> cases h
    exact .blpop _ _ ‹_›
  · split at h <;> cases h
    exact .lpop _ _ _ ‹_›
  · cases h
  · rename_i c cs
    cases hx : xadd db c.key clock c.fields with
    | error error =>
      rw [hx] at h
      cases h
      exact .refused c cs error hx
    | ok db' =>
      rw [hx] at h
      cases h
      exact .xadd c cs db' hx
  · cases h
    exact .trim _

theorem step_late {w w' : St} {clock : U64} {i : Nat} (h : step C w (.late clock i) = some w') :
    ∃ l db l', w.late[i]? = some l ∧ Executes w.process.db clock l db l' ∧
      w' = ⟨{ w.process with db }, w.late.set i l'⟩ := by
  obtain ⟨l, hl, h⟩ := Option.bind_eq_some_iff.mp h
  obtain ⟨⟨db, l'⟩, hexec, rfl⟩ := Option.map_eq_some_iff.mp h
  exact ⟨l, db, l', hl, execute_executes hexec, rfl⟩

/-- A command on its way is refused. -/
theorem unsend {sent dropped : List Command} {n spent : Nat} {s : Process.St} {onList gone lost : List String}
    (hD : Delivered C sent n spent s onList gone lost dropped) (c : Command) :
    Delivered C (sent.erase c) n (spent + 1) s onList gone lost (dropped ++ [c]) where
  listed := hD.listed
  order := hD.order
  pushed := hD.pushed
  queued h0 := ((List.erase_sublist).append (.refl _)).trans (hD.queued h0)
  atMost d := by
    have h := hD.atMost d
    have hle := (List.erase_sublist (a := c) (l := sent)).count_le d
    omega
  atLeast d := by
    have h := hD.atLeast d
    rw [List.count_append, List.count_erase, List.count_singleton]
    by_cases hd : d = c
    · subst hd
      simp only [beq_self_eq_true, if_true]
      omega
    · have hne : (c == d) = false := by simpa using Ne.symm hd
      simp only [hne, Bool.false_eq_true, if_false]
      omega
  pipeline := hD.pipeline
  pending := hD.pending
  size := hD.size
  few := by
    have h := hD.few
    rw [List.length_append, List.length_singleton]
    omega

theorem step_lived {executed : List Command} {n budget : Nat} {w w' : St} {e : Ev} (hK : StreamKeys w.process)
    (hL : Lived C executed n budget w) (h : step C w e = some w') :
    Lived C (executed ++ executes w e) (n + [e].count (.process .resend)) (budget + (setback w e).length * batch C) w' := by
  obtain ⟨⟨sent, onList, gone, lost, dropped, spent, hD, hspent, hsent⟩, hkeys⟩ := hL
  cases e with
  | process e =>
    obtain ⟨s, hs, rfl⟩ := Option.map_eq_some_iff.mp h
    obtain ⟨onList', gone', lost', dropped', hD'⟩ := Process.step_delivered hK hD hs
    have hcount : [Ev.process e].count (.process .resend) = [e].count .resend := by simp [List.count_singleton]
    have hlength : (setback w (.process e)).length = (Process.failed w.process e).length := List.length_map _
    refine ⟨⟨_, onList', gone', lost', dropped', _, hcount ▸ hD', ?_, ?_⟩, hkeys⟩
    · rw [hlength]
      show _ + owed w.late ≤ _
      omega
    · intro c
      have h := hsent c
      simp only [executes, List.count_append]
      omega
  | restart received trim =>
    cases h
    have hsize : w.process.consumer.pending.length ≤ batch C := hD.pending.length_le.trans hD.size
    obtain ⟨k, htake, hcost⟩ := inFlight_spec w.process received trim hsize
    have hstop := hD.stop k
    refine ⟨⟨_, onList, gone, _, _, _, hstop.frame rfl rfl rfl rfl, ?_, ?_⟩, ?_⟩
    · rw [owed_append, show (setback w (.restart received trim)).length = 1 from rfl, Nat.one_mul]
      omega
    · intro c
      have h := hsent c
      simp only [executes, List.append_nil, onTheWay_append, htake, List.count_append]
      omega
    · intro c hc
      rw [onTheWay_append, htake] at hc
      rcases List.mem_append.mp hc with hc | hc
      · exact hkeys c hc
      · exact hK.pending c (List.mem_of_mem_take hc)
  | late clock i =>
    obtain ⟨l, db, l', hl, hexec, rfl⟩ := step_late h
    obtain ⟨howed, hcount⟩ := late_set hl l'
    have hone : 1 ≤ batch C := le_max_left _ _
    have hresult : ∀ {sent' onList lost dropped spent'}, Delivered C sent' n spent' { w.process with db } onList gone lost dropped →
        spent' + l'.pops ≤ spent + l.pops + (setback w (.late clock i)).length * batch C →
        (∀ c, sent'.count c + l.commands.count c = sent.count c + (executes w (.late clock i)).count c + l'.commands.count c) →
        l'.commands ⊆ l.commands → Lived C (executed ++ executes w (.late clock i)) (n + [Ev.late clock i].count (.process .resend))
          (budget + (setback w (.late clock i)).length * batch C) ⟨{ w.process with db }, w.late.set i l'⟩ := by
      intro sent' onList lost dropped spent' hD' hcost hnew hsub
      have hno : [Ev.late clock i].count (.process .resend) = 0 := by simp
      refine ⟨⟨sent', onList, gone, lost, dropped, spent', hno ▸ hD', ?_, ?_⟩, fun c hc => hkeys c (mem_late_set hl hsub c hc)⟩
      · show spent' + owed (w.late.set i l') ≤ _
        omega
      · intro c
        have h := hsent c
        have h' := hcount c
        have h'' := hnew c
        show sent'.count c = _ + (onTheWay (w.late.set i l')).count c
        rw [List.count_append]
        omega
    cases hexec with
    | blpop first db hpop =>
      simp only [blpop, hD.listed, Except.map] at hpop
      split at hpop <;> cases hpop
      have hnone : executes w (.late clock i) = [] := by simp [executes, hl]
      refine hresult (hD.lose (List.singleton_append).symm (putList_same _ _ _)) ?_
        (fun c => by rw [hnone]; rfl) (List.nil_subset _)
      exact Nat.le_add_right _ _
    | lpop m rest db hpop =>
      simp only [lpop, hD.listed, Except.map] at hpop
      cases hpop
      have hnone : executes w (.late clock i) = [] := by simp [executes, hl]
      refine hresult (hD.lose (List.take_append_drop m onList).symm (putList_same _ _ _)) ?_
        (fun c => by rw [hnone]; rfl) (List.nil_subset _)
      have hle := List.length_take_le m onList
      simp only [Late.pops]
      omega
    | xadd c cs db hx =>
      have hexecutes : executes w (.late clock i) = [c] := by simp [executes, hl, hx, Except.isOk, Except.toBool]
      obtain ⟨host, k, hk⟩ := hkeys c (List.mem_flatMap.mpr ⟨_, List.mem_of_getElem? hl, List.mem_cons_self⟩)
      obtain ⟨t, t', -, -, rfl⟩ := xadd_ok hx
      have hlist := listAt_congr (putStream_other w.process.db t' (hk ▸ (streamKey_ne_ingestList host k).symm))
      refine hresult (hD.frame hlist rfl rfl rfl) (Nat.le_add_right _ _) ?_ (List.subset_cons_self c cs)
      intro d
      simp only [hexecutes, Late.commands, List.count_cons, List.count_nil]
      omega
    | refused c cs error hx =>
      have hexecutes : executes w (.late clock i) = [] := by simp [executes, hl, hx, Except.isOk, Except.toBool]
      have hsetback : (setback w (.late clock i)).length = 1 := by simp [setback, hl, hx, Except.isOk, Except.toBool]
      have hmem : c ∈ sent := by
        have h := hsent c
        have hin : c ∈ onTheWay w.late := List.mem_flatMap.mpr ⟨_, List.mem_of_getElem? hl, List.mem_cons_self⟩
        have hpos := List.count_pos_iff.mpr hin
        exact List.count_pos_iff.mp (by omega)
      refine hresult (unsend hD c) (by rw [hsetback]; simp only [Late.pops]; omega) ?_ (List.subset_cons_self c cs)
      intro d
      have hpos := List.count_pos_iff.mpr hmem
      simp only [hexecutes, Late.commands, List.count_erase, List.count_cons, List.count_nil]
      by_cases hd : d = c
      · subst hd
        simp only [beq_self_eq_true, if_true]
        omega
      · have hne : (c == d) = false := by simpa using Ne.symm hd
        simp only [hne, Bool.false_eq_true, if_false]
        omega
    | trim c =>
      have hnone : executes w (.late clock i) = [] := by simp [executes, hl]
      exact hresult (hD.frame (Process.listAt_trim C.sha256 c) rfl rfl rfl) (Nat.le_add_right _ _) (fun c => by rw [hnone]; rfl)
        (List.nil_subset _)

/-! ## The store -/

def processEvents (es : List Ev) : List Process.Ev := es.filterMap processEvent?

/-- The keys have their types, the tasks' commands are for streams, and every trim belongs to a
    sweep of the run. -/
structure Kept (C : Config) (es : List Ev) (w : St) : Prop where
  inv : Process.Inv C w.process
  announced : Announced C (processEvents es) w.process
  trims : ∀ c, .trim c ∈ w.late → ∃ nowMs, .sweep nowMs ∈ processEvents es ∧ c.minidMs = horizon C nowMs c.kind

theorem processEvents_snoc (es : List Ev) (e : Ev) : processEvents (es ++ [e]) = processEvents es ++ (processEvent? e).toList := by
  rw [processEvents, List.filterMap_append]
  cases h : processEvent? e <;> simp [processEvents, h]

/-- What a late command does to the store: an XADD writes, and an XTRIM expires, what it says. -/
theorem executes_effect {db db' : Store} {clock : U64} {l l' : Late} (h : Executes db clock l db' l')
    (hkeys : ∀ c ∈ l.commands, ∃ h k, c.key = streamKey h k) :
    ∃ a, Process.Effect C.sha256 db a db' ∧
      (∀ h k i fields, a = .write h k i fields → ∃ c cs, l = .pipeline (c :: cs) ∧ xadd db c.key clock c.fields = .ok db') ∧
      ∀ h k bound, a = .expire h k bound →
        ∃ c, l = .trim c ∧ c.kind = k ∧ (bound.ms.val : Int) = c.minidMs ∧ bound.seq = 0 := by
  cases h with
  | blpop first db' hpop =>
    obtain ⟨xs, he⟩ := Process.pop_effect C.sha256 (blpop_ok hpop)
    exact ⟨_, he, fun _ _ _ _ ha => (nomatch ha), fun _ _ _ ha => nomatch ha⟩
  | lpop n rest db' hpop =>
    obtain ⟨xs, he⟩ := Process.pop_effect C.sha256 (lpop_ok hpop)
    exact ⟨_, he, fun _ _ _ _ ha => (nomatch ha), fun _ _ _ ha => nomatch ha⟩
  | xadd c cs db' hx =>
    obtain ⟨host, kind, hk⟩ := hkeys c List.mem_cons_self
    obtain ⟨t, t', ht, hadd, hdb⟩ := xadd_ok hx
    obtain ⟨i, hi, -⟩ := Stream.xadd_entries hadd
    rw [hk] at ht hdb
    refine ⟨.write host kind i c.fields, ?_, fun _ _ _ _ _ => ⟨c, cs, rfl, hx⟩, fun _ _ _ ha => nomatch ha⟩
    rw [hdb]
    exact .write ht hadd hi
  | refused c cs error hx => exact ⟨.nothing, .nothing, fun _ _ _ _ ha => (nomatch ha), fun _ _ _ ha => nomatch ha⟩
  | trim c =>
    rcases Process.trim_effect C.sha256 db c with he | ⟨minId, hms, hseq, he⟩
    · exact ⟨_, he, fun _ _ _ _ ha => (nomatch ha), fun _ _ _ ha => nomatch ha⟩
    · refine ⟨_, he, fun _ _ _ _ ha => (nomatch ha), ?_⟩
      intro h k bound ha
      cases ha
      exact ⟨c, rfl, rfl, hms, hseq⟩

theorem mem_inFlight_trim {s : Process.St} {received : Nat} {trim : Bool} {c : Call} (h : .trim c ∈ inFlight C s received trim) :
    c ∈ s.calls := by
  rcases List.mem_append.mp h with h | h
  · split at h
    · exact absurd (List.mem_of_mem_take h) (by simp)
    · split at h
      · exact absurd (List.mem_of_mem_take h) (by simp)
      · cases h
    · simp at h
  · split at h
    · obtain ⟨d, hd, he⟩ := List.mem_map.mp h
      cases he
      exact List.mem_of_mem_take hd
    · cases h

theorem step_kept {es : List Ev} {w w' : St} {e : Ev} (hK : Kept C es w)
    (hlate : ∀ c ∈ onTheWay w.late, ∃ h k, c.key = streamKey h k) (h : step C w e = some w') : Kept C (es ++ [e]) w' := by
  obtain ⟨hI, hA, htrims⟩ := hK
  have hlater : ∀ {c : Call}, (∃ nowMs, .sweep nowMs ∈ processEvents es ∧ c.minidMs = horizon C nowMs c.kind) →
      ∃ nowMs, .sweep nowMs ∈ processEvents (es ++ [e]) ∧ c.minidMs = horizon C nowMs c.kind := by
    intro c hc
    obtain ⟨nowMs, hmem, hms⟩ := hc
    exact ⟨nowMs, by rw [processEvents_snoc]; exact List.mem_append_left _ hmem, hms⟩
  cases e with
  | process e =>
    obtain ⟨s, hs, rfl⟩ := Option.map_eq_some_iff.mp h
    exact ⟨Process.step_inv hI hs, by rw [processEvents_snoc]; exact Process.step_announced hA hs, fun c hc => hlater (htrims c hc)⟩
  | restart received trim =>
    cases h
    refine ⟨⟨hI.typed, ⟨fun c hc => (nomatch hc), fun c hc => nomatch hc⟩⟩, fun c hc => (nomatch hc), ?_⟩
    intro c hc
    rcases List.mem_append.mp hc with hc | hc
    · exact hlater (htrims c hc)
    · exact hlater (hA c (mem_inFlight_trim hc))
  | late clock i =>
    obtain ⟨l, db, l', hl, hexec, rfl⟩ := step_late h
    have hl' : ∀ c, l' ≠ .trim c := by cases hexec <;> intro c hc <;> cases hc
    obtain ⟨a, he, -, -⟩ := executes_effect hexec fun c hc => hlate c (List.mem_flatMap.mpr ⟨l, List.mem_of_getElem? hl, hc⟩)
    refine ⟨⟨he.typed hI.typed, ⟨hI.keys.pending, hI.keys.pipeline⟩⟩, fun c hc => hlater (hA c hc), ?_⟩
    intro c hc
    rcases List.mem_or_eq_of_mem_set hc with hc | hc
    · exact hlater (htrims c hc)
    · exact absurd hc.symm (hl' c)

theorem step_recorded {h : String} {k : Kind} {t : Stream Fields} {es : List Ev} {cs : List Command} {w w' : St} {e : Ev}
    (hK : Kept C es w) (hlate : ∀ c ∈ onTheWay w.late, ∃ h k, c.key = streamKey h k)
    (hR : Recorded C h k (processEvents es) cs t w.process) (hs : step C w e = some w') :
    Recorded C h k (processEvents (es ++ [e])) (cs ++ executes w e) t w'.process := by
  rw [processEvents_snoc]
  cases e with
  | process e =>
    obtain ⟨s, hstep, rfl⟩ := Option.map_eq_some_iff.mp hs
    exact Process.step_recorded hK.inv.keys hK.announced hR hstep
  | restart received trim =>
    cases hs
    rw [show (processEvent? (.restart received trim)).toList = [] from rfl, List.append_nil,
      show executes w (.restart received trim) = [] from rfl, List.append_nil]
    exact hR
  | late clock i =>
    obtain ⟨l, db, l', hl, hexec, rfl⟩ := step_late hs
    rw [show (processEvent? (.late clock i)).toList = [] from rfl, List.append_nil]
    obtain ⟨a, he, hwrite, hexpire⟩ := executes_effect hexec fun c hc => hlate c (List.mem_flatMap.mpr ⟨l, List.mem_of_getElem? hl, hc⟩)
    by_cases hx : ∃ c cs, l = .pipeline (c :: cs) ∧ xadd w.process.db c.key clock c.fields = .ok db
    · obtain ⟨c, cs', rfl, hx⟩ := hx
      have hexecutes : executes w (.late clock i) = [c] := by simp [executes, hl, hx, Except.isOk, Except.toBool]
      rw [hexecutes]
      exact Process.recorded_write hR hx
    · have hexecutes : executes w (.late clock i) = [] := by
        cases hexec with
        | xadd c cs _ hok => exact absurd ⟨c, cs, rfl, hok⟩ hx
        | refused c cs error herror => simp [executes, hl, herror, Except.isOk, Except.toBool]
        | _ => simp [executes, hl]
      rw [hexecutes, List.append_nil]
      refine Process.recorded_effect hR he (fun i fields ha => hx (hwrite h k i fields ha)) ?_
      intro bound ha
      obtain ⟨c, rfl, rfl, hms, hseq⟩ := hexpire h k bound ha
      obtain ⟨nowMs, hmem, hhorizon⟩ := hK.trims c (List.mem_of_getElem? hl)
      exact ⟨nowMs, hmem, hms.trans hhorizon, hseq⟩

/-! ## Over a run -/

theorem init_lived {w : St} (hw : (machine C).init w) : Lived C [] 0 0 w := by
  obtain ⟨hinit, hlate⟩ := hw
  refine ⟨⟨[], _, _, _, _, 0, Process.init_delivered hinit, ?_, ?_⟩, ?_⟩ <;> simp [hlate, owed, onTheWay]

theorem run_lived {w w' : St} {es : List Ev} (hw : (machine C).init w) (hrun : (machine C).run w es = some w') :
    Lived C (applied C w es) (resends es) (setbacks C w es * batch C) w' ∧
      ∀ h k t, streamAt w.process.db (streamKey h k) = .ok t →
        Recorded C h k (processEvents es) (applied C w es) t w'.process := by
  have hall := Machine.run_history (M := machine C) (s := w)
    (I := fun es w' => Kept C es w' ∧ Lived C (applied C w es) (resends es) (setbacks C w es * batch C) w' ∧
      ∀ h k t, streamAt w.process.db (streamKey h k) = .ok t →
        Recorded C h k (processEvents es) (applied C w es) t w'.process)
    ?_ ?_ hrun
  · exact hall.2
  · have hnone : setbacks C w [] * batch C = 0 := Nat.zero_mul _
    refine ⟨⟨Process.init_inv hw.1, ?_, ?_⟩, by rw [hnone]; exact init_lived hw, ?_⟩
    · intro c hc
      rw [hw.1.2.2.2.1] at hc
      cases hc
    · intro c hc
      rw [hw.2] at hc
      cases hc
    · intro h k t ht
      exact ⟨Process.ledgerOf t, [], Process.holds_ledgerOf ht, (List.append_nil _).symm, rfl, fun x hx => .inl hx⟩
  · intro es u e u' hu hI he
    obtain ⟨hK, hL, hR⟩ := hI
    have happlied : applied C w (es ++ [e]) = applied C w es ++ executes u e := Machine.collect_snoc e hu
    have hsetbacks : setbacks C w (es ++ [e]) = setbacks C w es + (setback u e).length := by
      rw [setbacks, Machine.collect_snoc e hu, List.length_append]
      rfl
    rw [happlied, hsetbacks, resends, List.count_append, Nat.add_mul]
    exact ⟨step_kept hK hL.late he, step_lived hK.inv.keys hL he, fun h k t ht => step_recorded hK hL.late (hR h k t ht) he⟩

/-- Over any number of processes on one Redis, each ended at any of its awaits: all records that
    were pushed are executed, on their way, still to come, or among at most one batch for each
    failure and each restart; a record is executed more often than it was pushed only where
    pipelines were sent again, so not for a restart; and what was executed is in its stream, as
    far as no sweep has its horizon above it. -/
theorem a_restart_costs_a_batch (C : Config) {w w' : St} {es : List Ev} (hw : (machine C).init w)
    (hrun : (machine C).run w es = some w') :
    ∃ (missing : List Command) (onList : List String), missing.length ≤ setbacks C w es * batch C ∧
      listAt w'.process.db ingestList = .ok onList ∧
      (∀ c, (commands C.adapter w'.process.pushed).count c ≤
        (applied C w es ++ onTheWay w'.late ++ missing).count c +
          (w'.process.consumer.pending ++ commands C.adapter (w'.process.consumer.inHand ++ onList)).count c) ∧
      (∀ c, (applied C w es ++ onTheWay w'.late).count c ≤ (resends es + 1) * (commands C.adapter w'.process.pushed).count c) ∧
      ∀ h k, ∃ t t' added, streamAt w.process.db (streamKey h k) = .ok t ∧ streamAt w'.process.db (streamKey h k) = .ok t' ∧
        added.map (·.2) = fieldsFor (applied C w es) (streamKey h k) ∧ t'.entries.Sublist (t.entries ++ added) ∧
        ∀ x ∈ t.entries ++ added, x ∈ t'.entries ∨ Expired C k (processEvents es) x := by
  obtain ⟨⟨⟨sent, onList, gone, lost, dropped, spent, hD, hspent, hsent⟩, -⟩, hR⟩ := run_lived hw hrun
  refine ⟨dropped ++ commands C.adapter lost, onList, ?_, hD.listed, ?_, ?_, ?_⟩
  · have hlost : (commands C.adapter lost).length ≤ lost.length := List.length_filterMap_le _ _
    have hfew := hD.few
    rw [List.length_append]
    omega
  · intro c
    have hperm : (commands C.adapter w'.process.pushed).Perm
        (commands C.adapter (gone ++ lost ++ (w'.process.consumer.inHand ++ onList))) := hD.pushed.filterMap _
    have hpushed := hperm.count_eq c
    have hgone := hD.atLeast c
    have hcount := hsent c
    simp only [Consumer.commands_append, List.count_append] at hpushed ⊢
    omega
  · intro c
    have hgone : (commands C.adapter gone).Sublist (commands C.adapter w'.process.pushed) :=
      ((List.sublist_append_left gone _).trans hD.order).filterMap _
    calc (applied C w es ++ onTheWay w'.late).count c
        = sent.count c := by rw [List.count_append, hsent c]
      _ ≤ (resends es + 1) * (commands C.adapter gone).count c := (Nat.le_add_right _ _).trans (hD.atMost c)
      _ ≤ (resends es + 1) * (commands C.adapter w'.process.pushed).count c := Nat.mul_le_mul_left _ (hgone.count_le c)
  · intro h k
    obtain ⟨t, ht⟩ := hw.1.1.streams h k
    obtain ⟨l, added, ⟨t', ht', hkept, -⟩, hwritten, hadded, hexpired⟩ := hR h k t ht
    rw [hwritten] at hexpired
    refine ⟨t, t', added, ht, ht', hadded, ?_, ?_⟩
    · rw [hkept, ← hwritten]
      exact l.sub
    · rw [hkept]
      exact hexpired

/-- A process ends while its pipeline is on its way. The next one takes another record from the
    list, and only then Redis executes the pipeline. -/
def helloRestart : List Ev :=
  [.process (.ingest .blpop), .process (.ingest .lpop), .restart 1 false, .process (.ingest (.push helloText)),
    .process (.ingest .blpop), .late 5000 0]

theorem a_pipeline_outlives_its_process :
    ∃ w, (machine Process.helloConfig).run ⟨Process.helloStart, []⟩ helloRestart = some w ∧
      Process.seen w.process "prod-a" .log = (some [Process.helloEntry], []) ∧
      ∃ missing : List Command, missing.length ≤ 200 ∧ ∀ c, (commands helloAdapter w.process.pushed).count c ≤
        (applied Process.helloConfig ⟨Process.helloStart, []⟩ helloRestart ++ onTheWay w.late ++ missing).count c +
          (commands helloAdapter w.process.consumer.inHand).count c := by
  have hrun : ((machine Process.helloConfig).run ⟨Process.helloStart, []⟩ helloRestart).map
      (fun w => (Process.seen w.process "prod-a" .log, w.process.consumer.pending, listAt w.process.db ingestList)) =
        some ((some [Process.helloEntry], []), [], .ok []) := by decide +kernel
  obtain ⟨w, hw, hview⟩ := Option.map_eq_some_iff.mp hrun
  obtain ⟨hseen, hview⟩ := Prod.mk.inj hview
  obtain ⟨hpending, hlist⟩ := Prod.mk.inj hview
  have hsetbacks : setbacks Process.helloConfig ⟨Process.helloStart, []⟩ helloRestart = 1 := by decide +kernel
  obtain ⟨missing, onList, hfew, hlisted, hcount, -, -⟩ :=
    a_restart_costs_a_batch Process.helloConfig ⟨Process.helloStart_init, rfl⟩ hw
  rw [hlist] at hlisted
  cases hlisted
  rw [hsetbacks] at hfew
  refine ⟨w, hw, hseen, missing, hfew, ?_⟩
  intro c
  have h := hcount c
  rwa [hpending, List.nil_append, List.append_nil] at h

end LogSump.Server.Restarts
