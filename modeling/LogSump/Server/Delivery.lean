/-
  LogSump.Server.Delivery — what becomes of a pushed record, with every failure of
  `LogSump.Server.Process` and beside the trimmer.

  The consumer takes entries off the list before their records are written, so a failure
  loses what it holds; and a pipeline that the client sends again writes its records again.
  How much of either, over a whole run:

  - `step_delivered`: the pushes are gone, lost, in hand and on the list; the commands of
    those gone are executed, pending and dropped.
  - `records_come_in_order`: a stream gets the records that were pushed for it in the order of
    the pushes and each once; a pipeline that is sent again adds at most one of each.
  - `a_failure_costs_a_batch`: every failure costs at most one batch of records, and a record
    that is missing beyond that has expired.
-/

import LogSump.Server.Archive
import LogSump.Server.Routing

namespace LogSump.Server.Process

open Common Redis Foundation
open Consumer (Command commands fieldsFor routed)

/-- The command that a step executes, unless Redis refuses it. -/
def executes (s : St) : Ev → List Command
  | .ingest (.xadd clock) =>
    match s.consumer with
    | .executing (c :: _) => if (xadd s.db c.key clock c.fields).isOk then [c] else []
    | _ => []
  | _ => []

/-- A command fails or is refused, or its reply is lost. -/
def failed (s : St) (e : Ev) : List Ev :=
  match e with
  | .ingest .blpopLost | .ingest .lpopFails | .ingest .lpopLost | .ingest .executeFails => [e]
  | .ingest (.xadd _) => if executes s e = [] then [e] else []
  | _ => []

variable (C : Config)

/-- The commands that a run executes, in their order. -/
def applied (s : St) (es : List Ev) : List Command := (machine C).collect executes s es

def failures (s : St) (es : List Ev) : Nat := ((machine C).collect failed s es).length

/-- The entries that one cycle takes. -/
def batch : Nat := max 1 C.batchSize.toNat

/-- Everything pushed is gone, lost, in hand or on the list, and the commands of what is gone
    were executed, are pending, or were dropped. -/
structure Delivered (executed : List Command) (resends budget : Nat) (s : St) (onList gone lost : List String)
    (dropped : List Command) : Prop where
  listed : listAt s.db ingestList = .ok onList
  order : (gone ++ (s.consumer.inHand ++ onList)).Sublist s.pushed
  pushed : s.pushed.Perm (gone ++ lost ++ (s.consumer.inHand ++ onList))
  queued : resends = 0 → (executed ++ s.consumer.pending).Sublist (commands C.adapter gone)
  atMost : ∀ c, executed.count c + s.consumer.pending.count c ≤ (resends + 1) * (commands C.adapter gone).count c
  atLeast : ∀ c, (commands C.adapter gone).count c ≤ executed.count c + dropped.count c + s.consumer.pending.count c
  pipeline : ∀ c, s.pipeline.count c ≤ (commands C.adapter gone).count c
  pending : s.consumer.pending.Sublist s.pipeline
  size : s.pipeline.length ≤ batch C
  few : lost.length + dropped.length ≤ budget

variable {C}

theorem init_delivered {s : St} (h : (machine C).init s) : Delivered C [] 0 0 s s.pushed [] [] [] := by
  obtain ⟨-, hidle, hpipeline, -, hlist⟩ := h
  have hpending : s.consumer.pending = [] := by rw [hidle]; rfl
  have hhand : s.consumer.inHand = [] := by rw [hidle]; rfl
  refine ⟨hlist, ?_, ?_, ?_, ?_, ?_, ?_, ?_, ?_, ?_⟩ <;> simp [hpending, hhand, hpipeline, commands]

/-! ## The consumer's steps -/

section

variable {executed dropped : List Command} {n budget : Nat} {s : St} {onList gone lost : List String}

/-- A step that leaves the consumer and its list as they are. -/
theorem Delivered.frame (hD : Delivered C executed n budget s onList gone lost dropped) {s' : St}
    (hlist : listAt s'.db ingestList = listAt s.db ingestList) (hc : s'.consumer = s.consumer) (hpushed : s'.pushed = s.pushed)
    (hp : s'.pipeline = s.pipeline) : Delivered C executed n budget s' onList gone lost dropped := by
  obtain ⟨h1, h2, h3, h4, h5, h6, h7, h8, h9, h10⟩ := hD
  exact ⟨hlist.trans h1, by rwa [hc, hpushed], by rwa [hc, hpushed], by rwa [hc], by rwa [hc], by rwa [hc], by rwa [hp],
    by rwa [hc, hp], by rwa [hp], h10⟩

theorem Delivered.mono (hD : Delivered C executed n budget s onList gone lost dropped) {more : Nat} (h : budget ≤ more) :
    Delivered C executed n more s onList gone lost dropped :=
  { hD with few := hD.few.trans h }

theorem Delivered.push (hD : Delivered C executed n budget s onList gone lost dropped) (raw : String) :
    Delivered C executed n budget
      { s with db := putList s.db ingestList (onList ++ [raw]), pushed := s.pushed ++ [raw] } (onList ++ [raw]) gone lost dropped where
  listed := putList_same _ _ _
  order := by simpa [List.append_assoc] using hD.order.append_right [raw]
  pushed := by simpa [List.append_assoc] using hD.pushed.append_right [raw]
  queued := hD.queued
  atMost := hD.atMost
  atLeast := hD.atLeast
  pipeline := hD.pipeline
  pending := hD.pending
  size := hD.size
  few := hD.few

/-- The consumer stops. Of the commands that it has queued the first `k` are on their way; the
    others, or the entries in its hands, are lost. -/
theorem Delivered.stop (hD : Delivered C executed n budget s onList gone lost dropped) (k : Nat) :
    Delivered C (executed ++ s.consumer.pending.take k) n (budget + (s.consumer.inHand.length + (s.consumer.pending.drop k).length))
      { s with consumer := .idle, pipeline := [] } onList gone (lost ++ s.consumer.inHand) (dropped ++ s.consumer.pending.drop k) where
  listed := hD.listed
  order := by
    refine List.Sublist.trans ?_ hD.order
    exact (List.Sublist.refl gone).append (List.sublist_append_right _ _)
  pushed := by
    have h := hD.pushed
    simpa [Consumer.Pc.inHand, List.append_assoc] using h
  queued h0 := by
    refine List.Sublist.trans ?_ (hD.queued h0)
    rw [show Consumer.Pc.idle.pending = [] from rfl, List.append_nil]
    exact (List.Sublist.refl executed).append (List.take_sublist k _)
  atMost c := by
    have h := hD.atMost c
    have hidle : Consumer.Pc.idle.pending.count c = 0 := rfl
    have htake := (List.take_sublist k s.consumer.pending).count_le c
    simp only [hidle, List.count_append]
    omega
  atLeast c := by
    have h := hD.atLeast c
    have hidle : Consumer.Pc.idle.pending.count c = 0 := rfl
    have hsplit := congrArg (List.count c) (List.take_append_drop k s.consumer.pending)
    simp only [hidle, List.count_append] at hsplit ⊢
    omega
  pipeline c := by simp
  pending := List.Sublist.refl []
  size := Nat.zero_le _
  few := by
    have h := hD.few
    simp only [List.length_append]
    omega

/-- The consumer is idle, and what it held is lost: entries in hand, or commands. -/
theorem Delivered.fail (hD : Delivered C executed n budget s onList gone lost dropped)
    (hsize : s.consumer.inHand.length + s.consumer.pending.length ≤ batch C) :
    Delivered C executed n (budget + batch C) { s with consumer := .idle, pipeline := [] } onList gone
      (lost ++ s.consumer.inHand) (dropped ++ s.consumer.pending) := by
  have hstop := hD.stop 0
  rw [List.take_zero, List.append_nil, List.drop_zero] at hstop
  exact hstop.mono (Nat.add_le_add_left hsize _)

/-- The batch in hand becomes the pipeline. -/
theorem Delivered.queue (hD : Delivered C executed n budget s onList gone lost dropped) {first : String}
    {rest left : List String} {db : Store} (hpc : s.consumer = .popped first) (hsplit : onList = rest ++ left)
    (hlist : listAt db ingestList = .ok left) (hsize : rest.length + 1 ≤ batch C) :
    Delivered C executed n budget
      { s with
        db
        consumer := Consumer.execute (commands C.adapter (first :: rest))
        pipeline := (Consumer.execute (commands C.adapter (first :: rest))).pending }
      left (gone ++ first :: rest) lost dropped := by
  obtain ⟨hp, hh⟩ := Consumer.pending_execute (commands C.adapter (first :: rest))
  have hpending : s.consumer.pending = [] := by rw [hpc]; rfl
  have hhand : s.consumer.inHand = [first] := by rw [hpc]; rfl
  refine ⟨hlist, ?_, ?_, ?_, ?_, ?_, ?_, .refl _, ?_, hD.few⟩
  · have h := hD.order
    simpa [hh, hhand, hsplit] using h
  · refine hD.pushed.trans (List.perm_iff_count.mpr ?_)
    intro x
    simp only [hh, hhand, hsplit, List.count_append, List.count_cons, List.count_nil]
    omega
  · intro h0
    have h := hD.queued h0
    simp only [hp, hpending, List.append_nil, Consumer.commands_append] at h ⊢
    exact h.append (.refl _)
  · intro c
    have h := hD.atMost c
    simp only [hp, hpending, List.count_nil, Consumer.commands_append, List.count_append, Nat.mul_add, Nat.succ_mul] at h ⊢
    omega
  · intro c
    have h := hD.atLeast c
    simp only [hp, hpending, List.count_nil, Consumer.commands_append, List.count_append] at h ⊢
    omega
  · intro c
    simp only [hp, Consumer.commands_append, List.count_append]
    omega
  · simp only [hp]
    exact (List.length_filterMap_le _ _).trans hsize

/-- A command is executed, and so it is not pending any more; or it is refused. -/
theorem Delivered.xadd (hD : Delivered C executed n budget s onList gone lost dropped) {c : Command} {cs : List Command}
    {db : Store} (hpc : s.consumer = .executing (c :: cs)) (hlist : listAt db ingestList = listAt s.db ingestList) :
    Delivered C (executed ++ [c]) n budget { s with db, consumer := Consumer.execute cs } onList gone lost dropped ∧
      Delivered C executed n (budget + batch C) { s with consumer := Consumer.execute cs } onList gone lost (dropped ++ [c]) := by
  obtain ⟨hp, hh⟩ := Consumer.pending_execute cs
  have hpending : s.consumer.pending = c :: cs := by rw [hpc]; rfl
  have hhand : s.consumer.inHand = [] := by rw [hpc]; rfl
  have hsub : cs.Sublist s.pipeline := (List.sublist_cons_self c cs).trans (hpending ▸ hD.pending)
  have horder := hD.order
  have hpushed := hD.pushed
  have hqueued := hD.queued
  have hatMost := hD.atMost
  have hatLeast := hD.atLeast
  simp only [hpending, hhand] at horder hpushed hqueued hatMost hatLeast
  constructor
  · refine ⟨hlist.trans hD.listed, by simpa [hh] using horder, by simpa [hh] using hpushed, ?_, ?_, ?_, hD.pipeline,
      by rw [hp]; exact hsub, hD.size, hD.few⟩
    · intro h0
      simpa [hp] using hqueued h0
    · intro d
      have h := hatMost d
      simp only [hp, List.count_append, List.count_cons, List.count_nil] at h ⊢
      omega
    · intro d
      have h := hatLeast d
      simp only [hp, List.count_append, List.count_cons, List.count_nil] at h ⊢
      omega
  · refine ⟨hD.listed, by simpa [hh] using horder, by simpa [hh] using hpushed, ?_, ?_, ?_, hD.pipeline,
      by rw [hp]; exact hsub, hD.size, ?_⟩
    · intro h0
      refine List.Sublist.trans ?_ (hqueued h0)
      rw [hp]
      exact (List.Sublist.refl executed).append (List.sublist_cons_self c cs)
    · intro d
      have h := hatMost d
      simp only [hp, List.count_cons] at h ⊢
      omega
    · intro d
      have h := hatLeast d
      simp only [hp, List.count_append, List.count_cons, List.count_nil] at h ⊢
      omega
    · have h := hD.few
      have hone : 1 ≤ batch C := le_max_left _ _
      simp only [List.length_append, List.length_singleton]
      omega

/-- A reply is lost, and with it what was popped. -/
theorem Delivered.lose (hD : Delivered C executed n budget s onList gone lost dropped) {popped left : List String} {db : Store}
    (hsplit : onList = popped ++ left) (hlist : listAt db ingestList = .ok left) :
    Delivered C executed n (budget + popped.length) { s with db } left gone (lost ++ popped) dropped where
  listed := hlist
  order := by
    refine List.Sublist.trans ?_ hD.order
    rw [hsplit]
    exact (List.Sublist.refl gone).append ((List.Sublist.refl _).append (List.sublist_append_right _ _))
  pushed := by
    refine hD.pushed.trans (List.perm_iff_count.mpr ?_)
    intro x
    simp only [hsplit, List.count_append]
    omega
  queued := hD.queued
  atMost := hD.atMost
  atLeast := hD.atLeast
  pipeline := hD.pipeline
  pending := hD.pending
  size := hD.size
  few := by
    have h := hD.few
    simp only [List.length_append]
    omega

/-- BLPOP forgets the last pipeline. -/
theorem Delivered.forget (hD : Delivered C executed n budget s onList gone lost dropped) (hidle : s.consumer = .idle) :
    Delivered C executed n budget { s with pipeline := [] } onList gone lost dropped := by
  obtain ⟨h1, h2, h3, h4, h5, h6, -, -, -, h10⟩ := hD
  have hpending : s.consumer.pending = [] := by rw [hidle]; rfl
  exact ⟨h1, h2, h3, h4, h5, h6, fun c => Nat.zero_le _, by rw [hpending], Nat.zero_le _, h10⟩

/-- An entry comes into the consumer's hands. -/
theorem Delivered.pop (hD : Delivered C executed n budget s onList gone lost dropped) {first : String} {left : List String}
    {db : Store} (hidle : s.consumer = .idle) (hsplit : onList = first :: left) (hlist : listAt db ingestList = .ok left) :
    Delivered C executed n budget { s with db, consumer := .popped first, pipeline := [] } left gone lost dropped := by
  obtain ⟨-, h2, h3, h4, h5, h6, -, -, -, h10⟩ := hD
  rw [hidle, hsplit] at h2 h3
  rw [hidle] at h4 h5 h6
  exact ⟨hlist, h2, h3, h4, h5, h6, fun c => Nat.zero_le _, .refl _, Nat.zero_le _, h10⟩

/-- The pipeline is sent again. -/
theorem Delivered.resend (hD : Delivered C executed n budget s onList gone lost dropped) (hhand : s.consumer.inHand = []) :
    Delivered C executed (n + 1) budget { s with consumer := Consumer.execute s.pipeline } onList gone lost dropped := by
  obtain ⟨hp, hh⟩ := Consumer.pending_execute s.pipeline
  have hcount := fun c => hD.pending.count_le c
  refine ⟨hD.listed, ?_, ?_, fun h0 => absurd h0 (Nat.succ_ne_zero n), ?_, ?_, hD.pipeline,
    by rw [hp], hD.size, hD.few⟩
  · simpa [hh, hhand] using hD.order
  · simpa [hh, hhand] using hD.pushed
  · intro c
    have h := hD.atMost c
    have hle := hD.pipeline c
    simp only [hp, Nat.succ_mul] at h ⊢
    omega
  · intro c
    have h := hD.atLeast c
    have hle := hcount c
    simp only [hp]
    omega

end

theorem listAt_trim (sha256 : String → String) {db : Store} (c : Call) :
    listAt (Trimmer.trimStream false db c.dockerHost c.kind c.minidMs).1 ingestList = listAt db ingestList := by
  rcases trim_effect sha256 db c with he | ⟨minId, -, -, he⟩
  · generalize hdb : (Trimmer.trimStream false db c.dockerHost c.kind c.minidMs).1 = db' at he
    cases he
    rfl
  · generalize hdb : (Trimmer.trimStream false db c.dockerHost c.kind c.minidMs).1 = db' at he
    cases he
    exact listAt_congr (putStream_other db _ (streamKey_ne_ingestList c.dockerHost c.kind).symm)

theorem step_delivered {executed dropped : List Command} {n budget : Nat} {s s' : St} {e : Ev} {onList gone lost : List String}
    (hK : StreamKeys s) (hD : Delivered C executed n budget s onList gone lost dropped) (h : step C s e = some s') :
    ∃ onList gone lost dropped, Delivered C (executed ++ executes s e) (n + [e].count .resend) (budget + (failed s e).length * batch C) s'
      onList gone lost dropped := by
  have hplain : ∀ {onList gone lost dropped}, executes s e = [] → failed s e = [] → [e].count .resend = 0 →
      Delivered C executed n budget s' onList gone lost dropped → ∃ onList gone lost dropped,
        Delivered C (executed ++ executes s e) (n + [e].count .resend) (budget + (failed s e).length * batch C) s' onList gone lost dropped := by
    intro onList gone lost dropped hexec hok hcount hD
    rw [hexec, hok, hcount, List.append_nil, List.length_nil, Nat.zero_mul]
    exact ⟨onList, gone, lost, dropped, hD⟩
  have hfailed : ∀ {onList gone lost dropped}, executes s e = [] → failed s e = [e] → [e].count .resend = 0 →
      Delivered C executed n (budget + batch C) s' onList gone lost dropped → ∃ onList gone lost dropped,
        Delivered C (executed ++ executes s e) (n + [e].count .resend) (budget + (failed s e).length * batch C) s' onList gone lost dropped := by
    intro onList gone lost dropped hexec hfail hcount hD
    rw [hexec, hfail, hcount, List.append_nil, List.length_singleton, Nat.one_mul]
    exact ⟨onList, gone, lost, dropped, hD⟩
  have hone : 1 ≤ batch C := le_max_left _ _
  have hrest : ∀ {popped : List String}, 1 < C.batchSize → popped.length ≤ (C.batchSize - 1).toNat → popped.length + 1 ≤ batch C := by
    intro popped hbatch hlen
    have hle : C.batchSize.toNat ≤ batch C := le_max_right _ _
    omega
  cases step_moves h with
  | ingest e c hc =>
    cases hc with
    | push raw db hdb =>
      simp only [rpush, hD.listed, Except.map] at hdb
      cases hdb
      exact hplain rfl rfl rfl (hD.push raw)
    | nothing e he hidle => rcases he with rfl | rfl <;> exact hplain rfl rfl rfl (hD.forget hidle)
    | blpop first db hidle hdb =>
      simp only [blpop, hD.listed, Except.map] at hdb
      split at hdb <;> cases hdb
      exact hplain rfl rfl rfl (hD.pop hidle rfl (putList_same _ _ _))
    | lpop first rest db hpc hbatch hdb =>
      simp only [lpop, hD.listed, Except.map] at hdb
      cases hdb
      have hlen := List.length_take_le (C.batchSize - 1).toNat onList
      exact hplain rfl rfl rfl (hD.queue hpc (List.take_append_drop _ onList).symm (putList_same _ _ _) (hrest hbatch hlen))
    | single first hpc _ => exact hplain rfl rfl rfl (hD.queue hpc (List.nil_append onList).symm hD.listed hone)
    | lpopError first error _ herror =>
      simp only [lpop, hD.listed, Except.map] at herror
      cases herror
    | lpopFails first hpc =>
      have hsize : s.consumer.inHand.length + s.consumer.pending.length ≤ batch C := by
        rw [show s.consumer = .popped first from hpc]
        exact hone
      exact hfailed rfl rfl rfl (hD.fail hsize)
    | blpopLost first db hidle hdb =>
      simp only [blpop, hD.listed, Except.map] at hdb
      split at hdb <;> cases hdb
      exact hfailed rfl rfl rfl
        (((hD.forget hidle).lose (List.singleton_append).symm (putList_same _ _ _)).mono (Nat.add_le_add_left hone _))
    | lpopLost first rest db hpc hbatch hdb =>
      simp only [lpop, hD.listed, Except.map] at hdb
      cases hdb
      have hlen := List.length_take_le (C.batchSize - 1).toNat onList
      exact hfailed rfl rfl rfl ((hD.lose (List.take_append_drop _ onList).symm (putList_same _ _ _)).mono
        (Nat.add_le_add_left (Nat.le_of_succ_le (hrest hbatch hlen)) _))
    | xadd clock c cs db hpc hdb =>
      have hpc : s.consumer = .executing (c :: cs) := hpc
      obtain ⟨host, k, hk⟩ := hK.pending c (by rw [hpc]; exact List.mem_cons_self)
      have hexec : executes s (.ingest (.xadd clock)) = [c] := by
        simp only [executes, hpc, hdb, Except.isOk, Except.toBool, if_true]
      have hok : failed s (.ingest (.xadd clock)) = [] := by simp [failed, hexec]
      obtain ⟨t, t', -, -, rfl⟩ := xadd_ok hdb
      have hlist := listAt_congr (putStream_other s.db t' (hk ▸ (streamKey_ne_ingestList host k).symm))
      rw [hexec, hok, List.length_nil, Nat.zero_mul]
      exact ⟨onList, gone, lost, dropped, (hD.xadd hpc hlist).1⟩
    | xaddError clock c cs error hpc herror =>
      have hexec : executes s (.ingest (.xadd clock)) = [] := by
        simp [executes, show s.consumer = .executing (c :: cs) from hpc, herror, Except.isOk, Except.toBool]
      have hfail : failed s (.ingest (.xadd clock)) = [.ingest (.xadd clock)] := by simp [failed, hexec]
      exact hfailed hexec hfail rfl (hD.xadd hpc (rfl : listAt s.db ingestList = listAt s.db ingestList)).2
    | executeFails cs hpc =>
      have hhand : s.consumer.inHand = [] := by rw [show s.consumer = .executing cs from hpc]; rfl
      have hsize : s.consumer.inHand.length + s.consumer.pending.length ≤ batch C := by
        rw [hhand, List.length_nil, Nat.zero_add]
        exact hD.pending.length_le.trans hD.size
      exact hfailed rfl rfl rfl (hD.fail hsize)
  | resend hhand _ =>
    rw [show executes s .resend = [] from rfl, show failed s .resend = [] from rfl, List.append_nil, List.length_nil, Nat.zero_mul]
    exact ⟨onList, gone, lost, dropped, hD.resend hhand⟩
  | sweep _ _ => exact hplain rfl rfl rfl (hD.frame rfl rfl rfl rfl)
  | trim c calls _ => exact hplain rfl rfl rfl (hD.frame (listAt_trim C.sha256 c) rfl rfl rfl)
  | trimFails _ _ _ => exact hplain rfl rfl rfl (hD.frame rfl rfl rfl rfl)
  | provision a xs =>
    exact hplain rfl rfl rfl (hD.frame (listAt_congr (putSet_other s.db xs (authKey_ne_ingestList C.sha256 a).symm)) rfl rfl rfl)

/-! ## The streams -/

/-- A sweep of the run has its horizon above the entry. -/
def Expired (C : Config) (k : Kind) (es : List Ev) (x : StreamId × Fields) : Prop :=
  ∃ nowMs, .sweep nowMs ∈ es ∧ (x.1.ms.val : Int) < horizon C nowMs k

/-- The calls that are left belong to a sweep of the run. -/
def Announced (C : Config) (es : List Ev) (s : St) : Prop :=
  ∀ c ∈ s.calls, ∃ nowMs, .sweep nowMs ∈ es ∧ c.minidMs = horizon C nowMs c.kind

/-- The stream began with these entries and got what these commands say, and holds all of it
    that has not expired. -/
def Recorded (C : Config) (h : String) (k : Kind) (es : List Ev) (cs : List Command) (t : Stream Fields) (s : St) : Prop :=
  ∃ l added, Holds s.db h k l ∧ l.written = t.entries ++ added ∧ added.map (·.2) = fieldsFor cs (streamKey h k) ∧
    ∀ x ∈ l.written, x ∈ l.kept ∨ Expired C k es x

theorem step_announced {s s' : St} {es : List Ev} {e : Ev} (hA : Announced C es s) (h : step C s e = some s') :
    Announced C (es ++ [e]) s' := by
  have hold : ∀ c ∈ s.calls, ∃ nowMs, .sweep nowMs ∈ es ++ [e] ∧ c.minidMs = horizon C nowMs c.kind := by
    intro c hc
    obtain ⟨nowMs, hmem, hms⟩ := hA c hc
    exact ⟨nowMs, List.mem_append_left _ hmem, hms⟩
  intro c hc
  rcases step_calls h with hsame | ⟨nowMs, rfl, -, hcalls⟩ | ⟨d, hcalls, -⟩
  · exact hold c (hsame ▸ hc)
  · rw [hcalls] at hc
    exact ⟨nowMs, List.mem_append_right _ (List.mem_singleton_self _), (mem_callsOf hc).2⟩
  · exact hold c (hcalls ▸ List.mem_cons_of_mem _ hc)

/-- A step executes a command, or writes to no stream. -/
theorem step_writes {s s' : St} {e : Ev} (hK : StreamKeys s) (h : step C s e = some s') :
    (∃ c clock, e = .ingest (.xadd clock) ∧ executes s e = [c] ∧ xadd s.db c.key clock c.fields = .ok s'.db) ∨
      (executes s e = [] ∧ ∃ a, Effect C.sha256 s.db a s'.db ∧ Causes s e a ∧ ∀ host kind i fields, a ≠ .write host kind i fields) := by
  by_cases hx : ∃ clock, e = .ingest (.xadd clock)
  · obtain ⟨clock, rfl⟩ := hx
    cases step_moves h with
    | ingest _ _ hc =>
      cases hc with
      | nothing _ he _ => rcases he with he | he <;> cases he
      | xadd _ c cs db hpc hdb =>
        refine .inl ⟨c, clock, rfl, ?_, hdb⟩
        simp only [executes, show s.consumer = .executing (c :: cs) from hpc, hdb, Except.isOk, Except.toBool, if_true]
      | xaddError _ c cs error hpc herror =>
        refine .inr ⟨?_, .nothing, .nothing, trivial, fun _ _ _ _ he => by cases he⟩
        simp [executes, show s.consumer = .executing (c :: cs) from hpc, herror, Except.isOk, Except.toBool]
  · have hexec : executes s e = [] := by
      cases e with
      | ingest e =>
        cases e with
        | xadd clock => exact absurd ⟨clock, rfl⟩ hx
        | _ => rfl
      | _ => rfl
    obtain ⟨a, he, hcause⟩ := step_effect hK h
    refine .inr ⟨hexec, a, he, hcause, ?_⟩
    intro host kind i fields ha
    subst ha
    obtain ⟨⟨clock, he⟩, -⟩ := hcause
    exact hx ⟨clock, he⟩

theorem recorded_write {h : String} {k : Kind} {es : List Ev} {cs : List Command} {t : Stream Fields} {s s' : St}
    {c : Command} {clock : U64} (hR : Recorded C h k es cs t s) (hx : xadd s.db c.key clock c.fields = .ok s'.db) :
    Recorded C h k es (cs ++ [c]) t s' := by
  obtain ⟨l, added, hh, hwritten, hadded, hkept⟩ := hR
  obtain ⟨u, u', hu, hadd, hdb⟩ := xadd_ok hx
  by_cases hc : c.key = streamKey h k
  · rw [hc] at hu hdb
    obtain ⟨i, hi, -⟩ := Stream.xadd_entries hadd
    obtain ⟨l', hl', hh'⟩ := holds_write hh hu hadd hi
    obtain ⟨hw, hk, -⟩ := Ledger.step_write hl'
    refine ⟨l', added ++ [(i, c.fields)], hdb ▸ hh', by rw [hw, hwritten, List.append_assoc], ?_, ?_⟩
    · rw [Consumer.fieldsFor_snoc, if_pos hc, List.map_append, hadded]
      rfl
    · intro x hxw
      rw [hw] at hxw
      rw [hk]
      rcases List.mem_append.mp hxw with hxw | hnew
      · exact (hkept x hxw).imp_left (List.mem_append_left _)
      · exact .inl (List.mem_append_right _ hnew)
  · refine ⟨l, added, hh.congr ?_, hwritten, by rw [Consumer.fieldsFor_snoc, if_neg hc, hadded], hkept⟩
    rw [hdb]
    exact putStream_other s.db u' (Ne.symm hc)

/-- What writes nothing leaves the record, less what a sweep has reached. -/
theorem recorded_effect {h : String} {k : Kind} {es : List Ev} {cs : List Command} {t : Stream Fields} {s s' : St} {a : Action}
    (hR : Recorded C h k es cs t s) (he : Effect C.sha256 s.db a s'.db) (hnot : ∀ i fields, a ≠ .write h k i fields)
    (hexpire : ∀ bound, a = .expire h k bound →
      ∃ nowMs, .sweep nowMs ∈ es ∧ (bound.ms.val : Int) = horizon C nowMs k ∧ bound.seq = 0) : Recorded C h k es cs t s' := by
  obtain ⟨l, added, hh, hwritten, hadded, hkept⟩ := hR
  rcases effect_holds hh he with hh' | ⟨d, l', hl', hh', rfl⟩
  · exact ⟨l, added, hh', hwritten, hadded, hkept⟩
  · cases d with
    | write i fields => exact absurd rfl (hnot i fields)
    | expire bound =>
      cases hl'
      refine ⟨l.expire bound, added, hh', hwritten, hadded, ?_⟩
      intro x hx
      rcases hkept x hx with hin | hex
      · rcases le_or_gt bound x.1 with hle | hlt
        · exact .inl (List.mem_filter.mpr ⟨hin, by simpa using hle⟩)
        · -- the bound is the horizon of a sweep
          obtain ⟨nowMs, hmem, hms, hseq⟩ := hexpire bound rfl
          have hless : x.1.ms < bound.ms := by
            rcases StreamId.lt_iff.mp hlt with hms | ⟨-, hlow⟩
            · exact hms
            · rw [hseq] at hlow
              exact absurd hlow (Fin.not_lt_zero _)
          refine .inr ⟨nowMs, hmem, ?_⟩
          rw [← hms]
          exact Int.ofNat_lt.mpr hless
      · exact .inr hex

theorem step_recorded {h : String} {k : Kind} {es : List Ev} {cs : List Command} {t : Stream Fields} {s s' : St} {e : Ev}
    (hK : StreamKeys s) (hA : Announced C es s) (hR : Recorded C h k es cs t s) (hs : step C s e = some s') :
    Recorded C h k (es ++ [e]) (cs ++ executes s e) t s' := by
  have hlater : ∀ {cs s}, Recorded C h k es cs t s → Recorded C h k (es ++ [e]) cs t s := by
    intro cs s hR
    obtain ⟨l, added, hh, hwritten, hadded, hkept⟩ := hR
    refine ⟨l, added, hh, hwritten, hadded, fun x hx => (hkept x hx).imp_right fun hex => ?_⟩
    obtain ⟨nowMs, hmem, hms⟩ := hex
    exact ⟨nowMs, List.mem_append_left _ hmem, hms⟩
  rcases step_writes hK hs with ⟨c, clock, -, hexec, hx⟩ | ⟨hexec, a, he, hcause, hnot⟩
  · rw [hexec]
    exact hlater (recorded_write hR hx)
  · rw [hexec, List.append_nil]
    refine recorded_effect (hlater hR) he (hnot h k) ?_
    intro bound ha
    subst ha
    obtain ⟨-, minidMs, calls, hcalls, hms, hseq⟩ := hcause
    obtain ⟨nowMs, hmem, hhorizon⟩ := hA ⟨h, k, minidMs⟩ (by rw [hcalls]; exact List.mem_cons_self)
    exact ⟨nowMs, List.mem_append_left _ hmem, hms.trans hhorizon, hseq⟩

/-! ## Over a run -/

/-- Where a run from an initial state leads. -/
theorem run_delivered {s s' : St} {es : List Ev} (hs : (machine C).init s) (hrun : (machine C).run s es = some s') :
    (∃ onList gone lost dropped,
      Delivered C (applied C s es) (es.count .resend) (failures C s es * batch C) s' onList gone lost dropped) ∧
      ∀ h k t, streamAt s.db (streamKey h k) = .ok t → Recorded C h k es (applied C s es) t s' := by
  have hall := Machine.run_history (M := machine C) (s := s)
    (I := fun es s' => Inv C s' ∧ Announced C es s' ∧
      (∃ onList gone lost dropped,
        Delivered C (applied C s es) (es.count .resend) (failures C s es * batch C) s' onList gone lost dropped) ∧
      ∀ h k t, streamAt s.db (streamKey h k) = .ok t → Recorded C h k es (applied C s es) t s')
    ?_ ?_ hrun
  · exact hall.2.2
  · have hnone : failures C s [] * batch C = 0 := Nat.zero_mul _
    refine ⟨init_inv hs, ?_, ⟨_, _, _, _, by rw [hnone]; exact init_delivered hs⟩, ?_⟩
    · intro c hc
      rw [hs.2.2.2.1] at hc
      cases hc
    · intro h k t ht
      exact ⟨ledgerOf t, [], holds_ledgerOf ht, (List.append_nil _).symm, rfl, fun x hx => .inl hx⟩
  · intro es u e u' hu hI he
    obtain ⟨hI, hA, ⟨onList, gone, lost, dropped, hD⟩, hR⟩ := hI
    have happlied : applied C s (es ++ [e]) = applied C s es ++ executes u e := Machine.collect_snoc e hu
    have hfailures : failures C s (es ++ [e]) = failures C s es + (failed u e).length := by
      rw [failures, Machine.collect_snoc e hu, List.length_append]
      rfl
    rw [happlied, hfailures, List.count_append, Nat.add_mul]
    exact ⟨step_inv hI he, step_announced hA he, step_delivered hI.keys hD he,
      fun h k t ht => step_recorded hI.keys hA (hR h k t ht) he⟩

theorem count_fieldsFor (cs : List Command) (key : String) (fields : Fields) :
    (fieldsFor cs key).count fields = cs.count ⟨key, fields⟩ := by
  induction cs with
  | nil => rfl
  | cons c cs ih =>
    unfold fieldsFor at ih ⊢
    by_cases hk : c.key = key
    · have hiff : c.fields = fields ↔ c = ⟨key, fields⟩ := by
        cases c
        simp_all
      simp [hk, ih, List.count_cons, hiff]
    · have hne : c ≠ ⟨key, fields⟩ := fun he => hk (congrArg Command.key he)
      simp [hk, ih, hne]

theorem fieldsFor_sublist {cs ds : List Command} (h : cs.Sublist ds) (key : String) :
    (fieldsFor cs key).Sublist (fieldsFor ds key) := (h.filter _).map _

/-- Of a process that began without streams, every entry of a stream is what was written for
    an entry that was pushed. -/
theorem entries_pushed {s s' : St} {es : List Ev} (hs : (machine C).init s) (h₀ : ∀ h k, s.db (streamKey h k) = none)
    (hrun : (machine C).run s es = some s') {h : String} {k : Kind} {t : Stream Fields}
    (ht : streamAt s'.db (streamKey h k) = .ok t) {e : StreamId × Fields} (he : e ∈ t.entries) :
    ∃ raw ∈ s'.pushed, ∃ r, C.adapter.validateJson raw = some r ∧ r.dockerHost = h ∧ r.kind = k ∧
      e.2 = [("data", C.adapter.dumpJson r)] := by
  obtain ⟨⟨onList, gone, lost, dropped, hD⟩, hR⟩ := run_delivered hs hrun
  obtain ⟨l, added, hh, hwritten, hadded, -⟩ := hR h k .empty (by rw [streamAt, h₀])
  have hin : e.2 ∈ fieldsFor (applied C s es) (streamKey h k) := by
    rw [holds_entries hh ht] at he
    have hmem := l.sub.subset he
    rw [hwritten] at hmem
    rw [← hadded]
    exact List.mem_map_of_mem hmem
  have hcount := hD.atMost ⟨streamKey h k, e.2⟩
  rw [← count_fieldsFor] at hcount
  have hpos := List.count_pos_iff.mpr hin
  have hgone : ⟨streamKey h k, e.2⟩ ∈ commands C.adapter gone := by
    by_contra hnot
    rw [List.count_eq_zero_of_not_mem hnot] at hcount
    omega
  obtain ⟨raw, hraw, hcommand⟩ := List.mem_filterMap.mp hgone
  obtain ⟨r, hr, hc⟩ := Option.map_eq_some_iff.mp hcommand
  obtain ⟨hkey, hfields⟩ := Consumer.Command.mk.inj hc
  obtain ⟨hhost, hkind⟩ := streamKey_inj hkey
  have hpushed := ((List.sublist_append_left gone _).trans hD.order).subset hraw
  exact ⟨raw, hpushed, r, hr, hhost, hkind, hfields.symm⟩

/-- From an initial state on, whatever fails: beside what is left of its first entries, a
    stream holds records that were pushed for it, in the order of the pushes and each at most
    once. A pipeline that is sent again adds each record at most once more. -/
theorem records_come_in_order (C : Config) {s s' : St} {es : List Ev} (hs : (machine C).init s)
    (hrun : (machine C).run s es = some s') (h : String) (k : Kind) :
    ∃ t t' old new, streamAt s.db (streamKey h k) = .ok t ∧ streamAt s'.db (streamKey h k) = .ok t' ∧
      t'.entries = old ++ new ∧ old.Sublist t.entries ∧
      (∀ fields, (new.map (·.2)).count fields ≤ (es.count .resend + 1) * (routed C.adapter s'.pushed h k).count fields) ∧
      (.resend ∉ es → (new.map (·.2)).Sublist (routed C.adapter s'.pushed h k)) := by
  obtain ⟨⟨onList, gone, lost, dropped, hD⟩, hR⟩ := run_delivered hs hrun
  obtain ⟨t, ht⟩ := hs.1.streams h k
  obtain ⟨l, added, ⟨t', ht', hkept, -⟩, hwritten, hadded, -⟩ := hR h k t ht
  have hsub : t'.entries.Sublist (t.entries ++ added) := by
    rw [hkept, ← hwritten]
    exact l.sub
  obtain ⟨old, new, hsplit, hold, hnew⟩ := List.sublist_append_iff.mp hsub
  have hmap : (new.map (·.2)).Sublist (fieldsFor (applied C s es) (streamKey h k)) := hadded ▸ hnew.map _
  have hgone : (commands C.adapter gone).Sublist (commands C.adapter s'.pushed) :=
    ((List.sublist_append_left gone _).trans hD.order).filterMap _
  refine ⟨t, t', old, new, ht, ht', hsplit, hold, ?_, ?_⟩
  · intro fields
    calc (new.map (·.2)).count fields
        ≤ (applied C s es).count ⟨streamKey h k, fields⟩ := (hmap.count_le fields).trans_eq (count_fieldsFor _ _ _)
      _ ≤ (es.count .resend + 1) * (commands C.adapter gone).count ⟨streamKey h k, fields⟩ :=
          (Nat.le_add_right _ _).trans (hD.atMost _)
      _ ≤ (es.count .resend + 1) * (routed C.adapter s'.pushed h k).count fields := by
          rw [← Consumer.fieldsFor_commands, count_fieldsFor]
          exact Nat.mul_le_mul_left _ (hgone.count_le _)
  · intro hno
    have hqueued := hD.queued (List.count_eq_zero_of_not_mem hno)
    rw [← Consumer.fieldsFor_commands]
    exact hmap.trans (fieldsFor_sublist (((List.sublist_append_left _ _).trans hqueued).trans hgone) _)

/-- From an initial state on: all records that were pushed are executed, on their way, or
    among at most one batch for each failure; and what was executed is in its stream, in this
    order behind the first entries, as far as no sweep of the run has its horizon above it. -/
theorem a_failure_costs_a_batch (C : Config) {s s' : St} {es : List Ev} (hs : (machine C).init s)
    (hrun : (machine C).run s es = some s') :
    ∃ (missing : List Command) (onList : List String), missing.length ≤ failures C s es * batch C ∧ listAt s'.db ingestList = .ok onList ∧
      (∀ c, (commands C.adapter s'.pushed).count c ≤ (applied C s es).count c + missing.count c +
        (s'.consumer.pending ++ commands C.adapter (s'.consumer.inHand ++ onList)).count c) ∧
      ∀ h k, ∃ t t' added, streamAt s.db (streamKey h k) = .ok t ∧ streamAt s'.db (streamKey h k) = .ok t' ∧
        added.map (·.2) = fieldsFor (applied C s es) (streamKey h k) ∧ t'.entries.Sublist (t.entries ++ added) ∧
        ∀ x ∈ t.entries ++ added, x ∈ t'.entries ∨ Expired C k es x := by
  obtain ⟨⟨onList, gone, lost, dropped, hD⟩, hR⟩ := run_delivered hs hrun
  refine ⟨dropped ++ commands C.adapter lost, onList, ?_, hD.listed, ?_, ?_⟩
  · have hlost : (commands C.adapter lost).length ≤ lost.length := List.length_filterMap_le _ _
    have hfew := hD.few
    rw [List.length_append]
    omega
  · intro c
    have hperm : (commands C.adapter s'.pushed).Perm (commands C.adapter (gone ++ lost ++ (s'.consumer.inHand ++ onList))) :=
      hD.pushed.filterMap _
    have hpushed := hperm.count_eq c
    have hgone := hD.atLeast c
    simp only [Consumer.commands_append, List.count_append] at hpushed ⊢
    omega
  · intro h k
    obtain ⟨t, ht⟩ := hs.1.streams h k
    obtain ⟨l, added, ⟨t', ht', hkept, -⟩, hwritten, hadded, hexpired⟩ := hR h k t ht
    rw [hwritten] at hexpired
    refine ⟨t, t', added, ht, ht', hadded, ?_, ?_⟩
    · rw [hkept, ← hwritten]
      exact l.sub
    · rw [hkept]
      exact hexpired

/-- A record whose pipeline is sent again is written twice. -/
theorem a_resent_pipeline_writes_twice :
    ∃ s, (machine helloConfig).run helloStart (helloCycle ++ [.resend, .ingest (.xadd 5001)]) = some s ∧
      seen s "prod-a" .log = (some [helloEntry, (⟨5001, 0⟩, [("data", helloText)])], []) ∧
      ∃ t t' old new, streamAt helloStart.db (streamKey "prod-a" .log) = .ok t ∧
        streamAt s.db (streamKey "prod-a" .log) = .ok t' ∧ t'.entries = old ++ new ∧ old.Sublist t.entries ∧
        ∀ fields, (new.map (·.2)).count fields ≤ 2 * (routed helloAdapter s.pushed "prod-a" .log).count fields := by
  have hrun : ((machine helloConfig).run helloStart (helloCycle ++ [.resend, .ingest (.xadd 5001)])).map
      (seen · "prod-a" .log) = some (some [helloEntry, (⟨5001, 0⟩, [("data", helloText)])], []) := by decide +kernel
  obtain ⟨s, hs, hseen⟩ := Option.map_eq_some_iff.mp hrun
  obtain ⟨t, t', old, new, ht, ht', hsplit, hold, hcount, -⟩ :=
    records_come_in_order helloConfig helloStart_init hs "prod-a" .log
  exact ⟨s, hs, hseen, t, t', old, new, ht, ht', hsplit, hold, hcount⟩

/-- A lost reply to BLPOP loses its record. -/
theorem a_lost_reply_loses_a_record :
    ∃ s, (machine helloConfig).run helloStart [.ingest .blpopLost] = some s ∧ listAt s.db ingestList = .ok [] ∧
      failures helloConfig helloStart [.ingest .blpopLost] = 1 ∧ applied helloConfig helloStart [.ingest .blpopLost] = [] ∧
      ∃ missing : List Command, missing.length ≤ 200 ∧
        ∀ c, (commands helloConfig.adapter s.pushed).count c ≤ missing.count c + (commands helloConfig.adapter s.consumer.inHand).count c +
          s.consumer.pending.count c := by
  have hrun : ((machine helloConfig).run helloStart [.ingest .blpopLost]).map (fun s => listAt s.db ingestList) = some (.ok []) := by
    decide +kernel
  obtain ⟨s, hs, hlist⟩ := Option.map_eq_some_iff.mp hrun
  have hfailures : failures helloConfig helloStart [.ingest .blpopLost] = 1 := by decide +kernel
  have happlied : applied helloConfig helloStart [.ingest .blpopLost] = [] := by decide +kernel
  obtain ⟨missing, onList, hfew, hlisted, hcount, -⟩ := a_failure_costs_a_batch helloConfig helloStart_init hs
  rw [hlist] at hlisted
  cases hlisted
  rw [hfailures] at hfew
  refine ⟨s, hs, hlist, hfailures, happlied, missing, hfew, ?_⟩
  intro c
  have h := hcount c
  rw [happlied] at h
  simp only [List.append_nil, List.count_append, List.count_nil] at h
  omega

end LogSump.Server.Process
