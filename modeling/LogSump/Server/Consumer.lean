/-
  LogSump.Server.Consumer — the ingestion consumer: it pops a batch from the ingest list and
  writes the valid records of it to their streams through one pipeline.

  A cycle is BLPOP, then LPOP for the rest of the batch, then the XADDs. Each of the three
  may fail, and the outer loop goes on with the next cycle. A command that fails was not
  executed, or it was and its reply is lost. What was popped is only in the consumer's hands
  until its XADD is applied, and a failed cycle drops what it holds.

  - `step_moves`: the ways through `step`.
  - `step_inv`: everything pushed is on the list, in the consumer's hands, or gone; and what
    is gone was written or refused.
  - `consumer_keeps`: without a failure that drops a valid record, every pushed entry is on
    the list or its record is in its stream, as often as it was pushed.
-/

import LogSump.Foundation.Machine
import LogSump.Common.RedisKeys
import LogSump.Redis.Store

namespace LogSump.Server.Consumer

open Common Redis Foundation

/-- `XADD key * …`. -/
structure Command where
  key : String
  fields : Fields
  deriving DecidableEq, Repr

/-- The XADD of one entry; `none` for a malformed one. -/
def command (A : RecordAdapter) (raw : String) : Option Command :=
  (A.validateJson raw).map fun r => ⟨streamKey r.dockerHost r.kind, [("data", A.dumpJson r)]⟩

/-- What `_ingest_batch` queues in its pipeline. -/
def commands (A : RecordAdapter) (batch : List String) : List Command := batch.filterMap (command A)

inductive Pc where
  /-- Between two cycles. -/
  | idle
  /-- BLPOP has returned an entry. -/
  | popped (first : String)
  /-- Commands of the pipeline that the server has not executed yet. -/
  | executing (pending : List Command)
  deriving DecidableEq

structure St where
  db : Store
  pc : Pc
  /-- Every entry pushed so far, with what the list held at the start. -/
  pushed : List String

inductive Ev where
  | push (raw : String)
  | blpop
  | blpopFails
  /-- Redis has popped an entry for BLPOP, and the reply is lost. -/
  | blpopLost
  | lpop
  | lpopFails
  /-- The same of LPOP; the client sends it again, or fails. -/
  | lpopLost
  | xadd (clock : U64)
  /-- The pipeline's connection fails. -/
  | executeFails
  deriving DecidableEq

/-- `if queued: await pipe.execute()`, up to its first command. -/
def execute : List Command → Pc
  | [] => .idle
  | c :: cs => .executing (c :: cs)

variable (A : RecordAdapter) (batchSize : Int)

/-- A command that Redis refuses changes nothing and ends the cycle that issued it; in a
    pipeline the commands behind it are executed all the same. -/
def step (s : St) : Ev → Option St
  | .push raw =>
    match rpush s.db ingestList raw with
    | .error _ => none
    | .ok db => some { s with db := db, pushed := s.pushed ++ [raw] }
  | .blpop =>
    match s.pc with
    | .idle =>
      match blpop s.db ingestList with
      | .error _ => some s
      | .ok none => some s
      | .ok (some (first, db)) => some { s with db := db, pc := .popped first }
    | _ => none
  | .blpopFails => if s.pc = .idle then some s else none
  | .blpopLost =>
    match s.pc with
    | .idle =>
      match blpop s.db ingestList with
      | .ok (some (_, db)) => some { s with db := db }
      | _ => none
    | _ => none
  | .lpop =>
    match s.pc with
    | .popped first =>
      if 1 < batchSize then
        match lpop s.db ingestList (batchSize - 1).toNat with
        | .error _ => some { s with pc := .idle }
        | .ok (rest, db) => some { s with db := db, pc := execute (commands A (first :: rest)) }
      else some { s with pc := execute (commands A [first]) }
    | _ => none
  | .lpopFails =>
    match s.pc with
    | .popped _ => if 1 < batchSize then some { s with pc := .idle } else none
    | _ => none
  | .lpopLost =>
    match s.pc with
    | .popped _ =>
      if 1 < batchSize then
        match lpop s.db ingestList (batchSize - 1).toNat with
        | .ok (_, db) => some { s with db := db }
        | .error _ => none
      else none
    | _ => none
  | .xadd clock =>
    match s.pc with
    | .executing (c :: cs) =>
      match xadd s.db c.key clock c.fields with
      | .error _ => some { s with pc := execute cs }
      | .ok db => some { s with db := db, pc := execute cs }
    | _ => none
  | .executeFails =>
    match s.pc with
    | .executing _ => some { s with pc := .idle }
    | _ => none

def machine : Machine St Ev where
  init s := s.pc = .idle ∧ listAt s.db ingestList = .ok s.pushed
  step := step A batchSize

/-- The step drops no valid record: no reply with a valid entry in it is lost, LPOP does not
    fail with a valid entry in hand, and no command of a pipeline fails or stays unexecuted. -/
def Lossless (s : St) : Ev → Prop
  | .blpopLost => ∀ first db, blpop s.db ingestList = .ok (some (first, db)) → A.validateJson first = none
  | .lpopFails => ∀ first, s.pc = .popped first → A.validateJson first = none
  | .lpopLost => ∀ rest db, lpop s.db ingestList (batchSize - 1).toNat = .ok (rest, db) →
      ∀ raw ∈ rest, A.validateJson raw = none
  | .executeFails => False
  | .xadd clock => ∀ c cs, s.pc = .executing (c :: cs) → ∃ db, xadd s.db c.key clock c.fields = .ok db
  | _ => True

/-- How often an entry with these fields is in a stream. -/
def written (db : Store) (c : Command) : Nat :=
  match streamAt db c.key with
  | .error _ => 0
  | .ok s => (s.entries.map (·.2)).count c.fields

/-- Every pushed entry is on the list or gone, and the record of every valid entry that is
    gone is in its stream, as often as it went there. -/
def Kept (s₀ s : St) : Prop :=
  ∃ onList gone, listAt s.db ingestList = .ok onList ∧ s.pushed.Perm (gone ++ onList) ∧
    ∀ h k fields, (commands A gone).count ⟨streamKey h k, fields⟩ + written s₀.db ⟨streamKey h k, fields⟩ ≤
      written s.db ⟨streamKey h k, fields⟩

variable {A batchSize}

/-! ## What a step can change -/

/-- The ways through `step`, each with its guard and the state it leaves. -/
inductive Moves (A : RecordAdapter) (batchSize : Int) (s : St) : Ev → St → Prop where
  | push (raw : String) (db : Store) : rpush s.db ingestList raw = .ok db →
      Moves A batchSize s (.push raw) { s with db := db, pushed := s.pushed ++ [raw] }
  /-- BLPOP times out, or fails. -/
  | nothing (e : Ev) : e = .blpop ∨ e = .blpopFails → s.pc = .idle → Moves A batchSize s e s
  | blpop (first : String) (db : Store) : s.pc = .idle → blpop s.db ingestList = .ok (some (first, db)) →
      Moves A batchSize s .blpop { s with db := db, pc := .popped first }
  | blpopLost (first : String) (db : Store) : s.pc = .idle → blpop s.db ingestList = .ok (some (first, db)) →
      Moves A batchSize s .blpopLost { s with db := db }
  | lpop (first : String) (rest : List String) (db : Store) : s.pc = .popped first → 1 < batchSize →
      lpop s.db ingestList (batchSize - 1).toNat = .ok (rest, db) →
      Moves A batchSize s .lpop { s with db := db, pc := execute (commands A (first :: rest)) }
  /-- A batch of one. -/
  | single (first : String) : s.pc = .popped first → ¬ 1 < batchSize →
      Moves A batchSize s .lpop { s with pc := execute (commands A [first]) }
  | lpopError (first : String) (error : RedisError) : s.pc = .popped first →
      lpop s.db ingestList (batchSize - 1).toNat = .error error → Moves A batchSize s .lpop { s with pc := .idle }
  | lpopFails (first : String) : s.pc = .popped first → Moves A batchSize s .lpopFails { s with pc := .idle }
  | lpopLost (first : String) (rest : List String) (db : Store) : s.pc = .popped first → 1 < batchSize →
      lpop s.db ingestList (batchSize - 1).toNat = .ok (rest, db) → Moves A batchSize s .lpopLost { s with db := db }
  | xadd (clock : U64) (c : Command) (cs : List Command) (db : Store) : s.pc = .executing (c :: cs) →
      xadd s.db c.key clock c.fields = .ok db →
      Moves A batchSize s (.xadd clock) { s with db := db, pc := execute cs }
  | xaddError (clock : U64) (c : Command) (cs : List Command) (error : RedisError) : s.pc = .executing (c :: cs) →
      xadd s.db c.key clock c.fields = .error error → Moves A batchSize s (.xadd clock) { s with pc := execute cs }
  | executeFails (cs : List Command) : s.pc = .executing cs → Moves A batchSize s .executeFails { s with pc := .idle }

theorem step_moves {s s' : St} {e : Ev} (h : step A batchSize s e = some s') : Moves A batchSize s e s' := by
  cases e with
  | push raw =>
    simp only [step] at h
    split at h <;> cases h
    exact .push raw _ ‹_›
  | blpop =>
    simp only [step] at h
    split at h
    · split at h <;> cases h
      · exact .nothing _ (.inl rfl) ‹_›
      · exact .nothing _ (.inl rfl) ‹_›
      · exact .blpop _ _ ‹_› ‹_›
    · cases h
  | blpopFails =>
    simp only [step] at h
    split at h <;> cases h
    exact .nothing _ (.inr rfl) ‹_›
  | blpopLost =>
    simp only [step] at h
    split at h
    · split at h <;> cases h
      exact .blpopLost _ _ ‹_› ‹_›
    · cases h
  | lpop =>
    simp only [step] at h
    split at h
    · split at h
      · split at h <;> cases h
        · exact .lpopError _ _ ‹_› ‹_›
        · exact .lpop _ _ _ ‹_› ‹_› ‹_›
      · cases h
        exact .single _ ‹_› ‹_›
    · cases h
  | lpopFails =>
    simp only [step] at h
    split at h
    · split at h <;> cases h
      exact .lpopFails _ ‹_›
    · cases h
  | lpopLost =>
    simp only [step] at h
    split at h
    · split at h
      · split at h <;> cases h
        exact .lpopLost _ _ _ ‹_› ‹_› ‹_›
      · cases h
    · cases h
  | xadd clock =>
    simp only [step] at h
    split at h
    · split at h <;> cases h
      · exact .xaddError clock _ _ _ ‹_› ‹_›
      · exact .xadd clock _ _ _ ‹_› ‹_›
    · cases h
  | executeFails =>
    simp only [step] at h
    split at h <;> cases h
    exact .executeFails _ ‹_›

/-! ## What commands change -/

theorem commands_append (xs ys : List String) : commands A (xs ++ ys) = commands A xs ++ commands A ys := by
  simp [commands]

theorem commands_malformed {batch : List String} (h : ∀ raw ∈ batch, A.validateJson raw = none) : commands A batch = [] := by
  refine List.filterMap_eq_nil_iff.mpr ?_
  intro raw hraw
  rw [command, h raw hraw]
  rfl

theorem key_of_mem_commands {batch : List String} {c : Command} (h : c ∈ commands A batch) :
    ∃ host k, c.key = streamKey host k := by
  obtain ⟨raw, -, hc⟩ := List.mem_filterMap.mp h
  obtain ⟨r, -, rfl⟩ := Option.map_eq_some_iff.mp hc
  exact ⟨r.dockerHost, r.kind, rfl⟩

/-- An XADD adds one entry with its fields, to its own stream. -/
theorem written_xadd {db db' : Store} {c : Command} {clock : U64} (h : xadd db c.key clock c.fields = .ok db')
    (c' : Command) : written db' c' = written db c' + [c].count c' := by
  obtain ⟨s, s', hs, hadd, rfl⟩ := xadd_ok h
  obtain ⟨i, -, he⟩ := Stream.xadd_entries hadd
  by_cases hk : c'.key = c.key
  · have hcount : [c.fields].count c'.fields = [c].count c' := by
      have hiff : c.fields = c'.fields ↔ c = c' := by
        cases c; cases c'; simp_all
      simp [List.count_singleton, hiff]
    simp only [written, hk, putStream_same, hs, he, List.map_append, List.count_append, List.map_singleton, hcount]
  · have hne : c ≠ c' := fun e => hk (by rw [e])
    simp only [written, streamAt_congr (putStream_other db s' hk), List.count_singleton, beq_iff_eq, hne, if_false,
      Nat.add_zero]

theorem written_putList (db : Store) (xs : List String) (h : String) (k : Kind) (fields : Fields) :
    written (putList db ingestList xs) ⟨streamKey h k, fields⟩ = written db ⟨streamKey h k, fields⟩ := by
  simp only [written, streamAt_congr (putList_other db xs (streamKey_ne_ingestList h k))]

/-! ## The invariant -/

def Pc.inHand : Pc → List String
  | .popped first => [first]
  | _ => []

def Pc.pending : Pc → List Command
  | .executing cs => cs
  | _ => []

theorem pending_execute (cs : List Command) : (execute cs).pending = cs ∧ (execute cs).inHand = [] := by
  cases cs <;> exact ⟨rfl, rfl⟩

/-- Everything pushed is gone, in hand or on the list, and what is gone was written, is
    pending, or was refused. -/
structure Inv (A : RecordAdapter) (s₀ s : St) (onList gone : List String) : Prop where
  listed : listAt s.db ingestList = .ok onList
  pushed : s.pushed.Perm (gone ++ (s.pc.inHand ++ onList))
  keys : ∀ c ∈ s.pc.pending, ∃ host k, c.key = streamKey host k
  counted : ∀ h k fields, (commands A gone).count ⟨streamKey h k, fields⟩ + written s₀.db ⟨streamKey h k, fields⟩ ≤
    written s.db ⟨streamKey h k, fields⟩ + s.pc.pending.count ⟨streamKey h k, fields⟩

theorem inv_xadd {s₀ s : St} {onList gone : List String} {c : Command} {cs : List Command} {clock : U64} {db : Store}
    (hI : Inv A s₀ s onList gone) (hpc : s.pc = .executing (c :: cs)) (h : xadd s.db c.key clock c.fields = .ok db) :
    Inv A s₀ { s with db := db, pc := execute cs } onList gone := by
  obtain ⟨hp, hh⟩ := pending_execute cs
  have hkeys := hI.keys
  have hpushed := hI.pushed
  have hw := hI.counted
  rw [hpc] at hkeys hpushed hw
  obtain ⟨host, kind, hk⟩ := hkeys c List.mem_cons_self
  obtain ⟨t, t', -, -, hdb⟩ := xadd_ok h
  refine ⟨?_, ?_, fun c' hc' => hkeys c' (List.mem_cons_of_mem _ (hp ▸ hc')), ?_⟩
  · rw [hdb, listAt_congr (putStream_other s.db t' (hk ▸ (streamKey_ne_ingestList host kind).symm))]
    exact hI.listed
  · show s.pushed.Perm (gone ++ ((execute cs).inHand ++ onList))
    rw [hh]
    exact hpushed
  · intro host k fields
    have hcons : (c :: cs).count ⟨streamKey host k, fields⟩ =
        [c].count ⟨streamKey host k, fields⟩ + cs.count ⟨streamKey host k, fields⟩ := by
      rw [← List.count_append, List.singleton_append]
    have := hw host k fields
    rw [Pc.pending, hcons] at this
    simp only [hp, written_xadd h]
    omega

/-- The batch in hand becomes the pipeline. -/
theorem inv_lpop {s₀ s : St} {onList gone rest left : List String} {first : String} {db : Store}
    (hI : Inv A s₀ s onList gone) (hpc : s.pc = .popped first) (hsplit : onList = rest ++ left)
    (hlist : listAt db ingestList = .ok left)
    (hdb : ∀ h k fields, written db ⟨streamKey h k, fields⟩ = written s.db ⟨streamKey h k, fields⟩) :
    Inv A s₀ { s with db := db, pc := execute (commands A (first :: rest)) } left (gone ++ first :: rest) := by
  obtain ⟨hp, hh⟩ := pending_execute (commands A (first :: rest))
  have hpushed := hI.pushed
  have hw := hI.counted
  rw [hpc] at hpushed hw
  refine ⟨hlist, ?_, fun c hc => key_of_mem_commands (hp ▸ hc), ?_⟩
  · show s.pushed.Perm (gone ++ first :: rest ++ ((execute (commands A (first :: rest))).inHand ++ left))
    rw [hh]
    simpa [hsplit, Pc.inHand] using hpushed
  · intro host k fields
    have := hw host k fields
    simp only [Pc.pending, List.count_nil] at this
    simp only [hp, hdb, commands_append, List.count_append]
    omega

/-- Malformed entries go from the list. -/
theorem inv_lost {s₀ s : St} {onList gone popped left : List String} (hI : Inv A s₀ s onList gone)
    (hsplit : onList = popped ++ left) (hmalformed : ∀ raw ∈ popped, A.validateJson raw = none) :
    Inv A s₀ { s with db := putList s.db ingestList left } left (gone ++ popped) := by
  refine ⟨putList_same _ _ _, ?_, hI.keys, ?_⟩
  · refine hI.pushed.trans (List.perm_iff_count.mpr ?_)
    intro x
    simp only [hsplit, List.count_append]
    omega
  · intro host k fields
    rw [commands_append, commands_malformed hmalformed, List.append_nil, written_putList]
    exact hI.counted host k fields

theorem step_inv {s₀ s s' : St} {e : Ev} (hI : ∃ onList gone, Inv A s₀ s onList gone) (hok : Lossless A batchSize s e)
    (h : step A batchSize s e = some s') : ∃ onList gone, Inv A s₀ s' onList gone := by
  obtain ⟨onList, gone, hI⟩ := hI
  cases step_moves h with
  | push raw db hdb =>
    simp only [rpush, hI.listed, Except.map] at hdb
    cases hdb
    refine ⟨onList ++ [raw], gone, putList_same _ _ _, ?_, hI.keys, ?_⟩
    · simpa [List.append_assoc] using hI.pushed.append_right [raw]
    · intro host k fields
      rw [written_putList]; exact hI.counted host k fields
  | nothing _ _ _ => exact ⟨onList, gone, hI⟩
  | blpop first db hpc hdb =>
    simp only [blpop, hI.listed, Except.map] at hdb
    cases onList with
    | nil => cases hdb
    | cons first rest =>
      cases hdb
      have hpushed := hI.pushed
      have hw := hI.counted
      rw [hpc] at hpushed hw
      refine ⟨rest, gone, putList_same _ _ _, by simpa [Pc.inHand] using hpushed, by simp [Pc.pending],
        ?_⟩
      intro host k fields
      rw [written_putList]; exact hw host k fields
  | blpopLost first db _ hdb =>
    have hmalformed := hok first db hdb
    simp only [blpop, hI.listed, Except.map] at hdb
    cases onList with
    | nil => cases hdb
    | cons first rest =>
      cases hdb
      exact ⟨rest, gone ++ [first], inv_lost hI rfl (by simpa using hmalformed)⟩
  | lpop first rest db hpc _ hdb =>
    simp only [lpop, hI.listed, Except.map] at hdb
    cases hdb
    refine ⟨_, _, inv_lpop hI hpc (List.take_append_drop _ onList).symm (putList_same _ _ _) ?_⟩
    intro host k fields
    rw [written_putList]
  | single first hpc _ => exact ⟨_, _, inv_lpop hI hpc (List.nil_append onList).symm hI.listed fun _ _ _ => rfl⟩
  | lpopError first error _ herror =>
    simp only [lpop, hI.listed, Except.map] at herror
    cases herror
  | lpopFails first hpc =>
    -- the entry in hand is dropped, and it was malformed
    have hpushed := hI.pushed
    have hw := hI.counted
    rw [hpc] at hpushed hw
    refine ⟨onList, gone ++ [first], hI.listed, by simpa [Pc.inHand] using hpushed, by simp [Pc.pending],
      ?_⟩
    intro host k fields
    have hc : commands A [first] = [] := commands_malformed (by simpa using hok first hpc)
    rw [commands_append, hc, List.append_nil]
    exact hw host k fields
  | lpopLost first rest db _ _ hdb =>
    have hmalformed := hok rest db hdb
    simp only [lpop, hI.listed, Except.map] at hdb
    cases hdb
    exact ⟨_, _, inv_lost hI (List.take_append_drop _ onList).symm hmalformed⟩
  | xadd clock c cs db hpc hdb => exact ⟨onList, gone, inv_xadd hI hpc hdb⟩
  | xaddError clock c cs error hpc herror =>
    obtain ⟨db, hdb⟩ := hok c cs hpc
    rw [hdb] at herror
    cases herror
  | executeFails _ _ => exact hok.elim

theorem init_inv {s₀ : St} (h : (machine A batchSize).init s₀) : Inv A s₀ s₀ s₀.pushed [] :=
  ⟨h.2, by rw [h.1]; exact .refl _, by rw [h.1]; simp [Pc.pending], by rw [h.1]; simp [commands]⟩

/-- In every run whose steps drop no valid record, whenever the consumer is between two
    cycles, what was pushed is on the list or its record is in its stream. -/
theorem consumer_keeps (A : RecordAdapter) (batchSize : Int) (s₀ s : St) (es : List Ev)
    (h₀ : (machine A batchSize).init s₀) (hrun : (machine A batchSize).run s₀ es = some s)
    (hok : (machine A batchSize).Along (Lossless A batchSize) s₀ es) (hidle : s.pc = .idle) : Kept A s₀ s := by
  obtain ⟨onList, gone, hI⟩ := Machine.run_inv (M := machine A batchSize) (I := fun s => ∃ onList gone, Inv A s₀ s onList gone)
    (fun _ _ _ hI hok h => step_inv hI hok h) ⟨_, _, init_inv h₀⟩ hok hrun
  have hpushed := hI.pushed
  have hw := hI.counted
  rw [hidle] at hpushed hw
  exact ⟨onList, gone, hI.listed, hpushed, fun host k fields => by simpa [Pc.pending] using hw host k fields⟩

/-! ## Failures after a pop -/

/-- One valid entry on the list, and no stream. -/
def oneEntry : St where
  db := putList (fun _ => none) ingestList [helloText]
  pc := .idle
  pushed := [helloText]

/-- After BLPOP. -/
def helloPopped : St where
  db := putList oneEntry.db ingestList []
  pc := .popped helloText
  pushed := [helloText]

def helloCommand : Command := ⟨streamKey "prod-a" .log, [("data", helloText)]⟩

theorem commands_hello : commands helloAdapter [helloText] = [helloCommand] := by decide +kernel

theorem oneEntry_list : listAt oneEntry.db ingestList = .ok [helloText] := putList_same _ _ _

theorem oneEntry_init : (machine helloAdapter 200).init oneEntry := ⟨rfl, oneEntry_list⟩

theorem oneEntry_blpop : blpop oneEntry.db ingestList = .ok (some (helloText, putList oneEntry.db ingestList [])) := by
  rw [blpop, oneEntry_list]
  rfl

theorem step_blpop : step helloAdapter 200 oneEntry .blpop = some helloPopped := by
  simp only [step, show oneEntry.pc = .idle from rfl, oneEntry_blpop]
  rfl

theorem helloPopped_other {key : String} (h : key ≠ ingestList) : helloPopped.db key = none :=
  (putList_other oneEntry.db [] h).trans (putList_other (fun _ => none) [helloText] h)

theorem helloPopped_stream : helloPopped.db (streamKey "prod-a" .log) = none :=
  helloPopped_other (streamKey_ne_ingestList _ _)

theorem helloPopped_not_kept : ¬ Kept helloAdapter oneEntry { helloPopped with pc := .idle } := by
  intro h
  obtain ⟨onList, gone, hl, hp, hw⟩ := h
  have hl' : Except.ok [] = Except.ok onList := (putList_same _ _ _).symm.trans hl
  cases hl'
  have hgone : gone = [helloText] := by simpa [helloPopped] using hp.symm
  have hnone : written helloPopped.db helloCommand = 0 := by
    simp only [written, helloCommand, streamAt, helloPopped_stream]; rfl
  have := hw "prod-a" .log [("data", helloText)]
  change (commands helloAdapter gone).count helloCommand + written oneEntry.db helloCommand ≤
    written helloPopped.db helloCommand at this
  rw [hgone, commands_hello, hnone, List.count_singleton_self] at this
  omega

/-- BLPOP takes the entry and LPOP fails, or BLPOP's own reply is lost: the entry is on no list
    and in no stream. -/
theorem a_failed_pop_loses_a_record :
    (machine helloAdapter 200).init oneEntry ∧
      ∀ es, es = [.blpop, .lpopFails] ∨ es = [.blpopLost] →
        ∃ s, (machine helloAdapter 200).run oneEntry es = some s ∧ s.pc = .idle ∧ listAt s.db ingestList = .ok [] ∧
          s.db (streamKey "prod-a" .log) = none ∧ ¬ Kept helloAdapter oneEntry s := by
  refine ⟨oneEntry_init, ?_⟩
  intro es hes
  refine ⟨{ helloPopped with pc := .idle }, ?_, rfl, putList_same _ _ _, helloPopped_stream, helloPopped_not_kept⟩
  rcases hes with rfl | rfl
  · exact Machine.run_cons.mpr ⟨helloPopped, step_blpop, rfl⟩
  · refine Machine.run_cons.mpr ⟨{ helloPopped with pc := .idle }, ?_, rfl⟩
    show step helloAdapter 200 oneEntry .blpopLost = _
    simp only [step, show oneEntry.pc = .idle from rfl, oneEntry_blpop]
    rfl

/-- A cycle in which nothing fails, with its state before the XADD. -/
theorem hello_cycle : ∃ s db,
    (machine helloAdapter 200).run oneEntry [.blpop, .lpop, .xadd 5000] = some { s with db := db, pc := .idle } ∧
    (∀ ok : St → Ev → Prop, ok oneEntry .blpop → ok helloPopped .lpop → ok s (.xadd 5000) →
      (machine helloAdapter 200).Along ok oneEntry [.blpop, .lpop, .xadd 5000]) ∧
    s.pc = .executing [helloCommand] ∧ xadd s.db helloCommand.key 5000 helloCommand.fields = .ok db ∧
    s.pushed = [helloText] ∧ listAt s.db ingestList = .ok [] ∧ ∀ key, key ≠ ingestList → s.db key = none := by
  have hlist : listAt helloPopped.db ingestList = .ok [] := putList_same _ _ _
  have hlpop : step helloAdapter 200 helloPopped .lpop =
      some { helloPopped with db := putList helloPopped.db ingestList [], pc := .executing [helloCommand] } := by
    have hcond : (1 : Int) < 200 := by decide
    have hpop : lpop helloPopped.db ingestList (200 - 1 : Int).toNat =
        .ok ([], putList helloPopped.db ingestList []) := by rw [lpop, hlist]; rfl
    simp only [step, show helloPopped.pc = .popped helloText from rfl, hcond, if_true, hpop, commands_hello]
    rfl
  generalize hs : ({ helloPopped with db := putList helloPopped.db ingestList [], pc := .executing [helloCommand] } : St) = s
    at hlpop
  have hpc : s.pc = .executing [helloCommand] := by rw [← hs]
  have hnone : ∀ key, key ≠ ingestList → s.db key = none := by
    intro key hne
    rw [← hs]
    exact (putList_other helloPopped.db [] hne).trans (helloPopped_other hne)
  have hstream : s.db (streamKey "prod-a" .log) = none := hnone _ (streamKey_ne_ingestList _ _)
  have hadd : ∃ db, xadd s.db helloCommand.key 5000 helloCommand.fields = .ok db := by
    simp only [xadd, helloCommand, streamAt, hstream]
    exact ⟨_, rfl⟩
  obtain ⟨db, hdb⟩ := hadd
  have hxadd : step helloAdapter 200 s (.xadd 5000) = some { s with db := db, pc := .idle } := by
    simp only [step, hpc, hdb]; rfl
  refine ⟨s, db, Machine.run_cons.mpr ⟨_, step_blpop, Machine.run_cons.mpr ⟨_, hlpop, Machine.run_cons.mpr ⟨_, hxadd, rfl⟩⟩⟩,
    fun ok hblpop hlpopOk hxaddOk => ⟨hblpop, ?_⟩, hpc, hdb, by rw [← hs]; rfl, by rw [← hs]; exact putList_same _ _ _,
    hnone⟩
  intro t ht
  cases step_blpop.symm.trans ht
  refine ⟨hlpopOk, ?_⟩
  intro u hu
  cases hlpop.symm.trans hu
  exact ⟨hxaddOk, fun _ _ => trivial⟩

/-- Its record is kept. -/
theorem a_cycle_keeps_its_record :
    ∃ s, (machine helloAdapter 200).run oneEntry [.blpop, .lpop, .xadd 5000] = some s ∧ s.pc = .idle ∧
      Kept helloAdapter oneEntry s := by
  obtain ⟨s, db, hrun, halong, hpc, hdb, -⟩ := hello_cycle
  have hok : (machine helloAdapter 200).Along (Lossless helloAdapter 200) oneEntry [.blpop, .lpop, .xadd 5000] := by
    refine halong _ trivial trivial ?_
    intro c cs hc
    rw [hpc] at hc
    cases hc
    exact ⟨db, hdb⟩
  exact ⟨_, hrun, rfl, consumer_keeps helloAdapter 200 oneEntry _ _ oneEntry_init hrun hok rfl⟩

end LogSump.Server.Consumer
