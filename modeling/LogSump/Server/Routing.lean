/-
  LogSump.Server.Routing — where the consumer writes what was pushed, when Redis does not
  fail.

  One BLPOP, one counted LPOP and the pipeline take the entries off the list in the order in
  which they were pushed; each valid one becomes one XADD to the stream of its daemon and
  kind. So what a drained list leaves in a stream is one filter over the pushes.

  - `step_order`: the pushes are, in this order, gone, in hand and on the list; the commands
    of those gone are, in this order, executed and pending.
  - `drained_list_is_routed`: the streams of a drained list, for any batch size and any
    batches.
-/

import LogSump.Server.Consumer

namespace LogSump.Server.Consumer

open Common Redis Foundation

/-- No command of the consumer fails. -/
def NoFailure (s : St) : Ev → Prop
  | .blpopFails | .blpopLost | .lpopFails | .lpopLost | .executeFails => False
  | .xadd clock => ∀ c cs, s.pc = .executing (c :: cs) → ∃ db, xadd s.db c.key clock c.fields = .ok db
  | _ => True

theorem noFailure_xadd_iff {s : St} {clock : U64} :
    NoFailure s (.xadd clock) ↔ ∀ c ∈ s.pc.pending.head?, (xadd s.db c.key clock c.fields).isOk = true := by
  have hok : ∀ {x : Except RedisError Store}, (∃ db, x = .ok db) ↔ x.isOk = true := by
    intro x
    cases x <;> simp [Except.isOk, Except.toBool]
  cases hpc : s.pc with
  | executing cs => cases cs <;> simp [NoFailure, Pc.pending, hpc, hok]
  | _ => simp [NoFailure, Pc.pending, hpc]

instance (s : St) : (e : Ev) → Decidable (NoFailure s e)
  | .blpopFails | .blpopLost | .lpopFails | .lpopLost | .executeFails => isFalse id
  | .xadd _ => decidable_of_iff _ noFailure_xadd_iff.symm
  | .push _ | .blpop | .lpop => isTrue trivial

/-- The fields of the valid entries for one daemon and kind. -/
def routed (A : RecordAdapter) (raws : List String) (dockerHost : String) (kind : Kind) : List Fields :=
  raws.filterMap fun raw => (A.validateJson raw).bind fun r =>
    if r.dockerHost = dockerHost ∧ r.kind = kind then some [("data", A.dumpJson r)] else none

/-- From `db₀` on, entries with these fields were appended at the key, in this order. -/
def Appended (db₀ db : Store) (key : String) : List Fields → Prop
  | [] => db key = db₀ key
  | fields :: rest => ∃ s₀ s added, streamAt db₀ key = .ok s₀ ∧ streamAt db key = .ok s ∧
      s.entries = s₀.entries ++ added ∧ added.map (·.2) = fields :: rest

/-! ## What is appended -/

theorem Appended.congr {db₀ db db' : Store} {key : String} {fields : List Fields} (h : Appended db₀ db key fields)
    (he : db' key = db key) : Appended db₀ db' key fields := by
  cases fields with
  | nil => exact he.trans h
  | cons f fs =>
    obtain ⟨s₀, s, added, h₀, hs, hent, hadd⟩ := h
    exact ⟨s₀, s, added, h₀, (streamAt_congr he).trans hs, hent, hadd⟩

theorem Appended.snoc {db₀ db : Store} {key : String} {fields : List Fields} (h : Appended db₀ db key fields) {clock : U64}
    {f : Fields} {db' : Store} (hx : xadd db key clock f = .ok db') : Appended db₀ db' key (fields ++ [f]) := by
  obtain ⟨s, s', hs, hadd, rfl⟩ := xadd_ok hx
  obtain ⟨i, -, hent⟩ := Stream.xadd_entries hadd
  have hs' := putStream_same db key s'
  cases fields with
  | nil => exact ⟨s, s', [(i, f)], (streamAt_congr h).symm.trans hs, hs', hent, rfl⟩
  | cons g gs =>
    obtain ⟨s₀, t, added, h₀, ht, htent, hmap⟩ := h
    rw [hs] at ht
    cases ht
    refine ⟨s₀, s', added ++ [(i, f)], h₀, hs', ?_, ?_⟩
    · rw [hent, htent, List.append_assoc]
    · rw [List.map_append, hmap]
      rfl

/-- The fields of the commands for one key. -/
def fieldsFor (cs : List Command) (key : String) : List Fields := (cs.filter (·.key = key)).map (·.fields)

theorem fieldsFor_snoc (cs : List Command) (c : Command) (key : String) :
    fieldsFor (cs ++ [c]) key = if c.key = key then fieldsFor cs key ++ [c.fields] else fieldsFor cs key := by
  unfold fieldsFor
  by_cases h : c.key = key <;> simp [List.filter_append, h]

theorem fieldsFor_commands (A : RecordAdapter) (raws : List String) (h : String) (k : Kind) :
    fieldsFor (commands A raws) (streamKey h k) = routed A raws h k := by
  rw [fieldsFor, commands, routed, List.filter_filterMap, List.map_filterMap]
  apply List.filterMap_congr
  intro raw _
  rw [command]
  cases A.validateJson raw with
  | none => rfl
  | some r =>
    have hkey : streamKey r.dockerHost r.kind = streamKey h k ↔ r.dockerHost = h ∧ r.kind = k :=
      ⟨streamKey_inj, fun hsame => by rw [hsame.1, hsame.2]⟩
    by_cases hr : r.dockerHost = h ∧ r.kind = k
    · simp [Option.filter, hr]
    · simp [Option.filter, hkey, hr]

theorem fieldsFor_other {A : RecordAdapter} {raws : List String} {key : String} (h : ∀ host k, key ≠ streamKey host k) :
    fieldsFor (commands A raws) key = [] := by
  rw [fieldsFor, List.map_eq_nil_iff, List.filter_eq_nil_iff]
  intro c hc
  obtain ⟨host, k, hk⟩ := key_of_mem_commands hc
  rw [decide_eq_true_eq, hk]
  exact (h host k).symm

/-! ## The order of what was pushed -/

variable {A : RecordAdapter} {batchSize : Int}

structure Order (A : RecordAdapter) (db₀ : Store) (s : St) (onList gone : List String) (executed : List Command) : Prop where
  listed : listAt s.db ingestList = .ok onList
  pushed : s.pushed = gone ++ (s.pc.inHand ++ onList)
  queued : commands A gone = executed ++ s.pc.pending
  appended : ∀ key, key ≠ ingestList → Appended db₀ s.db key (fieldsFor executed key)

theorem init_order {s₀ : St} (h : (machine A batchSize).init s₀) : Order A s₀.db s₀ s₀.pushed [] [] where
  listed := h.2
  pushed := by rw [h.1]; rfl
  queued := by rw [h.1]; rfl
  appended _ _ := rfl

theorem order_xadd {db₀ : Store} {s : St} {onList gone : List String} {executed cs : List Command} {c : Command}
    {clock : U64} {db : Store} (hO : Order A db₀ s onList gone executed) (hpc : s.pc = .executing (c :: cs))
    (h : xadd s.db c.key clock c.fields = .ok db) :
    Order A db₀ { s with db := db, pc := execute cs } onList gone (executed ++ [c]) := by
  obtain ⟨hp, hh⟩ := pending_execute cs
  have hpushed := hO.pushed
  have hqueued := hO.queued
  rw [hpc] at hpushed hqueued
  have hmem : c ∈ commands A gone := by rw [hqueued]; exact List.mem_append_right _ List.mem_cons_self
  obtain ⟨host, k, hk⟩ := key_of_mem_commands hmem
  obtain ⟨t, t', -, -, hdb⟩ := xadd_ok h
  refine ⟨?_, ?_, ?_, ?_⟩
  · show listAt db ingestList = .ok onList
    rw [hdb, listAt_congr (putStream_other s.db t' (hk ▸ (streamKey_ne_ingestList host k).symm))]
    exact hO.listed
  · show s.pushed = gone ++ ((execute cs).inHand ++ onList)
    rw [hh]
    exact hpushed
  · show commands A gone = executed ++ [c] ++ (execute cs).pending
    rw [hp, hqueued, List.append_assoc]
    rfl
  · intro key hkey
    rw [fieldsFor_snoc]
    by_cases hc : c.key = key
    · subst hc
      rw [if_pos rfl]
      exact (hO.appended c.key hkey).snoc h
    · rw [if_neg hc]
      refine (hO.appended key hkey).congr ?_
      show db key = s.db key
      rw [hdb]
      exact putStream_other s.db t' (Ne.symm hc)

/-- The batch in hand becomes the pipeline. -/
theorem order_lpop {db₀ : Store} {s : St} {onList gone rest left : List String} {executed : List Command} {first : String}
    {db : Store} (hO : Order A db₀ s onList gone executed) (hpc : s.pc = .popped first) (hsplit : onList = rest ++ left)
    (hlist : listAt db ingestList = .ok left) (hdb : ∀ key, key ≠ ingestList → db key = s.db key) :
    Order A db₀ { s with db := db, pc := execute (commands A (first :: rest)) } left (gone ++ first :: rest) executed := by
  obtain ⟨hp, hh⟩ := pending_execute (commands A (first :: rest))
  have hpushed := hO.pushed
  have hqueued := hO.queued
  rw [hpc] at hpushed hqueued
  refine ⟨hlist, ?_, ?_, fun key hkey => (hO.appended key hkey).congr (hdb key hkey)⟩
  · show s.pushed = gone ++ first :: rest ++ ((execute (commands A (first :: rest))).inHand ++ left)
    rw [hh, hpushed, hsplit]
    simp [Pc.inHand]
  · show commands A (gone ++ first :: rest) = executed ++ (execute (commands A (first :: rest))).pending
    rw [hp, commands_append, hqueued]
    simp [Pc.pending]

theorem step_order {db₀ : Store} {s s' : St} {e : Ev} (hO : ∃ onList gone executed, Order A db₀ s onList gone executed)
    (hok : NoFailure s e) (h : step A batchSize s e = some s') :
    ∃ onList gone executed, Order A db₀ s' onList gone executed := by
  obtain ⟨onList, gone, executed, hO⟩ := hO
  have hput : ∀ xs key, key ≠ ingestList → putList s.db ingestList xs key = s.db key := fun xs key hkey =>
    putList_other s.db xs hkey
  cases step_moves h with
  | push raw db hdb =>
    simp only [rpush, hO.listed, Except.map] at hdb
    cases hdb
    refine ⟨onList ++ [raw], gone, executed, putList_same _ _ _, ?_, hO.queued, ?_⟩
    · show s.pushed ++ [raw] = gone ++ (s.pc.inHand ++ (onList ++ [raw]))
      rw [hO.pushed]
      simp
    · intro key hkey
      exact (hO.appended key hkey).congr (hput _ key hkey)
  | nothing _ _ _ => exact ⟨onList, gone, executed, hO⟩
  | blpop first db hpc hdb =>
    simp only [blpop, hO.listed, Except.map] at hdb
    cases onList with
    | nil => cases hdb
    | cons first rest =>
      cases hdb
      have hpushed := hO.pushed
      have hqueued := hO.queued
      rw [hpc] at hpushed hqueued
      exact ⟨rest, gone, executed, putList_same _ _ _, hpushed, hqueued, fun key hkey =>
        (hO.appended key hkey).congr (hput _ key hkey)⟩
  | lpop first rest db hpc _ hdb =>
    simp only [lpop, hO.listed, Except.map] at hdb
    cases hdb
    exact ⟨_, _, executed, order_lpop hO hpc (List.take_append_drop _ onList).symm (putList_same _ _ _) (hput _)⟩
  | single first hpc _ =>
    exact ⟨_, _, executed, order_lpop hO hpc (List.nil_append onList).symm hO.listed fun _ _ => rfl⟩
  | lpopError first error _ herror =>
    simp only [lpop, hO.listed, Except.map] at herror
    cases herror
  | blpopLost _ _ _ _ => exact hok.elim
  | lpopFails _ _ => exact hok.elim
  | lpopLost _ _ _ _ _ _ => exact hok.elim
  | xadd clock c cs db hpc hdb => exact ⟨onList, gone, _, order_xadd hO hpc hdb⟩
  | xaddError clock c cs error hpc herror =>
    obtain ⟨db, hdb⟩ := hok c cs hpc
    rw [hdb] at herror
    cases herror
  | executeFails _ _ => exact hok.elim

/-- Whatever was pushed, in whatever batches it was popped: where no command fails, a
    drained list has added to each stream the records of the valid entries for its daemon
    and kind, each once and in the order of the pushes, and has written nothing else. -/
theorem drained_list_is_routed (A : RecordAdapter) (batchSize : Int) (s₀ s : St) (es : List Ev)
    (h₀ : (machine A batchSize).init s₀) (hrun : (machine A batchSize).run s₀ es = some s)
    (hok : (machine A batchSize).Along NoFailure s₀ es) (hidle : s.pc = .idle) (hempty : listAt s.db ingestList = .ok []) :
    (∀ h k, Appended s₀.db s.db (streamKey h k) (routed A s.pushed h k)) ∧
      ∀ key, key ≠ ingestList → (∀ h k, key ≠ streamKey h k) → s.db key = s₀.db key := by
  obtain ⟨onList, gone, executed, hO⟩ := Machine.run_inv (M := machine A batchSize)
    (I := fun s => ∃ onList gone executed, Order A s₀.db s onList gone executed)
    (fun _ _ _ hO hok h => step_order hO hok h) ⟨_, _, _, init_order h₀⟩ hok hrun
  have hlisted := hO.listed
  have hpushed := hO.pushed
  have hqueued := hO.queued
  rw [hempty] at hlisted
  cases hlisted
  rw [hidle] at hpushed hqueued
  have hgone : s.pushed = gone := by rw [hpushed]; simp [Pc.inHand]
  have hexecuted : executed = commands A s.pushed := by rw [hgone, hqueued]; simp [Pc.pending]
  constructor
  · intro h k
    rw [← fieldsFor_commands, ← hexecuted]
    exact hO.appended _ (streamKey_ne_ingestList h k)
  · intro key hkey hother
    have happ := hO.appended key hkey
    rw [hexecuted, fieldsFor_other hother] at happ
    exact happ

/-! ## Two batches -/

/-- A log record and a malformed entry on the list. -/
def oneValid : St where
  db := putList (fun _ => none) ingestList [helloText, "hello"]
  pc := .idle
  pushed := [helloText, "hello"]

/-- Two cycles of two entries each; a metric record and the log record again are pushed
    meanwhile. -/
def twoBatches : List Ev :=
  [.blpop, .push cpuText, .lpop, .push helloText, .xadd 5000, .blpop, .lpop, .xadd 6000, .xadd 6000]

theorem a_pushed_record_is_routed :
    ∃ s, (machine helloAdapter 2).run oneValid twoBatches = some s ∧ listAt s.db ingestList = .ok [] ∧
      Appended oneValid.db s.db (streamKey "prod-a" .log) [[("data", helloText)], [("data", helloText)]] ∧
      Appended oneValid.db s.db (streamKey "prod-a" .metric) [[("data", cpuText)]] := by
  have hrun : ((machine helloAdapter 2).run oneValid twoBatches).map (fun s => (s.pc, s.pushed, listAt s.db ingestList)) =
      some (.idle, [helloText, "hello", cpuText, helloText], .ok []) := by decide +kernel
  have hok : (machine helloAdapter 2).Along NoFailure oneValid twoBatches := by decide +kernel
  have hlogs : routed helloAdapter [helloText, "hello", cpuText, helloText] "prod-a" .log =
      [[("data", helloText)], [("data", helloText)]] := by decide +kernel
  have hmetrics : routed helloAdapter [helloText, "hello", cpuText, helloText] "prod-a" .metric = [[("data", cpuText)]] := by
    decide +kernel
  obtain ⟨s, hs, hview⟩ := Option.map_eq_some_iff.mp hrun
  obtain ⟨hidle, hview⟩ := Prod.mk.inj hview
  obtain ⟨hpushed, hempty⟩ := Prod.mk.inj hview
  have hinit : (machine helloAdapter 2).init oneValid := ⟨rfl, putList_same _ _ _⟩
  have happ := (drained_list_is_routed helloAdapter 2 oneValid s twoBatches hinit hs hok hidle hempty).1 "prod-a"
  have hlog := happ .log
  have hmetric := happ .metric
  rw [hpushed, hlogs] at hlog
  rw [hpushed, hmetrics] at hmetric
  exact ⟨s, hs, hempty, hlog, hmetric⟩

end LogSump.Server.Consumer
