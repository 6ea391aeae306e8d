/-
  LogSump.Transport.Interleaving — what the merge yields, in terms of the bytes that the
  subprocess wrote.

  A line is at each moment yielded, on the queue, or not read yet, and in this order its
  stream's lines are all there (`Lossless.order`). A pump puts its marker after its last line,
  so behind the second marker nothing is left on the queue when the generator ends.

  - `reach_lossless`: the invariant, for any outputs.
  - `the_merge_is_an_interleaving`: what has been yielded when the generator has ended, and
    what has been yielded at any time.
-/

import LogSump.Python.Codec
import LogSump.Transport.MergeStreams

namespace LogSump.Transport.MergeStreams

open Foundation Python

/-- The decoded line, without its newline. -/
def decodeLine (raw : List UInt8) : String := String.ofList (Codec.rstripNewline (Codec.decode raw))

/-- What a `StreamReader` gives of the bytes: the lines before the first one over its limit. -/
def readerOutput (limit : Nat) (bytes : List UInt8) : Output (List UInt8) :=
  let raw := Codec.rawLines bytes
  ⟨raw.takeWhile fun line => (Codec.chomp line).length ≤ limit,
    if ∀ line ∈ raw, (Codec.chomp line).length ≤ limit then .eof else .readError⟩

/-- Restricted to each stream, these are the lines of its bytes, decoded. -/
def Interleaves (merged : List StreamLine) (bytes : StreamName → List UInt8) : Prop :=
  ∀ n, merged.filter (·.stream = n) = (Codec.lines (bytes n)).map fun line => ⟨n, String.ofList (Codec.decode line)⟩

section
variable {Raw : Type} (decode : Raw → String)

/-- What has not been read yet. -/
def unread (s : St Raw) (n : StreamName) : List StreamLine := (s.pumps n).input.map fun raw => ⟨n, decode raw⟩

/-- The lines on the queue. -/
def queued (s : St Raw) : List StreamLine := s.queue.filterMap id

structure Lossless (out : StreamName → Output Raw) (s : St Raw) : Prop where
  order : ∀ n, (s.yielded ++ queued s).filter (·.stream = n) ++ unread decode s n =
    (out n).lines.map fun raw => ⟨n, decode raw⟩
  doneRead : ∀ n, (s.pumps n).task = .done → (s.pumps n).input = []
  markerLast : (∀ n, (s.pumps n).task = .done) → ∀ line, s.queue.getLast? ≠ some (some line)
  endedEmpty : s.gen = .ended → s.queue = []

theorem start_lossless (out : StreamName → Output Raw) : Lossless decode out (start out) := by
  refine ⟨fun n => rfl, ?_, ?_, ?_⟩ <;> simp [start]

theorem cancel_input (p : Pump Raw) : (cancel p).input = p.input := by unfold cancel; split <;> rfl

theorem done_of_cancel {p : Pump Raw} (h : (cancel p).task = .done) : p.task = .done := by
  rcases cancel_task p with e | e
  · exact e ▸ h
  · rw [e] at h; cases h

theorem unread_cancelPumps (s : St Raw) (n : StreamName) : unread decode (cancelPumps s) n = unread decode s n := by
  simp only [unread, cancelPumps, cancel_input]

/-- Where no turn of a pump is taken, only `cancelPumps` touches the pumps. -/
theorem Lossless.cancelPumps {out : StreamName → Output Raw} {s : St Raw} (h : Lossless decode out s) {g : GenSt}
    (hg : g = .ended → s.queue = []) : Lossless decode out { cancelPumps s with gen := g } := by
  refine ⟨?_, ?_, ?_, hg⟩
  · intro n
    exact (congrArg _ (unread_cancelPumps decode s n)).trans (h.order n)
  · intro n hn
    exact (cancel_input _).trans (h.doneRead n (done_of_cancel hn))
  · intro hall
    exact h.markerLast fun n => done_of_cancel (hall n)

theorem pump_lossless {out : StreamName → Output Raw} {s : St Raw} {n : StreamName} (hi : Inv out s)
    (hl : Lossless decode out s) (hr : (s.pumps n).task = .running) : Lossless decode out (pump decode s n) := by
  obtain ⟨p, items, hp, he, hc⟩ := pump_cases decode s n
  have hother : ∀ m, m ≠ n → Function.update s.pumps n p m = s.pumps m := fun m hm => Function.update_of_ne hm _ _
  have hself : Function.update s.pumps n p n = p := Function.update_self _ _ _
  -- what has left the pump's input is what has come on the queue
  have hmoved : items.filterMap id ++ p.input.map (fun raw => ⟨n, decode raw⟩) = unread decode s n := by
    rcases hc with ⟨raw, hin, -, rfl⟩ | ⟨hin, hempty, -, -, rfl⟩ | ⟨hin, hempty, -, -, rfl⟩
    · rw [unread, hin]; rfl
    · rw [unread, hin, hempty]; rfl
    · rw [unread, hin, hempty]; rfl
  have hitems : ∀ line ∈ items.filterMap id, line.stream = n := by
    rcases hc with ⟨raw, -, -, rfl⟩ | ⟨-, -, -, -, rfl⟩ | ⟨-, -, -, -, rfl⟩ <;> simp
  rw [hp]
  refine ⟨?_, ?_, ?_, ?_⟩
  · intro m
    have horder := hl.order m
    show (s.yielded ++ (s.queue ++ items).filterMap id).filter (·.stream = m) ++
      (Function.update s.pumps n p m).input.map (fun raw => ⟨m, decode raw⟩) = _
    rw [List.filterMap_append, ← List.append_assoc, List.filter_append]
    by_cases hm : m = n
    · subst hm
      have hall : (items.filterMap id).filter (·.stream = m) = items.filterMap id :=
        List.filter_eq_self.mpr fun line hline => by simpa using hitems line hline
      rw [hself, hall, List.append_assoc, hmoved]
      exact horder
    · have hnone : (items.filterMap id).filter (·.stream = m) = [] :=
        List.filter_eq_nil_iff.mpr fun line hline hs => hm ((of_decide_eq_true hs).symm.trans (hitems line hline))
      rw [hother m hm, hnone, List.append_nil]
      exact horder
  · intro m hd
    change (Function.update s.pumps n p m).task = .done at hd
    show (Function.update s.pumps n p m).input = []
    by_cases hm : m = n
    · subst hm
      rw [hself] at hd ⊢
      rcases hc with ⟨raw, -, ht, -⟩ | ⟨-, hempty, -⟩ | ⟨-, hempty, -⟩
      · rw [ht, hr] at hd; cases hd
      · exact hempty
      · exact hempty
    · rw [hother m hm] at hd ⊢
      exact hl.doneRead m hd
  · intro hall line
    have hd : p.task = .done := by rw [← hself]; exact hall n
    show (s.queue ++ items).getLast? ≠ some (some line)
    rcases hc with ⟨raw, -, ht, -⟩ | ⟨-, -, -, -, rfl⟩ | ⟨-, -, -, ht, -⟩
    · rw [ht, hr] at hd; cases hd
    · rw [List.getLast?_concat]
      intro h
      cases h
    · rw [ht] at hd; cases hd
  · intro hg
    exact absurd ((hi.endedDone hg n).symm.trans hr) (by simp)

/-- When the generator counts the last marker, nothing stands behind it. -/
theorem nothing_behind_the_last_marker {out : StreamName → Output Raw} {s : St Raw} {q : List (Option StreamLine)}
    (hi : Inv out s) (hl : Lossless decode out s) (hf : ¬ Finished s) (hq : s.queue = none :: q) (hr : s.remaining ≤ 1) :
    q = [] := by
  have hacc := hi.accounts hf
  rw [hq, List.count_cons_self] at hacc
  have hdone : ∀ n, (s.pumps n).task = .done := by
    intro n
    have h0 : owes (s.pumps n) = 0 := by cases n <;> simp only [owed] at hacc <;> omega
    by_contra hd
    simp [owes, hd] at h0
  have hnone : q.count none = 0 := by omega
  by_contra hne
  have hlast := hl.markerLast hdone
  rw [hq, List.getLast?_cons_of_ne_nil hne] at hlast
  cases hx : q.getLast? with
  | none => exact hne (List.getLast?_eq_none_iff.mp hx)
  | some item =>
    cases item with
    | none => exact List.count_eq_zero.mp hnone (List.mem_of_getLast? hx)
    | some line => exact hlast line hx

theorem get_lossless {out : StreamName → Output Raw} {s s' : St Raw} (hi : Inv out s) (hl : Lossless decode out s)
    (hg : s.gen = .getting) (h : get s = some s') : Lossless decode out s' := by
  have hf : ¬ Finished s := by simp [Finished, hg]
  have hlast : ∀ {item q}, s.queue = item :: q → (∀ n, (s.pumps n).task = .done) →
      ∀ line, q.getLast? ≠ some (some line) := by
    intro item q hq hall line hx
    refine hl.markerLast hall line ?_
    rw [hq, List.getLast?_cons, hx]
    rfl
  rcases get_cases h with ⟨line, q, hq, rfl⟩ | ⟨q, hq, -, rfl⟩ | ⟨q, hq, hr, rfl⟩
  · refine ⟨?_, hl.doneRead, hlast hq, fun he => by cases he⟩
    intro n
    have horder := hl.order n
    rw [queued, hq] at horder
    have hsame : s.yielded ++ (some line :: q).filterMap id = s.yielded ++ [line] ++ q.filterMap id := by simp
    rw [hsame] at horder
    exact horder
  · refine ⟨?_, hl.doneRead, hlast hq, fun he => absurd (hg.symm.trans he) (by simp)⟩
    intro n
    have horder := hl.order n
    rw [queued, hq] at horder
    exact horder
  · have hempty := nothing_behind_the_last_marker decode hi hl hf hq hr
    subst hempty
    refine Lossless.cancelPumps decode ?_ fun _ => rfl
    refine ⟨?_, hl.doneRead, hlast hq, fun _ => rfl⟩
    intro n
    have horder := hl.order n
    rw [queued, hq] at horder
    exact horder

theorem step_lossless {out : StreamName → Output Raw} {s : St Raw} {e : Ev} {s' : St Raw}
    (hi : Inv out s) (hl : Lossless decode out s) (h : step decode s e = some s') : Lossless decode out s' := by
  cases e with
  | pump n =>
    simp only [step, Option.ite_none_right_eq_some, Option.some.injEq] at h
    obtain ⟨hr, rfl⟩ := h
    exact pump_lossless decode hi hl hr
  | get =>
    simp only [step, Option.ite_none_right_eq_some] at h
    exact get_lossless decode hi hl h.1 h.2
  | next =>
    simp only [step, Option.ite_none_right_eq_some, Option.some.injEq] at h
    obtain ⟨-, rfl⟩ := h
    exact ⟨hl.order, hl.doneRead, hl.markerLast, fun he => by cases he⟩
  | close =>
    simp only [step, Option.ite_none_right_eq_some, Option.some.injEq] at h
    obtain ⟨-, rfl⟩ := h
    exact hl.cancelPumps decode fun he => by cases he

theorem reach_lossless {out : StreamName → Output Raw} {s : St Raw} (h : (machine decode out).Reach s) :
    Lossless decode out s := by
  refine (h.inv (I := fun s => Inv out s ∧ Lossless decode out s) (fun t ht => ?_) fun _ _ _ hi hs =>
    ⟨step_inv decode hi.1 hs, step_lossless decode hi.1 hi.2 hs⟩).2
  obtain rfl : t = start out := ht
  exact ⟨start_inv out, start_lossless decode out⟩

/-- What is still to come, once a stream has been taken off the queue and read. -/
def toCome (s : St Raw) : List StreamLine := queued s ++ unread decode s .stdout ++ unread decode s .stderr

theorem filter_unread (s : St Raw) (m n : StreamName) :
    (unread decode s m).filter (·.stream = n) = if m = n then unread decode s n else [] := by
  by_cases h : m = n
  · subst h
    rw [if_pos rfl]
    exact List.filter_eq_self.mpr fun line hline => by
      obtain ⟨raw, -, rfl⟩ := List.mem_map.mp hline
      simp
  · rw [if_neg h]
    refine List.filter_eq_nil_iff.mpr fun line hline => ?_
    obtain ⟨raw, -, rfl⟩ := List.mem_map.mp hline
    simpa using h

theorem Lossless.yielded_toCome {out : StreamName → Output Raw} {s : St Raw} (h : Lossless decode out s) (n : StreamName) :
    (s.yielded ++ toCome decode s).filter (·.stream = n) = (out n).lines.map fun raw => ⟨n, decode raw⟩ := by
  have hsplit : s.yielded ++ toCome decode s = s.yielded ++ queued s ++ (unread decode s .stdout ++ unread decode s .stderr) := by
    simp only [toCome, List.append_assoc]
  have hrest : (unread decode s .stdout ++ unread decode s .stderr).filter (·.stream = n) = unread decode s n := by
    rw [List.filter_append, filter_unread, filter_unread]
    cases n <;> simp
  rw [hsplit, List.filter_append, hrest, h.order n]

end

/-! ## The bytes -/

theorem readerOutput_within {limit : Nat} {bytes : List UInt8} (h : ∀ line ∈ Codec.lines bytes, line.length ≤ limit) :
    readerOutput limit bytes = ⟨Codec.rawLines bytes, .eof⟩ := by
  have hraw : ∀ line ∈ Codec.rawLines bytes, (Codec.chomp line).length ≤ limit := fun line hline =>
    h _ (Codec.chomp_rawLines bytes ▸ List.mem_map_of_mem hline)
  have hall : (Codec.rawLines bytes).takeWhile (fun line => (Codec.chomp line).length ≤ limit) = Codec.rawLines bytes :=
    List.takeWhile_eq_self_iff.mpr fun line hline => by simpa using hraw line hline
  simp only [readerOutput, hall, if_pos hraw]

theorem decodeLine_rawLines (n : StreamName) (bytes : List UInt8) :
    (Codec.rawLines bytes).map (fun raw => (⟨n, decodeLine raw⟩ : StreamLine)) =
      (Codec.lines bytes).map fun line => ⟨n, String.ofList (Codec.decode line)⟩ := by
  rw [← Codec.chomp_rawLines, List.map_map]
  refine List.map_congr_left fun raw hraw => ?_
  rw [decodeLine, Codec.rstrip_decode hraw]
  rfl

/-- For any bytes that end by EOF, each line within the reader's limit: what the generator has
    yielded when it ends is an interleaving of the two streams' lines, and what it has yielded
    at any time begins one. -/
theorem the_merge_is_an_interleaving (limit : Nat) (bytes : StreamName → List UInt8)
    (hlimit : ∀ n, ∀ line ∈ Codec.lines (bytes n), line.length ≤ limit) {s : St (List UInt8)}
    (hs : (machine decodeLine fun n => readerOutput limit (bytes n)).Reach s) :
    (s.gen = .ended → Interleaves s.yielded bytes) ∧ ∃ rest, Interleaves (s.yielded ++ rest) bytes := by
  have hout : (fun n => readerOutput limit (bytes n)) = fun n => ⟨Codec.rawLines (bytes n), .eof⟩ :=
    funext fun n => readerOutput_within (hlimit n)
  rw [hout] at hs
  have hi := reach_inv decodeLine hs
  have hl := reach_lossless decodeLine hs
  have hall : Interleaves (s.yielded ++ toCome decodeLine s) bytes := fun n =>
    (hl.yielded_toCome decodeLine n).trans (decodeLine_rawLines n (bytes n))
  refine ⟨?_, toCome decodeLine s, hall⟩
  intro hend
  have hread : ∀ n, unread decodeLine s n = [] := fun n => by
    rw [unread, hl.doneRead n (hi.endedDone hend n)]
    rfl
  have hnone : toCome decodeLine s = [] := by
    rw [toCome, hread, hread, queued, hl.endedEmpty hend]
    rfl
  rwa [hnone, List.append_nil] at hall

/-- One line on each stream, stderr's without a newline. -/
def twoLines : StreamName → List UInt8
  | .stdout => [0x68, 0x69, 0x0A]
  | .stderr => [0x6E, 0x6F]

theorem two_lines_interleave : ∃ s, (machine decodeLine fun n => readerOutput 65536 (twoLines n)).Reach s ∧
    s.gen = .ended ∧ Interleaves s.yielded twoLines := by
  have hlines : ∀ n, ∀ line ∈ Codec.lines (twoLines n), line.length ≤ 65536 := by
    intro n
    rw [← Codec.chomp_rawLines]
    cases n <;> decide
  let es : List Ev := [.pump .stderr, .get, .pump .stdout, .next, .pump .stderr, .pump .stdout, .get, .next, .get, .get]
  have hrun : ((machine decodeLine fun n => readerOutput 65536 (twoLines n)).run
      (start fun n => readerOutput 65536 (twoLines n)) es).map (·.gen) = some .ended := by decide +kernel
  obtain ⟨s, hs, hend⟩ := Option.map_eq_some_iff.mp hrun
  have hreach := (Machine.Reach.init rfl).run hs
  exact ⟨s, hreach, hend, (the_merge_is_an_interleaving 65536 twoLines hlines hreach).1 hend⟩

end LogSump.Transport.MergeStreams
