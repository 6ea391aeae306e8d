/-
  LogSump.Listener.ContainerListener — `container_listener.py`: what a listener makes of the
  lines of `docker logs -f --timestamps`.

  Of what a payload may raise only the ValueError of `json.loads` is caught: not its
  RecursionError, nor the ValueError of pydantic, which writes the record.

  - `recordOf_base`: a record's identity is the container's, with the line's number.
  - `no_line_ends_its_listener_iff`: which lines do not end the loop.
  - `a_lone_surrogate_ends_its_listener`.
-/

import LogSump.Foundation.Loop
import LogSump.Listener.Records
import LogSump.Listener.Registry

namespace LogSump.Listener

open Common Python Foundation
open Transport.MergeStreams (StreamLine)

def defaultLevel : PyStr := py "info"

variable (L : Library)

/-- `_try_parse_json_object`. -/
def tryParseJsonObject (payload : String) : Except PyError (Option (List (PyStr × PyVal))) :=
  match L.loads (py payload) with
  | .error .valueError => .ok none
  | .error e => .error e
  | .ok (.dict members) => .ok (some members)
  | .ok _ => .ok none

/-- `str(fields.pop(key, default))`. -/
def pop (fields : List (PyStr × PyVal)) (key : String) (default : PyStr) : Except PyError PyStr :=
  match PyVal.get? fields key with
  | none => .ok default
  | some value => L.str value

/-- The fields that are left. -/
def popped (fields : List (PyStr × PyVal)) : List (PyStr × PyVal) :=
  fields.filter fun m => m.1 ≠ py "message" ∧ m.1 ≠ py "level"

/-- `text.partition(" ")`, without the separator. -/
def partitionSpace (text : String) : String × String :=
  (String.ofList (text.toList.takeWhile (· != ' ')), String.ofList ((text.toList.dropWhile (· != ' ')).drop 1))

/-- `.replace("Z", "+00:00")`. -/
def replaceZ (text : String) : String :=
  String.ofList (text.toList.flatMap fun c => if c = 'Z' then "+00:00".toList else [c])

variable (dockerHost : String) (ref : ContainerRef)

/-- `_parse_line`; `none` drops the line. -/
def parseLine (line : StreamLine) (seq : Int) : Except PyError (Option LogRecord) :=
  let (tsStr, payload) := partitionSpace line.text
  match L.fromisoformat (replaceZ tsStr) with
  | none => .ok none
  | some ts => do
    let parsed ← tryParseJsonObject L payload
    let fields := parsed.getD []
    let message ← pop L fields "message" (py payload)
    let level ← pop L fields "level" defaultLevel
    return some {
      dockerHost := dockerHost
      containerName := ref.containerName
      containerId := ref.containerId
      ts := ts
      seq := seq
      stream := line.stream
      level := level
      message := message
      fields := popped fields
      raw := line.text }

/-- The record of a line, once pydantic has written it; `none` for a line that is dropped. -/
def recordOf (line : StreamLine) (seq : Nat) : Except PyError (Option LogRecord) := do
  match ← parseLine L dockerHost ref line seq with
  | none => return none
  | some record =>
    dumpJson (record.Writable L.maxDepth)
    return some record

/-- What a listener has taken and shipped. -/
structure Progress where
  seq : Nat := 0
  shipped : List LogRecord := []

/-- One turn of the loop. -/
def turn (p : Progress) (line : StreamLine) : Progress × Option PyError :=
  let seq := p.seq + 1
  match recordOf L dockerHost ref line seq with
  | .error e => ({ p with seq }, some e)
  | .ok none => ({ p with seq }, none)
  | .ok (some record) => (⟨seq, p.shipped ++ [record]⟩, none)

/-- `run_container_listener`, over the lines that the stream gives. -/
def runContainerListener (lines : List StreamLine) : Progress × Option PyError :=
  Loop.run (turn L dockerHost ref) {} lines

/-- The first word is an ISO timestamp. -/
def Stamped (line : StreamLine) : Prop := (L.fromisoformat (replaceZ (partitionSpace line.text).1)).isSome

instance : DecidablePred (Stamped L) := fun line =>
  inferInstanceAs (Decidable ((L.fromisoformat (replaceZ (partitionSpace line.text).1)).isSome = true))

/-- The message, the level and the other members of a payload can be written. -/
def WritableFields (payload : String) (fields : List (PyStr × PyVal)) : Prop :=
  IsText (pop L fields "message" (py payload)) ∧ IsText (pop L fields "level" defaultLevel) ∧
    ∀ m ∈ popped fields, m.1.Encodable ∧ m.2.Writable L.maxDepth

/-- `json.loads` raises at most its ValueError, and the fields of an object can be written. -/
def Harmless (payload : String) : Prop :=
  match L.loads (py payload) with
  | .error e => e = .valueError
  | .ok (.dict members) => WritableFields L payload members
  | .ok _ => True

variable {L : Library} {dockerHost : String} {ref : ContainerRef}

theorem parseLine_base {line : StreamLine} {seq : Int} {r : LogRecord} (h : parseLine L dockerHost ref line seq = .ok (some r)) :
    r.dockerHost = dockerHost ∧ r.containerId = ref.containerId ∧ r.seq = seq ∧ r.stream = line.stream ∧ r.raw = line.text := by
  simp only [parseLine] at h
  split at h
  · cases h
  · obtain ⟨parsed, -, h⟩ := bind_eq_ok h
    obtain ⟨message, -, h⟩ := bind_eq_ok h
    obtain ⟨level, -, h⟩ := bind_eq_ok h
    cases h
    exact ⟨rfl, rfl, rfl, rfl, rfl⟩

theorem recordOf_base {line : StreamLine} {seq : Nat} {r : LogRecord} (h : recordOf L dockerHost ref line seq = .ok (some r)) :
    r.dockerHost = dockerHost ∧ r.containerId = ref.containerId ∧ r.seq = seq ∧ r.stream = line.stream ∧ r.raw = line.text := by
  obtain ⟨o, hp, h⟩ := bind_eq_ok h
  cases o with
  | none => cases h
  | some r' =>
    obtain ⟨-, -, h⟩ := bind_eq_ok h
    cases h
    exact parseLine_base hp

/-! ## The lines -/

/-- A payload that is not an object is the message. -/
theorem writableFields_nil (payload : String) : WritableFields L payload [] := by
  refine ⟨⟨_, rfl, PyStr.encodable_py _⟩, ⟨_, rfl, PyStr.encodable_py _⟩, ?_⟩
  intro m hm
  cases hm

section
variable {line : StreamLine} {ts : Datetime} {parsed : Option (List (PyStr × PyVal))}
  (hts : L.fromisoformat (replaceZ (partitionSpace line.text).1) = some ts)
  (hp : tryParseJsonObject L (partitionSpace line.text).2 = .ok parsed)

include hts hp

theorem recordOf_ok (hw : WritableFields L (partitionSpace line.text).2 (parsed.getD [])) (seq : Nat) :
    ∃ r, recordOf L dockerHost ref line seq = .ok (some r) := by
  obtain ⟨⟨message, hm, hme⟩, ⟨level, hl, hle⟩, hf⟩ := hw
  unfold recordOf parseLine
  simp only [hts, hp, hm, hl, ok_bind, pure, Except.pure]
  rw [dumpJson_true]
  · exact ⟨_, rfl⟩
  · exact ⟨hle, hme, hf⟩

theorem recordOf_error (hw : ¬ WritableFields L (partitionSpace line.text).2 (parsed.getD [])) :
    ∃ e, ∀ seq, recordOf L dockerHost ref line seq = .error e := by
  unfold recordOf parseLine
  simp only [hts, hp, ok_bind]
  cases hm : pop L (parsed.getD []) "message" (py (partitionSpace line.text).2) with
  | error e => exact ⟨e, fun _ => rfl⟩
  | ok message =>
    cases hl : pop L (parsed.getD []) "level" defaultLevel with
    | error e => exact ⟨e, fun _ => rfl⟩
    | ok level =>
      refine ⟨.valueError, ?_⟩
      intro seq
      simp only [ok_bind, pure, Except.pure]
      rw [dumpJson_false]
      · rfl
      · intro h
        obtain ⟨hle, hme, hf⟩ := h
        exact hw ⟨⟨message, hm, hme⟩, ⟨level, hl, hle⟩, hf⟩

end

/-- A line without a timestamp is dropped. -/
theorem recordOf_unstamped {line : StreamLine} (h : ¬ Stamped L line) (seq : Nat) :
    recordOf L dockerHost ref line seq = .ok none := by
  have hts : L.fromisoformat (replaceZ (partitionSpace line.text).1) = none := by
    rwa [Stamped, Option.not_isSome_iff_eq_none] at h
  unfold recordOf parseLine
  simp only [hts, ok_bind]
  rfl

/-- A line with one makes a record, or raises whatever its number is. -/
theorem recordOf_stamped {line : StreamLine} (h : Stamped L line) :
    (Harmless L (partitionSpace line.text).2 ∧ ∀ seq, ∃ r, recordOf L dockerHost ref line seq = .ok (some r)) ∨
      (¬ Harmless L (partitionSpace line.text).2 ∧ ∃ e, ∀ seq, recordOf L dockerHost ref line seq = .error e) := by
  obtain ⟨ts, hts⟩ := Option.isSome_iff_exists.mp h
  have hnone : tryParseJsonObject L (partitionSpace line.text).2 = .ok none →
      ∀ seq, ∃ r, recordOf L dockerHost ref line seq = .ok (some r) := fun hp =>
    recordOf_ok hts hp (writableFields_nil _)
  unfold Harmless
  cases hloads : L.loads (py (partitionSpace line.text).2) with
  | error e =>
    by_cases he : e = .valueError
    · exact .inl ⟨he, hnone (by rw [tryParseJsonObject, hloads, he])⟩
    · refine .inr ⟨he, e, ?_⟩
      intro seq
      have hp : tryParseJsonObject L (partitionSpace line.text).2 = .error e := by
        rw [tryParseJsonObject, hloads]
        cases e with
        | valueError => exact absurd rfl he
        | _ => rfl
      unfold recordOf parseLine
      simp only [hts, hp, error_bind]
  | ok v =>
    cases v with
    | dict members =>
      have hp : tryParseJsonObject L (partitionSpace line.text).2 = .ok (some members) := by rw [tryParseJsonObject, hloads]
      by_cases hw : WritableFields L (partitionSpace line.text).2 members
      · exact .inl ⟨hw, recordOf_ok hts hp hw⟩
      · exact .inr ⟨hw, recordOf_error hts hp hw⟩
    | _ => exact .inl ⟨trivial, hnone (by rw [tryParseJsonObject, hloads])⟩

/-! ## The loop -/

/-- What can be told of a record and of the line that it was made of. -/
def LogRecord.line (r : LogRecord) : StreamLine := ⟨r.stream, r.raw⟩

/-- The loop goes on after the last line, and has shipped a record for each line with a
    timestamp: in their order, each with its line and a number above the ones before. -/
def EachShippedOnce (L : Library) (lines : List StreamLine) (out : Progress × Option PyError) : Prop :=
  out.2 = none ∧ out.1.shipped.map LogRecord.line = lines.filter (Stamped L) ∧
    out.1.shipped.Pairwise fun a b => a.seq < b.seq

/-- What a line raises. -/
def raised (L : Library) (dockerHost : String) (ref : ContainerRef) (line : StreamLine) : Option PyError :=
  error? (recordOf L dockerHost ref line 0)

theorem raised_eq_none_iff {line : StreamLine} :
    raised L dockerHost ref line = none ↔ (Stamped L line → Harmless L (partitionSpace line.text).2) := by
  rw [raised, error?_eq_none_iff]
  by_cases hs : Stamped L line
  · rcases @recordOf_stamped L dockerHost ref line hs with ⟨hh, hr⟩ | ⟨hh, e, he⟩
    · obtain ⟨r, hr⟩ := hr 0
      simp [hr, hh]
    · simp [he 0, hs, hh]
  · simp [recordOf_unstamped hs, hs]

theorem turn_raises : Loop.RaisedBy (turn L dockerHost ref) (raised L dockerHost ref) := by
  intro p line
  unfold turn raised
  by_cases hs : Stamped L line
  · rcases @recordOf_stamped L dockerHost ref line hs with ⟨-, hr⟩ | ⟨-, e, he⟩
    · obtain ⟨r, hnext⟩ := hr (p.seq + 1)
      obtain ⟨r', hzero⟩ := hr 0
      simp only [hnext, hzero, error?]
    · simp [he, error?]
  · simp [recordOf_unstamped hs, error?]

/-- The turn of a line that raises nothing. -/
theorem turn_cases (p : Progress) {line : StreamLine} (h : raised L dockerHost ref line = none) :
    (¬ Stamped L line ∧ turn L dockerHost ref p line = (⟨p.seq + 1, p.shipped⟩, none)) ∨
      (Stamped L line ∧ ∃ r : LogRecord, r.line = line ∧ r.seq = (p.seq + 1 : Nat) ∧
        turn L dockerHost ref p line = (⟨p.seq + 1, p.shipped ++ [r]⟩, none)) := by
  unfold turn
  by_cases hs : Stamped L line
  · rcases @recordOf_stamped L dockerHost ref line hs with ⟨-, hr⟩ | ⟨hh, -⟩
    · obtain ⟨r, hr⟩ := hr (p.seq + 1)
      obtain ⟨-, -, hseq, hstream, hraw⟩ := recordOf_base hr
      refine .inr ⟨hs, r, ?_, hseq, ?_⟩
      · rw [LogRecord.line, hstream, hraw]
      · simp only [hr]
    · exact absurd (raised_eq_none_iff.mp h hs) hh
  · refine .inl ⟨hs, ?_⟩
    simp only [recordOf_unstamped hs]

theorem run_ships {lines : List StreamLine} (h : ∀ line ∈ lines, raised L dockerHost ref line = none) (p : Progress) :
    ∃ rs : List LogRecord, (Loop.run (turn L dockerHost ref) p lines).1.shipped = p.shipped ++ rs ∧
      rs.map LogRecord.line = lines.filter (Stamped L) ∧ (∀ r ∈ rs, (p.seq : Int) < r.seq) ∧
      rs.Pairwise fun a b => a.seq < b.seq := by
  induction lines generalizing p with
  | nil => exact ⟨[], by simp [Loop.run]⟩
  | cons line lines ih =>
    have hrest := fun l hl => h l (List.mem_cons_of_mem _ hl)
    rcases turn_cases p (h line List.mem_cons_self) with ⟨hs, ht⟩ | ⟨hs, r, hline, hseq, ht⟩
    · obtain ⟨rs, hshipped, hmap, hlt, hpw⟩ := ih hrest ⟨p.seq + 1, p.shipped⟩
      refine ⟨rs, ?_, ?_, ?_, hpw⟩
      · rw [Loop.run_cons_none ht, hshipped]
      · rw [hmap, List.filter_cons_of_neg (by simpa using hs)]
      · intro r hr
        have := hlt r hr
        push_cast at this
        omega
    · obtain ⟨rs, hshipped, hmap, hlt, hpw⟩ := ih hrest ⟨p.seq + 1, p.shipped ++ [r]⟩
      refine ⟨r :: rs, ?_, ?_, ?_, ?_⟩
      · rw [Loop.run_cons_none ht, hshipped, List.append_assoc, List.singleton_append]
      · rw [List.map_cons, hline, hmap, List.filter_cons_of_pos (by simpa using hs)]
      · intro r' hr'
        rcases List.mem_cons.mp hr' with rfl | hr'
        · rw [hseq]
          push_cast
          omega
        · have := hlt r' hr'
          push_cast at this
          omega
      · refine List.pairwise_cons.mpr ⟨?_, hpw⟩
        intro r' hr'
        rw [hseq]
        exact hlt r' hr'

/-- The loop goes on after every line, with one record for each line with a timestamp, exactly
    where what follows each of these timestamps is harmless. -/
theorem no_line_ends_its_listener_iff (L : Library) (dockerHost : String) (ref : ContainerRef) (lines : List StreamLine) :
    EachShippedOnce L lines (runContainerListener L dockerHost ref lines) ↔
      ∀ line ∈ lines, Stamped L line → Harmless L (partitionSpace line.text).2 := by
  have hnone : (runContainerListener L dockerHost ref lines).2 = none ↔
      ∀ line ∈ lines, raised L dockerHost ref line = none := Loop.run_none_iff turn_raises
  constructor
  · intro hships
    obtain ⟨hend, -⟩ := hships
    intro line hl
    exact raised_eq_none_iff.mp (hnone.mp hend line hl)
  · intro h
    have hraised : ∀ line ∈ lines, raised L dockerHost ref line = none := fun line hl =>
      raised_eq_none_iff.mpr (h line hl)
    obtain ⟨rs, hshipped, hmap, -, hpw⟩ := run_ships hraised {}
    rw [List.nil_append] at hshipped
    refine ⟨hnone.mpr hraised, ?_, ?_⟩
    · rw [runContainerListener, hshipped, hmap]
    · rw [runContainerListener, hshipped]
      exact hpw

/-- The libraries on the payload of the line below: `json.loads` accepts the escape of a lone
    surrogate, and `str` gives it back. -/
def surrogateLibrary : Library where
  fromisoformat text := if text = "1970-01-01T00:00:05+00:00" then some helloLog.ts else none
  loads text :=
    if text = py "\x7b\"message\":\"\\ud800\"\x7d" then
      .ok (.dict [(py "message", .str [⟨0xD800, by decide⟩])])
    else .error .valueError
  repr _ := .ok []
  maxDepth := 255

def surrogateLine : StreamLine := ⟨.stdout, "1970-01-01T00:00:05Z \x7b\"message\":\"\\ud800\"\x7d"⟩

/-- A container writes one escape, and is not listened to any more. -/
theorem a_lone_surrogate_ends_its_listener :
    let ref : ContainerRef := ⟨"a1b2c3d4e5f6", "web-1"⟩
    let lines := [surrogateLine, ⟨.stdout, "1970-01-01T00:00:05Z hello"⟩]
    (runContainerListener surrogateLibrary "prod-a" ref lines).2 = some .valueError ∧
      (runContainerListener surrogateLibrary "prod-a" ref lines).1.shipped.length = 0 ∧
      ¬ EachShippedOnce surrogateLibrary lines (runContainerListener surrogateLibrary "prod-a" ref lines) := by
  have hraised : (runContainerListener surrogateLibrary "prod-a" ⟨"a1b2c3d4e5f6", "web-1"⟩
      [surrogateLine, ⟨.stdout, "1970-01-01T00:00:05Z hello"⟩]).2 = some .valueError := by decide +kernel
  refine ⟨hraised, by decide +kernel, ?_⟩
  intro h
  obtain ⟨hend, -⟩ := h
  rw [hraised] at hend
  cases hend

end LogSump.Listener
