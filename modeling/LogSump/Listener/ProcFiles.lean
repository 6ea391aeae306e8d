/-
  LogSump.Listener.ProcFiles — the parsers of `/proc` in `system_stats.py`.

  Only the counters of `/proc/stat` are converted where a ValueError is raised
  (`parseCpuTotalIdle_error`); the other parsers skip the lines that they cannot read.
-/

import LogSump.Foundation.Loop
import LogSump.Common.Value

namespace LogSump.Listener.ProcFiles

open Common Python Foundation

def markerStat : PyStr := py "===STAT==="

def markerMeminfo : PyStr := py "===MEMINFO==="

def markerNetdev : PyStr := py "===NETDEV==="

def markerDiskstats : PyStr := py "===DISKSTATS==="

/-- The loop of `_split_proc_sections`. -/
structure Sections where
  current : Option PyStr := none
  lines : PyStr → Option (List PyStr) := fun _ => none

def Sections.take (s : Sections) (line : PyStr) : Sections :=
  if line ∈ [markerStat, markerMeminfo, markerNetdev, markerDiskstats] then
    ⟨some line, Function.update s.lines line (some [])⟩
  else
    match s.current with
    | none => s
    | some marker => { s with lines := Function.update s.lines marker ((s.lines marker).map (· ++ [line])) }

/-- `_split_proc_sections(stdout).get(marker, "")`. -/
def sectionText (stdout : PyStr) (marker : PyStr) : PyStr :=
  match (stdout.splitlines.foldl Sections.take {}).lines marker with
  | none => []
  | some lines => (py "\n").intercalate lines

/-- `[int(p) for p in line.split()[1:] if p.isdigit()]`. -/
def counters (line : PyStr) : Except PyError (List Int) :=
  ((line.split.drop 1).filter (·.isdigit)).mapM fun p =>
    match int? p with
    | none => .error .valueError
    | some n => .ok n

/-- `_parse_cpu_total_idle`: the sum of all counters, and idle with iowait. -/
def parseCpuTotalIdle (statText : PyStr) : Except PyError (Option (Int × Int)) :=
  match statText.splitlines.find? fun line => (py "cpu ").isPrefixOf line with
  | none => .ok none
  | some line => do
    let values ← counters line
    match values with
    | _ :: _ :: _ :: idle :: rest => return some (values.sum, idle + rest.headD 0)
    | _ => return none

/-- One line of `_parse_meminfo`; later values of a key stand first. -/
def takeMeminfo (values : List (PyStr × Int)) (line : PyStr) : List (PyStr × Int) :=
  let (key, rest) := line.partition ':'
  let rest := PyStr.strip (rest.getD [])
  if (py "kB").isSuffixOf rest then
    match int? (PyStr.strip (rest.take (rest.length - 2))) with
    | none => values
    | some n => (key, n * 1024) :: values
  else values

/-- `_parse_meminfo`: `MemTotal` and `MemAvailable`, in bytes. -/
def parseMeminfo (meminfoText : PyStr) : Option (Int × Int) :=
  let values := meminfoText.splitlines.foldl takeMeminfo []
  match values.lookup (py "MemTotal") with
  | none => none
  | some total => some (total, (values.lookup (py "MemAvailable")).getD total)

/-- The two sums of `_parse_net_dev` and `_parse_diskstats`. -/
structure Totals where
  first : Int := 0
  second : Int := 0
  found : Bool := false

/-- `first += int(a); second += int(b); found = True`, up to what `int` refuses. -/
def Totals.add (t : Totals) (a b : PyStr) : Totals :=
  match int? a with
  | none => t
  | some m =>
    match int? b with
    | none => { t with first := t.first + m }
    | some n => ⟨t.first + m, t.second + n, true⟩

def takeNetDev (t : Totals) (line : PyStr) : Totals :=
  match line.partition ':' with
  | (_, none) => t
  | (iface, some rest) =>
    let iface := iface.strip
    let fields := rest.split
    if iface = py "lo" ∨ iface = [] ∨ fields.length < 9 then t else t.add (fields.getD 0 []) (fields.getD 8 [])

/-- `_parse_net_dev`: received and sent bytes. -/
def parseNetDev (netdevText : PyStr) : Option (Int × Int) :=
  let t := netdevText.splitlines.foldl takeNetDev {}
  if t.found then some (t.first, t.second) else none

def IsLower (c : PyChar) : Prop := 0x61 ≤ c.code ∧ c.code ≤ 0x7A

instance : DecidablePred IsLower := fun c => inferInstanceAs (Decidable (0x61 ≤ c.code ∧ c.code ≤ 0x7A))

/-- The text after a prefix. -/
def after? (start : String) (text : PyStr) : Option PyStr :=
  if (py start).isPrefixOf text then some (text.drop start.length) else none

/-- The text after one or more characters of a kind. -/
def afterSome? (p : PyChar → Bool) (text : PyStr) : Option PyStr := if (text.takeWhile p) = [] then none else some (text.dropWhile p)

/-- `_PARTITION_RE`. -/
def isPartition (name : PyStr) : Bool :=
  let isDecimal := fun c : PyChar => c.decimal?.isSome
  (["sd", "hd", "vd", "xvd"].any fun kind =>
      ((after? kind name).bind fun rest => (afterSome? (IsLower ·) rest).bind (afterSome? isDecimal)) = some []) ||
    ((after? "nvme" name).bind fun rest => (afterSome? isDecimal rest).bind fun rest => (after? "n" rest).bind fun rest =>
        (afterSome? isDecimal rest).bind fun rest => (after? "p" rest).bind (afterSome? isDecimal)) = some []

/-- `_VIRTUAL_DEVICE_PREFIXES`. -/
def isVirtual (name : PyStr) : Bool := ["loop", "ram", "dm-"].any fun kind => (py kind).isPrefixOf name

def takeDiskstats (t : Totals) (line : PyStr) : Totals :=
  let fields := line.split
  if fields.length < 10 then t
  else
    let name := fields.getD 2 []
    if isVirtual name || isPartition name then t else t.add (fields.getD 5 []) (fields.getD 9 [])

/-- `_parse_diskstats`: read and written bytes. -/
def parseDiskstats (diskstatsText : PyStr) : Option (Int × Int) :=
  let t := diskstatsText.splitlines.foldl takeDiskstats {}
  if t.found then some (t.first * 512, t.second * 512) else none

theorem counters_error {line : PyStr} {e : PyError} (h : counters line = .error e) : e = .valueError := by
  unfold counters at h
  generalize (line.split.drop 1).filter (·.isdigit) = ps at h
  induction ps with
  | nil =>
    rw [List.mapM_nil] at h
    cases h
  | cons p ps ih =>
    rw [List.mapM_cons] at h
    rcases bind_eq_error h with hp | ⟨n, -, h⟩
    · split at hp
      · cases hp
        rfl
      · cases hp
    · rcases bind_eq_error h with hps | ⟨ns, -, h⟩
      · exact ih hps
      · cases h

theorem parseCpuTotalIdle_error {statText : PyStr} {e : PyError} (h : parseCpuTotalIdle statText = .error e) :
    e = .valueError := by
  unfold parseCpuTotalIdle at h
  split at h
  · cases h
  · rcases bind_eq_error h with hc | ⟨values, -, h⟩
    · exact counters_error hc
    · split at h <;> cases h

end LogSump.Listener.ProcFiles
