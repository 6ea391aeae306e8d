/-
  LogSump.Listener.HostFiles — a host, the four files in which its kernel shows it, and what
  `_try_sample_proc` reads back from them.

  The widths of the columns differ between kernels, and a number that is too long for its column
  is written as it is.

  - `parseCpuTotalIdle_statLines`, `parseMeminfo_meminfoLines`, `parseNetDev_netdevLines`,
    `parseDiskstats_diskstatsLines`: the parsers, each on its own file.
  - `memPercent_ok`, `cpuPercent_ok`: the doubles that are made of 64-bit counters are finite.
  - `a_host_is_read_back`: the sample is that of the host.
-/

import LogSump.Python.Fields
import LogSump.Listener.ProcSections
import LogSump.Listener.ProcTotals
import LogSump.Listener.CpuTime

namespace LogSump.Listener.HostFiles

open Common Python Foundation Transport ProcFiles SystemStats PyStr

def colon : PyChar := PyChar.ofChar ':'

/-- A line of `/proc/net/dev`. -/
structure Interface where
  name : PyStr
  counters : List UInt64
  isWord : IsWord name
  noColon : colon ∉ name
  nine : 9 ≤ counters.length

/-- A line of `/proc/diskstats`. -/
structure Device where
  major : UInt64
  minor : UInt64
  name : PyStr
  counters : List UInt64
  isWord : IsWord name
  seven : 7 ≤ counters.length

/-- A line of `/proc/meminfo`; some are no sizes. -/
structure MemoryEntry where
  key : PyStr
  value : UInt64
  kB : Bool
  noColon : colon ∉ key
  noBreak : ∀ c ∈ key, ¬ c.IsBreak

structure Host where
  /-- The counters of all CPUs together. -/
  cpu : List UInt64
  four : 4 ≤ cpu.length
  /-- The lines of `/proc/stat` after the first one. -/
  stat : List PyStr
  stat_isFileLine : ∀ line ∈ stat, line ≠ [] ∧ IsFileLine line
  memory : List MemoryEntry
  keys_nodup : (memory.map (·.key)).Nodup
  total : UInt64
  has_total : ∃ e ∈ memory, e.key = py "MemTotal" ∧ e.kB = true ∧ e.value = total
  interfaces : List Interface
  devices : List Device

/-- The widths of the columns. -/
structure Layout where
  key : Nat
  value : Nat
  face : Nat
  counter : Nat → Nat
  major : Nat
  minor : Nat

/-! ## The files -/

def number (n : UInt64) : PyStr := decimalText n.toNat

section
variable (l : Layout)

def MemoryEntry.line (e : MemoryEntry) : PyStr :=
  e.key ++ colon :: (spaces (l.key - e.key.length - 1) ++ (rjust l.value (number e.value) ++ if e.kB then py " kB" else []))

def Interface.line (i : Interface) : PyStr :=
  rjust l.face i.name ++ colon :: columns (i.counters.mapIdx fun n c => (l.counter n, number c))

def Device.line (d : Device) : PyStr :=
  rjust l.major (number d.major) ++ columns ((l.minor, number d.minor) :: (0, d.name) :: d.counters.map fun c => (0, number c))

end

def netdevHeader : List PyStr :=
  [py "Inter-|   Receive                                                |  Transmit",
    py " face |bytes    packets errs drop fifo frame compressed multicast|bytes    packets errs drop fifo colls carrier compressed"]

/-- Zero where there are fewer counters. -/
def counterAt (counters : List UInt64) (i : Nat) : Nat := (counters.getD i 0).toNat

/-- The two sums of a file, in units of so many bytes; none where it has no rows. -/
def totals (unit : Nat) (rows : List (Nat × Nat)) : Option (Int × Int) :=
  if rows = [] then none else some (((rows.map (·.1)).sum * unit : Nat), ((rows.map (·.2)).sum * unit : Nat))

namespace Host

variable (h : Host) (l : Layout)

def statLines : List PyStr := (py "cpu " ++ columns (h.cpu.map fun c => (0, number c))) :: h.stat

def meminfoLines : List PyStr := h.memory.map (·.line l)

def netdevLines : List PyStr := netdevHeader ++ h.interfaces.map (·.line l)

def diskstatsLines : List PyStr := h.devices.map (·.line l)

/-- What `_PROC_READ_SCRIPT` writes on the host. -/
def output : PyStr := scriptOutput h.statLines (h.meminfoLines l) (h.netdevLines l) (h.diskstatsLines l)

/-- All ticks, and those in which no CPU was busy. -/
def sample : CpuSample where
  total := ((h.cpu.map (·.toNat)).sum : Nat)
  idle := (counterAt h.cpu 3 + counterAt h.cpu 4 : Nat)

/-- What can be given to programs; where the kernel does not say, all of the memory. -/
def available : UInt64 := ((h.memory.find? fun e => e.key = py "MemAvailable" ∧ e.kB = true).map (·.value)).getD h.total

def faces : List Interface := h.interfaces.filter fun i => i.name ≠ py "lo"

def disks : List Device := h.devices.filter fun d => ¬ (isVirtual d.name || isPartition d.name)

def net : Option (Int × Int) := totals 1 (h.faces.map fun i => (counterAt i.counters 0, counterAt i.counters 8))

/-- Sectors have 512 bytes. -/
def disk : Option (Int × Int) := totals 512 (h.disks.map fun d => (counterAt d.counters 2, counterAt d.counters 6))

/-- The host's metrics, with the percentage of its memory. -/
def metrics (memPct : Option PyFloat) : HostMetrics where
  memUsedBytes := some ((h.total.toNat : Int) * 1024 - h.available.toNat * 1024)
  memLimitBytes := some (h.total.toNat * 1024)
  memPct := memPct
  netRxBytes := h.net.map (·.1)
  netTxBytes := h.net.map (·.2)
  blkReadBytes := h.disk.map (·.1)
  blkWriteBytes := h.disk.map (·.2)

end Host

/-! ## Lines -/

theorem isWord_number (n : UInt64) : IsWord (number n) := isWord_decimalText _

theorem int?_number (n : UInt64) : int? (number n) = some (n.toNat : Int) := int?_decimalText n.toNat_lt

theorem isCounter_number (n : UInt64) : IsCounter (number n) n.toNat :=
  ⟨decimalText_ne_nil _, fun _ hc => decimal?_decimalText hc, length_decimalText n.toNat_lt, natOf_decimalText _⟩

theorem markers_plain : ∀ marker ∈ markers, space ∉ marker ∧ colon ∉ marker := by decide

/-- A line with a space or a colon is no marker. -/
theorem isFileLine_of_mem {line : PyStr} (hbreak : ∀ c ∈ line, ¬ c.IsBreak) (h : space ∈ line ∨ colon ∈ line) :
    IsFileLine line := by
  refine ⟨hbreak, fun hmarker => ?_⟩
  obtain ⟨hspace, hcolon⟩ := markers_plain line hmarker
  rcases h with h | h
  · exact hspace h
  · exact hcolon h

theorem columns_no_break {fields : List (Nat × PyStr)} (h : ∀ f ∈ fields, IsWord f.2) : ∀ c ∈ columns fields, ¬ c.IsBreak := by
  intro c hc
  rcases mem_columns hc with rfl | ⟨f, hf, hc⟩
  · decide
  · exact (h f hf).no_break c hc

theorem rjust_no_break {width : Nat} {text : PyStr} (h : IsWord text) : ∀ c ∈ rjust width text, ¬ c.IsBreak := by
  intro c hc
  rcases mem_rjust hc with rfl | hc
  · decide
  · exact h.no_break c hc

/-- A section is split into the lines of its file. -/
theorem splitlines_joinLines {lines : List PyStr} (h : ∀ line ∈ lines, line ≠ [] ∧ IsFileLine line) :
    (joinLines lines).splitlines = lines :=
  splitlines_intercalate fun line hline => ⟨(h line hline).1, (h line hline).2.1⟩

/-! ## `/proc/stat` -/

theorem isWord_cpu (h : Host) : ∀ f ∈ h.cpu.map fun c => (0, number c), IsWord f.2 := by
  intro f hf
  obtain ⟨c, -, rfl⟩ := List.mem_map.mp hf
  exact isWord_number c

theorem statLines_isFileLine (h : Host) : ∀ line ∈ h.statLines, line ≠ [] ∧ IsFileLine line := by
  intro line hline
  rcases List.mem_cons.mp hline with rfl | hline
  · refine ⟨List.cons_ne_nil _ _, isFileLine_of_mem ?_ (.inl (List.mem_append_left _ (by decide)))⟩
    intro c hc
    rcases List.mem_append.mp hc with hc | hc
    · exact (by decide : ∀ c ∈ py "cpu ", ¬ c.IsBreak) c hc
    · exact columns_no_break (isWord_cpu h) c hc
  · exact h.stat_isFileLine line hline

theorem split_cpuLine (h : Host) :
    (split (py "cpu " ++ columns (h.cpu.map fun c => (0, number c)))).drop 1 = h.cpu.map number := by
  have hword : ∀ c ∈ py "cpu", ¬ c.IsSpace := by decide
  have hsplit : split (py "cpu " ++ columns (h.cpu.map fun c => (0, number c))) =
      words (py "cpu") (space :: columns (h.cpu.map fun c => (0, number c))) :=
    words_word hword [] (space :: columns (h.cpu.map fun c => (0, number c)))
  rw [hsplit, words, if_pos space_isSpace, if_neg (by decide), words_columns (isWord_cpu h), if_pos rfl,
    List.nil_append, List.map_map]
  rfl

/-- All counters, and idle with iowait. -/
theorem parseCpuTotalIdle_statLines (h : Host) :
    parseCpuTotalIdle (joinLines h.statLines) = .ok (some (h.sample.total, h.sample.idle)) := by
  have hlines := splitlines_joinLines (statLines_isFileLine h)
  have hfirst : h.statLines.find? (fun line => (py "cpu ").isPrefixOf line) =
      some (py "cpu " ++ columns (h.cpu.map fun c => (0, number c))) :=
    List.find?_cons_of_pos (List.isPrefixOf_iff_prefix.mpr (List.prefix_append _ _))
  have hcounters : counters (py "cpu " ++ columns (h.cpu.map fun c => (0, number c))) =
      .ok ((h.cpu.map (·.toNat)).map (Nat.cast : Nat → Int)) := by
    apply counters_line
    rw [split_cpuLine, List.forall₂_map_left_iff, List.forall₂_map_right_iff]
    exact List.forall₂_same.mpr fun c _ => isCounter_number c
  obtain ⟨user, nice, system, idle, rest, hcpu⟩ :
      ∃ user nice system idle rest, h.cpu = user :: nice :: system :: idle :: rest := by
    have hfour := h.four
    match hcpu : h.cpu with
    | user :: nice :: system :: idle :: rest => exact ⟨user, nice, system, idle, rest, rfl⟩
    | [] | [_] | [_, _] | [_, _, _] => simp [hcpu] at hfour
  have hsum : ((h.cpu.map (·.toNat)).map (Nat.cast : Nat → Int)).sum = h.sample.total := (Nat.cast_list_sum _).symm
  have hidle : (idle.toNat : Int) + ((rest.map (·.toNat)).map (Nat.cast : Nat → Int)).headD 0 = h.sample.idle := by
    cases rest <;> simp [Host.sample, counterAt, hcpu]
  simp only [parseCpuTotalIdle, hlines, hfirst, hcounters, ok_bind]
  rw [hcpu] at hsum ⊢
  simp only [List.map_cons] at hsum ⊢
  rw [hsum, hidle]
  rfl

/-! ## `/proc/meminfo` -/

theorem colon_mem_line (l : Layout) (e : MemoryEntry) : colon ∈ e.line l := List.mem_append_right _ List.mem_cons_self

theorem meminfoLines_isFileLine (h : Host) (l : Layout) : ∀ line ∈ h.meminfoLines l, line ≠ [] ∧ IsFileLine line := by
  intro line hline
  obtain ⟨e, -, rfl⟩ := List.mem_map.mp hline
  refine ⟨List.ne_nil_of_mem (colon_mem_line l e), isFileLine_of_mem ?_ (.inr (colon_mem_line l e))⟩
  intro c hc
  rcases List.mem_append.mp hc with hc | hc
  · exact e.noBreak c hc
  · rcases List.mem_cons.mp hc with rfl | hc
    · decide
    · rcases List.mem_append.mp hc with hc | hc
      · rw [List.eq_of_mem_replicate hc]
        decide
      · rcases List.mem_append.mp hc with hc | hc
        · exact rjust_no_break (isWord_number _) c hc
        · have hunit : ∀ c ∈ py " kB", ¬ c.IsBreak := by decide
          split at hc
          · exact hunit c hc
          · cases hc

/-- What stands before and after a line's colon. -/
theorem partition_line (l : Layout) (e : MemoryEntry) : ∃ rest : PyStr, (e.line l).partition ':' = (e.key, some rest) ∧
    strip rest = number e.value ++ if e.kB then py " kB" else [] := by
  refine ⟨_, partition_at e.noColon _, ?_⟩
  rw [strip_spaces, rjust, List.append_assoc, strip_spaces]
  have hword := isWord_number e.value
  by_cases hkB : e.kB = true
  · rw [if_pos hkB]
    have hne : number e.value ++ py " kB" ≠ [] := List.append_ne_nil_of_left_ne_nil hword.1 _
    apply strip_self hne
    · rw [List.head_append_of_ne_nil hword.1]
      exact hword.2 _ (List.head_mem _)
    · rw [List.getLast_append_of_ne_nil _ (by decide)]
      decide
  · rw [if_neg hkB, List.append_nil]
    exact strip_word hword

/-- The lines of sizes are taken. -/
theorem takeMeminfo_line (l : Layout) (e : MemoryEntry) (values : List (PyStr × Int)) :
    takeMeminfo values (e.line l) = if e.kB then (e.key, (e.value.toNat : Int) * 1024) :: values else values := by
  obtain ⟨rest, hpartition, hstrip⟩ := partition_line l e
  simp only [takeMeminfo, hpartition, Option.getD_some, hstrip]
  by_cases hkB : e.kB = true
  · have hsuffix : (py "kB").isSuffixOf (number e.value ++ py " kB") = true := by
      rw [List.isSuffixOf_iff_suffix]
      exact ⟨number e.value ++ [space], List.append_assoc _ _ _⟩
    have hvalue : (number e.value ++ py " kB").take ((number e.value ++ py " kB").length - 2) = number e.value ++ [space] := by
      have hsplit : number e.value ++ py " kB" = (number e.value ++ [space]) ++ py "kB" :=
        (List.append_assoc (number e.value) [space] (py "kB")).symm
      rw [hsplit, List.length_append]
      exact List.take_left
    simp only [hkB, if_true, hsuffix, hvalue, strip_word_space (isWord_number e.value), int?_number]
  · have hsuffix : (py "kB").isSuffixOf (number e.value ++ []) = false := by
      rw [List.append_nil, Bool.eq_false_iff, ne_eq, List.isSuffixOf_iff_suffix]
      intro hs
      have hdigit := decimal?_decimalText (hs.subset (by decide : PyChar.ofChar 'B' ∈ py "kB"))
      revert hdigit
      decide
    simp only [hkB, if_false, hsuffix, Bool.false_eq_true]

/-- The sizes of the lines, in bytes. -/
def sizes (entries : List MemoryEntry) : List (PyStr × Int) :=
  (entries.filter (·.kB)).map fun e => (e.key, (e.value.toNat : Int) * 1024)

theorem foldl_takeMeminfo (l : Layout) (entries : List MemoryEntry) (values : List (PyStr × Int)) :
    (entries.map (·.line l)).foldl takeMeminfo values = (sizes entries).reverse ++ values := by
  induction entries generalizing values with
  | nil => rfl
  | cons e entries ih =>
    rw [List.map_cons, List.foldl_cons, takeMeminfo_line, ih]
    by_cases hkB : e.kB = true
    · simp [sizes, hkB]
    · simp [sizes, hkB]

/-- Among lines of different keys. -/
theorem lookup_sizes {entries : List MemoryEntry} (h : (entries.map (·.key)).Nodup) (key : PyStr) :
    (sizes entries).reverse.lookup key =
      ((entries.find? fun e => e.key = key ∧ e.kB = true).map (·.value)).map fun n => (n.toNat : Int) * 1024 := by
  induction entries with
  | nil => rfl
  | cons e entries ih =>
    rw [List.map_cons, List.nodup_cons] at h
    obtain ⟨hnew, hnodup⟩ := h
    by_cases hkB : e.kB = true
    · have hsizes : (sizes (e :: entries)).reverse = (sizes entries).reverse ++ [(e.key, (e.value.toNat : Int) * 1024)] := by
        simp [sizes, hkB]
      rw [hsizes, List.lookup_append, ih hnodup]
      by_cases hkey : e.key = key
      · have hnone : entries.find? (fun e => e.key = key ∧ e.kB = true) = none := by
          rw [List.find?_eq_none]
          intro e' he'
          have hne : e'.key ≠ key := fun he => hnew (by rw [hkey, ← he]; exact List.mem_map_of_mem he')
          simp [hne]
        rw [hnone, List.find?_cons_of_pos (by simp [hkey, hkB])]
        simp [hkey]
      · have hlast : [(e.key, (e.value.toNat : Int) * 1024)].lookup key = none := by
          simp [Ne.symm hkey]
        rw [hlast, List.find?_cons_of_neg (by simp [hkey])]
        simp
    · have hsizes : sizes (e :: entries) = sizes entries := by simp [sizes, hkB]
      rw [hsizes, ih hnodup, List.find?_cons_of_neg (by simp [hkB])]

theorem parseMeminfo_meminfoLines (h : Host) (l : Layout) :
    parseMeminfo (joinLines (h.meminfoLines l)) = some ((h.total.toNat : Int) * 1024, (h.available.toNat : Int) * 1024) := by
  have hlines := splitlines_joinLines (meminfoLines_isFileLine h l)
  have hvalues : (h.meminfoLines l).foldl takeMeminfo [] = (sizes h.memory).reverse := by
    rw [Host.meminfoLines, foldl_takeMeminfo, List.append_nil]
  obtain ⟨e, he, hkey, hkB, hvalue⟩ := h.has_total
  have htotal : (h.memory.find? fun e => e.key = py "MemTotal" ∧ e.kB = true) = some e := by
    cases hfind : h.memory.find? fun e => e.key = py "MemTotal" ∧ e.kB = true with
    | none => exact absurd (List.find?_eq_none.mp hfind e he) (by simp [hkey, hkB])
    | some e' =>
      have hprops := List.find?_some hfind
      simp only [decide_eq_true_eq] at hprops
      have hsame := List.inj_on_of_nodup_map h.keys_nodup (List.mem_of_find?_eq_some hfind) he (hprops.1.trans hkey.symm)
      rw [hsame]
  simp only [parseMeminfo, hlines, hvalues, lookup_sizes h.keys_nodup, htotal, Option.map_some, hvalue, Host.available]
  cases h.memory.find? fun e => e.key = py "MemAvailable" ∧ e.kB = true <;> rfl

/-! ## `/proc/net/dev` and `/proc/diskstats` -/

theorem getD_map_number {counters : List UInt64} {i : Nat} (h : i < counters.length) :
    (counters.map number).getD i [] = number (counters.getD i 0) := by
  rw [List.getD_eq_getElem _ _ (by simpa using h), List.getElem_map, List.getD_eq_getElem _ _ h]

/-- Rows of counters add up to the totals. -/
theorem result_numbers {α : Type} (xs : List α) (f g : α → UInt64) (unit : Nat) :
    ((xs.map fun x => (number (f x), number (g x))).foldl Totals.addRow {}).result unit =
      totals unit (xs.map fun x => ((f x).toNat, (g x).toNat)) := by
  have haccepted : accepted (xs.map fun x => (number (f x), number (g x))) =
      xs.map fun x => (((f x).toNat : Int), ((g x).toNat : Int)) := by
    simp [accepted, List.filterMap_map, int?_number]
  have hleft : leftBehind (xs.map fun x => (number (f x), number (g x))) = [] := by
    simp [leftBehind, int?_number]
  rw [foldl_add, haccepted, hleft]
  unfold Totals.result totals
  cases xs with
  | nil => rfl
  | cons x xs =>
    have hfirst : (0 : Int) + (((x :: xs).map fun x => (((f x).toNat : Int), ((g x).toNat : Int))).map (·.1)).sum +
        ([] : List Int).sum =
        ((((x :: xs).map fun x => ((f x).toNat, (g x).toNat)).map (·.1)).sum : Nat) := by
      rw [Nat.cast_list_sum]
      simp [List.map_map, Function.comp_def]
    have hsecond : (0 : Int) + (((x :: xs).map fun x => (((f x).toNat : Int), ((g x).toNat : Int))).map (·.2)).sum =
        ((((x :: xs).map fun x => ((f x).toNat, (g x).toNat)).map (·.2)).sum : Nat) := by
      rw [Nat.cast_list_sum]
      simp [List.map_map, Function.comp_def]
    simp only [hfirst, hsecond, Nat.cast_mul]
    simp

/-- The fields of a line of counters. -/
theorem isWord_face (l : Layout) (i : Interface) : ∀ f ∈ i.counters.mapIdx fun n c => (l.counter n, number c), IsWord f.2 := by
  intro f hf
  obtain ⟨n, hn, rfl⟩ := List.mem_mapIdx.mp hf
  exact isWord_number _

theorem colon_mem_face (l : Layout) (i : Interface) : colon ∈ i.line l := List.mem_append_right _ List.mem_cons_self

theorem netdevLines_isFileLine (h : Host) (l : Layout) : ∀ line ∈ h.netdevLines l, line ≠ [] ∧ IsFileLine line := by
  intro line hline
  rcases List.mem_append.mp hline with hline | hline
  · have hheader : ∀ line ∈ netdevHeader, line ≠ [] ∧ IsFileLine line := by decide +kernel
    exact hheader line hline
  · obtain ⟨i, -, rfl⟩ := List.mem_map.mp hline
    refine ⟨List.ne_nil_of_mem (colon_mem_face l i), isFileLine_of_mem ?_ (.inr (colon_mem_face l i))⟩
    intro c hc
    rcases List.mem_append.mp hc with hc | hc
    · exact rjust_no_break i.isWord c hc
    · rcases List.mem_cons.mp hc with rfl | hc
      · decide
      · exact columns_no_break (isWord_face l i) c hc

/-- The loopback's line has no row. -/
theorem netDevRow_line (l : Layout) (i : Interface) : netDevRow (i.line l) =
    if i.name ≠ py "lo" then some (number (i.counters.getD 0 0), number (i.counters.getD 8 0)) else none := by
  have hcolon : colon ∉ rjust l.face i.name := by
    intro hmem
    rcases mem_rjust hmem with he | hmem
    · exact absurd he (by decide)
    · exact i.noColon hmem
  have hname : strip (rjust l.face i.name) = i.name := by rw [rjust, strip_spaces, strip_word i.isWord]
  have hfields : split (columns (i.counters.mapIdx fun n c => (l.counter n, number c))) = i.counters.map number := by
    rw [split_columns (isWord_face l i)]
    apply List.ext_getElem?
    intro n
    simp [Function.comp_def]
  have hpartition := partition_at hcolon (columns (i.counters.mapIdx fun n c => (l.counter n, number c)))
  have hnine := i.nine
  unfold netDevRow Interface.line
  rw [show PyStr.partition _ (PyChar.ofChar ':') = _ from hpartition]
  simp only [hname, hfields, List.length_map, i.isWord.1, Nat.not_lt.mpr hnine, or_false,
    getD_map_number (by omega : 0 < i.counters.length), getD_map_number (by omega : 8 < i.counters.length), ne_eq, ite_not]

theorem parseNetDev_netdevLines (h : Host) (l : Layout) : parseNetDev (joinLines (h.netdevLines l)) = h.net := by
  have hlines := splitlines_joinLines (netdevLines_isFileLine h l)
  have hrows : (h.netdevLines l).filterMap netDevRow =
      h.faces.map fun i => (number (i.counters.getD 0 0), number (i.counters.getD 8 0)) := by
    have hheader : netdevHeader.filterMap netDevRow = [] := by decide +kernel
    rw [Host.netdevLines, List.filterMap_append, hheader, List.nil_append, List.filterMap_map, Host.faces,
      ← List.filterMap_eq_map', List.filterMap_filter]
    apply List.filterMap_congr
    intro i _
    simp only [Function.comp_apply, netDevRow_line, decide_eq_true_eq]
  have hresult := result_numbers h.faces (fun i => i.counters.getD 0 0) (fun i => i.counters.getD 8 0) 1
  rw [← hrows, ← foldl_rows takeNetDev_eq, ← hlines] at hresult
  rw [Totals.result, Nat.cast_one, mul_one, mul_one] at hresult
  exact hresult

theorem isWord_device (l : Layout) (d : Device) :
    ∀ f ∈ (l.minor, number d.minor) :: (0, d.name) :: d.counters.map fun c => (0, number c), IsWord f.2 := by
  intro f hf
  rcases List.mem_cons.mp hf with rfl | hf
  · exact isWord_number _
  · rcases List.mem_cons.mp hf with rfl | hf
    · exact d.isWord
    · obtain ⟨c, -, rfl⟩ := List.mem_map.mp hf
      exact isWord_number c

theorem space_mem_device (l : Layout) (d : Device) : space ∈ d.line l :=
  List.mem_append_right _ (List.mem_flatMap.mpr ⟨_, List.mem_cons_self, List.mem_cons_self⟩)

theorem diskstatsLines_isFileLine (h : Host) (l : Layout) : ∀ line ∈ h.diskstatsLines l, line ≠ [] ∧ IsFileLine line := by
  intro line hline
  obtain ⟨d, -, rfl⟩ := List.mem_map.mp hline
  refine ⟨List.ne_nil_of_mem (space_mem_device l d), isFileLine_of_mem ?_ (.inl (space_mem_device l d))⟩
  intro c hc
  rcases List.mem_append.mp hc with hc | hc
  · exact rjust_no_break (isWord_number _) c hc
  · exact columns_no_break (isWord_device l d) c hc

/-- The lines of partitions and of virtual devices have no row. -/
theorem diskstatsRow_line (l : Layout) (d : Device) : diskstatsRow (d.line l) =
    if ¬ (isVirtual d.name || isPartition d.name) then some (number (d.counters.getD 2 0), number (d.counters.getD 6 0))
    else none := by
  have hfields : split (d.line l) = number d.major :: number d.minor :: d.name :: d.counters.map number := by
    rw [Device.line, split_line (isWord_number _) (isWord_device l d)]
    simp [List.map_map, Function.comp_def]
  have hseven := d.seven
  have hlen : ¬ (number d.major :: number d.minor :: d.name :: d.counters.map number).length < 10 := by
    simp only [List.length_cons, List.length_map]
    omega
  unfold diskstatsRow
  rw [hfields, if_neg hlen]
  simp only [List.getD_cons_succ, List.getD_cons_zero, getD_map_number (by omega : 2 < d.counters.length),
    getD_map_number (by omega : 6 < d.counters.length), ite_not]

theorem parseDiskstats_diskstatsLines (h : Host) (l : Layout) : parseDiskstats (joinLines (h.diskstatsLines l)) = h.disk := by
  have hlines := splitlines_joinLines (diskstatsLines_isFileLine h l)
  have hrows : (h.diskstatsLines l).filterMap diskstatsRow =
      h.disks.map fun d => (number (d.counters.getD 2 0), number (d.counters.getD 6 0)) := by
    rw [Host.diskstatsLines, List.filterMap_map, Host.disks, ← List.filterMap_eq_map', List.filterMap_filter]
    apply List.filterMap_congr
    intro d _
    simp only [Function.comp_apply, diskstatsRow_line, decide_eq_true_eq]
  have hresult := result_numbers h.disks (fun d => d.counters.getD 2 0) (fun d => d.counters.getD 6 0) 512
  rw [← hrows, ← foldl_rows takeDiskstats_eq, ← hlines] at hresult
  exact hresult

/-! ## Doubles -/

theorem memPercent_ok (h : Host) :
    ∃ p, memPercent ((h.total.toNat : Int) * 1024) ((h.available.toNat : Int) * 1024) = .ok p := by
  have htotal := h.total.toNat_lt
  have havailable := h.available.toNat_lt
  refine memPercent_ok_iff.mpr fun _ => ⟨PyFloat.ofInt_isSome (abs_le.mpr ?_), PyFloat.ofInt_isSome (abs_le.mpr ?_)⟩
  · constructor <;> omega
  · constructor <;> omega

theorem counterAt_lt (counters : List UInt64) (i : Nat) : counterAt counters i < 2 ^ 64 := (counters.getD i 0).toNat_lt

/-- Of the samples of any two hosts. -/
theorem cpuPercent_ok (g h : Host) : ∃ p, cpuPercent g.sample h.sample = .ok p := by
  refine cpuPercent_ok_iff.mpr fun hlt => PyFloat.divInt_isSome (abs_le.mpr ?_) (by omega)
  have hbounds : ∀ k : Host, 0 ≤ k.sample.idle ∧ k.sample.idle < 2 ^ 65 := by
    intro k
    have hthree := counterAt_lt k.cpu 3
    have hfour := counterAt_lt k.cpu 4
    simp only [Host.sample]
    omega
  have hg := hbounds g
  have hh := hbounds h
  constructor <;> omega

/-! ## The sample -/

theorem output_isFileLine (h : Host) (l : Layout) :
    ∀ line ∈ h.statLines ++ h.meminfoLines l ++ h.netdevLines l ++ h.diskstatsLines l, IsFileLine line := by
  simp only [List.forall_mem_append]
  exact ⟨⟨⟨fun line hline => (statLines_isFileLine h line hline).2, fun line hline => (meminfoLines_isFileLine h l line hline).2⟩,
    fun line hline => (netdevLines_isFileLine h l line hline).2⟩, fun line hline => (diskstatsLines_isFileLine h l line hline).2⟩

theorem parseProc_output (h : Host) (l : Layout) (stderr : PyStr) : parseProc ⟨0, h.output l, stderr⟩ =
    .ok ((h.sample.total, h.sample.idle), ((h.total.toNat : Int) * 1024, (h.available.toNat : Int) * 1024)) := by
  obtain ⟨hstat, hmeminfo, -, -⟩ := sectionText_scriptOutput (output_isFileLine h l)
  simp only [parseProc, Host.output, hstat, hmeminfo, parseCpuTotalIdle_statLines, parseMeminfo_meminfoLines, ok_bind]
  rfl

theorem procMetrics_output (h : Host) (l : Layout) (memPct : Option PyFloat) :
    procMetrics (h.output l) ((h.total.toNat : Int) * 1024, (h.available.toNat : Int) * 1024) memPct = h.metrics memPct := by
  obtain ⟨-, -, hnetdev, hdiskstats⟩ := sectionText_scriptOutput (output_isFileLine h l)
  simp only [procMetrics, Host.output, hnetdev, hdiskstats, parseNetDev_netdevLines, parseDiskstats_diskstatsLines]
  rfl

/-- What the kernel of a host writes, in columns of whatever width, is read back: the sample never
    fails, and it has the host's memory, the bytes of its interfaces but the loopback, those of its
    disks but partitions and virtual devices, and the ticks of its CPUs. -/
theorem a_host_is_read_back (h : Host) (l : Layout) (stderr : PyStr) :
    ∃ memPct, memPercent (h.total.toNat * 1024) (h.available.toNat * 1024) = .ok memPct ∧
      sampleProc ⟨0, h.output l, stderr⟩ = .ok (some (h.metrics memPct, h.sample)) := by
  obtain ⟨memPct, hpct⟩ := memPercent_ok h
  refine ⟨memPct, hpct, ?_⟩
  simp only [sampleProc, parseProc_output, hpct, ok_bind, procMetrics_output]
  rfl

end LogSump.Listener.HostFiles
