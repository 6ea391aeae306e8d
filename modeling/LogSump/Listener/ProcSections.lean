/-
  LogSump.Listener.ProcSections — reading four files of `/proc` in one round trip: what
  `_PROC_READ_SCRIPT` writes, and `_split_proc_sections`.

  A line that only contains a marker belongs to the section it stands in.

  - `take_section`: a marker and the lines after it, up to the next marker, become its section.
  - `splitProcSections_scriptOutput`: splitting gives each marker its own file's lines.
  - `sectionText_scriptOutput`: so each parser gets the lines of its own file.
-/

import LogSump.Listener.ProcFiles

namespace LogSump.Listener.ProcFiles

open Common Python

/-- `"\n".join(lines)`. -/
def joinLines (lines : List PyStr) : PyStr := (py "\n").intercalate lines

/-- `_split_proc_sections`: the dictionary, `none` where it has no entry. -/
def splitProcSections (stdout : PyStr) : PyStr → Option PyStr := fun marker =>
  ((stdout.splitlines.foldl Sections.take {}).lines marker).map joinLines

def markers : List PyStr := [markerStat, markerMeminfo, markerNetdev, markerDiskstats]

/-- The output of `_PROC_READ_SCRIPT`, of the lines of the four files. -/
def scriptOutput (stat meminfo netdev diskstats : List PyStr) : PyStr :=
  PyStr.unlines ((markerStat :: stat) ++ (markerMeminfo :: meminfo) ++ (markerNetdev :: netdev) ++
    (markerDiskstats :: diskstats))

/-- A line of a file: it has no line separator, and it is no marker. -/
def IsFileLine (line : PyStr) : Prop := (∀ c ∈ line, ¬ c.IsBreak) ∧ line ∉ markers

instance : DecidablePred IsFileLine := fun line =>
  inferInstanceAs (Decidable ((∀ c ∈ line, ¬ c.IsBreak) ∧ line ∉ markers))

/-! ## One section -/

theorem take_marker (s : Sections) {marker : PyStr} (h : marker ∈ markers) :
    s.take marker = ⟨some marker, Function.update s.lines marker (some [])⟩ := if_pos h

/-- A line of a section is added to it. -/
theorem take_line (f : PyStr → Option (List PyStr)) (marker : PyStr) (lines : List PyStr) {line : PyStr} (h : line ∉ markers) :
    Sections.take ⟨some marker, Function.update f marker (some lines)⟩ line =
      ⟨some marker, Function.update f marker (some (lines ++ [line]))⟩ := by
  refine (if_neg h).trans ?_
  simp only [Function.update_self, Function.update_idem, Option.map_some]

theorem take_lines (f : PyStr → Option (List PyStr)) (marker : PyStr) {lines : List PyStr} (h : ∀ line ∈ lines, line ∉ markers) :
    lines.foldl Sections.take ⟨some marker, Function.update f marker (some [])⟩ =
      ⟨some marker, Function.update f marker (some lines)⟩ := by
  induction lines using List.reverseRecOn with
  | nil => rfl
  | append_singleton lines line ih =>
    rw [List.foldl_append, ih fun l hl => h l (List.mem_append_left _ hl)]
    apply take_line
    exact h line (List.mem_append_right _ (List.mem_singleton_self line))

theorem take_section (s : Sections) {marker : PyStr} (hm : marker ∈ markers) {lines : List PyStr}
    (h : ∀ line ∈ lines, IsFileLine line) :
    (marker :: lines).foldl Sections.take s = ⟨some marker, Function.update s.lines marker (some lines)⟩ := by
  rw [List.foldl_cons, take_marker s hm]
  exact take_lines s.lines marker fun line hline => (h line hline).2

/-! ## The round trip -/

theorem markerStat_mem : markerStat ∈ markers := by decide

theorem markerMeminfo_mem : markerMeminfo ∈ markers := by decide

theorem markerNetdev_mem : markerNetdev ∈ markers := by decide

theorem markerDiskstats_mem : markerDiskstats ∈ markers := by decide

theorem lookup_map {κ α β : Type} [BEq κ] (f : α → β) (entries : List (κ × α)) (key : κ) :
    (entries.map fun e => (e.1, f e.2)).lookup key = (entries.lookup key).map f := by
  induction entries with
  | nil => rfl
  | cons e entries ih =>
    rw [List.map_cons, List.lookup_cons, List.lookup_cons, ih]
    split <;> rfl

theorem markers_no_break : ∀ marker ∈ markers, ∀ c ∈ marker, ¬ c.IsBreak := by decide

theorem section_no_break {marker : PyStr} (hm : marker ∈ markers) {lines : List PyStr} (h : ∀ line ∈ lines, IsFileLine line) :
    ∀ line ∈ marker :: lines, ∀ c ∈ line, ¬ c.IsBreak := by
  intro line hline
  rcases List.mem_cons.mp hline with rfl | hline
  · exact markers_no_break line hm
  · exact (h line hline).1

theorem splitlines_scriptOutput {stat meminfo netdev diskstats : List PyStr}
    (h : ∀ line ∈ stat ++ meminfo ++ netdev ++ diskstats, IsFileLine line) :
    (scriptOutput stat meminfo netdev diskstats).splitlines =
      (markerStat :: stat) ++ (markerMeminfo :: meminfo) ++ (markerNetdev :: netdev) ++ (markerDiskstats :: diskstats) := by
  simp only [List.forall_mem_append] at h
  obtain ⟨⟨⟨hstat, hmeminfo⟩, hnetdev⟩, hdiskstats⟩ := h
  apply PyStr.splitlines_unlines
  simp only [List.forall_mem_append]
  exact ⟨⟨⟨section_no_break markerStat_mem hstat, section_no_break markerMeminfo_mem hmeminfo⟩,
    section_no_break markerNetdev_mem hnetdev⟩, section_no_break markerDiskstats_mem hdiskstats⟩

/-- The loop leaves under each marker the lines of its file. -/
theorem lines_scriptOutput {stat meminfo netdev diskstats : List PyStr}
    (h : ∀ line ∈ stat ++ meminfo ++ netdev ++ diskstats, IsFileLine line) :
    ((scriptOutput stat meminfo netdev diskstats).splitlines.foldl Sections.take {}).lines = fun marker =>
      ([(markerStat, stat), (markerMeminfo, meminfo), (markerNetdev, netdev), (markerDiskstats, diskstats)]).lookup marker := by
  rw [splitlines_scriptOutput h]
  simp only [List.forall_mem_append] at h
  obtain ⟨⟨⟨hstat, hmeminfo⟩, hnetdev⟩, hdiskstats⟩ := h
  rw [List.foldl_append, List.foldl_append, List.foldl_append, take_section _ markerStat_mem hstat,
    take_section _ markerMeminfo_mem hmeminfo, take_section _ markerNetdev_mem hnetdev,
    take_section _ markerDiskstats_mem hdiskstats]
  funext marker
  by_cases hs : marker = markerStat
  · rw [hs]
    rfl
  by_cases hm : marker = markerMeminfo
  · rw [hm]
    rfl
  by_cases hn : marker = markerNetdev
  · rw [hn]
    rfl
  by_cases hd : marker = markerDiskstats
  · rw [hd]
    rfl
  simp only [Function.update_apply, List.lookup, hs, hm, hn, hd, if_false, beq_eq_false_iff_ne.mpr, ne_eq, not_false_eq_true]

/-- What the parsers get. -/
theorem sectionText_scriptOutput {stat meminfo netdev diskstats : List PyStr}
    (h : ∀ line ∈ stat ++ meminfo ++ netdev ++ diskstats, IsFileLine line) :
    sectionText (scriptOutput stat meminfo netdev diskstats) markerStat = joinLines stat ∧
      sectionText (scriptOutput stat meminfo netdev diskstats) markerMeminfo = joinLines meminfo ∧
      sectionText (scriptOutput stat meminfo netdev diskstats) markerNetdev = joinLines netdev ∧
      sectionText (scriptOutput stat meminfo netdev diskstats) markerDiskstats = joinLines diskstats := by
  simp only [sectionText, lines_scriptOutput h]
  exact ⟨rfl, rfl, rfl, rfl⟩

/-- Splitting the output of the script gives each marker the lines of its own file, joined by
    newlines, and has no other entries. -/
theorem splitProcSections_scriptOutput {stat meminfo netdev diskstats : List PyStr}
    (h : ∀ line ∈ stat ++ meminfo ++ netdev ++ diskstats, IsFileLine line) :
    splitProcSections (scriptOutput stat meminfo netdev diskstats) = fun marker =>
      ([(markerStat, joinLines stat), (markerMeminfo, joinLines meminfo), (markerNetdev, joinLines netdev),
        (markerDiskstats, joinLines diskstats)]).lookup marker := by
  funext marker
  rw [splitProcSections, lines_scriptOutput h, ← lookup_map]
  rfl

/-- A marker in the middle of a line, an empty line, and two empty files. -/
theorem a_marker_inside_a_line_stays_there :
    splitProcSections (scriptOutput [py "cpu  1 2 3 4", [], py " ===MEMINFO==="] [] [py "eth0: ===STAT==="] []) = fun marker =>
      ([(markerStat, py "cpu  1 2 3 4\n\n ===MEMINFO==="), (markerMeminfo, []), (markerNetdev, py "eth0: ===STAT==="),
        (markerDiskstats, [])]).lookup marker :=
  splitProcSections_scriptOutput (by decide)

end LogSump.Listener.ProcFiles
