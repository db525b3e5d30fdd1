import ProtocolGateway.Staging.SelectionScan

/-!
# A commit and a pass after it

What a pass reads from the files a commit wrote, in terms of the rows they were written from:

* `FileName` — the names a pass finds in a mask or screen file. A line stands there if all registers
  of the device with its name are selected, and it is read without the suffix of a half register.
* `WritableFileName` — the names it finds in a writable file.

A selection is kept if it is read back from these names: `commitRescan_fixed_iff`.
-/

namespace ProtocolGateway

open ConfigParser
open Text (splitlines)

/-! ## Names in the files -/

/-- Registers have an entry, and all that do are chosen. -/
def EntryChosen (entry : ProtocolRegister → String) (chosen : Choices → Bool)
    (rows : List DeviceRegister) (line : String) : Prop :=
  (∃ x ∈ rows, entry x.register = line) ∧
    ∀ x ∈ rows, entry x.register = line → chosen x.selection.staged = true

namespace StagingDb

variable (db : StagingDb) (disk : Disk)

/-- A commit writes the filter files of a transport. -/
def WritesFilters (deviceName protocolVersion : String) : Prop :=
  (transportProtocols db.settings).get? deviceName = some protocolVersion ∧ protocolVersion ≠ "" ∧
    db.deviceRegisters deviceName protocolVersion ≠ []

/-- A commit writes a line into a filter file. -/
def FileLine (file line : String) : Prop :=
  ∃ deviceName protocolVersion, db.WritesFilters deviceName protocolVersion ∧
    (file = maskFile deviceName ∧ EntryChosen ProtocolRegister.variableName Choices.maskEnabled
        (db.deviceRegisters deviceName protocolVersion) line ∨
      file = screenFile deviceName ∧ EntryChosen screenEntry Choices.screenEnabled
        (db.deviceRegisters deviceName protocolVersion) line)

/-- A commit writes a filter file. -/
def WritesFile (file : String) : Prop :=
  ∃ deviceName protocolVersion, db.WritesFilters deviceName protocolVersion ∧
    (file = maskFile deviceName ∨ file = screenFile deviceName)

/-- A pass after a commit finds a name in a filter file: in a line the commit writes, or in a file it
leaves alone. -/
def FileName (file name : String) : Prop :=
  (∃ line, db.FileLine file line ∧ name ∈ (splitlines line.toList).filterMap filterName?) ∨
    ¬db.WritesFile file ∧ name ∈ loadFilterNames disk.filters file

variable {db disk}

/-- A commit leaves the filter files alone that it does not write. -/
theorem writeMaskScreenFiles_of_not {file : String} (h : ¬db.WritesFile file) (files : ConfigDir) :
    db.writeMaskScreenFiles files file = files file := by
  have hstep : ∀ kv ∈ (transportProtocols db.settings).items, ∀ files : ConfigDir,
      db.writeFilterFiles kv.1 kv.2 files file = files file := by
    intro kv hkv files
    unfold writeFilterFiles
    split
    · rfl
    · next hwritten =>
      rw [not_or] at hwritten
      have hwrites : db.WritesFilters kv.1 kv.2 := ⟨Dict.get?_eq_some_iff.mpr hkv, hwritten⟩
      rw [Function.update_of_ne fun heq => h ⟨kv.1, kv.2, hwrites, Or.inr heq⟩,
        Function.update_of_ne fun heq => h ⟨kv.1, kv.2, hwrites, Or.inl heq⟩]
  exact List.foldlRecOn (motive := fun files' => files' file = files file) _ _ rfl
    fun files' hfiles kv hkv => (hstep kv hkv files').trans hfiles

/-- The names a pass finds in a file of names. -/
theorem mem_loadFilterNames {files : ConfigDir} {file name : String} {names : List String}
    (hfile : files file = some (namesText names)) :
    name ∈ loadFilterNames files file ↔
      ∃ line ∈ names, name ∈ (splitlines line.toList).filterMap filterName? := by
  unfold loadFilterNames
  rw [hfile]
  show name ∈ (splitlines (namesText names)).filterMap filterName? ↔ _
  rw [namesText, Text.filterMap_splitlines_intercalate (by rfl), List.flatMap_map,
    List.mem_flatMap]

/-- What a commit writes into a filter file is one device's. -/
theorem fileLine_iff {d v : String} (hwrites : db.WritesFilters d v) {line : String} :
    (db.FileLine (maskFile d) line ↔
        EntryChosen ProtocolRegister.variableName Choices.maskEnabled (db.deviceRegisters d v)
          line) ∧
      (db.FileLine (screenFile d) line ↔
        EntryChosen screenEntry Choices.screenEnabled (db.deviceRegisters d v) line) := by
  have hsame {d' v' : String} (hwrites' : db.WritesFilters d' v') (hd : d = d') : v = v' := by
    subst hd
    exact Option.some.inj (hwrites.1.symm.trans hwrites'.1)
  refine ⟨⟨?_, fun h => ⟨d, v, hwrites, Or.inl ⟨rfl, h⟩⟩⟩,
    ⟨?_, fun h => ⟨d, v, hwrites, Or.inr ⟨rfl, h⟩⟩⟩⟩
  · rintro ⟨d', v', hwrites', ⟨hfile, hline⟩ | ⟨hfile, -⟩⟩
    · have hd := maskFile_injective hfile
      rw [hd, hsame hwrites' hd]
      exact hline
    · exact absurd hfile (maskFile_ne_screenFile _ _)
  · rintro ⟨d', v', hwrites', ⟨hfile, -⟩ | ⟨hfile, hline⟩⟩
    · exact absurd hfile.symm (maskFile_ne_screenFile _ _)
    · have hd := screenFile_injective hfile
      rw [hd, hsame hwrites' hd]
      exact hline

/-- **The names of a filter file** after a commit. -/
theorem mem_loadFilterNames_committed {file name : String} :
    name ∈ loadFilterNames (db.committedDisk disk).filters file ↔ db.FileName disk file name := by
  show name ∈ loadFilterNames (db.writeMaskScreenFiles disk.filters) file ↔ _
  unfold FileName
  by_cases hwrites : db.WritesFile file
  · have hnot : ¬(¬db.WritesFile file ∧ name ∈ loadFilterNames disk.filters file) :=
      fun h => h.1 hwrites
    rw [or_iff_left hnot]
    obtain ⟨d, v, hdevice, rfl | rfl⟩ := hwrites
    · obtain ⟨hmask, -⟩ := writeMaskScreenFiles_device disk.filters hdevice.1 hdevice.2.1 hdevice.2.2
      rw [mem_loadFilterNames hmask]
      exact exists_congr fun line =>
        and_congr_left fun _ => mem_selectedNames.trans (fileLine_iff hdevice).1.symm
    · obtain ⟨-, hscreen⟩ :=
        writeMaskScreenFiles_device disk.filters hdevice.1 hdevice.2.1 hdevice.2.2
      rw [mem_loadFilterNames hscreen]
      exact exists_congr fun line =>
        and_congr_left fun _ => mem_selectedNames.trans (fileLine_iff hdevice).2.symm
  · have hline : ¬∃ line, db.FileLine file line ∧
        name ∈ (splitlines line.toList).filterMap filterName? := by
      rintro ⟨line, ⟨d, v, hdevice, ⟨hfile, -⟩ | ⟨hfile, -⟩⟩, -⟩
      · exact hwrites ⟨d, v, hdevice, Or.inl hfile⟩
      · exact hwrites ⟨d, v, hdevice, Or.inr hfile⟩
    rw [or_iff_right hline, and_iff_right hwrites]
    unfold loadFilterNames
    rw [writeMaskScreenFiles_of_not hwrites]

/-! ## Names in a writable file -/

variable (db disk)

/-- The name a register has in a writable file. -/
def writableKey (row : ProtocolRegister) : String :=
  if row.documentedName ≠ "" then row.documentedName else row.variableName

/-- A pass after a commit finds a name in the writable file of a device: of the last register
under its key, or in a file the commit leaves alone. -/
def WritableFileName (deviceName name : String) : Prop :=
  if (db.writableProtocols deviceName).any fun p => (disk.protocols p).isSome then
    ∃ before row after, db.writableSelected deviceName = before ++ row :: after ∧
      writableName? row.documentedName = some name ∧
        ∀ row' ∈ after, writableKey row' ≠ writableKey row
  else name ∈ loadWritableNames (disk.writable deviceName)

variable {db disk}

theorem mem_loadWritableNames_committed {deviceName name : String} :
    name ∈ loadWritableNames ((db.committedDisk disk).writable deviceName) ↔
      db.WritableFileName disk deviceName name := by
  show name ∈ loadWritableNames (db.writeWritableCsv disk deviceName) ↔ _
  unfold writeWritableCsv WritableFileName
  split
  · have hentries (entries : List String) :
        (if entries = [] then none else some entries).getD [] = entries := by
      split
      · next h => exact h.symm
      · rfl
    unfold loadWritableNames
    dsimp only
    rw [hentries, List.mem_filterMap]
    constructor
    · rintro ⟨doc, hdoc, hname⟩
      obtain ⟨⟨key, doc⟩, hitem, rfl⟩ := List.mem_map.mp hdoc
      obtain ⟨before, after, hrows, hlast⟩ :=
        Dict.get?_update_empty_iff.mp (Dict.get?_eq_some_iff.mpr hitem)
      obtain ⟨before, rest, hselected, -, hrest⟩ := List.map_eq_append_iff.mp hrows
      obtain ⟨row, after, rfl, hrow, rfl⟩ := List.map_eq_cons_iff.mp hrest
      obtain ⟨rfl, rfl⟩ := Prod.mk.inj hrow
      refine ⟨before, row, after, hselected, hname, fun row' hrow' heq => hlast ?_⟩
      rw [List.map_map]
      exact List.mem_map.mpr ⟨row', hrow', heq⟩
    · rintro ⟨before, row, after, hselected, hname, hlast⟩
      let entry (row : ProtocolRegister) := (writableKey row, row.documentedName)
      have hentry : (db.writableSelected deviceName).map entry =
          before.map entry ++ entry row :: after.map entry := by
        rw [hselected, List.map_append, List.map_cons]
      have hnot : writableKey row ∉ (after.map entry).map Prod.fst := by
        rw [List.map_map]
        intro hmem
        obtain ⟨row', hrow', heq⟩ := List.mem_map.mp hmem
        exact hlast row' hrow' heq
      have hget : (db.writableEntries deviceName).get? (writableKey row) =
          some row.documentedName :=
        Dict.get?_update_empty_iff.mpr ⟨_, _, hentry, hnot⟩
      exact ⟨_, List.mem_map_of_mem (Dict.get?_eq_some_iff.mp hget), hname⟩
  · rfl

end StagingDb

/-! ## What is kept -/

section FixedPoint

variable (db : StagingDb) (disk : Disk) (registers : RegisterTable) (config : Config)

/-- The selections after a commit and a pass, which reads the given registers and settings. -/
def commitRescan : SelectionTable :=
  syncSelections registers config (db.committedDisk disk) db.committed.selections

/-- **A commit and a pass are a fixed point**: the selections have the choices they had, and none is
dirty. Those of registers that are deleted are gone. -/
structure CommitRescanFixed : Prop where
  kept : ∀ key s, db.selections.get? key = some s → db.pendingDelete key.register = false →
    ((commitRescan db disk registers config).get? key).map DeviceProtocolSelection.staged =
      some s.staged
  clean : ∀ key s, (commitRescan db disk registers config).get? key = some s → s.isDirty = false

/-- A register has a name with a property. -/
def HasName (names : String → Prop) (row : ProtocolRegister) : Prop :=
  names (registerNameKey row.variableName) ∨ names (registerNameKey row.documentedName)

/-- The choices about a register are those its names are read back with. -/
structure ReadBack (scan : DeviceScan) (row : ProtocolRegister) (choices : Choices) : Prop where
  mask : choices.maskEnabled = true ↔ HasName (db.FileName disk scan.maskFile) row
  screen : choices.screenEnabled = true ↔ HasName (db.FileName disk scan.screenFile) row
  write : choices.userWriteEnabled = true ↔ scan.writeEnabled = true ∧
    HasName (db.WritableFileName disk scan.deviceName) row

variable {db disk registers config}

theorem nameListed_iff {names : List String} {P : String → Prop}
    (h : ∀ name, name ∈ names ↔ P name) (row : ProtocolRegister) :
    nameListed names row = true ↔ HasName P row := by
  unfold nameListed HasName
  rw [Bool.or_eq_true, List.contains_iff_mem, List.contains_iff_mem, h, h]

/-- The files give a register the choices that are read back. -/
theorem choices_committed_iff {scan : DeviceScan} {row : ProtocolRegister} {choices : Choices} :
    choices = scan.choices (db.committedDisk disk) row ↔ ReadBack db disk scan row choices := by
  have hfile (file : String) := nameListed_iff (P := db.FileName disk file)
    (fun _ => StagingDb.mem_loadFilterNames_committed) row
  have hwritable := nameListed_iff (P := db.WritableFileName disk scan.deviceName)
    (fun _ => StagingDb.mem_loadWritableNames_committed) row
  have hwrite : (scan.choices (db.committedDisk disk) row).userWriteEnabled = true ↔
      scan.writeEnabled = true ∧ HasName (db.WritableFileName disk scan.deviceName) row := by
    rw [← hwritable]
    exact Bool.and_eq_true_iff
  constructor
  · rintro rfl
    exact ⟨hfile _, hfile _, hwrite⟩
  · intro h
    obtain ⟨write, mask, screen⟩ := choices
    refine Choices.mk.injEq .. ▸ ⟨?_, ?_, ?_⟩
    · exact Bool.eq_iff_iff.mpr (h.write.trans hwrite.symm)
    · exact Bool.eq_iff_iff.mpr (h.mask.trans (hfile _).symm)
    · exact Bool.eq_iff_iff.mpr (h.screen.trans (hfile _).symm)

/-- A clean selection is what the files say. -/
theorem upsertSelection_clean {choices : Choices} {existing : Option DeviceProtocolSelection}
    (h : ∀ s, existing = some s → s.isDirty = false) :
    (upsertSelection choices existing).staged = choices ∧
      (upsertSelection choices existing).isDirty = false := by
  cases existing with
  | none => exact ⟨rfl, rfl⟩
  | some s => simp [upsertSelection, DeviceProtocolSelection.markDirty, h s rfl]

/-- No selection is dirty after a commit and a pass. -/
theorem clean_commitRescan {key : SelectionKey} {s : DeviceProtocolSelection}
    (h : (commitRescan db disk registers config).get? key = some s) : s.isDirty = false := by
  by_cases hvisits : ∃ scan row, scan.deviceName = key.deviceName ∧
      Visits registers config scan key.register row
  · obtain ⟨scan, row, hname, hvisits⟩ := hvisits
    have hkey : key = ⟨scan.deviceName, key.register⟩ := by rw [hname]
    rw [hkey, commitRescan, get?_syncSelections hvisits] at h
    rw [← Option.some.inj h]
    exact (upsertSelection_clean fun s => StagingDb.isDirty_of_committed).2
  · have hnot : ∀ scan row, scan.deviceName = key.deviceName →
        ¬Visits registers config scan key.register row :=
      fun scan row hname hvisit => hvisits ⟨scan, row, hname, hvisit⟩
    have h : (syncSelections registers config (db.committedDisk disk)
        db.committed.selections).get? ⟨key.deviceName, key.register⟩ = some s := h
    rw [get?_syncSelections_of_not hnot] at h
    exact StagingDb.isDirty_of_committed h

variable (db disk registers config) in
/-- **When a commit and a pass are a fixed point.** The selections of every register that the pass
visits, and that the commit does not delete, have to be those its names are read back with. -/
theorem commitRescan_fixed_iff :
    CommitRescanFixed db disk registers config ↔
      ∀ scan key row s, Visits registers config scan key row →
        db.selections.get? ⟨scan.deviceName, key⟩ = some s → db.pendingDelete key = false →
          ReadBack db disk scan row s.staged := by
  have hcommitted {key : SelectionKey} {s : DeviceProtocolSelection}
      (hs : db.selections.get? key = some s) (hpending : db.pendingDelete key.register = false) :
      (db.committed.selections.get? key).map DeviceProtocolSelection.staged = some s.staged := by
    rw [StagingDb.staged_of_committed, hpending, hs]
    rfl
  -- what a visited register has after the pass
  have hvisited {scan : DeviceScan} {key : RegisterKey} {row : ProtocolRegister}
      (hvisits : Visits registers config scan key row) :
      ((commitRescan db disk registers config).get? ⟨scan.deviceName, key⟩).map
        DeviceProtocolSelection.staged = some (scan.choices (db.committedDisk disk) row) := by
    rw [commitRescan, get?_syncSelections hvisits, Option.map_some,
      (upsertSelection_clean fun s => StagingDb.isDirty_of_committed).1]
  constructor
  · intro h scan key row s hvisits hs hpending
    have hkept := h.kept _ s hs hpending
    rw [hvisited hvisits] at hkept
    exact choices_committed_iff.mp (Option.some.inj hkept).symm
  · intro h
    refine ⟨fun key s hs hpending => ?_, fun key s hs => clean_commitRescan hs⟩
    by_cases hvisits : ∃ scan row, scan.deviceName = key.deviceName ∧
        Visits registers config scan key.register row
    · obtain ⟨scan, row, hname, hvisits⟩ := hvisits
      have hkey : key = ⟨scan.deviceName, key.register⟩ := by rw [hname]
      rw [hkey] at hs ⊢
      rw [hvisited hvisits, choices_committed_iff.mpr (h scan _ row s hvisits hs hpending)]
    · have hnot : ∀ scan row, scan.deviceName = key.deviceName →
          ¬Visits registers config scan key.register row :=
        fun scan row hname hvisit => hvisits ⟨scan, row, hname, hvisit⟩
      exact (congrArg _ (get?_syncSelections_of_not hnot)).trans (hcommitted hs hpending)

end FixedPoint

/-! ## A register with the name of a half register -/

/-- A mask-selected register of an inverter that is named like a high half, and has no low half. -/
def halfNamedDb : StagingDb where
  settings := StagingDb.inverterSettings
  registers := Dict.empty.set (StagingDb.inverterKey "holding" "40")
    { variableName := "batt_h", documentedName := "batt_h" }
  selections := Dict.empty.set ⟨"inv", StagingDb.inverterKey "holding" "40"⟩
    { staged := { maskEnabled := true }, isDirty := true }

/-- There are no files. -/
def emptyDisk : Disk where
  config := []
  filters _ := none
  writable _ := none
  protocols _ := none

/-- The settings of the inverter, as a pass reads them. -/
def inverterConfig : Config :=
  Dict.empty.set "transport.inv" (Dict.empty.set "protocol_version" "eg4")

/-- A pass strips the suffix of the line `batt_h`, and the register loses its mask selection. -/
theorem not_commitRescanFixed_half_named : ¬ ∀ (optionxform : String → String) (db : StagingDb)
    (disk : Disk) (config : Config),
    loadConfig optionxform (db.committedDisk disk).config = some config →
      CommitRescanFixed db disk db.registers config := by
  intro hall
  have hconfig : loadConfig lowerText (halfNamedDb.committedDisk emptyDisk).config =
      some inverterConfig := by decide
  have hkept := (hall lowerText halfNamedDb emptyDisk inverterConfig hconfig).kept
    ⟨"inv", StagingDb.inverterKey "holding" "40"⟩
    { staged := { maskEnabled := true }, isDirty := true } (by decide) (by decide)
  exact absurd hkept (by decide)

end ProtocolGateway
