import ProtocolGateway.Staging.ConfigParser
import Mathlib.Data.List.Sort
import Mathlib.Data.String.Basic

/-!
# The settings of the staging database

The web server keeps a row for every setting it knows: what `config.cfg` says (`valueDisk`), what
the user wants it to say (`valueStaged`), and whether the next commit writes it (`isActive`,
`isOrphan`). `buildConfigText` is that file: the active rows by section, a line for each.
-/

namespace ProtocolGateway

open ConfigParser

/-- A section of `config.cfg` and a key in it. No two rows of the `settings` table have both. -/
abbrev SettingKey := String × String

/-- What the `settings` table stores under a section and key. -/
structure Setting where
  valueDisk : Option String := none
  valueStaged : Option String := none
  defaultValue : Option String := none
  /-- the next commit writes the row -/
  isActive : Bool := true
  /-- the row waits for a commit -/
  isDirty : Bool := false
  /-- the last scan did not come across the row's key -/
  isOrphan : Bool := false
deriving DecidableEq, Repr

/-- The `settings` table, in the order of its ids. -/
abbrev SettingTable := Dict SettingKey Setting

/-- A row of the `settings` table. -/
abbrev SettingRow := SettingKey × Setting

namespace Setting

/-- The value a commit writes for a row. -/
def written (row : Setting) : String := row.valueStaged.getD (row.valueDisk.getD "")

/-- `mark_dirty`. -/
def markDirty (row : Setting) : Setting :=
  { row with isDirty := row.valueStaged ≠ row.valueDisk }

end Setting

/-! ## The text of `config.cfg` -/

/-- `[section]`. -/
def headerLine (s : String) : List Char := '[' :: s.toList ++ [']']

/-- `key = value`. -/
def settingLine (key value : String) : List Char := key.toList ++ " = ".toList ++ value.toList

/-- The sections of a configuration: `general`, `logging`, then the transports and then the others
in alphabetical order. -/
def finalOrder (sections : List String) : List String :=
  let order := ["general", "logging"]
  let transportSections :=
    (sections.filter fun s => "transport.".toList.isPrefixOf s.toList).insertionSort (· ≤ ·)
  let otherSections :=
    (sections.filter fun s => s ∉ order ∧ s ∉ transportSections).insertionSort (· ≤ ·)
  order ++ transportSections ++ otherSections

/-- The rows a configuration is written from. -/
def writtenRows (settingsRows : List SettingRow) : List SettingRow :=
  settingsRows.filter fun row => row.2.isActive ∧ row.1.2 ∉ removedKeys

/-- The lines of a section: its header, its settings and a blank line. -/
def sectionLines (rows : List SettingRow) (s : String) : List (List Char) :=
  headerLine s :: (rows.filter fun row => row.1.1 = s).map
    (fun row => settingLine row.1.2 row.2.written) ++ [[]]

/-- `_build_config_text`. -/
def buildConfigText (settingsRows : List SettingRow) : List Char :=
  let rows := writtenRows settingsRows
  let sections := (rows.map fun row => row.1.1).dedup
  ['\n'].intercalate (((finalOrder sections).filter (· ∈ sections)).flatMap (sectionLines rows))

/-- The text `commit_all` writes. -/
def commitText (table : SettingTable) : List Char :=
  buildConfigText (table.items.filter fun row => !row.2.isOrphan)

/-- The value a commit writes under a section and key, if it writes them. -/
def SettingTable.written? (table : SettingTable) (key : SettingKey) : Option String :=
  (table.get? key).bind fun row =>
    if row.isActive ∧ row.isOrphan = false ∧ key.2 ∉ removedKeys then some row.written else none

/-- A row that is written has its staged value, or the one on disk. -/
theorem written?_eq_some_iff {table : SettingTable} {key : SettingKey} {v : String} :
    table.written? key = some v ↔ ∃ row, table.get? key = some row ∧ row.isActive = true ∧
      row.isOrphan = false ∧ key.2 ∉ removedKeys ∧ row.written = v := by
  rw [SettingTable.written?, Option.bind_eq_some_iff]
  constructor
  · rintro ⟨row, hrow, hv⟩
    split at hv
    · next h => exact ⟨row, hrow, h.1, h.2.1, h.2.2, Option.some.inj hv⟩
    · cases hv
  · rintro ⟨row, hrow, hactive, horphan, hkey, rfl⟩
    exact ⟨row, hrow, if_pos ⟨hactive, horphan, hkey⟩⟩

/-- Nothing is written for an orphan. -/
theorem written?_of_orphan {table : SettingTable} {key : SettingKey} {row : Setting}
    (hrow : table.get? key = some row) (horphan : row.isOrphan = true) :
    table.written? key = none := by
  rw [SettingTable.written?, hrow, Option.bind_some,
    if_neg fun hand => absurd (horphan.symm.trans hand.2.1) (by decide)]

/-! ## What the text depends on -/

/-- The lines of a section, from the values that are written. -/
def valueLines (values : List (SettingKey × String)) (s : String) : List (List Char) :=
  headerLine s :: (values.filter fun kv => kv.1.1 = s).map
    (fun kv => settingLine kv.1.2 kv.2) ++ [[]]

/-- The text of a configuration, from the values that are written. -/
def valueText (values : List (SettingKey × String)) : List Char :=
  let sections := (values.map fun kv => kv.1.1).dedup
  ['\n'].intercalate (((finalOrder sections).filter (· ∈ sections)).flatMap (valueLines values))

/-- The text depends on the written values only. -/
theorem buildConfigText_eq (settingsRows : List SettingRow) :
    buildConfigText settingsRows =
      valueText ((writtenRows settingsRows).map fun row => (row.1, row.2.written)) := by
  have hlines (rows : List SettingRow) : sectionLines rows =
      valueLines (rows.map fun row => (row.1, row.2.written)) := by
    funext s
    rw [sectionLines, valueLines, List.filter_map, List.map_map]
    rfl
  unfold buildConfigText valueText
  dsimp only
  rw [hlines, List.map_map]
  rfl

/-- The values a commit writes, in the order of the table. -/
def SettingTable.writtenValues (table : SettingTable) : List (SettingKey × String) :=
  table.keys.filterMap fun key => (table.written? key).map fun value => (key, value)

theorem commitText_eq (table : SettingTable) : commitText table = valueText table.writtenValues := by
  rw [commitText, buildConfigText_eq]
  congr 1
  rw [SettingTable.writtenValues, Dict.keys, List.filterMap_map, writtenRows, List.filter_filter,
    ← List.filterMap_eq_filter, List.map_filterMap]
  refine List.filterMap_congr fun row hrow => ?_
  have hget : table.get? row.1 = some row.2 := Dict.get?_eq_some_iff.mpr hrow
  rw [Function.comp_apply, SettingTable.written?, hget, Option.bind_some]
  by_cases hwritten : row.2.isActive ∧ row.2.isOrphan = false ∧ row.1.2 ∉ removedKeys
  · rw [if_pos hwritten]
    simp [Option.guard, hwritten]
  · have htest : (decide (row.2.isActive ∧ row.1.2 ∉ removedKeys) && !row.2.isOrphan) = false := by
      rw [Bool.eq_false_iff]
      intro htest
      rw [Bool.and_eq_true, decide_eq_true_eq, Bool.not_eq_true'] at htest
      exact hwritten ⟨htest.1.1, htest.2, htest.1.2⟩
    rw [if_neg hwritten, Option.guard, htest]
    rfl

/-- **Two tables are written alike** if the same values are written, and the second has its new rows
behind the old ones. -/
theorem commitText_congr {table table' : SettingTable} (hkeys : table.keys <+: table'.keys)
    (h : ∀ key, table'.written? key = table.written? key) :
    commitText table' = commitText table := by
  obtain ⟨new, hnew⟩ := hkeys
  have hnone : ∀ key ∈ new, table.written? key = none := by
    intro key hkey
    have hnodup := table'.nodup
    rw [show table'.items.map Prod.fst = table.keys ++ new from hnew.symm] at hnodup
    have hnot : key ∉ table.keys := fun hmem =>
      (List.nodup_append.mp hnodup).2.2 key hmem key hkey rfl
    rw [SettingTable.written?, Dict.get?_eq_none_iff.mpr hnot, Option.bind_none]
  rw [commitText_eq, commitText_eq]
  congr 1
  have hnil : new.filterMap (fun key => (table'.written? key).map fun value => (key, value)) = [] :=
    List.filterMap_eq_nil_iff.mpr fun key hkey => by rw [h key, hnone key hkey, Option.map_none]
  rw [SettingTable.writtenValues, SettingTable.writtenValues, ← hnew, List.filterMap_append, hnil,
    List.append_nil]
  exact List.filterMap_congr fun key _ => by rw [h key]

end ProtocolGateway
