import ProtocolGateway.Staging.FilterFiles
import ProtocolGateway.Staging.Diff

/-!
# Committing

`commit_all` writes everything the staging database stands for: `config.cfg`, the mask and screen
files, the list of writable registers of each device, and the register maps of the protocols that
were edited. Then it deletes the registers that wait for it, and marks what is left as committed.

A CSV file is the table of its cells here; the list of writable registers is the column
`documented name` of its file.
-/

namespace ProtocolGateway

/-! ## Files -/

/-- The files a commit writes. -/
structure Disk where
  /-- `config.cfg` -/
  config : List Char
  /-- the mask and screen files -/
  filters : ConfigDir
  /-- the documented names in the writable file of a device -/
  writable : String → Option (List String)
  /-- the register map of a name -/
  protocols : String → Option (List (List String))

namespace StagingDb

variable (db : StagingDb)

/-! ## Writable registers -/

/-- The registry types that can be written. -/
def writableTypes : List String := ["holding", "coil"]

/-- The protocols of a device's writable registers. -/
def writableProtocols (deviceName : String) : List String :=
  (db.selections.keys.filter fun key =>
    key.deviceName = deviceName ∧ key.register.registryType ∈ writableTypes).map
      (·.register.protocolName)

/-- The registers whose write selection reaches the writable file of a device. -/
def writableSelected (deviceName : String) : List ProtocolRegister :=
  (db.registers.items.filter fun kr =>
    kr.1.registryType ∈ writableTypes ∧ kr.2.isWritableByProtocol ∧
      ((db.selections.get? ⟨deviceName, kr.1⟩).any fun s => s.staged.userWriteEnabled)).map Prod.snd

/-- The rows of a writable file: a documented name under each documented or variable name. -/
def writableEntries (deviceName : String) : Dict String String :=
  Dict.empty.update ((db.writableSelected deviceName).map fun row =>
    (if row.documentedName ≠ "" then row.documentedName else row.variableName, row.documentedName))

/-- `_write_writable_csv`: each device with a writable register type, if the register map of one of
them is there. -/
def writeWritableCsv (disk : Disk) (deviceName : String) : Option (List String) :=
  if (db.writableProtocols deviceName).any fun p => (disk.protocols p).isSome then
    let entries := (db.writableEntries deviceName).items.map Prod.snd
    if entries = [] then none else some entries
  else disk.writable deviceName

/-! ## Register maps -/

/-- The columns of a register map that is written. -/
def protocolCsvHeader : List String :=
  ["register", "variable_name", "documented_name", "unit", "data_type", "values", "adjustments",
    "note", "writable", "read_interval", "ha_device_class", "ha_state_class", "ha_entity_category"]

/-- The cells of a register. -/
def protocolCsvRow (kr : RegisterKey × ProtocolRegister) : List String :=
  [kr.1.registerAddress, kr.2.variableName, kr.2.documentedName, kr.2.unit.getD "",
    kr.2.dataType.getD "", kr.2.valuesRange.getD "", kr.2.adjustments.getD "", kr.2.note.getD "",
    kr.2.writeModeProtocol, kr.2.readInterval.getD "", kr.2.haDeviceClass.getD "",
    kr.2.haStateClass.getD "", kr.2.haEntityCategory.getD ""]

/-- A register map as `_write_protocol_csvs` writes it, in the order of the address texts. -/
def protocolCsv (protocolName : String) : List (List String) :=
  protocolCsvHeader :: ((db.registers.items.filter fun kr =>
    kr.1.protocolName = protocolName ∧ !kr.2.isSynthetic ∧ !kr.2.isJsonDesc ∧
      !kr.2.pendingDelete).insertionSort fun a b =>
        a.1.registerAddress ≤ b.1.registerAddress).map protocolCsvRow

/-- The protocols whose register map a commit writes. -/
def dirtyProtocols : List String :=
  (db.registers.items.filter fun kr => kr.2.isDirty || kr.2.pendingDelete).map (·.1.protocolName)

/-- `_write_protocol_csvs`: the register maps that are there, of protocols that were edited. -/
def writeProtocolCsvs (disk : Disk) (protocolName : String) : Option (List (List String)) :=
  if protocolName ∈ db.dirtyProtocols then
    (disk.protocols protocolName).map fun _ => db.protocolCsv protocolName
  else disk.protocols protocolName

/-! ## The database after a commit -/

/-- A register waits for its deletion. -/
def pendingDelete (key : RegisterKey) : Bool :=
  (db.registers.get? key).any ProtocolRegister.pendingDelete

/-- `_delete_pending_protocol_registers`. -/
def deletePending : StagingDb :=
  { db with registers := db.registers.filter fun kr => !kr.2.pendingDelete
            selections := db.selections.filter fun ks => !db.pendingDelete ks.1.register }

end StagingDb

/-- What `_reset_dirty_flags` does to a selection. -/
def DeviceProtocolSelection.resetDirty (s : DeviceProtocolSelection) : DeviceProtocolSelection :=
  if s.isDirty then { s with disk := s.staged, isDirty := false } else s

namespace StagingDb

variable (db : StagingDb)

/-- `_reset_dirty_flags`. -/
def resetDirtyFlags : StagingDb where
  settings := ProtocolGateway.resetDirtyFlags db.settings
  registers := db.registers.mapValues fun _ row => { row with isDirty := false }
  selections := db.selections.mapValues fun _ s => s.resetDirty

/-- The database after `commit_all`. -/
def committed : StagingDb := db.deletePending.resetDirtyFlags

/-- The files after `commit_all`. -/
def committedDisk (disk : Disk) : Disk where
  config := commitText db.settings
  filters := db.writeMaskScreenFiles disk.filters
  writable := db.writeWritableCsv disk
  protocols := db.writeProtocolCsvs disk

variable {db}

/-- No selection is dirty after a commit. -/
theorem isDirty_of_committed {key : SelectionKey} {s : DeviceProtocolSelection}
    (h : db.committed.selections.get? key = some s) : s.isDirty = false := by
  rw [committed, resetDirtyFlags, Dict.get?_mapValues] at h
  obtain ⟨before, -, rfl⟩ := Option.map_eq_some_iff.mp h
  unfold DeviceProtocolSelection.resetDirty
  split
  · rfl
  · next hclean => exact Bool.eq_false_iff.mpr hclean

/-- A selection that a commit leaves has the choices it had. -/
theorem staged_of_committed (key : SelectionKey) :
    (db.committed.selections.get? key).map DeviceProtocolSelection.staged =
      if db.pendingDelete key.register then none
      else (db.selections.get? key).map DeviceProtocolSelection.staged := by
  have hreset (s : DeviceProtocolSelection) : s.resetDirty.staged = s.staged := by
    unfold DeviceProtocolSelection.resetDirty
    split <;> rfl
  rw [committed, resetDirtyFlags, Dict.get?_mapValues, deletePending, Dict.get?_filter,
    Option.map_map]
  cases db.selections.get? key with
  | none => simp
  | some s =>
    cases hpending : db.pendingDelete key.register with
    | true => simp [hpending]
    | false => simp [hpending, hreset]

end StagingDb

end ProtocolGateway
