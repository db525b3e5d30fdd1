import ProtocolGateway.Staging.Scan

/-!
# Editing the settings

The requests of the web pages that stage a setting: the two endpoints that change a row, the one
that creates a row for a key the transport knows, and the rows that are seeded for a bridge which is
selected for the first time. A request that fails is rolled back, and is `none` here.
-/

namespace ProtocolGateway

open ConfigParser

/-- `SettingUpdate`: what a request changes of a row. -/
structure SettingUpdate where
  valueStaged : Option String := none
  isActive : Option Bool := none

/-- A request that stages a setting. -/
inductive Edit
  /-- `update_general_setting` -/
  | general (key : SettingKey) (payload : SettingUpdate)
  /-- `update_setting` -/
  | device (key : SettingKey) (payload : SettingUpdate)
  /-- `create_and_activate` -/
  | create (deviceName key : String) (defaultValue : Option String)

/-- A text that Python takes for true. -/
def isSet (value : Option String) : Bool := value.getD "" ≠ ""

namespace Setting

/-- What both endpoints do to a row before they mark it. -/
def update (row : Setting) (payload : SettingUpdate) : Setting :=
  let row := { row with valueStaged := payload.valueStaged.or row.valueStaged }
  match payload.isActive with
  | some true =>
    { row with isActive := true
               valueStaged := if isSet row.valueStaged then row.valueStaged
                              else some (row.defaultValue.getD "") }
  | some false => { row with isActive := false }
  | none => row

/-- How `update_setting` marks a row: an inactive one waits for a commit if it is on disk. -/
def markDevice (row : Setting) : Setting :=
  if row.isActive then row.markDirty else { row with isDirty := isSet row.valueDisk }

/-- A row that is seeded for a bridge. -/
def seeded (value : String) : Setting :=
  markDirty { valueStaged := some value, defaultValue := some value }

/-- A row that is created for a key the transport knows. -/
def created (defaultValue : Option String) : Setting where
  valueDisk := some ""
  valueStaged := some (defaultValue.getD "")
  defaultValue := some (defaultValue.getD "")
  isDirty := true

/-- What `create_and_activate` does to a row that is there. -/
def activate (row : Setting) (defaultValue : Option String) : Setting :=
  { row with isActive := true, isDirty := true
             valueStaged := if isSet row.valueStaged then row.valueStaged
                            else if isSet defaultValue then defaultValue
                            else some (row.defaultValue.getD "") }

end Setting

/-- The sections a `bridge` value names, with the names of the transports. -/
def bridgeSections (value : String) : List (String × String) :=
  ((Text.split ',' value.toList).map Text.strip).filterMap fun part =>
    let name := part.drop "transport.".length
    if "transport.".toList.isPrefixOf part ∧ name ≠ [] then
      some (String.ofList part, String.ofList name)
    else none

section Requests

variable (library : TransportLibrary)

/-- The rows `ensure_bridge_sections_exist` adds, for sections that have none. -/
def bridgeRows (table : SettingTable) (value : String) : List SettingRow :=
  (bridgeSections value).flatMap fun bridge =>
    if table.keys.any fun key => key.1 = bridge.1 then []
    else
      match library.knownTransportKeys.get? bridge.2 with
      | none => []
      | some defaults =>
        (defaults.set "transport" bridge.2).items.map fun kv =>
          ((bridge.1, kv.1), Setting.seeded kv.2)

/-- `ensure_bridge_sections_exist`: a section that is named twice breaks the table's constraint. -/
def ensureBridgeSectionsExist (table : SettingTable) (value : String) : Option SettingTable :=
  let rows := bridgeRows library table value
  if (rows.map Prod.fst).Nodup then some (table.update rows) else none

/-- `update_setting`. -/
def updateSetting (table : SettingTable) (key : SettingKey) (payload : SettingUpdate) :
    Option SettingTable :=
  if "transport.".toList.isPrefixOf key.1.toList then
    (table.get? key).bind fun row =>
      let row := row.update payload
      let table := table.set key row.markDevice
      if key.2 = "bridge" ∧ payload.valueStaged.isSome then
        ensureBridgeSectionsExist library table (row.valueStaged.getD "")
      else some table
  else none

/-- `update_general_setting`. -/
def updateGeneralSetting (table : SettingTable) (key : SettingKey) (payload : SettingUpdate) :
    Option SettingTable :=
  (table.get? key).map fun row => table.set key (row.update payload).markDirty

/-- `create_and_activate`. -/
def createAndActivate (table : SettingTable) (deviceName key : String)
    (defaultValue : Option String) : SettingTable :=
  let key : SettingKey := ("transport." ++ deviceName, key)
  match table.get? key with
  | some row => table.set key (row.activate defaultValue)
  | none => table.set key (Setting.created defaultValue)

/-- What a request does to the table. -/
def Edit.request? (table : SettingTable) : Edit → Option SettingTable
  | .general key payload => updateGeneralSetting table key payload
  | .device key payload => updateSetting library table key payload
  | .create deviceName key defaultValue =>
    some (createAndActivate table deviceName key defaultValue)

/-- The table after a request. -/
def Edit.apply (table : SettingTable) (e : Edit) : SettingTable :=
  (e.request? library table).getD table

end Requests

end ProtocolGateway
