import ProtocolGateway.Staging.Commit

/-!
# Scanning the selections

A scanner pass reads the mask, screen and writable files of every transport that has a protocol, and
sets the choices of each register of the protocol by its names. Reading undoes half-register names:
a line `echg_all_l` stands for the register `echg_all`.

`commitRescan_fixed_iff` says when a commit and a pass after it change no selection.
-/

namespace ProtocolGateway

open ConfigParser
open Text (strip lower splitlines)
open ProtocolSettings (stripName)

/-! ## Registers -/

/-- A row of a register map, as `_parse_protocol_csv` returns it. -/
structure ParsedRegister where
  key : RegisterKey
  variableName : String
  documentedName : String
  unit : String := ""
  dataType : String := ""
  valuesRange : String := ""
  adjustments : String := ""
  note : String := ""
  readInterval : String := ""
  writeModeProtocol : String := "R"
  haDeviceClass : String := ""
  haStateClass : String := ""
  haEntityCategory : String := ""
  /-- the second address of a pair, and blank for other rows -/
  pairedHighAddress : String := ""
deriving DecidableEq, Repr

/-- `_upsert_protocol_register`: a row that was edited keeps its fields, apart from cells that have
never been loaded. -/
def ParsedRegister.row (reg : ParsedRegister) (existing : Option ProtocolRegister) :
    ProtocolRegister :=
  let loaded (row : ProtocolRegister) : ProtocolRegister :=
    { row with
      variableName := reg.variableName
      documentedName := reg.documentedName
      unit := some reg.unit
      dataType := some reg.dataType
      valuesRange := some reg.valuesRange
      adjustments := some reg.adjustments
      note := some reg.note
      readInterval := some reg.readInterval
      writeModeProtocol := reg.writeModeProtocol
      haDeviceClass := some reg.haDeviceClass
      haStateClass := some reg.haStateClass
      haEntityCategory := some reg.haEntityCategory }
  let row :=
    match existing with
    | none => loaded { variableName := reg.variableName, documentedName := reg.documentedName }
    | some row =>
      if row.isDirty then
        { row with haDeviceClass := some (row.haDeviceClass.getD reg.haDeviceClass)
                   haStateClass := some (row.haStateClass.getD reg.haStateClass)
                   haEntityCategory := some (row.haEntityCategory.getD reg.haEntityCategory) }
      else loaded row
  { row with pairedHighAddress := some reg.pairedHighAddress }

/-- The registers after a pass has read the register maps. -/
def scanRegisters (parsed : List ParsedRegister) (registers : RegisterTable) : RegisterTable :=
  registers.upsertAll ParsedRegister.key ParsedRegister.row parsed

/-! ## Names -/

/-- `text.lower().replace(" ", "_")`. -/
def snake (s : List Char) : List Char := (lower s).map fun c => if c = ' ' then '_' else c

/-- The name in a line of a filter file, without the prefix of a synthetic field and without the
suffix of a half register. -/
def filterName? (line : List Char) : Option String :=
  let name := snake (strip line)
  if name = [] then none
  else
    let name := if syntheticFilterPrefix.toList.isPrefixOf name then
      name.drop syntheticFilterPrefix.length else name
    some (String.ofList (if "_l".toList.isSuffixOf name ∨ "_h".toList.isSuffixOf name then
      name.dropLast.dropLast else name))

/-- `_load_filter_names`. -/
def loadFilterNames (files : ConfigDir) (file : String) : List String :=
  match files file with
  | none => []
  | some text => (splitlines text).filterMap filterName?

/-- The name in a row of a writable file. -/
def writableName? (documentedName : String) : Option String :=
  let name := strip documentedName.toList
  if name = [] then none else some (String.ofList (snake name))

/-- `_load_writable_names`. -/
def loadWritableNames (writable : Option (List String)) : List String :=
  (writable.getD []).filterMap writableName?

/-- The key of a register's name. -/
def registerNameKey (name : String) : String := String.ofList (snake (strip name.toList))

/-- A register has one of its names in a list. -/
def nameListed (names : List String) (row : ProtocolRegister) : Bool :=
  names.contains (registerNameKey row.variableName) ||
    names.contains (registerNameKey row.documentedName)

/-! ## The pass -/

/-- What the pass reads of a transport's section. -/
structure DeviceScan where
  deviceName : String
  protocolVersion : String
  maskFile : String
  screenFile : String
  writeEnabled : Bool
deriving DecidableEq, Repr

/-- A stripped setting, or what stands for a blank one. -/
def strippedOr (value : Option String) (default : String) : String :=
  let value := stripName (value.getD default)
  if value = "" then default else value

/-- The transport of a section, if it has a protocol. -/
def deviceScan? (s : String) (keys : Dict String String) : Option DeviceScan :=
  if "transport.".toList.isPrefixOf s.toList then
    let deviceName := String.ofList (s.toList.drop "transport.".length)
    let protocolVersion := stripName ((keys.get? "protocol_version").getD "")
    if protocolVersion = "" then none
    else some {
      deviceName
      protocolVersion
      maskFile := strippedOr (keys.get? "variable_mask") (maskFile deviceName)
      screenFile := strippedOr (keys.get? "variable_screen") (screenFile deviceName)
      writeEnabled := lowerText (stripName ((keys.get? "write_enabled").getD "false")) = "true" }
  else none

/-- The choices the files have for a register of a device. -/
def DeviceScan.choices (scan : DeviceScan) (disk : Disk) (row : ProtocolRegister) : Choices where
  maskEnabled := nameListed (loadFilterNames disk.filters scan.maskFile) row
  screenEnabled := nameListed (loadFilterNames disk.filters scan.screenFile) row
  userWriteEnabled := scan.writeEnabled &&
    nameListed (loadWritableNames (disk.writable scan.deviceName)) row

/-- `_upsert_device_protocol_selection`. -/
def upsertSelection (choices : Choices) :
    Option DeviceProtocolSelection → DeviceProtocolSelection
  | none => { staged := choices, disk := choices }
  | some s =>
    { s with disk := choices, staged := if s.isDirty then s.staged else choices }.markDirty

/-- The registers a pass visits for a section: those of its protocol, by the start of its name. -/
def sectionSelections (registers : RegisterTable) (s : String) (keys : Dict String String) :
    List (DeviceScan × RegisterKey × ProtocolRegister) :=
  match deviceScan? s keys with
  | none => []
  | some scan => (registers.items.filter fun kr =>
      ofProtocol scan.protocolVersion kr.1.protocolName).map fun kr => (scan, kr)

/-- The registers a pass visits. -/
def scannedSelections (registers : RegisterTable) (config : Config) :
    List (DeviceScan × RegisterKey × ProtocolRegister) :=
  config.items.flatMap fun kv => sectionSelections registers kv.1 kv.2

/-- `_sync_device_protocol_selections`. -/
def syncSelections (registers : RegisterTable) (config : Config) (disk : Disk)
    (selections : SelectionTable) : SelectionTable :=
  selections.upsertAll (fun x => ⟨x.1.deviceName, x.2.1⟩)
    (fun x => upsertSelection (x.1.choices disk x.2.2)) (scannedSelections registers config)

/-- A pass visits a register of a device. -/
def Visits (registers : RegisterTable) (config : Config) (scan : DeviceScan) (key : RegisterKey)
    (row : ProtocolRegister) : Prop :=
  (∃ kv ∈ config.items, deviceScan? kv.1 kv.2 = some scan) ∧ registers.get? key = some row ∧
    ofProtocol scan.protocolVersion key.protocolName = true

section Pass

variable {registers : RegisterTable} {config : Config} {disk : Disk} {selections : SelectionTable}
  {scan : DeviceScan} {key : RegisterKey} {row : ProtocolRegister}

theorem mem_sectionSelections {s : String} {keys : Dict String String} :
    (scan, key, row) ∈ sectionSelections registers s keys ↔ deviceScan? s keys = some scan ∧
      registers.get? key = some row ∧ ofProtocol scan.protocolVersion key.protocolName = true := by
  unfold sectionSelections
  constructor
  · intro hx
    split at hx
    · cases hx
    · next scan' hscan =>
      obtain ⟨kr, hkr, heq⟩ := List.mem_map.mp hx
      obtain ⟨rfl, rfl⟩ := Prod.mk.inj heq
      obtain ⟨hmem, hprotocol⟩ := List.mem_filter.mp hkr
      exact ⟨hscan, Dict.get?_eq_some_iff.mpr hmem, hprotocol⟩
  · rintro ⟨hscan, hrow, hprotocol⟩
    rw [hscan]
    exact List.mem_map_of_mem
      (List.mem_filter.mpr ⟨Dict.get?_eq_some_iff.mp hrow, hprotocol⟩)

theorem mem_scannedSelections :
    (scan, key, row) ∈ scannedSelections registers config ↔
      Visits registers config scan key row := by
  unfold scannedSelections Visits
  rw [List.mem_flatMap]
  constructor
  · rintro ⟨kv, hkv, hx⟩
    obtain ⟨hscan, hrest⟩ := mem_sectionSelections.mp hx
    exact ⟨⟨kv, hkv, hscan⟩, hrest⟩
  · rintro ⟨⟨kv, hkv, hscan⟩, hrest⟩
    exact ⟨kv, hkv, mem_sectionSelections.mpr ⟨hscan, hrest⟩⟩

/-- The name of a device tells its section. -/
theorem section_of_deviceScan {s : String} {keys : Dict String String}
    (h : deviceScan? s keys = some scan) : s = "transport." ++ scan.deviceName := by
  unfold deviceScan? at h
  split at h
  · next hstart =>
    dsimp only at h
    split at h
    · cases h
    · obtain rfl := Option.some.inj h
      obtain ⟨rest, hrest⟩ := List.isPrefixOf_iff_prefix.mp hstart
      have hrest' : s.toList.drop "transport.".length = rest := by
        rw [← hrest]
        exact List.drop_left
      refine String.toList_inj.mp ?_
      rw [hrest']
      exact hrest.symm.trans (String.toList_append.trans
        (congrArg ("transport.".toList ++ ·) String.toList_ofList)).symm
  · cases h

/-- A pass visits a register of a device once. -/
theorem nodup_scannedSelections (registers : RegisterTable) (config : Config) :
    ((scannedSelections registers config).map fun x =>
      (⟨x.1.deviceName, x.2.1⟩ : SelectionKey)).Nodup := by
  unfold scannedSelections
  rw [List.map_flatMap]
  refine nodup_flatMap_items (fun kv _ => ?_) fun kv _ kv' _ key hkey hkey' => ?_
  · unfold sectionSelections
    split
    · exact List.nodup_nil
    · next scan _ =>
      rw [List.map_map, show ((fun x : DeviceScan × RegisterKey × ProtocolRegister =>
        (⟨x.1.deviceName, x.2.1⟩ : SelectionKey)) ∘
          fun kr : RegisterKey × ProtocolRegister => (scan, kr)) =
            (fun key => ⟨scan.deviceName, key⟩) ∘ Prod.fst from rfl, ← List.map_map]
      exact (registers.nodup.sublist (List.filter_sublist.map Prod.fst)).map
        fun _ _ heq => (SelectionKey.mk.inj heq).2
  · obtain ⟨⟨scan, _, _⟩, hx, rfl⟩ := List.mem_map.mp hkey
    obtain ⟨⟨scan', _, _⟩, hx', heq⟩ := List.mem_map.mp hkey'
    rw [section_of_deviceScan (mem_sectionSelections.mp hx).1,
      section_of_deviceScan (mem_sectionSelections.mp hx').1, (SelectionKey.mk.inj heq).1]

/-- What a pass leaves for a register it visits, -/
theorem get?_syncSelections (h : Visits registers config scan key row) :
    (syncSelections registers config disk selections).get? ⟨scan.deviceName, key⟩ =
      some (upsertSelection (scan.choices disk row) (selections.get? ⟨scan.deviceName, key⟩)) :=
  Dict.get?_upsertAll_of_mem (nodup_scannedSelections registers config)
    (mem_scannedSelections.mpr h) _

/-- and for one it does not. -/
theorem get?_syncSelections_of_not {deviceName : String}
    (h : ∀ scan row, scan.deviceName = deviceName → ¬Visits registers config scan key row) :
    (syncSelections registers config disk selections).get? ⟨deviceName, key⟩ =
      selections.get? ⟨deviceName, key⟩ := by
  refine Dict.get?_upsertAll_of_notMem (fun hmem => ?_) _
  obtain ⟨⟨scan, key', row⟩, hx, heq⟩ := List.mem_map.mp hmem
  obtain ⟨hname, rfl⟩ := SelectionKey.mk.inj heq
  exact h scan row hname (mem_scannedSelections.mp hx)

end Pass

end ProtocolGateway
