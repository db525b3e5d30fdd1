import ProtocolGateway.Staging.Commit

/-!
# Toggling selections

The requests of the web pages that change one choice about a register:

* `toggleRegisterField` changes it for the device, and for the description of a code register along
  with the register, whichever of the two was asked for. It looks the other one up by name.
* `toggleRegister` does that, and then asks the live transport for a description without a row.
* `materializeAndToggle` makes the row of a field or description that the gateway computes.

A request that is refused is rolled back, and is `none` here.
-/

namespace ProtocolGateway

/-- The field of a toggle. A request for any other field is refused. -/
inductive ChoiceField
  | userWriteEnabled | maskEnabled | screenEnabled
deriving DecidableEq, Repr

/-- A choice after one field was set. A register is never both masked and screened. -/
def Choices.setField (choices : Choices) (value : Bool) : ChoiceField → Choices
  | .userWriteEnabled => { choices with userWriteEnabled := value }
  | .maskEnabled =>
    { choices with maskEnabled := value, screenEnabled := choices.screenEnabled && !value }
  | .screenEnabled =>
    { choices with screenEnabled := value, maskEnabled := choices.maskEnabled && !value }

/-- What `build_json_desc_rows` gives for a description of a live transport. -/
structure DescriptionRow where
  registryType : String
  variableName : String
  documentedName : String
  unit : String := ""
  dataType : String := ""
  note : Option String := none
  readInterval : Option String := none
  sourceVariableName : String
  /-- entries without a source are no descriptions -/
  source_ne : sourceVariableName ≠ "" := by decide
deriving DecidableEq, Repr

/-- The kinds of rows that are made on demand. -/
inductive VirtualKind
  | synthetic | jsonDesc
deriving DecidableEq, Repr

/-- The body of `create-and-toggle`. -/
structure VirtualToggle where
  field : ChoiceField
  value : Bool
  kind : VirtualKind
  variableName : String
  documentedName : String := ""
  unit : String := ""
  dataType : String := ""
  note : Option String := none
  readInterval : Option String := none
  sourceVariableName : Option String := none
deriving DecidableEq, Repr

/-- `_virtual_register_address`. -/
def virtualRegisterAddress (kind : VirtualKind) (variableName : String) : String :=
  match kind with
  | .synthetic => "~synthetic:" ++ variableName
  | .jsonDesc => "~json_desc:" ++ variableName

/-- The row `materialize_and_toggle_virtual_metric` makes. -/
def VirtualToggle.row (payload : VirtualToggle) : ProtocolRegister where
  variableName := payload.variableName
  documentedName :=
    if payload.documentedName ≠ "" then payload.documentedName else payload.variableName
  unit := some payload.unit
  dataType := some payload.dataType
  note := payload.note
  readInterval := payload.readInterval
  isSynthetic := payload.kind = .synthetic
  isJsonDesc := payload.kind = .jsonDesc
  sourceVariableName := if payload.kind = .jsonDesc then payload.sourceVariableName else none

/-- Two registers are of one registry type of one protocol. -/
def RegisterKey.sameMap (key key' : RegisterKey) : Bool :=
  key.protocolName = key'.protocolName ∧ key.registryType = key'.registryType

namespace StagingDb

variable (db : StagingDb)

/-- `device_mask_in_use`. -/
def maskInUse (deviceName : String) : Bool :=
  db.selections.items.any fun ks => ks.1.deviceName = deviceName ∧ ks.2.staged.maskEnabled

/-- `_toggle_selection_for_row`. -/
def toggleSelection (deviceName : String) (field : ChoiceField) (value : Bool) (key : RegisterKey)
    (row : ProtocolRegister) : Option StagingDb :=
  if field = .userWriteEnabled ∧ value ∧ !row.isWritableByProtocol then none
  else
    let target := (db.selections.get? ⟨deviceName, key⟩).getD {}
    let target := { target with staged := target.staged.setField value field }.markDirty
    some { db with selections := db.selections.set ⟨deviceName, key⟩ target }

/-- The other one of a code register and its description, by name. -/
def counterpart? (key : RegisterKey) (row : ProtocolRegister) :
    Option (RegisterKey × ProtocolRegister) :=
  let found :=
    if row.isJsonDesc ∧ isSet row.sourceVariableName then
      db.registers.items.find? fun kr =>
        kr.1.sameMap key ∧ some kr.2.variableName = row.sourceVariableName
    else if !row.isSynthetic ∧ !row.isJsonDesc then
      db.registers.items.find? fun kr =>
        kr.1.sameMap key ∧ kr.2.isJsonDesc ∧ kr.2.sourceVariableName = some row.variableName
    else none
  found.filter fun kr => kr.1 ≠ key

/-- The cascade of `toggle_register_field`. Write selections stay with their register. -/
def toggleCounterpart (deviceName : String) (field : ChoiceField) (value : Bool) (key : RegisterKey)
    (row : ProtocolRegister) : StagingDb :=
  if field = .userWriteEnabled then db
  else
    match db.counterpart? key row with
    | none => db
    | some kr => (db.toggleSelection deviceName field value kr.1 kr.2).getD db

/-- A new screen selection is refused while the device has a mask selection. -/
def refusesScreen (deviceName : String) (field : ChoiceField) (value : Bool) : Bool :=
  field = .screenEnabled ∧ value ∧ db.maskInUse deviceName

/-- `toggle_register_field`. -/
def toggleRegisterField (deviceName : String) (field : ChoiceField) (value : Bool)
    (key : RegisterKey) : Option StagingDb :=
  if deviceName = "" ∨ db.refusesScreen deviceName field value then none
  else
    (db.registers.get? key).bind fun row =>
      (db.toggleSelection deviceName field value key row).map fun db =>
        db.toggleCounterpart deviceName field value key row

/-- The database with the row of a field or description. -/
def materialize (key : RegisterKey) (payload : VirtualToggle) : StagingDb :=
  if key ∈ db.registers.keys then db
  else { db with registers := db.registers.set key payload.row }

/-- The key of a field or description. -/
def virtualKey (protocolName registryType : String) (payload : VirtualToggle) : RegisterKey where
  protocolName := protocolName
  registryType := registryType
  registerAddress := virtualRegisterAddress payload.kind payload.variableName

/-- `materialize_and_toggle_virtual_metric`. -/
def materializeAndToggle (protocolName registryType deviceName : String) (payload : VirtualToggle) :
    Option StagingDb :=
  if deviceName = "" ∨ db.refusesScreen deviceName payload.field payload.value then none
  else
    let key := virtualKey protocolName registryType payload
    (db.materialize key payload).toggleRegisterField deviceName payload.field payload.value key

/-- What the route asks for a description of the live transport. -/
def descriptionToggle (field : ChoiceField) (value : Bool) (desc : DescriptionRow) :
    VirtualToggle where
  field := field
  value := value
  kind := .jsonDesc
  variableName := desc.variableName
  documentedName := desc.documentedName
  unit := desc.unit
  dataType := desc.dataType
  note := desc.note
  readInterval := desc.readInterval
  sourceVariableName := some desc.sourceVariableName

/-- The description of a code register that the live transport has. -/
def liveDescription? (transport : Option (List DescriptionRow)) (key : RegisterKey)
    (row : ProtocolRegister) : Option DescriptionRow :=
  if row.isSynthetic ∨ row.isJsonDesc then none
  else (transport.getD []).find? fun desc =>
    desc.registryType = lowerText key.registryType ∧ desc.sourceVariableName = row.variableName

/-- The `toggle` route. -/
def toggleRegister (deviceName : String) (field : ChoiceField) (value : Bool) (key : RegisterKey)
    (transport : Option (List DescriptionRow)) : Option StagingDb :=
  (db.toggleRegisterField deviceName field value key).map fun db =>
    let desc? := (db.registers.get? key).bind (liveDescription? transport key)
    match if field = .userWriteEnabled then none else desc? with
    | none => db
    | some desc =>
      (db.materializeAndToggle key.protocolName key.registryType deviceName
        (descriptionToggle field value desc)).getD db

end StagingDb

end ProtocolGateway
