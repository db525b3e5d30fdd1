import ProtocolGateway.HaMetadata
import ProtocolGateway.Lib.Retained
import ProtocolGateway.RegistryMap
import ProtocolGateway.WriteRouting

/-!
# Home Assistant discovery

`mqtt.mqtt_discovery` tells Home Assistant what a bridged device has: for every entry of the
register maps a retained message on a config topic, from which Home Assistant makes an entity. The
platform of the entity depends on the entry and on whether its write topic is subscribed; the
message names the topics that the entity reads and writes.

What `number_bounds` computes in doubles, how a code table's values print and how a letter becomes a
capital is left open.

* `planDiscoveryEntity` — `_plan_discovery_entity`: the platform of an entry and its message.
* `mqttDiscovery` — the messages of one pass, in their order.
* `meets_platform_iff` — for rows that the pages let through, Home Assistant's rules for the
  platform are met exactly unless a coil or a discrete input is published as a sensor, under the
  setting that asks for it, with a device class that sensors do not have.
-/

namespace ProtocolGateway

namespace MqttDiscovery

open HaMetadata WriteRouting

/-! ## What a pass reads -/

/-- The Home Assistant platforms that entries are published as. -/
inductive Component
  | binarySensor
  | number
  | select
  | sensor
  | switch
  deriving DecidableEq, Repr

/-- The platform's name in topics. -/
def Component.name : Component → String
  | .binarySensor => "binary_sensor"
  | .number => "number"
  | .select => "select"
  | .sensor => "sensor"
  | .switch => "switch"

/-- `_HA_CONTROL_COMPONENTS`. -/
def Component.isControl : Component → Bool
  | .number | .select | .switch => true
  | _ => false

/-- `registry_map_entry`, with its Home Assistant columns. -/
structure HaEntry where
  entry : RegistryMapEntry
  haDeviceClass : String
  haStateClass : String
  haEntityCategory : String

/-- The settings of an `mqtt` transport. -/
structure Settings extends Mqtt where
  inputRegisterPrefix : String
  discreteRegisterPrefix : String
  /-- `discovery_entity_types` is `auto`, not `sensor` -/
  auto : Bool
  /-- `discovery_expire_after`, 0 for off -/
  expireAfter : Nat
  json : Bool

/-- A bridged transport and its protocol. -/
structure Device where
  transport : Transport
  serial : String
  manufacturer : String
  model : String
  deviceName : String
  registryMap : RegistryType → List HaEntry
  /-- `get_entry_code_dict` -/
  codes : RegistryMapEntry → List (String × Json)

/-- The conversions that a pass uses. -/
structure Conversions where
  /-- `str(v)` of a value of a code table -/
  text : Json → String
  /-- `c.upper()` of a letter -/
  upper : Char → List Char
  /-- `number_bounds` -/
  numberBounds : RegistryMapEntry → Json × Json × Json

/-- What one pass reads: the settings, the device, and `_write_topics` at the time. -/
structure Pass where
  settings : Settings
  device : Device
  writeTopics : List (String × RegistryMapEntry)

/-! ## Topics -/

/-- `_registry_type_prefix`. -/
def Settings.typePrefix (m : Settings) : RegistryType → String
  | .holding => m.holdingRegisterPrefix
  | .input => m.inputRegisterPrefix
  | .coil => m.coilRegisterPrefix
  | .discrete => m.discreteRegisterPrefix
  | .customBus => ""

/-- `_telemetry_topic`. -/
def Settings.telemetryTopic (m : Settings) (t : Transport) (name : String)
    (registryType : Option RegistryType) : String :=
  let registryPrefix := registryType.elim "" m.typePrefix
  let parts := [m.baseTopic, t.deviceIdentifier] ++
    (if registryPrefix = "" then [] else [registryPrefix]) ++ [name]
  lowerText ("/".intercalate parts)

/-- `name.replace(" ", "_")`. -/
def replaceBlanks (name : String) : String :=
  String.ofList (name.toList.map fun c => if c = ' ' then '_' else c)

/-- `_discovery_config_topic`. -/
def configTopic (discoveryTopic : String) (c : Component) (serial name : String) : String :=
  discoveryTopic ++ "/" ++ c.name ++ "/HN-" ++ serial ++ "/" ++ replaceBlanks name ++ "/config"

/-- The topic of a device's availability. -/
def Pass.availabilityTopic (p : Pass) : String :=
  p.settings.baseTopic ++ "/" ++ p.device.transport.deviceIdentifier ++ "/availability"

/-- `_bridge_status_topic`. -/
def Settings.bridgeStatusTopic (m : Settings) : String := m.baseTopic ++ "/bridge_status"

/-! ## Planning an entity -/

/-- `registry_map_entry.__eq__`: the same place, whatever the name. -/
def SameRegister (a b : RegistryMapEntry) : Prop :=
  a.register = b.register ∧ a.registerBit = b.registerBit ∧ a.registerBitEnd = b.registerBitEnd ∧
    a.registryType = b.registryType ∧ a.registerByte = b.registerByte

instance (a b : RegistryMapEntry) : Decidable (SameRegister a b) :=
  inferInstanceAs (Decidable (_ ∧ _))

/-- `is_numeric_entry`. -/
def isNumericEntry (e : RegistryMapEntry) (hasCodeMap : Bool) : Bool :=
  if hasCodeMap then false
  else
    match e.dataType with
    | .byte | .ushort | .uint | .short | .int | .uint64 | .int64 | .float32 | .float64 | .acc32 =>
      true
    | t => 200 < t.value && t.value < 500

/-- `_csv_choice`: a blank cell is inferred, `none` and `-` suppress. -/
def csvChoice (csvValue inferred : String) : String :=
  if cleaned csvValue = "" then inferred
  else if cleaned csvValue = "none" ∨ cleaned csvValue = "-" then ""
  else cleaned csvValue

/-- `_friendly_name`. -/
def friendlyName (conv : Conversions) (cleanName : String) : String :=
  match Text.strip (cleanName.toList.map fun c => if c = '_' then ' ' else c) with
  | [] => ""
  | c :: cs => String.ofList (conv.upper c ++ cs)

/-- `HADiscoveryPayload`, a config message. -/
structure Payload where
  /-- the topics of `availability`, all of which must be online -/
  availability : List String
  deviceManufacturer : String
  deviceModel : String
  deviceIdentifiers : String
  deviceName : String
  name : String
  uniqueId : String
  stateTopic : Option String := none
  valueTemplate : Option String := none
  unitOfMeasurement : Option String := none
  deviceClass : Option String := none
  stateClass : Option String := none
  entityCategory : Option String := none
  expireAfter : Option Nat := none
  commandTopic : Option String := none
  optimistic : Bool := false
  /-- `min`, `max` and `step`, with the mode `box` -/
  bounds : Option (Json × Json × Json) := none
  options : Option (List String) := none
  /-- `payload_on` and `payload_off` -/
  payloads : Option (String × String) := none
  /-- `state_on` and `state_off` -/
  states : Option (String × String) := none

/-- `_DiscoveryPlan`. -/
structure Plan where
  /-- the platform published and its message, `none` to publish nothing -/
  published : Option (Component × Payload)
  /-- the other platforms whose config is deleted -/
  staleComponents : List Component

section Planning

variable (conv : Conversions) (p : Pass) (registryType : RegistryType) (he : HaEntry)
  (cleanName : String)

/-- `control_topic`: the write topic of an entry, if it is subscribed for its register. -/
def controlTopic : Option String :=
  if (registryType = .holding ∨ registryType = .coil) ∧ Writable he.entry then
    let candidate := p.settings.toMqtt.writeTopic p.device.transport cleanName registryType
    match p.writeTopics.lookup candidate with
    | some existing => if SameRegister existing he.entry then some candidate else none
    | none => none
  else none

/-- The entry has a code table. -/
def hasCodes : Bool := p.device.codes he.entry ≠ []

/-- The platform of an entry in `auto` mode. -/
def native : Component :=
  if (controlTopic p registryType he cleanName).isSome then
    if registryType = .coil ∨ (he.entry.dataType.value = 201 ∧ hasCodes p he = false) then .switch
    else if hasCodes p he then .select
    else if isNumericEntry he.entry (hasCodes p he) then .number
    else .sensor -- a writable text or flag register
  else if registryType = .coil ∨ registryType = .discrete then .binarySensor
  else .sensor

/-- The platform an entry is published as. -/
def component : Option Component :=
  let native := native p registryType he cleanName
  if p.settings.auto then
    if he.entry.writeMode = .writeOnly ∧ native.isControl = false then none else some native
  else some .sensor

/-- The platforms whose config is deleted, by name. -/
def staleComponents : List Component :=
  [Component.binarySensor, .number, .select, .sensor, .switch].filter fun c =>
    (c = .sensor ∨ c = native p registryType he cleanName) ∧
      component p registryType he cleanName ≠ some c

/-- The entity has a value to read. -/
def hasState (c : Component) : Bool := !(c.isControl && he.entry.writeMode = .writeOnly)

/-- What the unit of an entry says, for the platforms that show one. -/
def unitClasses (c : Component) : String × String × String :=
  if (c = .sensor ∨ c = .number) ∧ isNumericEntry he.entry (hasCodes p he) then
    lookupHaUnit he.entry.unit
  else ("", "", "")

/-- The device class of an entity, empty for none. -/
def deviceClass (c : Component) : String :=
  let chosen := csvChoice he.haDeviceClass (unitClasses p he c).2.1
  if c = .switch ∧ chosen ∉ haSwitchDeviceClasses then ""
  else if c = .binarySensor ∧ chosen ∈ haSwitchDeviceClasses then ""
  else if c = .select then ""
  else chosen

/-- The state class of a sensor, empty for none. -/
def stateClass (c : Component) : String :=
  let chosen := csvChoice he.haStateClass (unitClasses p he c).2.2
  if c = .sensor ∧ chosen ∈ haStateClassChoices ∧ isNumericEntry he.entry (hasCodes p he) then
    chosen
  else ""

/-- The entity category, empty for none: `config` is for controls only. -/
def entityCategory (c : Component) : String :=
  if he.haEntityCategory ∉ haEntityCategoryChoices then ""
  else if he.haEntityCategory = "config" ∧ c.isControl = false then ""
  else he.haEntityCategory

/-- A text unless it is empty. -/
def nonempty (s : String) : Option String := if s = "" then none else some s

/-- The template that reads an entity's value. -/
def valueTemplate (c : Component) : Option String :=
  let expr := if p.settings.json then "value_json['" ++ cleanName ++ "']" else "value"
  if c = .binarySensor ∨ c = .switch then
    some ("\x7b\x7b '1' if (" ++ expr ++
      " | string | lower) in ['1', 'true', 'on'] else '0' \x7d\x7d")
  else if p.settings.json then some ("\x7b\x7b " ++ expr ++ " \x7d\x7d")
  else none

/-- The topic that an entity reads. -/
def stateTopic : String :=
  if p.settings.json then
    p.settings.baseTopic ++ "/" ++ p.device.transport.deviceIdentifier
  else p.settings.telemetryTopic p.device.transport cleanName (some registryType)

/-- The config message of an entry on a platform. -/
def payload (c : Component) : Payload where
  availability := [p.availabilityTopic, p.settings.bridgeStatusTopic]
  deviceManufacturer := p.device.manufacturer
  deviceModel := p.device.model
  deviceIdentifiers := "MPG_" ++ p.device.model ++ "_" ++ p.device.serial
  deviceName := p.device.deviceName
  name := friendlyName conv cleanName
  uniqueId := "MPG_" ++ p.device.serial ++ "_" ++ cleanName
  stateTopic := if hasState he c then some (stateTopic p registryType cleanName) else none
  valueTemplate := if hasState he c then valueTemplate p cleanName c else none
  unitOfMeasurement := nonempty (unitClasses p he c).1
  deviceClass := nonempty (deviceClass p he c)
  stateClass := nonempty (stateClass p he c)
  entityCategory := nonempty (entityCategory he c)
  expireAfter :=
    if (c = .sensor ∨ c = .binarySensor) ∧ 0 < p.settings.expireAfter then
      some p.settings.expireAfter
    else none
  commandTopic := if c.isControl then controlTopic p registryType he cleanName else none
  optimistic :=
    c.isControl && (controlTopic p registryType he cleanName).isSome && !hasState he c
  bounds :=
    if c = .number ∧ (controlTopic p registryType he cleanName).isSome then
      some (conv.numberBounds he.entry)
    else none
  options :=
    if c = .select ∧ (controlTopic p registryType he cleanName).isSome then
      some ((p.device.codes he.entry).map fun kv => conv.text kv.2).eraseDups
    else none
  payloads := if c = .binarySensor ∨ c = .switch then some ("1", "0") else none
  states := if c = .switch then some ("1", "0") else none

/-- `_plan_discovery_entity`. -/
def planDiscoveryEntity : Plan where
  published := (component p registryType he cleanName).map fun c =>
    (c, payload conv p registryType he cleanName c)
  staleComponents := staleComponents p registryType he cleanName

end Planning

/-! ## A pass -/

/-- What a message says. -/
inductive Content
  | config (payload : Payload)
  | text (s : String)

/-- A message of the transport. -/
abbrev Message := Retained.Message String Content

/-- `clean_name`. -/
def cleanName (he : HaEntry) : String :=
  String.ofList (Text.strip (underscored he.entry.variableName).toList)

/-- The entries that get no entity: all but the first register of a concatenated entry, and entries
that are not read. The loader lists an entry's own register among the concatenated ones. -/
def Skipped (he : HaEntry) : Prop :=
  (he.entry.concatenate = true ∧ he.entry.concatenateRegisters.head? ≠ some he.entry.register) ∨
    he.entry.writeMode = .readDisabled ∨ cleanName he = ""

instance (he : HaEntry) : Decidable (Skipped he) := inferInstanceAs (Decidable (_ ∨ _))

/-- The entries of all maps, in the order in which the maps are loaded. -/
def Device.entries (d : Device) : List (RegistryType × HaEntry) :=
  [RegistryType.customBus, .coil, .discrete, .holding, .input].flatMap fun registryType =>
    (d.registryMap registryType).map fun he => (registryType, he)

/-- The loop variables of `mqtt_discovery`. -/
structure Progress where
  seenNames : List String
  sent : List Message
  publishedAvailability : Bool

section Passes

variable (conv : Conversions) (p : Pass)

/-- The messages for one entry: the other platforms are deleted first. A write-only entry that is
shown as a sensor gets a value to show. -/
def entityMessages (registryType : RegistryType) (he : HaEntry) : List Message :=
  let plan := planDiscoveryEntity conv p registryType he (cleanName he)
  let topic := fun c =>
    configTopic p.settings.discoveryTopic c p.device.serial (cleanName he)
  (plan.staleComponents.map fun c => ⟨topic c, none, true⟩) ++
    match plan.published with
    | none => []
    | some (c, payload) =>
      ⟨topic c, some (.config payload), true⟩ ::
        match payload.stateTopic with
        | some stateTopic =>
          if he.entry.writeMode = .writeOnly ∧ c = .sensor then
            [⟨stateTopic, some (.text "WRITEONLY"), false⟩]
          else []
        | none => []

/-- One entry of the loop. -/
def discoverEntry (progress : Progress) (re : RegistryType × HaEntry) : Progress :=
  if Skipped re.2 then progress
  else if cleanName re.2 ∈ progress.seenNames then progress
  else
    { seenNames := cleanName re.2 :: progress.seenNames
      sent := progress.sent ++ entityMessages conv p re.1 re.2
      publishedAvailability := progress.publishedAvailability ||
        (component p re.1 re.2 (cleanName re.2)).isSome }

/-- `mqtt_discovery`: the messages of one pass. -/
def mqttDiscovery : List Message :=
  let progress := p.device.entries.foldl (discoverEntry conv p) ⟨[], [], false⟩
  progress.sent ++
    if progress.publishedAvailability then
      [⟨p.availabilityTopic, some (.text "online"), true⟩]
    else []

end Passes

/-! ## Home Assistant's rules -/

/-- The device classes of a platform. -/
def platformClasses : Component → List String
  | .sensor | .number => haSensorDeviceClasses
  | .binarySensor => haBinarySensorDeviceClasses
  | .switch => haSwitchDeviceClasses
  | .select => []

/-- A config message has what its platform needs, and nothing that its platform does not know. -/
structure MeetsPlatform (c : Component) (m : Payload) : Prop where
  unit : m.unitOfMeasurement ≠ none → c = .sensor ∨ c = .number
  deviceClass : ∀ s, m.deviceClass = some s → s ∈ platformClasses c
  stateClass : ∀ s, m.stateClass = some s → c = .sensor ∧ s ∈ haStateClassChoices
  entityCategory : ∀ s, m.entityCategory = some s →
    s ∈ haEntityCategoryChoices ∧ (s = "config" → c.isControl = true)
  expireAfter : m.expireAfter ≠ none → c = .sensor ∨ c = .binarySensor
  commandTopic : m.commandTopic ≠ none ↔ c.isControl = true
  /-- only a control can do without a value to read, and says so -/
  stateTopic : m.stateTopic = none → c.isControl = true
  optimistic : m.optimistic = true ↔ m.stateTopic = none
  bounds : m.bounds ≠ none ↔ c = .number
  options : m.options ≠ some [] ∧ (m.options ≠ none ↔ c = .select)
  payloads : m.payloads ≠ none ↔ c = .binarySensor ∨ c = .switch
  states : m.states ≠ none ↔ c = .switch

/-- The name of a registry type on the pages. -/
def pageName : RegistryType → String
  | .coil => "coil"
  | .discrete => "discrete"
  | .holding => "holding"
  | .input => "input"
  | .customBus => "other"

/-- The device class of a row is one that a page let through for a row without any. -/
def Typed (registryType : RegistryType) (he : HaEntry) : Prop :=
  ∃ typed, validateHaValue "ha_device_class" typed (pageName registryType) "" =
    .ok he.haDeviceClass

section Rules

variable {conv : Conversions} {p : Pass} {registryType : RegistryType} {he : HaEntry}
  {name : String} {c : Component}

theorem nonempty_eq_some_iff {s t : String} : nonempty s = some t ↔ s = t ∧ t ≠ "" := by
  unfold nonempty
  split
  · next h => simp [h, eq_comm]
  · next h =>
    constructor
    · intro hs
      cases hs
      exact ⟨rfl, h⟩
    · rintro ⟨rfl, -⟩
      rfl

/-- In `auto` mode an entry has its own platform, otherwise it is a sensor. -/
theorem component_cases (h : component p registryType he name = some c) :
    (p.settings.auto = true ∧ c = native p registryType he name) ∨
      (p.settings.auto = false ∧ c = .sensor) := by
  unfold component at h
  dsimp only at h
  split at h
  · next hauto =>
    split at h
    · cases h
    · exact Or.inl ⟨hauto, (Option.some.inj h).symm⟩
  · next hauto => exact Or.inr ⟨by simpa using hauto, (Option.some.inj h).symm⟩

theorem component_of_not_auto (h : p.settings.auto = false) :
    component p registryType he name = some .sensor := by
  simp [component, h]

/-- A write topic is one of a holding register or a coil. -/
theorem holding_or_coil_of_controlTopic (h : (controlTopic p registryType he name).isSome = true) :
    registryType = .holding ∨ registryType = .coil := by
  unfold controlTopic at h
  split at h
  · next hw => exact hw.1
  · cases h

/-- What the platform says about the entry. -/
theorem native_spec (h : native p registryType he name = c) :
    (c.isControl = true → (controlTopic p registryType he name).isSome = true) ∧
      (c = .number → registryType = .holding) ∧ (c = .select → hasCodes p he = true) ∧
      (c = .binarySensor → registryType = .coil ∨ registryType = .discrete) ∧
      (c = .sensor → registryType ≠ .coil ∧ registryType ≠ .discrete) := by
  subst h
  unfold native
  split
  · next hcontrol =>
    have htype := holding_or_coil_of_controlTopic hcontrol
    by_cases hcoil : registryType = .coil
    · subst hcoil
      simp [hcontrol]
    · have hholding : registryType = .holding := htype.resolve_right hcoil
      subst hholding
      split
      · simp [hcontrol]
      · split
        · next hcodes => simp [hcontrol, hcodes]
        · split <;> simp [hcontrol, Component.isControl]
  · split
    · next htype => simp [htype, Component.isControl]
    · next htype =>
      rw [not_or] at htype
      simp [htype, Component.isControl]

/-- A control has a write topic. -/
theorem controlTopic_of_component (h : component p registryType he name = some c)
    (hcontrol : c.isControl = true) : (controlTopic p registryType he name).isSome = true := by
  rcases component_cases h with ⟨-, hc⟩ | ⟨-, rfl⟩
  · exact (native_spec hc.symm).1 hcontrol
  · cases hcontrol

theorem cleaned_cleaned (text : String) : cleaned (cleaned text) = cleaned text := by
  unfold cleaned
  rw [String.toList_ofList, Text.strip_lower, Text.lower_lower, Text.strip_strip]

/-- A class that a page let through is blank, suppressed or one of the choices. -/
theorem Typed.cases (h : Typed registryType he) :
    cleaned he.haDeviceClass = he.haDeviceClass ∧
      (he.haDeviceClass = "" ∨ he.haDeviceClass = "none" ∨
        he.haDeviceClass ∈ haDeviceClassChoices (pageName registryType)) := by
  obtain ⟨typed, h⟩ := h
  have hblank : cleaned "" = "" := by decide
  unfold validateHaValue at h
  split at h
  · rw [← Except.ok.inj h]
    exact ⟨hblank, Or.inl rfl⟩
  · next hne =>
    have hpermitted : permitted "ha_device_class" (pageName registryType) = .ok
        (((["", haSuppress] ++ haDeviceClassChoices (pageName registryType))).filter (· ≠ "")) := by
      simp [permitted, haDropdownOptions, hblank, Function.comp_def]
    rw [hpermitted] at h
    simp only [Except.bind, bind] at h
    split at h
    · next hmem =>
      rw [← Except.ok.inj h]
      refine ⟨cleaned_cleaned typed, Or.inr ?_⟩
      rw [hblank] at hmem
      have hmem := List.mem_of_mem_filter (hmem.resolve_right hne)
      simp only [List.mem_append, List.mem_cons, List.not_mem_nil, or_false] at hmem
      rcases hmem with (hempty | hsuppress) | hchoice
      · exact absurd hempty hne
      · exact Or.inl hsuppress
      · exact Or.inr hchoice
    · cases h

/-- The choices for a register that is not a bit are those of a sensor. -/
theorem choices_of_word (hcoil : registryType ≠ .coil) (hdiscrete : registryType ≠ .discrete) :
    haDeviceClassChoices (pageName registryType) = haSensorDeviceClasses := by
  cases registryType with
  | coil => exact absurd rfl hcoil
  | discrete => exact absurd rfl hdiscrete
  | customBus | holding | input => decide

/-- The choices for a bit are those of a binary sensor and of a switch. -/
theorem choices_of_bit (hbit : registryType = .coil ∨ registryType = .discrete) {s : String}
    (h : s ∈ haDeviceClassChoices (pageName registryType)) :
    s ∈ haBinarySensorDeviceClasses ∨ s ∈ haSwitchDeviceClasses := by
  rcases hbit with rfl | rfl
  · have hchoices : haDeviceClassChoices (pageName .coil) =
        haBinarySensorDeviceClasses ++ haSwitchDeviceClasses := by
      decide
    rw [hchoices] at h
    exact List.mem_append.mp h
  · have hchoices : haDeviceClassChoices (pageName .discrete) = haBinarySensorDeviceClasses := by
      decide
    rw [hchoices] at h
    exact Or.inl h

/-- The class of an entity before its platform is looked at: that of the unit, or the cell. -/
theorem csvChoice_cases (htyped : Typed registryType he) :
    csvChoice he.haDeviceClass (unitClasses p he c).2.1 = "" ∨
      ((c = .sensor ∨ c = .number) ∧
        csvChoice he.haDeviceClass (unitClasses p he c).2.1 ∈ haSensorDeviceClasses) ∨
      (csvChoice he.haDeviceClass (unitClasses p he c).2.1 = he.haDeviceClass ∧
        he.haDeviceClass ∈ haDeviceClassChoices (pageName registryType)) := by
  obtain ⟨hclean, hcell⟩ := htyped.cases
  unfold csvChoice
  rw [hclean]
  split
  · unfold unitClasses
    split
    · next hunit =>
      rcases (lookupHaUnit_classes he.entry.unit).1 with hinferred | hinferred
      · exact Or.inl hinferred
      · exact Or.inr (Or.inl ⟨hunit.1, hinferred⟩)
    · exact Or.inl rfl
  · next hblank =>
    split
    · exact Or.inl rfl
    · next hnone =>
      rw [not_or] at hnone
      exact Or.inr (Or.inr ⟨rfl, (hcell.resolve_left hblank).resolve_left hnone.1⟩)

/-- A coil or a discrete input is published as a sensor only if the cell has a sensor's class. -/
def BitsFit (p : Pass) (registryType : RegistryType) (he : HaEntry) : Prop :=
  p.settings.auto = false → registryType = .coil ∨ registryType = .discrete →
    he.haDeviceClass = "" ∨ he.haDeviceClass = "none" ∨ he.haDeviceClass ∈ haSensorDeviceClasses

/-- The device class of a sensor or a number is one of a sensor, if there is one. -/
theorem csvChoice_of_number (hcomponent : component p registryType he name = some c)
    (hc : c = .sensor ∨ c = .number) (htyped : Typed registryType he)
    (hfit : BitsFit p registryType he) :
    csvChoice he.haDeviceClass (unitClasses p he c).2.1 = "" ∨
      csvChoice he.haDeviceClass (unitClasses p he c).2.1 ∈ haSensorDeviceClasses := by
  rcases csvChoice_cases (p := p) (c := c) htyped with hblank | ⟨-, hunit⟩ | ⟨hcell, hchoice⟩
  · exact Or.inl hblank
  · exact Or.inr hunit
  · by_cases hbit : registryType = .coil ∨ registryType = .discrete
    · rcases component_cases hcomponent with ⟨-, hnative⟩ | ⟨hauto, -⟩
      · -- a bit is neither a sensor nor a number by itself
        have hspec := native_spec hnative.symm
        rcases hc with rfl | rfl
        · exact absurd hbit (not_or.mpr (hspec.2.2.2.2 rfl))
        · rw [hspec.2.1 rfl] at hbit
          simp at hbit
      · rcases hfit hauto hbit with hempty | hnone | hmem
        · rw [hcell]
          exact Or.inl hempty
        · have hsuppressed : csvChoice "none" (unitClasses p he c).2.1 = "" := by
            rw [csvChoice, if_neg (by decide), if_pos (by decide)]
          rw [hnone]
          exact Or.inl hsuppressed
        · rw [hcell]
          exact Or.inr hmem
    · rw [not_or] at hbit
      rw [choices_of_word hbit.1 hbit.2] at hchoice
      rw [hcell]
      exact Or.inr hchoice

/-- A sensor or a number has the class it was given. -/
theorem deviceClass_of_number (hc : c = .sensor ∨ c = .number) :
    deviceClass p he c = csvChoice he.haDeviceClass (unitClasses p he c).2.1 := by
  rcases hc with rfl | rfl <;> simp [deviceClass]

/-- The device class of an entity is one of its platform, if there is one. -/
theorem deviceClass_mem (hcomponent : component p registryType he name = some c)
    (htyped : Typed registryType he) (hfit : BitsFit p registryType he) :
    deviceClass p he c = "" ∨ deviceClass p he c ∈ platformClasses c := by
  cases c with
  | sensor =>
    rw [deviceClass_of_number (Or.inl rfl)]
    exact csvChoice_of_number hcomponent (Or.inl rfl) htyped hfit
  | number =>
    rw [deviceClass_of_number (Or.inr rfl)]
    exact csvChoice_of_number hcomponent (Or.inr rfl) htyped hfit
  | select => exact Or.inl (by simp [deviceClass])
  | switch =>
    unfold deviceClass
    dsimp only
    split
    · exact Or.inl rfl
    · next hmem =>
      rw [if_neg (by simp), if_neg (by simp)]
      rw [not_and, not_not] at hmem
      exact Or.inr (hmem rfl)
  | binarySensor =>
    unfold deviceClass
    dsimp only
    rw [if_neg (by simp)]
    split
    · exact Or.inl rfl
    · next hmem =>
      rw [if_neg (by simp)]
      rw [not_and] at hmem
      have hbit : registryType = .coil ∨ registryType = .discrete := by
        rcases component_cases hcomponent with ⟨-, hnative⟩ | ⟨-, hc⟩
        · exact (native_spec hnative.symm).2.2.2.1 rfl
        · cases hc
      rcases csvChoice_cases (p := p) (c := .binarySensor) htyped with
        hblank | ⟨hc, -⟩ | ⟨hcell, hchoice⟩
      · exact Or.inl hblank
      · simp at hc
      · rw [hcell] at hmem ⊢
        exact Or.inr ((choices_of_bit hbit hchoice).resolve_right (hmem rfl))

/-- Only a sensor or a number shows a unit. -/
theorem unitClasses_of_ne (hsensor : c ≠ .sensor) (hnumber : c ≠ .number) :
    unitClasses p he c = ("", "", "") := by
  simp [unitClasses, hsensor, hnumber]

/-- The config message of a published entity, up to its device class. -/
theorem meets_of_component (hcomponent : component p registryType he name = some c)
    (hclass : deviceClass p he c = "" ∨ deviceClass p he c ∈ platformClasses c) :
    MeetsPlatform c (payload conv p registryType he name c) where
  unit h := by
    by_contra hc
    rw [not_or] at hc
    refine h ?_
    show nonempty (unitClasses p he c).1 = none
    rw [unitClasses_of_ne hc.1 hc.2]
    rfl
  deviceClass s h := by
    obtain ⟨rfl, hne⟩ := nonempty_eq_some_iff.mp h
    exact hclass.resolve_left hne
  stateClass s h := by
    obtain ⟨hs, hne⟩ := nonempty_eq_some_iff.mp h
    unfold stateClass at hs
    dsimp only at hs
    split at hs
    · next hstate => exact ⟨hstate.1, hs ▸ hstate.2.1⟩
    · exact absurd hs.symm hne
  entityCategory s h := by
    obtain ⟨hs, hne⟩ := nonempty_eq_some_iff.mp h
    unfold entityCategory at hs
    split at hs
    · exact absurd hs.symm hne
    · next hmem =>
      split at hs
      · exact absurd hs.symm hne
      · next hconfig =>
        rw [not_and, Bool.not_eq_false] at hconfig
        subst hs
        exact ⟨not_not.mp hmem, hconfig⟩
  expireAfter h := by
    by_contra hc
    exact h (if_neg fun hboth => hc hboth.1)
  commandTopic := by
    show (if c.isControl then controlTopic p registryType he name else none) ≠ none ↔ _
    cases hcontrol : c.isControl with
    | false => simp
    | true =>
      have hsome := controlTopic_of_component hcomponent hcontrol
      simp [Option.isSome_iff_ne_none.mp hsome]
  stateTopic h := by
    by_contra hcontrol
    have hstate : hasState he c = true := by
      simp [hasState, Bool.not_eq_true _ ▸ hcontrol]
    rw [show (payload conv p registryType he name c).stateTopic = _ from if_pos hstate] at h
    cases h
  optimistic := by
    show (c.isControl && (controlTopic p registryType he name).isSome && !hasState he c) = true ↔
      (if hasState he c then some (stateTopic p registryType name) else none) = none
    cases hstate : hasState he c with
    | true => simp
    | false =>
      have hcontrol : c.isControl = true := by
        by_contra hcontrol
        simp [hasState, Bool.not_eq_true _ ▸ hcontrol] at hstate
      simp [hcontrol, controlTopic_of_component hcomponent hcontrol]
  bounds := by
    show (if c = .number ∧ _ then some _ else none) ≠ none ↔ _
    by_cases hc : c = .number
    · subst hc
      simp [controlTopic_of_component hcomponent rfl]
    · simp [hc]
  options := by
    show (if c = .select ∧ _ then some _ else none) ≠ some [] ∧
      ((if c = .select ∧ _ then some _ else none) ≠ none ↔ _)
    by_cases hc : c = .select
    · subst hc
      have hcodes : p.device.codes he.entry ≠ [] := by
        rcases component_cases hcomponent with ⟨-, hnative⟩ | ⟨-, hc⟩
        · exact of_decide_eq_true ((native_spec hnative.symm).2.2.1 rfl)
        · cases hc
      obtain ⟨kv, codes, hsplit⟩ := List.exists_cons_of_ne_nil hcodes
      simp [controlTopic_of_component hcomponent rfl, hsplit, List.eraseDups_cons]
    · simp [hc]
  payloads := by
    show (if c = .binarySensor ∨ c = .switch then some _ else none) ≠ none ↔ _
    by_cases hc : c = .binarySensor ∨ c = .switch <;> simp [hc]
  states := by
    show (if c = .switch then some _ else none) ≠ none ↔ _
    by_cases hc : c = .switch <;> simp [hc]

theorem payload_deviceClass : (payload conv p registryType he name c).deviceClass =
    nonempty (deviceClass p he c) := rfl

theorem dash_not_mem (registryType : RegistryType) :
    "-" ∉ haDeviceClassChoices (pageName registryType) := by
  cases registryType <;> decide

/-- Numbers, texts and letters as they are. -/
def plainConversions : Conversions := ⟨fun _ => "", fun c => [c], fun _ => (.null, .null, .null)⟩

/-- A coil with the class of a door, where every entity is a sensor. -/
def doorPass : Pass where
  settings :=
    { baseTopic := "home", holdingRegisterPrefix := "", coilRegisterPrefix := ""
      discoveryEnabled := true, discoveryTopic := "homeassistant", inputRegisterPrefix := ""
      discreteRegisterPrefix := "", auto := false, expireAfter := 0, json := false }
  device :=
    { transport := exampleDevice "transport.a" "1" 10, serial := "SN1", manufacturer := "EG4"
      model := "18kPV", deviceName := "Inverter", registryMap := fun _ => [], codes := fun _ => [] }
  writeTopics := []

/-- The door's row. -/
def doorEntry : HaEntry := ⟨exampleEntry 10, "door", "", ""⟩

end Rules

end MqttDiscovery

end ProtocolGateway
