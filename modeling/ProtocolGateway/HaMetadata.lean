import ProtocolGateway.Text

/-!
# Home Assistant metadata

`ha_metadata.py`: what a unit says about a metric, and the values that the three Home Assistant
columns of a register map may have. Units come from a file that is read as latin-1, so a unit
outside ASCII is repaired before it is looked up.

* `lookupHaUnit` — `lookup_ha_unit`.
* `validateHaValue` — `validate_ha_value`, with the choices that the pages offer.
-/

namespace ProtocolGateway

namespace HaMetadata

/-! ## Units -/

/-- `HA_UNIT_TABLE`: a normalized unit, and the unit, device class and state class it stands for. -/
def haUnitTable : List (String × String × String × String) :=
  [("v", "V", "voltage", "measurement"), ("mv", "mV", "voltage", "measurement"),
    ("a", "A", "current", "measurement"), ("ma", "mA", "current", "measurement"),
    ("w", "W", "power", "measurement"), ("kw", "kW", "power", "measurement"),
    ("va", "VA", "apparent_power", "measurement"), ("var", "var", "reactive_power", "measurement"),
    ("kvar", "kvar", "", "measurement"), ("wh", "Wh", "energy", "total_increasing"),
    ("kwh", "kWh", "energy", "total_increasing"), ("mwh", "MWh", "energy", "total_increasing"),
    ("hz", "Hz", "frequency", "measurement"), ("c", "°C", "temperature", "measurement"),
    ("°c", "°C", "temperature", "measurement"), ("℃", "°C", "temperature", "measurement"),
    ("celsius", "°C", "temperature", "measurement"), ("ah", "Ah", "", "measurement"),
    ("mah", "mAh", "", "measurement"), ("%", "%", "", "measurement"), ("ms", "ms", "duration", ""),
    ("s", "s", "duration", ""), ("min", "min", "duration", ""), ("h", "h", "duration", ""),
    ("hour", "h", "duration", ""), ("hours", "h", "duration", "")]

/-- `text.encode("latin-1").decode("utf-8")`, `none` for either exception. -/
def recode (text : List Char) : Option String :=
  if text.all fun c => c.toNat < 256 then
    String.fromUTF8? ⟨(text.map fun c => c.toNat.toUInt8).toArray⟩
  else none

/-- `repair_mojibake`. -/
def repairMojibake (text : String) : String :=
  if 'Â' ∈ text.toList ∨ 'Ã' ∈ text.toList then (recode text.toList).getD text else text

/-- `c.lower()`, as far as the table has the letter: the Kelvin sign is the only letter beyond
latin-1 that becomes one of the table's. -/
def lowerUnitChar (c : Char) : Char := if c = '\u212a' then 'k' else Text.lowerChar c

/-- `re.sub(r"\s+", "", unit).lower()`. -/
def normalizeUnit (unit : String) : String :=
  String.ofList ((unit.toList.filter fun c => !Text.isSpace c).map lowerUnitChar)

/-- `lookup_ha_unit`: the unit, the device class and the state class. -/
def lookupHaUnit (rawUnit : String) : String × String × String :=
  let unit := repairMojibake (String.ofList (Text.strip rawUnit.toList))
  if unit = "" then ("", "", "")
  else if unit = "S" then (unit, "", "")
  else (haUnitTable.lookup (normalizeUnit unit)).getD (unit, "", "")

/-! ## Permissible values -/

/-- `HA_COLUMN_LABELS`. -/
def haColumnLabels : List (String × String) :=
  [("ha_device_class", "HA Class"), ("ha_state_class", "HA State"),
    ("ha_entity_category", "HA Category")]

/-- `HA_SUPPRESS`. -/
def haSuppress : String := "none"

/-- `HA_STATE_CLASS_CHOICES`. -/
def haStateClassChoices : List String := ["measurement", "total", "total_increasing"]

/-- `HA_ENTITY_CATEGORY_CHOICES`. -/
def haEntityCategoryChoices : List String := ["diagnostic", "config"]

/-- `HA_SENSOR_DEVICE_CLASSES`. -/
def haSensorDeviceClasses : List String :=
  ["apparent_power", "battery", "current", "duration", "energy", "frequency", "humidity",
    "illuminance", "irradiance", "power", "power_factor", "pressure", "reactive_power",
    "signal_strength", "temperature", "voltage"]

/-- `HA_BINARY_SENSOR_DEVICE_CLASSES`. -/
def haBinarySensorDeviceClasses : List String :=
  ["battery", "battery_charging", "carbon_monoxide", "cold", "connectivity", "door", "garage_door",
    "gas", "heat", "light", "lock", "moisture", "motion", "moving", "occupancy", "opening", "plug",
    "power", "presence", "problem", "running", "safety", "smoke", "sound", "tamper", "update",
    "vibration", "window"]

/-- `HA_SWITCH_DEVICE_CLASSES`. -/
def haSwitchDeviceClasses : List String := ["outlet", "switch"]

/-- `text.strip().lower()`. -/
def cleaned (text : String) : String := String.ofList (Text.lower (Text.strip text.toList))

/-- `ha_device_class_choices`. -/
def haDeviceClassChoices (registryType : String) : List String :=
  if cleaned registryType = "discrete" then haBinarySensorDeviceClasses
  else if cleaned registryType = "coil" then haBinarySensorDeviceClasses ++ haSwitchDeviceClasses
  else haSensorDeviceClasses

/-- `ha_dropdown_options`: the values a page offers, with their labels. -/
def haDropdownOptions (column registryType current : String) :
    Except String (List (String × String)) := do
  let options ←
    if column = "ha_device_class" then
      .ok ([("", "auto (from unit)"), (haSuppress, "none (don't send)")] ++
        (haDeviceClassChoices registryType).map fun v => (v, v))
    else if column = "ha_state_class" then
      .ok ([("", "auto (from unit)"), (haSuppress, "none (don't send)")] ++
        haStateClassChoices.map fun v => (v, v))
    else if column = "ha_entity_category" then
      .ok ([("", "— (none)")] ++ haEntityCategoryChoices.map fun v => (v, v))
    else .error ("Unknown Home Assistant column: '" ++ column ++ "'")
  let stored := cleaned current
  return if stored ≠ "" ∧ stored ∉ options.map Prod.fst then
    options ++ [(stored, stored ++ " (custom)")] else options

/-- The values that a column accepts for a type of register, whatever the row holds. -/
def permitted (column registryType : String) : Except String (List String) := do
  return ((← haDropdownOptions column registryType "").map Prod.fst).filter (· ≠ "")

/-- `validate_ha_value`: the cleaned value, or the text of a `ValueError`. An empty text stands for
`None` too. -/
def validateHaValue (column value registryType current : String) : Except String String := do
  if cleaned value = "" then return ""
  let permitted ← permitted column registryType
  if cleaned value ∈ permitted ∨ cleaned value = cleaned current then return cleaned value
  throw ("'" ++ value ++ "' is not a valid " ++ (haColumnLabels.lookup column).getD column ++
    ". Choose one of: " ++ ", ".intercalate (permitted.mergeSort fun a b => decide (a ≤ b)) ++ ".")

/-! ## What the tables hold -/

/-- The classes that a unit implies are among the choices. -/
theorem lookupHaUnit_classes (rawUnit : String) :
    ((lookupHaUnit rawUnit).2.1 = "" ∨ (lookupHaUnit rawUnit).2.1 ∈ haSensorDeviceClasses) ∧
      ((lookupHaUnit rawUnit).2.2 = "" ∨ (lookupHaUnit rawUnit).2.2 ∈ haStateClassChoices) := by
  have htable : ∀ row ∈ haUnitTable, (row.2.2.1 = "" ∨ row.2.2.1 ∈ haSensorDeviceClasses) ∧
      (row.2.2.2 = "" ∨ row.2.2.2 ∈ haStateClassChoices) := by
    decide
  unfold lookupHaUnit
  dsimp only
  split
  · exact ⟨Or.inl rfl, Or.inl rfl⟩
  · split
    · exact ⟨Or.inl rfl, Or.inl rfl⟩
    · generalize repairMojibake _ = unit
      cases hrow : haUnitTable.lookup (normalizeUnit unit) with
      | none => exact ⟨Or.inl rfl, Or.inl rfl⟩
      | some found =>
        obtain ⟨before, after, hsplit, -⟩ := List.lookup_eq_some_iff.mp hrow
        exact htable (normalizeUnit unit, found) (by rw [hsplit]; simp)

end HaMetadata

end ProtocolGateway
