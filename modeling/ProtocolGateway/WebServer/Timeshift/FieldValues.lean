import ProtocolGateway.Values
import ProtocolGateway.Lib.Dict

/-!
# The field values of an import

A cell of a spreadsheet is normalized, may be coerced to the type its field has in the database, and
is checked against that type before it is stored.

* `normalizeValue`, `coerceToInfluxType`, `checkFieldType` — the three steps.
* `Conforms` — a value is one of the type the field has.
* `Blank` — a cell with nothing in it.
-/

namespace ProtocolGateway

namespace Timeshift

/-- The types that InfluxDB gives to fields, in the names of its version 1. -/
inductive FieldType
  | float
  | integer
  | string
  | boolean
  /-- any other name, such as `unsigned` -/
  | other (name : String)
  deriving DecidableEq

/-- A value other than `None`. An `object` is of a type that pandas brings along: a timestamp, or `NaT`. -/
inductive FieldValue (Ω : Type)
  | int (i : Int)
  | float (f : Float)
  | str (s : String)
  | bool (b : Bool)
  | object (o : Ω)

/-- The conversions of texts, floats and objects. -/
structure Conversions (Ω : Type) where
  /-- `int(text, 16)`, `none` for the `ValueError` -/
  intOfHex : List Char → Option Int
  /-- `int(text)`, `none` for the `ValueError` -/
  intOfText : List Char → Option Int
  /-- `float(text)`, `none` for the `ValueError` -/
  floatOfText : List Char → Option Float
  /-- `text.isdigit()` -/
  isDigit : List Char → Bool
  /-- `text.lower()` -/
  lower : String → String
  /-- `str(f)` -/
  floatText : Float → String
  /-- `round(f)` -/
  round : Float → Int
  /-- is the object `NaT`? -/
  isNaT : Ω → Bool
  /-- `str(o)` -/
  objectText : Ω → String
  /-- `float(o)` -/
  objectFloat : Ω → Except PyError Float
  /-- `int(o)` -/
  objectInt : Ω → Except PyError Int

variable {Ω : Type} (c : Conversions Ω)

/-! ## The three steps -/

/-- The part of `normalize_value` that is about texts. -/
def normalizeText (text : String) : Option (FieldValue Ω) :=
  let strVal := Text.strip text.toList
  let asText := FieldValue.str (String.ofList strVal)
  if strVal = [] then none
  else if ['0', 'x'] <+: strVal ∨ ['0', 'X'] <+: strVal then
    some (match c.intOfHex strVal with
      | some i => .int i
      | none => asText)
  else if strVal.getLast? = some '%' then
    some (match c.floatOfText strVal.dropLast with
      | some f => .float f
      | none => asText)
  else
    match if c.isDigit strVal then c.intOfText strVal else none with
    | some i => some (.int i)
    | none =>
      some (match c.floatOfText strVal with
        | some f => .float f
        | none => asText)

/-- `normalize_value`. -/
def normalizeValue : Option (FieldValue Ω) → Option (FieldValue Ω)
  | some (.float f) => if f.isNaN then none else some (.float f)
  | some (.str s) => normalizeText c s
  | raw => raw

/-- `float(value)`. -/
def toFloat : Option (FieldValue Ω) → Except PyError Float
  | none => .error .typeError
  | some (.int i) => (roundToDouble i).map Float.ofInt
  | some (.float f) => .ok f
  | some (.str s) =>
    match c.floatOfText s.toList with
    | some f => .ok f
    | none => .error .valueError
  | some (.bool b) => .ok (Float.ofNat b.toNat)
  | some (.object o) => c.objectFloat o

/-- `int(value)`. -/
def toInt : Option (FieldValue Ω) → Except PyError Int
  | none => .error .typeError
  | some (.int i) => .ok i
  | some (.float f) => truncate f
  | some (.str s) =>
    match c.intOfText s.toList with
    | some i => .ok i
    | none => .error .valueError
  | some (.bool b) => .ok b.toNat
  | some (.object o) => c.objectInt o

/-- `str(value)`. There is a limit to the digits of an integer. -/
def toText : Option (FieldValue Ω) → Except PyError String
  | none => .ok "None"
  | some (.int i) =>
    if Text.maxDecimalDigits < (toString i.natAbs).length then .error .valueError
    else .ok (toString i)
  | some (.float f) => .ok (c.floatText f)
  | some (.str s) => .ok s
  | some (.bool b) => .ok (if b then "True" else "False")
  | some (.object o) => .ok (c.objectText o)

/-- `except (ValueError, TypeError): pass`. -/
def caught {α : Type} (value : α) : Except PyError α → Except PyError α
  | .error .valueError | .error .typeError => .ok value
  | result => result

/-- The integer that a value is coerced to. A fraction is taken as a percentage. -/
def coerceToInteger (value : Option (FieldValue Ω)) : Except PyError Int :=
  match value with
  | some (.float f) => if 0 ≤ f ∧ f < 1 then .ok (c.round (f * 100)) else truncate f
  | _ => toInt c value

/-- The flag that a value is coerced to, if any. -/
def coerceToBoolean : Option (FieldValue Ω) → Option Bool
  | some (.bool b) => some b
  | some (.int i) => some (i ≠ 0)
  | some (.float f) => some (f != 0)
  | some (.str s) =>
    let v := String.ofList (Text.strip (c.lower s).toList)
    if v ∈ ["true", "1", "yes", "on"] then some true
    else if v ∈ ["false", "0", "no", "off"] then some false
    else none
  | _ => none

/-- `coerce_to_influx_type`, with the type that the field has. -/
def coerceToInfluxType (expected : Option FieldType) (value : Option (FieldValue Ω)) :
    Except PyError (Option (FieldValue Ω)) :=
  match expected with
  | some .string => caught value ((toText c value).map fun s => some (.str s))
  | some .float => caught value ((toFloat c value).map fun f => some (.float f))
  | some .integer => caught value ((coerceToInteger c value).map fun i => some (.int i))
  | some .boolean => .ok ((coerceToBoolean c value).elim value fun b => some (.bool b))
  | some (.other _) | none => .ok value

/-- `isinstance(value, (int, float))`; a flag is an `int`. -/
def FieldValue.isNumber : FieldValue Ω → Bool
  | .int _ | .float _ | .bool _ => true
  | .str _ | .object _ => false

/-- `check_field_type`, with the type that the field has. -/
def checkFieldType (expected : Option FieldType) (value : FieldValue Ω) : Bool :=
  match expected, value with
  | some .float, value => value.isNumber
  | some .integer, .int _ | some .integer, .bool _ => true
  | some .boolean, .bool _ | some .string, .str _ => true
  | some .integer, _ | some .boolean, _ | some .string, _ => false
  | some (.other _), _ | none, _ => true

/-! ## What they are for -/

/-- The type as which a value is written. -/
def FieldValue.fieldType : FieldValue Ω → Option FieldType
  | .int _ => some .integer
  | .float _ => some .float
  | .str _ => some .string
  | .bool _ => some .boolean
  | .object _ => none

/-- The value is of the type that the field has, if the field is there. -/
def Conforms (expected : Option FieldType) (value : FieldValue Ω) : Prop :=
  ∀ type, expected = some type → value.fieldType = some type

/-- There is nothing in the cell. -/
def Blank : Option (FieldValue Ω) → Prop
  | none => True
  | some (.float f) => f.isNaN = true
  | some (.str s) => Text.strip s.toList = []
  | some (.object o) => c.isNaT o = true
  | some (.int _) | some (.bool _) => False

theorem normalizeText_eq_none_iff {text : String} :
    normalizeText c text = none ↔ Text.strip text.toList = [] := by
  unfold normalizeText
  dsimp only
  split
  · next h => exact iff_of_true rfl h
  · next h =>
    refine iff_of_false ?_ h
    split
    · simp
    · split
      · simp
      · split <;> simp

/-- A text is no object. -/
theorem normalizeText_ne_object {text : String} {o : Ω} :
    normalizeText c text ≠ some (.object o) := by
  unfold normalizeText
  dsimp only
  split
  · simp
  · split
    · split <;> simp
    · split
      · split <;> simp
      · split
        · simp
        · split <;> simp

/-- A cell is normalized to nothing if it is blank, other than by an object. -/
theorem normalizeValue_eq_none_iff {raw : Option (FieldValue Ω)} :
    normalizeValue c raw = none ↔ Blank c raw ∧ ∀ o, raw ≠ some (.object o) := by
  cases raw with
  | none => simp [normalizeValue, Blank]
  | some value =>
    cases value with
    | int i => simp [normalizeValue, Blank]
    | float f => simp [normalizeValue, Blank]
    | bool b => simp [normalizeValue, Blank]
    | object o => simp [normalizeValue, Blank]
    | str s => simp [normalizeValue, Blank, normalizeText_eq_none_iff]

theorem normalizeValue_eq_object_iff {raw : Option (FieldValue Ω)} {o : Ω} :
    normalizeValue c raw = some (.object o) ↔ raw = some (.object o) := by
  cases raw with
  | none => rfl
  | some value =>
    cases value with
    | int i => rfl
    | float f =>
      rw [normalizeValue]
      split <;> simp
    | bool b => rfl
    | object o' => rfl
    | str s => exact iff_of_false (normalizeText_ne_object c) (by simp)

end Timeshift

end ProtocolGateway
