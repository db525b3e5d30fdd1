import ProtocolGateway.Values
import ProtocolGateway.Lib.Dict
import ProtocolGateway.Lib.Outcomes

/-!
# Preparing readings for the database

`_process_raw_metrics` renames the readings of a point to their columns and coerces them to the
columns' types; the rows of the narrow table are built from the uncoerced readings.

* `coerce` — one reading for a column of a given type. A reading that cannot be coerced is passed
  on as it is.
* `processRawMetrics` — all readings, for the wide and for the narrow table. An exception other
  than `ValueError` and `TypeError` is caught around the whole loop, and both come back empty.
* `narrowRows` — the first part of `_flush_batch_narrow`.
-/

namespace ProtocolGateway

/-- The parameter of a column in an `INSERT`. -/
inductive SqlValue
  | int (i : Int)
  | float (f : Float)
  | bool (b : Bool)
  | text (s : String)
  deriving DecidableEq

/-- A reading as a parameter. -/
def PyValue.toSql : PyValue → SqlValue
  | .int i => .int i
  | .float f => .float f
  | .str s => .text s

namespace RawMetrics

/-- `INT_TYPES`. -/
def intTypes : List String := ["SMALLINT", "INTEGER", "BIGINT"]

/-- `FLOAT_TYPES`. -/
def floatTypes : List String := ["REAL", "DOUBLE PRECISION", "NUMERIC", "FLOAT"]

/-- `field_type.upper()`: the names of PostgreSQL types are ASCII. -/
def upper (s : String) : String := String.ofList (s.toList.map Char.toUpper)

variable (host : Host)

/-- The conversion a column type asks for. -/
def convert (fieldType : String) (v : PyValue) : Except PyError SqlValue :=
  if fieldType ∈ intTypes then (v.toFloatInt host).map .int
  else if fieldType ∈ floatTypes then (v.toFloat host).map .float
  else if fieldType = "BOOLEAN" then v.toInt.map fun i => .bool (i ≠ 0)
  else .ok (.text (v.text host))

/-- The conversion, or the reading itself after a `ValueError` or `TypeError`. -/
def coerce (fieldType : String) (v : PyValue) : Except PyError SqlValue :=
  match convert host fieldType v with
  | .error .valueError | .error .typeError => .ok v.toSql
  | result => result

/-- The column of a reading and the type of that column in upper case. -/
def columnOf (mapping : List (String × String × String)) (name : String) : String × String :=
  match mapping.lookup name with
  | some (column, fieldType) => (column, upper fieldType)
  | none => (name, "UNKNOWN")

/-- The loop of `_process_raw_metrics`. -/
def rows (mapping : List (String × String × String)) :
    List (String × PyValue) → Dict String SqlValue × Dict String PyValue →
      Except PyError (Dict String SqlValue × Dict String PyValue)
  | [], acc => .ok acc
  | (name, v) :: rest, (wide, narrow) => do
    let (column, fieldType) := columnOf mapping name
    let value ← coerce host fieldType v
    rows mapping rest (wide.set column value, narrow.set column v)

/-- `_process_raw_metrics`: the rows for the wide and for the narrow table. -/
def processRawMetrics (mapping : List (String × String × String))
    (metrics : List (String × PyValue)) : Dict String SqlValue × Dict String PyValue :=
  match rows host mapping metrics (Dict.empty, Dict.empty) with
  | .ok both => both
  | .error _ => (Dict.empty, Dict.empty)

/-- A row of the narrow table without its time stamp and device. -/
structure NarrowRow where
  metricName : String
  metricValue : Float
  metricAscii : Option PyValue
  deriving DecidableEq

/-- `key.endswith("_desc")` and `key.removesuffix("_desc")`. -/
def descriptionOf (key : String) : Option String :=
  if "_desc".toList <:+ key.toList then
    some (String.ofList (key.toList.take (key.toList.length - "_desc".length)))
  else none

/-- The row of one reading; the description of a reading takes the place of its text. -/
def narrowRow (descriptions : List (String × PyValue)) (key : String) (value : PyValue) :
    Except PyError NarrowRow := do
  let (number, ascii) ← match value with
    | .str s => .ok (0, some (.str s))
    | v => do
      let f ← v.toFloat host
      .ok (f, none)
  let ascii := match descriptions.lookup key with
    | some description => some description
    | none => ascii
  return ⟨key, number, ascii⟩

/-- The rows of `_flush_batch_narrow`. -/
def narrowRows (newData : Dict String PyValue) : Except PyError (List NarrowRow) :=
  let descriptions := newData.items.filterMap fun kv =>
    (descriptionOf kv.1).map fun key => (key, kv.2)
  (newData.items.filter fun kv => (descriptionOf kv.1).isNone).mapM fun kv =>
    narrowRow host descriptions kv.1 kv.2

end RawMetrics

end ProtocolGateway
