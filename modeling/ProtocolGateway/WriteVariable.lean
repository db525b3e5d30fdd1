import ProtocolGateway.GroupRead
import ProtocolGateway.Lib.BitField

/-!
# Writing a variable

`modbus_base.write_variable`. A coil is written at once. For every other entry the registers are
read back and decoded, the value and the current value are looked up in the entry's code table and
checked against the entry, the value is divided by the unit column, and the words that hold it are
made from the words that were read.

The path is the same for every arithmetic in which values are computed, so it is written over an
`Arithmetic`. The one of the source is `floatArithmetic`.
-/

namespace ProtocolGateway

open BigEndian BitField

/-! ## Values -/

/-- What writing does with values: the conversions of the language, the unit column, and the decode
of the registers that were read back. -/
structure Arithmetic (V : Type) where
  /-- `isinstance(value, str)` -/
  str? : V → Option String
  ofInt : Int → V
  ofText : String → V
  /-- `str(value)` -/
  text : V → String
  /-- `int(value)` -/
  toInt : V → Except PyError Int
  /-- `int(float(value))` -/
  toFloatInt : V → Except PyError Int
  /-- `struct.pack(">f", float(value))` -/
  packFloat32 : V → Except PyError (List Byte)
  /-- `struct.pack(">d", float(value))` -/
  packFloat64 : V → Except PyError (List Byte)
  /-- `re.match(pattern, text)` -/
  reMatch : String → String → Bool
  /-- `entry.unit_mod != 1` -/
  scaled : RegistryMapEntry → Bool
  /-- `int(round(float(value) / entry.unit_mod))` -/
  unscale : RegistryMapEntry → V → Except PyError Int
  /-- `process_registery(registry, [entry])`, at the name of the entry -/
  current : (Int → Option Word) → RegistryMapEntry → Except PyError (Option V)

/-- `_to_exact_int`. -/
def Arithmetic.toExactInt {V : Type} (ops : Arithmetic V) (value : V) : Except PyError Int :=
  match ops.toInt value with
  | .error .valueError | .error .typeError => ops.toFloatInt value
  | x => x

/-- `value.strip().lower()`. -/
def normalized (s : String) : String := lowerText (String.ofList (Text.strip s.toList))

/-- The three types of flags. -/
def RegistryMapEntry.isFlags (e : RegistryMapEntry) : Bool :=
  e.dataType = .bit16Flags || e.dataType = .bit8Flags || e.dataType = .bit32Flags

namespace ProtocolSettings

variable (ps : ProtocolSettings)

/-- The loop of `get_code_by_value`. A description that is no text has no `lower`. -/
def codeOf (value : String) : List (String × Json) → Except PyError (Option String)
  | [] => .ok none
  | (code, description) :: items =>
    match description.text? with
    | none => .error .attributeError
    | some description => if value = lowerText description then .ok (some code) else codeOf value items

/-- `get_code_by_value(entry, value, fallback=value)`. -/
def getCodeByValue (e : RegistryMapEntry) (value : String) : Except PyError String :=
  (codeOf (normalized value) (ps.getEntryCodeDict e)).map fun code => code.getD value

variable {V : Type} (ops : Arithmetic V)

/-- The numeric check of `validate_registry_entry`. -/
def validateNumber (e : RegistryMapEntry) (val : V) : Except PyError Nat :=
  match ops.toFloatInt val with
  | .ok intval => .ok (if e.valueMin ≤ intval ∧ intval ≤ e.valueMax then 1 else 0)
  | .error .valueError | .error .typeError => .ok 0
  | .error err => .error err

/-- `validate_registry_entry`. The texts are accepted whose first character is a letter, a digit,
an underscore or a hyphen; the others are checked as numbers. -/
def validateRegistryEntry (e : RegistryMapEntry) (val : V) : Except PyError Nat :=
  let codeDict := ps.getEntryCodeDict e
  let isKey := fun key : String => (codeDict.lookup key).isSome
  if codeDict ≠ [] then
    match ops.toFloatInt val with
    | .ok i => .ok (if isKey (toString i) || isKey (ops.text val) then 1 else 0)
    | .error .valueError | .error .typeError => .ok (if isKey (ops.text val) then 1 else 0)
    | .error err => .error err
  else if e.dataType ∈ [.ascii, .string, .string16, .string32] then
    match ops.str? val with
    | none => .ok 0
    | some s =>
      if s ≠ "" ∧ ¬ops.reMatch "[^a-zA-Z0-9_\\-]" s then
        .ok (if e.valueRegex = "" then 1
          else if ops.reMatch e.valueRegex s then
            if e.concatenate then e.concatenateRegisters.length else 1
          else 0)
      else validateNumber ops e val
  else validateNumber ops e val

end ProtocolSettings

/-! ## The words to write -/

/-- `int.to_bytes(size, byteorder="big")` of a number in the range of the size. -/
def intToBytes (size : Nat) (i : Int) : List Byte := digits 8 size (i % 2 ^ (8 * size)).toNat

/-- A number of its own words, refused outside `lo` to `hi`. -/
def numberWords (order : WordOrder) (size : Nat) (lo hi i : Int) :
    Except PyError (Option (List Word)) :=
  if i < lo ∨ hi < i then .ok none
  else (bytesToRegisterWords order (intToBytes size i)).map some

/-- The words `raw` with the `n` bits from `start` on replaced by those of `encoded`. `to_bytes`
raises if the field reaches beyond the words. -/
def fieldWords (order : WordOrder) (raw : List Word) (start n encoded : Nat) :
    Except PyError (List Word) :=
  let rawBytes := registerWordsToBytes order raw
  let updated := update (8 * rawBytes.length) start n (number rawBytes) encoded
  if 2 ^ (8 * rawBytes.length) ≤ updated then .error .overflowError
  else bytesToRegisterWords order (digits 8 rawBytes.length updated)

/-- `re.match(rf"^[0-1]{{{flag_size}}}$", value_str)`: `$` also matches before a last line break. -/
def isFlagText (size : Nat) (s : List Char) : Bool :=
  let s := if s.getLast? = some '\n' then s.dropLast else s
  s.length = size && s.all fun c => c = '0' || c = '1'

/-- `int(value_str[::-1], 2)`. A line break, which is last here and first there, is stripped. -/
def flagNumber : List Char → Nat
  | [] => 0
  | c :: cs => (if c = '1' then 1 else 0) + 2 * flagNumber cs

/-- The branches of `write_variable` over the data type: the words for a value, given the words
that were read. `none` is a refusal with a logged error. -/
def registerValues {V : Type} (ops : Arithmetic V) (order : WordOrder) (raw : List Word)
    (e : RegistryMapEntry) (value : V) : Except PyError (Option (List Word)) :=
  match e.dataType with
  | .ushort => do
    let i ← ops.toInt value
    if i < 0 ∨ 65535 < i then .error .valueError else return some [BitVec.ofInt 16 i]
  | .short => do
    let i ← ops.toFloatInt value
    return if i < -32768 ∨ 32767 < i then none else some [BitVec.ofInt 16 i]
  | .uint | .acc32 => do numberWords order 4 0 0xFFFFFFFF (← ops.toFloatInt value)
  | .uint64 => do numberWords order 8 0 0xFFFFFFFFFFFFFFFF (← ops.toExactInt value)
  | .int64 => do numberWords order 8 (-2 ^ 63) (2 ^ 63 - 1) (← ops.toExactInt value)
  | .int => do numberWords order 4 (-2147483648) 2147483647 (← ops.toFloatInt value)
  | .float32 => do (bytesToRegisterWords order (← ops.packFloat32 value)).map some
  | .float64 => do (bytesToRegisterWords order (← ops.packFloat64 value)).map some
  | .bit16Flags | .bit8Flags | .bit32Flags =>
    let size := e.dataType.getSize.toNat
    let s := (ops.text value).toList
    if isFlagText size s then
      (fieldWords order raw e.startBit size (flagNumber s <<< e.startBit)).map some
    else .ok none
  | .byte | .bit _ => do
    let size := e.dataType.getSize.toNat
    let i ← ops.toInt value
    if i < 0 ∨ ones size < i then return none
    else return some (← fieldWords order raw e.startBit size (i.toNat <<< e.startBit))
  | .sBit n => do
    let i ← ops.toInt value
    if i < -2 ^ (n.val - 1) ∨ 2 ^ (n.val - 1) - 1 < i then return none
    else return some (← fieldWords order raw e.startBit n.val
      ((i % 2 ^ n.val).toNat <<< e.startBit))
  | .smBit n => do
    let i ← ops.toInt value
    if 2 ^ (n.val - 1) - 1 < i.natAbs then return none
    else
      let sign := if i < 0 then 1 <<< e.startBit else 0
      return some (← fieldWords order raw e.startBit n.val
        (i.natAbs <<< (e.startBit + 1) ||| sign))
  | .ascii | .hex | .string | .string16 | .string32 => .ok none

/-! ## The write -/

/-- What is handed to the client: `write_coil` or `write_registers`. -/
inductive WriteRequest
  | coil (register : Int) (value : Bool)
  | registers (start : Int) (values : List Word)
  deriving DecidableEq

/-- `TransportWriteMode`. -/
inductive TransportWriteMode
  /-- read only -/
  | read
  /-- standard write mode, all safeties in place -/
  | write
  /-- less strict: the initial protocol validation is skipped -/
  | relaxed
  /-- skip all safeties -/
  | unsafeMode
  deriving DecidableEq, Repr

/-- The words of the entry, `none` if one of them was not read. -/
def RegistryMapEntry.rawRegisters (e : RegistryMapEntry) (registry : Int → Option Word) :
    Option (List Word) :=
  (List.range e.entryWordCount).mapM fun offset : Nat => registry (e.register + offset)

namespace ProtocolSettings

variable (ps : ProtocolSettings) {V : Type} (ops : Arithmetic V) (mode : TransportWriteMode)

/-- The value of a coil. -/
def coilBool (value : V) : Except PyError Bool :=
  match ops.str? value with
  | some s => .ok (s ∉ ["0", "false", "off", "no", ""])
  | none => (ops.toFloatInt value).map fun i => i ≠ 0

/-- The new value and the text of the current one, after the code table. -/
def lookUpCodes (e : RegistryMapEntry) (value : V) (current : String) :
    Except PyError (V × String) :=
  match ops.str? value with
  | some s => do return (ops.ofText (← ps.getCodeByValue e s), ← ps.getCodeByValue e current)
  | none => .ok (value, current)

/-- The checks of all modes but `UNSAFE`. A new value for flags is checked when it is encoded. -/
def accepted (e : RegistryMapEntry) (value : V) (current : String) : Except PyError Bool := do
  if mode = .unsafeMode then return true
  if (← ps.validateRegistryEntry ops e (ops.ofText current)) = 0 then return false
  if e.isFlags then return true
  return (← ps.validateRegistryEntry ops e value) ≠ 0

/-- The unit column, `none` for a value that is no number. -/
def applyUnitMod (e : RegistryMapEntry) (value : V) : Except PyError (Option V) :=
  if ops.scaled e then
    match ops.unscale e value with
    | .ok i => .ok (some (ops.ofInt i))
    | .error .valueError | .error .typeError => .ok none
    | .error err => .error err
  else .ok (some value)

/-- `write_variable`, given what the read-back collects. -/
def writeVariable (registryType : RegistryType) (registry : Int → Option Word)
    (e : RegistryMapEntry) (value : V) : Except PyError (Option WriteRequest) := do
  let value := ((ops.str? value).map fun s => ops.ofText (normalized s)).getD value
  if registryType = .coil then return some (.coil e.register (← coilBool ops value))
  let info ← ops.current registry e
  match e.rawRegisters registry, info with
  | some raw, some current =>
    let (value, currentValue) ← ps.lookUpCodes ops e value (ops.text current)
    if ¬(← ps.accepted ops mode e value currentValue) then return none
    match ← applyUnitMod ops e value with
    | none => return none
    | some value =>
      match ← registerValues ops (e.getEntryByteorder ps.defaultWordOrder) raw e value with
      | none => return none
      | some [] => .error .valueError
      | some words => return some (.registers e.register words)
  | _, _ => return none

/-! ## The read-back -/

/-- `batch_size` of `read_modbus_registers`: the setting if it is a number, else 45. -/
def readBatchSize : Int := (ps.batchSize.bind fun text => Text.pyInt text.toList).getD 45

/-- The ranges that `read_modbus_registers` makes of the registers `start` to `last`. The last one
has a register too many, unless it is a whole batch. The loop ends only for a positive batch. -/
def readBackRanges (start last : Int) : Except PyError (List (Int × Int)) :=
  let batchSize := ps.readBatchSize
  if batchSize ≤ 0 ∧ start ≤ last then .error .diverges
  else .ok ((pyRange start (last + 1) batchSize).map fun start =>
    (start, if last + 1 < start + batchSize then last + 1 - start + 1 else batchSize))

/-- What the read-back collects from a device whose registers can all be read. -/
def readBack (content : Int → Word) (e : RegistryMapEntry) :
    Except PyError (Int → Option Word) := do
  let ranges ← ps.readBackRanges e.register (e.register + e.entryWordCount - 1)
  return GroupRead.readWords ranges content

/-- `write_variable` of such a device. -/
def writeDevice (content : Int → Word) (e : RegistryMapEntry) (value : V) :
    Except PyError (Option WriteRequest) := do
  ps.writeVariable ops mode .holding (← ps.readBack content e) e value

end ProtocolSettings

/-- The registers of a device after a request. -/
def WriteRequest.apply (content : Int → Word) : WriteRequest → Int → Word
  | .coil _ _, a => content a
  | .registers start values, a =>
    if start ≤ a then values.getD (a - start).toNat (content a) else content a

/-! ## The arithmetic of the source -/

/-- `int(round(float(value) / entry.unit_mod))`. -/
def divideFloat (host : Host) (e : RegistryMapEntry) (value : PyValue) : Except PyError Int := do
  let x ← value.toFloat host
  if e.unitMod == 0 then .error .zeroDivisionError else roundHalfEven (x / e.unitMod)

/-- Values are `int | float | str` and are decoded as `process_registery` decodes them. `pack` is
`struct.pack`. -/
def floatArithmetic (host : Host) (ps : ProtocolSettings)
    (pack32 pack64 : Float → Except PyError (List Byte)) : Arithmetic PyValue where
  str? := fun
    | .str s => some s
    | _ => none
  ofInt := .int
  ofText := .str
  text := PyValue.text host
  toInt := PyValue.toInt
  toFloatInt := PyValue.toFloatInt host
  packFloat32 := fun value => do pack32 (← value.toFloat host)
  packFloat64 := fun value => do pack64 (← value.toFloat host)
  reMatch := host.reMatch
  scaled := fun e => e.unitMod != 1
  unscale := divideFloat host
  current := fun registry e => (ps.processRegistery host (.words registry) [e]).map
    fun info => info.get? e.variableName

end ProtocolGateway
