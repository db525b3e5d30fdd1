import ProtocolGateway.RegistryMap
import ProtocolGateway.Adjustments
import ProtocolGateway.Words
import ProtocolGateway.Lib.BitField
import ProtocolGateway.Lib.Dict

/-!
# Decoding registers

The two decoders of `protocol_settings` and the pass over a register map that uses them:

* `processRegisterUshort` — `process_register_ushort`, for transports that deliver one integer
  per register;
* `processRegisterBytes` — `process_register_bytes`, for transports that deliver the wire bytes
  of all registers of an entry under its first address;
* `processRegistery` — `process_registery`, which decodes a snapshot of registers entry by entry
  and puts the values under their names.

Both decoders are a case analysis over the data type (`decodeUshort`, `decodeBytes`) followed by
the `post_decode` adjustments. An exception is an `Except` error; the `None` of a partial read is
`none`.
-/

namespace ProtocolGateway

open BigEndian BitField

/-! ## Texts -/

/-- `text.rstrip()`. -/
def rstrip (s : List Char) : List Char := (s.reverse.dropWhile Text.isSpace).reverse

/-- `_decode_text_bytes`: up to the first null byte, the printable characters only. -/
def decodeTextBytes (raw : List Byte) : String :=
  let kept := (raw.takeWhile (· ≠ 0)).filter fun b => 0x20 ≤ b.toNat && b.toNat ≤ 0x7E
  String.ofList (rstrip (kept.map fun b => Char.ofNat b.toNat))

/-- `_ascii_fragment`: a member of a concatenated range skips its null bytes. -/
def asciiFragment (raw : List Byte) (e : RegistryMapEntry) : List Byte :=
  if e.concatenate then raw.filter (· ≠ 0) else raw

/-- A lower-case hexadecimal digit. -/
def hexDigit (n : Nat) : Char := Char.ofNat (if n < 10 then 48 + n else 87 + n)

/-- `raw.hex()`. -/
def hexText (raw : List Byte) : String :=
  String.ofList (raw.flatMap fun b => [hexDigit (b.toNat / 16), hexDigit (b.toNat % 16)])

/-! ## Floats -/

/-- `struct.unpack(">f", raw)[0]`. -/
def unpackFloat32 (raw : List Byte) : Except PyError Float :=
  if raw.length = 4 then .ok (Float32.ofBits (UInt32.ofNat (number raw))).toFloat
  else .error .structError

/-- `struct.unpack(">d", raw)[0]`. -/
def unpackFloat64 (raw : List Byte) : Except PyError Float :=
  if raw.length = 8 then .ok (Float.ofBits (UInt64.ofNat (number raw))) else .error .structError

/-! ## Flags -/

/-- The text a code table holds for a code; anything else makes `join` raise. -/
def Json.text? : Json → Option String
  | .str s => some s
  | _ => none

/-- `",".join(texts)`. -/
def joinTexts (texts : List Json) : Except PyError String :=
  match texts.mapM Json.text? with
  | some ss => .ok (String.intercalate "," ss)
  | none => .error .typeError

/-- `"b" + str(i)`. -/
def flagIndex (i : Nat) : String := "b" ++ toString i

/-- The bits `start` to `start + size - 1` as text, lowest first. -/
def flagBits (val start size : Nat) : String :=
  String.ofList ((List.range' start size).map fun i => if val.testBit i then '1' else '0')

/-- The codes of the bits that are set. -/
def flagIndexes (val start size : Nat) : List String :=
  ((List.range' start size).filter val.testBit).map flagIndex

/-- The keys of the protocol file that name several bits, such as `b1&b2`. -/
def multibitFlags (codes : Codes) : List String :=
  (codes.map Prod.fst).filter fun key => '&' ∈ key.toList

/-- Every bit of a multi-bit key is among `indexes`. -/
def allBits (indexes : List String) (key : String) : Bool :=
  (Text.split '&' key.toList).all fun bit => String.ofList bit ∈ indexes

namespace RegistryMapEntry

variable (e : RegistryMapEntry)

/-- `entry.register_bit if entry.register_bit >= 0 else 0`. -/
def startBit : Nat := e.registerBit.toNat

/-- The key of the entry's own code table. -/
def codesKey : String := e.documentedName ++ "_codes"

/-- The words `process_register_ushort` reads for a text. -/
def asciiWords : Nat := if e.concatenate ∨ e.dataTypeSize ≤ 0 then 1 else e.entryWordCount

end RegistryMapEntry

namespace ProtocolSettings

variable (ps : ProtocolSettings) (host : Host)

/-- The flags branch of `process_register_ushort`. -/
def flagsUshort (e : RegistryMapEntry) (val size : Nat) : Except PyError String :=
  let codeDict := ps.getCodeDict e.codesKey
  if codeDict.isEmpty then .ok (flagBits val e.startBit size)
  else joinTexts ((flagIndexes val e.startBit size).filterMap fun index => codeDict.lookup index)

/-- The flags branch of `process_register_bytes`. Which multi-bit keys there are is taken from the
protocol file itself, what they say from the entry's table. -/
def flagsBytes (e : RegistryMapEntry) (val size : Nat) : Except PyError String :=
  if (ps.codes.lookup e.codesKey).isSome then
    let codeDict := ps.getCodeDict e.codesKey
    let indexes := if codeDict.isEmpty then [] else flagIndexes val e.startBit size
    let multibit := (multibitFlags ps.codes).filter (allBits indexes)
    joinTexts ((indexes ++ multibit).filterMap fun index => codeDict.lookup index)
  else .ok (flagBits val e.startBit size)

/-! ## One integer per register -/

/-- `registry[register] & 0xFFFF`. -/
def wordAt (registry : Int → Option Word) (register : Int) : Except PyError Word :=
  match registry register with
  | some w => .ok w
  | none => .error .keyError

/-- `_register_words_to_bytes` of the protocol: `word_count` registers, from the address list as
far as it goes and consecutive otherwise; `none` if one of them is absent. -/
def registerWordsToBytes (registry : Int → Option Word) (startRegister : Int) (wordCount : Nat)
    (order : WordOrder) (registerAddresses : List Int) : Option (List Byte) :=
  ((List.range wordCount).mapM fun offset : Nat =>
    registry (registerAddresses.getD offset (startRegister + offset))).map
      (ProtocolGateway.registerWordsToBytes order)

/-- The case analysis of `process_register_ushort`. -/
def decodeUshort (order : WordOrder) (registry : Int → Option Word) (e : RegistryMapEntry) :
    Except PyError (Option PyValue) :=
  let bytes := fun count => registerWordsToBytes registry e.register count order e.registerList
  let word := (wordAt registry e.register).map (Word.orient order.bytesReversed)
  let text := fun (raw : Option (List Byte)) => .ok (raw.map fun raw => .str (decodeTextBytes raw))
  match e.dataType with
  | .uint | .acc32 => .ok ((bytes 2).map fun raw => .int (number raw))
  | .uint64 => .ok ((bytes 4).map fun raw => .int (number raw))
  | .int64 => .ok ((bytes 4).map fun raw => .int (signedNumber raw))
  | .float32 =>
    match bytes 2 with
    | some raw => (unpackFloat32 raw).map fun f => some (.float f)
    | none => .ok none
  | .float64 =>
    match bytes 4 with
    | some raw => (unpackFloat64 raw).map fun f => some (.float f)
    | none => .ok none
  | .short => word.map fun raw =>
    some (.int (if raw.toNat.testBit 15 then (raw.toNat : Int) - 2 ^ 16 else raw.toNat))
  | .int => .ok ((bytes 2).map fun raw => .int (signedNumber raw))
  | .bit8Flags | .bit16Flags => do
    let size := e.dataType.getSize.toNat
    let flags ← ps.flagsUshort e (← word).toNat size
    return some (.str flags)
  | .bit32Flags =>
    match bytes 2 with
    | some raw => (ps.flagsUshort e (number raw) 32).map fun flags => some (.str flags)
    | none => .ok none
  | .smBit n => word.map fun raw =>
    let magnitude := field (e.startBit + 1) (n.val - 1) raw.toNat
    some (.int (if raw.toNat.testBit e.startBit then -magnitude else magnitude))
  | .sBit n => word.map fun raw =>
    let rawBits := field e.startBit n.val raw.toNat
    some (.int (if rawBits.testBit (n.val - 1) then (rawBits : Int) - 2 ^ n.val else rawBits))
  -- `_8BIT` has a branch of its own, which does the same
  | .bit n => word.map fun raw => some (.int (field e.startBit n.val raw.toNat))
  | .byte => word.map fun raw => some (.int raw.lo.toNat)
  | .hex => word.map fun raw => some (.str (hexText (raw.toBytes false)))
  | .ascii =>
    text ((bytes e.asciiWords).map fun raw =>
      asciiFragment
        (if 0 < e.dataTypeSize ∧ ¬e.concatenate then raw.take e.dataTypeSize.toNat else raw) e)
  | .string | .string16 | .string32 =>
    text ((bytes e.entryWordCount).map fun raw =>
      if 0 < e.dataTypeSize then raw.take e.dataTypeSize.toNat else raw)
  | .ushort => word.map fun raw => some (.int raw.toNat)

/-- `process_register_ushort`. -/
def processRegisterUshort (registry : Int → Option Word) (e : RegistryMapEntry) :
    Except PyError (Option PyValue) := do
  match ← ps.decodeUshort (e.getEntryByteorder ps.defaultWordOrder) registry e with
  | none => return none
  | some value => return some (collapse (← e.applyPostDecode host value))

/-! ## Wire bytes -/

/-- The part of the wire bytes an entry looks at. -/
def registerSlice {α : Type} (e : RegistryMapEntry) (register : List α) : List α :=
  let register := if 0 < e.registerByte then register.drop e.registerByte.toNat else register
  if 0 < e.dataTypeSize then register.take e.dataTypeSize.toNat else register

/-- The first `n` words of the wire bytes in significance order: `_reverse_words`, then
`_swap_words`. -/
def wideBytes {α : Type} (order : WordOrder) (n : Nat) (register : List α) : List α :=
  let raw := register.take (2 * n)
  let raw := if order.wordReversed then reversePairs n raw else raw
  if order.bytesReversed then swapPairs raw else raw

/-- The first word of the wire bytes in significance order. Swapping indexes both bytes. -/
def pairBytes {α : Type} (order : WordOrder) (register : List α) : Except PyError (List α) :=
  if order.bytesReversed then
    match register.take 2 with
    | [a, b] => .ok [b, a]
    | _ => .error .indexError
  else .ok (register.take 2)

/-- The flag bytes in significance order. -/
def flagBytes {α : Type} (order : WordOrder) (n : Nat) (register : List α) : List α :=
  wideBytes { order with wordReversed := order.wordReversed && decide (1 < n) } n register

/-- `x >> count`, which raises for a negative count. -/
def shiftCount (count : Int) : Except PyError Nat :=
  if count < 0 then .error .valueError else .ok count.toNat

/-- The case analysis of `process_register_bytes`, on the slice of the wire bytes. Its fallback
value is overwritten by every branch. -/
def decodeBytes (order : WordOrder) (register : List Byte) (e : RegistryMapEntry) :
    Except PyError PyValue :=
  match e.dataType with
  | .uint | .acc32 => .ok (.int (number (wideBytes order 2 register)))
  | .int => .ok (.int (signedNumber (wideBytes order 2 register)))
  | .uint64 => .ok (.int (number (wideBytes order 4 register)))
  | .int64 => .ok (.int (signedNumber (wideBytes order 4 register)))
  | .float32 => (unpackFloat32 (wideBytes order 2 register)).map .float
  | .float64 => (unpackFloat64 (wideBytes order 4 register)).map .float
  | .ushort => (pairBytes order register).map fun raw => .int (number raw)
  | .short => (pairBytes order register).map fun raw => .int (signedNumber raw)
  | .bit8Flags | .bit16Flags =>
    let size := e.dataType.getSize.toNat
    (ps.flagsBytes e (number (flagBytes order 1 register)) size).map .str
  | .bit32Flags => (ps.flagsBytes e (number (flagBytes order 2 register)) 32).map .str
  | .smBit n => do
    let registerInt := number (← pairBytes order register)
    let bitIndex ← shiftCount e.registerBit
    if registerInt.testBit bitIndex then
      return .int ((registerInt >>> (bitIndex + 1)) ||| (0xFFFFFFFFFFFFFFFF <<< n.val) : Nat)
    else return .int (field (bitIndex + 1) n.val registerInt)
  | .sBit n => do
    let registerInt := number (← pairBytes order register)
    let bitIndex ← shiftCount e.registerBit
    if registerInt.testBit (bitIndex + n.val - 1) then
      return .int ((registerInt >>> bitIndex) ||| (0xFFFFFFFFFFFFFFFF <<< n.val) : Nat)
    else return .int (field bitIndex n.val registerInt)
  | .byte => do
    match ← pairBytes order register with
    | b :: _ => return .int b.toNat
    | [] => .error .indexError
  | .bit n => do
    let registerInt := number (← pairBytes order register)
    return .int (field (← shiftCount e.registerBit) n.val registerInt)
  | .hex => .ok (.str (hexText register))
  | .ascii => .ok (.str (decodeTextBytes (asciiFragment register e)))
  | .string | .string16 | .string32 => .ok (.str (decodeTextBytes register))

/-- `process_register_bytes`. A transport may deliver the bytes with a timestamp, which is not
looked at. -/
def processRegisterBytes (registry : Int → Option (List Byte)) (e : RegistryMapEntry) :
    Except PyError PyValue :=
  match registry e.register with
  | none => .error .keyError
  | some register => do
    let order := e.getEntryByteorder ps.defaultWordOrder
    e.applyPostDecode host (← ps.decodeBytes order (registerSlice e register) e)

/-! ## The pass over a register map -/

/-- A snapshot of registers, as one of the two kinds of transports delivers it. -/
inductive Snapshot
  | words (registry : Int → Option Word)
  | bytes (registry : Int → Option (List Byte))

/-- `_extract_bits`. -/
def extractBits (rawValue : Int) (e : RegistryMapEntry) : Except PyError Int :=
  if e.registerBit < 0 then .ok rawValue
  else do
    let width ← shiftCount (e.registerBitEnd - e.registerBit + 1)
    return (rawValue >>> e.registerBit.toNat) % 2 ^ width

/-- `_decoded_value_already_honors_bit_offset`. -/
def decodedValueAlreadyHonorsBitOffset (e : RegistryMapEntry) : Bool :=
  match e.dataType with
  | .bit8Flags | .bit16Flags | .bit32Flags => true
  | t => 200 < t.value

/-- The decoded value of one entry, before it is filed: `none` where its register is absent or
the read was partial. -/
def decodeEntry (snapshot : Snapshot) (e : RegistryMapEntry) : Except PyError (Option PyValue) := do
  let value ← match snapshot with
    | .words registry =>
      if (registry e.register).isSome then ps.processRegisterUshort host registry e else .ok none
    | .bytes registry =>
      if (registry e.register).isSome then (ps.processRegisterBytes host registry e).map some
      else .ok none
  match value with
  | none => return none
  | some (.str s) => return some (.str s)
  | some number =>
    if 0 ≤ e.registerBit ∧ ¬decodedValueAlreadyHonorsBitOffset e then
      return some (.int (← extractBits (← number.toInt) e))
    else return some number

/-- The two dictionaries of the pass. -/
structure Decoded where
  /-- `concatenate_registry` -/
  concatenated : Dict Int PyValue
  info : Dict String PyValue

/-- The joined text of a range, taken out of `concatenate_registry`. -/
def joinRange : List Int → Dict Int PyValue → Except PyError (String × Dict Int PyValue)
  | [], d => .ok ("", d)
  | key :: keys, d =>
    match d.get? key with
    | none => .error .keyError
    | some value => do
      let (rest, d) ← joinRange keys (d.filter fun kv => kv.1 ≠ key)
      return (value.text host ++ rest, d)

/-- File a decoded value: members of a range wait until the whole range is there. -/
def fileValue (decoded : Decoded) (e : RegistryMapEntry) (value : PyValue) :
    Except PyError Decoded :=
  if e.concatenate then
    let concatenated := decoded.concatenated.set e.register value
    if e.concatenateRegisters.all fun key => (concatenated.get? key).isSome then do
      let (text, concatenated) ← joinRange host e.concatenateRegisters concatenated
      let text := if e.dataType = .ascii then
          String.ofList (Text.strip (text.toList.map fun c => if c = '\x00' then ' ' else c))
        else text
      return ⟨concatenated, decoded.info.set e.variableName (.str text)⟩
    else .ok { decoded with concatenated }
  else .ok { decoded with info := decoded.info.set e.variableName value }

/-- One entry of the first loop of `process_registery`. -/
def decodeStep (snapshot : Snapshot) (decoded : Decoded) (e : RegistryMapEntry) :
    Except PyError Decoded :=
  if e.descriptionSource ≠ "" then .ok decoded
  else do
    match ← ps.decodeEntry host snapshot e with
    | none => return decoded
    | some value => fileValue host decoded e value

/-- One entry of the `context` loop. -/
def contextStep (info : Dict String PyValue) (e : RegistryMapEntry) :
    Except PyError (Dict String PyValue) :=
  match info.get? e.variableName with
  | none => .ok info
  | some value => do return info.set e.variableName (← e.applyContext host value info.items)

/-- `_code_description_for_value`. -/
def codeDescriptionForValue (e : RegistryMapEntry) (value : PyValue) :
    Except PyError (Option String) :=
  let codeDict := ps.getEntryCodeDict e
  let described := fun key : String => (codeDict.lookup key).bind Json.text?
  match value.toFloatInt host with
  | .ok i => .ok ((described (toString i)).orElse fun _ => described (value.text host))
  | .error .valueError => .ok (described (value.text host))
  | .error err => if codeDict.isEmpty then .ok none else .error err

/-- One entry of the description loop. -/
def describeStep (registryMap : List RegistryMapEntry) (info : Dict String PyValue)
    (e : RegistryMapEntry) : Except PyError (Dict String PyValue) :=
  match info.get? e.descriptionSource,
      registryMap.reverse.find? (·.variableName = e.descriptionSource) with
  | some value, some sourceEntry =>
    if e.descriptionSource = "" then .ok info
    else do
      match ← ps.codeDescriptionForValue host sourceEntry value with
      | some description => return info.set e.variableName (.str description)
      | none => return info
  | _, _ => .ok info

/-- `process_registery`. -/
def processRegistery (snapshot : Snapshot) (registryMap : List RegistryMapEntry) :
    Except PyError (Dict String PyValue) := do
  let decoded ← registryMap.foldlM (ps.decodeStep host snapshot) ⟨Dict.empty, Dict.empty⟩
  let info ← registryMap.foldlM (contextStep host) decoded.info
  registryMap.foldlM (ps.describeStep host registryMap) info

end ProtocolSettings

end ProtocolGateway
