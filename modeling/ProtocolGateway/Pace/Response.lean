import ProtocolGateway.Entry
import ProtocolGateway.Pace.Crc

/-!
# Reading from a PACE device

`pace.read_registers` and the two parsers of its answers. A normal response is a frame of the slave
and the function that were asked, with the byte count and the data of the request
(`IsNormalResponse`). The parsers check the CRC and the byte count. The one for registers stops
before the CRC, the one for bits does not, and neither looks at the slave and the function.
`readRegisters_exact_iff` says for which answers this is enough.
-/

namespace ProtocolGateway

namespace Pace

open BigEndian

/-! ## Parsing -/

/-- The loop of `_parse_register_response`: `n` registers from `offset` on. -/
def registerLoop (data : List Byte) : Nat → Nat → Option (List Word)
  | 0, _ => some []
  | n + 1, offset =>
    -- don't read into CRC bytes
    if data.length < offset + 2 + 2 then none
    else
      let regVal := Word.ofBytes (data.getD offset 0) (data.getD (offset + 1) 0)
      (registerLoop data n (offset + 2)).map (regVal :: ·)

/-- `_parse_register_response`. -/
def parseRegisterResponse (data : List Byte) (expectedCount : Nat) : Option (List Word) :=
  if data.length < 5 then none
  else if !verifyResponseCrc data then none
  else
    let byteCount := (data.getD 2 0).toNat
    if byteCount ≠ expectedCount * 2 then none else registerLoop data expectedCount 3

/-- The inner loop of `_parse_bit_response`, which ends when there are enough bits. -/
def takeBits (expectedCount : Nat) (byteVal : Byte) (bits : List Bool) : List Bool :=
  (List.range 8).foldl
    (fun bits bitIdx =>
      if expectedCount ≤ bits.length then bits else bits ++ [byteVal.getLsbD bitIdx]) bits

/-- The outer loop of `_parse_bit_response`: `n` bytes from `index` on. -/
def bitLoop (data : List Byte) (expectedCount : Nat) :
    Nat → Nat → List Bool → Except PyError (List Bool)
  | 0, _, bits => .ok bits
  | n + 1, index, bits =>
    match data[index]? with
    | none => .error .indexError
    | some byteVal => bitLoop data expectedCount n (index + 1) (takeBits expectedCount byteVal bits)

/-- `_parse_bit_response`. -/
def parseBitResponse (data : List Byte) (expectedCount : Nat) :
    Except PyError (Option (List Bool)) :=
  if data.length < 5 then .ok none
  else if !verifyResponseCrc data then .ok none
  else
    let byteCount := (data.getD 2 0).toNat
    if byteCount ≠ (expectedCount + 7) / 8 then .ok none
    else (bitLoop data expectedCount byteCount 3 []).map some

/-! ## Reading -/

/-- `_PaceResponse`. -/
structure PaceResponse where
  registers : List Word := []
  /-- of a coil or discrete read -/
  bits : Option (List Bool) := none
  isError : Bool := false
deriving DecidableEq

/-- `_PaceResponse.error`. -/
def PaceResponse.error : PaceResponse := { isError := true }

/-- What a transport was configured with, and whether it thinks that it is connected. -/
structure Transport where
  slaveId : Int
  connected : Bool := true
deriving DecidableEq

/-- What the serial port does during one exchange. -/
inductive Port
  /-- no port is open -/
  | closed
  /-- a `SerialException` -/
  | fails
  /-- the bytes that arrive before the timeout -/
  | delivers (answer : List Byte)
deriving DecidableEq

/-- The function code of a read, `none` for a type that cannot be read. -/
def functionCode : RegistryType → Option Int
  | .input => some 0x04
  | .holding => some 0x03
  | .coil => some 0x01
  | .discrete => some 0x02
  | .customBus => none

/-- The types whose values are bits. -/
def isBitType (registryType : RegistryType) : Bool :=
  registryType = .coil || registryType = .discrete

/-- The bytes of an answer that `read(expected_size)` returns. -/
def received (count : Int) (answer : List Byte) : List Byte := answer.take (5 + count * 2).toNat

/-- `pace.read_registers`. -/
def readRegisters (t : Transport) (port : Port) (start count : Int)
    (registryType : RegistryType) : Except PyError (Transport × PaceResponse) :=
  match port with
  | .closed => .ok (t, .error)
  | .fails =>
    match functionCode registryType with
    | none => .ok (t, .error)
    | some functionCode => do
      let _request ← buildRequest t.slaveId functionCode start count
      return ({ t with connected := false }, .error)
  | .delivers answer =>
    match functionCode registryType with
    | none => .ok (t, .error)
    | some functionCode => do
      let _request ← buildRequest t.slaveId functionCode start count
      let response := received count answer
      if response.length < 5 then return (t, .error)
      if isBitType registryType then
        match ← parseBitResponse response count.toNat with
        | none => return (t, .error)
        | some bits => return (t, { bits := some bits })
      else
        match parseRegisterResponse response count.toNat with
        | none => return (t, .error)
        | some registers => return (t, { registers := registers })

/-! ## Normal responses -/

/-- The data bytes that a normal response has. -/
def dataSize (registryType : RegistryType) (count : Nat) : Nat :=
  if isBitType registryType then (count + 7) / 8 else count * 2

/-- A normal response of a slave to a request for `size` bytes of data. -/
structure IsNormalResponse (slave function : Byte) (size : Nat) (data frame : List Byte) :
    Prop where
  size_eq : data.length = size
  size_lt : size < 256
  frame_eq : frame = withCrc (slave :: function :: BitVec.ofNat 8 size :: data)

/-- The registers of a data section, high byte first. -/
def registersOf : List Byte → List Word
  | a :: b :: data => Word.ofBytes a b :: registersOf data
  | _ => []

/-- The bits of a data section, low bit first. -/
def bitsOf (data : List Byte) : List Bool :=
  data.flatMap fun byte => (List.range 8).map fun i => byte.getLsbD i

/-- What a response to a read of `count` values from a data section is. -/
def valuesOf (registryType : RegistryType) (count : Nat) (data : List Byte) : PaceResponse :=
  if isBitType registryType then { bits := some ((bitsOf data).take count) }
  else { registers := registersOf data }

/-- The number of values in a response. -/
def PaceResponse.count (r : PaceResponse) : Nat := (r.bits.map List.length).getD r.registers.length

/-! ## The two loops -/

/-- The register loop collects the data before the CRC, or fails when it is too short. -/
theorem registerLoop_eq (data : List Byte) (n offset : Nat) :
    registerLoop data n offset =
      if n = 0 ∨ offset + 2 * n + 2 ≤ data.length then
        some (registersOf ((data.drop offset).take (2 * n)))
      else none := by
  induction n generalizing offset with
  | zero => simp [registerLoop, registersOf]
  | succ n ih =>
    rw [registerLoop, ih]
    by_cases h : data.length < offset + 2 + 2
    · rw [if_pos h, if_neg (by omega)]
    · have hdrop : data.drop offset =
          data.getD offset 0 :: data.getD (offset + 1) 0 :: data.drop (offset + 2) := by
        have h0 : offset < data.length := by omega
        have h1 : offset + 1 < data.length := by omega
        rw [List.drop_eq_getElem_cons h0, List.drop_eq_getElem_cons h1]
        simp [h0, h1]
      rw [if_neg h]
      by_cases hrest : offset + 2 * (n + 1) + 2 ≤ data.length
      · rw [if_pos (by omega), if_pos (by omega), hdrop]
        rfl
      · rw [if_neg (by omega), if_neg (by omega)]
        rfl

/-- The inner loop adds the bits of a byte until there are enough. -/
theorem takeBits_eq (expectedCount : Nat) (byteVal : Byte) (bits : List Bool) :
    takeBits expectedCount byteVal bits =
      bits ++ (bitsOf [byteVal]).take (expectedCount - bits.length) := by
  have hloop : ∀ (indices : List Nat) (bits : List Bool),
      indices.foldl (fun bits bitIdx =>
        if expectedCount ≤ bits.length then bits else bits ++ [byteVal.getLsbD bitIdx]) bits =
      bits ++ (indices.map fun i => byteVal.getLsbD i).take (expectedCount - bits.length) := by
    intro indices
    induction indices with
    | nil => intro bits; simp
    | cons i indices ih =>
      intro bits
      rw [List.foldl_cons]
      by_cases h : expectedCount ≤ bits.length
      · rw [if_pos h, ih, Nat.sub_eq_zero_of_le h, List.take_zero, List.take_zero]
      · obtain ⟨k, hk⟩ : ∃ k, expectedCount - bits.length = k + 1 :=
          ⟨expectedCount - bits.length - 1, by omega⟩
        have hk' : expectedCount - (bits ++ [byteVal.getLsbD i]).length = k := by
          rw [List.length_append, List.length_singleton]
          omega
        rw [if_neg h, ih, hk, hk', List.map_cons, List.take_succ_cons, List.append_assoc,
          List.singleton_append]
  rw [takeBits, hloop]
  simp [bitsOf]

theorem bitsOf_append (as bs : List Byte) : bitsOf (as ++ bs) = bitsOf as ++ bitsOf bs :=
  List.flatMap_append

@[simp] theorem length_bitsOf (data : List Byte) : (bitsOf data).length = 8 * data.length := by
  induction data with
  | nil => rfl
  | cons byte data ih =>
    rw [← List.singleton_append, bitsOf_append, List.length_append, ih]
    simp [bitsOf]
    omega

/-- The outer loop runs over the bytes that the count asks for, wherever they are, and raises when
the frame ends before. -/
theorem bitLoop_eq (data : List Byte) (expectedCount n index : Nat) (bits : List Bool)
    (hindex : index ≤ data.length) :
    bitLoop data expectedCount n index bits =
      if index + n ≤ data.length then
        .ok (bits ++ (bitsOf ((data.drop index).take n)).take (expectedCount - bits.length))
      else .error .indexError := by
  induction n generalizing index bits with
  | zero => simp [bitLoop, bitsOf, hindex]
  | succ n ih =>
    rcases Nat.eq_or_lt_of_le hindex with hend | hlt
    · have hnone : data[index]? = none := List.getElem?_eq_none (by omega)
      rw [bitLoop, hnone, if_neg (by omega)]
    · have htake (rest : List Byte) (k : Nat) : (bitsOf (data[index] :: rest)).take k =
          (bitsOf [data[index]]).take k ++ (bitsOf rest).take (k - 8) := by
        rw [← List.singleton_append, bitsOf_append, List.take_append, length_bitsOf]
        rfl
      have hrest : expectedCount -
          (bits ++ (bitsOf [data[index]]).take (expectedCount - bits.length)).length =
            expectedCount - bits.length - 8 := by
        rw [List.length_append, List.length_take, length_bitsOf, List.length_singleton]
        omega
      rw [bitLoop, List.getElem?_eq_getElem hlt]
      dsimp only
      rw [ih _ _ hlt, takeBits_eq, hrest, List.drop_eq_getElem_cons hlt, List.take_succ_cons,
        htake ((data.drop (index + 1)).take n), List.append_assoc,
        show index + 1 + n = index + (n + 1) by omega]

/-! ## Frames that pass the checks -/

/-- The frame that a slave puts around the data of a response. -/
def responseFrame (slave function byteCount : Byte) (data : List Byte) : List Byte :=
  withCrc (slave :: function :: byteCount :: data)

theorem responseFrame_eq (slave function byteCount : Byte) (data : List Byte) :
    ∃ hi lo, responseFrame slave function byteCount data =
      slave :: function :: byteCount :: (data ++ [hi, lo]) :=
  ⟨_, _, rfl⟩

@[simp] theorem length_responseFrame (slave function byteCount : Byte) (data : List Byte) :
    (responseFrame slave function byteCount data).length = data.length + 5 := by
  obtain ⟨hi, lo, h⟩ := responseFrame_eq slave function byteCount data
  rw [h]
  simp

theorem verify_responseFrame (slave function byteCount : Byte) (data : List Byte) :
    verifyResponseCrc (responseFrame slave function byteCount data) = true :=
  verifyResponseCrc_withCrc (by simp)

/-- What is long enough and verified has the shape of a response. -/
theorem exists_responseFrame {response : List Byte} (hlength : 5 ≤ response.length)
    (hcrc : verifyResponseCrc response = true) :
    ∃ slave function byteCount data, response = responseFrame slave function byteCount data := by
  obtain ⟨payload, -, rfl⟩ := eq_withCrc_of_verify hcrc
  rw [withCrc_eq, List.length_append] at hlength
  match payload with
  | slave :: function :: byteCount :: data => exact ⟨slave, function, byteCount, data, rfl⟩
  | [] | [_] | [_, _] => simp at hlength

/-- The parser for registers on a verified frame. -/
theorem parseRegisterResponse_frame (slave function byteCount : Byte) (data : List Byte)
    (count : Nat) :
    parseRegisterResponse (responseFrame slave function byteCount data) count =
      if byteCount.toNat = count * 2 ∧ (count = 0 ∨ count * 2 ≤ data.length) then
        some (registersOf (data.take (count * 2)))
      else none := by
  obtain ⟨hi, lo, hframe⟩ := responseFrame_eq slave function byteCount data
  have hdrop : (responseFrame slave function byteCount data).drop 3 = data ++ [hi, lo] := by
    rw [hframe]; rfl
  have hget : (responseFrame slave function byteCount data).getD 2 0 = byteCount := by
    rw [hframe]; rfl
  rw [parseRegisterResponse, if_neg (by simp), verify_responseFrame, if_neg (by decide), hget]
  dsimp only
  rw [registerLoop_eq, hdrop, length_responseFrame]
  by_cases hcount : byteCount.toNat = count * 2
  · rw [if_neg (by omega)]
    by_cases hlength : count = 0 ∨ count * 2 ≤ data.length
    · have htake : (data ++ [hi, lo]).take (2 * count) = data.take (count * 2) := by
        rw [List.take_append_of_le_length (by omega), Nat.mul_comm]
      rw [if_pos (by omega), if_pos ⟨hcount, hlength⟩, htake]
    · rw [if_neg (by omega), if_neg fun h => hlength h.2]
  · rw [if_pos hcount, if_neg fun h => hcount h.1]

/-- The parser for bits on a verified frame: the CRC bytes count as data. -/
theorem parseBitResponse_frame (slave function byteCount : Byte) (data : List Byte)
    (count : Nat) :
    ∃ hi lo, parseBitResponse (responseFrame slave function byteCount data) count =
      if byteCount.toNat ≠ (count + 7) / 8 then .ok none
      else if (count + 7) / 8 ≤ data.length + 2 then
        .ok (some ((bitsOf ((data ++ [hi, lo]).take ((count + 7) / 8))).take count))
      else .error .indexError := by
  obtain ⟨hi, lo, hframe⟩ := responseFrame_eq slave function byteCount data
  have hdrop : (responseFrame slave function byteCount data).drop 3 = data ++ [hi, lo] := by
    rw [hframe]; rfl
  have hget : (responseFrame slave function byteCount data).getD 2 0 = byteCount := by
    rw [hframe]; rfl
  refine ⟨hi, lo, ?_⟩
  rw [parseBitResponse, if_neg (by simp), verify_responseFrame, if_neg (by decide), hget]
  dsimp only
  by_cases hcount : byteCount.toNat = (count + 7) / 8
  · rw [if_neg (not_not_intro hcount), if_neg (not_not_intro hcount), hcount,
      bitLoop_eq _ _ _ _ _ (by simp), hdrop, length_responseFrame]
    by_cases hlength : (count + 7) / 8 ≤ data.length + 2
    · rw [if_pos (by omega), if_pos hlength]
      rfl
    · rw [if_neg (by omega), if_neg hlength]
      rfl
  · rw [if_pos hcount, if_pos hcount]

/-! ## Exact reads -/

/-- The fields of the request can be packed. -/
def Packable (t : Transport) (start count : Int) : Prop :=
  (0 ≤ t.slaveId ∧ t.slaveId < 256) ∧ (0 ≤ start ∧ start < 65536) ∧ 0 ≤ count ∧ count < 65536

/-- The exchange raises nothing. What it returns is an error or as many values as were asked for,
those of the data section when the bytes that were read are a normal response; and a normal
response is not refused. -/
def ReadsExactly (t : Transport) (registryType : RegistryType) (start count : Int)
    (answer : List Byte) : Prop :=
  ∃ t' r, readRegisters t (.delivers answer) start count registryType = .ok (t', r) ∧
    (r.isError = true ∨ ∃ function data, functionCode registryType = some function ∧
      IsNormalResponse (BitVec.ofInt 8 t.slaveId) (BitVec.ofInt 8 function)
        (dataSize registryType count.toNat) data (received count answer) ∧
      r = valuesOf registryType count.toNat data ∧ r.count = count) ∧
    ∀ function data, functionCode registryType = some function →
      IsNormalResponse (BitVec.ofInt 8 t.slaveId) (BitVec.ofInt 8 function)
        (dataSize registryType count.toNat) data answer → r.isError = false

/-- What the parsers check of a response: the CRC, the byte count and, of registers only, that they
end before the CRC. -/
structure PassesChecks (registryType : RegistryType) (count : Nat) (response : List Byte) :
    Prop where
  length : 5 ≤ response.length
  crc : verifyResponseCrc response = true
  byteCount : (response.getD 2 0).toNat = dataSize registryType count
  complete : isBitType registryType = false → count * 2 + 5 ≤ response.length

/-- The length, the slave and the function of a normal response. -/
structure HasHeader (slave function : Byte) (size : Nat) (response : List Byte) : Prop where
  length : response.length = size + 5
  slave : response.getD 0 0 = slave
  function : response.getD 1 0 = function

theorem dataSize_le (registryType : RegistryType) (count : Nat) :
    dataSize registryType count ≤ count * 2 := by
  unfold dataSize
  split <;> omega

theorem packFields_of_packable {t : Transport} {registryType : RegistryType}
    {start count function : Int} (hp : Packable t start count)
    (hf : functionCode registryType = some function) :
    ∃ request, buildRequest t.slaveId function start count = .ok request := by
  obtain ⟨hslave, hstart, hcount⟩ := hp
  have hfunction : 0 ≤ function ∧ function < 256 := by
    cases registryType <;> cases hf <;> decide
  rw [buildRequest, packFields, if_pos ⟨hslave, hfunction, hstart, hcount⟩]
  exact ⟨_, rfl⟩

theorem buildRequest_of_not_packable {t : Transport} {start count function : Int}
    (hp : ¬Packable t start count) :
    buildRequest t.slaveId function start count = .error .structError := by
  rw [buildRequest, packFields, if_neg fun h => hp ⟨h.1, h.2.2.1, h.2.2.2⟩]
  rfl

/-- A read whose request can be packed, by what the parsers make of the bytes that were read. -/
theorem readRegisters_eq {t : Transport} {registryType : RegistryType} {start count function : Int}
    (hp : Packable t start count) (hf : functionCode registryType = some function)
    (answer : List Byte) :
    readRegisters t (.delivers answer) start count registryType =
      if (received count answer).length < 5 then .ok (t, .error)
      else if isBitType registryType then
        (parseBitResponse (received count answer) count.toNat).map fun bits =>
          (t, (bits.map fun bits => { bits := some bits }).getD .error)
      else .ok (t, ((parseRegisterResponse (received count answer) count.toNat).map fun registers =>
        { registers := registers }).getD .error) := by
  obtain ⟨request, hrequest⟩ := packFields_of_packable hp hf
  rw [readRegisters, hf]
  simp only [hrequest]
  by_cases hlength : (received count answer).length < 5
  · simp only [hlength, if_true]
    rfl
  · simp only [hlength, if_false]
    cases isBitType registryType
    · cases parseRegisterResponse (received count answer) count.toNat <;> rfl
    · rcases parseBitResponse (received count answer) count.toNat with _ | _ | _ <;> rfl

/-- A response that fails the checks is an error. -/
theorem read_of_not_passes {t : Transport} {registryType : RegistryType}
    {start count function : Int} (hp : Packable t start count)
    (hf : functionCode registryType = some function) {answer : List Byte}
    (h : ¬PassesChecks registryType count.toNat (received count answer)) :
    readRegisters t (.delivers answer) start count registryType = .ok (t, .error) := by
  rw [readRegisters_eq hp hf]
  by_cases hlength : (received count answer).length < 5
  · rw [if_pos hlength]
  · rw [if_neg hlength]
    by_cases hcrc : verifyResponseCrc (received count answer) = true
    · obtain ⟨slave, f, byteCount, data, hframe⟩ :=
        exists_responseFrame (Nat.le_of_not_lt hlength) hcrc
      obtain ⟨hi, lo, hshape⟩ := responseFrame_eq slave f byteCount data
      have hget : (received count answer).getD 2 0 = byteCount := by rw [hframe, hshape]; rfl
      have hlen : (received count answer).length = data.length + 5 := by rw [hframe]; simp
      cases hbit : isBitType registryType
      · have hsize : dataSize registryType count.toNat = count.toNat * 2 := by
          rw [dataSize, hbit]; rfl
        rw [if_neg (by decide), hframe, parseRegisterResponse_frame, if_neg]
        · rfl
        · rintro ⟨hcount, hshort⟩
          exact h ⟨by omega, hcrc, by rw [hget, hsize, hcount], fun _ => by omega⟩
      · have hsize : dataSize registryType count.toNat = (count.toNat + 7) / 8 := by
          rw [dataSize, hbit]; rfl
        obtain ⟨hi, lo, hparse⟩ := parseBitResponse_frame slave f byteCount data count.toNat
        rw [if_pos rfl, hframe, hparse, if_pos]
        · rfl
        · intro hcount
          exact h ⟨by omega, hcrc, by rw [hget, hsize, hcount], by simp [hbit]⟩
    · cases hbit : isBitType registryType
      · rw [if_neg (by decide), parseRegisterResponse, if_neg hlength]
        simp [hcrc]
      · rw [if_pos rfl, parseBitResponse, if_neg hlength]
        simp [hcrc]
        rfl

/-- A response that passes the checks is not an error, though it can raise. -/
theorem read_of_passes {t : Transport} {registryType : RegistryType}
    {start count function : Int} (hp : Packable t start count)
    (hf : functionCode registryType = some function) {answer : List Byte}
    (h : PassesChecks registryType count.toNat (received count answer)) :
    ∀ t' r, readRegisters t (.delivers answer) start count registryType = .ok (t', r) →
      r.isError = false := by
  intro t' r hread
  obtain ⟨slave, f, byteCount, data, hframe⟩ := exists_responseFrame h.length h.crc
  obtain ⟨hi, lo, hshape⟩ := responseFrame_eq slave f byteCount data
  have hcount := h.byteCount
  rw [hframe, hshape, List.getD_cons_succ, List.getD_cons_succ, List.getD_cons_zero] at hcount
  rw [readRegisters_eq hp hf, if_neg (Nat.not_lt.mpr h.length), hframe] at hread
  cases hbit : isBitType registryType
  · have hlength := h.complete hbit
    rw [hframe, length_responseFrame] at hlength
    rw [dataSize, hbit, if_neg (by decide)] at hcount
    rw [hbit, if_neg (by decide), parseRegisterResponse_frame, if_pos ⟨hcount, by omega⟩] at hread
    cases hread
    rfl
  · rw [dataSize, hbit, if_pos rfl] at hcount
    obtain ⟨hi, lo, hparse⟩ := parseBitResponse_frame slave f byteCount data count.toNat
    rw [hbit, if_pos rfl, hparse, if_neg (not_not_intro hcount)] at hread
    split at hread
    · cases hread
      rfl
    · cases hread

theorem length_registersOf {data : List Byte} {n : Nat} (h : data.length = n * 2) :
    (registersOf data).length = n := by
  induction n generalizing data with
  | zero =>
    rw [List.eq_nil_of_length_eq_zero (l := data) (by omega)]
    rfl
  | succ n ih =>
    match data with
    | a :: b :: data =>
      have hrest : data.length = n * 2 := by simp at h; omega
      simp [registersOf, ih hrest]
    | [] => simp at h
    | [_] => simp at h; omega

/-- A normal response is read exactly. -/
theorem read_of_normal {t : Transport} {registryType : RegistryType}
    {start count function : Int} (hp : Packable t start count)
    (hf : functionCode registryType = some function) {answer data : List Byte} {slave f : Byte}
    (h : IsNormalResponse slave f (dataSize registryType count.toNat) data
      (received count answer)) :
    readRegisters t (.delivers answer) start count registryType =
        .ok (t, valuesOf registryType count.toNat data) ∧
      (valuesOf registryType count.toNat data).isError = false ∧
        ((valuesOf registryType count.toNat data).count : Int) = count := by
  have hframe : received count answer =
      responseFrame slave f (BitVec.ofNat 8 (dataSize registryType count.toNat)) data := h.frame_eq
  have hbyte : (BitVec.ofNat 8 (dataSize registryType count.toNat)).toNat =
      dataSize registryType count.toNat := by
    rw [BitVec.toNat_ofNat, Nat.mod_eq_of_lt h.size_lt]
  have hsize := h.size_eq
  have hcount := hp.2.2.1
  rw [readRegisters_eq hp hf, hframe, if_neg (by simp)]
  cases hbit : isBitType registryType
  · rw [dataSize, hbit, if_neg (by decide)] at hbyte hsize ⊢
    rw [if_neg (by decide), parseRegisterResponse_frame, if_pos ⟨hbyte, by omega⟩,
      List.take_of_length_le (by omega), valuesOf, hbit]
    refine ⟨rfl, rfl, ?_⟩
    have hlength := length_registersOf hsize
    simp only [PaceResponse.count, Option.map_none, Option.getD_none, Bool.false_eq_true, if_false]
    omega
  · rw [dataSize, hbit, if_pos rfl] at hbyte hsize ⊢
    obtain ⟨hi, lo, hparse⟩ := parseBitResponse_frame slave f
      (BitVec.ofNat 8 ((count.toNat + 7) / 8)) data count.toNat
    rw [if_pos rfl, hparse, if_neg (not_not_intro hbyte), if_pos (by omega),
      List.take_append_of_le_length (by omega), List.take_of_length_le (l := data) (by omega),
      valuesOf, hbit]
    refine ⟨rfl, rfl, ?_⟩
    simp only [PaceResponse.count, if_true, Option.map_some, Option.getD_some, List.length_take,
      length_bitsOf]
    omega

/-- A normal response passes the checks. -/
theorem IsNormalResponse.passes {registryType : RegistryType} {count : Nat} {slave f : Byte}
    {data response : List Byte}
    (h : IsNormalResponse slave f (dataSize registryType count) data response) :
    PassesChecks registryType count response := by
  have hframe : response =
      responseFrame slave f (BitVec.ofNat 8 (dataSize registryType count)) data := h.frame_eq
  obtain ⟨hi, lo, hshape⟩ := responseFrame_eq slave f
    (BitVec.ofNat 8 (dataSize registryType count)) data
  have hlength : response.length = data.length + 5 := by rw [hframe, length_responseFrame]
  refine ⟨by omega, by rw [hframe, verify_responseFrame], ?_, ?_⟩
  · rw [hframe, hshape, List.getD_cons_succ, List.getD_cons_succ, List.getD_cons_zero,
      BitVec.toNat_ofNat, Nat.mod_eq_of_lt h.size_lt]
  · intro hbit
    have hsize := h.size_eq
    rw [dataSize, hbit, if_neg (by decide)] at hsize
    omega

/-- With the header of a normal response, what passes the checks is one. -/
theorem isNormalResponse_iff {registryType : RegistryType} {count : Nat} {slave f : Byte}
    {response : List Byte} :
    (∃ data, IsNormalResponse slave f (dataSize registryType count) data response) ↔
      PassesChecks registryType count response ∧
        HasHeader slave f (dataSize registryType count) response := by
  constructor
  · rintro ⟨data, h⟩
    have hframe : response =
        responseFrame slave f (BitVec.ofNat 8 (dataSize registryType count)) data := h.frame_eq
    obtain ⟨hi, lo, hshape⟩ := responseFrame_eq slave f
      (BitVec.ofNat 8 (dataSize registryType count)) data
    have hsize := h.size_eq
    refine ⟨h.passes, by rw [hframe, length_responseFrame, hsize], ?_, ?_⟩
    · rw [hframe, hshape]; rfl
    · rw [hframe, hshape]; rfl
  · rintro ⟨hpass, hheader⟩
    obtain ⟨a, b, c, data, hframe⟩ := exists_responseFrame hpass.length hpass.crc
    obtain ⟨hi, lo, hshape⟩ := responseFrame_eq a b c data
    have ha : a = slave := by rw [← hheader.slave, hframe, hshape]; rfl
    have hb : b = f := by rw [← hheader.function, hframe, hshape]; rfl
    have hc : c.toNat = dataSize registryType count := by
      rw [← hpass.byteCount, hframe, hshape]; rfl
    have hlength := hheader.length
    rw [hframe, length_responseFrame] at hlength
    refine ⟨data, by omega, by have := c.isLt; omega, ?_⟩
    rw [hframe, ha, hb, ← hc, BitVec.ofNat_toNat, BitVec.setWidth_eq]
    rfl

/-- A normal response is read to its end. -/
theorem received_of_normal {registryType : RegistryType} {count : Int} {slave f : Byte}
    {data answer : List Byte}
    (h : IsNormalResponse slave f (dataSize registryType count.toNat) data answer)
    (hcount : 0 ≤ count) : received count answer = answer := by
  have hlength : answer.length = dataSize registryType count.toNat + 5 :=
    (isNormalResponse_iff.mp ⟨data, h⟩).2.length
  have hle := dataSize_le registryType count.toNat
  rw [received, List.take_of_length_le (by omega)]

/-- A request that cannot be packed raises. -/
theorem packable_of_readsExactly {t : Transport} {registryType : RegistryType}
    {start count function : Int} {answer : List Byte}
    (hf : functionCode registryType = some function)
    (h : ReadsExactly t registryType start count answer) : Packable t start count := by
  obtain ⟨t', r, hread, -⟩ := h
  by_contra hp
  have herror : readRegisters t (.delivers answer) start count registryType =
      .error .structError := by
    rw [readRegisters, hf]
    simp only [buildRequest_of_not_packable hp]
    rfl
  rw [herror] at hread
  cases hread

/-- What passes the checks has to be a normal response. -/
theorem hasHeader_of_readsExactly {t : Transport} {registryType : RegistryType}
    {start count function : Int} {answer : List Byte}
    (hf : functionCode registryType = some function)
    (h : ReadsExactly t registryType start count answer)
    (hpass : PassesChecks registryType count.toNat (received count answer)) :
    HasHeader (BitVec.ofInt 8 t.slaveId) (BitVec.ofInt 8 function)
      (dataSize registryType count.toNat) (received count answer) := by
  have hp := packable_of_readsExactly hf h
  obtain ⟨t', r, hread, hexact, -⟩ := h
  rcases hexact with herror | ⟨f, data, hfun, hnormal, -⟩
  · rw [read_of_passes hp hf hpass t' r hread] at herror
    cases herror
  · rw [hf] at hfun
    cases hfun
    exact (isNormalResponse_iff.mp ⟨data, hnormal⟩).2

/-- **Exact reads.** A read from an open port is exact for the types that cannot be read, and for
the others if and only if the request can be packed and whatever passes the checks of the parser
has the length, the slave and the function of a normal response. -/
theorem readRegisters_exact_iff (t : Transport) (registryType : RegistryType) (start count : Int)
    (answer : List Byte) :
    ReadsExactly t registryType start count answer ↔
      ∀ function, functionCode registryType = some function →
        Packable t start count ∧
          (PassesChecks registryType count.toNat (received count answer) →
            HasHeader (BitVec.ofInt 8 t.slaveId) (BitVec.ofInt 8 function)
              (dataSize registryType count.toNat) (received count answer)) := by
  constructor
  · intro h function hf
    exact ⟨packable_of_readsExactly hf h, hasHeader_of_readsExactly hf h⟩
  intro h
  cases hf : functionCode registryType with
  | none =>
    have hread : readRegisters t (.delivers answer) start count registryType =
        .ok (t, .error) := by
      rw [readRegisters, hf]
    refine ⟨t, .error, hread, .inl rfl, fun _ _ hfun => ?_⟩
    rw [hf] at hfun
    cases hfun
  | some function =>
    obtain ⟨hp, hheader⟩ := h function hf
    by_cases hpass : PassesChecks registryType count.toNat (received count answer)
    · obtain ⟨data, hnormal⟩ := isNormalResponse_iff.mpr ⟨hpass, hheader hpass⟩
      obtain ⟨hread, hok, hcount⟩ := read_of_normal hp hf hnormal
      exact ⟨t, _, hread, .inr ⟨function, data, hf, hnormal, rfl, hcount⟩, fun _ _ _ _ => hok⟩
    · refine ⟨t, .error, read_of_not_passes hp hf hpass, .inl rfl, fun f data _ hnormal => ?_⟩
      rw [received_of_normal hnormal hp.2.2.1] at hpass
      exact absurd hnormal.passes hpass

/-- The device rejects a read of one coil with the exception code 1, and the first byte of the CRC
is taken for the coil. -/
theorem not_readsExactly_exception :
    ¬ReadsExactly { slaveId := 1 } .coil 0 1 (withCrc [1, 0x81, 1]) := by
  intro h
  have hheader := hasHeader_of_readsExactly (show functionCode .coil = some 0x01 from rfl) h
    ⟨by decide, by decide, by decide, by decide⟩
  exact absurd hheader.function (by decide)

end Pace

end ProtocolGateway
