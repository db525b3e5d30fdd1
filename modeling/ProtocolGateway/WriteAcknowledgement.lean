import ProtocolGateway.FieldWords
import ProtocolGateway.Pace.Response

/-!
# Carrying out a write

`write_variable` ends in `write_registers` or `write_coil`, whose answer tells whether the device
has taken the value. `modbus_base` hands both to the Modbus client of the transport. The transports
over TCP, UDP, TLS and RTU set that client when they are made. `pace` has its own serial port
instead: it overrides `write_coil`, but `write_registers` is the one of `modbus_base`, which finds
no client. Its `write_register` is a name that nothing calls.

The client is not part of the source. `Client.Documented` is what is used of it: a valid
acknowledgement is returned as a response that is no error, and nothing else is.
-/

namespace ProtocolGateway

open BigEndian Outcomes ProtocolSettings

/-! ## The client -/

/-- What a call of the client ends in. -/
inductive ClientResult
  | raises
  /-- `None` -/
  | nothing
  | bytes
  /-- a response with its `isError()` -/
  | response (isError : Bool)
deriving DecidableEq

/-- A Modbus client and the devices behind it. -/
structure Client where
  /-- what a device does with a request: acknowledge it, refuse it, answer garbage or nothing -/
  Answer : Type
  /-- the answer is a valid acknowledgement of the request to the device -/
  Acknowledges : WriteRequest → Int → Answer → Prop
  /-- `client.write_registers` and `client.write_coil` -/
  call : WriteRequest → Int → Answer → ClientResult

/-- A client reports an acknowledgement, and an acknowledgement only, as a response without
error. -/
structure Client.Documented (client : Client) : Prop where
  acknowledged : ∀ {request deviceId answer}, client.Acknowledges request deviceId answer →
    client.call request deviceId answer = .response false
  refused : ∀ {request deviceId answer}, ¬client.Acknowledges request deviceId answer →
    client.call request deviceId answer ≠ .response false

/-! ## The writes of the classes -/

/-- A request on the connection of a transport. -/
inductive Sent
  | call (request : WriteRequest) (deviceId : Int)
  | frame (bytes : List Byte)
deriving DecidableEq

/-- What was sent, and what the caller is told. -/
structure WriteOutcome where
  sent : List Sent
  result : Bool
deriving DecidableEq

/-- `_check_write_response`. -/
def checkWriteResponse : ClientResult → Bool
  | .response isError => !isError
  | _ => false

namespace ModbusBase

/-- The common body of `write_registers` and `write_coil`, given the call of `self.client`. -/
def write (writeEnabled : Bool) (call : Option (WriteRequest → ClientResult)) (deviceId : Int)
    (request : WriteRequest) : WriteOutcome :=
  if !writeEnabled then { sent := [], result := false }
  else
    match call with
    | none => { sent := [], result := false }
    | some call =>
      let result := match call request with
        | .raises => false
        | response => checkWriteResponse response
      { sent := [.call request deviceId], result := result }

/-- `modbus_base.write_registers`. -/
def writeRegisters (writeEnabled : Bool) (call : Option (WriteRequest → ClientResult))
    (deviceId startRegister : Int) (values : List Word) : WriteOutcome :=
  write writeEnabled call deviceId (.registers startRegister values)

/-- `modbus_base.write_coil`. -/
def writeCoil (writeEnabled : Bool) (call : Option (WriteRequest → ClientResult))
    (deviceId register : Int) (value : Bool) : WriteOutcome :=
  write writeEnabled call deviceId (.coil register value)

end ModbusBase

namespace Pace

/-- The number that stands for the state of a coil. -/
def coilValue (value : Bool) : Int := if value then 0xFF00 else 0x0000

/-- `pace.write_coil`. A CRC mismatch and an exception of the port are logged, and the write counts
as successful. -/
def writeCoil (writeEnabled : Bool) (slaveId : Int) (port : Port) (register : Int) (value : Bool) :
    Except PyError WriteOutcome :=
  if !writeEnabled then .ok { sent := [], result := false }
  else
    match port with
    | .closed => .ok { sent := [], result := false }
    | .fails => do
      let payload ← packFields slaveId 0x05 register (coilValue value)
      return { sent := [.frame (withCrc payload)], result := true }
    | .delivers answer => do
      let payload ← packFields slaveId 0x05 register (coilValue value)
      let response := answer.take 8
      if response.length < 8 then
        return { sent := [.frame (withCrc payload)], result := false }
      return { sent := [.frame (withCrc payload)], result := true }

/-- The frames that ask a device for a write, each with its acknowledgement: functions 5 and 6 are
echoed, function 16 is answered by the range it wrote. -/
def exchanges (slaveId : Int) : WriteRequest → List (List Byte × List Byte)
  | .coil register value =>
    (packFields slaveId 0x05 register (coilValue value)).toOption.toList.map fun payload =>
      (withCrc payload, withCrc payload)
  | .registers start values =>
    let single := match values with
      | [value] => (packFields slaveId 0x06 start value.toNat).toOption.toList.map fun payload =>
          (withCrc payload, withCrc payload)
      | _ => []
    let multiple := (packFields slaveId 0x10 start values.length).toOption.toList.map fun payload =>
      let data := values.flatMap fun value => value.toBytes false
      (withCrc (payload ++ BitVec.ofNat 8 data.length :: data), withCrc payload)
    single ++ multiple

end Pace

/-- A transport whose connection is open, and what its device answers. -/
inductive WriteLink (client : Client)
  /-- `modbus_tcp`, `modbus_rtu`, `modbus_udp` and `modbus_tls` -/
  | client (deviceId : Int) (answer : client.Answer)
  /-- `pace` -/
  | pace (slaveId : Int) (port : Pace.Port)

namespace WriteLink

variable {client : Client}

/-- The last call of `write_variable`. -/
def perform (writeEnabled : Bool) : WriteLink client → WriteRequest → Except PyError WriteOutcome
  | .client deviceId answer, .registers start values =>
    .ok (ModbusBase.writeRegisters writeEnabled
      (some fun request => client.call request deviceId answer) deviceId start values)
  | .client deviceId answer, .coil register value =>
    .ok (ModbusBase.writeCoil writeEnabled
      (some fun request => client.call request deviceId answer) deviceId register value)
  | .pace slaveId _, .registers start values =>
    .ok (ModbusBase.writeRegisters writeEnabled none slaveId start values)
  | .pace slaveId port, .coil register value =>
    Pace.writeCoil writeEnabled slaveId port register value

/-- The port of a `pace` transport is open. -/
def IsOpen : WriteLink client → Prop
  | .client _ _ => True
  | .pace _ port => port ≠ .closed

/-- What was sent is a request for the write. -/
def Carries : WriteLink client → WriteRequest → Sent → Prop
  | .client deviceId _, request, sent => sent = .call request deviceId
  | .pace slaveId _, request, sent => ∃ x ∈ Pace.exchanges slaveId request, sent = .frame x.1

/-- The device has answered with a valid acknowledgement of the write. -/
def Acknowledged : WriteLink client → WriteRequest → Prop
  | .client deviceId answer, request => client.Acknowledges request deviceId answer
  | .pace slaveId port, request => ∃ x ∈ Pace.exchanges slaveId request, ∃ answer,
      port = .delivers answer ∧ answer.take 8 = x.2

/-- The write is carried out, and the caller is told the truth about it. -/
structure CarriedOut (link : WriteLink client) (request : WriteRequest) (outcome : WriteOutcome) :
    Prop where
  sent : ∃ sent, outcome.sent = [sent] ∧ link.Carries request sent
  result : outcome.result = true ↔ link.Acknowledged request

end WriteLink

namespace ProtocolSettings

variable (ps : ProtocolSettings) {V : Type} (ops : Arithmetic V) (mode : TransportWriteMode)

/-- `write_variable` to its end, with writing enabled. -/
def writeVariableOn {client : Client} (link : WriteLink client) (registryType : RegistryType)
    (registry : Int → Option Word) (e : RegistryMapEntry) (value : V) :
    Except PyError (Option WriteOutcome) := do
  match ← ps.writeVariable ops mode registryType registry e value with
  | none => return none
  | some request => return some (← link.perform true request)

/-- The coil path of `write_variable` has no way to refuse a value. -/
theorem writeVariable_coil_iff {registry : Int → Option Word} {e : RegistryMapEntry} {value : V}
    {request : WriteRequest} :
    ps.writeVariable ops mode .coil registry e value = .ok (some request) ↔
      ∃ on, coilBool ops (writtenValue ops value) = .ok on ∧ request = .coil e.register on := by
  unfold writeVariable
  dsimp only
  rw [if_pos rfl]
  constructor
  · intro h
    obtain ⟨on, hon, h⟩ := bind_eq_ok_iff.mp h
    cases h
    exact ⟨on, hon, rfl⟩
  · rintro ⟨on, hon, rfl⟩
    exact bind_eq_ok_iff.mpr ⟨on, hon, rfl⟩

end ProtocolSettings

/-! ## Carrying out -/

section

variable {client : Client}

/-- Over a documented client the answer of the device is what the caller is told. -/
theorem ModbusBase.carriedOut_write (hclient : client.Documented) (deviceId : Int)
    (answer : client.Answer) (request : WriteRequest) :
    (WriteLink.client deviceId answer).CarriedOut request
      (ModbusBase.write true (some fun request => client.call request deviceId answer) deviceId
        request) := by
  refine ⟨⟨.call request deviceId, rfl, rfl⟩, ?_⟩
  by_cases hack : client.Acknowledges request deviceId answer
  · refine iff_of_true ?_ hack
    simp only [ModbusBase.write, hclient.acknowledged hack]
    rfl
  · refine iff_of_false ?_ hack
    have hne := hclient.refused hack
    intro hresult
    simp only [ModbusBase.write] at hresult
    cases hcall : client.call request deviceId answer with
    | response isError =>
      cases isError
      · exact hne hcall
      · rw [hcall] at hresult
        cases hresult
    | raises | nothing | bytes =>
      rw [hcall] at hresult
      cases hresult

/-- Without a client nothing is sent. -/
theorem ModbusBase.not_carriedOut_write {link : WriteLink client} {deviceId : Int}
    {request request' : WriteRequest} :
    ¬link.CarriedOut request (ModbusBase.write true none deviceId request') := by
  rintro ⟨⟨sent, hsent, -⟩, -⟩
  cases hsent

namespace Pace

/-- The payload that switches a coil. -/
def coilPayload (slaveId register : Int) (value : Bool) : List Byte :=
  [BitVec.ofInt 8 slaveId, 0x05] ++ Word.toBytes false (BitVec.ofInt 16 register) ++
    Word.toBytes false (BitVec.ofInt 16 (coilValue value))

/-- A coil write that can be packed. -/
def CoilPackable (slaveId register : Int) : Prop :=
  (0 ≤ slaveId ∧ slaveId < 256) ∧ 0 ≤ register ∧ register < 65536

theorem packFields_coil {slaveId register : Int} (value : Bool)
    (h : CoilPackable slaveId register) :
    packFields slaveId 0x05 register (coilValue value) =
      .ok (coilPayload slaveId register value) := by
  have hvalue : 0 ≤ coilValue value ∧ coilValue value < 65536 := by cases value <;> decide
  rw [packFields, if_pos ⟨h.1, by decide, h.2, hvalue⟩]
  rfl

theorem packFields_not_coil {slaveId register : Int} (value : Bool)
    (h : ¬CoilPackable slaveId register) :
    packFields slaveId 0x05 register (coilValue value) = .error .structError := by
  rw [packFields, if_neg fun hp => h ⟨hp.1, hp.2.2.1⟩]

theorem exchanges_coil {slaveId register : Int} (value : Bool)
    (h : CoilPackable slaveId register) :
    exchanges slaveId (.coil register value) =
      [(withCrc (coilPayload slaveId register value),
        withCrc (coilPayload slaveId register value))] := by
  rw [exchanges, packFields_coil value h]
  rfl

/-- A coil is switched truthfully unless the port raises or answers with eight or more bytes that
are not the echo. -/
theorem writeCoil_carriedOut_iff {slaveId register : Int} {port : Port} {value : Bool}
    (hopen : port ≠ .closed) :
    (∃ outcome, writeCoil true slaveId port register value = .ok outcome ∧
        (WriteLink.pace slaveId port : WriteLink client).CarriedOut (.coil register value)
          outcome) ↔
      CoilPackable slaveId register ∧ ∃ answer, port = .delivers answer ∧
        (8 ≤ answer.length → answer.take 8 = withCrc (coilPayload slaveId register value)) := by
  have hlength : (withCrc (coilPayload slaveId register value)).length = 8 := rfl
  by_cases hp : CoilPackable slaveId register
  swap
  · refine iff_of_false ?_ fun h => hp h.1
    rintro ⟨outcome, houtcome, -⟩
    cases port with
    | closed => exact hopen rfl
    | fails | delivers =>
      simp only [writeCoil, packFields_not_coil value hp] at houtcome
      cases houtcome
  have hack : (WriteLink.pace slaveId port : WriteLink client).Acknowledged
      (.coil register value) ↔ ∃ answer, port = .delivers answer ∧
        answer.take 8 = withCrc (coilPayload slaveId register value) := by
    simp only [WriteLink.Acknowledged, exchanges_coil value hp, List.mem_singleton, exists_eq_left]
  have hsent : (WriteLink.pace slaveId port : WriteLink client).Carries (.coil register value)
      (.frame (withCrc (coilPayload slaveId register value))) :=
    ⟨_, by rw [exchanges_coil value hp]; exact List.mem_singleton_self _, rfl⟩
  cases port with
  | closed => exact absurd rfl hopen
  | fails =>
    -- the exception is logged, and the caller is told that the coil was switched
    refine iff_of_false ?_ (by rintro ⟨-, answer, hport, -⟩; cases hport)
    rintro ⟨outcome, houtcome, hcarried⟩
    simp only [writeCoil, packFields_coil value hp] at houtcome
    cases houtcome
    obtain ⟨answer, hport, -⟩ := hack.mp (hcarried.result.mp rfl)
    cases hport
  | delivers answer =>
    by_cases hshort : (answer.take 8).length < 8
    · have hlt : answer.length < 8 := by rw [List.length_take] at hshort; omega
      have hwrite : writeCoil true slaveId (.delivers answer) register value =
          .ok ⟨[.frame (withCrc (coilPayload slaveId register value))], false⟩ := by
        simp only [writeCoil, packFields_coil value hp, hshort]
        rfl
      refine iff_of_true ⟨_, hwrite, ⟨_, rfl, hsent⟩, ?_⟩ ⟨hp, answer, rfl, fun h => by omega⟩
      refine iff_of_false Bool.false_ne_true fun h => ?_
      obtain ⟨_, ⟨⟩, hecho⟩ := hack.mp h
      rw [hecho, hlength] at hshort
      omega
    · have hge : 8 ≤ answer.length := by rw [List.length_take] at hshort; omega
      have hwrite : writeCoil true slaveId (.delivers answer) register value =
          .ok ⟨[.frame (withCrc (coilPayload slaveId register value))], true⟩ := by
        simp only [writeCoil, packFields_coil value hp, hshort]
        rfl
      rw [hwrite]
      constructor
      · rintro ⟨outcome, ⟨⟩, hcarried⟩
        obtain ⟨_, ⟨⟩, hecho⟩ := hack.mp (hcarried.result.mp rfl)
        exact ⟨hp, answer, rfl, fun _ => hecho⟩
      · rintro ⟨-, _, ⟨⟩, hecho⟩
        exact ⟨_, rfl, ⟨_, rfl, hsent⟩, iff_of_true rfl (hack.mpr ⟨answer, rfl, hecho hge⟩)⟩

end Pace

/-- When a transport carries the write of an entry out truthfully. -/
def WriteLink.Truthful {V : Type} (ops : Arithmetic V) (registryType : RegistryType)
    (e : RegistryMapEntry) (value : V) : WriteLink client → Prop
  | .client _ _ => True
  | .pace slaveId port =>
    registryType = .coil ∧ Pace.CoilPackable slaveId e.register ∧ ∃ answer,
      port = .delivers answer ∧ (8 ≤ answer.length →
        ∀ on, coilBool ops (writtenValue ops value) = .ok on →
          answer.take 8 = Pace.withCrc (Pace.coilPayload slaveId e.register on))

/-- **Writes.** An accepted write to a holding register or a coil is carried out and confirmed
truthfully by the transports over a Modbus client. By `pace` it is if and only if the entry is a
coil, the request can be packed, the port raises nothing, and an answer of eight bytes is the echo
of the request. -/
theorem writeVariableOn_carriedOut_iff {V : Type} {ps : ProtocolSettings} {ops : Arithmetic V}
    {mode : TransportWriteMode} (hclient : client.Documented) {link : WriteLink client}
    (hopen : link.IsOpen) {registryType : RegistryType}
    (htype : registryType = .holding ∨ registryType = .coil) {registry : Int → Option Word}
    {e : RegistryMapEntry} {value : V} {request : WriteRequest}
    (haccepted : ps.writeVariable ops mode registryType registry e value = .ok (some request)) :
    (∃ outcome, ps.writeVariableOn ops mode link registryType registry e value =
        .ok (some outcome) ∧ link.CarriedOut request outcome) ↔
      link.Truthful ops registryType e value := by
  have hperform : ps.writeVariableOn ops mode link registryType registry e value =
      (link.perform true request).map some := by
    rw [writeVariableOn, haccepted]
    change (link.perform true request >>= fun outcome => pure (some outcome)) = _
    cases link.perform true request <;> rfl
  have hsome : ∀ outcome, (link.perform true request).map some = .ok (some outcome) ↔
      link.perform true request = .ok outcome := by
    intro outcome
    cases link.perform true request <;> simp [Except.map]
  simp only [hperform, hsome]
  cases link with
  | client deviceId answer =>
    refine iff_of_true ⟨_, ?_, ModbusBase.carriedOut_write hclient deviceId answer request⟩ trivial
    cases request <;> rfl
  | pace slaveId port =>
    rcases htype with rfl | rfl
    · obtain ⟨_, _, _, _, words, -, -, -, -, -, -, -, rfl⟩ := writeVariable_eq_some_iff.mp haccepted
      refine iff_of_false ?_ (by rintro ⟨⟨⟩, -⟩)
      rintro ⟨_, ⟨⟩, hcarried⟩
      exact ModbusBase.not_carriedOut_write hcarried
    · obtain ⟨on, hon, rfl⟩ := (writeVariable_coil_iff ps ops mode).mp haccepted
      refine (Pace.writeCoil_carriedOut_iff hopen).trans ⟨?_, ?_⟩
      · rintro ⟨hp, answer, hport, hecho⟩
        refine ⟨rfl, hp, answer, hport, fun hlength on' hon' => ?_⟩
        rw [hon] at hon'
        cases hon'
        exact hecho hlength
      · rintro ⟨-, hp, answer, hport, hecho⟩
        exact ⟨hp, answer, hport, fun hlength => hecho hlength on hon⟩

end

/-! ## A client -/

/-- A client whose devices acknowledge a request or refuse it. -/
def plainClient : Client where
  Answer := Bool
  Acknowledges := fun _ _ answer => answer = true
  call := fun _ _ answer => .response (!answer)

theorem plainClient_documented : plainClient.Documented where
  acknowledged := by
    rintro _ _ _ rfl
    rfl
  refused := by
    intro _ _ answer h hcall
    cases answer
    · cases hcall
    · exact h rfl

/-- The arithmetic of the source without the conversions of texts. -/
def plainArithmetic : Arithmetic PyValue :=
  floatArithmetic default {} (fun _ => .error .structError) fun _ => .error .structError

/-- A writable coil. -/
def relay : RegistryMapEntry :=
  ({ cell := "0", variableName := "relay", writeMode := .write } : Row).entry .coil
    { register := 0, registerByte := 0 } 0

theorem writeVariable_relay (registry : Int → Option Word) :
    ({} : ProtocolSettings).writeVariable plainArithmetic .write .coil registry relay
      (.str "on") = .ok (some (.coil 0 true)) :=
  (writeVariable_coil_iff {} plainArithmetic .write).mpr ⟨true, by rfl, rfl⟩

/-- A client that acknowledges the switching of a coil. -/
theorem writeVariableOn_relay :
    (∃ outcome, ({} : ProtocolSettings).writeVariableOn plainArithmetic .write
        (WriteLink.client 1 true : WriteLink plainClient) .coil (fun _ => none) relay
          (.str "on") = .ok (some outcome) ∧
        (WriteLink.client 1 true : WriteLink plainClient).CarriedOut (.coil 0 true) outcome) ↔
      (WriteLink.client 1 true : WriteLink plainClient).Truthful plainArithmetic .coil relay
        (.str "on") :=
  writeVariableOn_carriedOut_iff plainClient_documented (show WriteLink.IsOpen (.client 1 true) from
    trivial) (.inr rfl) (writeVariable_relay fun _ => none)

/-- The answer to the switching of a coil is eight bytes that are no frame, and the caller is told
that the coil was switched. -/
theorem not_carriedOut_relay :
    ¬∃ outcome, ({} : ProtocolSettings).writeVariableOn plainArithmetic .write
        (WriteLink.pace 1 (.delivers (List.replicate 8 0)) : WriteLink plainClient) .coil
          (fun _ => none) relay (.str "on") = .ok (some outcome) ∧
        (WriteLink.pace 1 (.delivers (List.replicate 8 0)) : WriteLink plainClient).CarriedOut
          (.coil 0 true) outcome := by
  rintro ⟨outcome, houtcome, hcarried⟩
  have hwrite : Pace.writeCoil true 1 (.delivers (List.replicate 8 0)) 0 true = .ok outcome := by
    rw [writeVariableOn, writeVariable_relay] at houtcome
    cases houtcome
    rfl
  obtain ⟨-, _, ⟨⟩, hecho⟩ :=
    (Pace.writeCoil_carriedOut_iff (by simp)).mp ⟨outcome, hwrite, hcarried⟩
  exact absurd (hecho (by decide)) (by decide)

end ProtocolGateway
