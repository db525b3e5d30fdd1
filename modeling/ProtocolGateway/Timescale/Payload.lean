import ProtocolGateway.Values
import ProtocolGateway.Timescale.DateTime

/-!
# Flush payloads and their journal form

One data point on its way from `write_data` through the flush queue, and the form in which the
backlog journals it. `json.dumps` writes a value that `json.loads` reads back, so a JSON text
stands here for the value it denotes; the time stamp is the one field JSON has no form for, and
`default=str` turns it into its text.

The readings are the transport's, for one poll cycle: `int | float | str`, which JSON holds as it is.
The reader of the journal takes that on trust (a `cast`), and only the journal writes there; a value
of another kind is treated as malformed here.
-/

namespace ProtocolGateway

/-- A reading in JSON. -/
def PyValue.toJson : PyValue → Json
  | .int i => .int i
  | .float f => .float f
  | .str s => .str s

/-- The reading a JSON value is. -/
def Json.toPyValue? : Json → Option PyValue
  | .int i => some (.int i)
  | .float f => some (.float f)
  | .str s => some (.str s)
  | _ => none

theorem toPyValue?_toJson (v : PyValue) : v.toJson.toPyValue? = some v := by
  cases v <;> rfl

/-- `_FlushPayloadBase`: one data point in the flush queue. -/
structure FlushPayload where
  deviceInfoId : Int
  /-- the readings of one poll cycle -/
  metrics : List (String × PyValue)
  mTime : DateTime
  transportName : String
  protocol : String
  /-- `none` means a narrow-only protocol -/
  wideTableName : Option String

/-- An item of the flush queue: `backlog_rowid` is present on a point replayed from the backlog. -/
structure QueueItem where
  payload : FlushPayload
  backlogRowid : Option Nat

/-- The value of `payload_str`: every field but `backlog_rowid`. -/
def FlushPayload.toJson (p : FlushPayload) : Json :=
  .dict
    [("device_info_id", .int p.deviceInfoId), ("metrics", .dict (p.metrics.map fun kv => (kv.1, kv.2.toJson))),
      ("m_time", .str (String.ofList p.mTime.str)), ("transport_name", .str p.transportName),
      ("protocol", .str p.protocol),
      ("wide_table_name", match p.wideTableName with | none => .null | some name => .str name)]

/-- `_flush_payload_from_json`: the payload a journalled value denotes, with the time stamp of its
row; `none` for the `_MalformedFlushPayload`. -/
def flushPayloadFromJson (parsed : Json) (mTime : DateTime) : Option FlushPayload :=
  match parsed with
  | .dict fields => do
    let deviceInfoId ← fields.lookup "device_info_id"
    let metrics ← fields.lookup "metrics"
    let transportName ← fields.lookup "transport_name"
    let protocol ← fields.lookup "protocol"
    let wideTableName ← fields.lookup "wide_table_name"
    match deviceInfoId, metrics, transportName, protocol, wideTableName with
    | .int deviceInfoId, .dict metrics, .str transportName, .str protocol, .null => do
      let metrics ← metrics.mapM fun kv => kv.2.toPyValue?.map fun v => (kv.1, v)
      some ⟨deviceInfoId, metrics, mTime, transportName, protocol, none⟩
    | .int deviceInfoId, .dict metrics, .str transportName, .str protocol, .str name => do
      let metrics ← metrics.mapM fun kv => kv.2.toPyValue?.map fun v => (kv.1, v)
      some ⟨deviceInfoId, metrics, mTime, transportName, protocol, some name⟩
    | _, _, _, _, _ => none
  | _ => none

/-- The readings survive the journal. -/
theorem mapM_toPyValue? (metrics : List (String × PyValue)) :
    (metrics.map fun kv => (kv.1, kv.2.toJson)).mapM
      (fun kv => kv.2.toPyValue?.map fun v => (kv.1, v)) = some metrics := by
  induction metrics with
  | nil => rfl
  | cons kv metrics ih =>
    rw [List.map_cons, List.mapM_cons, ih, toPyValue?_toJson]
    rfl

/-- **The journal round trip.** What is read back with the point's own time stamp is the point. -/
theorem flushPayloadFromJson_toJson (p : FlushPayload) :
    flushPayloadFromJson p.toJson p.mTime = some p := by
  obtain ⟨deviceInfoId, metrics, mTime, transportName, protocol, wideTableName⟩ := p
  have hmetrics := mapM_toPyValue? metrics
  cases wideTableName with
  | none =>
    show Option.bind _ _ = _
    simp [hmetrics]
  | some name =>
    show Option.bind _ _ = _
    simp [hmetrics]

end ProtocolGateway
