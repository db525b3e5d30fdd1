import ProtocolGateway.Staleness
import ProtocolGateway.Timescale.Backlog
import ProtocolGateway.Timescale.RawMetrics

/-!
# The flush worker, one item at a time

`_flush_one` takes one item off the flush queue to its end: written, kept for a retry, dropped, or
cut short by an exception. What it meets on the way is the `Answers` of the world around it: the
database at every step that talks to it, the stop request, the connection flags as the reconnect
thread left them, and the backlog's disk. A step of the transaction that fails did not happen.

* `isConnectionError`, `isTransientError` — how a failure is classified.
* `checkIsStale`, `validateWideRow`, `writeRows` — the parts of `_flush_one_inner`.
* `flushOneInner`, `flushOne` — the item's way, and the settlement in the `finally` block.

The worker's messages are part of the result, one `Notice` for each log line that gives the reason
why a point is not written.
-/

namespace ProtocolGateway

/-! ## Exceptions -/

/-- An exception, as far as the flush worker tells exceptions apart. -/
inductive Raised
  /-- a `DBAPIError`: is it `connection_invalidated`, what is the `pgcode` of the driver's error, and
  is it an `OperationalError` or `InterfaceError` -/
  | dbapi (invalidated : Bool) (pgcode : Option String) (operational : Bool)
  /-- another `SQLAlchemyError` -/
  | sqlalchemy
  /-- the `ValueError` of `_validate_wide_row` -/
  | missingColumns
  /-- an exception of Python -/
  | python (e : PyError)
  deriving DecidableEq, Repr

namespace Raised

/-- `_is_connection_error`. -/
def isConnectionError : Raised → Bool
  | dbapi true _ _ => true
  | dbapi false (some pgcode) _ =>
    "08".toList.isPrefixOf pgcode.toList || pgcode ∈ ["57P01", "57P02", "57P03"]
  | dbapi false none operational => operational
  | _ => false

/-- `_TRANSIENT_PGCODES`. -/
def transientPgcodes : List String :=
  ["55P03", "57014", "53000", "53100", "53200", "53300", "53400"]

/-- `_is_transient_error`. -/
def isTransientError : Raised → Bool
  | dbapi _ (some pgcode) _ =>
    decide (pgcode ∈ transientPgcodes) || "40".toList.isPrefixOf pgcode.toList
  | _ => false

/-- Is it caught by `except (SQLAlchemyError, ValueError)`? -/
def caught : Raised → Bool
  | dbapi _ _ _ | sqlalchemy | missingColumns | python .valueError => true
  | python _ => false

/-- Is it a `SQLAlchemyError`? -/
def isSQLAlchemyError : Raised → Bool
  | dbapi _ _ _ | sqlalchemy => true
  | missingColumns | python _ => false

end Raised

/-! ## What the worker says -/

/-- The log lines that say what becomes of a point that is not written. -/
inductive Notice
  /-- "Stale data detected, skipping DB write." -/
  | stale
  /-- "No data detected, skipping DB write." -/
  | noData
  /-- "Database schema is still missing columns after resync" -/
  | missingColumns
  /-- "Database unreachable during flush write" -/
  | unreachable
  /-- "Database temporarily refused the write; the data point is kept for a retry" -/
  | refused
  /-- "Data write rejected by the database; this batch is dropped" -/
  | rejected
  /-- "Data write skipped; this batch is dropped" -/
  | skipped
  /-- "database unavailable and persistent storage is disabled" -/
  | storageDisabled
  /-- "backlog busy" -/
  | backlogBusy
  /-- "Backlog enqueue failed; data point was lost" -/
  | enqueueFailed
  /-- "Flush worker error while processing one item (item skipped)" -/
  | itemSkipped
  deriving DecidableEq, Repr

/-! ## The world of one item -/

/-- The settings of the flush worker. -/
structure FlushSettings where
  backlog : BacklogSettings
  enablePersistentStorage : Bool
  /-- seconds -/
  staleDataTimeout : Int

/-- The worker's view of the wide tables. -/
structure WideSchema where
  /-- `protocol_metric_mappings`: for each protocol the columns of its metrics and their types -/
  mappings : List (String × List (String × String × String))
  /-- the tables in `Base.metadata` -/
  tables : List String
  /-- `_wide_columns_cache` -/
  columns : List (String × List String)

/-- What `_check_is_stale` remembers of a transport. -/
structure StaleTransportState where
  lastRow : List (String × PyValue)
  startTs : DateTime

/-- `_stale_registry`. -/
abbrev StaleRegistry := List (String × StaleTransportState)

/-- What the worker meets while it processes one item. `none` means that a step succeeds. -/
structure Answers where
  /-- the reflection of the wide table in `sync_single_table_schema` -/
  reflect : Option Raised
  /-- the columns `_cache_wide_table_columns` reads, `none` if the query fails -/
  reflectedColumns : Option (List String)
  /-- `_stop_event.is_set()` before the write -/
  stopRequested : Bool
  /-- the connection flags before the write -/
  tsdbConnected : Bool
  reconnectThreadRunning : Bool
  /-- the steps of the transaction -/
  begin : Option Raised
  insertNarrow : Option Raised
  insertWide : Option Raised
  commit : Option Raised
  /-- `tsdb_connected` after a failed write -/
  connectedAfter : Bool
  /-- the failures of an `enqueue` -/
  busy : Bool
  deleteFails : Bool
  insertFails : Bool

/-- What is left after an item, or after a part of its way. -/
structure Flushed where
  backlog : Backlog
  schema : WideSchema
  registry : StaleRegistry
  /-- `_retain_unwritten` -/
  retainUnwritten : Bool
  /-- the transaction was committed -/
  committed : Bool
  notices : List Notice
  /-- does the worker stop, or what was raised -/
  result : Except Raised Bool

/-! ## Staleness -/

variable (host : Host)

/-- `_check_is_stale`. -/
def checkIsStale (cfg : FlushSettings) (registry : StaleRegistry) (transportName : String)
    (row : List (String × PyValue)) (timestamp : DateTime) : Except PyError Bool :=
  match registry.lookup transportName with
  | none => .ok false
  | some state => do
    if ← rowUnchanged host state.lastRow row then
      return decide (cfg.staleDataTimeout * 1000000 < timestamp.instant - state.startTs.instant)
    else return false

/-- `_commit_transport_state` for a row that is not stale. A stale row leaves what is remembered as
it is, unless nothing was. -/
def commitTransportState (registry : StaleRegistry) (transportName : String)
    (row : List (String × PyValue)) (timestamp : DateTime) : StaleRegistry :=
  (transportName, ⟨row, timestamp⟩) :: registry.filter fun kv => kv.1 ≠ transportName

/-! ## The wide row -/

/-- `protocol_metric_mappings.get(protocol, {})`. -/
def WideSchema.mappingOf (schema : WideSchema) (protocol : String) : List (String × String × String) :=
  (schema.mappings.lookup protocol).getD []

/-- `_wide_columns_cache.get(table_name, set())`. -/
def WideSchema.columnsOf (schema : WideSchema) (tableName : String) : List String :=
  (schema.columns.lookup tableName).getD []

/-- `_cache_wide_table_columns`: a failed query leaves the cache as it is. -/
def cacheWideTableColumns (schema : WideSchema) (tableName : String) :
    Option (List String) → List (String × List String)
  | some cols => (tableName, cols) :: schema.columns.filter fun kv => kv.1 ≠ tableName
  | none => schema.columns

/-- `sync_single_table_schema`: the table is forgotten before it is reflected again. -/
def syncSingleTableSchema (schema : WideSchema) (tableName : String) (a : Answers) :
    WideSchema × Option Raised :=
  let forgotten := { schema with tables := schema.tables.filter (· ≠ tableName) }
  match a.reflect with
  | some e => (forgotten, some e)
  | none =>
    ({ forgotten with
       tables := tableName :: forgotten.tables
       columns := cacheWideTableColumns schema tableName a.reflectedColumns }, none)

/-- The metrics of a row that have no column. -/
def extraKeys (schema : WideSchema) (tableName : String) (row : Dict String SqlValue) :
    List String :=
  row.keys.filter fun key =>
    key ≠ "m_time" ∧ key ≠ "device_info_id" ∧ key ∉ schema.columnsOf tableName

/-- `_validate_wide_row`, without the verdict on missing metrics, which only a log line uses. -/
def validateWideRow (schema : WideSchema) (tableName : String) (row : Dict String SqlValue)
    (a : Answers) : WideSchema × Option Raised :=
  if extraKeys schema tableName row = [] then (schema, none)
  else
    match syncSingleTableSchema schema tableName a with
    | (schema', some e) => (schema', some e)
    | (schema', none) =>
      if extraKeys schema' tableName row = [] then (schema', none)
      else (schema', some .missingColumns)

/-! ## The write -/

/-- The first failure among the steps of a block. -/
def firstFailure (steps : List (Option Raised)) : Option Raised := steps.findSome? id

/-- The body of the transaction: what is raised in it, if anything. Looking up a wide table that is
not in the metadata is a `KeyError`. -/
def writeRows (schema : WideSchema) (wideTableName : Option String) (narrow : Dict String PyValue)
    (a : Answers) : Option Raised :=
  firstFailure
    [a.begin,
      match RawMetrics.narrowRows host narrow with
      | .error e => some (.python e)
      | .ok [] => none
      | .ok _ => a.insertNarrow,
      match wideTableName with
      | none => none
      | some tableName =>
        if tableName ∈ schema.tables then a.insertWide else some (.python .keyError),
      a.commit]

/-! ## Keeping -/

/-- `_backlog_live_point`. -/
def backlogLivePoint (cfg : FlushSettings) (s : Backlog) (p : FlushPayload) (a : Answers) :
    Backlog × List Notice :=
  if cfg.enablePersistentStorage then
    match s.enqueue cfg.backlog p a.busy a.deleteFails a.insertFails with
    | (s', .stored) => (s', [])
    | (s', .busy) => (s', [.backlogBusy])
    | (s', .raised) => (s', [.enqueueFailed])
  else (s, [.storageDisabled])

/-- `_keep_unwritten`. -/
def keepUnwritten (cfg : FlushSettings) (f : Flushed) (item : QueueItem) (a : Answers) : Flushed :=
  match item.backlogRowid with
  | some _ => { f with retainUnwritten := true }
  | none =>
    let (s', notices) := backlogLivePoint cfg f.backlog item.payload a
    { f with backlog := s', notices := f.notices ++ notices }

/-- The `except (SQLAlchemyError, ValueError)` block. -/
def handleFailure (cfg : FlushSettings) (f : Flushed) (item : QueueItem) (a : Answers)
    (e : Raised) : Flushed :=
  let connectionLost := e.isConnectionError
  let transient := !connectionLost && e.isTransientError
  let notice : Notice :=
    if connectionLost then .unreachable
    else if transient then .refused
    else if e.isSQLAlchemyError then .rejected
    else .skipped
  let f := { f with notices := f.notices ++ [notice] }
  if connectionLost || transient || !a.connectedAfter then keepUnwritten cfg f item a else f

/-! ## One item -/

/-- `_flush_one_inner` after the rows are prepared and validated. -/
def writeItem (cfg : FlushSettings) (f : Flushed) (item : QueueItem)
    (narrow : Dict String PyValue) (a : Answers) : Flushed :=
  if a.stopRequested then { f with retainUnwritten := true, result := .ok true }
  else if !a.tsdbConnected && a.reconnectThreadRunning then keepUnwritten cfg f item a
  else
    match writeRows host f.schema item.payload.wideTableName narrow a with
    | none =>
      { f with
        committed := true
        registry := if item.backlogRowid.isSome then f.registry
          else commitTransportState f.registry item.payload.transportName item.payload.metrics
            item.payload.mTime }
    | some e => if e.caught then handleFailure cfg f item a e else { f with result := .error e }

/-- The part of `_flush_one_inner` that follows the stale check. -/
def flushRow (cfg : FlushSettings) (f : Flushed) (item : QueueItem) (a : Answers) : Flushed :=
  let p := item.payload
  let (wide, narrow) := RawMetrics.processRawMetrics host (f.schema.mappingOf p.protocol) p.metrics
  if wide.items = [] ∧ narrow.items = [] then { f with notices := f.notices ++ [.noData] }
  else
    match p.wideTableName with
    | some tableName =>
      if wide.items = [] then writeItem host cfg f item narrow a
      else
        match validateWideRow f.schema tableName wide a with
        | (schema', some e) =>
          { f with
            schema := schema'
            notices := f.notices ++ if e = .missingColumns then [.missingColumns] else []
            result := .error e }
        | (schema', none) => writeItem host cfg { f with schema := schema' } item narrow a
    | none => writeItem host cfg f item narrow a

/-- `_flush_one_inner`. Waiting for a migration has no effect on the item. -/
def flushOneInner (cfg : FlushSettings) (f : Flushed) (dataIn : Option QueueItem) (a : Answers) :
    Flushed :=
  match dataIn with
  | none => { f with result := .ok true }
  | some item =>
    let p := item.payload
    match (if item.backlogRowid.isSome then .ok false
      else checkIsStale host cfg f.registry p.transportName p.metrics p.mTime) with
    | .error e => { f with result := .error (.python e) }
    | .ok true => { f with notices := f.notices ++ [.stale] }
    | .ok false => flushRow host cfg f item a

/-- The `finally` block of `_flush_one`. -/
def settle (cfg : FlushSettings) (f : Flushed) (dataIn : Option QueueItem) (a : Answers) :
    Flushed :=
  match dataIn with
  | none => f
  | some item =>
    match item.backlogRowid with
    | some rowid =>
      { f with
        backlog :=
          if f.retainUnwritten then f.backlog.release rowid else (f.backlog.ack rowid).1 }
    | none =>
      if f.retainUnwritten then
        let (s', notices) := backlogLivePoint cfg f.backlog item.payload a
        { f with backlog := s', notices := f.notices ++ notices }
      else f

/-- The handler of `_flush_worker` around `_flush_one`. -/
def logSkipped (f : Flushed) : Flushed :=
  match f.result with
  | .ok _ => f
  | .error _ => { f with notices := f.notices ++ [.itemSkipped] }

/-- `_flush_one`, with the handler around it. The call of `commit_acks` an `ack` may make is a step
of its own. -/
def flushOne (cfg : FlushSettings) (s : Backlog) (schema : WideSchema) (registry : StaleRegistry)
    (dataIn : Option QueueItem) (a : Answers) : Flushed :=
  let f := flushOneInner host cfg ⟨s, schema, registry, false, false, [], .ok false⟩ dataIn a
  logSkipped (settle cfg f dataIn a)

end ProtocolGateway
