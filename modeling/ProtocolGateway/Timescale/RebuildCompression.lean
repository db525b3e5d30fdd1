import Mathlib.Algebra.Order.BigOperators.Group.List
import Mathlib.Algebra.Ring.Nat
import Mathlib.Algebra.Order.Ring.Rat
import Mathlib.Data.Rat.Floor
import ProtocolGateway.Lib.Meter
import ProtocolGateway.Lib.Transactions
import ProtocolGateway.Timescale.Compression

/-!
# Rebuilding the compression

`rebuild_compression` takes the compressed chunks of the selected groups back to rows and compresses
them again. It plans the chunks of each table first, by the name of the table, and then works
through the plan: the compression jobs of a table are paused, its chunks converted one after the
other, each followed by a progress event, and the jobs resumed. The consumer may close the generator
at an event.

* `Rebuild` — a call, and what goes wrong in it.
* `pauseCompressionJobForTable`, `resumeCompressionJobForTable` — each in a transaction of its own.
* `rebuildCompression` — the run.
-/

namespace ProtocolGateway

namespace Timescale

namespace Compression

/-! ## A call -/

/-- What goes wrong in a run. -/
structure Faults where
  /-- the planning query of a table -/
  planning : List Char → Bool
  /-- the error of a conversion, by the number of conversions attempted before -/
  chunk : Nat → Option (List Char)
  /-- `alter_job` of a job, `scheduled := false` -/
  pause : Nat → Bool
  /-- `alter_job` of a job, `scheduled => true` -/
  resume : Nat → Bool

/-- A call of `rebuild_compression`. -/
structure Rebuild where
  catalog : Catalog
  protocolNames : Option (List (List Char))
  faults : Faults
  /-- `hypertable_size` when the last chunk is done -/
  sizeAfter : List Char → Nat

namespace Rebuild

/-- `all_groups`. -/
def groups (r : Rebuild) : List GroupTables :=
  compressionGroupTables r.catalog.registry r.protocolNames

/-- `selected_table_names`. -/
def selectedTables (r : Rebuild) : List (List Char) :=
  (r.groups.filter GroupTables.selected).flatMap GroupTables.tables

end Rebuild

/-! ## Sizes -/

/-- `_get_hypertable_total_sizes`. -/
def getHypertableTotalSizes (aggregates : List AggregateRow) (hypertableSize : List Char → Nat)
    (tableNames : List (List Char)) : Dict (List Char) Nat :=
  Dict.empty.update ((resolved aggregates tableNames).map fun row =>
    (row.viewName, hypertableSize row.qualifiedRelationName))

/-- `sizes.get(table_name, 0)`. -/
def sizeOf (sizes : Dict (List Char) Nat) (tableName : List Char) : Nat :=
  (sizes.get? tableName).getD 0

/-! ## The plan -/

/-- `_CompressionPlanItem`. -/
structure PlanItem where
  protocolName : List Char
  tableName : List Char
  chunkNames : List (List Char)
deriving DecidableEq, Repr

namespace Rebuild

/-- `old_total_sizes`. -/
def oldTotalSizes (r : Rebuild) : Dict (List Char) Nat :=
  getHypertableTotalSizes r.catalog.aggregates r.catalog.hypertableSize r.selectedTables

/-- The compressed chunks that the catalog lists under the name of a table. -/
def chunkRows (r : Rebuild) (tableName : List Char) : List ChunkRow :=
  r.catalog.chunks.filter fun chunk => chunk.hypertableName == tableName && chunk.isCompressed

/-- The plan for one table. -/
def planTable (r : Rebuild) (protocolName tableName : List Char) : Option PlanItem :=
  if r.faults.planning tableName then none
  else if (r.chunkRows tableName).isEmpty then none
  else some
    { protocolName := protocolName
      tableName := tableName
      chunkNames := (r.chunkRows tableName).map ChunkRow.chunkName }

/-- `plan`. -/
def plan (r : Rebuild) : List PlanItem :=
  (r.groups.filter GroupTables.selected).flatMap fun group =>
    group.tables.filterMap (r.planTable group.protocolName)

/-- `touched_table_names`. -/
def touchedTables (r : Rebuild) : List (List Char) := r.plan.map PlanItem.tableName

/-- `bytes_total`. -/
def bytesTotal (r : Rebuild) : Nat := (r.touchedTables.map (sizeOf r.oldTotalSizes)).sum

/-- `per_chunk_weight`, without rounding. -/
def perChunkWeight (r : Rebuild) (item : PlanItem) : ℚ :=
  (sizeOf r.oldTotalSizes item.tableName : ℚ) / item.chunkNames.length

end Rebuild

/-! ## Results and events -/

/-- `CompressionRebuildChunk`. -/
structure ChunkResult where
  tableName : List Char
  chunkName : List Char
  ok : Bool
  error : Option (List Char)
deriving DecidableEq, Repr

/-- `_CompressionRebuildPendingTable`. -/
structure PendingTable where
  tableName : List Char
  ok : Bool
  chunksOk : Nat
  chunksFailed : Nat
  sizeBeforeBytes : Nat
deriving DecidableEq, Repr

/-- `CompressionRebuildTable`. -/
structure RebuildTable extends PendingTable where
  sizeAfterBytes : Nat
deriving DecidableEq, Repr

/-- `_CompressionGroupAccumulator`. -/
structure GroupAccumulator where
  chunkResults : List ChunkResult
  tableResults : List PendingTable
  chunksOk : Nat
  chunksFailed : Nat
deriving DecidableEq, Repr

/-- The accumulator of a group before its first chunk. -/
def GroupAccumulator.empty : GroupAccumulator := ⟨[], [], 0, 0⟩

/-- `CompressionRebuildGroup`. -/
structure RebuildGroup where
  protocolName : List Char
  skipped : Bool
  ok : Bool
  chunksAttempted : Nat
  chunksOk : Nat
  chunksFailed : Nat
  sizeBeforeBytes : Nat
  sizeAfterBytes : Nat
  tables : List RebuildTable
  chunks : List ChunkResult
deriving DecidableEq, Repr

/-- `CompressionRebuildEvent`. -/
inductive RebuildEvent
  | progress (protocolName tableName : List Char) (bytesProcessed : Int) (bytesTotal : Nat)
  | done (groups : List RebuildGroup)
deriving DecidableEq, Repr

/-- Where a run stands. -/
structure RebuildState where
  jobs : List JobRow
  groupAcc : Dict (List Char) GroupAccumulator
  bytesProcessed : ℚ
  /-- the relations that were converted, or failed to be -/
  attempts : List (List Char)
  events : List RebuildEvent

/-! ## Jobs -/

/-- `SELECT alter_job(:job_id, scheduled => …)`. -/
def alterJob (scheduled : Bool) (jobId : Nat) (jobs : List JobRow) : List JobRow :=
  jobs.map fun job => if job.jobId = jobId then { job with scheduled := scheduled } else job

/-- The statements that alter jobs one after the other. -/
def alterJobs (fails : Nat → Bool) (scheduled : Bool) (jobIds : List Nat) :
    List (Statement (List JobRow)) :=
  jobIds.map fun jobId => ⟨fails jobId, alterJob scheduled jobId⟩

/-- The scheduled compression jobs of a table. -/
def compressionJobs (tableName : List Char) (jobs : List JobRow) : List JobRow :=
  jobs.filter fun job => job.hypertableName == tableName &&
    decide ("compress".toList <:+: lowerText job.procName) && job.scheduled

/-- `pause_compression_job_for_table`, with the jobs it returns. -/
def pauseCompressionJobForTable (faults : Faults) (tableName : List Char)
    (session : Transaction (List JobRow)) : Transaction (List JobRow) × List Nat :=
  let jobIds := (compressionJobs tableName session.current).map JobRow.jobId
  let session := session.untilFailure (alterJobs faults.pause false jobIds)
  if session.aborted then (session, []) else (session, jobIds)

/-- `resume_compression_job_for_table`. -/
def resumeCompressionJobForTable (faults : Faults) (jobIds : List Nat)
    (session : Transaction (List JobRow)) : Transaction (List JobRow) :=
  session.catching (alterJobs faults.resume true jobIds)

/-! ## The work -/

/-- The name that a chunk is converted under. -/
def qualifiedChunk (chunkName : List Char) : List Char :=
  if chunkSchema.isPrefixOf chunkName then chunkName else chunkSchema ++ chunkName

/-- The work on one table: the state, `table_chunks_ok`, `table_chunks_failed`, and whether the
consumer has closed the generator. -/
structure TableRun where
  state : RebuildState
  chunksOk : Nat
  chunksFailed : Nat
  closed : Bool

namespace Rebuild

/-- One chunk: the conversions, the results, and the event. -/
def rebuildChunk (r : Rebuild) (item : PlanItem) (chunkName : List Char) (run : TableRun) :
    TableRun :=
  let st := run.state
  let error := r.faults.chunk st.attempts.length
  let ok := if error.isNone then 1 else 0
  let failed := if error.isNone then 0 else 1
  let acc := (st.groupAcc.get? item.protocolName).getD .empty
  let bytesProcessed := st.bytesProcessed + r.perChunkWeight item
  { run with
    state :=
      { st with
        groupAcc := st.groupAcc.set item.protocolName
          { acc with
            chunksOk := acc.chunksOk + ok
            chunksFailed := acc.chunksFailed + failed
            chunkResults :=
              acc.chunkResults ++ [⟨item.tableName, chunkName, error.isNone, error⟩] }
        bytesProcessed := bytesProcessed
        attempts := st.attempts ++ [qualifiedChunk chunkName]
        events := st.events ++ [.progress item.protocolName item.tableName
          (Meter.shown (r.bytesTotal : ℚ) bytesProcessed) r.bytesTotal] }
    chunksOk := run.chunksOk + ok
    chunksFailed := run.chunksFailed + failed }

/-- The chunks of a table. The consumer closes the generator when it has received as many events. -/
def rebuildChunks (r : Rebuild) (closeAt : Option Nat) (item : PlanItem) :
    List (List Char) → TableRun → TableRun
  | [], run => run
  | chunkName :: rest, run =>
    let next := r.rebuildChunk item chunkName run
    if closeAt = some next.state.events.length then { next with closed := true }
    else r.rebuildChunks closeAt item rest next

/-- One table. Its jobs are resumed also when the generator is closed. -/
def rebuildTable (r : Rebuild) (closeAt : Option Nat) (item : PlanItem) (st : RebuildState) :
    RebuildState × Bool :=
  let (session, pausedJobIds) :=
    pauseCompressionJobForTable r.faults item.tableName (.fresh st.jobs)
  let run := r.rebuildChunks closeAt item item.chunkNames
    ⟨{ st with jobs := session.commit }, 0, 0, false⟩
  let jobs :=
    if pausedJobIds.isEmpty then run.state.jobs
    else (resumeCompressionJobForTable r.faults pausedJobIds (.fresh run.state.jobs)).commit
  let st := { run.state with jobs := jobs }
  if run.closed then (st, true)
  else
    let acc := (st.groupAcc.get? item.protocolName).getD .empty
    let result : PendingTable :=
      { tableName := item.tableName
        ok := run.chunksFailed == 0
        chunksOk := run.chunksOk
        chunksFailed := run.chunksFailed
        sizeBeforeBytes := sizeOf r.oldTotalSizes item.tableName }
    ({ st with
        groupAcc := st.groupAcc.set item.protocolName
          { acc with tableResults := acc.tableResults ++ [result] } }, false)

/-- The work pass, and whether the consumer has closed the generator in it. -/
def rebuildTables (r : Rebuild) (closeAt : Option Nat) :
    List PlanItem → RebuildState → RebuildState × Bool
  | [], st => (st, false)
  | item :: rest, st =>
    let out := r.rebuildTable closeAt item st
    if out.2 then out else r.rebuildTables closeAt rest out.1

/-- The row of a group in the result. -/
def groupResult (r : Rebuild) (groupAcc : Dict (List Char) GroupAccumulator)
    (group : GroupTables) : RebuildGroup :=
  if group.selected then
    let newTotalSizes :=
      getHypertableTotalSizes r.catalog.aggregates r.sizeAfter r.touchedTables
    let acc := (groupAcc.get? group.protocolName).getD .empty
    let tables : List RebuildTable := acc.tableResults.map fun entry =>
      { entry with sizeAfterBytes := sizeOf newTotalSizes entry.tableName }
    { protocolName := group.protocolName
      skipped := false
      ok := acc.chunksFailed == 0
      chunksAttempted := acc.chunksOk + acc.chunksFailed
      chunksOk := acc.chunksOk
      chunksFailed := acc.chunksFailed
      sizeBeforeBytes := (tables.map fun table => table.sizeBeforeBytes).sum
      sizeAfterBytes := (tables.map fun table => table.sizeAfterBytes).sum
      tables := tables
      chunks := acc.chunkResults }
  else
    { protocolName := group.protocolName
      skipped := true
      ok := true
      chunksAttempted := 0
      chunksOk := 0
      chunksFailed := 0
      sizeBeforeBytes := 0
      sizeAfterBytes := 0
      tables := []
      chunks := [] }

/-- The state before the work pass. -/
def initial (r : Rebuild) : RebuildState where
  jobs := r.catalog.jobs
  groupAcc := Dict.empty.update
    ((r.groups.filter GroupTables.selected).map fun group => (group.protocolName, .empty))
  bytesProcessed := 0
  attempts := []
  events := []

/-- `rebuild_compression`, for a consumer that closes the generator after so many events, or not at
all. A generator that is closed before it is started does nothing. -/
def rebuildCompression (r : Rebuild) (closeAt : Option Nat) : RebuildState :=
  if closeAt = some 0 then r.initial
  else
    let out := r.rebuildTables closeAt r.plan r.initial
    if out.2 then out.1
    else { out.1 with
      events := out.1.events ++ [.done (r.groups.map (r.groupResult out.1.groupAcc))] }

end Rebuild

end Compression

end Timescale

end ProtocolGateway
