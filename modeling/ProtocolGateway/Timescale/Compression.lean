import Mathlib.Algebra.Order.BigOperators.Group.List
import Mathlib.Algebra.Ring.Nat
import Mathlib.Data.List.Dedup
import ProtocolGateway.Timescale.RollupNames

/-!
# The compression inventory

The chunks of a table are listed in the catalog under the name of its hypertable. A rollup view has
none of its own: its chunks are listed under the hypertable that it is materialized in.
`list_compression_groups` looks the hypertable up before it counts.

* `compressionGroupTables` — the tables of each group.
* `listCompressionGroups` — the inventory.
* `countedChunks`, `listCompressionGroups_counts` — the chunks that it counts.
-/

namespace ProtocolGateway

namespace Timescale

namespace Compression

/-! ## The catalog -/

/-- A row of `timescaledb_information.chunks`. -/
structure ChunkRow where
  hypertableName : List Char
  chunkName : List Char
  isCompressed : Bool
deriving DecidableEq, Repr

/-- A row of `timescaledb_information.continuous_aggregates`. -/
structure AggregateRow where
  viewName : List Char
  materializationHypertableSchema : List Char
  materializationHypertableName : List Char
deriving DecidableEq, Repr

/-- A row of `timescaledb_information.jobs`. -/
structure JobRow where
  jobId : Nat
  hypertableName : List Char
  procName : List Char
  scheduled : Bool
deriving DecidableEq, Repr

/-- A row of `protocol_registry`. -/
structure RegistryRow where
  protocolName : List Char
  rollupPrefix : Option (List Char)
  wideTableName : Option (List Char)
deriving DecidableEq, Repr

/-- Where the database creates its chunks. -/
def chunkSchema : List Char := "_timescaledb_internal.".toList

/-- What the database says of its tables. Views are named without their schema, so a name is that of
one view. -/
structure Catalog where
  /-- in the order of the protocol names -/
  registry : List RegistryRow
  aggregates : List AggregateRow
  chunks : List ChunkRow
  jobs : List JobRow
  /-- `coalesce(hypertable_size(to_regclass(name)), 0)` -/
  hypertableSize : List Char → Nat
  /-- the `before_compression_total_bytes` of `chunk_columnstore_stats(to_regclass(name))` -/
  bytesBeforeCompression : List Char → List Nat
  views_distinct : (aggregates.map AggregateRow.viewName).Nodup
  /-- the chunks of a view are those of the hypertable that it is materialized in -/
  views_apart : ∀ chunk ∈ chunks, ∀ aggregate ∈ aggregates,
    chunk.hypertableName ≠ aggregate.viewName
  chunks_distinct : (chunks.map ChunkRow.chunkName).Nodup
  chunks_unqualified : ∀ chunk ∈ chunks, chunkSchema.isPrefixOf chunk.chunkName = false
  jobs_distinct : (jobs.map JobRow.jobId).Nodup

/-! ## The groups -/

/-- `CompressionGroupTables`. -/
structure GroupTables where
  protocolName : List Char
  wideTableName : List Char
  selected : Bool
  tables : List (List Char)
deriving DecidableEq, Repr

/-- `protocol_names is None or protocol_name in protocol_names`. -/
def isSelected (protocolNames : Option (List (List Char))) (protocolName : List Char) : Bool :=
  protocolNames.all fun names => names.contains protocolName

/-- The rollup views of a wide table, none while its prefix is missing or empty. -/
def rollupTables : Option (List Char) → List (List Char)
  | none | some [] => []
  | some (c :: rest) => Granularity.all.map fun gran => viewName gran (c :: rest)

/-- `_compression_group_tables`. -/
def compressionGroupTables (registry : List RegistryRow)
    (protocolNames : Option (List (List Char))) : List GroupTables :=
  { protocolName := "shared_narrow".toList
    wideTableName := "device_metrics_narrow".toList
    selected := isSelected protocolNames "shared_narrow".toList
    tables := "device_metrics_narrow".toList :: narrowViewNames } ::
  registry.filterMap fun row => row.wideTableName.map fun wideTableName =>
    { protocolName := row.protocolName
      wideTableName := wideTableName
      selected := isSelected protocolNames row.protocolName
      tables := wideTableName :: rollupTables row.rollupPrefix }

/-! ## Views and their hypertables -/

/-- A row of `resolved`: a name and the hypertable it stands for. -/
structure ResolvedRow where
  viewName : List Char
  qualifiedRelationName : List Char
  hypertableName : List Char
deriving DecidableEq, Repr

/-- What a name is joined with in `continuous_aggregates`. -/
def resolve (aggregates : List AggregateRow) (view : List Char) : List ResolvedRow :=
  match aggregates.filter fun ca => ca.viewName == view with
  | [] => [⟨view, view, view⟩]
  | found => found.map fun ca =>
    ⟨view, ca.materializationHypertableSchema ++ '.' :: ca.materializationHypertableName,
      ca.materializationHypertableName⟩

/-- `resolved`. -/
def resolved (aggregates : List AggregateRow) (targetTables : List (List Char)) :
    List ResolvedRow :=
  targetTables.flatMap (resolve aggregates)

/-- The chunks that rows of `resolved` are joined with. -/
def joinedChunks (chunks : List ChunkRow) (rows : List ResolvedRow) : List ChunkRow :=
  rows.flatMap fun row => chunks.filter fun ch => ch.hypertableName == row.hypertableName

/-! ## The inventory -/

/-- A row of the query of `list_compression_groups`. -/
structure StatRow where
  viewName : List Char
  totalChunks : Nat
  compressedChunks : Nat
  sizeBytes : Nat
  rawSizeBytes : Nat
deriving DecidableEq, Repr

/-- The rows of the query, one for each name and relation. -/
def statRows (catalog : Catalog) (tableNames : List (List Char)) : List StatRow :=
  let rows := resolved catalog.aggregates tableNames
  (rows.map fun row => (row.viewName, row.qualifiedRelationName)).dedup.map fun key =>
    let joined := joinedChunks catalog.chunks
      (rows.filter fun row => (row.viewName, row.qualifiedRelationName) == key)
    { viewName := key.1
      totalChunks := joined.length
      compressedChunks := joined.countP ChunkRow.isCompressed
      sizeBytes := catalog.hypertableSize key.2
      rawSizeBytes :=
        ((tableNames.filter (· == key.1)).flatMap catalog.bytesBeforeCompression).sum }

/-- `CompressionTableInfo`. -/
structure TableInfo where
  tableName : List Char
  granularity : List Char
  totalChunks : Nat
  compressedChunks : Nat
  sizeBytes : Nat
  rawSizeBytes : Nat
deriving DecidableEq, Repr

/-- `CompressionGroupInfo`. -/
structure GroupInfo where
  protocolName : List Char
  wideTableName : List Char
  tables : List TableInfo
  totalChunks : Nat
  compressedChunks : Nat
  sizeBytes : Nat
  rawSizeBytes : Nat
deriving DecidableEq, Repr

/-- `_GRANULARITY_BY_POSITION`. -/
def granularityByPosition : List (List Char) :=
  "raw".toList :: Granularity.all.map Granularity.word

/-- `granularity_by_table`. -/
def granularityByTable (groups : List GroupTables) : Dict (List Char) (List Char) :=
  Dict.empty.update (groups.flatMap fun group => group.tables.zip granularityByPosition)

/-- `all_table_names`. -/
def allTableNames (groups : List GroupTables) : List (List Char) := groups.flatMap GroupTables.tables

/-- `stats_by_table`. -/
def statsByTable (catalog : Catalog) (tableNames : List (List Char)) : Dict (List Char) StatRow :=
  Dict.empty.update ((statRows catalog tableNames).map fun row => (row.viewName, row))

/-- The row of a table in the inventory. -/
def tableInfo (catalog : Catalog) (groups : List GroupTables) (tableName : List Char) : TableInfo :=
  let stats := ((statsByTable catalog (allTableNames groups)).get? tableName).getD
    ⟨tableName, 0, 0, 0, 0⟩
  { tableName := tableName
    granularity := ((granularityByTable groups).get? tableName).getD []
    totalChunks := stats.totalChunks
    compressedChunks := stats.compressedChunks
    sizeBytes := stats.sizeBytes
    rawSizeBytes := stats.rawSizeBytes }

/-- `list_compression_groups`. -/
def listCompressionGroups (catalog : Catalog) : List GroupInfo :=
  let groups := compressionGroupTables catalog.registry none
  groups.map fun group =>
    let tables := group.tables.map (tableInfo catalog groups)
    { protocolName := group.protocolName
      wideTableName := group.wideTableName
      tables := tables
      totalChunks := (tables.map TableInfo.totalChunks).sum
      compressedChunks := (tables.map TableInfo.compressedChunks).sum
      sizeBytes := (tables.map TableInfo.sizeBytes).sum
      rawSizeBytes := (tables.map TableInfo.rawSizeBytes).sum }

/-! ## The chunks counted -/

/-- The compressed chunks that the inventory counts for a table. -/
def countedChunks (catalog : Catalog) (tableNames : List (List Char)) (tableName : List Char) :
    List ChunkRow :=
  (joinedChunks catalog.chunks
    ((resolved catalog.aggregates tableNames).filter (·.viewName == tableName))).filter
      ChunkRow.isCompressed

/-- A chunk holds data of a table, or of the view that is materialized in its hypertable. -/
def Stores (catalog : Catalog) (chunk : ChunkRow) (tableName : List Char) : Prop :=
  chunk.hypertableName = tableName ∨ ∃ ca ∈ catalog.aggregates,
    ca.viewName = tableName ∧ chunk.hypertableName = ca.materializationHypertableName

variable {catalog : Catalog}

/-- A name stands for one hypertable, and its chunks are those that hold its data. -/
theorem resolve_spec (catalog : Catalog) (view : List Char) :
    ∃ row : ResolvedRow, resolve catalog.aggregates view = [row] ∧ row.viewName = view ∧
      ∀ chunk ∈ catalog.chunks,
        chunk.hypertableName = row.hypertableName ↔ Stores catalog chunk view := by
  by_cases hview : ∃ ca ∈ catalog.aggregates, ca.viewName = view
  · obtain ⟨ca, hca, rfl⟩ := hview
    have hsame : ∀ ca' ∈ catalog.aggregates, ca'.viewName = ca.viewName → ca' = ca :=
      fun ca' hca' h => List.inj_on_of_nodup_map catalog.views_distinct hca' hca h
    have hfound : catalog.aggregates.filter (fun ca' => ca'.viewName == ca.viewName) = [ca] := by
      have hnodup := catalog.views_distinct.of_map
      refine (List.perm_singleton.mp ?_)
      refine (List.perm_ext_iff_of_nodup (hnodup.filter _) (List.nodup_singleton ca)).mpr ?_
      intro ca'
      rw [List.mem_filter, beq_iff_eq, List.mem_singleton]
      refine ⟨fun h => hsame ca' h.1 h.2, fun h => ?_⟩
      rw [h]
      exact ⟨hca, rfl⟩
    refine ⟨_, by rw [resolve, hfound]; rfl, rfl, fun chunk hchunk => ?_⟩
    constructor
    · intro h
      exact Or.inr ⟨ca, hca, rfl, h⟩
    · rintro (h | ⟨ca', hca', hname, h⟩)
      · exact absurd h (catalog.views_apart chunk hchunk ca hca)
      · rw [h, hsame ca' hca' hname]
  · have hfound : catalog.aggregates.filter (fun ca => ca.viewName == view) = [] :=
      List.filter_eq_nil_iff.mpr fun ca hca h => hview ⟨ca, hca, beq_iff_eq.mp h⟩
    refine ⟨⟨view, view, view⟩, by rw [resolve, hfound], rfl, fun chunk _ => ?_⟩
    constructor
    · exact Or.inl
    · rintro (h | ⟨ca, hca, hname, -⟩)
      · exact h
      · exact absurd ⟨ca, hca, hname⟩ hview

/-- The rows of a name among those of several. -/
theorem mem_resolved {tableNames : List (List Char)} {row : ResolvedRow} :
    row ∈ resolved catalog.aggregates tableNames ↔
      row.viewName ∈ tableNames ∧ resolve catalog.aggregates row.viewName = [row] := by
  rw [resolved, List.mem_flatMap]
  constructor
  · rintro ⟨view, hview, hrow⟩
    obtain ⟨row', hrows, hname, -⟩ := resolve_spec catalog view
    rw [hrows, List.mem_singleton] at hrow
    rw [hrow, hname]
    exact ⟨hview, hrows⟩
  · rintro ⟨hview, hrows⟩
    exact ⟨row.viewName, hview, hrows ▸ List.mem_singleton_self row⟩

/-- The chunks counted for a table are the compressed ones that hold its data. -/
theorem mem_countedChunks {tableNames : List (List Char)} {tableName : List Char}
    {chunk : ChunkRow} :
    chunk ∈ countedChunks catalog tableNames tableName ↔
      tableName ∈ tableNames ∧ chunk ∈ catalog.chunks ∧ chunk.isCompressed = true ∧
        Stores catalog chunk tableName := by
  obtain ⟨row, hrows, hname, hstores⟩ := resolve_spec catalog tableName
  rw [countedChunks, List.mem_filter, joinedChunks, List.mem_flatMap]
  constructor
  · rintro ⟨⟨row', hrow', hchunk⟩, hcompressed⟩
    obtain ⟨hmem, hview⟩ := List.mem_filter.mp hrow'
    obtain ⟨hlisted, hrows'⟩ := mem_resolved.mp hmem
    rw [beq_iff_eq] at hview
    rw [hview, hrows, List.cons.injEq] at hrows'
    obtain ⟨hchunk, hhypertable⟩ := List.mem_filter.mp hchunk
    rw [← hrows'.1, beq_iff_eq] at hhypertable
    exact ⟨hview ▸ hlisted, hchunk, hcompressed, (hstores chunk hchunk).mp hhypertable⟩
  · rintro ⟨hlisted, hchunk, hcompressed, hstored⟩
    refine ⟨⟨row, List.mem_filter.mpr ⟨mem_resolved.mpr ?_, beq_iff_eq.mpr hname⟩, ?_⟩,
      hcompressed⟩
    · rw [hname]
      exact ⟨hlisted, hrows⟩
    · exact List.mem_filter.mpr ⟨hchunk, beq_iff_eq.mpr ((hstores chunk hchunk).mpr hstored)⟩

/-- A row of the query counts the compressed chunks of its name. -/
theorem compressedChunks_of_mem {tableNames : List (List Char)} {stats : StatRow}
    (h : stats ∈ statRows catalog tableNames) :
    stats.compressedChunks = (countedChunks catalog tableNames stats.viewName).length := by
  obtain ⟨key, hkey, rfl⟩ := List.mem_map.mp h
  obtain ⟨row, hrow, rfl⟩ := List.mem_map.mp (List.mem_dedup.mp hkey)
  have hrows := (mem_resolved.mp hrow).2
  -- rows of one name are rows of one relation
  have hsame : ∀ row' ∈ resolved catalog.aggregates tableNames,
      ((row'.viewName, row'.qualifiedRelationName) ==
        (row.viewName, row.qualifiedRelationName)) = (row'.viewName == row.viewName) := by
    intro row' hrow'
    rw [Bool.eq_iff_iff, beq_iff_eq, beq_iff_eq, Prod.mk.injEq]
    refine ⟨And.left, fun hview => ⟨hview, ?_⟩⟩
    have hrows' := (mem_resolved.mp hrow').2
    rw [hview, hrows, List.cons.injEq] at hrows'
    rw [hrows'.1]
  show List.countP _ (joinedChunks _ (List.filter _ _)) = _
  rw [List.filter_congr hsame, List.countP_eq_length_filter]
  rfl

/-- The inventory shows for a table how many chunks it counted. -/
theorem compressedChunks_tableInfo {groups : List GroupTables} {tableName : List Char}
    (h : tableName ∈ allTableNames groups) :
    (tableInfo catalog groups tableName).compressedChunks =
      (countedChunks catalog (allTableNames groups) tableName).length := by
  obtain ⟨row, hrows, hname, -⟩ := resolve_spec catalog tableName
  have hrow : row ∈ resolved catalog.aggregates (allTableNames groups) := by
    refine mem_resolved.mpr ?_
    rw [hname]
    exact ⟨h, hrows⟩
  have hfound : tableName ∈ (statsByTable catalog (allTableNames groups)).keys := by
    refine Dict.mem_keys_update.mpr (Or.inr ?_)
    have hkey : (row.viewName, row.qualifiedRelationName) ∈
        ((resolved catalog.aggregates (allTableNames groups)).map fun row =>
          (row.viewName, row.qualifiedRelationName)).dedup :=
      List.mem_dedup.mpr (List.mem_map_of_mem hrow)
    rw [statRows, List.map_map, List.map_map]
    exact List.mem_map.mpr ⟨_, hkey, hname⟩
  obtain ⟨stats, hstats⟩ := Dict.mem_keys.mp hfound
  have hget := Dict.get?_eq_some_iff.mpr hstats
  rcases Dict.mem_update hstats with hmem | ⟨-, hmem⟩
  · obtain ⟨stats', hmem', heq⟩ := List.mem_map.mp hmem
    obtain ⟨hview, rfl⟩ := Prod.mk.inj heq
    rw [tableInfo, hget, Option.getD_some, ← hview]
    exact compressedChunks_of_mem hmem'
  · cases hmem

/-- The inventory shows how many chunks it counted for the tables of each group. -/
theorem listCompressionGroups_counts (catalog : Catalog) :
    (listCompressionGroups catalog).map GroupInfo.compressedChunks =
      (compressionGroupTables catalog.registry none).map fun group =>
        (group.tables.map fun tableName => (countedChunks catalog
          (allTableNames (compressionGroupTables catalog.registry none)) tableName).length).sum := by
  rw [listCompressionGroups, List.map_map]
  refine List.map_congr_left fun group hgroup => ?_
  show (List.map _ (List.map _ _)).sum = _
  rw [List.map_map]
  refine congrArg List.sum (List.map_congr_left fun tableName htable => ?_)
  exact compressedChunks_tableInfo (List.mem_flatMap.mpr ⟨group, hgroup, htable⟩)

end Compression

end Timescale

end ProtocolGateway
