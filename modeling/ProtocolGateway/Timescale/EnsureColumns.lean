import ProtocolGateway.Lib.UniqueDict
import ProtocolGateway.Timescale.Identifiers

/-!
# The columns of a wide table

`_ensure_columns_for_metrics` gives every metric of a protocol a column of the protocol's wide
table, a row of `metric_catalog` and an entry of the in-memory `protocol_metric_mappings`. The
database part is one transaction; the in-memory part is written as the loop goes on.

Whether the database accepts the statements of a metric, and whether the migration of a column
succeeds in its savepoint, comes with the metric. The uniqueness of the column names of a protocol
is the database's own constraint.

* `Ensured` — what one metric's turn does.
* `ensureMetric_known`, `ensureMetric_new` — the turns that do it.
-/

namespace ProtocolGateway

namespace Timescale

/-! ## Types -/

/-- `timescale_type_map`. -/
def timescaleTypeMap : List (String × String) :=
  [("BYTE", "SMALLINT"), ("USHORT", "INTEGER"), ("SHORT", "SMALLINT"), ("UINT", "BIGINT"),
    ("INT", "INTEGER"), ("UINT64", "NUMERIC"), ("INT64", "BIGINT"), ("ACC32", "BIGINT"),
    ("_8BIT_FLAGS", "SMALLINT"), ("_16BIT_FLAGS", "INTEGER"), ("_32BIT_FLAGS", "BIGINT"),
    ("ASCII", "TEXT"), ("HEX", "TEXT"), ("STRING", "TEXT"), ("STRING16", "TEXT"),
    ("STRING32", "TEXT"), ("TEXT", "TEXT"), ("_1BIT", "BOOLEAN"), ("BOOLEAN", "BOOLEAN")] ++
  (List.range' 2 14).map (fun i => (s!"_{i}BIT", "SMALLINT")) ++ [("_16BIT", "INTEGER")] ++
  (List.range' 2 15).map (fun i => (s!"_{i}SBIT", "SMALLINT")) ++
  (List.range' 2 15).map (fun i => (s!"_{i}SMBIT", "SMALLINT")) ++
  [("FLOAT32", "REAL"), ("FLOAT64", "DOUBLE PRECISION")]

/-- `_timescale_type`. -/
def timescaleType (dataType : String) (unit : Option Float) : String :=
  let baseType := (timescaleTypeMap.lookup dataType).getD "DOUBLE PRECISION"
  if baseType ∈ ["TEXT", "BOOLEAN"] then baseType
  else if unit != some 1.0 then "DOUBLE PRECISION"
  else baseType

/-! ## The database and the mappings -/

/-- A metric as the registry map or the transport declares it. -/
structure MetricDecl where
  name : List Char
  dataType : String
  unitMod : Option Float
  note : Option String

/-- The column type a metric declares. -/
def MetricDecl.type (decl : MetricDecl) : String := timescaleType decl.dataType decl.unitMod

/-- A row of `metric_catalog`. Its column was named by `_clean_column_name`. -/
structure CatalogRow where
  cleanColumnName : List Char
  dataType : String
  unitMod : Option Float
  notes : Option String
  identifier : isIdentifier cleanColumnName

/-- `UPDATE metric_catalog SET data_type = :d, unit_mod = :u, notes = :n`. -/
def CatalogRow.declare (row : CatalogRow) (decl : MetricDecl) (dataType : String) : CatalogRow :=
  { row with dataType := dataType, unitMod := decl.unitMod, notes := decl.note }

theorem CatalogRow.cleanColumnName_declare (decl : MetricDecl) (dataType : String)
    (row : CatalogRow) : (row.declare decl dataType).cleanColumnName = row.cleanColumnName := rfl

/-- The rows of one protocol, by metric name: `uq_metric_catalog_protocol_metric` and
`uq_metric_catalog_protocol_column`. -/
abbrev MetricCatalog := UniqueDict (List Char) CatalogRow.cleanColumnName

/-- The catalog of a protocol and the physical columns of its table, with their types in capital
letters. -/
structure WideDb where
  catalog : MetricCatalog
  columns : Dict (List Char) String

/-- `protocol_metric_mappings[protocol]`: the column and the type of a metric. -/
abbrev MetricMapping := Dict (List Char) (List Char × String)

/-- What the database answers while it is a metric's turn. -/
structure MetricAnswers where
  /-- the statements outside the savepoint go through -/
  accepts : Bool
  /-- `ALTER COLUMN .. TYPE` goes through -/
  migrates : Bool

/-- Why a transaction is rolled back. -/
inductive Refusal
  /-- a statement failed -/
  | database
  /-- another metric of the protocol has the column -/
  | collision
  deriving DecidableEq, Repr

/-! ## One metric -/

/-- The reconciliation of a column with the declared type: the columns, and the type that goes into
the catalog. -/
def reconcile (columns : Dict (List Char) String) (col : List Char) (dType : String)
    (migrates : Bool) : Dict (List Char) String × String :=
  match columns.get? col with
  | none => (columns, dType)
  | some physicalType =>
    if physicalType = dType then (columns, dType)
    else if migrates then (columns.set col dType, dType)
    else (columns, physicalType)

/-- The turn of a metric in the loop of `_ensure_columns_for_metrics`. -/
def ensureMetric (decl : MetricDecl) (answers : MetricAnswers) (db : WideDb) :
    Except Refusal (WideDb × (List Char × String)) :=
  if answers.accepts then
    match db.catalog.get? decl.name with
    | some row =>
      let (columns, effectiveType) :=
        reconcile db.columns row.cleanColumnName decl.type answers.migrates
      .ok (⟨db.catalog.modify decl.name (fun row => row.declare decl effectiveType)
          (CatalogRow.cleanColumnName_declare decl effectiveType), columns⟩,
        (row.cleanColumnName, effectiveType))
    | none =>
      let col := cleanColumnName decl.name
      let columns :=
        if (db.columns.get? col).isSome then db.columns else db.columns.set col decl.type
      let row : CatalogRow :=
        ⟨col, decl.type, decl.unitMod, decl.note, isIdentifier_cleanColumnName decl.name⟩
      match db.catalog.insert? decl.name row with
      | none => .error .collision
      | some catalog => .ok (⟨catalog, columns⟩, (col, decl.type))
  else .error .database

/-- The loop: the database and the mapping after it. -/
def ensureMetrics : List (MetricDecl × MetricAnswers) → WideDb → MetricMapping →
    Except Refusal WideDb × MetricMapping
  | [], db, mapping => (.ok db, mapping)
  | (decl, answers) :: rest, db, mapping =>
    match ensureMetric decl answers db with
    | .error refusal => (.error refusal, mapping)
    | .ok (db, entry) => ensureMetrics rest db (mapping.set decl.name entry)

/-! ## One call -/

/-- The catalogs and mappings by protocol, the physical columns by table. -/
structure SchemaState where
  catalogs : List Char → MetricCatalog
  columns : List Char → Dict (List Char) String
  mappings : List Char → MetricMapping

/-- A call of `_ensure_columns_for_metrics`, with what the database answers. -/
structure EnsureCall where
  tableName : List Char
  protocol : List Char
  metrics : List (MetricDecl × MetricAnswers)
  connected : Bool
  /-- the lock is taken and the protocol is found -/
  opens : Bool
  /-- the sequence is set and the transaction committed -/
  commits : Bool
  /-- `sync_single_table_schema` returns -/
  resyncs : Bool

/-- How a call ends. -/
inductive EnsureResult
  /-- `ConnectionError` or `ValueError` -/
  | raised
  /-- `False` -/
  | failed (refusal : Refusal)
  /-- `True` -/
  | done
  deriving DecidableEq, Repr

/-- `_ensure_columns_for_metrics`. A rollback does not reach the mapping. -/
def ensureColumnsForMetrics (call : EnsureCall) (s : SchemaState) : EnsureResult × SchemaState :=
  if call.connected = false ∨ call.metrics = [] then (.raised, s)
  else if call.opens then
    let (ended, mapping) := ensureMetrics call.metrics
      ⟨s.catalogs call.protocol, s.columns call.tableName⟩ (s.mappings call.protocol)
    let s' := { s with mappings := Function.update s.mappings call.protocol mapping }
    match ended with
    | .error refusal => (.failed refusal, s')
    | .ok db =>
      if call.commits then
        (if call.resyncs then .done else .failed .database,
          { s' with
            catalogs := Function.update s.catalogs call.protocol db.catalog
            columns := Function.update s.columns call.tableName db.columns })
      else (.failed .database, s')
  else (.failed .database, s)

/-! ## What a metric's turn does -/

/-- The column of a metric: the one it has, or the one its name is cleaned to. -/
def columnOf (catalog : MetricCatalog) (m : List Char) : List Char :=
  match catalog.get? m with
  | some row => row.cleanColumnName
  | none => cleanColumnName m

/-- The type recorded for a metric: the declared one, unless its column has another one and keeps
it. -/
def recordedType (db : WideDb) (decl : MetricDecl) (answers : MetricAnswers) : String :=
  match db.catalog.get? decl.name with
  | some row => (reconcile db.columns row.cleanColumnName decl.type answers.migrates).2
  | none => decl.type

/-- The database after a metric's turn. -/
structure Ensured (db : WideDb) (decl : MetricDecl) (answers : MetricAnswers) (db' : WideDb) :
    Prop where
  catalog_self : ∃ row, db'.catalog.get? decl.name = some row ∧
    row.cleanColumnName = columnOf db.catalog decl.name ∧
    row.dataType = recordedType db decl answers
  catalog_other : ∀ m, m ≠ decl.name → db'.catalog.get? m = db.catalog.get? m
  columns_other : ∀ c, c ≠ columnOf db.catalog decl.name →
    db'.columns.get? c = db.columns.get? c
  columns_known : ∀ row, db.catalog.get? decl.name = some row →
    db'.columns.get? row.cleanColumnName =
      (db.columns.get? row.cleanColumnName).map fun _ => recordedType db decl answers
  columns_new : db.catalog.get? decl.name = none →
    db'.columns.get? (cleanColumnName decl.name) =
      some ((db.columns.get? (cleanColumnName decl.name)).getD decl.type)
  free : ∀ m row, m ≠ decl.name → db.catalog.get? m = some row →
    row.cleanColumnName ≠ columnOf db.catalog decl.name

theorem columnOf_known {catalog : MetricCatalog} {m : List Char} {row : CatalogRow}
    (h : catalog.get? m = some row) : columnOf catalog m = row.cleanColumnName := by
  rw [columnOf, h]

theorem columnOf_new {catalog : MetricCatalog} {m : List Char} (h : catalog.get? m = none) :
    columnOf catalog m = cleanColumnName m := by
  rw [columnOf, h]

/-- Reconciliation changes the type of its column only, to the type it records. -/
theorem get?_reconcile (columns : Dict (List Char) String) (col : List Char) (dType : String)
    (migrates : Bool) (c : List Char) :
    (reconcile columns col dType migrates).1.get? c =
      if c = col then (columns.get? col).map fun _ => (reconcile columns col dType migrates).2
      else columns.get? c := by
  cases hget : columns.get? col with
  | none =>
    simp only [reconcile, hget]
    split
    · next hc => rw [hc, hget, Option.map_none]
    · rfl
  | some physicalType =>
    by_cases htype : physicalType = dType
    · simp only [reconcile, hget, if_pos htype]
      split
      · next hc => rw [hc, hget, htype, Option.map_some]
      · rfl
    · cases migrates
      · simp only [reconcile, hget, if_neg htype, Bool.false_eq_true, if_false]
        split
        · next hc => rw [hc, hget, Option.map_some]
        · rfl
      · simp only [reconcile, hget, if_neg htype, if_true]
        exact Dict.get?_set _ _ _ _

/-- A metric of the catalog keeps its column; the column is migrated to the declared type or the
type of the column is recorded. -/
theorem ensureMetric_known {decl : MetricDecl} {answers : MetricAnswers} {db : WideDb}
    {row : CatalogRow} (haccepts : answers.accepts = true)
    (hrow : db.catalog.get? decl.name = some row) :
    ∃ db', ensureMetric decl answers db =
      .ok (db', (columnOf db.catalog decl.name, recordedType db decl answers)) ∧
      Ensured db decl answers db' := by
  have htype : recordedType db decl answers =
      (reconcile db.columns row.cleanColumnName decl.type answers.migrates).2 := by
    rw [recordedType, hrow]
  rw [ensureMetric, if_pos haccepts, columnOf_known hrow, htype]
  simp only [hrow]
  refine ⟨_, rfl, ?_, fun m hm => ?_, fun c hc => ?_, fun row' hrow' => ?_, fun hnew => ?_,
    fun m row' hm hrow' heq => ?_⟩
  · refine ⟨row.declare decl (recordedType db decl answers), ?_, (columnOf_known hrow).symm, rfl⟩
    refine (UniqueDict.get?_modify _ _ _ (CatalogRow.cleanColumnName_declare decl _) _).trans ?_
    rw [if_pos rfl, hrow, htype, Option.map_some]
  · exact (UniqueDict.get?_modify _ _ _ (CatalogRow.cleanColumnName_declare decl _) _).trans
      (if_neg hm)
  · rw [columnOf_known hrow] at hc
    exact (get?_reconcile _ _ _ _ _).trans (if_neg hc)
  · obtain rfl := Option.some.inj (hrow.symm.trans hrow')
    rw [htype]
    exact (get?_reconcile _ _ _ _ _).trans (if_pos rfl)
  · cases hrow.symm.trans hnew
  · rw [columnOf_known hrow] at heq
    exact hm (db.catalog.unique _ _ _ _ hrow' hrow heq)

/-- A metric that is not in the catalog takes the column its name is cleaned to, unless another
metric has it. -/
theorem ensureMetric_new {decl : MetricDecl} {answers : MetricAnswers} {db : WideDb}
    (haccepts : answers.accepts = true) (hrow : db.catalog.get? decl.name = none) :
    (db.catalog.Taken decl.name (cleanColumnName decl.name) ∧
      ensureMetric decl answers db = .error .collision) ∨
    ∃ db', ensureMetric decl answers db =
      .ok (db', (columnOf db.catalog decl.name, recordedType db decl answers)) ∧
      Ensured db decl answers db' := by
  have htype : recordedType db decl answers = decl.type := by rw [recordedType, hrow]
  rw [ensureMetric, if_pos haccepts, columnOf_new hrow, htype]
  simp only [hrow]
  cases hinsert : db.catalog.insert? decl.name ⟨cleanColumnName decl.name, decl.type,
      decl.unitMod, decl.note, isIdentifier_cleanColumnName decl.name⟩ with
  | none => exact Or.inl ⟨UniqueDict.insert?_eq_none_iff.mp hinsert, rfl⟩
  | some catalog =>
    have hfree := mt UniqueDict.insert?_eq_none_iff.mpr (hinsert ▸ Option.some_ne_none _)
    refine Or.inr ⟨_, rfl, ?_, fun m hm => ?_, fun c hc => ?_, fun row hknown => ?_, fun _ => ?_,
      fun m row hm hother heq => ?_⟩
    · refine ⟨_, (UniqueDict.get?_insert? hinsert _).trans (if_pos rfl),
        (columnOf_new hrow).symm, htype.symm⟩
    · exact (UniqueDict.get?_insert? hinsert _).trans (if_neg hm)
    · rw [columnOf_new hrow] at hc
      simp only
      split
      · rfl
      · exact (Dict.get?_set _ _ _ _).trans (if_neg hc)
    · cases hrow.symm.trans hknown
    · simp only
      cases hcol : db.columns.get? (cleanColumnName decl.name) with
      | some physicalType => exact hcol
      | none => exact (Dict.get?_set _ _ _ _).trans (if_pos rfl)
    · rw [columnOf_new hrow] at heq
      exact hfree ⟨m, row, hother, hm, heq⟩

end Timescale

end ProtocolGateway
