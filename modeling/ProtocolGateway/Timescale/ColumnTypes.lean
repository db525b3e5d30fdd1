import ProtocolGateway.Timescale.ColumnNames

/-!
# The recorded types of the columns

The rollups and the coercion of raw values trust the type that `metric_catalog` and
`protocol_metric_mappings` record for a column. A metric of the catalog has its column reconciled
with the declared type; a metric without a row records the declared type, also when its column
exists already with another one.

* `sound_iff_fitsIn` — after a call that returns `True`, the metrics whose record is the type of their
  column.
* `agrees_along_iff` — the runs of calls and deletions whose records agree with the table.
-/

namespace ProtocolGateway

namespace Timescale

/-! ## Sound records -/

/-- The metric has a row and a physical column, and the row and the mapping record its type. -/
def Sound (db : WideDb) (mapping : MetricMapping) (m : List Char) : Prop :=
  ∃ row, db.catalog.get? m = some row ∧
    db.columns.get? row.cleanColumnName = some row.dataType ∧
    mapping.get? m = some (row.cleanColumnName, row.dataType)

namespace Ensured

variable {db db' : WideDb} {decl : MetricDecl} {answers : MetricAnswers}

/-- A metric's turn keeps the records of the others. -/
theorem sound_other_iff (h : Ensured db decl answers db') {mapping : MetricMapping} {m : List Char}
    (hm : m ≠ decl.name) (entry : List Char × String) :
    Sound db' (mapping.set decl.name entry) m ↔ Sound db mapping m := by
  rw [Sound, Sound, h.catalog_other m hm, Dict.get?_set, if_neg hm]
  refine exists_congr fun row => and_congr_right fun hrow => ?_
  rw [h.columns_other _ (h.free m row hm hrow)]

/-- The record of the metric itself is sound when its column was there, for a metric with a row, and
when its column was not there or had the declared type, for a metric without one. -/
theorem sound_self_iff (h : Ensured db decl answers db') (mapping : MetricMapping) :
    Sound db' (mapping.set decl.name
        (columnOf db.catalog decl.name, recordedType db decl answers)) decl.name ↔
      (∀ row, db.catalog.get? decl.name = some row →
        (db.columns.get? row.cleanColumnName).isSome) ∧
      (db.catalog.get? decl.name = none → ∀ physicalType,
        db.columns.get? (cleanColumnName decl.name) = some physicalType →
        physicalType = decl.type) := by
  obtain ⟨row', hrow', hcol, htype⟩ := h.catalog_self
  have hsound : Sound db' (mapping.set decl.name
      (columnOf db.catalog decl.name, recordedType db decl answers)) decl.name ↔
        db'.columns.get? row'.cleanColumnName = some row'.dataType := by
    rw [Sound, hrow', Dict.get?_set, if_pos rfl, hcol, htype]
    constructor
    · rintro ⟨row, heq, hget, -⟩
      obtain rfl := Option.some.inj heq
      rwa [hcol, htype] at hget
    · intro hget
      exact ⟨row', rfl, by rw [hcol, htype]; exact hget, by rw [hcol, htype]⟩
  rw [hsound, hcol, htype]
  cases hrow : db.catalog.get? decl.name with
  | some row =>
    rw [columnOf_known hrow, h.columns_known row hrow]
    cases hget : db.columns.get? row.cleanColumnName with
    | none =>
      refine iff_of_false (fun heq => by cases heq) (fun hboth => ?_)
      have := hboth.1 row rfl
      rw [hget] at this
      cases this
    | some physicalType =>
      refine iff_of_true rfl ⟨fun row'' heq => ?_, fun hnone => by cases hnone⟩
      rw [← Option.some.inj heq, hget]
      rfl
  | none =>
    have hrecorded : recordedType db decl answers = decl.type := by rw [recordedType, hrow]
    rw [columnOf_new hrow, h.columns_new hrow, hrecorded, Option.some.injEq]
    cases hget : db.columns.get? (cleanColumnName decl.name) with
    | none =>
      exact iff_of_true rfl ⟨fun row heq => (by cases heq), fun _ _ heq => (by cases heq)⟩
    | some physicalType =>
      rw [Option.getD_some]
      constructor
      · intro heq
        exact ⟨fun row hsome => (by cases hsome), fun _ t ht => Option.some.inj ht ▸ heq⟩
      · intro hboth
        exact hboth.2 rfl physicalType rfl

end Ensured

/-! ## The loop -/

/-- A loop that ends well has come to every metric, and their columns are different. -/
theorem apart_of_ok {metrics : List (MetricDecl × MetricAnswers)} {db db' : WideDb}
    {mapping : MetricMapping} (hok : (ensureMetrics metrics db mapping).1 = .ok db') :
    Apart db.catalog (namesOf metrics) := by
  have hapart : Apart db.catalog (namesOf (reached metrics)) := by
    by_contra hclash
    rw [(ensureMetrics_collision_iff metrics db mapping).mpr hclash] at hok
    cases hok
  have haccepts : ∀ step ∈ metrics, step.2.accepts = true := by
    intro step hstep
    by_contra hrefused
    rw [(ensureMetrics_database_iff metrics db mapping).mpr
      ⟨hapart, step, hstep, Bool.eq_false_iff.mpr hrefused⟩] at hok
    cases hok
  rwa [reached, List.takeWhile_eq_self_iff.mpr haccepts] at hapart

/-- The first turn of a loop that ends well. -/
theorem ensureMetrics_cons_ok {decl : MetricDecl} {answers : MetricAnswers}
    {rest : List (MetricDecl × MetricAnswers)} {db db' : WideDb} {mapping : MetricMapping}
    (hok : (ensureMetrics ((decl, answers) :: rest) db mapping).1 = .ok db') :
    ∃ db₁ mapping₁, mapping₁ = mapping.set decl.name
        (columnOf db.catalog decl.name, recordedType db decl answers) ∧
      Ensured db decl answers db₁ ∧ (ensureMetrics rest db₁ mapping₁).1 = .ok db' ∧
      (ensureMetrics ((decl, answers) :: rest) db mapping).2 =
        (ensureMetrics rest db₁ mapping₁).2 := by
  rw [ensureMetrics] at hok ⊢
  rcases ensureMetric_cases decl answers db with
    ⟨-, hstop⟩ | ⟨-, hstop, -⟩ | ⟨-, db₁, hturn, hensured⟩
  · rw [hstop] at hok
    cases hok
  · rw [hstop] at hok
    cases hok
  · rw [hturn] at hok ⊢
    exact ⟨db₁, _, rfl, hensured, hok, rfl⟩

/-- The loop keeps the records of the metrics it does not list. -/
theorem sound_ensureMetrics_of_notMem {metrics : List (MetricDecl × MetricAnswers)}
    {db db' : WideDb} {mapping : MetricMapping}
    (hok : (ensureMetrics metrics db mapping).1 = .ok db') {m : List Char}
    (hm : m ∉ namesOf metrics) :
    Sound db' (ensureMetrics metrics db mapping).2 m ↔ Sound db mapping m := by
  induction metrics generalizing db mapping with
  | nil =>
    cases hok
    rfl
  | cons step rest ih =>
    obtain ⟨decl, answers⟩ := step
    rw [namesOf, List.map_cons, List.mem_cons, not_or] at hm
    obtain ⟨db₁, mapping₁, rfl, hensured, hrest, hmapping⟩ := ensureMetrics_cons_ok hok
    rw [hmapping, ih hrest hm.2]
    exact hensured.sound_other_iff hm.1 _

/-- Before a call: a listed metric of the catalog has its column, and a listed metric without a row
has no column yet, or one of the type it declares, or is listed again and reconciled then. -/
structure FitsIn (db : WideDb) (metrics : List (MetricDecl × MetricAnswers)) (m : List Char) :
    Prop where
  known : ∀ row, db.catalog.get? m = some row → (db.columns.get? row.cleanColumnName).isSome
  fresh : db.catalog.get? m = none → ∀ physicalType,
    db.columns.get? (cleanColumnName m) = some physicalType →
    2 ≤ (namesOf metrics).count m ∨ ∃ step ∈ metrics, step.1.name = m ∧ step.1.type = physicalType

/-- A metric listed once fits as its only turn demands. -/
theorem fitsIn_cons_of_notMem {db : WideDb} {decl : MetricDecl} {answers : MetricAnswers}
    {rest : List (MetricDecl × MetricAnswers)} (h : decl.name ∉ namesOf rest) :
    FitsIn db ((decl, answers) :: rest) decl.name ↔
      (∀ row, db.catalog.get? decl.name = some row →
        (db.columns.get? row.cleanColumnName).isSome) ∧
      (db.catalog.get? decl.name = none → ∀ physicalType,
        db.columns.get? (cleanColumnName decl.name) = some physicalType →
        physicalType = decl.type) := by
  have hcount : ¬ 2 ≤ (namesOf ((decl, answers) :: rest)).count decl.name := by
    rw [namesOf, List.map_cons, List.count_cons_self, ← namesOf, List.count_eq_zero.mpr h]
    decide
  have honly : ∀ physicalType, (∃ step ∈ (decl, answers) :: rest, step.1.name = decl.name ∧
      step.1.type = physicalType) ↔ physicalType = decl.type := by
    intro physicalType
    constructor
    · rintro ⟨step, hstep, hname, rfl⟩
      rcases List.mem_cons.mp hstep with rfl | hstep
      · rfl
      · exact absurd (hname ▸ List.mem_map_of_mem hstep) h
    · rintro rfl
      exact ⟨_, List.mem_cons_self .., rfl, rfl⟩
  constructor
  · intro hfits
    refine ⟨hfits.known, fun hnone t ht => ?_⟩
    exact (honly t).mp ((hfits.fresh hnone t ht).resolve_left hcount)
  · rintro ⟨hknown, hfresh⟩
    exact ⟨hknown, fun hnone t ht => Or.inr ((honly t).mpr (hfresh hnone t ht))⟩

/-- A metric that comes up again fits after the first turn when it did before. -/
theorem fitsIn_cons_of_mem {db db₁ : WideDb} {decl : MetricDecl} {answers : MetricAnswers}
    {rest : List (MetricDecl × MetricAnswers)} (hensured : Ensured db decl answers db₁)
    (hapart : Apart db.catalog (namesOf ((decl, answers) :: rest))) {m : List Char}
    (hm : m ∈ namesOf rest) :
    FitsIn db₁ rest m ↔ FitsIn db ((decl, answers) :: rest) m := by
  by_cases hname : m = decl.name
  · subst hname
    obtain ⟨row', hrow', hcol, -⟩ := hensured.catalog_self
    have hcount : 2 ≤ (namesOf ((decl, answers) :: rest)).count decl.name := by
      rw [namesOf, List.map_cons, List.count_cons_self]
      exact Nat.succ_le_succ (List.count_pos_iff.mpr hm)
    have hleft : FitsIn db₁ rest decl.name ↔
        (db₁.columns.get? (columnOf db.catalog decl.name)).isSome := by
      rw [← hcol]
      constructor
      · intro hfits
        exact hfits.known row' hrow'
      · intro hsome
        refine ⟨fun row hrow => ?_, fun hnone => ?_⟩
        · obtain rfl := Option.some.inj (hrow'.symm.trans hrow)
          exact hsome
        · cases hrow'.symm.trans hnone
    rw [hleft]
    cases hrow : db.catalog.get? decl.name with
    | some row =>
      rw [columnOf_known hrow, hensured.columns_known row hrow, Option.isSome_map]
      constructor
      · intro hsome
        refine ⟨fun row'' heq => ?_, fun hnone => ?_⟩
        · obtain rfl := Option.some.inj (hrow.symm.trans heq)
          exact hsome
        · cases hrow.symm.trans hnone
      · intro hfits
        exact hfits.known row hrow
    | none =>
      rw [columnOf_new hrow, hensured.columns_new hrow]
      exact iff_of_true rfl
        ⟨fun row heq => (by cases hrow.symm.trans heq), fun _ _ _ => Or.inl hcount⟩
  · have hcount : (namesOf ((decl, answers) :: rest)).count m = (namesOf rest).count m :=
      List.count_cons_of_ne fun heq => hname heq.symm
    have hsteps : ∀ physicalType, (∃ step ∈ (decl, answers) :: rest, step.1.name = m ∧
        step.1.type = physicalType) ↔ ∃ step ∈ rest, step.1.name = m ∧
        step.1.type = physicalType := by
      intro physicalType
      constructor
      · rintro ⟨step, hstep, hstepname, htype⟩
        rcases List.mem_cons.mp hstep with rfl | hstep
        · exact absurd hstepname.symm hname
        · exact ⟨step, hstep, hstepname, htype⟩
      · rintro ⟨step, hstep, hboth⟩
        exact ⟨step, List.mem_cons_of_mem _ hstep, hboth⟩
    have hother := hensured.catalog_other m hname
    have hknown : ∀ row, db.catalog.get? m = some row →
        db₁.columns.get? row.cleanColumnName = db.columns.get? row.cleanColumnName :=
      fun row hrow => hensured.columns_other _ (hensured.free m row hname hrow)
    have hfresh : db.catalog.get? m = none →
        db₁.columns.get? (cleanColumnName m) = db.columns.get? (cleanColumnName m) := by
      intro hnone
      refine hensured.columns_other _ fun heq => hname ?_
      rw [← columnOf_new hnone] at heq
      exact hapart _ _ (Or.inr (List.mem_cons_of_mem _ hm)) (Or.inr (List.mem_cons_self ..)) heq
    constructor
    · intro hfits
      refine ⟨fun row hrow => ?_, fun hnone t ht => ?_⟩
      · rw [← hknown row hrow]
        exact hfits.known row (hother ▸ hrow)
      · rw [hcount, hsteps]
        exact hfits.fresh (hother ▸ hnone) t ((hfresh hnone).trans ht)
    · intro hfits
      refine ⟨fun row hrow => ?_, fun hnone t ht => ?_⟩
      · rw [hother] at hrow
        rw [hknown row hrow]
        exact hfits.known row hrow
      · rw [hother] at hnone
        rw [hfresh hnone] at ht
        rw [← hcount, ← hsteps]
        exact hfits.fresh hnone t ht

/-- **Sound records.** After a loop that ends well, the record of a listed metric is the type of its
column exactly when the metric fitted into the database before. -/
theorem sound_iff_fitsIn {metrics : List (MetricDecl × MetricAnswers)} {db db' : WideDb}
    {mapping : MetricMapping} (hok : (ensureMetrics metrics db mapping).1 = .ok db')
    {m : List Char} (hm : m ∈ namesOf metrics) :
    Sound db' (ensureMetrics metrics db mapping).2 m ↔ FitsIn db metrics m := by
  induction metrics generalizing db mapping with
  | nil => cases hm
  | cons step rest ih =>
    obtain ⟨decl, answers⟩ := step
    have hapart := apart_of_ok hok
    obtain ⟨db₁, mapping₁, rfl, hensured, hrest, hmapping⟩ := ensureMetrics_cons_ok hok
    rw [hmapping]
    by_cases hlater : m ∈ namesOf rest
    · rw [ih hrest hlater]
      exact fitsIn_cons_of_mem hensured hapart hlater
    · -- The first turn is the metric's last one.
      obtain rfl : m = decl.name := (List.mem_cons.mp hm).resolve_right hlater
      rw [sound_ensureMetrics_of_notMem hrest hlater, hensured.sound_self_iff mapping,
        fitsIn_cons_of_notMem hlater]

/-! ## Runs of calls and deletions -/

/-- A call of `delete_fields`. -/
structure DeleteCall where
  protocol : List Char
  wideTableName : List Char
  fieldNames : List (List Char)
  /-- the managers are there, the table is found, its rollups are dropped -/
  ready : Bool
  /-- the columns and rows are dropped and the transaction committed -/
  commits : Bool
  /-- `sync_single_table_schema` returns -/
  resyncs : Bool

/-- `PROTECTED_COLUMNS`. -/
def protectedColumns : List (List Char) := ["m_time".toList, "device_info_id".toList]

/-- `delete_fields`, as far as it concerns the catalog, the columns and the mapping. -/
def deleteFields (call : DeleteCall) (s : SchemaState) : SchemaState :=
  let requested := call.fieldNames.eraseDups.filter fun field => field != []
  let catalog := s.catalogs call.protocol
  let existingColumns := catalog.dict.items.map fun item => item.2.cleanColumnName
  let toDelete := requested.filter fun field => existingColumns.contains field
  let kept := fun col : List Char => !toDelete.contains col
  if requested.any fun field => protectedColumns.contains field then s
  else if toDelete = [] ∨ existingColumns.length ≤ toDelete.length then s
  else if call.ready && call.commits then
    { catalogs := Function.update s.catalogs call.protocol
        (catalog.filter fun item => kept item.2.cleanColumnName)
      columns := Function.update s.columns call.wideTableName
        ((s.columns call.wideTableName).filter fun column => kept column.1)
      mappings :=
        if call.resyncs then
          Function.update s.mappings call.protocol
            ((s.mappings call.protocol).filter fun entry => kept entry.2.1)
        else s.mappings }
  else s

/-- A step of a run. -/
inductive SchemaStep
  | ensure (call : EnsureCall)
  | delete (call : DeleteCall)
  /-- the columns of the tables are changed outside the program -/
  | outOfBand (columns : List Char → Dict (List Char) String)

namespace SchemaStep

/-- The state after a step. -/
def apply : SchemaStep → SchemaState → SchemaState
  | ensure call, s => (ensureColumnsForMetrics call s).2
  | delete call, s => deleteFields call s
  | outOfBand columns, s => { s with columns := columns }

/-- After a call that returns `True`, every listed metric has a physical column, and the catalog and
the mapping record its type. -/
def Agrees : SchemaStep → SchemaState → Prop
  | ensure call, s => (ensureColumnsForMetrics call s).1 = .done → ∀ m ∈ namesOf call.metrics,
      Sound (call.db (ensureColumnsForMetrics call s).2)
        ((ensureColumnsForMetrics call s).2.mappings call.protocol) m
  | _, _ => True

/-- Before a call that returns `True`, every listed metric fits into the database. -/
def Fits : SchemaStep → SchemaState → Prop
  | ensure call, s => (ensureColumnsForMetrics call s).1 = .done → ∀ m ∈ namesOf call.metrics,
      FitsIn (call.db s) call.metrics m
  | _, _ => True

end SchemaStep

/-- Every step of a run agrees with the state it starts from. -/
def Along (P : SchemaStep → SchemaState → Prop) : SchemaState → List SchemaStep → Prop
  | _, [] => True
  | s, step :: rest => P step s ∧ Along P (step.apply s) rest

/-- The state after a call that returns `True` is the one its loop ends with. -/
theorem ensureColumnsForMetrics_done {call : EnsureCall} {s : SchemaState}
    (hdone : (ensureColumnsForMetrics call s).1 = .done) :
    ∃ db', (ensureMetrics call.metrics (call.db s) (s.mappings call.protocol)).1 = .ok db' ∧
      call.db (ensureColumnsForMetrics call s).2 = db' ∧
      (ensureColumnsForMetrics call s).2.mappings call.protocol =
        (ensureMetrics call.metrics (call.db s) (s.mappings call.protocol)).2 := by
  rw [ensureColumnsForMetrics, EnsureCall.db] at *
  split at hdone
  · cases hdone
  · next hstart =>
    split at hdone
    · next hopens =>
      rw [if_neg hstart, if_pos hopens]
      generalize ensureMetrics call.metrics _ _ = ended at *
      obtain ⟨ended, mapping⟩ := ended
      cases ended with
      | error refusal => cases hdone
      | ok db' =>
        refine ⟨db', rfl, ?_, ?_⟩
        · simp only at hdone ⊢
          split at hdone
          · next hcommits =>
            rw [if_pos hcommits]
            simp only [EnsureCall.db, Function.update_self]
          · cases hdone
        · simp only
          split <;> exact Function.update_self ..
    · cases hdone

/-- **A call's records.** -/
theorem agrees_iff_fits (step : SchemaStep) (s : SchemaState) : step.Agrees s ↔ step.Fits s := by
  cases step with
  | delete call => exact Iff.rfl
  | outOfBand columns => exact Iff.rfl
  | ensure call =>
    refine forall_congr' fun hdone => forall_congr' fun m => forall_congr' fun hm => ?_
    obtain ⟨db', hok, hdb, hmapping⟩ := ensureColumnsForMetrics_done hdone
    rw [hdb, hmapping]
    exact sound_iff_fitsIn hok hm

/-- **Catalog and table agree on types.** In a run of calls and deletions, the records agree with
the table after every call that returns `True` exactly when before each such call the listed metrics
of the catalog have their columns, and the columns that exist already for metrics without a row have
the types these declare. -/
theorem agrees_along_iff (s : SchemaState) (steps : List SchemaStep) :
    Along SchemaStep.Agrees s steps ↔ Along SchemaStep.Fits s steps := by
  induction steps generalizing s with
  | nil => exact Iff.rfl
  | cons step rest ih => exact and_congr (agrees_iff_fits step s) (ih (step.apply s))

/-- A table with a numeric column the catalog does not know. -/
def SchemaState.legacy : SchemaState :=
  { SchemaState.initial with
    columns := fun _ => Dict.empty.set "grid_power".toList "BIGINT" }

/-- The column stays `BIGINT` and is recorded as `TEXT`. -/
theorem not_agrees_legacy :
    ¬ ∀ (s : SchemaState) (steps : List SchemaStep), Along SchemaStep.Agrees s steps := by
  intro hall
  have hfits := (agrees_iff_fits _ _).mp (hall .legacy [.ensure (textCall ["grid_power".toList])]).1
  have hdone : (ensureColumnsForMetrics (textCall ["grid_power".toList]) .legacy).1 = .done := by
    decide
  rcases (hfits hdone "grid_power".toList (List.mem_cons_self ..)).fresh rfl "BIGINT" (by decide)
    with hcount | ⟨step, hstep, -, htype⟩
  · exact absurd hcount (by decide)
  · rw [List.mem_singleton.mp hstep] at htype
    exact absurd htype (by decide)

end Timescale

end ProtocolGateway
