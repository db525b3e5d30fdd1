import ProtocolGateway.Timescale.EnsureColumns

/-!
# Distinct column and table names

Cleaning maps many characters to one and a cut forgets the end of a name, so two metrics may be
cleaned to one column. The uniqueness of the columns of a protocol then stops the whole call, and
the metrics that came before stay in the in-memory mapping.

* `ensureMetrics_collision_iff` — the calls stopped by a collision: the columns of the metrics of
  the catalog and of those the call comes to are not distinct.
* `keepsApart_iff` — the calls that keep the names apart and fail without a trace.
-/

namespace ProtocolGateway

namespace Timescale

/-! ## The columns of the metrics -/

theorem isIdentifier_columnOf (catalog : MetricCatalog) (m : List Char) :
    isIdentifier (columnOf catalog m) := by
  cases hrow : catalog.get? m with
  | none => exact columnOf_new hrow ▸ isIdentifier_cleanColumnName m
  | some row => exact columnOf_known hrow ▸ row.identifier

/-- The metric has a row in the catalog or is one of the names. -/
def Claims (catalog : MetricCatalog) (names : List (List Char)) (m : List Char) : Prop :=
  (catalog.get? m).isSome ∨ m ∈ names

/-- The metrics of the catalog and the named ones have different columns. -/
def Apart (catalog : MetricCatalog) (names : List (List Char)) : Prop :=
  ∀ m m', Claims catalog names m → Claims catalog names m' →
    columnOf catalog m = columnOf catalog m' → m = m'

/-- The metrics of the catalog have different columns. -/
theorem apart_nil (catalog : MetricCatalog) : Apart catalog [] := by
  rintro m m' (hm | hm) (hm' | hm') heq
  · obtain ⟨row, hrow⟩ := Option.isSome_iff_exists.mp hm
    obtain ⟨row', hrow'⟩ := Option.isSome_iff_exists.mp hm'
    rw [columnOf_known hrow, columnOf_known hrow'] at heq
    exact catalog.unique _ _ _ _ hrow hrow' heq
  all_goals contradiction

namespace Ensured

variable {db db' : WideDb} {decl : MetricDecl} {answers : MetricAnswers}

/-- A metric's turn changes no metric's column. -/
theorem columnOf_eq (h : Ensured db decl answers db') (m : List Char) :
    columnOf db'.catalog m = columnOf db.catalog m := by
  by_cases hm : m = decl.name
  · subst hm
    obtain ⟨row, hrow, hcol, -⟩ := h.catalog_self
    rw [columnOf_known hrow, hcol]
  · rw [columnOf, h.catalog_other m hm, ← columnOf]

/-- A metric's turn puts the metric into the catalog. -/
theorem claims_iff (h : Ensured db decl answers db') (names : List (List Char)) (m : List Char) :
    Claims db'.catalog names m ↔ Claims db.catalog (decl.name :: names) m := by
  rw [Claims, Claims, List.mem_cons]
  by_cases hm : m = decl.name
  · subst hm
    obtain ⟨row, hrow, -⟩ := h.catalog_self
    exact iff_of_true (Or.inl (hrow ▸ rfl)) (Or.inr (Or.inl rfl))
  · rw [h.catalog_other m hm]
    simp [hm]

theorem apart_iff (h : Ensured db decl answers db') (names : List (List Char)) :
    Apart db'.catalog names ↔ Apart db.catalog (decl.name :: names) := by
  simp only [Apart, h.claims_iff, h.columnOf_eq]

end Ensured

/-! ## The loop -/

/-- The metrics a call comes to: those up to the first one whose statements the database refuses. -/
def reached (metrics : List (MetricDecl × MetricAnswers)) : List (MetricDecl × MetricAnswers) :=
  metrics.takeWhile fun step => step.2.accepts

/-- The names of the metrics. -/
def namesOf (metrics : List (MetricDecl × MetricAnswers)) : List (List Char) :=
  metrics.map fun step => step.1.name

/-- A metric's turn: the database refuses, another metric has the column, or the metric has it. -/
theorem ensureMetric_cases (decl : MetricDecl) (answers : MetricAnswers) (db : WideDb) :
    (answers.accepts = false ∧ ensureMetric decl answers db = .error .database) ∨
    (answers.accepts = true ∧ ensureMetric decl answers db = .error .collision ∧
      ¬ Apart db.catalog [decl.name]) ∨
    (answers.accepts = true ∧ ∃ db', ensureMetric decl answers db =
      .ok (db', (columnOf db.catalog decl.name, recordedType db decl answers)) ∧
      Ensured db decl answers db') := by
  cases haccepts : answers.accepts with
  | false => exact Or.inl ⟨rfl, if_neg (by rw [haccepts]; exact Bool.false_ne_true)⟩
  | true =>
    cases hrow : db.catalog.get? decl.name with
    | some row => exact Or.inr (Or.inr ⟨rfl, ensureMetric_known haccepts hrow⟩)
    | none =>
      rcases @ensureMetric_new decl answers db haccepts hrow with
        ⟨⟨m, row, hget, hne, hcol⟩, hstop⟩ | hensured
      · refine Or.inr (Or.inl ⟨rfl, hstop, fun hapart => hne ?_⟩)
        refine hapart m decl.name (Or.inl (hget ▸ rfl)) (Or.inr (List.mem_singleton_self _)) ?_
        rw [columnOf_known hget, columnOf_new hrow, hcol]
      · exact Or.inr (Or.inr ⟨rfl, hensured⟩)

/-- Fewer names are apart where more are. -/
theorem Apart.mono {catalog : MetricCatalog} {names names' : List (List Char)}
    (h : Apart catalog names') (hsub : ∀ m ∈ names, m ∈ names') : Apart catalog names :=
  fun m m' hm hm' heq => h m m' (hm.imp_right (hsub m)) (hm'.imp_right (hsub m')) heq

/-- **The collisions.** The loop is stopped by a collision exactly when the metrics of the catalog
and those it comes to do not have different columns. -/
theorem ensureMetrics_collision_iff (metrics : List (MetricDecl × MetricAnswers)) (db : WideDb)
    (mapping : MetricMapping) :
    (ensureMetrics metrics db mapping).1 = .error .collision ↔
      ¬ Apart db.catalog (namesOf (reached metrics)) := by
  induction metrics generalizing db mapping with
  | nil => exact iff_of_false (fun h => by cases h) (not_not_intro (apart_nil db.catalog))
  | cons step rest ih =>
    obtain ⟨decl, answers⟩ := step
    rw [ensureMetrics, reached, List.takeWhile_cons]
    rcases ensureMetric_cases decl answers db with
      ⟨haccepts, hstop⟩ | ⟨haccepts, hstop, hapart⟩ | ⟨haccepts, db', hok, hensured⟩
    · rw [hstop, haccepts]
      exact iff_of_false (fun h => by cases h) (not_not_intro (apart_nil db.catalog))
    · rw [hstop, haccepts]
      refine iff_of_true rfl (mt (fun h => ?_) hapart)
      refine h.mono fun m hm => ?_
      rw [List.mem_singleton.mp hm]
      exact List.mem_cons_self ..
    · rw [hok, haccepts]
      exact (ih db' _).trans (not_congr (hensured.apart_iff _))

/-- The loop is stopped by the database when it refuses the statements of a metric and no collision
comes first. -/
theorem ensureMetrics_database_iff (metrics : List (MetricDecl × MetricAnswers)) (db : WideDb)
    (mapping : MetricMapping) :
    (ensureMetrics metrics db mapping).1 = .error .database ↔
      Apart db.catalog (namesOf (reached metrics)) ∧
        ∃ step ∈ metrics, step.2.accepts = false := by
  induction metrics generalizing db mapping with
  | nil =>
    refine iff_of_false (fun h => by cases h) ?_
    rintro ⟨-, step, hstep, -⟩
    cases hstep
  | cons step rest ih =>
    obtain ⟨decl, answers⟩ := step
    rw [ensureMetrics, reached, List.takeWhile_cons]
    rcases ensureMetric_cases decl answers db with
      ⟨haccepts, hstop⟩ | ⟨haccepts, hstop, hapart⟩ | ⟨haccepts, db', hok, hensured⟩
    · rw [hstop, haccepts]
      exact iff_of_true rfl ⟨apart_nil db.catalog, _, List.mem_cons_self .., haccepts⟩
    · rw [hstop, haccepts]
      refine iff_of_false (fun h => by cases h) (fun h => hapart (h.1.mono fun m hm => ?_))
      rw [List.mem_singleton.mp hm]
      exact List.mem_cons_self ..
    · rw [hok, haccepts]
      refine (ih db' _).trans (and_congr (hensured.apart_iff _) ?_)
      simp [haccepts]

/-! ## The mapping -/

/-- The loop leaves the mapping of the metrics it does not come to. -/
theorem get?_ensureMetrics_of_notMem {metrics : List (MetricDecl × MetricAnswers)} {db : WideDb}
    {mapping : MetricMapping} {m : List Char} (h : m ∉ namesOf (reached metrics)) :
    (ensureMetrics metrics db mapping).2.get? m = mapping.get? m := by
  induction metrics generalizing db mapping with
  | nil => rfl
  | cons step rest ih =>
    obtain ⟨decl, answers⟩ := step
    rw [reached, List.takeWhile_cons] at h
    rw [ensureMetrics]
    rcases ensureMetric_cases decl answers db with
      ⟨-, hstop⟩ | ⟨-, hstop, -⟩ | ⟨haccepts, db', hok, -⟩
    · rw [hstop]
    · rw [hstop]
    · rw [haccepts, if_pos rfl, namesOf, List.map_cons, List.mem_cons, not_or] at h
      rw [hok]
      exact (ih h.2).trans ((Dict.get?_set _ _ _ _).trans (if_neg h.1))

/-- The type of a column alone decides what reconciliation records. -/
theorem reconcile_snd_congr {columns columns' : Dict (List Char) String} {col : List Char}
    (h : columns'.get? col = columns.get? col) (dType : String) (migrates : Bool) :
    (reconcile columns' col dType migrates).2 = (reconcile columns col dType migrates).2 := by
  rw [reconcile, reconcile, h]
  split
  · rfl
  · split
    · rfl
    · cases migrates <;> rfl

/-- What is recorded for a metric does not depend on the turns of metrics with other columns. -/
theorem Ensured.recordedType_eq {db db' : WideDb} {decl : MetricDecl} {answers : MetricAnswers}
    (h : Ensured db decl answers db') {other : MetricDecl} (hname : other.name ≠ decl.name)
    (hcol : columnOf db.catalog other.name ≠ columnOf db.catalog decl.name)
    (answers' : MetricAnswers) :
    recordedType db' other answers' = recordedType db other answers' := by
  rw [recordedType, recordedType, h.catalog_other _ hname]
  cases hrow : db.catalog.get? other.name with
  | none => rfl
  | some row =>
    rw [columnOf_known hrow] at hcol
    exact reconcile_snd_congr (h.columns_other _ hcol) _ _

/-- The loop maps each metric it comes to to its column, with the type recorded for it. -/
theorem get?_ensureMetrics_of_mem {metrics : List (MetricDecl × MetricAnswers)} {db : WideDb}
    {mapping : MetricMapping} (hnodup : (namesOf metrics).Nodup)
    (hapart : Apart db.catalog (namesOf (reached metrics)))
    {step : MetricDecl × MetricAnswers} (hstep : step ∈ reached metrics) :
    (ensureMetrics metrics db mapping).2.get? step.1.name =
      some (columnOf db.catalog step.1.name, recordedType db step.1 step.2) := by
  induction metrics generalizing db mapping with
  | nil => cases hstep
  | cons first rest ih =>
    obtain ⟨decl, answers⟩ := first
    rw [namesOf, List.map_cons, List.nodup_cons] at hnodup
    rw [reached, List.takeWhile_cons] at hapart hstep
    rw [ensureMetrics]
    rcases ensureMetric_cases decl answers db with
      ⟨haccepts, -⟩ | ⟨haccepts, -, hclash⟩ | ⟨haccepts, db', hok, hensured⟩
    · rw [haccepts] at hstep
      cases hstep
    · rw [haccepts] at hapart
      refine absurd (hapart.mono fun m hm => ?_) hclash
      rw [List.mem_singleton.mp hm]
      exact List.mem_cons_self ..
    · rw [haccepts, if_pos rfl] at hapart hstep
      rw [hok]
      have hrest : ∀ step' ∈ rest.takeWhile fun step => step.2.accepts,
          step'.1.name ≠ decl.name := by
        intro step' hstep' heq
        exact hnodup.1 (heq ▸ List.mem_map_of_mem ((List.takeWhile_sublist _).mem hstep'))
      rcases List.mem_cons.mp hstep with rfl | hstep
      · refine (get?_ensureMetrics_of_notMem fun hmem => ?_).trans
          ((Dict.get?_set _ _ _ _).trans (if_pos rfl))
        obtain ⟨step', hstep', heq⟩ := List.mem_map.mp hmem
        exact hrest step' hstep' heq
      · have hne := hrest step hstep
        refine (ih hnodup.2 ((hensured.apart_iff _).mpr hapart) hstep).trans ?_
        rw [hensured.columnOf_eq, hensured.recordedType_eq hne]
        -- The metric has another column than the first one.
        refine fun heq => hne (hapart _ _ (Or.inr ?_) (Or.inr (List.mem_cons_self ..)) heq)
        exact List.mem_cons_of_mem _ (List.mem_map_of_mem hstep)

/-- The loop leaves no trace in the mapping exactly when every metric it comes to is mapped already
to the column and type it gives it. -/
theorem ensureMetrics_mapping_iff {metrics : List (MetricDecl × MetricAnswers)} {db : WideDb}
    {mapping : MetricMapping} (hnodup : (namesOf metrics).Nodup)
    (hapart : Apart db.catalog (namesOf (reached metrics))) :
    (∀ m, (ensureMetrics metrics db mapping).2.get? m = mapping.get? m) ↔
      ∀ step ∈ reached metrics, mapping.get? step.1.name =
        some (columnOf db.catalog step.1.name, recordedType db step.1 step.2) := by
  constructor
  · intro h step hstep
    rw [← h, get?_ensureMetrics_of_mem hnodup hapart hstep]
  · intro h m
    by_cases hm : m ∈ namesOf (reached metrics)
    · obtain ⟨step, hstep, rfl⟩ := List.mem_map.mp hm
      rw [get?_ensureMetrics_of_mem hnodup hapart hstep, h step hstep]
    · exact get?_ensureMetrics_of_notMem hm

/-! ## The call -/

namespace EnsureCall

/-- The catalog and the columns a call works on. -/
def db (call : EnsureCall) (s : SchemaState) : WideDb :=
  ⟨s.catalogs call.protocol, s.columns call.tableName⟩

/-- The metrics a call comes to. -/
def reached (call : EnsureCall) : List (MetricDecl × MetricAnswers) :=
  if call.connected && call.opens then Timescale.reached call.metrics else []

/-- The database refuses a metric's statements, the commit or the reading of the new schema. -/
def Interrupted (call : EnsureCall) : Prop :=
  (∃ step ∈ call.metrics, step.2.accepts = false) ∨ call.commits = false ∨ call.resyncs = false

end EnsureCall

/-- A call gives the metrics different columns, does not fail because of two metrics, and leaves the
mappings as they were when it fails. -/
structure KeepsApart (call : EnsureCall) (s : SchemaState) : Prop where
  distinct : (ensureColumnsForMetrics call s).1 = .done → ∀ m ∈ namesOf call.metrics,
    ∃ col type, ((ensureColumnsForMetrics call s).2.mappings call.protocol).get? m =
        some (col, type) ∧ isIdentifier col ∧
      ∀ m' ∈ namesOf call.metrics, ∀ type',
        ((ensureColumnsForMetrics call s).2.mappings call.protocol).get? m' = some (col, type') →
        m' = m
  others : (ensureColumnsForMetrics call s).1 ≠ .failed .collision
  restored : ∀ refusal, (ensureColumnsForMetrics call s).1 = .failed refusal → ∀ protocol m,
    ((ensureColumnsForMetrics call s).2.mappings protocol).get? m = (s.mappings protocol).get? m

section

variable {call : EnsureCall} {s : SchemaState}

/-- A call that fails before its loop keeps everything as it was. -/
theorem keepsApart_of_eq {result : EnsureResult} (h : ensureColumnsForMetrics call s = (result, s))
    (hdone : result ≠ .done) (hothers : result ≠ .failed .collision) : KeepsApart call s := by
  refine ⟨fun heq => ?_, ?_, fun _ _ _ _ => ?_⟩
  · rw [h] at heq
    exact absurd heq hdone
  · rw [h]
    exact hothers
  · rw [h]

/-- A failed call differs from no call by the mapping of its protocol. -/
theorem restored_iff {s' : SchemaState} {mapping : MetricMapping}
    (h : s'.mappings = Function.update s.mappings call.protocol mapping) :
    (∀ protocol m, (s'.mappings protocol).get? m = (s.mappings protocol).get? m) ↔
      ∀ m, mapping.get? m = (s.mappings call.protocol).get? m := by
  rw [h]
  constructor
  · intro hall m
    have := hall call.protocol m
    rwa [Function.update_self] at this
  · intro hmapping protocol m
    by_cases hp : protocol = call.protocol
    · rw [hp, Function.update_self, hmapping]
    · rw [Function.update_of_ne hp]

/-- A call that runs its loop, by the end of the loop. -/
theorem ensureColumnsForMetrics_eq (hconnected : call.connected = true) (hsome : call.metrics ≠ [])
    (hopens : call.opens = true) :
    (ensureColumnsForMetrics call s).1 =
        (match (ensureMetrics call.metrics (call.db s) (s.mappings call.protocol)).1 with
        | .error refusal => .failed refusal
        | .ok _ => if call.commits && call.resyncs then .done else .failed .database) ∧
      (ensureColumnsForMetrics call s).2.mappings =
        Function.update s.mappings call.protocol
          (ensureMetrics call.metrics (call.db s) (s.mappings call.protocol)).2 := by
  have hstart : ¬ (call.connected = false ∨ call.metrics = []) := by
    rw [hconnected]
    exact not_or.mpr ⟨Bool.noConfusion, hsome⟩
  rw [ensureColumnsForMetrics, if_neg hstart, if_pos hopens, EnsureCall.db]
  generalize ensureMetrics call.metrics _ _ = ended
  obtain ⟨ended, mapping⟩ := ended
  cases ended with
  | error refusal => exact ⟨rfl, rfl⟩
  | ok db => cases call.commits <;> cases call.resyncs <;> exact ⟨rfl, rfl⟩

/-- A call stopped by the database keeps the names apart if it leaves no trace. -/
theorem keepsApart_iff_of_database (hnodup : (namesOf call.metrics).Nodup)
    (hapart : Apart (s.catalogs call.protocol) (namesOf (reached call.metrics)))
    (hresult : (ensureColumnsForMetrics call s).1 = .failed .database)
    (hmappings : (ensureColumnsForMetrics call s).2.mappings =
      Function.update s.mappings call.protocol
        (ensureMetrics call.metrics (call.db s) (s.mappings call.protocol)).2) :
    KeepsApart call s ↔ ∀ step ∈ reached call.metrics,
      (s.mappings call.protocol).get? step.1.name =
        some (columnOf (s.catalogs call.protocol) step.1.name,
          recordedType (call.db s) step.1 step.2) := by
  have hmapping : (∀ m, (ensureMetrics call.metrics (call.db s) (s.mappings call.protocol)).2.get? m
      = (s.mappings call.protocol).get? m) ↔ _ :=
    ensureMetrics_mapping_iff hnodup hapart
  refine Iff.trans ?_ hmapping
  rw [← restored_iff hmappings]
  constructor
  · intro h
    exact h.restored _ hresult
  · intro h
    refine ⟨fun heq => ?_, ?_, fun _ _ => h⟩
    · rw [hresult] at heq
      cases heq
    · rw [hresult]
      decide

/-- A call that returns `True` has given every metric a column of its own. -/
theorem keepsApart_of_done (hnodup : (namesOf call.metrics).Nodup)
    (hapart : Apart (s.catalogs call.protocol) (namesOf (reached call.metrics)))
    (hreached : reached call.metrics = call.metrics)
    (hresult : (ensureColumnsForMetrics call s).1 = .done)
    (hmappings : (ensureColumnsForMetrics call s).2.mappings =
      Function.update s.mappings call.protocol
        (ensureMetrics call.metrics (call.db s) (s.mappings call.protocol)).2) :
    KeepsApart call s := by
  have hentry : ∀ m ∈ namesOf call.metrics, ∃ type,
      ((ensureColumnsForMetrics call s).2.mappings call.protocol).get? m =
        some (columnOf (s.catalogs call.protocol) m, type) := by
    intro m hm
    obtain ⟨step, hstep, rfl⟩ := List.mem_map.mp hm
    rw [← hreached] at hstep
    rw [hmappings, Function.update_self]
    exact ⟨_, get?_ensureMetrics_of_mem hnodup hapart hstep⟩
  refine ⟨fun _ m hm => ?_, ?_, fun refusal heq => ?_⟩
  · obtain ⟨type, hget⟩ := hentry m hm
    refine ⟨_, type, hget, isIdentifier_columnOf _ m, fun m' hm' type' hget' => ?_⟩
    obtain ⟨type'', hget''⟩ := hentry m' hm'
    rw [hget', Option.some.injEq, Prod.mk.injEq] at hget''
    rw [hreached] at hapart
    exact (hapart m m' (Or.inr hm) (Or.inr hm') hget''.1).symm
  · rw [hresult]
    decide
  · rw [hresult] at heq
    cases heq

/-- The calls that run their loop. -/
theorem keepsApart_iff_of_loop (hnodup : (namesOf call.metrics).Nodup)
    (hconnected : call.connected = true) (hsome : call.metrics ≠ []) (hopens : call.opens = true) :
    KeepsApart call s ↔
      Apart (s.catalogs call.protocol) (namesOf (reached call.metrics)) ∧
      (call.Interrupted → ∀ step ∈ reached call.metrics,
        (s.mappings call.protocol).get? step.1.name =
          some (columnOf (s.catalogs call.protocol) step.1.name,
            recordedType (call.db s) step.1 step.2)) := by
  obtain ⟨hresult, hmappings⟩ := @ensureColumnsForMetrics_eq call s hconnected hsome hopens
  have hcollision := ensureMetrics_collision_iff call.metrics (call.db s)
    (s.mappings call.protocol)
  have hdatabase := ensureMetrics_database_iff call.metrics (call.db s) (s.mappings call.protocol)
  cases hended : (ensureMetrics call.metrics (call.db s) (s.mappings call.protocol)).1 with
  | error refusal =>
    rw [hended] at hresult hcollision hdatabase
    cases refusal with
    | collision =>
      exact iff_of_false (fun h => h.others hresult) (fun h => hcollision.mp rfl h.1)
    | database =>
      obtain ⟨hapart, hrefuses⟩ := hdatabase.mp rfl
      rw [keepsApart_iff_of_database hnodup hapart hresult hmappings]
      exact ⟨fun h => ⟨hapart, fun _ => h⟩, fun h => h.2 (Or.inl hrefuses)⟩
  | ok db =>
    rw [hended] at hresult hcollision hdatabase
    have hapart : Apart (s.catalogs call.protocol) (namesOf (reached call.metrics)) := by
      by_contra hclash
      cases hcollision.mpr hclash
    have haccepts : ∀ step ∈ call.metrics, step.2.accepts = true := by
      intro step hstep
      by_contra hrefused
      cases hdatabase.mpr ⟨hapart, step, hstep, Bool.eq_false_iff.mpr hrefused⟩
    cases hends : call.commits && call.resyncs with
    | true =>
      rw [Bool.and_eq_true] at hends
      have hnot : ¬ call.Interrupted := by
        rintro (⟨step, hstep, hrefused⟩ | hrefused | hrefused)
        · rw [haccepts step hstep] at hrefused
          cases hrefused
        · rw [hends.1] at hrefused
          cases hrefused
        · rw [hends.2] at hrefused
          cases hrefused
      rw [hends.1, hends.2] at hresult
      refine iff_of_true (keepsApart_of_done hnodup hapart ?_ hresult hmappings)
        ⟨hapart, fun h => absurd h hnot⟩
      exact List.takeWhile_eq_self_iff.mpr haccepts
    | false =>
      have hinterrupted : call.Interrupted := Or.inr (Bool.and_eq_false_iff.mp hends)
      rw [hends] at hresult
      rw [keepsApart_iff_of_database hnodup hapart hresult hmappings]
      exact ⟨fun h => ⟨hapart, fun _ => h⟩, fun h => h.2 hinterrupted⟩

/-- A call that comes to no metric. -/
theorem apart_of_reached_eq_nil (h : call.reached = []) :
    Apart (s.catalogs call.protocol) (namesOf call.reached) ∧
      (call.Interrupted → ∀ step ∈ call.reached,
        (s.mappings call.protocol).get? step.1.name =
          some (columnOf (s.catalogs call.protocol) step.1.name,
            recordedType (call.db s) step.1 step.2)) := by
  rw [h]
  refine ⟨apart_nil (s.catalogs call.protocol), fun _ step hstep => ?_⟩
  cases hstep

/-- The calls that fail before their loop, and those that run it. -/
theorem keepsApart_iff_apart (call : EnsureCall) (s : SchemaState)
    (hnodup : (namesOf call.metrics).Nodup) :
    KeepsApart call s ↔
      Apart (s.catalogs call.protocol) (namesOf call.reached) ∧
      (call.Interrupted → ∀ step ∈ call.reached,
        (s.mappings call.protocol).get? step.1.name =
          some (columnOf (s.catalogs call.protocol) step.1.name,
            recordedType (call.db s) step.1 step.2)) := by
  by_cases hstart : call.connected = false ∨ call.metrics = []
  · refine iff_of_true (keepsApart_of_eq (if_pos hstart) (by decide) (by decide))
      (apart_of_reached_eq_nil ?_)
    rcases hstart with hconnected | hnone
    · rw [EnsureCall.reached, hconnected]
      rfl
    · rw [EnsureCall.reached, hnone]
      cases call.connected && call.opens <;> rfl
  · cases hopens : call.opens with
    | false =>
      have hcall : ensureColumnsForMetrics call s = (.failed .database, s) := by
        rw [ensureColumnsForMetrics, if_neg hstart, hopens]
        rfl
      refine iff_of_true (keepsApart_of_eq hcall (by decide) (by decide))
        (apart_of_reached_eq_nil ?_)
      rw [EnsureCall.reached, hopens, Bool.and_false]
      rfl
    | true =>
      rw [not_or, Bool.not_eq_false] at hstart
      have hreached : call.reached = reached call.metrics := by
        rw [EnsureCall.reached, hopens, hstart.1]
        rfl
      rw [hreached]
      exact keepsApart_iff_of_loop hnodup hstart.1 hstart.2 hopens

end

/-- **Names apart.** Different protocols have different tables, and a call gives different metrics
different columns, is not stopped by two metrics of one column, and leaves no trace when it fails:
this holds exactly when the shortened protocol names differ, the metrics of the catalog and those
the call comes to have different columns, and, where the database interrupts the call, every metric
it came to was mapped already to the column and type the call gives it. -/
theorem keepsApart_iff (protocols : List (List Char)) (call : EnsureCall) (s : SchemaState)
    (hnodup : (namesOf call.metrics).Nodup) :
    ((∀ p ∈ protocols, ∀ q ∈ protocols, p ≠ q → safeTableName p ≠ safeTableName q) ∧
        KeepsApart call s) ↔
      (∀ p ∈ protocols, ∀ q ∈ protocols, p ≠ q → shortName p ≠ shortName q) ∧
      Apart (s.catalogs call.protocol) (namesOf call.reached) ∧
      (call.Interrupted → ∀ step ∈ call.reached,
        (s.mappings call.protocol).get? step.1.name =
          some (columnOf (s.catalogs call.protocol) step.1.name,
            recordedType (call.db s) step.1 step.2)) := by
  refine and_congr ?_ (keepsApart_iff_apart call s hnodup)
  simp only [ne_eq, shortName_eq_iff]

/-- Before the first call. -/
def SchemaState.initial : SchemaState :=
  ⟨fun _ => UniqueDict.empty, fun _ => Dict.empty, fun _ => Dict.empty⟩

/-- A call for text metrics of these names, with a database that accepts everything. -/
def textCall (names : List (List Char)) : EnsureCall where
  tableName := "device_metrics_wide__eg4".toList
  protocol := "eg4".toList
  metrics := names.map fun name => (⟨name, "ASCII", some 1, none⟩, ⟨true, true⟩)
  connected := true
  opens := true
  commits := true
  resyncs := true

theorem keepsApart_iff_grid :
    (namesOf (textCall ["grid_power".toList]).metrics).Nodup ∧
      (((∀ p ∈ ["eg4".toList], ∀ q ∈ ["eg4".toList], p ≠ q → safeTableName p ≠ safeTableName q) ∧
          KeepsApart (textCall ["grid_power".toList]) .initial) ↔
        (∀ p ∈ ["eg4".toList], ∀ q ∈ ["eg4".toList], p ≠ q → shortName p ≠ shortName q) ∧
        Apart (SchemaState.initial.catalogs "eg4".toList)
          (namesOf (textCall ["grid_power".toList]).reached) ∧
        ((textCall ["grid_power".toList]).Interrupted →
          ∀ step ∈ (textCall ["grid_power".toList]).reached,
            (SchemaState.initial.mappings "eg4".toList).get? step.1.name =
              some (columnOf (SchemaState.initial.catalogs "eg4".toList) step.1.name,
                recordedType ((textCall ["grid_power".toList]).db .initial) step.1 step.2))) :=
  ⟨List.nodup_singleton _, keepsApart_iff ["eg4".toList] (textCall ["grid_power".toList]) .initial
    (List.nodup_singleton _)⟩

/-- `Grid Power` and `grid_power` are cleaned to one column, and no metric of the protocol gets a
column. -/
theorem not_keepsApart_grid :
    ¬ ∀ (protocols : List (List Char)) (call : EnsureCall) (s : SchemaState),
      (namesOf call.metrics).Nodup →
      (∀ p ∈ protocols, ∀ q ∈ protocols, p ≠ q → safeTableName p ≠ safeTableName q) ∧
        KeepsApart call s := by
  intro hall
  have hnodup : (namesOf (textCall ["Grid Power".toList, "grid_power".toList]).metrics).Nodup := by
    decide
  have hkeeps := (hall [] (textCall ["Grid Power".toList, "grid_power".toList]) .initial hnodup).2
  have hapart := ((keepsApart_iff_apart _ _ hnodup).mp hkeeps).1
  have heq := hapart "Grid Power".toList "grid_power".toList (Or.inr (List.mem_cons_self ..))
    (Or.inr (List.mem_cons_of_mem _ (List.mem_cons_self ..))) (by decide)
  exact absurd heq (by decide)

end Timescale

end ProtocolGateway
