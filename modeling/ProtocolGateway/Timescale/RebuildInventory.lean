import ProtocolGateway.Timescale.RebuildJobs

/-!
# What a rebuild attempts

A rebuild should convert the compressed chunks that the inventory counts for the selected groups. It
looks for them under the names of the tables, where those of a rollup view are not listed.

* `Made` — what a part of a run adds to the chunks attempted and to the progress.
* `runs_spec` — the run, up to the event at which it is closed.
* `rebuildsInventory_iff` — the calls that rebuild what the inventory shows.
-/

namespace ProtocolGateway

namespace Timescale

namespace Compression

/-! ## Progress -/

/-- `bytes_processed` and `bytes_total` of a progress event. -/
def progressOf : RebuildEvent → Option (Int × Nat)
  | .progress _ _ bytesProcessed bytesTotal => some (bytesProcessed, bytesTotal)
  | .done _ => none

/-- What the progress events show. -/
def progressShown (events : List RebuildEvent) : List (Int × Nat) := events.filterMap progressOf

variable {r : Rebuild}

/-- Between two states of a run these chunks were attempted and these credits added. -/
structure Made (r : Rebuild) (st st' : RebuildState) (chunkNames : List (List Char))
    (credits : List ℚ) : Prop where
  attempts : st'.attempts = st.attempts ++ chunkNames.map qualifiedChunk
  bytesProcessed : st'.bytesProcessed = st.bytesProcessed + credits.sum
  shown : progressShown st'.events = progressShown st.events ++
    (Meter.readings (r.bytesTotal : ℚ) st.bytesProcessed credits).map (·, r.bytesTotal)

theorem Made.refl (r : Rebuild) (st : RebuildState) : Made r st st [] [] where
  attempts := (List.append_nil _).symm
  bytesProcessed := (add_zero _).symm
  shown := (List.append_nil _).symm

theorem Made.trans {st st' st'' : RebuildState} {chunkNames chunkNames' : List (List Char)}
    {credits credits' : List ℚ} (h : Made r st st' chunkNames credits)
    (h' : Made r st' st'' chunkNames' credits') :
    Made r st st'' (chunkNames ++ chunkNames') (credits ++ credits') where
  attempts := by rw [h'.attempts, h.attempts, List.map_append, List.append_assoc]
  bytesProcessed := by rw [h'.bytesProcessed, h.bytesProcessed, List.sum_append, add_assoc]
  shown := by
    rw [h'.shown, h.shown, h.bytesProcessed, Meter.readings_append, List.map_append,
      List.append_assoc]

/-- Neither jobs nor results count as progress. -/
theorem Made.congr {st st' st'' : RebuildState} {chunkNames : List (List Char)}
    {credits : List ℚ} (h : Made r st st' chunkNames credits)
    (hattempts : st''.attempts = st'.attempts)
    (hbytes : st''.bytesProcessed = st'.bytesProcessed) (hevents : st''.events = st'.events) :
    Made r st st'' chunkNames credits where
  attempts := hattempts.trans h.attempts
  bytesProcessed := hbytes.trans h.bytesProcessed
  shown := (congrArg progressShown hevents).trans h.shown

/-! ## One table -/

theorem made_rebuildChunk (r : Rebuild) (item : PlanItem) (chunkName : List Char)
    (run : TableRun) :
    Made r run.state (r.rebuildChunk item chunkName run).state [chunkName]
      [r.perChunkWeight item] where
  attempts := rfl
  bytesProcessed := by
    rw [List.sum_singleton]
    rfl
  shown := by
    show progressShown (_ ++ [_]) = _
    rw [progressShown, List.filterMap_append]
    rfl

/-- The chunks of a table are attempted up to the event at which the generator is closed. -/
theorem made_rebuildChunks (r : Rebuild) (closeAt : Option Nat) (item : PlanItem)
    (chunkNames : List (List Char)) (run : TableRun) (hopen : run.closed = false) :
    ∃ made, made <+: chunkNames ∧
      Made r run.state (r.rebuildChunks closeAt item chunkNames run).state made
        (List.replicate made.length (r.perChunkWeight item)) ∧
      (r.rebuildChunks closeAt item chunkNames run).state.jobs = run.state.jobs ∧
      ((r.rebuildChunks closeAt item chunkNames run).closed = false → made = chunkNames) ∧
      ((r.rebuildChunks closeAt item chunkNames run).closed = true → closeAt ≠ none) := by
  induction chunkNames generalizing run with
  | nil => exact ⟨[], List.nil_prefix, Made.refl r run.state, rfl, fun _ => rfl,
      fun h => absurd (hopen.symm.trans h) Bool.false_ne_true⟩
  | cons chunkName rest ih =>
    have hstep := made_rebuildChunk r item chunkName run
    rw [Rebuild.rebuildChunks]
    split
    · next hclose =>
      refine ⟨[chunkName], ⟨rest, rfl⟩, hstep, rfl, fun h => ?_, fun _ => ?_⟩
      · cases h
      · rw [hclose]
        exact Option.some_ne_none _
    · obtain ⟨made, hprefix, hmade, hjobs, hall, hclosed⟩ :=
        ih (r.rebuildChunk item chunkName run) hopen
      refine ⟨chunkName :: made, List.cons_prefix_cons.mpr ⟨rfl, hprefix⟩, ?_, hjobs,
        fun h => congrArg _ (hall h), hclosed⟩
      exact hstep.trans hmade

/-- The credits of the chunks of a table. -/
def creditsOf (r : Rebuild) (item : PlanItem) : List ℚ :=
  Meter.evenly (sizeOf r.oldTotalSizes item.tableName : ℚ) item.chunkNames.length

/-- The run of the chunks of a table, its jobs paused. -/
def chunksRun (r : Rebuild) (closeAt : Option Nat) (item : PlanItem) (st : RebuildState) : TableRun :=
  r.rebuildChunks closeAt item item.chunkNames
    ⟨{ st with
        jobs := (pauseCompressionJobForTable r.faults item.tableName (.fresh st.jobs)).1.commit },
      0, 0, false⟩

/-- The work on a table is that on its chunks, but for the jobs and the results. -/
theorem rebuildTable_chunksRun (r : Rebuild) (closeAt : Option Nat) (item : PlanItem)
    (st : RebuildState) :
    (r.rebuildTable closeAt item st).2 = (chunksRun r closeAt item st).closed ∧
      (r.rebuildTable closeAt item st).1.attempts = (chunksRun r closeAt item st).state.attempts ∧
      (r.rebuildTable closeAt item st).1.bytesProcessed =
        (chunksRun r closeAt item st).state.bytesProcessed ∧
      (r.rebuildTable closeAt item st).1.events = (chunksRun r closeAt item st).state.events := by
  unfold Rebuild.rebuildTable chunksRun
  dsimp only
  split
  · next hclosed => exact ⟨hclosed.symm, rfl, rfl, rfl⟩
  · next hopen => exact ⟨(Bool.eq_false_of_not_eq_true hopen).symm, rfl, rfl, rfl⟩

/-- The jobs of a table are visited once, whenever the generator is closed. -/
theorem jobs_rebuildTable (r : Rebuild) (closeAt : Option Nat) (item : PlanItem)
    (st : RebuildState) :
    (r.rebuildTable closeAt item st).1.jobs = visited r.faults item.tableName st.jobs := by
  have hjobs : (chunksRun r closeAt item st).state.jobs =
      (pauseCompressionJobForTable r.faults item.tableName (.fresh st.jobs)).1.commit := by
    obtain ⟨-, -, -, hjobs, -⟩ := made_rebuildChunks r closeAt item item.chunkNames
      ⟨{ st with
          jobs := (pauseCompressionJobForTable r.faults item.tableName (.fresh st.jobs)).1.commit },
        0, 0, false⟩ rfl
    exact hjobs
  rw [visited, ← hjobs]
  unfold Rebuild.rebuildTable chunksRun
  dsimp only
  split
  · rfl
  · rfl

/-- What the work on a table makes of its plan. -/
theorem made_rebuildTable (r : Rebuild) (closeAt : Option Nat) (item : PlanItem)
    (st : RebuildState) :
    ∃ made credits, made <+: item.chunkNames ∧ credits <+: creditsOf r item ∧
      Made r st (r.rebuildTable closeAt item st).1 made credits ∧
      ((r.rebuildTable closeAt item st).2 = false →
        made = item.chunkNames ∧ credits = creditsOf r item) ∧
      ((r.rebuildTable closeAt item st).2 = true → closeAt ≠ none) := by
  obtain ⟨made, hprefix, hmade, -, hall, hclosed⟩ := made_rebuildChunks r closeAt item
    item.chunkNames
    ⟨{ st with
        jobs := (pauseCompressionJobForTable r.faults item.tableName (.fresh st.jobs)).1.commit },
      0, 0, false⟩ rfl
  obtain ⟨hflag, hattempts, hbytes, hevents⟩ := rebuildTable_chunksRun r closeAt item st
  refine ⟨made, List.replicate made.length (r.perChunkWeight item), hprefix, ?_, ?_, ?_, ?_⟩
  · exact List.prefix_replicate_iff.mpr
      ⟨(List.length_replicate).trans_le hprefix.length_le, by rw [List.length_replicate]; rfl⟩
  · exact ⟨hattempts.trans hmade.attempts, hbytes.trans hmade.bytesProcessed,
      (congrArg progressShown hevents).trans hmade.shown⟩
  · intro hopen
    rw [hflag] at hopen
    obtain rfl := hall hopen
    exact ⟨rfl, rfl⟩
  · rw [hflag]
    exact hclosed

/-! ## The tables of the plan -/

/-- What the work pass makes of its plan. -/
theorem made_rebuildTables (r : Rebuild) (closeAt : Option Nat) (items : List PlanItem)
    (st : RebuildState) :
    ∃ made credits, made <+: items.flatMap PlanItem.chunkNames ∧
      credits <+: items.flatMap (creditsOf r) ∧
      Made r st (r.rebuildTables closeAt items st).1 made credits ∧
      ((r.rebuildTables closeAt items st).2 = false →
        made = items.flatMap PlanItem.chunkNames ∧ credits = items.flatMap (creditsOf r)) ∧
      ((r.rebuildTables closeAt items st).2 = true → closeAt ≠ none) := by
  induction items generalizing st with
  | nil => exact ⟨[], [], List.nil_prefix, List.nil_prefix, Made.refl r st, fun _ => ⟨rfl, rfl⟩,
      fun h => absurd h Bool.false_ne_true⟩
  | cons item rest ih =>
    obtain ⟨made, credits, hprefix, hcredits, hmade, hall, hclosed⟩ :=
      made_rebuildTable r closeAt item st
    rw [Rebuild.rebuildTables, List.flatMap_cons, List.flatMap_cons]
    cases hflag : (r.rebuildTable closeAt item st).2 with
    | true =>
      refine ⟨made, credits, hprefix.trans (List.prefix_append _ _),
        hcredits.trans (List.prefix_append _ _), hmade, fun h => ?_, fun _ => hclosed hflag⟩
      exact absurd (hflag.symm.trans h) (Bool.false_ne_true ∘ Eq.symm)
    | false =>
      obtain ⟨rfl, rfl⟩ := hall hflag
      obtain ⟨made', credits', hprefix', hcredits', hmade', hall', hclosed'⟩ :=
        ih (r.rebuildTable closeAt item st).1
      refine ⟨_, _, (List.prefix_append_right_inj _).mpr hprefix',
        (List.prefix_append_right_inj _).mpr hcredits', hmade.trans hmade', fun h => ?_, hclosed'⟩
      obtain ⟨rfl, rfl⟩ := hall' h
      exact ⟨rfl, rfl⟩

/-- The tables are visited one after the other, up to the one at which the generator is closed. -/
theorem jobs_rebuildTables (hjobs : (r.catalog.jobs.map JobRow.jobId).Nodup)
    (closeAt : Option Nat) (items : List PlanItem) (st : RebuildState) (seen : List (List Char))
    (hst : st.jobs = jobsAfter r.faults r.catalog.jobs seen) :
    ∃ tables, tables <+: items.map PlanItem.tableName ∧
      (r.rebuildTables closeAt items st).1.jobs =
        jobsAfter r.faults r.catalog.jobs (seen ++ tables) ∧
      ((r.rebuildTables closeAt items st).2 = false → tables = items.map PlanItem.tableName) := by
  induction items generalizing st seen with
  | nil =>
    refine ⟨[], List.nil_prefix, ?_, fun _ => rfl⟩
    rw [List.append_nil]
    exact hst
  | cons item rest ih =>
    have hvisit : (r.rebuildTable closeAt item st).1.jobs =
        jobsAfter r.faults r.catalog.jobs (seen ++ [item.tableName]) := by
      rw [jobs_rebuildTable, hst, visited_jobsAfter hjobs]
    rw [Rebuild.rebuildTables, List.map_cons]
    cases hflag : (r.rebuildTable closeAt item st).2 with
    | true =>
      refine ⟨[item.tableName], ⟨_, rfl⟩, hvisit, fun h => ?_⟩
      exact absurd (hflag.symm.trans h) (Bool.false_ne_true ∘ Eq.symm)
    | false =>
      obtain ⟨tables, hprefix, hafter, hall⟩ := ih (r.rebuildTable closeAt item st).1 _ hvisit
      refine ⟨item.tableName :: tables, List.cons_prefix_cons.mpr ⟨rfl, hprefix⟩, ?_,
        fun h => congrArg _ (hall h)⟩
      rw [← List.append_cons] at hafter
      exact hafter

/-! ## The run -/

/-- A run attempts a first part of the plan, all of it unless it is closed. -/
theorem run_spec (r : Rebuild) (closeAt : Option Nat) :
    ∃ made credits tables, made <+: r.plan.flatMap PlanItem.chunkNames ∧
      credits <+: r.plan.flatMap (creditsOf r) ∧ tables <+: r.touchedTables ∧
      (r.rebuildCompression closeAt).attempts = made.map qualifiedChunk ∧
      progressShown (r.rebuildCompression closeAt).events =
        (Meter.readings (r.bytesTotal : ℚ) 0 credits).map (·, r.bytesTotal) ∧
      (r.rebuildCompression closeAt).jobs = jobsAfter r.faults r.catalog.jobs tables ∧
      (closeAt = none → made = r.plan.flatMap PlanItem.chunkNames ∧
        credits = r.plan.flatMap (creditsOf r) ∧ tables = r.touchedTables) := by
  have hstart : r.initial.jobs = jobsAfter r.faults r.catalog.jobs [] :=
    (jobsAfter_nil r.faults r.catalog.jobs).symm
  unfold Rebuild.rebuildCompression
  split
  · next hclose =>
    refine ⟨[], [], [], List.nil_prefix, List.nil_prefix, List.nil_prefix, rfl, rfl, hstart, ?_⟩
    rw [hclose]
    exact fun h => absurd h (Option.some_ne_none 0)
  · obtain ⟨made, credits, hprefix, hcredits, hmade, hall, hclosed⟩ :=
      made_rebuildTables r closeAt r.plan r.initial
    obtain ⟨tables, htables, hjobs, hvisited⟩ :=
      jobs_rebuildTables r.catalog.jobs_distinct closeAt r.plan r.initial [] hstart
    refine ⟨made, credits, tables, hprefix, hcredits, htables, ?_⟩
    dsimp only
    split
    · next hflag =>
      exact ⟨hmade.attempts, hmade.shown, hjobs, fun h => absurd h (hclosed hflag)⟩
    · next hflag =>
      have hopen := Bool.eq_false_of_not_eq_true hflag
      refine ⟨hmade.attempts, ?_, hjobs,
        fun _ => ⟨(hall hopen).1, (hall hopen).2, hvisited hopen⟩⟩
      rw [progressShown, List.filterMap_append]
      exact (List.append_nil _).trans hmade.shown

/-- A run that is not closed ends with one row for each group. -/
theorem done_rows (r : Rebuild) :
    ∃ rows, (r.rebuildCompression none).events.getLast? = some (.done rows) ∧
      rows.map RebuildGroup.protocolName = r.groups.map GroupTables.protocolName := by
  obtain ⟨-, -, -, -, -, -, hclosed⟩ := made_rebuildTables r none r.plan r.initial
  have hopen : (r.rebuildTables none r.plan r.initial).2 = false :=
    Bool.eq_false_of_not_eq_true fun h => hclosed h rfl
  refine ⟨r.groups.map (r.groupResult (r.rebuildTables none r.plan r.initial).1.groupAcc), ?_, ?_⟩
  · unfold Rebuild.rebuildCompression
    dsimp only
    rw [if_neg (Option.some_ne_none 0).symm, hopen, if_neg Bool.false_ne_true]
    exact List.getLast?_concat
  · rw [List.map_map]
    refine List.map_congr_left fun group _ => ?_
    rw [Function.comp, Rebuild.groupResult]
    split <;> rfl

/-! ## The plan -/

/-- What the items of the plan have, table by table. -/
theorem plan_flatMap {β : Type} {f : PlanItem → List β} {g : List Char → List β}
    (h : ∀ protocolName tableName,
      (r.planTable protocolName tableName).toList.flatMap f = g tableName) :
    r.plan.flatMap f = r.selectedTables.flatMap g := by
  rw [Rebuild.plan, Rebuild.selectedTables, List.flatMap_assoc, List.flatMap_assoc]
  refine List.flatMap_congr fun group _ => ?_
  rw [List.filterMap_eq_flatMap_toList, List.flatMap_assoc]
  exact List.flatMap_congr fun tableName _ => h _ _

/-- The names of the chunks that the plan has for a table. -/
def plannedChunks (r : Rebuild) (tableName : List Char) : List (List Char) :=
  if r.faults.planning tableName then [] else (r.chunkRows tableName).map ChunkRow.chunkName

theorem chunkNames_plan (r : Rebuild) :
    r.plan.flatMap PlanItem.chunkNames = r.selectedTables.flatMap (plannedChunks r) := by
  refine plan_flatMap fun protocolName tableName => ?_
  rw [Rebuild.planTable, plannedChunks]
  split
  · rfl
  · split
    · next hnone =>
      rw [List.isEmpty_iff.mp hnone]
      rfl
    · exact List.append_nil _

/-- A table is worked on if it is selected and compressed chunks are found for it. -/
theorem mem_touchedTables {tableName : List Char} :
    tableName ∈ r.touchedTables ↔ tableName ∈ r.selectedTables ∧
      r.faults.planning tableName = false ∧ ∃ chunk ∈ r.catalog.chunks,
        chunk.hypertableName = tableName ∧ chunk.isCompressed = true := by
  have htouched : r.touchedTables = r.selectedTables.flatMap fun tableName =>
      if r.faults.planning tableName ∨ (r.chunkRows tableName).isEmpty then [] else [tableName] := by
    rw [Rebuild.touchedTables, List.map_eq_flatMap]
    refine plan_flatMap fun protocolName tableName => ?_
    rw [Rebuild.planTable]
    split
    · next hfails => rw [if_pos (Or.inl hfails)]; rfl
    · next hplanned =>
      split
      · next hnone => rw [if_pos (Or.inr hnone)]; rfl
      · next hsome => rw [if_neg (not_or.mpr ⟨hplanned, hsome⟩)]; rfl
  have hfound (tableName : List Char) : ¬ (r.chunkRows tableName).isEmpty = true ↔
      ∃ chunk ∈ r.catalog.chunks, chunk.hypertableName = tableName ∧ chunk.isCompressed = true := by
    rw [List.isEmpty_iff, Rebuild.chunkRows, List.filter_eq_nil_iff]
    simp
  rw [htouched, List.mem_flatMap]
  constructor
  · rintro ⟨tableName', hselected, hmem⟩
    split at hmem
    · cases hmem
    · next h =>
      obtain rfl := List.mem_singleton.mp hmem
      obtain ⟨hplanned, hsome⟩ := not_or.mp h
      exact ⟨hselected, Bool.eq_false_of_not_eq_true hplanned, (hfound _).mp hsome⟩
  · rintro ⟨hselected, hplanned, hsome⟩
    refine ⟨tableName, hselected, ?_⟩
    rw [hplanned, if_neg (not_or.mpr ⟨Bool.false_ne_true, (hfound _).mpr hsome⟩)]
    exact List.mem_singleton_self _

theorem chunkNames_ne_nil {item : PlanItem} (h : item ∈ r.plan) : item.chunkNames ≠ [] := by
  obtain ⟨group, -, hitem⟩ := List.mem_flatMap.mp h
  obtain ⟨tableName, -, hplan⟩ := List.mem_filterMap.mp hitem
  rw [Rebuild.planTable] at hplan
  split at hplan
  · cases hplan
  · split at hplan
    · cases hplan
    · next hsome =>
      rw [← Option.some.inj hplan]
      exact fun hnil => hsome (List.isEmpty_iff.mpr (List.map_eq_nil_iff.mp hnil))

/-- The credits of the plan are the sizes of its tables. -/
theorem sum_credits (r : Rebuild) : (r.plan.flatMap (creditsOf r)).sum = (r.bytesTotal : ℚ) := by
  have hsum (items : List PlanItem) (hitems : ∀ item ∈ items, item.chunkNames ≠ []) :
      (items.flatMap (creditsOf r)).sum =
        (((items.map PlanItem.tableName).map (sizeOf r.oldTotalSizes)).sum : ℕ) := by
    induction items with
    | nil => simp
    | cons item rest ih =>
      have hsteps : item.chunkNames.length ≠ 0 :=
        mt List.length_eq_zero_iff.mp (hitems item List.mem_cons_self)
      rw [List.flatMap_cons, List.sum_append, ih fun i hi => hitems i (List.mem_cons_of_mem _ hi),
        creditsOf, Meter.sum_evenly _ hsteps, List.map_cons, List.map_cons, List.sum_cons,
        Nat.cast_add]
  exact hsum r.plan fun item hitem => chunkNames_ne_nil hitem

/-! ## The chunks attempted -/

theorem qualifiedChunk_of_mem {chunk : ChunkRow} (h : chunk ∈ r.catalog.chunks) :
    qualifiedChunk chunk.chunkName = chunkSchema ++ chunk.chunkName := by
  rw [qualifiedChunk, r.catalog.chunks_unqualified chunk h]
  rfl

/-- A chunk is told by the name that it is converted under. -/
theorem qualifiedChunk_inj {chunk chunk' : ChunkRow} (h : chunk ∈ r.catalog.chunks)
    (h' : chunk' ∈ r.catalog.chunks)
    (heq : qualifiedChunk chunk.chunkName = qualifiedChunk chunk'.chunkName) : chunk = chunk' := by
  rw [qualifiedChunk_of_mem h, qualifiedChunk_of_mem h', List.append_cancel_left_eq] at heq
  exact List.inj_on_of_nodup_map r.catalog.chunks_distinct h h' heq

theorem attempts_eq (r : Rebuild) : (r.rebuildCompression none).attempts =
    (r.selectedTables.flatMap (plannedChunks r)).map qualifiedChunk := by
  obtain ⟨made, _, _, _, _, _, hattempts, _, _, hall⟩ := run_spec r none
  rw [hattempts, (hall rfl).1, chunkNames_plan]

theorem mem_plannedChunks {tableName chunkName : List Char} :
    chunkName ∈ plannedChunks r tableName ↔ r.faults.planning tableName = false ∧
      ∃ chunk ∈ r.catalog.chunks, chunk.hypertableName = tableName ∧
        chunk.isCompressed = true ∧ chunk.chunkName = chunkName := by
  rw [plannedChunks]
  split
  · next h => simp [h]
  · next h =>
    have hplanned := Bool.eq_false_of_not_eq_true h
    rw [hplanned, Rebuild.chunkRows]
    simp [and_assoc]

/-- The compressed chunks found under the name of a selected table are attempted. -/
theorem mem_attempts {relation : List Char} :
    relation ∈ (r.rebuildCompression none).attempts ↔
      ∃ chunk ∈ r.catalog.chunks, chunk.isCompressed = true ∧
        chunk.hypertableName ∈ r.selectedTables ∧
        r.faults.planning chunk.hypertableName = false ∧
        qualifiedChunk chunk.chunkName = relation := by
  rw [attempts_eq, List.mem_map]
  constructor
  · rintro ⟨chunkName, hmem, rfl⟩
    obtain ⟨tableName, hselected, hmem⟩ := List.mem_flatMap.mp hmem
    obtain ⟨hplanned, chunk, hchunk, rfl, hcompressed, rfl⟩ := mem_plannedChunks.mp hmem
    exact ⟨chunk, hchunk, hcompressed, hselected, hplanned, rfl⟩
  · rintro ⟨chunk, hchunk, hcompressed, hselected, hplanned, rfl⟩
    exact ⟨_, List.mem_flatMap.mpr ⟨_, hselected,
      mem_plannedChunks.mpr ⟨hplanned, chunk, hchunk, rfl, hcompressed, rfl⟩⟩, rfl⟩

/-- A chunk is attempted each time that its table is listed. -/
theorem count_attempts {chunk : ChunkRow} (hchunk : chunk ∈ r.catalog.chunks)
    (hcompressed : chunk.isCompressed = true)
    (hplanned : r.faults.planning chunk.hypertableName = false) :
    (r.rebuildCompression none).attempts.count (qualifiedChunk chunk.chunkName) =
      r.selectedTables.count chunk.hypertableName := by
  have hnodup (tableName : List Char) :
      ((plannedChunks r tableName).map qualifiedChunk).Nodup := by
    rw [plannedChunks]
    split
    · exact List.nodup_nil
    · rw [List.map_map]
      refine List.Nodup.map_on (fun x hx y hy heq => ?_)
        (r.catalog.chunks_distinct.of_map.filter _)
      exact qualifiedChunk_inj (List.mem_filter.mp hx).1 (List.mem_filter.mp hy).1 heq
  have hmem (tableName : List Char) :
      qualifiedChunk chunk.chunkName ∈ (plannedChunks r tableName).map qualifiedChunk ↔
        tableName = chunk.hypertableName := by
    rw [List.mem_map]
    constructor
    · rintro ⟨chunkName, hname, heq⟩
      obtain ⟨-, chunk', hchunk', rfl, -, rfl⟩ := mem_plannedChunks.mp hname
      rw [qualifiedChunk_inj hchunk' hchunk heq]
    · rintro rfl
      exact ⟨_, mem_plannedChunks.mpr ⟨hplanned, chunk, hchunk, rfl, hcompressed, rfl⟩, rfl⟩
  rw [attempts_eq]
  induction r.selectedTables with
  | nil => rfl
  | cons tableName rest ih =>
    rw [List.flatMap_cons, List.map_append, List.count_append, ih, List.count_cons, Nat.add_comm]
    by_cases htable : tableName = chunk.hypertableName
    · rw [List.count_eq_one_of_mem (hnodup _) ((hmem _).mpr htable), if_pos (by simpa using htable)]
    · rw [List.count_eq_zero_of_not_mem (mt (hmem _).mp htable), if_neg (by simpa using htable)]

/-! ## Inventory and rebuild -/

/-- The chunks that the inventory counts for the selected groups. -/
def Counted (r : Rebuild) (chunk : ChunkRow) : Prop :=
  ∃ group ∈ r.groups, group.selected = true ∧ ∃ tableName ∈ group.tables,
    chunk ∈ countedChunks r.catalog
      (allTableNames (compressionGroupTables r.catalog.registry none)) tableName

/-- A rebuild attempts the chunks that the inventory counts for the selected groups, each once. Its
progress does not decrease, stays within the total and reaches it, its last event has a row for each
group, and whenever the consumer closes it, the jobs that it paused are scheduled again, but for
those that fail to resume themselves. -/
structure RebuildsInventory (r : Rebuild) : Prop where
  attempted_once : (r.rebuildCompression none).attempts.Nodup
  attempted_counted : ∀ relation, relation ∈ (r.rebuildCompression none).attempts ↔
    ∃ chunk, Counted r chunk ∧ qualifiedChunk chunk.chunkName = relation
  progress_sorted : ∀ closeAt,
    ((progressShown (r.rebuildCompression closeAt).events).map Prod.fst).Pairwise (· ≤ ·)
  progress_within : ∀ closeAt, ∀ shown ∈ progressShown (r.rebuildCompression closeAt).events,
    shown.1 ≤ shown.2
  progress_complete : ∀ shown,
    (progressShown (r.rebuildCompression none).events).getLast? = some shown →
      shown.1 = shown.2
  done_rows : ∃ rows, (r.rebuildCompression none).events.getLast? = some (.done rows) ∧
    rows.map RebuildGroup.protocolName = r.groups.map GroupTables.protocolName
  jobs_resumed : ∀ closeAt, ∀ job ∈ r.catalog.jobs, job.scheduled = true →
    job ∈ (r.rebuildCompression closeAt).jobs ∨ r.faults.resume job.jobId = true

/-- The compressed chunks of the selected tables and views are all found under names of selected
tables, each of which is planned and listed once, and no visit of a table loses a job that would
have resumed. -/
structure Rebuildable (r : Rebuild) : Prop where
  views : ∀ ca ∈ r.catalog.aggregates, ca.viewName ∈ r.selectedTables →
    ∀ chunk ∈ r.catalog.chunks, chunk.isCompressed = true →
      chunk.hypertableName = ca.materializationHypertableName →
        chunk.hypertableName ∈ r.selectedTables
  planned : ∀ chunk ∈ r.catalog.chunks, chunk.isCompressed = true →
    chunk.hypertableName ∈ r.selectedTables → r.faults.planning chunk.hypertableName = false
  listed_once : ∀ chunk ∈ r.catalog.chunks, chunk.isCompressed = true →
    r.selectedTables.count chunk.hypertableName ≤ 1
  jobs : ∀ chunk ∈ r.catalog.chunks, chunk.isCompressed = true →
    chunk.hypertableName ∈ r.selectedTables →
      Strands r.faults chunk.hypertableName r.catalog.jobs →
        ∀ job ∈ compressionJobs chunk.hypertableName r.catalog.jobs,
          r.faults.resume job.jobId = true

/-- The groups have the same tables whatever is selected. -/
theorem map_tables_compressionGroupTables (registry : List RegistryRow)
    (protocolNames : Option (List (List Char))) :
    (compressionGroupTables registry protocolNames).map GroupTables.tables =
      (compressionGroupTables registry none).map GroupTables.tables := by
  rw [compressionGroupTables, compressionGroupTables, List.map_cons, List.map_cons,
    List.map_filterMap, List.map_filterMap]
  simp only [Option.map_map]
  rfl

/-- The inventory counts the compressed chunks of the selected tables and views. -/
theorem counted_iff {chunk : ChunkRow} :
    Counted r chunk ↔ chunk ∈ r.catalog.chunks ∧ chunk.isCompressed = true ∧
      ∃ tableName ∈ r.selectedTables, Stores r.catalog chunk tableName := by
  have hlisted {group : GroupTables} (hgroup : group ∈ r.groups) {tableName : List Char}
      (htable : tableName ∈ group.tables) :
      tableName ∈ allTableNames (compressionGroupTables r.catalog.registry none) := by
    have hsame := map_tables_compressionGroupTables r.catalog.registry r.protocolNames
    rw [allTableNames, List.flatMap_def, ← hsame, List.mem_flatten]
    exact ⟨group.tables, List.mem_map_of_mem hgroup, htable⟩
  constructor
  · rintro ⟨group, hgroup, hselected, tableName, htable, hcounted⟩
    obtain ⟨-, hchunk, hcompressed, hstored⟩ := mem_countedChunks.mp hcounted
    exact ⟨hchunk, hcompressed, tableName, List.mem_flatMap.mpr
      ⟨group, List.mem_filter.mpr ⟨hgroup, hselected⟩, htable⟩, hstored⟩
  · rintro ⟨hchunk, hcompressed, tableName, hselected, hstored⟩
    obtain ⟨group, hgroup, htable⟩ := List.mem_flatMap.mp hselected
    obtain ⟨hgroup, hselected⟩ := List.mem_filter.mp hgroup
    exact ⟨group, hgroup, hselected, tableName, htable,
      mem_countedChunks.mpr ⟨hlisted hgroup htable, hchunk, hcompressed, hstored⟩⟩

/-! ## The progress shown -/

/-- What the progress events show does not decrease and stays within the total. -/
theorem progress_of_run (r : Rebuild) (closeAt : Option Nat) :
    ((progressShown (r.rebuildCompression closeAt).events).map Prod.fst).Pairwise (· ≤ ·) ∧
      ∀ shown ∈ progressShown (r.rebuildCompression closeAt).events, shown.1 ≤ shown.2 := by
  obtain ⟨-, credits, -, -, hcredits, -, -, hshown, -, -⟩ := run_spec r closeAt
  have hnonneg : ∀ credit ∈ credits, 0 ≤ credit := by
    intro credit hcredit
    obtain ⟨item, -, hitem⟩ := List.mem_flatMap.mp (hcredits.subset hcredit)
    exact Meter.evenly_nonneg (Nat.cast_nonneg _) credit hitem
  rw [hshown]
  constructor
  · rw [List.map_map]
    exact (List.map_id _).symm ▸ Meter.readings_sorted hnonneg
  · intro shown hmem
    obtain ⟨reading, hreading, rfl⟩ := List.mem_map.mp hmem
    have hle := Meter.readings_le hreading
    rw [Int.floor_natCast] at hle
    exact hle

/-- The last chunk brings the progress to the total. -/
theorem progress_complete (r : Rebuild) {shown : Int × Nat}
    (h : (progressShown (r.rebuildCompression none).events).getLast? = some shown) :
    shown.1 = shown.2 := by
  obtain ⟨_, credits, _, _, _, _, _, hshown, _, hall⟩ := run_spec r none
  obtain ⟨_, rfl, _⟩ := hall rfl
  rw [hshown, List.getLast?_map] at h
  obtain ⟨reading, hlast, rfl⟩ := Option.map_eq_some_iff.mp h
  by_cases hnone : r.plan.flatMap (creditsOf r) = []
  · rw [hnone] at hlast
    cases hlast
  · rw [Meter.readings_last hnone, zero_add, sum_credits, Meter.shown_total, Int.floor_natCast]
      at hlast
    exact (Option.some.inj hlast).symm

/-! ## The calls that rebuild what the inventory shows -/

/-- The chunks attempted are those counted exactly if the chunks of views are found and the tables
planned. -/
theorem attempted_counted_iff (r : Rebuild) :
    (∀ relation, relation ∈ (r.rebuildCompression none).attempts ↔
      ∃ chunk, Counted r chunk ∧ qualifiedChunk chunk.chunkName = relation) ↔
    (∀ ca ∈ r.catalog.aggregates, ca.viewName ∈ r.selectedTables →
      ∀ chunk ∈ r.catalog.chunks, chunk.isCompressed = true →
        chunk.hypertableName = ca.materializationHypertableName →
          chunk.hypertableName ∈ r.selectedTables) ∧
    ∀ chunk ∈ r.catalog.chunks, chunk.isCompressed = true →
      chunk.hypertableName ∈ r.selectedTables →
        r.faults.planning chunk.hypertableName = false := by
  constructor
  · intro h
    have hfound {chunk : ChunkRow} (hchunk : chunk ∈ r.catalog.chunks)
        (hcompressed : chunk.isCompressed = true) {tableName : List Char}
        (hselected : tableName ∈ r.selectedTables) (hstored : Stores r.catalog chunk tableName) :
        chunk.hypertableName ∈ r.selectedTables ∧
          r.faults.planning chunk.hypertableName = false := by
      obtain ⟨chunk', hchunk', -, hmem, hplanned, heq⟩ := mem_attempts.mp ((h _).mpr
        ⟨chunk, counted_iff.mpr ⟨hchunk, hcompressed, tableName, hselected, hstored⟩, rfl⟩)
      rw [qualifiedChunk_inj hchunk' hchunk heq] at hmem hplanned
      exact ⟨hmem, hplanned⟩
    refine ⟨fun ca hca hview chunk hchunk hcompressed hname => ?_,
      fun chunk hchunk hcompressed hselected => ?_⟩
    · exact (hfound hchunk hcompressed hview (Or.inr ⟨ca, hca, rfl, hname⟩)).1
    · exact (hfound hchunk hcompressed hselected (Or.inl rfl)).2
  · rintro ⟨hviews, hplanned⟩ relation
    rw [mem_attempts]
    constructor
    · rintro ⟨chunk, hchunk, hcompressed, hselected, -, rfl⟩
      exact ⟨chunk, counted_iff.mpr ⟨hchunk, hcompressed, _, hselected, Or.inl rfl⟩, rfl⟩
    · rintro ⟨chunk, hcounted, rfl⟩
      obtain ⟨hchunk, hcompressed, tableName, hselected, hstored⟩ := counted_iff.mp hcounted
      have hmem : chunk.hypertableName ∈ r.selectedTables := by
        rcases hstored with rfl | ⟨ca, hca, rfl, hname⟩
        · exact hselected
        · exact hviews ca hca hselected chunk hchunk hcompressed hname
      exact ⟨chunk, hchunk, hcompressed, hmem, hplanned chunk hchunk hcompressed hmem, rfl⟩

/-- No chunk is attempted twice exactly if no table with one is listed twice. -/
theorem attempted_once_iff
    (hplanned : ∀ chunk ∈ r.catalog.chunks, chunk.isCompressed = true →
      chunk.hypertableName ∈ r.selectedTables → r.faults.planning chunk.hypertableName = false) :
    (r.rebuildCompression none).attempts.Nodup ↔
      ∀ chunk ∈ r.catalog.chunks, chunk.isCompressed = true →
        r.selectedTables.count chunk.hypertableName ≤ 1 := by
  rw [List.nodup_iff_count_le_one]
  constructor
  · intro h chunk hchunk hcompressed
    by_cases hselected : chunk.hypertableName ∈ r.selectedTables
    · rw [← count_attempts hchunk hcompressed (hplanned chunk hchunk hcompressed hselected)]
      exact h _
    · rw [List.count_eq_zero_of_not_mem hselected]
      exact Nat.zero_le 1
  · intro h relation
    by_cases hmem : relation ∈ (r.rebuildCompression none).attempts
    · obtain ⟨chunk, hchunk, hcompressed, -, hplanned, rfl⟩ := mem_attempts.mp hmem
      rw [count_attempts hchunk hcompressed hplanned]
      exact h chunk hchunk hcompressed
    · rw [List.count_eq_zero_of_not_mem hmem]
      exact Nat.zero_le 1

/-- The jobs are resumed, wherever a run is closed, exactly if the visits of the tables lose none
that would have resumed. -/
theorem jobs_resumed_iff
    (hplanned : ∀ chunk ∈ r.catalog.chunks, chunk.isCompressed = true →
      chunk.hypertableName ∈ r.selectedTables → r.faults.planning chunk.hypertableName = false) :
    (∀ closeAt, ∀ job ∈ r.catalog.jobs, job.scheduled = true →
      job ∈ (r.rebuildCompression closeAt).jobs ∨ r.faults.resume job.jobId = true) ↔
    ∀ chunk ∈ r.catalog.chunks, chunk.isCompressed = true →
      chunk.hypertableName ∈ r.selectedTables →
        Strands r.faults chunk.hypertableName r.catalog.jobs →
          ∀ job ∈ compressionJobs chunk.hypertableName r.catalog.jobs,
            r.faults.resume job.jobId = true := by
  constructor
  · intro h chunk hchunk hcompressed hselected hstrands job hfound
    obtain ⟨_, _, tables, _, _, _, _, _, hjobs, hall⟩ := run_spec r none
    obtain ⟨hjob, hname, -, hscheduled⟩ := mem_compressionJobs.mp hfound
    refine (h none job hjob hscheduled).resolve_left fun hkept => ?_
    rw [hjobs, (hall rfl).2.2] at hkept
    refine (mem_jobsAfter hjob hscheduled).mp hkept (mem_lostJobs.mpr ?_)
    rw [hname]
    exact ⟨mem_touchedTables.mpr ⟨hselected, hplanned chunk hchunk hcompressed hselected,
      chunk, hchunk, rfl, hcompressed⟩, hfound, hstrands⟩
  · intro h closeAt job hjob hscheduled
    obtain ⟨_, _, tables, _, _, htables, _, _, hjobs, _⟩ := run_spec r closeAt
    by_cases hlost : job ∈ lostJobs r.faults r.catalog.jobs tables
    · obtain ⟨hvisited, hfound, hstrands⟩ := mem_lostJobs.mp hlost
      obtain ⟨hselected, -, chunk, hchunk, hname, hcompressed⟩ :=
        mem_touchedTables.mp (htables.subset hvisited)
      rw [← hname] at hselected hstrands hfound
      exact Or.inr (h chunk hchunk hcompressed hselected hstrands job hfound)
    · left
      rw [hjobs]
      exact (mem_jobsAfter hjob hscheduled).mpr hlost

/-- **Rebuilding what the inventory shows.** A rebuild attempts the chunks that the inventory
counts, each once, and has every job that it paused scheduled again, exactly if no selected view has
compressed chunks in a hypertable that is not selected itself, every selected table with compressed
chunks is listed once and its planning query answered, and the jobs of such a table resume together
or not at all. Its progress and its last event are right in any case. -/
theorem rebuildsInventory_iff (r : Rebuild) : RebuildsInventory r ↔ Rebuildable r := by
  constructor
  · intro h
    obtain ⟨hviews, hplanned⟩ := (attempted_counted_iff r).mp h.attempted_counted
    exact
      { views := hviews
        planned := hplanned
        listed_once := (attempted_once_iff hplanned).mp h.attempted_once
        jobs := (jobs_resumed_iff hplanned).mp h.jobs_resumed }
  · intro h
    exact
      { attempted_once := (attempted_once_iff h.planned).mpr h.listed_once
        attempted_counted := (attempted_counted_iff r).mpr ⟨h.views, h.planned⟩
        progress_sorted := fun closeAt => (progress_of_run r closeAt).1
        progress_within := fun closeAt => (progress_of_run r closeAt).2
        progress_complete := fun _ hlast => progress_complete r hlast
        done_rows := done_rows r
        jobs_resumed := (jobs_resumed_iff h.planned).mpr h.jobs }

/-- A database in which the shared hourly view has one chunk, and it is compressed. -/
def hourlyCatalog : Catalog where
  registry := []
  aggregates := [⟨"hourly_rollup_narrow".toList, "_timescaledb_internal".toList,
    "_materialized_hypertable_2".toList⟩]
  chunks := [⟨"_materialized_hypertable_2".toList, "_hyper_2_1_chunk".toList, true⟩]
  jobs := []
  hypertableSize _ := 8192
  bytesBeforeCompression _ := [16384]
  views_distinct := by decide
  views_apart := by decide
  chunks_distinct := by decide
  chunks_unqualified := by decide
  jobs_distinct := by decide

/-- A rebuild of the shared group in that database does not attempt the chunk. -/
theorem hourly_chunk_not_attempted : ¬ ∀ r : Rebuild, RebuildsInventory r := by
  intro hall
  have hcounted := (hall
    { catalog := hourlyCatalog
      protocolNames := some ["shared_narrow".toList]
      faults := ⟨fun _ => false, fun _ => none, fun _ => false, fun _ => false⟩
      sizeAfter := fun _ => 8192 }).attempted_counted
  have hselected := ((attempted_counted_iff _).mp hcounted).1 _ (List.mem_singleton_self _)
    (by decide) _ (List.mem_singleton_self _) rfl rfl
  exact absurd hselected (by decide)

end Compression

end Timescale

end ProtocolGateway
