import ProtocolGateway.Staging.DiffRuns
import ProtocolGateway.Staging.SelectionRuns

/-!
# Discarding the staged changes

`discard_changes` takes back what waits for a commit: a dirty setting gets the value on disk again,
and is active again if it has one. Rows that were added or switched on stay active, and a row that
was switched off without being marked stays inactive. `discard_restores_iff` says, for every run up
to a time when nothing waited and all edits since, which settings the next commit writes as before.

A register or selection only loses its mark. What was chosen stays staged until a scanner pass reads
the files again. `discarded_of_reach` says that no commit writes it in the meantime.
-/

namespace ProtocolGateway

open ConfigParser Runs

/-! ## `discard_changes` -/

/-- What `discard_changes` does to a setting. -/
def Setting.discard (row : Setting) : Setting :=
  if row.isDirty then
    { row with isActive := row.isActive || isSet row.valueDisk
               valueStaged := row.valueDisk
               isDirty := false }
  else row

/-- `discard_changes` on the settings. -/
def discardSettings (table : SettingTable) : SettingTable :=
  table.mapValues fun _ row => row.discard

/-- `discard_changes`. -/
def StagingDb.discardChanges (db : StagingDb) : StagingDb where
  settings := discardSettings db.settings
  registers := db.registers.mapValues fun _ row =>
    if row.isDirty || row.pendingDelete then { row with isDirty := false, pendingDelete := false }
    else row
  selections := db.selections.mapValues fun _ s =>
    if s.isDirty then { s with isDirty := false } else s

/-- The part of `_has_dirty_config_state` that is about the settings. -/
def hasDirtySettings (table : SettingTable) : Bool := table.items.any fun kv => kv.2.isDirty

/-! ## Rows that are tracked -/

/-- An active row that waits for no commit has the value on disk staged. -/
def Setting.Tracked (row : Setting) : Prop :=
  row.isActive = true → row.isDirty = false → row.valueStaged = row.valueDisk

namespace Setting

theorem tracked_markDirty (row : Setting) : row.markDirty.Tracked := by
  intro _ hclean
  by_contra hne
  exact absurd ((decide_eq_true hne).symm.trans hclean) (by decide)

theorem tracked_markDevice (row : Setting) : row.markDevice.Tracked := by
  unfold markDevice
  split
  · exact tracked_markDirty row
  · next hinactive => exact fun hactive => absurd hactive hinactive

theorem tracked_seeded (value : String) : (seeded value).Tracked := tracked_markDirty _

theorem tracked_created (defaultValue : Option String) : (created defaultValue).Tracked :=
  fun _ hclean => absurd hclean (by simp [created])

theorem tracked_activate (row : Setting) (defaultValue : Option String) :
    (row.activate defaultValue).Tracked :=
  fun _ hclean => absurd hclean (by simp [activate])

/-- A commit tracks the rows it marks. -/
theorem Tracked.resetDirty {row : Setting} (h : row.Tracked) : row.resetDirty.Tracked := by
  unfold Setting.resetDirty
  split
  · split
    · exact fun _ _ => rfl
    · exact fun _ _ => rfl
  · exact h

/-- A discard tracks every row it resets. -/
theorem Tracked.discard {row : Setting} (h : row.Tracked) : row.discard.Tracked := by
  unfold Setting.discard
  split
  · exact fun _ _ => rfl
  · exact h

/-- A row after a discard waits for no commit. -/
theorem isDirty_discard (row : Setting) : row.discard.isDirty = false := by
  unfold discard
  split
  · rfl
  · next hclean => exact Bool.eq_false_iff.mpr hclean

@[simp] theorem valueDisk_discard (row : Setting) : row.discard.valueDisk = row.valueDisk := by
  unfold discard
  split <;> rfl

@[simp] theorem isOrphan_discard (row : Setting) : row.discard.isOrphan = row.isOrphan := by
  unfold discard
  split <;> rfl

/-- A row that a discard leaves active. -/
def ComesBack (row : Setting) : Prop :=
  row.isActive = true ∨ row.isDirty = true ∧ isSet row.valueDisk = true

theorem isActive_discard_iff (row : Setting) : row.discard.isActive = true ↔ row.ComesBack := by
  unfold discard ComesBack
  split
  · next hdirty => simp [hdirty]
  · next hclean => simp [hclean]

/-- An active row that is tracked and clean is written with the value on disk. -/
theorem Tracked.written {row : Setting} (h : row.Tracked) (hactive : row.isActive = true)
    (hclean : row.isDirty = false) : row.written = row.valueDisk.getD "" := by
  rw [Setting.written, h hactive hclean]
  cases row.valueDisk <;> rfl

end Setting

/-- Every row of a table is tracked. -/
def SettingTable.Tracked (table : SettingTable) : Prop :=
  ∀ key row, table.get? key = some row → row.Tracked

theorem isDirty_of_clean {table : SettingTable} {key : SettingKey} {row : Setting}
    (hclean : hasDirtySettings table = false) (hrow : table.get? key = some row) :
    row.isDirty = false := by
  rw [hasDirtySettings, List.any_eq_false] at hclean
  exact Bool.eq_false_iff.mpr (hclean _ (Dict.get?_eq_some_iff.mp hrow))

/-! ## What a request does to a row -/

/-- What a request does to the row of a key: nothing, a change that leaves it tracked with the value
on disk it has, or a new row without a value on disk. -/
inductive Edited : Option Setting → Option Setting → Prop
  | same (row : Option Setting) : Edited row row
  | changed {row row' : Setting} (tracked : row'.Tracked) (disk : row'.valueDisk = row.valueDisk)
      (orphan : row'.isOrphan = row.isOrphan) : Edited (some row) (some row')
  | added {row' : Setting} (tracked : row'.Tracked) (disk : isSet row'.valueDisk = false)
      (orphan : row'.isOrphan = false) : Edited none (some row')

/-- Two requests do to a row what one may do. -/
theorem Edited.trans {a b c : Option Setting} (h : Edited a b) (h' : Edited b c) : Edited a c := by
  cases h with
  | same => exact h'
  | changed tracked disk orphan =>
    cases h' with
    | same => exact .changed tracked disk orphan
    | changed tracked' disk' orphan' =>
      exact .changed tracked' (disk'.trans disk) (orphan'.trans orphan)
  | added tracked disk orphan =>
    cases h' with
    | same => exact .added tracked disk orphan
    | changed tracked' disk' orphan' =>
      exact .added tracked' (disk' ▸ disk) (orphan'.trans orphan)

section Requests

variable {table : SettingTable} (library : TransportLibrary)

/-- An assignment to a row that is there, or of a new one. -/
theorem edited_set {key : SettingKey} {row' : Setting} (h : Edited (table.get? key) (some row'))
    (key' : SettingKey) : Edited (table.get? key') ((table.set key row').get? key') := by
  rw [show (table.set key row').get? key' = _ from Dict.get?_set _ _ _ _]
  split
  · next heq => exact heq ▸ h
  · exact .same _

/-- The rows of a bridge are new rows. -/
theorem of_mem_bridgeRows {value : String} {seed : SettingRow}
    (h : seed ∈ bridgeRows library table value) :
    table.get? seed.1 = none ∧ ∃ v, seed.2 = Setting.seeded v := by
  obtain ⟨bridge, -, hseed⟩ := List.mem_flatMap.mp h
  split at hseed
  · cases hseed
  · next hsection =>
    split at hseed
    · cases hseed
    · obtain ⟨kv, -, rfl⟩ := List.mem_map.mp hseed
      refine ⟨Dict.get?_eq_none_iff.mpr fun hmem => hsection ?_, kv.2, rfl⟩
      exact List.any_eq_true.mpr ⟨_, hmem, by simp⟩

/-- A new row in front of what is there. -/
theorem edited_or {row found : Option Setting}
    (h : ∀ row', found = some row' → row = none ∧ ∃ v, row' = Setting.seeded v) :
    Edited row (found.or row) := by
  cases found with
  | none => exact .same _
  | some row' =>
    obtain ⟨rfl, v, rfl⟩ := h row' rfl
    exact .added (Setting.tracked_seeded v) rfl rfl

/-- `ensure_bridge_sections_exist` adds rows. -/
theorem edited_ensureBridgeSectionsExist {table' : SettingTable} {value : String}
    (h : ensureBridgeSectionsExist library table value = some table') (key : SettingKey) :
    Edited (table.get? key) (table'.get? key) := by
  unfold ensureBridgeSectionsExist at h
  dsimp only at h
  split at h
  · next hnodup =>
    obtain rfl := Option.some.inj h
    rw [Dict.get?_update hnodup]
    refine edited_or fun row' hrow' => ?_
    exact of_mem_bridgeRows library ((Dict.get?_eq_some_iff (d := ⟨_, hnodup⟩)).mp hrow')
  · cases h

/-- **A request** does to the row of each key what `Edited` says. -/
theorem edited_apply (table : SettingTable) (e : Edit) (key : SettingKey) :
    Edited (table.get? key) ((e.apply library table).get? key) := by
  unfold Edit.apply
  cases hrequest : e.request? library table with
  | none => exact .same _
  | some table' =>
    rw [Option.getD_some]
    cases e with
    | general k payload =>
      obtain ⟨row, hrow, rfl⟩ := Option.map_eq_some_iff.mp hrequest
      refine edited_set ?_ key
      rw [hrow]
      exact .changed (Setting.tracked_markDirty _) (Setting.valueDisk_update row payload)
        (Setting.isOrphan_update row payload)
    | device k payload =>
      simp only [Edit.request?, updateSetting] at hrequest
      split at hrequest
      · obtain ⟨row, hrow, hrequest⟩ := Option.bind_eq_some_iff.mp hrequest
        have hrowEdited : Edited (table.get? k) (some (row.update payload).markDevice) := by
          rw [hrow]
          exact .changed (Setting.tracked_markDevice _) (by simp) (by simp)
        have hset := edited_set hrowEdited
        split at hrequest
        · -- the rows of a new bridge are added behind the edit
          exact (hset key).trans (edited_ensureBridgeSectionsExist library hrequest key)
        · exact Option.some.inj hrequest ▸ hset key
      · cases hrequest
    | create deviceName k defaultValue =>
      obtain rfl := Option.some.inj hrequest
      unfold createAndActivate
      dsimp only
      split
      · next row hrow =>
        refine edited_set ?_ key
        rw [hrow]
        exact .changed (Setting.tracked_activate row defaultValue) rfl rfl
      · next hnone =>
        refine edited_set ?_ key
        rw [hnone]
        exact .added (Setting.tracked_created defaultValue) rfl rfl

/-- A run of requests. -/
def editAll (table : SettingTable) (es : List Edit) : SettingTable :=
  es.foldl (Edit.apply library) table

/-- A run of requests does to a row what one request may do. -/
theorem edited_editAll (table : SettingTable) (es : List Edit) (key : SettingKey) :
    Edited (table.get? key) ((editAll library table es).get? key) := by
  induction es generalizing table with
  | nil => exact .same _
  | cons e es ih => exact (edited_apply library table e key).trans (ih _)

/-- A request adds rows behind those that are there. -/
theorem keys_prefix_apply (table : SettingTable) (e : Edit) :
    table.keys <+: (e.apply library table).keys := by
  have hupdate (table : SettingTable) (rows : List SettingRow) :
      table.keys <+: (table.update rows).keys := by
    induction rows generalizing table with
    | nil => exact List.prefix_rfl
    | cons row rows ih => exact (table.keys_prefix_set row.1 row.2).trans (ih _)
  unfold Edit.apply
  cases hrequest : e.request? library table with
  | none => exact List.prefix_rfl
  | some table' =>
    rw [Option.getD_some]
    cases e with
    | general k payload =>
      obtain ⟨row, -, rfl⟩ := Option.map_eq_some_iff.mp hrequest
      exact table.keys_prefix_set _ _
    | device k payload =>
      simp only [Edit.request?, updateSetting] at hrequest
      split at hrequest
      · obtain ⟨row, -, hrequest⟩ := Option.bind_eq_some_iff.mp hrequest
        have hset := table.keys_prefix_set k (row.update payload).markDevice
        split at hrequest
        · unfold ensureBridgeSectionsExist at hrequest
          dsimp only at hrequest
          split at hrequest
          · exact Option.some.inj hrequest ▸ hset.trans (hupdate _ _)
          · cases hrequest
        · exact Option.some.inj hrequest ▸ hset
      · cases hrequest
    | create deviceName k defaultValue =>
      obtain rfl := Option.some.inj hrequest
      unfold createAndActivate
      dsimp only
      split
      · exact table.keys_prefix_set _ _
      · exact table.keys_prefix_set _ _

theorem keys_prefix_editAll (table : SettingTable) (es : List Edit) :
    table.keys <+: (editAll library table es).keys := by
  induction es generalizing table with
  | nil => exact List.prefix_rfl
  | cons e es ih => exact (keys_prefix_apply library table e).trans (ih _)

end Requests

/-! ## Runs -/

/-- What changes the settings or `config.cfg`, with the discards. -/
inductive DiscardOp
  | setting (op : SettingOp)
  /-- `discard_changes` -/
  | discard

section Run

variable (optionxform : String → String) (library : TransportLibrary)

/-- One step. -/
def DiscardOp.apply (st : SettingState) : DiscardOp → SettingState
  | .setting op => op.apply optionxform library st
  | .discard => { st with table := discardSettings st.table }

/-- The settings from the first start on, over any `config.cfg`. -/
def discardSystem : System SettingState DiscardOp :=
  .ofFun (fun st => st.table = Dict.empty) (DiscardOp.apply optionxform library)

end Run

variable {optionxform : String → String} {library : TransportLibrary} {table : SettingTable}

/-- The row a pass leaves is tracked. -/
theorem Upsert.tracked_row (u : Upsert) (existing : Option Setting) : (u.row existing).Tracked := by
  intro _ hclean
  rw [Upsert.isDirty_row, decide_eq_false_iff_not, not_not] at hclean
  rw [hclean, Upsert.valueDisk_row]

namespace SettingTable.Tracked

variable (h : table.Tracked)

include h

theorem edit (e : Edit) : (e.apply library table).Tracked := by
  intro key row hrow
  have hedited := edited_apply library table e key
  rw [hrow] at hedited
  generalize hbefore : table.get? key = before at hedited
  cases hedited with
  | same => exact h key row hbefore
  | changed tracked => exact tracked
  | added tracked => exact tracked

/-- What is done to each row alone keeps a table tracked if it keeps the rows tracked. -/
theorem mapValues {f : SettingKey → Setting → Setting}
    (hf : ∀ key row, row.Tracked → (f key row).Tracked) :
    SettingTable.Tracked (table.mapValues f) := by
  intro key row hrow
  rw [Dict.get?_mapValues] at hrow
  obtain ⟨before, hbefore, rfl⟩ := Option.map_eq_some_iff.mp hrow
  exact hf key before (h key before hbefore)

theorem scan {cfgIsTruth : Bool} {config : Config} :
    (scanSettings library cfgIsTruth config table).Tracked := by
  intro key row hrow
  by_cases hkey : key ∈ (scanUpserts library cfgIsTruth config).map Upsert.key
  · obtain ⟨u, hu, rfl⟩ := List.mem_map.mp hkey
    rw [get?_scanSettings_of_mem hu] at hrow
    exact Option.some.inj hrow ▸ u.tracked_row _
  · rw [get?_scanSettings_of_notMem hkey] at hrow
    obtain ⟨before, hbefore, rfl⟩ := Option.map_eq_some_iff.mp hrow
    exact h key before hbefore

end SettingTable.Tracked

/-- **Every row of every state** is tracked. -/
theorem tracked_of_reachable {st : SettingState}
    (h : Reachable (discardSystem optionxform library) st) : st.table.Tracked := by
  refine h.invariant (P := fun st => st.table.Tracked) (fun st hinit key row hrow => ?_)
    fun st op st' _ htracked _ hstep => ?_
  · rw [show st.table = Dict.empty from hinit] at hrow
    cases hrow
  · obtain rfl : op.apply optionxform library st = st' := hstep
    cases op with
    | discard => exact htracked.mapValues fun _ _ => Setting.Tracked.discard
    | setting op =>
      cases op with
      | edit e => exact htracked.edit e
      | commit => exact htracked.mapValues fun _ _ => Setting.Tracked.resetDirty
      | rescan cfgIsTruth =>
        simp only [DiscardOp.apply, SettingOp.apply, rescanFile]
        split
        · exact htracked.scan
        · exact htracked

/-! ## What is restored -/

instance (row : Setting) : Decidable row.ComesBack := inferInstanceAs (Decidable (_ ∨ _))

/-- What the next commit writes after a discard. -/
theorem written?_discardSettings (h : table.Tracked) (key : SettingKey) :
    (discardSettings table).written? key = (table.get? key).bind fun row =>
      if row.ComesBack ∧ row.isOrphan = false ∧ key.2 ∉ removedKeys then
        some (row.valueDisk.getD "") else none := by
  rw [SettingTable.written?, discardSettings, Dict.get?_mapValues]
  cases hrow : table.get? key with
  | none => rfl
  | some row =>
    rw [Option.map_some, Option.bind_some, Option.bind_some, Setting.isOrphan_discard]
    by_cases hcond : row.ComesBack ∧ row.isOrphan = false ∧ key.2 ∉ removedKeys
    · have hactive := row.isActive_discard_iff.mpr hcond.1
      rw [if_pos hcond, if_pos ⟨hactive, hcond.2⟩,
        (h key row hrow).discard.written hactive row.isDirty_discard, Setting.valueDisk_discard]
    · rw [if_neg hcond, if_neg fun hand => hcond ⟨row.isActive_discard_iff.mp hand.1, hand.2⟩]

/-- What a commit writes where nothing waits for one. -/
theorem written?_of_clean (h : table.Tracked) (hclean : hasDirtySettings table = false)
    (key : SettingKey) : table.written? key = (table.get? key).bind fun row =>
      if row.isActive = true ∧ row.isOrphan = false ∧ key.2 ∉ removedKeys then
        some (row.valueDisk.getD "") else none := by
  rw [SettingTable.written?]
  cases hrow : table.get? key with
  | none => rfl
  | some row =>
    rw [Option.bind_some, Option.bind_some]
    refine ite_congr rfl (fun hcond => ?_) fun _ => rfl
    rw [(h key row hrow).written hcond.1 (isDirty_of_clean hclean hrow)]

/-- The setting of a key is as active after a discard as it was at the start. -/
def TakenBack (start table : SettingTable) (key : SettingKey) : Prop :=
  ∀ row, table.get? key = some row → row.isOrphan = false → key.2 ∉ removedKeys →
    (row.ComesBack ↔ (start.get? key).any Setting.isActive = true)

/-- Two rows of one value are written alike if they are active alike. -/
theorem writes_alike_iff {a b o r : Prop} [Decidable a] [Decidable b] [Decidable o] [Decidable r]
    {v : String} : ((if a ∧ o ∧ r then some v else none) = if b ∧ o ∧ r then some v else none) ↔
      (o → r → (a ↔ b)) := by
  by_cases ho : o
  · by_cases hr : r
    · by_cases ha : a <;> by_cases hb : b <;> simp [ho, hr, ha, hb]
    · simp [hr]
  · simp [ho]

/-- The row of a key is written after a discard as it was before the edits if and only if it is as
active. -/
theorem Edited.restored_iff {before after : Option Setting} {removed : Prop} [Decidable removed]
    (h : Edited before after) :
    (after.bind fun row => if row.ComesBack ∧ row.isOrphan = false ∧ ¬removed then
        some (row.valueDisk.getD "") else none) =
      (before.bind fun row => if row.isActive = true ∧ row.isOrphan = false ∧ ¬removed then
        some (row.valueDisk.getD "") else none) ↔
      ∀ row, after = some row → row.isOrphan = false → ¬removed →
        (row.ComesBack ↔ before.any Setting.isActive = true) := by
  have hsome {row row' : Setting} (hdisk : row'.valueDisk = row.valueDisk)
      (horphan : row'.isOrphan = row.isOrphan) :
      ((if row'.ComesBack ∧ row'.isOrphan = false ∧ ¬removed then
          some (row'.valueDisk.getD "") else none) =
        if row.isActive = true ∧ row.isOrphan = false ∧ ¬removed then
          some (row.valueDisk.getD "") else none) ↔
        (row'.isOrphan = false → ¬removed → (row'.ComesBack ↔ row.isActive = true)) := by
    rw [hdisk, horphan]
    exact writes_alike_iff
  cases h with
  | same =>
    cases before with
    | none => simp
    | some row => simpa using @hsome row row rfl rfl
  | changed _ disk orphan => simpa using hsome disk orphan
  | added _ _ _ =>
    constructor
    · intro hnone row hrow horphan hkept
      obtain rfl := Option.some.inj hrow
      refine iff_of_false (fun hback => ?_) Bool.false_ne_true
      exact absurd ((if_pos ⟨hback, horphan, hkept⟩).symm.trans hnone) (by simp)
    · intro h
      exact if_neg fun hand => Bool.false_ne_true ((h _ rfl hand.2.1 hand.2.2).mp hand.1)

/-- **A discard restores the settings.** From any state where nothing waits for a commit, whatever
run led to it, and after any edits: a discard leaves the next commit the setting of a key as it was
if and only if it is active as it was. If that is so for every key, the commit writes the text it
would have written. -/
theorem discard_restores_iff {st : SettingState}
    (hst : Reachable (discardSystem optionxform library) st)
    (hclean : hasDirtySettings st.table = false) (es : List Edit) :
    let table := editAll library st.table es
    (∀ key, (discardSettings table).written? key = st.table.written? key ↔
        TakenBack st.table table key) ∧
      ((∀ key, TakenBack st.table table key) →
        commitText (discardSettings table) = commitText st.table) := by
  intro table
  have htracked := tracked_of_reachable hst
  have htracked' : table.Tracked := by
    induction es using List.reverseRecOn with
    | nil => exact htracked
    | append_singleton es e ih =>
      rw [show table = e.apply library (editAll library st.table es) from List.foldl_concat ..]
      exact ih.edit e
  have hkey (key : SettingKey) : (discardSettings table).written? key = st.table.written? key ↔
      TakenBack st.table table key := by
    rw [written?_discardSettings htracked', written?_of_clean htracked hclean, TakenBack]
    exact (edited_editAll library st.table es key).restored_iff
  refine ⟨hkey, fun htaken => commitText_congr ?_ fun key => (hkey key).mpr (htaken key)⟩
  rw [discardSettings, Dict.keys_mapValues]
  exact keys_prefix_editAll library st.table es

/-- An edited value is taken back; a key that was created stays, and is blank. -/
theorem discard_restores_logLevel :
    let table := editAll emptyLibrary smallState.table
      [.general ("general", "log_level") { valueStaged := some "DEBUG" },
        .create "meter" "port" none]
    (discardSettings table).written? ("general", "log_level") =
        smallState.table.written? ("general", "log_level") ∧
      (discardSettings table).written? ("transport.meter", "port") ≠
        smallState.table.written? ("transport.meter", "port") := by
  intro table
  have hinit : (discardSystem lowerText emptyLibrary).init ⟨smallFile, Dict.empty⟩ := rfl
  have hstep : (discardSystem lowerText emptyLibrary).step ⟨smallFile, Dict.empty⟩
      (.setting (.rescan false)) smallState := rfl
  have hreach : Reachable (discardSystem lowerText emptyLibrary) smallState :=
    (Reach.init hinit).step trivial hstep
  obtain ⟨hkey, -⟩ := discard_restores_iff hreach (by decide)
    [.general ("general", "log_level") { valueStaged := some "DEBUG" }, .create "meter" "port" none]
  refine ⟨(hkey _).mpr fun row hrow _ _ => ?_, fun heq => ?_⟩
  · have hget : table.get? ("general", "log_level") =
        some { valueDisk := some "INFO", valueStaged := some "DEBUG", defaultValue := some ""
               isDirty := true } := by decide
    obtain rfl := Option.some.inj (hrow.symm.trans hget)
    exact iff_of_true (Or.inl rfl) (by decide)
  · have hget : table.get? ("transport.meter", "port") = some (Setting.created none) := by decide
    have hback := ((hkey _).mp heq _ hget rfl (by decide)).mp (Or.inl rfl)
    exact absurd hback (by decide)

/-! ## After a discard -/

namespace StagingDb

variable {db : StagingDb}

/-- `_has_dirty_config_state`. -/
def hasDirtyConfigState (db : StagingDb) : Bool :=
  hasDirtySettings db.settings || db.registers.items.any (fun kr => kr.2.isDirty) ||
    db.registers.items.any (fun kr => kr.2.pendingDelete) ||
      db.selections.items.any fun ks => ks.2.isDirty

/-- Nothing waits for a commit. -/
structure Calm (db : StagingDb) : Prop where
  settings : ∀ key row, db.settings.get? key = some row → row.isDirty = false
  registers : ∀ key row, db.registers.get? key = some row →
    row.isDirty = false ∧ row.pendingDelete = false
  selections : ∀ key s, db.selections.get? key = some s → s.isDirty = false

theorem calm_iff : db.Calm ↔ db.hasDirtyConfigState = false := by
  have hany {κ ν : Type} [DecidableEq κ] {d : Dict κ ν} {f : ν → Bool} :
      (d.items.any fun kv => f kv.2) = false ↔ ∀ k v, d.get? k = some v → f v = false := by
    rw [List.any_eq_false]
    constructor
    · intro h k v hv
      exact Bool.eq_false_iff.mpr (h _ (Dict.get?_eq_some_iff.mp hv))
    · rintro h ⟨k, v⟩ hkv
      exact Bool.eq_false_iff.mp (h k v (Dict.get?_eq_some_iff.mpr hkv))
  rw [hasDirtyConfigState, hasDirtySettings, Bool.or_eq_false_iff, Bool.or_eq_false_iff,
    Bool.or_eq_false_iff, hany, hany, hany, hany]
  constructor
  · rintro ⟨hsettings, hregisters, hselections⟩
    exact ⟨⟨⟨hsettings, fun key row hrow => (hregisters key row hrow).1⟩,
      fun key row hrow => (hregisters key row hrow).2⟩, hselections⟩
  · rintro ⟨⟨⟨hsettings, hdirty⟩, hpending⟩, hselections⟩
    exact ⟨hsettings, fun key row hrow => ⟨hdirty key row hrow, hpending key row hrow⟩, hselections⟩

/-- Nothing waits for a commit after a discard. -/
theorem calm_discardChanges (db : StagingDb) : db.discardChanges.Calm := by
  refine ⟨fun key row hrow => ?_, fun key row hrow => ?_, fun key s hs => ?_⟩
  · rw [discardChanges, discardSettings, Dict.get?_mapValues] at hrow
    obtain ⟨before, -, rfl⟩ := Option.map_eq_some_iff.mp hrow
    exact before.isDirty_discard
  · rw [discardChanges, Dict.get?_mapValues] at hrow
    obtain ⟨before, -, rfl⟩ := Option.map_eq_some_iff.mp hrow
    split
    · exact ⟨rfl, rfl⟩
    · next hclean =>
      rw [Bool.or_eq_true, not_or] at hclean
      exact ⟨Bool.eq_false_iff.mpr hclean.1, Bool.eq_false_iff.mpr hclean.2⟩
  · rw [discardChanges, Dict.get?_mapValues] at hs
    obtain ⟨before, -, rfl⟩ := Option.map_eq_some_iff.mp hs
    split
    · rfl
    · next hclean => exact Bool.eq_false_iff.mpr hclean

/-- What a pass reads of `config.cfg` is staged already. -/
def ReadsStaged (library : TransportLibrary) (cfgIsTruth : Bool) (config : Config)
    (table : SettingTable) : Prop :=
  ∀ u ∈ scanUpserts library cfgIsTruth config, u.cfgIsTruth = false →
    ∀ row, table.get? u.key = some row → row.valueStaged = some u.valueDisk

/-- A register that a pass loads waits for nothing if the row before did not. -/
theorem calm_scanRegisters {parsed : List ParsedRegister} {registers : RegisterTable}
    (h : ∀ key row, registers.get? key = some row → row.isDirty = false ∧ row.pendingDelete = false)
    (key : RegisterKey) (row : ProtocolRegister)
    (hrow : (scanRegisters parsed registers).get? key = some row) :
    row.isDirty = false ∧ row.pendingDelete = false := by
  unfold scanRegisters Dict.upsertAll at hrow
  induction parsed generalizing registers with
  | nil => exact h key row hrow
  | cons reg parsed ih =>
    refine ih (fun key' row' hrow' => ?_) hrow
    rw [Dict.get?_set] at hrow'
    split at hrow'
    · obtain rfl := Option.some.inj hrow'
      unfold ParsedRegister.row
      dsimp only
      split
      · exact ⟨rfl, rfl⟩
      · next before hbefore =>
        obtain ⟨hclean, hkept⟩ := h _ before hbefore
        rw [if_neg (by rw [hclean]; exact Bool.false_ne_true)]
        exact ⟨hclean, hkept⟩
    · exact h key' row' hrow'

/-- **A pass that reads what is staged** leaves nothing that waits for a commit. -/
theorem Calm.rescanned (h : db.Calm) {library : TransportLibrary} {cfgIsTruth : Bool}
    {config : Config} {disk : Disk} {parsed : List ParsedRegister}
    (hreads : ReadsStaged library cfgIsTruth config db.settings) :
    (db.rescanned config disk (scanSettings library cfgIsTruth config db.settings)
      (scanRegisters parsed db.registers)).Calm := by
  refine ⟨fun key row hrow => ?_, calm_scanRegisters h.registers, fun key s hs => ?_⟩
  · change (scanSettings library cfgIsTruth config db.settings).get? key = some row at hrow
    by_cases hkey : key ∈ (scanUpserts library cfgIsTruth config).map Upsert.key
    · obtain ⟨u, hu, rfl⟩ := List.mem_map.mp hkey
      rw [get?_scanSettings_of_mem hu] at hrow
      obtain rfl := Option.some.inj hrow
      rw [Upsert.isDirty_row, decide_eq_false_iff_not, not_not, Upsert.valueStaged_row]
      cases htruth : u.cfgIsTruth with
      | true => rfl
      | false =>
        cases hbefore : db.settings.get? u.key with
        | none => rfl
        | some before => exact hreads u hu htruth before hbefore
    · rw [get?_scanSettings_of_notMem hkey] at hrow
      obtain ⟨before, hbefore, rfl⟩ := Option.map_eq_some_iff.mp hrow
      exact h.settings key before hbefore
  · obtain ⟨deviceName, register⟩ := key
    obtain ⟨scan, row, rfl, hvisits⟩ | hnot := visits_or_unvisited
      (scanRegisters parsed db.registers) config deviceName register
    · obtain rfl := Option.some.inj (hs.symm.trans (get?_syncSelections hvisits))
      exact (upsertSelection_clean fun before hbefore => h.selections _ before hbefore).2
    · exact h.selections _ s ((get?_rescanned hnot).symm.trans hs)

end StagingDb

/-! ## Runs after a discard -/

/-- What happens without a request. -/
inductive QuietOp
  /-- `do_commit` -/
  | commit
  /-- a scanner pass that reads the given register maps -/
  | rescan (cfgIsTruth : Bool) (parsed : List ParsedRegister)

section Quiet

variable (optionxform : String → String) (library : TransportLibrary)

/-- One step. `do_commit` calls `commit_all` if something waits for it. -/
def QuietOp.apply (st : SelectionState) : QuietOp → SelectionState
  | .commit =>
    if st.db.hasDirtyConfigState then SelectionOp.apply optionxform library st .commit else st
  | .rescan cfgIsTruth parsed =>
    SelectionOp.apply optionxform library st (.rescan cfgIsTruth parsed)

/-- The runs from a discard on. -/
def quietSystem (start : SelectionState) : System SelectionState QuietOp :=
  .ofFun (fun st => st = { start with db := start.db.discardChanges })
    (QuietOp.apply optionxform library)

/-- A pass reads what is staged. -/
def QuietOp.Guard (st : SelectionState) : QuietOp → Prop
  | .commit => True
  | .rescan cfgIsTruth _ => ∀ config, loadConfig optionxform st.disk.config = some config →
      StagingDb.ReadsStaged library cfgIsTruth config st.db.settings

variable {optionxform library}

/-- **What is discarded does not reach the files.** In every run of commits and passes after a
discard, whatever was staged before it, the files stay as they are and nothing waits for a commit;
and a pass leaves every selection it visits as the files have it. -/
theorem discarded_of_reach {start st : SelectionState}
    (h : Reach (quietSystem optionxform library start) (QuietOp.Guard optionxform library) st) :
    st.disk = start.disk ∧ st.db.hasDirtyConfigState = false ∧
      ∀ cfgIsTruth parsed config, loadConfig optionxform start.disk.config = some config →
        ∀ scan key row, Visits (scanRegisters parsed st.db.registers) config scan key row →
          let choices := scan.choices start.disk row
          (QuietOp.apply optionxform library st
            (.rescan cfgIsTruth parsed)).db.selections.get? ⟨scan.deviceName, key⟩ =
              some { staged := choices, disk := choices } := by
  have hinv : st.disk = start.disk ∧ st.db.Calm := by
    refine h.invariant (P := fun st => st.disk = start.disk ∧ st.db.Calm) (fun st hinit => ?_)
      fun st op st' _ hst hguard hstep => ?_
    · obtain rfl : st = _ := hinit
      exact ⟨rfl, start.db.calm_discardChanges⟩
    · obtain ⟨hdisk, hcalm⟩ := hst
      obtain rfl : op.apply optionxform library st = st' := hstep
      cases op with
      | commit =>
        rw [QuietOp.apply, StagingDb.calm_iff.mp hcalm, if_neg Bool.false_ne_true]
        exact ⟨hdisk, hcalm⟩
      | rescan cfgIsTruth parsed =>
        rw [QuietOp.apply, SelectionOp.apply]
        split
        · exact ⟨hdisk, hcalm⟩
        · next config hload => exact ⟨hdisk, hcalm.rescanned (hguard config hload)⟩
  obtain ⟨hdisk, hcalm⟩ := hinv
  refine ⟨hdisk, StagingDb.calm_iff.mp hcalm, ?_⟩
  intro cfgIsTruth parsed config hload scan key row hvisits choices
  rw [QuietOp.apply, SelectionOp.apply, hdisk, hload]
  refine (get?_syncSelections hvisits).trans (congrArg some ?_)
  cases hbefore : st.db.selections.get? ⟨scan.deviceName, key⟩ with
  | none => rfl
  | some s =>
    have hclean := hcalm.selections _ s hbefore
    simp [upsertSelection, DeviceProtocolSelection.markDirty, hclean, choices]

/-- The mask selection of a committed register is taken away, and that is discarded. -/
def unmasked : SelectionState :=
  SelectionOp.apply lowerText noTransports modeCommitted
    (.toggle "inv" .maskEnabled false modeKey none)

/-- A commit after the discard writes nothing, and a pass after it has the register masked again. -/
theorem discarded_unmasked :
    let discarded : SelectionState := { unmasked with db := unmasked.db.discardChanges }
    let st := QuietOp.apply lowerText noTransports discarded .commit
    st.disk = unmasked.disk ∧
      (QuietOp.apply lowerText noTransports st (.rescan false [])).db.selections.get?
        ⟨"inv", modeKey⟩ =
          some { staged := { maskEnabled := true }, disk := { maskEnabled := true } } := by
  intro discarded st
  have hinit : (quietSystem lowerText noTransports unmasked).init discarded := rfl
  have hstep : (quietSystem lowerText noTransports unmasked).step discarded .commit st := rfl
  have hguard : QuietOp.Guard lowerText noTransports discarded .commit := trivial
  obtain ⟨hdisk, -, hpass⟩ := discarded_of_reach ((Reach.init hinit).step hguard hstep)
  have hload : loadConfig lowerText unmasked.disk.config = some inverterConfig := by decide
  have hvisits : Visits (scanRegisters [] st.db.registers) inverterConfig modeScan modeKey
      modeRegister :=
    ⟨⟨("transport.inv", Dict.empty.set "protocol_version" "eg4"), by decide, by decide⟩, by decide,
      by decide⟩
  refine ⟨hdisk, (hpass false [] _ hload _ _ _ hvisits).trans ?_⟩
  have hchoices : modeScan.choices unmasked.disk modeRegister = { maskEnabled := true } := by decide
  rw [hchoices]

end Quiet

end ProtocolGateway
