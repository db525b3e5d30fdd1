import ProtocolGateway.Staging.Diff

/-!
# Runs in which the diff is exact

`Exact` is the invariant: it relates every row to what `config.cfg` has under its key. It makes the
diff exact (`Exact.diffExact`). A commit keeps it; a pass and an edit keep it under conditions on
their inputs, `ScanKeeps` and `EditKeeps`.
-/

namespace ProtocolGateway

open ConfigParser Runs

/-- The value of a configuration under a section and key. -/
def ConfigParser.Config.at? (config : Config) (key : SettingKey) : Option String := config.setting? key.1 key.2

/-! ## The invariant -/

/-- The invariant of a row that is no orphan, where `c` is what `config.cfg` has under its key. -/
structure RowExact (c : Option String) (row : Setting) : Prop where
  staged : row.valueStaged.isSome = true
  active : row.isActive = true → row.valueDisk.getD "" = c.getD "" ∧
    (row.valueStaged.getD "" ≠ row.valueDisk.getD "" → row.isDirty = true) ∧
    (c = none → row.valueStaged.getD "" ≠ "")
  inactive : row.isActive = false →
    (c = none ∧ (row.isDirty = true → row.valueDisk.getD "" = "" ∧ row.valueStaged.getD "" = "")) ∨
    ∃ v, c = some v ∧ row.valueDisk = some v ∧ row.isDirty = true ∧
      (v ≠ "" ∨ row.valueStaged.getD "" ≠ "")

/-- What an active or inactive row has in `config.cfg` after the next commit. -/
def Setting.after (row : Setting) : Option String :=
  if row.isActive then row.valueStaged else none

/-- **The row invariant** makes the diff exact for the row. -/
theorem RowExact.isListed_iff {c : Option String} {row : Setting} (h : RowExact c row)
    (horphan : row.isOrphan = false) : row.isListed ↔ row.after ≠ c := by
  obtain ⟨staged, hstaged⟩ := Option.isSome_iff_exists.mp h.staged
  unfold Setting.isListed Setting.after
  cases hactive : row.isActive with
  | true =>
    obtain ⟨hdisk, hdirty, hnew⟩ := h.active hactive
    rw [hstaged, Option.getD_some] at hdirty hnew ⊢
    rw [hdisk] at hdirty ⊢
    cases c with
    | none =>
      have hne : staged ≠ "" := hnew rfl
      refine iff_of_true ⟨horphan, hdirty hne, Or.inl (Ne.symm hne)⟩ (by simp)
    | some v =>
      rw [Option.getD_some] at hdirty ⊢
      constructor
      · rintro ⟨-, -, hlisted⟩ heq
        rcases hlisted with hne | ⟨-, hfalse⟩
        · exact hne (Option.some.inj heq).symm
        · cases hfalse
      · intro hne
        have hstage : staged ≠ v := fun heq => hne (by rw [heq]; rfl)
        exact ⟨horphan, hdirty hstage, Or.inl (Ne.symm hstage)⟩
  | false =>
    rw [if_neg Bool.false_ne_true]
    obtain ⟨rfl, hdirty⟩ | ⟨v, rfl, hdisk, hdirty, hv⟩ := h.inactive hactive
    · refine iff_of_false ?_ (by simp)
      rintro ⟨-, hd, hlisted⟩
      obtain ⟨hdisk, hstage⟩ := hdirty hd
      rw [hdisk, hstage] at hlisted
      simp at hlisted
    · refine iff_of_true ⟨horphan, hdirty, ?_⟩ (by simp)
      rw [hdisk, Option.getD_some]
      rcases hv with hv | hv
      · exact Or.inr ⟨hv, rfl⟩
      · by_cases hne : v = ""
        · exact Or.inl (by rw [hne]; exact Ne.symm hv)
        · exact Or.inr ⟨hne, rfl⟩

/-- After a commit the invariant holds for the row with what the commit wrote. -/
theorem RowExact.resetDirty {c : Option String} {row : Setting} (h : RowExact c row) :
    RowExact row.after row.resetDirty := by
  obtain ⟨staged, hstaged⟩ := Option.isSome_iff_exists.mp h.staged
  unfold Setting.resetDirty Setting.after
  cases hactive : row.isActive with
  | true =>
    obtain ⟨hdisk, hdirty, hnew⟩ := h.active hactive
    rw [hstaged, Option.getD_some] at hdirty
    cases hd : row.isDirty with
    | true => constructor <;> simp [hstaged]
    | false =>
      have hsame : row.valueDisk.getD "" = staged := by
        by_contra hne
        exact absurd (hd.symm.trans (hdirty (Ne.symm hne))) (by decide)
      constructor <;> simp [hstaged, hactive, hsame]
  | false =>
    cases hd : row.isDirty with
    | true => constructor <;> simp
    | false => constructor <;> simp [hstaged, hactive, hd]

variable {optionxform : String → String} {library : TransportLibrary}

/-- The invariant: `config.cfg` reads as `config`, and every row is exact with respect to it. -/
structure Exact (optionxform : String → String) (config : Config) (st : SettingState) : Prop where
  load : loadConfig optionxform st.file = some config
  /-- no section of `config.cfg` is empty -/
  sections : ∀ s ∈ config.keys, ∃ k v, config.at? (s, k) = some v
  plain : ∀ key v, st.table.written? key = some v → PlainSetting optionxform key v
  kept : ∀ key row, st.table.get? key = some row → row.isOrphan = false → row.isActive = true →
    key.2 ∉ removedKeys
  absent : ∀ key, st.table.get? key = none → config.at? key = none
  orphan : ∀ key row, st.table.get? key = some row → row.isOrphan = true → config.at? key = none
  row : ∀ key row, st.table.get? key = some row → row.isOrphan = false →
    RowExact (config.at? key) row

namespace Exact

variable {config : Config} {st : SettingState} (h : Exact optionxform config st)

include h

/-- What a commit writes for a row that is no orphan. -/
theorem written? {key : SettingKey} {row : Setting} (hrow : st.table.get? key = some row)
    (horphan : row.isOrphan = false) : st.table.written? key = row.after := by
  obtain ⟨staged, hstaged⟩ := Option.isSome_iff_exists.mp (h.row key row hrow horphan).staged
  rw [SettingTable.written?, hrow, Option.bind_some, Setting.after]
  cases hactive : row.isActive with
  | true =>
    rw [if_pos ⟨rfl, horphan, h.kept key row hrow horphan hactive⟩, if_pos rfl, Setting.written,
      hstaged, Option.getD_some]
  | false => rw [if_neg fun hand => absurd hand.1 (by decide), if_neg Bool.false_ne_true]

/-- A setting is listed if and only if the next commit changes it. -/
theorem listed_iff (key : SettingKey) :
    Listed st.table key ↔ st.table.written? key ≠ config.at? key := by
  rw [ProtocolGateway.listed_iff]
  cases hget : st.table.get? key with
  | none =>
    rw [h.absent key hget, SettingTable.written?, hget]
    simp
  | some row =>
    cases horphan : row.isOrphan with
    | true =>
      rw [written?_of_orphan hget horphan, h.orphan key row hget horphan]
      refine iff_of_false ?_ (by simp)
      rintro ⟨row', hrow', hlisted⟩
      obtain rfl := Option.some.inj hrow'
      exact absurd (horphan.symm.trans hlisted.1) (by decide)
    | false =>
      rw [h.written? hget horphan, ← (h.row key row hget horphan).isListed_iff horphan]
      constructor
      · rintro ⟨row', hrow', hlisted⟩
        obtain rfl := Option.some.inj hrow'
        exact hlisted
      · intro hlisted
        exact ⟨row, rfl, hlisted⟩

/-- **The invariant makes the diff exact.** -/
theorem diffExact : DiffExact optionxform st := by
  obtain ⟨after, hafter, hsetting, hkeys⟩ := loadConfig_commitText h.plain
  have hlisted : ∀ key, Listed st.table key ↔
      after.setting? key.1 key.2 ≠ config.setting? key.1 key.2 := by
    intro key
    rw [hsetting]
    exact h.listed_iff key
  refine ⟨config, after, h.load, hafter, hlisted, fun hclean => ?_⟩
  have hsame : ∀ s k, after.setting? s k = config.setting? s k := by
    intro s k
    by_contra hne
    obtain ⟨row, hrow, hdirty⟩ := ProtocolGateway.listed_iff.mp ((hlisted (s, k)).mpr hne)
    have := hclean _ (Dict.get?_eq_some_iff.mp hrow)
    exact absurd (this.symm.trans hdirty.2.1) (by decide)
  refine ⟨fun s => ?_, hsame⟩
  rw [hkeys]
  constructor
  · rintro ⟨k, v, hv⟩
    rw [← hsetting, hsame] at hv
    obtain ⟨options, hoptions, -⟩ := Option.bind_eq_some_iff.mp hv
    exact Dict.mem_keys.mpr ⟨options, Dict.get?_eq_some_iff.mp hoptions⟩
  · intro hs
    obtain ⟨k, v, hv⟩ := h.sections s hs
    exact ⟨k, v, by rw [← hsetting, hsame]; exact hv⟩

/-- **A commit keeps the invariant**, with what it writes as the new `config.cfg`. -/
theorem commit : ∃ config', Exact optionxform config' (SettingOp.apply optionxform library st .commit) := by
  obtain ⟨config', hload, hsetting, hkeys⟩ := loadConfig_commitText h.plain
  have hat : ∀ key, config'.at? key = st.table.written? key := fun key => hsetting key.1 key.2
  have hget : ∀ key, (resetDirtyFlags st.table).get? key =
      (st.table.get? key).map Setting.resetDirty := fun key => Dict.get?_mapValues _ _ _
  have hback : ∀ key row, (resetDirtyFlags st.table).get? key = some row →
      ∃ row', st.table.get? key = some row' ∧ row'.resetDirty = row := by
    intro key row hrow
    rw [hget] at hrow
    exact Option.map_eq_some_iff.mp hrow
  refine ⟨config', hload, fun s hs => ?_, fun key v hv => ?_, ?_, ?_, ?_, ?_⟩
  · obtain ⟨k, v, hv⟩ := (hkeys s).mp hs
    exact ⟨k, v, by rw [hat, hv]⟩
  · obtain ⟨row, hrow, hactive, horphan, hkey, rfl⟩ := written?_eq_some_iff.mp hv
    obtain ⟨row', hrow', rfl⟩ := hback key row hrow
    rw [Setting.isOrphan_resetDirty] at horphan
    rw [Setting.isActive_resetDirty] at hactive
    rw [Setting.written_resetDirty hactive (h.row key row' hrow' horphan).staged]
    exact h.plain key _
      (written?_eq_some_iff.mpr ⟨row', hrow', hactive, horphan, hkey, rfl⟩)
  · intro key row hrow horphan hactive
    obtain ⟨row', hrow', rfl⟩ := hback key row hrow
    rw [Setting.isOrphan_resetDirty] at horphan
    rw [Setting.isActive_resetDirty] at hactive
    exact h.kept key row' hrow' horphan hactive
  · intro key hnone
    rw [hat, SettingTable.written?, Option.map_eq_none_iff.mp ((hget key).symm.trans hnone),
      Option.bind_none]
  · intro key row hrow horphan
    obtain ⟨row', hrow', rfl⟩ := hback key row hrow
    rw [Setting.isOrphan_resetDirty] at horphan
    rw [hat, written?_of_orphan hrow' horphan]
  · intro key row hrow horphan
    obtain ⟨row', hrow', rfl⟩ := hback key row hrow
    rw [Setting.isOrphan_resetDirty] at horphan
    rw [hat, h.written? hrow' horphan]
    exact (h.row key row' hrow' horphan).resetDirty

end Exact

/-! ## Passes -/

/-- When a pass leaves the diff exact. -/
structure ScanExact (optionxform : String → String) (library : TransportLibrary)
    (cfgIsTruth : Bool) (config : Config) (table : SettingTable) : Prop where
  /-- every section of `config.cfg` has a setting -/
  sections : ∀ s ∈ config.keys, ∃ k v, config.at? (s, k) = some v
  /-- `config.cfg` has no setting that the pass derives -/
  derived : ∀ key v, Config.derived? config key = some v → config.at? key = none
  /-- nothing is staged for a setting that `config.cfg` does not have -/
  unset : ∀ key v row, Config.unset? library config key = some v → table.get? key = some row →
    row.valueStaged = some ""
  /-- every row of a setting in `config.cfg` has a staged value -/
  staged : ∀ key v row, Config.scanned? config key = some v → table.get? key = some row →
    row.valueStaged.isSome = true
  /-- what the next commit would write is read back -/
  plain : ∀ key v, Config.scanned? config key = some v → PlainSetting optionxform key
    ((if cfgIsTruth then none else (table.get? key).bind Setting.valueStaged).getD v)

/-- A setting of `config.cfg` that is not derived is scanned. -/
theorem ScanExact.scanned?_eq {cfgIsTruth : Bool} {config : Config} {table : SettingTable}
    (h : ScanExact optionxform library cfgIsTruth config table) (key : SettingKey) :
    Config.scanned? config key = config.at? key := by
  have hder := h.derived key
  unfold Config.scanned? Config.derived? at *
  unfold ConfigParser.Config.at? Config.setting? at *
  cases hget : config.get? key.1 with
  | none => rfl
  | some keys =>
    rw [hget, Option.bind_some, Option.bind_some] at hder
    rw [Option.bind_some, Option.bind_some]
    split
    · next hderived =>
      rw [if_pos hderived] at hder
      exact (hder _ rfl).symm
    · rfl

/-- **A pass establishes the invariant.** -/
theorem exact_scanSettings {file : List Char} {cfgIsTruth : Bool} {config : Config}
    {table : SettingTable} (hload : loadConfig optionxform file = some config)
    (h : ScanExact optionxform library cfgIsTruth config table) :
    Exact optionxform config ⟨file, scanSettings library cfgIsTruth config table⟩ := by
  have hseen : ∀ key row, (scanSettings library cfgIsTruth config table).get? key = some row →
      row.isOrphan = false → ∃ u ∈ scanUpserts library cfgIsTruth config,
        u.key = key ∧ u.row (table.get? key) = row := by
    intro key row hrow horphan
    by_cases hkey : key ∈ (scanUpserts library cfgIsTruth config).map Upsert.key
    · obtain ⟨u, hu, rfl⟩ := List.mem_map.mp hkey
      rw [get?_scanSettings_of_mem hu] at hrow
      exact ⟨u, hu, rfl, Option.some.inj hrow⟩
    · rw [get?_scanSettings_of_notMem hkey] at hrow
      obtain ⟨row', -, rfl⟩ := Option.map_eq_some_iff.mp hrow
      cases horphan
  have hunseen : ∀ key, key ∉ (scanUpserts library cfgIsTruth config).map Upsert.key →
      config.at? key = none := by
    intro key hkey
    rw [← h.scanned?_eq]
    by_contra hne
    obtain ⟨v, hv⟩ := Option.ne_none_iff_exists'.mp hne
    obtain ⟨u, hu, rfl, -⟩ := exists_upsert_of_scanned library cfgIsTruth hv
    exact hkey (List.mem_map_of_mem hu)
  refine ⟨hload, h.sections, fun key v hv => ?_, ?_, ?_, ?_, ?_⟩
  · rw [written?_scanSettings] at hv
    obtain ⟨w, hw, hv⟩ := Option.bind_eq_some_iff.mp hv
    split at hv
    · cases hv
    · exact Option.some.inj hv ▸ h.plain key w hw
  · intro key row hrow horphan hactive
    obtain ⟨u, hu, rfl, rfl⟩ := hseen key row hrow horphan
    rw [Upsert.isActive_row] at hactive
    cases hscanned : Config.scanned? config u.key with
    | none => exact absurd (hactive.symm.trans (isActive_of_not_scanned hu hscanned)) (by decide)
    | some v => exact (h.plain _ v hscanned).key_kept
  · intro key hnone
    refine hunseen key fun hkey => ?_
    obtain ⟨u, hu, rfl⟩ := List.mem_map.mp hkey
    rw [get?_scanSettings_of_mem hu] at hnone
    cases hnone
  · intro key row hrow horphan
    refine hunseen key fun hkey => ?_
    obtain ⟨u, hu, rfl⟩ := List.mem_map.mp hkey
    rw [get?_scanSettings_of_mem hu] at hrow
    obtain rfl := Option.some.inj hrow
    rw [Upsert.isOrphan_row] at horphan
    cases horphan
  · intro key row hrow horphan
    obtain ⟨u, hu, rfl, rfl⟩ := hseen key row hrow horphan
    rw [← h.scanned?_eq]
    cases hscanned : Config.scanned? config u.key with
    | some v =>
      obtain ⟨rfl, hactive, -⟩ := valueDisk_of_scanned hu hscanned
      refine ⟨?_, fun _ => ⟨?_, fun hne => ?_, fun hnone => absurd hnone (by simp)⟩, fun hfalse => ?_⟩
      · rw [Upsert.valueStaged_row]
        split
        · rfl
        · cases hrow' : table.get? u.key with
          | none => rfl
          | some row => exact h.staged _ _ row hscanned hrow'
      · rw [Upsert.valueDisk_row]
      · rw [Upsert.isDirty_row, decide_eq_true_eq]
        intro heq
        rw [heq, Upsert.valueDisk_row] at hne
        exact hne rfl
      · rw [Upsert.isActive_row, hactive] at hfalse
        cases hfalse
    | none =>
      have hinactive := isActive_of_not_scanned hu hscanned
      have hstaged : (u.row (table.get? u.key)).valueStaged = some u.valueDisk := by
        rw [Upsert.valueStaged_row]
        obtain htruth | ⟨htruth, hdisk, v, hunset⟩ := derived_or_unset hu hinactive
        · rw [if_pos htruth]
        · rw [if_neg (by rw [htruth]; decide)]
          cases hrow' : table.get? u.key with
          | none => rfl
          | some row => rw [hdisk, ← h.unset _ v row hunset hrow']; rfl
      refine ⟨by rw [hstaged]; rfl, fun htrue => ?_, fun _ => Or.inl ⟨rfl, fun hdirty => ?_⟩⟩
      · rw [Upsert.isActive_row, hinactive] at htrue
        cases htrue
      · rw [Upsert.isDirty_row, hstaged, decide_eq_true_eq] at hdirty
        exact absurd rfl hdirty

/-! ## Edits -/

/-- An active row is exact if its setting is read back, and has a value if it is a new one. -/
structure ActiveExact (optionxform : String → String) (config : Config) (key : SettingKey)
    (row : Setting) : Prop where
  plain : PlainSetting optionxform key (row.valueStaged.getD "")
  new : config.at? key = none → row.valueStaged.getD "" ≠ ""

/-- When an edit leaves the diff exact. A row that is edited must have on disk what `config.cfg` has,
if it is no orphan. -/
def EditExact (optionxform : String → String) (library : TransportLibrary) (config : Config)
    (table : SettingTable) : Edit → Prop
  | .general key payload => ∀ row, table.get? key = some row → row.isOrphan = false →
      row.valueDisk.getD "" = (config.at? key).getD "" ∧
      if (row.update payload).isActive then ActiveExact optionxform config key (row.update payload)
      else
        -- `mark_dirty` compares values, and does not see that the row was switched off
        (config.at? key = none → (row.update payload).valueStaged = some "") ∧
        ∀ v, config.at? key = some v → row.valueDisk = some v ∧
          (row.update payload).valueStaged ≠ some v
  | .device key payload => ∀ row, table.get? key = some row →
      (row.isOrphan = false → row.valueDisk.getD "" = (config.at? key).getD "" ∧
        if (row.update payload).isActive then
          ActiveExact optionxform config key (row.update payload)
        else config.at? key ≠ some "") ∧
      ∀ seed ∈ bridgeRows library table ((row.update payload).valueStaged.getD ""),
        key.2 = "bridge" → payload.valueStaged.isSome = true →
        ActiveExact optionxform config seed.1 seed.2
  | .create deviceName k defaultValue =>
      let key : SettingKey := ("transport." ++ deviceName, k)
      match table.get? key with
      | some row => row.isOrphan = false → row.valueDisk.getD "" = (config.at? key).getD "" ∧
          ActiveExact optionxform config key (row.activate defaultValue)
      | none => ActiveExact optionxform config key (Setting.created defaultValue)

/-- An active row that was marked as dirty if its value changed is exact. -/
theorem ActiveExact.rowExact {config : Config} {key : SettingKey} {row marked : Setting}
    (h : ActiveExact optionxform config key row) (hactive : marked.isActive = true)
    (hstaged : marked.valueStaged = row.valueStaged) (hsome : row.valueStaged.isSome = true)
    (hdisk : marked.valueDisk.getD "" = (config.at? key).getD "")
    (hdirty : marked.valueStaged.getD "" ≠ marked.valueDisk.getD "" → marked.isDirty = true) :
    RowExact (config.at? key) marked ∧
      (marked.isActive = true → PlainSetting optionxform key (marked.valueStaged.getD "")) := by
  refine ⟨⟨hstaged ▸ hsome, fun _ => ⟨hdisk, hdirty, hstaged ▸ h.new⟩, fun hfalse => ?_⟩,
    fun _ => hstaged ▸ h.plain⟩
  rw [hactive] at hfalse
  cases hfalse

namespace Setting

variable (row : Setting) (payload : SettingUpdate)

@[simp] theorem valueDisk_update : (row.update payload).valueDisk = row.valueDisk := by
  unfold update
  dsimp only
  split <;> rfl

@[simp] theorem isOrphan_update : (row.update payload).isOrphan = row.isOrphan := by
  unfold update
  dsimp only
  split <;> rfl

@[simp] theorem isActive_markDevice : row.markDevice.isActive = row.isActive := by
  unfold markDevice
  split <;> rfl

@[simp] theorem isOrphan_markDevice : row.markDevice.isOrphan = row.isOrphan := by
  unfold markDevice
  split <;> rfl

@[simp] theorem valueStaged_markDevice : row.markDevice.valueStaged = row.valueStaged := by
  unfold markDevice
  split <;> rfl

@[simp] theorem valueDisk_markDevice : row.markDevice.valueDisk = row.valueDisk := by
  unfold markDevice
  split <;> rfl

@[simp] theorem isOrphan_activate (defaultValue : Option String) :
    (row.activate defaultValue).isOrphan = row.isOrphan := rfl

/-- An update leaves a staged value. -/
theorem isSome_valueStaged_update (h : row.valueStaged.isSome = true) :
    (row.update payload).valueStaged.isSome = true := by
  have hor : (payload.valueStaged.or row.valueStaged).isSome = true := by
    rw [Option.isSome_or, h, Bool.or_true]
  unfold update
  dsimp only
  split
  · dsimp only
    split
    · exact hor
    · rfl
  · exact hor
  · exact hor

/-- `mark_dirty` marks a row whose value changed. -/
theorem isDirty_markDirty (hne : row.valueStaged.getD "" ≠ row.valueDisk.getD "") : row.markDirty.isDirty = true := by
  rw [markDirty, decide_eq_true_eq]
  intro heq
  rw [heq] at hne
  exact hne rfl

end Setting

namespace Exact

variable {config : Config} {st : SettingState} (h : Exact optionxform config st)

include h

/-- A row may be replaced, or added for a key that `config.cfg` does not have. -/
theorem setRow {key : SettingKey} {row : Setting}
    (horphan : row.isOrphan = true → config.at? key = none)
    (hrow : row.isOrphan = false → RowExact (config.at? key) row ∧
      (row.isActive = true → PlainSetting optionxform key (row.valueStaged.getD ""))) :
    Exact optionxform config { st with table := st.table.set key row } := by
  have hget : ∀ key', (st.table.set key row).get? key' =
      if key' = key then some row else st.table.get? key' := Dict.get?_set _ _ _
  refine ⟨h.load, h.sections, fun key' v hv => ?_, fun key' row' hrow' horphan' hactive => ?_,
    fun key' hnone => ?_, fun key' row' hrow' horphan' => ?_, fun key' row' hrow' horphan' => ?_⟩
  · obtain ⟨row', hrow', hactive, horphan', hkey, rfl⟩ := written?_eq_some_iff.mp hv
    rw [hget] at hrow'
    split at hrow'
    · next heq =>
      obtain rfl := Option.some.inj hrow'
      obtain ⟨hexact, hplain⟩ := hrow horphan'
      obtain ⟨staged, hstaged⟩ := Option.isSome_iff_exists.mp hexact.staged
      have hplain := hplain hactive
      rw [hstaged, Option.getD_some] at hplain
      rw [heq, Setting.written, hstaged, Option.getD_some]
      exact hplain
    · exact h.plain key' _ (written?_eq_some_iff.mpr ⟨row', hrow', hactive, horphan', hkey, rfl⟩)
  · rw [hget] at hrow'
    split at hrow'
    · next heq =>
      obtain rfl := Option.some.inj hrow'
      rw [heq]
      exact ((hrow horphan').2 hactive).key_kept
    · exact h.kept key' row' hrow' horphan' hactive
  · rw [hget] at hnone
    split at hnone
    · cases hnone
    · exact h.absent key' hnone
  · rw [hget] at hrow'
    split at hrow'
    · next heq =>
      obtain rfl := Option.some.inj hrow'
      rw [heq]
      exact horphan horphan'
    · exact h.orphan key' row' hrow' horphan'
  · rw [hget] at hrow'
    split at hrow'
    · next heq =>
      obtain rfl := Option.some.inj hrow'
      rw [heq]
      exact (hrow horphan').1
    · exact h.row key' row' hrow' horphan'

/-- **Edits of a row.** -/
theorem general {key : SettingKey} {payload : SettingUpdate}
    (hedit : EditExact optionxform library config st.table (.general key payload)) :
    Exact optionxform config (SettingOp.apply optionxform library st (.edit (.general key payload))) := by
  show Exact optionxform config
    { st with table := (updateGeneralSetting st.table key payload).getD st.table }
  cases hrow : st.table.get? key with
  | none =>
    rw [updateGeneralSetting, hrow]
    exact h
  | some row =>
    rw [updateGeneralSetting, hrow]
    refine h.setRow (fun horphan => ?_) fun horphan => ?_
    · exact h.orphan key row hrow ((Setting.isOrphan_update row payload).symm.trans horphan)
    · replace horphan : row.isOrphan = false :=
        (Setting.isOrphan_update row payload).symm.trans horphan
      obtain ⟨hdisk, hedit⟩ := hedit row hrow horphan
      have hstaged := row.isSome_valueStaged_update payload (h.row key row hrow horphan).staged
      rw [← Setting.valueDisk_update row payload] at hdisk
      cases hactive : (row.update payload).isActive with
      | true =>
        rw [if_pos hactive] at hedit
        exact hedit.rowExact hactive rfl hstaged hdisk (Setting.isDirty_markDirty _)
      | false =>
        rw [if_neg (by rw [hactive]; decide)] at hedit
        refine ⟨⟨hstaged, fun htrue => ?_, fun _ => ?_⟩, fun htrue => ?_⟩
        · exact absurd (hactive.symm.trans htrue) (by decide)
        · cases hat : config.at? key with
          | none =>
            rw [hat] at hdisk
            refine Or.inl ⟨rfl, fun _ => ⟨hdisk, ?_⟩⟩
            exact congrArg (Option.getD · "") (hedit.1 hat)
          | some v =>
            obtain ⟨hv, hne⟩ := hedit.2 v hat
            rw [← Setting.valueDisk_update row payload] at hv
            refine Or.inr ⟨v, rfl, hv, ?_, ?_⟩
            · rw [Setting.markDirty, decide_eq_true_eq, hv]
              exact hne
            · obtain ⟨staged, hs⟩ := Option.isSome_iff_exists.mp hstaged
              show v ≠ "" ∨ (row.update payload).valueStaged.getD "" ≠ ""
              rw [hs] at hne ⊢
              by_cases hempty : v = ""
              · refine Or.inr fun heq => hne ?_
                rw [hempty, ← heq, Option.getD_some]
              · exact Or.inl hempty
        · exact absurd (hactive.symm.trans htrue) (by decide)

/-- Rows for new settings may be added. -/
theorem update {rows : List SettingRow}
    (hrows : ∀ row ∈ rows, config.at? row.1 = none ∧ row.2.isOrphan = false ∧
      RowExact none row.2 ∧ PlainSetting optionxform row.1 (row.2.valueStaged.getD "")) :
    Exact optionxform config { st with table := st.table.update rows } := by
  induction rows generalizing st with
  | nil => exact h
  | cons row rows ih =>
    obtain ⟨hat, horphan, hrow, hplain⟩ := hrows row List.mem_cons_self
    have hset : Exact optionxform config { st with table := st.table.set row.1 row.2 } :=
      h.setRow (fun htrue => absurd (horphan.symm.trans htrue) (by decide))
        fun _ => ⟨hat ▸ hrow, fun _ => hplain⟩
    exact ih hset fun row' hrow' => hrows row' (List.mem_cons_of_mem _ hrow')

omit h in
/-- How `update_setting` marks a row is exact, unless an empty value is switched off. -/
theorem rowExact_markDevice {key : SettingKey} {row : Setting}
    (hstaged : row.valueStaged.isSome = true)
    (hdisk : row.valueDisk.getD "" = (config.at? key).getD "")
    (hedit : if row.isActive then ActiveExact optionxform config key row
      else config.at? key ≠ some "") :
    RowExact (config.at? key) row.markDevice ∧
      (row.markDevice.isActive = true →
        PlainSetting optionxform key (row.markDevice.valueStaged.getD "")) := by
  cases hactive : row.isActive with
  | true =>
    rw [if_pos hactive] at hedit
    refine hedit.rowExact (by rw [Setting.isActive_markDevice, hactive])
      (Setting.valueStaged_markDevice row) hstaged
      (by rw [Setting.valueDisk_markDevice, hdisk]) fun hne => ?_
    rw [Setting.markDevice, if_pos hactive] at hne ⊢
    exact Setting.isDirty_markDirty row hne
  | false =>
    rw [if_neg (by rw [hactive]; decide)] at hedit
    refine ⟨⟨by rw [Setting.valueStaged_markDevice, hstaged], fun htrue => ?_, fun _ => ?_⟩,
      fun htrue => ?_⟩
    · rw [Setting.isActive_markDevice, hactive] at htrue
      cases htrue
    · rw [Setting.valueDisk_markDevice, Setting.valueStaged_markDevice, Setting.markDevice,
        if_neg (by rw [hactive]; decide)]
      cases hat : config.at? key with
      | none =>
        refine Or.inl ⟨rfl, fun hdirty => ?_⟩
        rw [hat, Option.getD_none] at hdisk
        simp [isSet, hdisk] at hdirty
      | some v =>
        have hv : v ≠ "" := fun hempty => hedit (by rw [hat, hempty])
        rw [hat, Option.getD_some] at hdisk
        refine Or.inr ⟨v, rfl, ?_, ?_, Or.inl hv⟩
        · cases hd : row.valueDisk with
          | none =>
            rw [hd, Option.getD_none] at hdisk
            exact absurd hdisk.symm hv
          | some d => rw [hd, Option.getD_some] at hdisk; rw [hdisk]
        · simp [isSet, hdisk, hv]
    · rw [Setting.isActive_markDevice, hactive] at htrue
      cases htrue

omit h in
/-- A seeded row is exact if its value is not empty. -/
theorem rowExact_seeded {v : String} (hv : (Setting.seeded v).valueStaged.getD "" ≠ "") :
    RowExact none (Setting.seeded v) :=
  ⟨rfl, fun _ => ⟨rfl, fun _ => rfl, fun _ => hv⟩, fun hfalse => by cases hfalse⟩

omit h in
/-- What is seeded depends on the keys of the table only. -/
theorem bridgeRows_congr {table table' : SettingTable} (hkeys : table'.keys = table.keys)
    {value : String} : ProtocolGateway.bridgeRows library table' value =
      ProtocolGateway.bridgeRows library table value := by
  unfold ProtocolGateway.bridgeRows
  rw [hkeys]

/-- What is seeded for a bridge is new. -/
theorem bridgeRows {value : String} {seed : SettingRow}
    (hseed : seed ∈ bridgeRows library st.table value) :
    config.at? seed.1 = none ∧ ∃ v, seed.2 = Setting.seeded v := by
  obtain ⟨bridge, -, hmem⟩ := List.mem_flatMap.mp hseed
  split at hmem
  · cases hmem
  · next hnew =>
    split at hmem
    · cases hmem
    · obtain ⟨kv, -, rfl⟩ := List.mem_map.mp hmem
      refine ⟨h.absent _ (Dict.get?_eq_none_iff.mpr fun hkey => hnew ?_), kv.2, rfl⟩
      exact List.any_eq_true.mpr ⟨_, hkey, by simp⟩

/-- **Edits of a device's row**, with the bridges that are seeded for it. -/
theorem device {key : SettingKey} {payload : SettingUpdate}
    (hedit : EditExact optionxform library config st.table (.device key payload)) :
    Exact optionxform config (SettingOp.apply optionxform library st (.edit (.device key payload))) := by
  show Exact optionxform config
    { st with table := (updateSetting library st.table key payload).getD st.table }
  unfold updateSetting
  split
  · cases hrow : st.table.get? key with
    | none => exact h
    | some row =>
      obtain ⟨hedit, hbridge⟩ := hedit row hrow
      have hset : Exact optionxform config
          { st with table := st.table.set key (row.update payload).markDevice } := by
        refine h.setRow (fun horphan => ?_) fun horphan => ?_
        · rw [Setting.isOrphan_markDevice, Setting.isOrphan_update] at horphan
          exact h.orphan key row hrow horphan
        · rw [Setting.isOrphan_markDevice, Setting.isOrphan_update] at horphan
          obtain ⟨hdisk, hedit⟩ := hedit horphan
          exact rowExact_markDevice (row.isSome_valueStaged_update payload
            (h.row key row hrow horphan).staged) (by rw [Setting.valueDisk_update, hdisk]) hedit
      rw [Option.bind_some]
      dsimp only
      split
      · next hseed =>
        unfold ensureBridgeSectionsExist
        dsimp only
        split
        · refine hset.update fun seed hmem => ?_
          obtain ⟨hat, v, hv⟩ := hset.bridgeRows hmem
          rw [bridgeRows_congr (Dict.keys_set_of_mem (Dict.mem_keys.mpr
            ⟨row, Dict.get?_eq_some_iff.mp hrow⟩))] at hmem
          obtain ⟨hplain, hnew⟩ := hbridge seed hmem hseed.1 hseed.2
          refine ⟨hat, hv ▸ rfl, ?_, hplain⟩
          rw [hv] at hnew ⊢
          exact rowExact_seeded (hnew hat)
        · exact h
      · exact hset
  · exact h

/-- **Rows that are created**, or activated if they are there. -/
theorem create {deviceName k : String} {defaultValue : Option String}
    (hedit : EditExact optionxform library config st.table (.create deviceName k defaultValue)) :
    Exact optionxform config
      (SettingOp.apply optionxform library st (.edit (.create deviceName k defaultValue))) := by
  show Exact optionxform config
    { st with table := createAndActivate st.table deviceName k defaultValue }
  unfold createAndActivate
  unfold EditExact at hedit
  dsimp only at hedit ⊢
  cases hrow : st.table.get? ("transport." ++ deviceName, k) with
  | none =>
    rw [hrow] at hedit
    have hat := h.absent _ hrow
    exact h.setRow (fun htrue => by cases htrue) fun _ =>
      hedit.rowExact rfl rfl rfl (by rw [hat]; rfl) fun _ => rfl
  | some row =>
    rw [hrow] at hedit
    refine h.setRow (fun horphan => h.orphan _ row hrow horphan) fun horphan => ?_
    obtain ⟨hdisk, hactive⟩ := hedit horphan
    refine hactive.rowExact rfl rfl ?_ hdisk fun _ => rfl
    rw [Setting.activate]
    dsimp only
    split
    · exact (h.row _ row hrow horphan).staged
    · split
      · next hdefault =>
        cases defaultValue with
        | none => exact absurd hdefault (by decide)
        | some v => rfl
      · rfl

end Exact

/-! ## Runs -/

/-- When a step leaves the diff exact. A commit always does. -/
def SettingOp.Keeps (optionxform : String → String) (library : TransportLibrary)
    (st : SettingState) : SettingOp → Prop
  | .edit e => ∀ config, loadConfig optionxform st.file = some config →
      EditExact optionxform library config st.table e
  | .commit => True
  | .rescan cfgIsTruth => ∀ config, loadConfig optionxform st.file = some config →
      ScanExact optionxform library cfgIsTruth config st.table

/-- The settings from a completed scan on, which itself leaves the diff exact. -/
def settingSystem (optionxform : String → String) (library : TransportLibrary) :
    System SettingState SettingOp where
  init st := ∃ before cfgIsTruth, (loadConfig optionxform before.file).isSome = true ∧
    SettingOp.Keeps optionxform library before (.rescan cfgIsTruth) ∧
    SettingOp.apply optionxform library before (.rescan cfgIsTruth) = st
  step st op st' := SettingOp.apply optionxform library st op = st'

/-- A pass over a file that can be read. -/
theorem exact_rescan {st : SettingState} {cfgIsTruth : Bool} {config : Config}
    (hload : loadConfig optionxform st.file = some config)
    (hkeeps : SettingOp.Keeps optionxform library st (.rescan cfgIsTruth)) :
    Exact optionxform config (SettingOp.apply optionxform library st (.rescan cfgIsTruth)) := by
  rw [SettingOp.apply, rescanFile, hload]
  exact exact_scanSettings hload (hkeeps config hload)

/-- **Every step that meets its condition keeps the invariant.** -/
theorem Exact.step {config : Config} {st : SettingState} (h : Exact optionxform config st)
    {op : SettingOp} (hop : op.Keeps optionxform library st) :
    ∃ config', Exact optionxform config' (op.apply optionxform library st) := by
  cases op with
  | edit e =>
    have hedit := hop config h.load
    cases e with
    | general key payload => exact ⟨config, h.general hedit⟩
    | device key payload => exact ⟨config, h.device hedit⟩
    | create deviceName key defaultValue => exact ⟨config, h.create hedit⟩
  | commit => exact h.commit
  | rescan cfgIsTruth => exact ⟨config, exact_rescan h.load hop⟩

/-- **The pre-commit diff is exact** in every run from a completed scan whose edits and passes meet
their conditions. -/
theorem diffExact_of_reach (optionxform : String → String) (library : TransportLibrary)
    (st : SettingState)
    (h : Reach (settingSystem optionxform library) (SettingOp.Keeps optionxform library) st) :
    DiffExact optionxform st := by
  have hexact : ∃ config, Exact optionxform config st := by
    refine Reach.invariant (P := fun st => ∃ config, Exact optionxform config st)
      (fun st hinit => ?_) (fun st op st' _ hst hop hstep => ?_) h
    · obtain ⟨before, cfgIsTruth, hload, hkeeps, rfl⟩ := hinit
      obtain ⟨config, hload⟩ := Option.isSome_iff_exists.mp hload
      exact ⟨config, exact_rescan hload hkeeps⟩
    · obtain ⟨config, hst⟩ := hst
      obtain rfl : SettingOp.apply optionxform library st op = st' := hstep
      exact hst.step hop
  obtain ⟨config, hexact⟩ := hexact
  exact hexact.diffExact

section Example

/-- A `config.cfg` with one setting. -/
def smallFile : List Char := "[general]\nlog_level = INFO\n".toList

/-- What it reads as. -/
def smallConfig : Config := Dict.empty.set "general" (Dict.empty.set "log_level" "INFO")

/-- A library without transports. -/
def emptyLibrary : TransportLibrary := ⟨Dict.empty, Dict.empty, Dict.empty⟩

theorem loadConfig_smallFile : loadConfig lowerText smallFile = some smallConfig := by
  decide

/-- The first scan of the small file meets its condition. -/
theorem scanExact_smallConfig :
    ScanExact lowerText emptyLibrary false smallConfig Dict.empty := by
  have hget : ∀ s keys, Dict.get? smallConfig s = some keys →
      s = "general" ∧ keys = Dict.empty.set "log_level" "INFO" := by
    intro s keys hkeys
    rw [smallConfig, Dict.get?_set] at hkeys
    split at hkeys
    · next hs => exact ⟨hs, (Option.some.inj hkeys).symm⟩
    · cases hkeys
  refine ⟨fun s hs => ?_, fun key v hv => ?_, fun key v row _ hrow => ?_,
    fun key v row _ hrow => ?_, fun key v hv => ?_⟩
  · obtain ⟨keys, hkeys⟩ := Dict.mem_keys.mp hs
    obtain ⟨rfl, -⟩ := hget s keys (Dict.get?_eq_some_iff.mpr hkeys)
    exact ⟨"log_level", "INFO", by decide⟩
  · obtain ⟨keys, hkeys, hv⟩ := Option.bind_eq_some_iff.mp hv
    obtain ⟨-, rfl⟩ := hget key.1 keys hkeys
    simp [isDerivedKey, show literalTransportName (Dict.empty.set "log_level" "INFO") = "" by
      decide] at hv
  · cases hrow
  · cases hrow
  · obtain ⟨keys, hkeys, hv⟩ := Option.bind_eq_some_iff.mp hv
    obtain ⟨hs, rfl⟩ := hget key.1 keys hkeys
    split at hv
    · cases hv
    · rw [Dict.get?_set] at hv
      split at hv
      · next hk =>
        obtain rfl := Option.some.inj hv
        obtain rfl : key = ("general", "log_level") := Prod.ext hs hk
        exact plain_logLevel
      · cases hv

/-- The small file after its first scan. -/
def smallState : SettingState :=
  SettingOp.apply lowerText emptyLibrary ⟨smallFile, Dict.empty⟩ (.rescan false)

theorem init_smallState : (settingSystem lowerText emptyLibrary).init smallState := by
  refine ⟨⟨smallFile, Dict.empty⟩, false, ?_, fun config hconfig => ?_, rfl⟩
  · rw [loadConfig_smallFile]
    rfl
  · obtain rfl := Option.some.inj (loadConfig_smallFile.symm.trans hconfig)
    exact scanExact_smallConfig

/-- The diff is exact after the first scan and a commit. -/
theorem diffExact_smallState :
    DiffExact lowerText (SettingOp.apply lowerText emptyLibrary smallState .commit) := by
  have hcommit : SettingOp.Keeps lowerText emptyLibrary smallState .commit := trivial
  exact diffExact_of_reach lowerText emptyLibrary _ (.step (.init init_smallState) hcommit rfl)

/-- The user switches the setting off. -/
def switchOff : SettingOp := .edit (.general ("general", "log_level") { isActive := some false })

/-- `update_general_setting` does not mark a row that is switched off, and the commit removes the
setting without the diff listing it. -/
theorem not_diffExact_switched_off :
    ¬∀ st, Reachable (settingSystem lowerText emptyLibrary) st → DiffExact lowerText st := by
  intro h
  have hstep : (settingSystem lowerText emptyLibrary).step smallState switchOff
      (SettingOp.apply lowerText emptyLibrary smallState switchOff) := rfl
  obtain ⟨before, after, hbefore, hafter, hlisted, -⟩ :=
    h _ (.step (.init init_smallState) trivial hstep)
  obtain rfl := Option.some.inj (loadConfig_smallFile.symm.trans hbefore)
  have hnone : after.setting? "general" "log_level" = none := by
    have hload : (loadConfig lowerText (commitText
        (SettingOp.apply lowerText emptyLibrary smallState switchOff).table)).map
          (fun config => config.setting? "general" "log_level") = some none := by
      decide
    rw [hafter, Option.map_some] at hload
    exact Option.some.inj hload
  obtain ⟨d, hd, -⟩ := (hlisted ("general", "log_level")).mpr (by
    rw [hnone]
    exact fun heq => absurd heq.symm (by decide))
  have hempty : buildDiff
      (SettingOp.apply lowerText emptyLibrary smallState switchOff).table = [] := by
    decide
  rw [hempty] at hd
  cases hd

end Example

end ProtocolGateway
