import ProtocolGateway.Staging.Settings

/-!
# Scanning the settings

What a scanner pass does to the `settings` table. It goes through `config.cfg`, then through the
keys the transports know but `config.cfg` does not have, and upserts a row for each; every other row
becomes an orphan. `scanUpserts` lists the upserts of a pass, which do not depend on the table, and
`get?_scanSettings` says what a pass leaves under a key.
-/

namespace ProtocolGateway

open ConfigParser

/-! ## What the transports know -/

/-- The defaults of the transports' settings. -/
structure TransportLibrary where
  /-- `get_known_transport_keys()`: the JSON registry -/
  knownTransportKeys : Dict String (Dict String String)
  /-- `get_transport_base_keys()` -/
  transportBaseKeys : Dict String String
  /-- `scan_transport_library()`: the keys found in the code of a transport -/
  astKeys : Dict String (Dict String (Option String))

/-- `keys.get("transport", "").strip()`. -/
def literalTransportName (keys : Dict String String) : String :=
  String.ofList (Text.strip ((keys.get? "transport").getD "").toList)

/-- A setting that is derived from `metrics_port`, whatever `config.cfg` says. -/
def isDerivedKey (transportName key : String) : Bool :=
  transportName = "prometheus_out" ∧ (key = "host" ∨ key = "port")

/-- `derive_dashboard_host_port`. -/
def deriveDashboardHostPort (metricsPortRaw : String) : String × String :=
  let port := String.ofList (Text.strip metricsPortRaw.toList)
  ("0.0.0.0", if port = "" then "9110" else port)

namespace TransportLibrary

variable (library : TransportLibrary)

/-- `_get_default`. -/
def getDefault (key : String) (sectionKeys : Dict String String) : Option String :=
  let transportName := literalTransportName sectionKeys
  match ((library.astKeys.get? transportName).bind (·.get? key)).join with
  | some default => some default
  | none =>
    ((library.knownTransportKeys.get? transportName).getD library.transportBaseKeys).get? key

/-- `registry_keys`: the JSON registry, and what the code of the transport says. -/
def registryKeys (transportName : String) : Dict String String :=
  ((library.astKeys.get? transportName).getD Dict.empty).items.foldl
    (fun keys kv =>
      match kv.2 with
      | some default => keys.set kv.1 default
      | none => if kv.1 ∈ keys.keys then keys else keys.set kv.1 "")
    ((library.knownTransportKeys.get? transportName).getD Dict.empty)

end TransportLibrary

/-! ## Upserts -/

/-- The arguments of `_upsert_setting`. -/
structure Upsert where
  key : SettingKey
  valueDisk : String
  defaultValue : Option String
  isActive : Bool := true
  cfgIsTruth : Bool := false

/-- The row `_upsert_setting` leaves in place of the one it finds. -/
def Upsert.row (u : Upsert) : Option Setting → Setting
  | some existing =>
    let row : Setting :=
      { existing with valueDisk := some u.valueDisk, isOrphan := false, isActive := u.isActive
                      defaultValue := u.defaultValue.or existing.defaultValue }
    if u.cfgIsTruth then { row with valueStaged := some u.valueDisk, isDirty := false }
    else row.markDirty
  | none =>
    { valueDisk := some u.valueDisk, valueStaged := some u.valueDisk
      defaultValue := some (u.defaultValue.getD ""), isActive := u.isActive }

/-- `_upsert_setting`. -/
def upsertSetting (table : SettingTable) (u : Upsert) : SettingTable :=
  table.set u.key (u.row (table.get? u.key))

/-- `_mark_orphaned_settings`. -/
def markOrphanedSettings (seen : List SettingKey) (table : SettingTable) : SettingTable :=
  table.mapValues fun key row => if key ∈ seen then row else { row with isOrphan := true }

namespace Upsert

variable (u : Upsert) (existing : Option Setting)

@[simp] theorem isActive_row : (u.row existing).isActive = u.isActive := by
  cases existing with
  | none => rfl
  | some row => simp only [Upsert.row]; split <;> rfl

@[simp] theorem isOrphan_row : (u.row existing).isOrphan = false := by
  cases existing with
  | none => rfl
  | some row => simp only [Upsert.row]; split <;> rfl

@[simp] theorem valueDisk_row : (u.row existing).valueDisk = some u.valueDisk := by
  cases existing with
  | none => rfl
  | some row => simp only [Upsert.row]; split <;> rfl

/-- The staged value of the row that is found stays, unless `config.cfg` is the truth. -/
theorem valueStaged_row : (u.row existing).valueStaged =
    if u.cfgIsTruth then some u.valueDisk
    else (existing.map Setting.valueStaged).getD (some u.valueDisk) := by
  cases existing with
  | none => simp [Upsert.row]
  | some row => simp only [Upsert.row]; split <;> rfl

/-- The row is dirty if another value is staged. -/
theorem isDirty_row :
    (u.row existing).isDirty = decide ((u.row existing).valueStaged ≠ some u.valueDisk) := by
  cases existing with
  | none => simp [Upsert.row]
  | some row => simp only [Upsert.row]; split <;> simp [Setting.markDirty]

theorem written_row : (u.row existing).written =
    (if u.cfgIsTruth then none else existing.bind Setting.valueStaged).getD u.valueDisk := by
  rw [Setting.written, valueStaged_row, valueDisk_row]
  cases existing with
  | none => simp
  | some row => split <;> simp

end Upsert

/-! ## A pass -/

section Scan

variable (library : TransportLibrary) (cfgIsTruth : Bool)

/-- The upserts for a section of `config.cfg`: its settings, and what is derived from them. -/
def configUpserts (s : String) (keys : Dict String String) : List Upsert :=
  let transportName := literalTransportName keys
  let derived := deriveDashboardHostPort ((keys.get? "metrics_port").getD "")
  let settings := keys.items.filter fun kv => !isDerivedKey transportName kv.1
  (settings.map fun kv =>
    { key := (s, kv.1), valueDisk := kv.2, defaultValue := library.getDefault kv.1 keys
      cfgIsTruth := cfgIsTruth }) ++
  if transportName = "prometheus_out" then
    [("host", derived.1), ("port", derived.2)].map fun kv =>
      { key := (s, kv.1), valueDisk := kv.2, defaultValue := some kv.2, cfgIsTruth := true
        isActive := false }
  else []

/-- The upserts for the settings a transport knows and its section does not have. -/
def unsetUpserts (s : String) (keys : Dict String String) : List Upsert :=
  let transportName := literalTransportName keys
  if "transport.".toList.isPrefixOf s.toList then
    ((library.registryKeys transportName).items.filter fun kv =>
      !isDerivedKey transportName kv.1 ∧ kv.1 ∉ keys.keys).map fun kv =>
        { key := (s, kv.1), valueDisk := "", defaultValue := some kv.2, isActive := false }
  else []

/-- The upserts of a pass, in their order. -/
def scanUpserts (config : Config) : List Upsert :=
  config.items.flatMap (fun kv => configUpserts library cfgIsTruth kv.1 kv.2) ++
    config.items.flatMap fun kv => unsetUpserts library kv.1 kv.2

/-- What `Scanner._scan` does to the settings, given what `load_config` returned. -/
def scanSettings (config : Config) (table : SettingTable) : SettingTable :=
  let upserts := scanUpserts library cfgIsTruth config
  markOrphanedSettings (upserts.map Upsert.key) (upserts.foldl upsertSetting table)

end Scan

/-- The value a pass reads from `config.cfg` under a section and key. -/
def Config.scanned? (config : Config) (key : SettingKey) : Option String :=
  (config.get? key.1).bind fun keys =>
    if isDerivedKey (literalTransportName keys) key.2 then none else keys.get? key.2

/-- The value a pass derives for a section and key. -/
def Config.derived? (config : Config) (key : SettingKey) : Option String :=
  (config.get? key.1).bind fun keys =>
    let derived := deriveDashboardHostPort ((keys.get? "metrics_port").getD "")
    if isDerivedKey (literalTransportName keys) key.2 then
      some (if key.2 = "host" then derived.1 else derived.2)
    else none

/-- The default of a setting that a transport knows and `config.cfg` does not have. -/
def Config.unset? (library : TransportLibrary) (config : Config) (key : SettingKey) :
    Option String :=
  (config.get? key.1).bind fun keys =>
    let transportName := literalTransportName keys
    if "transport.".toList.isPrefixOf key.1.toList ∧ !isDerivedKey transportName key.2 ∧
        key.2 ∉ keys.keys then
      (library.registryKeys transportName).get? key.2
    else none

/-! ## The upserts of a pass -/

variable {library : TransportLibrary} {cfgIsTruth : Bool} {config : Config} {table : SettingTable}

theorem mem_configUpserts {s : String} {keys : Dict String String} {u : Upsert} :
    u ∈ configUpserts library cfgIsTruth s keys ↔
      (∃ k v, (k, v) ∈ keys.items ∧ isDerivedKey (literalTransportName keys) k = false ∧
        u = { key := (s, k), valueDisk := v, defaultValue := library.getDefault k keys
              cfgIsTruth := cfgIsTruth }) ∨
      (∃ k v, (k, v) ∈ [("host", (deriveDashboardHostPort ((keys.get? "metrics_port").getD "")).1),
          ("port", (deriveDashboardHostPort ((keys.get? "metrics_port").getD "")).2)] ∧
        literalTransportName keys = "prometheus_out" ∧
        u = { key := (s, k), valueDisk := v, defaultValue := some v, cfgIsTruth := true
              isActive := false }) := by
  unfold configUpserts
  rw [List.mem_append]
  refine or_congr ?_ ?_
  · rw [List.mem_map]
    constructor
    · rintro ⟨⟨k, v⟩, hkv, rfl⟩
      obtain ⟨hmem, hder⟩ := List.mem_filter.mp hkv
      exact ⟨k, v, hmem, by simpa using hder, rfl⟩
    · rintro ⟨k, v, hmem, hder, rfl⟩
      exact ⟨(k, v), List.mem_filter.mpr ⟨hmem, by simpa using hder⟩, rfl⟩
  · split
    · next hname =>
      rw [List.mem_map]
      constructor
      · rintro ⟨⟨k, v⟩, hkv, rfl⟩
        exact ⟨k, v, hkv, hname, rfl⟩
      · rintro ⟨k, v, hkv, -, rfl⟩
        exact ⟨(k, v), hkv, rfl⟩
    · next hname =>
      refine iff_of_false List.not_mem_nil ?_
      rintro ⟨k, v, -, heq, -⟩
      exact hname heq

theorem mem_unsetUpserts {s : String} {keys : Dict String String} {u : Upsert} :
    u ∈ unsetUpserts library s keys ↔
      "transport.".toList.isPrefixOf s.toList = true ∧
      ∃ k v, (k, v) ∈ (library.registryKeys (literalTransportName keys)).items ∧
        isDerivedKey (literalTransportName keys) k = false ∧ k ∉ keys.keys ∧
        u = { key := (s, k), valueDisk := "", defaultValue := some v, isActive := false } := by
  unfold unsetUpserts
  split
  · next hs =>
    rw [List.mem_map]
    constructor
    · rintro ⟨⟨k, v⟩, hkv, rfl⟩
      obtain ⟨hmem, htest⟩ := List.mem_filter.mp hkv
      rw [decide_eq_true_eq] at htest
      exact ⟨hs, k, v, hmem, by simpa using htest.1, htest.2, rfl⟩
    · rintro ⟨-, k, v, hmem, hder, hk, rfl⟩
      refine ⟨(k, v), List.mem_filter.mpr ⟨hmem, ?_⟩, rfl⟩
      rw [decide_eq_true_eq]
      exact ⟨by simpa using hder, hk⟩
  · next hs => exact iff_of_false List.not_mem_nil fun h => hs h.1

/-- An upsert for a section of `config.cfg` is one for a key it has, or a derived key. -/
theorem key_of_mem_configUpserts {s : String} {keys : Dict String String} {u : Upsert}
    (h : u ∈ configUpserts library cfgIsTruth s keys) :
    u.key.1 = s ∧
      (u.key.2 ∈ keys.keys ∧ isDerivedKey (literalTransportName keys) u.key.2 = false ∨
        isDerivedKey (literalTransportName keys) u.key.2 = true) := by
  obtain ⟨k, v, hmem, hder, rfl⟩ | ⟨k, v, hmem, hname, rfl⟩ := mem_configUpserts.mp h
  · exact ⟨rfl, Or.inl ⟨Dict.mem_keys.mpr ⟨v, hmem⟩, hder⟩⟩
  · refine ⟨rfl, Or.inr ?_⟩
    have hk : k = "host" ∨ k = "port" := by
      rcases List.mem_cons.mp hmem with heq | hmem
      · exact Or.inl (Prod.mk.inj heq).1
      · exact Or.inr (Prod.mk.inj (List.mem_singleton.mp hmem)).1
    simp [isDerivedKey, hname, hk]

/-- An upsert for an unset key is one for neither. -/
theorem key_of_mem_unsetUpserts {s : String} {keys : Dict String String} {u : Upsert}
    (h : u ∈ unsetUpserts library s keys) :
    u.key.1 = s ∧ u.key.2 ∉ keys.keys ∧
      isDerivedKey (literalTransportName keys) u.key.2 = false := by
  obtain ⟨-, k, v, -, hder, hk, rfl⟩ := mem_unsetUpserts.mp h
  exact ⟨rfl, hk, hder⟩

/-- Items of a dictionary with a key in common are the same item. -/
theorem nodup_flatMap_items {α β γ : Type} [DecidableEq α] {d : Dict α β} {f : α × β → List γ}
    (hf : ∀ kv ∈ d.items, (f kv).Nodup)
    (hkey : ∀ kv ∈ d.items, ∀ kv' ∈ d.items, ∀ c ∈ f kv, c ∈ f kv' → kv.1 = kv'.1) :
    (d.items.flatMap f).Nodup := by
  refine List.nodup_flatMap.mpr ⟨hf, ?_⟩
  have hpair : d.items.Pairwise fun kv kv' => kv.1 ≠ kv'.1 := List.pairwise_map.mp d.nodup
  exact hpair.imp_of_mem fun {kv kv'} hkv hkv' hne c hc hc' =>
    hne (hkey kv hkv kv' hkv' c hc hc')

/-- The keys of a section are distinct if their names are. -/
theorem nodup_map_key {β : Type} {items : List (String × β)} {s : String}
    (h : (items.map Prod.fst).Nodup) : (items.map fun item => (s, item.1)).Nodup := by
  rw [show (fun item : String × β => (s, item.1)) = (fun k => (s, k)) ∘ Prod.fst from rfl,
    ← List.map_map]
  exact h.map fun _ _ heq => (Prod.mk.inj heq).2

/-- A pass has one upsert for a key. -/
theorem nodup_scanUpserts (library : TransportLibrary) (cfgIsTruth : Bool) (config : Config) :
    ((scanUpserts library cfgIsTruth config).map Upsert.key).Nodup := by
  have hconfig : ∀ kv ∈ config.items,
      ((configUpserts library cfgIsTruth kv.1 kv.2).map Upsert.key).Nodup := by
    intro kv _
    have hsettings : ((kv.2.items.filter fun item =>
        !isDerivedKey (literalTransportName kv.2) item.1).map fun item => (kv.1, item.1)).Nodup :=
      nodup_map_key (kv.2.nodup.sublist (List.filter_sublist.map Prod.fst))
    unfold configUpserts
    dsimp only
    rw [List.map_append, List.map_map]
    split
    · next hname =>
      refine List.nodup_append.mpr ⟨hsettings, by simp, ?_⟩
      rintro key hkey key' hkey' rfl
      obtain ⟨item, hitem, heq⟩ := List.mem_map.mp hkey
      have htest := (List.mem_filter.mp hitem).2
      have hk : item.1 = "host" ∨ item.1 = "port" := by
        have hsnd : item.1 = key.2 := congrArg Prod.snd heq
        rw [hsnd]
        simp only [List.map_cons, List.map_nil, List.mem_cons, List.not_mem_nil, or_false] at hkey'
        rcases hkey' with rfl | rfl
        · exact Or.inl rfl
        · exact Or.inr rfl
      simp [isDerivedKey, hname, hk] at htest
    · rw [List.map_nil, List.append_nil]
      exact hsettings
  have hunset : ∀ kv ∈ config.items,
      ((unsetUpserts library kv.1 kv.2).map Upsert.key).Nodup := by
    intro kv _
    unfold unsetUpserts
    dsimp only
    split
    · rw [List.map_map]
      exact nodup_map_key ((library.registryKeys _).nodup.sublist (List.filter_sublist.map Prod.fst))
    · exact List.nodup_nil
  rw [scanUpserts, List.map_append, List.map_flatMap, List.map_flatMap]
  refine List.nodup_append.mpr ⟨nodup_flatMap_items hconfig ?_, nodup_flatMap_items hunset ?_, ?_⟩
  · rintro kv - kv' - key hkey hkey'
    obtain ⟨u, hu, rfl⟩ := List.mem_map.mp hkey
    obtain ⟨u', hu', heq⟩ := List.mem_map.mp hkey'
    rw [← (key_of_mem_configUpserts hu).1, ← heq, (key_of_mem_configUpserts hu').1]
  · rintro kv - kv' - key hkey hkey'
    obtain ⟨u, hu, rfl⟩ := List.mem_map.mp hkey
    obtain ⟨u', hu', heq⟩ := List.mem_map.mp hkey'
    rw [← (key_of_mem_unsetUpserts hu).1, ← heq, (key_of_mem_unsetUpserts hu').1]
  · rintro key hkey key' hkey' rfl
    obtain ⟨⟨s, keys⟩, hmem, hkey⟩ := List.mem_flatMap.mp hkey
    obtain ⟨⟨s', keys'⟩, hmem', hkey'⟩ := List.mem_flatMap.mp hkey'
    obtain ⟨u, hu, rfl⟩ := List.mem_map.mp hkey
    obtain ⟨u', hu', heq⟩ := List.mem_map.mp hkey'
    obtain ⟨hs, hk⟩ := key_of_mem_configUpserts hu
    obtain ⟨hs', hk', hder⟩ := key_of_mem_unsetUpserts hu'
    rw [heq] at hs' hk' hder
    obtain rfl : s = s' := hs.symm.trans hs'
    obtain rfl : keys = keys' := config.eq_of_mem hmem hmem'
    rcases hk with hk | hk
    · exact hk' hk.1
    · exact absurd (hder.symm.trans hk) (by decide)

variable (library cfgIsTruth) in
/-- A setting that is read from `config.cfg` is upserted as an active one, -/
theorem exists_upsert_of_scanned {key : SettingKey} {v : String}
    (h : Config.scanned? config key = some v) :
    ∃ u ∈ scanUpserts library cfgIsTruth config,
      u.key = key ∧ u.valueDisk = v ∧ u.isActive = true ∧ u.cfgIsTruth = cfgIsTruth := by
  obtain ⟨keys, hkeys, hv⟩ := Option.bind_eq_some_iff.mp h
  split at hv
  · cases hv
  · next hder =>
    refine ⟨_, List.mem_append_left _ (List.mem_flatMap.mpr
      ⟨(key.1, keys), Dict.get?_eq_some_iff.mp hkeys, mem_configUpserts.mpr (Or.inl
        ⟨key.2, v, Dict.get?_eq_some_iff.mp hv, by simpa using hder, rfl⟩)⟩), rfl, rfl, rfl, rfl⟩

/-- and no other setting is. -/
theorem isActive_of_not_scanned {u : Upsert} (hu : u ∈ scanUpserts library cfgIsTruth config)
    (h : Config.scanned? config u.key = none) : u.isActive = false := by
  rcases List.mem_append.mp hu with hu | hu
  · obtain ⟨⟨s, keys⟩, hmem, hu⟩ := List.mem_flatMap.mp hu
    obtain ⟨k, v, hkv, hder, rfl⟩ | ⟨k, v, -, -, rfl⟩ := mem_configUpserts.mp hu
    · have hscanned : Config.scanned? config (s, k) = some v := by
        rw [Config.scanned?, Dict.get?_eq_some_iff.mpr hmem, Option.bind_some,
          if_neg (by rw [hder]; decide)]
        exact Dict.get?_eq_some_iff.mpr hkv
      exact absurd (h.symm.trans hscanned) (by simp)
    · rfl
  · obtain ⟨⟨s, keys⟩, -, hu⟩ := List.mem_flatMap.mp hu
    obtain ⟨-, k, v, -, -, -, rfl⟩ := mem_unsetUpserts.mp hu
    rfl

/-- A setting that is read from `config.cfg` is upserted with its value there. -/
theorem valueDisk_of_scanned {u : Upsert} (hu : u ∈ scanUpserts library cfgIsTruth config)
    {v : String} (h : Config.scanned? config u.key = some v) :
    u.valueDisk = v ∧ u.isActive = true ∧ u.cfgIsTruth = cfgIsTruth := by
  obtain ⟨u', hu', hkey, hdisk, hactive, htruth⟩ := exists_upsert_of_scanned library cfgIsTruth h
  obtain rfl : u' = u :=
    List.inj_on_of_nodup_map (nodup_scanUpserts library cfgIsTruth config) hu' hu hkey
  exact ⟨hdisk, hactive, htruth⟩

/-- An upsert of an inactive setting is for a derived key or for an unset one. -/
theorem derived_or_unset {u : Upsert} (hu : u ∈ scanUpserts library cfgIsTruth config)
    (h : u.isActive = false) :
    u.cfgIsTruth = true ∨ u.cfgIsTruth = false ∧ u.valueDisk = "" ∧
      ∃ v, Config.unset? library config u.key = some v := by
  rcases List.mem_append.mp hu with hu | hu
  · obtain ⟨⟨s, keys⟩, -, hu⟩ := List.mem_flatMap.mp hu
    obtain ⟨k, v, -, -, rfl⟩ | ⟨k, v, -, -, rfl⟩ := mem_configUpserts.mp hu
    · cases h
    · exact Or.inl rfl
  · obtain ⟨⟨s, keys⟩, hmem, hu⟩ := List.mem_flatMap.mp hu
    obtain ⟨hs, k, v, hkv, hder, hk, rfl⟩ := mem_unsetUpserts.mp hu
    refine Or.inr ⟨rfl, rfl, v, ?_⟩
    rw [Config.unset?, Dict.get?_eq_some_iff.mpr hmem, Option.bind_some]
    exact (if_pos ⟨hs, by rw [hder]; rfl, hk⟩).trans (Dict.get?_eq_some_iff.mpr hkv)

variable (library cfgIsTruth) in
/-- A derived setting is upserted with the derived value, staged edits or not, -/
theorem exists_upsert_of_derived {key : SettingKey} {v : String}
    (h : Config.derived? config key = some v) :
    ∃ u ∈ scanUpserts library cfgIsTruth config,
      u.key = key ∧ u.valueDisk = v ∧ u.cfgIsTruth = true := by
  obtain ⟨keys, hkeys, hv⟩ := Option.bind_eq_some_iff.mp h
  dsimp only at hv
  split at hv
  · next hder =>
    simp only [isDerivedKey, decide_eq_true_eq] at hder
    obtain ⟨hname, hk⟩ := hder
    have hmem : (key.2, v) ∈
        [("host", (deriveDashboardHostPort ((keys.get? "metrics_port").getD "")).1),
          ("port", (deriveDashboardHostPort ((keys.get? "metrics_port").getD "")).2)] := by
      obtain rfl := Option.some.inj hv
      rcases hk with hk | hk
      · simp [hk]
      · simp [hk]
    exact ⟨_, List.mem_append_left _ (List.mem_flatMap.mpr
      ⟨(key.1, keys), Dict.get?_eq_some_iff.mp hkeys, mem_configUpserts.mpr (Or.inr
        ⟨key.2, v, hmem, hname, rfl⟩)⟩), rfl, rfl, rfl⟩
  · cases hv

/-- and it is the only one that is upserted so. -/
theorem derived_of_cfgIsTruth {u : Upsert} (hu : u ∈ scanUpserts library false config)
    (h : u.cfgIsTruth = true) : Config.derived? config u.key = some u.valueDisk := by
  rcases List.mem_append.mp hu with hu | hu
  · obtain ⟨⟨s, keys⟩, hmem, hu⟩ := List.mem_flatMap.mp hu
    obtain ⟨k, v, -, -, rfl⟩ | ⟨k, v, hkv, hname, rfl⟩ := mem_configUpserts.mp hu
    · cases h
    · rw [Config.derived?, Dict.get?_eq_some_iff.mpr hmem, Option.bind_some]
      rcases List.mem_cons.mp hkv with heq | hkv
      · obtain ⟨rfl, rfl⟩ := Prod.mk.inj heq
        simp [isDerivedKey, hname]
      · obtain ⟨rfl, rfl⟩ := Prod.mk.inj (List.mem_singleton.mp hkv)
        simp [isDerivedKey, hname]
  · obtain ⟨⟨s, keys⟩, -, hu⟩ := List.mem_flatMap.mp hu
    obtain ⟨-, k, v, -, -, -, rfl⟩ := mem_unsetUpserts.mp hu
    cases h

/-! ## What a pass leaves -/

/-- A pass upserts its rows, and marks the others. -/
theorem scanSettings_eq : scanSettings library cfgIsTruth config table =
    markOrphanedSettings ((scanUpserts library cfgIsTruth config).map Upsert.key)
      (table.upsertAll Upsert.key Upsert.row (scanUpserts library cfgIsTruth config)) := rfl

/-- A pass leaves what an upsert for the key makes of its row, -/
theorem get?_scanSettings_of_mem {u : Upsert} (hu : u ∈ scanUpserts library cfgIsTruth config) :
    (scanSettings library cfgIsTruth config table).get? u.key =
      some (u.row (table.get? u.key)) := by
  rw [scanSettings_eq, markOrphanedSettings, Dict.get?_mapValues,
    Dict.get?_upsertAll_of_mem (nodup_scanUpserts library cfgIsTruth config) hu,
    Option.map_some, if_pos (List.mem_map_of_mem hu)]

/-- and an orphan if there is none. -/
theorem get?_scanSettings_of_notMem {key : SettingKey}
    (h : key ∉ (scanUpserts library cfgIsTruth config).map Upsert.key) :
    (scanSettings library cfgIsTruth config table).get? key =
      (table.get? key).map fun row => { row with isOrphan := true } := by
  rw [scanSettings_eq, markOrphanedSettings, Dict.get?_mapValues, Dict.get?_upsertAll_of_notMem h]
  congr 1
  funext row
  exact if_neg h

/-- The staged value a pass leaves in a row. -/
theorem valueStaged_scanSettings {key : SettingKey} {row : Setting}
    (h : table.get? key = some row) :
    ((scanSettings library false config table).get? key).map Setting.valueStaged =
      some ((Config.derived? config key).or row.valueStaged) := by
  by_cases hkey : key ∈ (scanUpserts library false config).map Upsert.key
  · obtain ⟨u, hu, rfl⟩ := List.mem_map.mp hkey
    rw [get?_scanSettings_of_mem hu, h, Option.map_some]
    cases htruth : u.cfgIsTruth with
    | true =>
      rw [derived_of_cfgIsTruth hu htruth]
      simp [Upsert.row, htruth]
    | false =>
      have hnone : Config.derived? config u.key = none := by
        by_contra hne
        obtain ⟨v, hv⟩ := Option.ne_none_iff_exists'.mp hne
        obtain ⟨u', hu', hkey', -, htruth'⟩ :=
          exists_upsert_of_derived library false hv
        obtain rfl : u' = u :=
          List.inj_on_of_nodup_map (nodup_scanUpserts library false config) hu' hu hkey'
        exact absurd (htruth.symm.trans htruth') (by decide)
      rw [hnone]
      simp [Upsert.row, htruth, Setting.markDirty]
  · have hnone : Config.derived? config key = none := by
      by_contra hne
      obtain ⟨v, hv⟩ := Option.ne_none_iff_exists'.mp hne
      obtain ⟨u, hu, rfl, -, -⟩ :=
        exists_upsert_of_derived library false hv
      exact hkey (List.mem_map_of_mem hu)
    rw [get?_scanSettings_of_notMem hkey, h, hnone]
    rfl

/-- A pass keeps the rows in their order. -/
theorem keys_prefix_scanSettings :
    table.keys <+: (scanSettings library cfgIsTruth config table).keys := by
  rw [scanSettings_eq, markOrphanedSettings, Dict.keys_mapValues]
  exact Dict.keys_prefix_upsertAll _ _

/-- **After a pass** a commit writes the settings of `config.cfg`, each with its staged value if it
has one and the pass keeps it. -/
theorem written?_scanSettings (key : SettingKey) :
    (scanSettings library cfgIsTruth config table).written? key =
      (Config.scanned? config key).bind fun v =>
        if key.2 ∈ removedKeys then none
        else some ((if cfgIsTruth then none
          else (table.get? key).bind Setting.valueStaged).getD v) := by
  cases hscanned : Config.scanned? config key with
  | none =>
    rw [Option.bind_none, SettingTable.written?]
    by_cases hkey : key ∈ (scanUpserts library cfgIsTruth config).map Upsert.key
    · obtain ⟨u, hu, rfl⟩ := List.mem_map.mp hkey
      have hinactive : (u.row (table.get? u.key)).isActive = false := by
        rw [Upsert.isActive_row, isActive_of_not_scanned hu hscanned]
      rw [get?_scanSettings_of_mem hu, Option.bind_some, if_neg (by rw [hinactive]; simp)]
    · rw [get?_scanSettings_of_notMem hkey]
      cases table.get? key with
      | none => rfl
      | some row => exact if_neg (by simp)
  | some v =>
    obtain ⟨u, hu, rfl, rfl, hactive, rfl⟩ :=
      exists_upsert_of_scanned library cfgIsTruth hscanned
    rw [SettingTable.written?, get?_scanSettings_of_mem hu, Option.bind_some, Option.bind_some,
      Upsert.isActive_row, Upsert.isOrphan_row, hactive]
    by_cases hkey : u.key.2 ∈ removedKeys
    · rw [if_neg fun h => h.2.2 hkey, if_pos hkey]
    · rw [if_pos ⟨rfl, rfl, hkey⟩, if_neg hkey, Upsert.written_row]

end ProtocolGateway
