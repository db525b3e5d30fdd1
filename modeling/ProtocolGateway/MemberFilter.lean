import ProtocolGateway.Decode

/-!
# Filtering for a member

`_filter_for_member` decides which metrics of a read a member's bridges get. With a variable mask
those are the metrics whose name, or whose name without `_desc`, is a line of the mask. Without one
they are the metrics of the member's own registry map, or all of them if it has none, apart from
screened synthetic fields.

The mask has been applied before, by `load__registry`, which keeps an entry if the mask has either
of its names, with or without the `_l` suffix. `masks_agree_iff` says when the two agree.
-/

namespace ProtocolGateway

/-- `name[:-5]` of a name that ends in `_desc`. -/
def dropDesc? (name : String) : Option String :=
  if "_desc".toList.isSuffixOf name.toList then
    some (String.ofList (name.toList.take (name.toList.length - 5)))
  else none

/-- The metric a metric describes is in the mask. -/
def describesListed (mask : List String) (key : String) : Bool :=
  (dropDesc? (lowerText key)).any mask.contains

/-- The mask has a metric's name, or that of the metric it describes. -/
def passesMask (mask : List String) (key : String) : Bool :=
  mask.contains (lowerText key) || describesListed mask key

/-- `_load_filter_file`: the lines of a mask file, stripped and lowered, without blank lines and
comments. -/
def loadFilterFile (lines : List String) : List String :=
  (lines.map fun line => Text.lower (Text.strip line.toList)).filterMap fun line =>
    if line = [] ∨ line.head? = some '#' then none else some (String.ofList line)

/-- What `_filter_for_member` looks at in a transport. -/
structure Member where
  protocolSettings : Option ProtocolSettings
  /-- the loaded registry map of each type -/
  registryMap : RegistryType → List RegistryMapEntry
  /-- the fields `post_process_data` injects -/
  syntheticFieldNames : List String := []
  /-- the fields the screen file names after `synthetic:` -/
  syntheticScreen : List String := []

namespace Member

variable (member : Member)

/-- The registry types, in the order of `Registry_Type`. -/
def registryTypes : List RegistryType := [.customBus, .coil, .discrete, .holding, .input]

/-- `synthetic_forwarded`. -/
def syntheticForwarded (ps : ProtocolSettings) (key : String) : Bool :=
  if ps.variableMask ≠ [] then ps.variableMask.contains (lowerText key)
  else !member.syntheticScreen.contains (lowerText key)

/-- `_synthetic_ok`. -/
def syntheticOk (key : String) : Bool :=
  match member.protocolSettings with
  | none => true
  | some ps => member.syntheticForwarded ps key

/-- `k.lower() in synthetic`. -/
def isSynthetic (key : String) : Bool :=
  (member.syntheticFieldNames.map lowerText).contains (lowerText key)

/-- `member_keys`: the variable names of the registry map. -/
def memberKeys : List String :=
  match member.protocolSettings with
  | none => []
  | some _ => ((registryTypes.flatMap member.registryMap).map
      RegistryMapEntry.variableName).filter (· ≠ "")

/-- Whether a metric is forwarded for the member. -/
def forwards (key : String) : Bool :=
  let unmasked :=
    if member.memberKeys = [] then !member.isSynthetic key || member.syntheticOk key
    else member.memberKeys.contains key || (member.isSynthetic key && member.syntheticOk key)
  match member.protocolSettings with
  | some ps => if ps.variableMask ≠ [] then passesMask ps.variableMask key else unmasked
  | none => unmasked

/-- `_filter_for_member`. -/
def filterForMember {V : Type} (fullData : Dict String V) : Dict String V :=
  fullData.filter fun kv => member.forwards kv.1

variable {member}

/-- The filter keeps the metrics that are forwarded. -/
theorem mem_keys_filterForMember {V : Type} {fullData : Dict String V} {key : String} :
    key ∈ (member.filterForMember fullData).keys ↔ key ∈ fullData.keys ∧ member.forwards key := by
  constructor
  · intro h
    obtain ⟨v, hv⟩ := Dict.mem_keys.mp h
    obtain ⟨hmem, hforwards⟩ := List.mem_filter.mp hv
    exact ⟨Dict.mem_keys.mpr ⟨v, hmem⟩, hforwards⟩
  · rintro ⟨h, hforwards⟩
    obtain ⟨v, hv⟩ := Dict.mem_keys.mp h
    exact Dict.mem_keys.mpr ⟨v, List.mem_filter.mpr ⟨hv, hforwards⟩⟩

/-- Under a mask, the mask alone decides. -/
theorem forwards_of_mask {ps : ProtocolSettings} (hps : member.protocolSettings = some ps)
    (hmask : ps.variableMask ≠ []) (key : String) :
    member.forwards key = passesMask ps.variableMask key := by
  unfold forwards
  rw [hps]
  exact if_pos hmask

/-- Without a mask, every metric of the member's own map is forwarded. -/
theorem forwards_of_entry {ps : ProtocolSettings} (hps : member.protocolSettings = some ps)
    (hmask : ps.variableMask = []) {registryType : RegistryType} {e : RegistryMapEntry}
    (he : e ∈ member.registryMap registryType) (hname : e.variableName ≠ "") :
    member.forwards e.variableName = true := by
  have htype : registryType ∈ registryTypes := by cases registryType <;> decide
  have hkey : e.variableName ∈ member.memberKeys := by
    unfold memberKeys
    rw [hps]
    exact List.mem_filter.mpr ⟨List.mem_map_of_mem (List.mem_flatMap.mpr ⟨_, htype, he⟩),
      by simpa using hname⟩
  have hne : member.memberKeys ≠ [] := List.ne_nil_of_mem hkey
  unfold forwards
  rw [hps]
  dsimp only
  rw [if_neg (not_not.mpr hmask), if_neg hne]
  simp [hkey]

end Member

/-! ## Stripped lines -/

/-- A mask whose lines have no blanks around them. -/
def Stripped (mask : List String) : Prop := ∀ line ∈ mask, Text.strip line.toList = line.toList

/-- What `_load_filter_file` returns is stripped. -/
theorem stripped_loadFilterFile (lines : List String) : Stripped (loadFilterFile lines) := by
  intro line hline
  obtain ⟨l, hl, hkept⟩ := List.mem_filterMap.mp hline
  obtain ⟨text, -, rfl⟩ := List.mem_map.mp hl
  split at hkept
  · exact absurd hkept (by simp)
  · obtain rfl := Option.some.inj hkept
    rw [String.toList_ofList, Text.strip_lower, Text.strip_strip]

/-- An entry is named by a stripped mask that has its lowered variable name. -/
theorem named_of_contains {mask : List String} (hmask : Stripped mask) {e : RegistryMapEntry}
    (h : mask.contains (lowerText e.variableName) = true) :
    ProtocolSettings.named mask e = true := by
  have hline := hmask _ (List.contains_iff_mem.mp h)
  rw [lowerText, String.toList_ofList, Text.strip_lower] at hline
  have hname : String.ofList (Text.lower (Text.strip e.variableName.toList)) =
      lowerText e.variableName := by rw [hline, lowerText]
  unfold ProtocolSettings.named
  dsimp only
  rw [hname, h]
  simp

/-! ## The two masks -/

namespace ProtocolSettings

variable (ps : ProtocolSettings) (csv : RegistryType → List Row)

/-- An entry of the loaded registry map. -/
def Kept (e : RegistryMapEntry) : Prop :=
  ∃ registryType items, ps.loadRegistry registryType (csv registryType) = some items ∧ e ∈ items

/-- A metric the mask excludes: entries of the protocol have its name, but none that is kept. -/
def Excluded (key : String) : Prop :=
  (∃ registryType raw, processRows registryType ps.textKeys [] (csv registryType) = some raw ∧
    ∃ e ∈ mergePairs raw, e.variableName = key) ∧
  ∀ e, ps.Kept csv e → e.variableName ≠ key

variable (host : Host) (snapshot : RegistryType → Snapshot)

/-- A metric that `process_registery` decodes in a cycle. -/
def DecodedMetric (key : String) : Prop :=
  ∃ registryType items info, ps.loadRegistry registryType (csv registryType) = some items ∧
    ps.processRegistery host (snapshot registryType) items = .ok info ∧ key ∈ info.keys

/-- The filter forwards what the loader keeps, and nothing the loader excludes. -/
structure MasksAgree {V : Type} (member : Member) (fullData : Dict String V) : Prop where
  kept : ∀ e, ps.Kept csv e → ps.DecodedMetric csv host snapshot e.variableName →
    e.variableName ∈ (member.filterForMember fullData).keys
  excluded : ∀ key, ps.Excluded csv key → key ∉ (member.filterForMember fullData).keys

variable {ps csv host snapshot}

/-- What the mask excludes it does not name. -/
theorem not_contains_of_excluded (hmask : ps.variableMask ≠ []) (hstripped : Stripped ps.variableMask)
    {key : String} (h : ps.Excluded csv key) : ps.variableMask.contains (lowerText key) = false := by
  obtain ⟨⟨registryType, raw, hraw, e, he, rfl⟩, hnone⟩ := h
  rw [← Bool.not_eq_true]
  intro hlisted
  refine hnone e ⟨registryType, _, congrArg (Option.map _) hraw, ?_⟩ rfl
  refine List.mem_append_left _ ?_
  unfold applyFilters
  rw [if_pos hmask]
  exact List.mem_filter.mpr ⟨he, named_of_contains hstripped hlisted⟩

/-- **The masks.** What the loader keeps and the filter forwards agree if and only if every kept
metric that is decoded has its variable name, or the name it describes, in the mask, and no excluded
metric among the data describes a name in the mask. -/
theorem masks_agree_iff {V : Type} {member : Member} {fullData : Dict String V}
    (hps : member.protocolSettings = some ps) (hmask : ps.variableMask ≠ [])
    (hstripped : Stripped ps.variableMask)
    (hdata : ∀ key, ps.DecodedMetric csv host snapshot key → key ∈ fullData.keys) :
    ps.MasksAgree csv host snapshot member fullData ↔
      (∀ e, ps.Kept csv e → ps.DecodedMetric csv host snapshot e.variableName →
        ps.variableMask.contains (lowerText e.variableName) ∨
          describesListed ps.variableMask e.variableName) ∧
      ∀ key, ps.Excluded csv key → key ∈ fullData.keys → ¬describesListed ps.variableMask key := by
  have hkeys (key : String) : key ∈ (member.filterForMember fullData).keys ↔
      key ∈ fullData.keys ∧ (ps.variableMask.contains (lowerText key) ∨
        describesListed ps.variableMask key) := by
    rw [Member.mem_keys_filterForMember, Member.forwards_of_mask hps hmask, passesMask,
      Bool.or_eq_true]
  constructor
  · intro h
    refine ⟨fun e he hdecoded => ((hkeys _).mp (h.kept e he hdecoded)).2, ?_⟩
    intro key hkey hfull hdescribes
    exact h.excluded key hkey ((hkeys key).mpr ⟨hfull, Or.inr hdescribes⟩)
  · rintro ⟨hkept, hexcluded⟩
    refine ⟨fun e he hdecoded => (hkeys _).mpr ⟨hdata _ hdecoded, hkept e he hdecoded⟩, ?_⟩
    intro key hkey hforwarded
    obtain ⟨hfull, hlisted | hdescribes⟩ := (hkeys key).mp hforwarded
    · rw [not_contains_of_excluded hmask hstripped hkey] at hlisted
      exact absurd hlisted (by simp)
    · exact hexcluded key hkey hfull hdescribes

/-- A protocol with holding registers only. -/
def holdingOnly (rows : List Row) : RegistryType → List Row
  | .holding => rows
  | _ => []

/-- A protocol with a mask. -/
def maskedSettings (mask : List String) : ProtocolSettings := { variableMask := mask }

/-- A member with a mask. -/
def maskedMember (mask : List String) : Member where
  protocolSettings := some (maskedSettings mask)
  registryMap _ := []

/-- Every register reads 5. -/
def exampleSnapshot : RegistryType → Snapshot := fun _ => .words fun _ => some 5

theorem loadRegistry_nil (registryType : RegistryType) :
    ps.loadRegistry registryType [] = some [] := by
  have hfilters : ps.applyFilters [] = [] := by
    unfold applyFilters
    split
    · rfl
    · split
      · rfl
      · rfl
  show some (ps.addCodeDescriptionEntries (ps.applyFilters [])) = some []
  rw [hfilters]
  rfl

/-- The entries of a protocol with holding registers only. -/
theorem kept_holdingOnly {rows : List Row} {items : List RegistryMapEntry}
    (hload : ps.loadRegistry .holding rows = some items) {e : RegistryMapEntry} :
    ps.Kept (holdingOnly rows) e ↔ e ∈ items := by
  constructor
  · rintro ⟨registryType, items', hload', he⟩
    cases registryType with
    | holding =>
      obtain rfl := Option.some.inj (hload.symm.trans hload')
      exact he
    | _ =>
      obtain rfl := Option.some.inj ((loadRegistry_nil _).symm.trans hload')
      exact absurd he (by simp)
  · exact fun he => ⟨.holding, items, hload, he⟩

/-- The decoded metrics of a protocol with holding registers only. -/
theorem decodedMetric_holdingOnly {rows : List Row} {info : Dict String PyValue}
    (h : (ps.loadRegistry .holding rows).map (ps.processRegistery host (snapshot .holding)) =
      some (.ok info)) {key : String} :
    ps.DecodedMetric (holdingOnly rows) host snapshot key ↔ key ∈ info.keys := by
  obtain ⟨items, hload, hinfo⟩ := Option.map_eq_some_iff.mp h
  constructor
  · rintro ⟨registryType, items', info', hload', hinfo', hkey⟩
    cases registryType with
    | holding =>
      obtain rfl := Option.some.inj (hload.symm.trans hload')
      obtain rfl := Except.ok.inj (hinfo.symm.trans hinfo')
      exact hkey
    | _ =>
      obtain rfl := Option.some.inj ((loadRegistry_nil _).symm.trans hload')
      have hempty : Dict.empty = info' := Except.ok.inj hinfo'
      rw [← hempty] at hkey
      exact absurd hkey (by simp [Dict.keys])
  · exact fun hkey => ⟨.holding, items, info, hload, hinfo, hkey⟩

/-- Two holding registers. -/
def exampleRows : List Row :=
  [{ cell := "40", variableName := "vbat" }, { cell := "41", variableName := "soc" }]

/-- A metric that the mask lists under its variable name is forwarded, and the other one is not. -/
theorem masks_agree_on_names : (maskedSettings ["vbat"]).MasksAgree
    (holdingOnly exampleRows) default exampleSnapshot (maskedMember ["vbat"])
    (Dict.empty.set "vbat" (PyValue.int 5)) := by
  have hload : (maskedSettings ["vbat"]).loadRegistry .holding
      exampleRows = some _ := rfl
  have hinfo : ((maskedSettings ["vbat"]).loadRegistry .holding exampleRows).map
      ((maskedSettings ["vbat"]).processRegistery default (exampleSnapshot .holding)) =
        some (.ok (Dict.empty.set "vbat" (.int 5))) := rfl
  refine (masks_agree_iff rfl (by decide) (stripped_loadFilterFile ["vbat"]) fun key hkey => ?_).mpr
    ⟨fun e he _ => ?_, fun key hkey _ => ?_⟩
  · exact (decodedMetric_holdingOnly hinfo).mp hkey
  · have he := List.mem_singleton.mp ((kept_holdingOnly hload).mp he)
    rw [he]
    decide
  · obtain ⟨⟨registryType, raw, hraw, e, he, rfl⟩, -⟩ := hkey
    cases registryType with
    | holding =>
      have hnames : (processRows .holding false [] exampleRows).map (fun raw =>
          (mergePairs raw).map RegistryMapEntry.variableName) = some ["vbat", "soc"] := rfl
      rw [show processRows .holding false [] exampleRows = some raw from hraw] at hnames
      have hname : e.variableName ∈ ["vbat", "soc"] :=
        Option.some.inj hnames ▸ List.mem_map_of_mem he
      revert hname
      generalize e.variableName = name
      rw [List.mem_cons, List.mem_singleton]
      rintro (rfl | rfl) <;> decide
    | _ =>
      obtain rfl := Option.some.inj hraw
      exact absurd he (by simp [mergePairs])

/-- Two holding registers of one 32-bit metric. -/
def pairRows : List Row :=
  [{ cell := "40", variableName := "echg_all_l" }, { cell := "41", variableName := "echg_all_h" }]

/-- The loader keeps a pair of registers for the `_l` line of the mask, which has not been stripped
of its suffix; the filter drops the metric. -/
theorem kept_pair_is_dropped : ¬ ∀ (ps : ProtocolSettings) (csv : RegistryType → List Row)
    (host : Host) (snapshot : RegistryType → Snapshot) (member : Member)
    (fullData : Dict String PyValue), member.protocolSettings = some ps → ps.variableMask ≠ [] →
    Stripped ps.variableMask →
    (∀ key, ps.DecodedMetric csv host snapshot key → key ∈ fullData.keys) →
    ps.MasksAgree csv host snapshot member fullData := by
  intro hall
  have hload : (maskedSettings ["echg_all_l"]).loadRegistry .holding
      pairRows = some _ := rfl
  have hinfo : ((maskedSettings ["echg_all_l"]).loadRegistry .holding pairRows).map
      ((maskedSettings ["echg_all_l"]).processRegistery default (exampleSnapshot .holding)) =
        some (.ok (Dict.empty.set "echg_all" (.int 327685))) := rfl
  have hagree := hall (maskedSettings ["echg_all_l"]) (holdingOnly pairRows) default
    exampleSnapshot (maskedMember ["echg_all_l"]) (Dict.empty.set "echg_all" (PyValue.int 327685))
    rfl (by decide) (stripped_loadFilterFile ["echg_all_l"]) fun key => (decodedMetric_holdingOnly hinfo).mp
  have hforwarded := hagree.kept _ ((kept_holdingOnly hload).mpr List.mem_cons_self)
    ((decodedMetric_holdingOnly hinfo).mpr (by decide))
  exact absurd hforwarded (by decide)

end ProtocolSettings

end ProtocolGateway
