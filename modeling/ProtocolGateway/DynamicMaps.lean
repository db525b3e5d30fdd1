import ProtocolGateway.TemplateRows
import ProtocolGateway.Lib.Runs
import Mathlib.Logic.Function.Basic

/-!
# Dynamic register maps

A protocol with template rows is loaded with the default anchors of its JSON file. `apply_anchors`
lays the anchors of a discovery over these defaults and loads the maps with templates again. It does
nothing if the anchors are those of the last load.

The anchors are replaced before the maps are, and the code tables are the one thing that a load adds
to and never takes away. `not_recoverable` says what comes of the first: a call that raises cannot be
repeated. `sameMaps_of_reach` says when nothing comes of the second.
-/

namespace ProtocolGateway

open Outcomes Runs

/-! ## Anchors -/

/-- `v == w`. An object is equal to itself even where its number is not. -/
def PyValue.same : PyValue → PyValue → Bool
  | .int i, .int j => i = j
  | .str s, .str t => s = t
  | .float f, .float g => f.toBits = g.toBits || f == g
  | .int i, .float f | .float f, .int i => isInteger f && (truncate f).toOption = some i
  | _, _ => false

/-- Two entries of a dictionary are equal, or both missing. -/
def sameAnchor : Option PyValue → Option PyValue → Bool
  | some v, some w => v.same w
  | none, none => true
  | _, _ => false

/-- `a == b` for two dictionaries. -/
def sameAnchors (a b : Dict String PyValue) : Bool :=
  (a.keys ++ b.keys).all fun name => sameAnchor (a.get? name) (b.get? name)

theorem PyValue.same_refl (v : PyValue) : v.same v = true := by
  cases v <;> simp [PyValue.same]

theorem sameAnchor_refl (v : Option PyValue) : sameAnchor v v = true := by
  cases v with
  | none => rfl
  | some v => exact v.same_refl

theorem sameAnchors_iff {a b : Dict String PyValue} :
    sameAnchors a b = true ↔ ∀ name, sameAnchor (a.get? name) (b.get? name) = true := by
  unfold sameAnchors
  rw [List.all_eq_true]
  refine ⟨fun h name => ?_, fun h name _ => h name⟩
  by_cases hmem : name ∈ a.keys ++ b.keys
  · exact h name hmem
  · rw [List.mem_append, not_or] at hmem
    rw [Dict.get?_eq_none_iff.mpr hmem.1, Dict.get?_eq_none_iff.mpr hmem.2]
    rfl

theorem sameAnchors_of_get? {a b : Dict String PyValue} (h : a.get? = b.get?) :
    sameAnchors a b = true := by
  rw [sameAnchors_iff]
  intro name
  rw [h]
  exact sameAnchor_refl _

theorem sameAnchors_congr {a a' b b' : Dict String PyValue} (ha : a.get? = a'.get?)
    (hb : b.get? = b'.get?) : sameAnchors a b = sameAnchors a' b' := by
  rw [Bool.eq_iff_iff, sameAnchors_iff, sameAnchors_iff, ha, hb]

/-! ## The instance -/

/-- What a protocol's files and settings fix. -/
structure DynamicProtocol where
  /-- the codes are those of the JSON file -/
  settings : ProtocolSettings
  host : RowHost
  anchorDefaults : Dict String PyValue

/-- The fields of a `protocol_settings` instance that loading maps changes. -/
structure DynamicState where
  anchors : Dict String PyValue
  codes : Codes
  dynamicRegistryTypes : List RegistryType := []
  dynamicRegistryRows : List (RegistryType × CsvRow) := []
  registryMap : RegistryType → Option (List RegistryMapEntry) := fun _ => none
  registryMapSize : RegistryType → Option Int := fun _ => none
  registryMapRanges : RegistryType → Option (List (Int × Int)) := fun _ => none

/-- A call of `apply_anchors`. -/
structure AnchorCall where
  discovered : Dict String PyValue
  /-- `pattern.match` for each of the patterns -/
  ownedPatterns : List (String → Bool) := []

/-- The register types, in the order of their values. -/
def RegistryType.all : List RegistryType := [.customBus, .coil, .discrete, .holding, .input]

theorem RegistryType.mem_all (r : RegistryType) : r ∈ RegistryType.all := by cases r <;> decide

/-- The ranges of the first read cycle: `range` raises for a step of zero, and is empty for a
negative one. -/
def ProtocolSettings.initialRanges (ps : ProtocolSettings) (items : List RegistryMapEntry) :
    Except PyError (List (Int × Int)) :=
  if maxBatchSize ps = 0 then .error .valueError
  else if maxBatchSize ps < 0 then .ok []
  else .ok (calculateRegistryRanges (maxBatchSize ps) items
    (ProtocolSettings.registryMapSize items) true 0).1

/-- A computation that leaves the instance in a state even when it raises. -/
abbrev Changing (σ : Type) := Except (PyError × DynamicState) σ

/-- The state in which the instance is left. -/
def Changing.left : Changing DynamicState → DynamicState
  | .ok s => s
  | .error (_, s) => s

/-- The instance after a run of the loader. -/
def DynamicState.collect (s : DynamicState) (registryType : RegistryType) (loaded : LoadState) :
    DynamicState :=
  { s with
    codes := loaded.codes
    dynamicRegistryTypes := s.dynamicRegistryTypes.filter (· ≠ registryType) ++
      if loaded.template then [registryType] else []
    dynamicRegistryRows := s.dynamicRegistryRows.filter (fun row => row.1 ≠ registryType) ++
      loaded.deferred.map fun row => (registryType, row) }

namespace DynamicProtocol

variable (p : DynamicProtocol) (files : RegistryType → MapFile)

/-- `load_registry_map`. -/
def loadRegistryMap (s : DynamicState) (registryType : RegistryType) : Changing DynamicState :=
  if (files registryType).isMissing then .ok s
  else
    match loadRegistryFile p.host p.settings registryType (files registryType) s.codes
        s.anchors.get? with
    | .error (err, loaded) => .error (err, s.collect registryType loaded)
    | .ok (loaded, items) =>
      let s := { s.collect registryType loaded with
        registryMap := Function.update s.registryMap registryType (some items)
        registryMapSize := Function.update s.registryMapSize registryType
          (some (ProtocolSettings.registryMapSize items)) }
      match p.settings.initialRanges items with
      | .error err => .error (err, s)
      | .ok ranges => .ok { s with
          registryMapRanges := Function.update s.registryMapRanges registryType (some ranges) }

/-- `__init__`, from the anchors on. -/
def fresh : Changing DynamicState :=
  RegistryType.all.foldlM (p.loadRegistryMap files)
    { anchors := p.anchorDefaults, codes := p.settings.codes }

/-- `rebuild_dynamic_maps`. -/
def rebuildDynamicMaps (s : DynamicState) : Changing DynamicState :=
  (RegistryType.all.filter (· ∈ s.dynamicRegistryTypes)).foldlM (p.loadRegistryMap files) s

/-- The anchors of a call: the defaults that the discovery does not own, and what it found. -/
def mergedAnchors (call : AnchorCall) : Dict String PyValue :=
  (p.anchorDefaults.filter fun kv => !call.ownedPatterns.any (· kv.1)).update
    call.discovered.items

/-- `apply_anchors`: whether the maps were rebuilt, and the instance. -/
def applyAnchors (s : DynamicState) (call : AnchorCall) : Changing (Bool × DynamicState) :=
  if sameAnchors (p.mergedAnchors call) s.anchors then .ok (false, s)
  else (p.rebuildDynamicMaps files { s with anchors := p.mergedAnchors call }).map fun s =>
    (true, s)

/-- The instance after a call, returned or raised. -/
def afterCall (s : DynamicState) (call : AnchorCall) : DynamicState :=
  Changing.left ((p.applyAnchors files s call).map Prod.snd)

/-! ## A call that raises -/

variable {p files}

/-- Loading a map leaves the anchors alone. -/
theorem anchors_loadRegistryMap (s : DynamicState) (r : RegistryType) :
    (p.loadRegistryMap files s r).left.anchors = s.anchors := by
  unfold loadRegistryMap
  cases (files r).isMissing with
  | true => rfl
  | false =>
    cases loadRegistryFile p.host p.settings r (files r) s.codes s.anchors.get? with
    | error raised => rfl
    | ok loaded =>
      dsimp only
      cases p.settings.initialRanges loaded.2 <;> rfl

theorem anchors_foldlM (types : List RegistryType) (s : DynamicState) :
    (types.foldlM (p.loadRegistryMap files) s).left.anchors = s.anchors := by
  induction types generalizing s with
  | nil => rfl
  | cons r types ih =>
    have hload := @anchors_loadRegistryMap p files s r
    rw [List.foldlM_cons]
    cases hbetween : p.loadRegistryMap files s r with
    | error raised =>
      rw [hbetween] at hload
      exact hload
    | ok between =>
      rw [hbetween] at hload
      exact (ih between).trans hload

/-- A call that raises leaves its anchors behind. -/
theorem anchors_of_raise {s s' : DynamicState} {call : AnchorCall} {err : PyError}
    (h : p.applyAnchors files s call = .error (err, s')) :
    sameAnchors (p.mergedAnchors call) s.anchors = false ∧
      s'.anchors = p.mergedAnchors call := by
  unfold applyAnchors at h
  split at h
  · cases h
  · next hnew =>
    refine ⟨Bool.eq_false_iff.mpr hnew, ?_⟩
    cases hrebuild : p.rebuildDynamicMaps files { s with anchors := p.mergedAnchors call } with
    | ok s'' =>
      rw [hrebuild] at h
      cases h
    | error raised =>
      rw [hrebuild] at h
      obtain rfl : raised = (err, s') := Except.error.inj h
      have hleft : (p.rebuildDynamicMaps files
          { s with anchors := p.mergedAnchors call }).left.anchors = p.mergedAnchors call :=
        anchors_foldlM _ _
      rwa [hrebuild] at hleft

/-- The call again: nothing is done, whatever the files are by then. -/
theorem applyAnchors_of_raise {s s' : DynamicState} {call : AnchorCall} {err : PyError}
    (h : p.applyAnchors files s call = .error (err, s')) (later : RegistryType → MapFile) :
    p.applyAnchors later s' call = .ok (false, s') := by
  unfold applyAnchors
  rw [if_pos (sameAnchors_of_get? (by rw [(anchors_of_raise h).2]))]

variable (p) in
/-- The maps are as before the call, or a later call with the same anchors rebuilds them. -/
def Recoverable (s s' : DynamicState) (call : AnchorCall) : Prop :=
  (s'.anchors = s.anchors ∧
    (∀ r, r ∈ s'.dynamicRegistryTypes ↔ r ∈ s.dynamicRegistryTypes) ∧
    s'.registryMap = s.registryMap) ∨
  ∃ later s'', p.applyAnchors later s' call = .ok (true, s'')

/-- **A call that raises is not made good.** The instance has its anchors and not its maps, and the
call again finds the anchors equal. -/
theorem not_recoverable {s s' : DynamicState} {call : AnchorCall} {err : PyError}
    (h : p.applyAnchors files s call = .error (err, s')) : ¬p.Recoverable s s' call := by
  rintro (⟨hanchors, -, -⟩ | ⟨later, s'', hretry⟩)
  · obtain ⟨hnew, hleft⟩ := anchors_of_raise h
    rw [← hleft, hanchors, sameAnchors_of_get? rfl] at hnew
    cases hnew
  · rw [applyAnchors_of_raise h later] at hretry
    cases Except.ok.inj hretry

/-! ## What a rebuild depends on -/

/-- Equal but for the maps of some types. Which rows were deferred is left out. -/
structure SameOutside (types : List RegistryType) (s t : DynamicState) : Prop where
  anchors : s.anchors.get? = t.anchors.get?
  codes : s.codes = t.codes
  registryMap : ∀ r ∉ types, s.registryMap r = t.registryMap r
  registryMapSize : ∀ r ∉ types, s.registryMapSize r = t.registryMapSize r
  registryMapRanges : ∀ r ∉ types, s.registryMapRanges r = t.registryMapRanges r

/-- The same anchors, code tables, maps, sizes and ranges. -/
abbrev SameMaps : DynamicState → DynamicState → Prop := SameOutside []

theorem SameOutside.refl (types : List RegistryType) (s : DynamicState) : SameOutside types s s :=
  ⟨rfl, rfl, fun _ _ => rfl, fun _ _ => rfl, fun _ _ => rfl⟩

theorem SameOutside.symm {types : List RegistryType} {s t : DynamicState}
    (h : SameOutside types s t) : SameOutside types t s :=
  ⟨h.anchors.symm, h.codes.symm, fun r hr => (h.registryMap r hr).symm,
    fun r hr => (h.registryMapSize r hr).symm, fun r hr => (h.registryMapRanges r hr).symm⟩

theorem SameOutside.trans {types : List RegistryType} {s t u : DynamicState}
    (h : SameOutside types s t) (h' : SameOutside types t u) : SameOutside types s u :=
  ⟨h.anchors.trans h'.anchors, h.codes.trans h'.codes,
    fun r hr => (h.registryMap r hr).trans (h'.registryMap r hr),
    fun r hr => (h.registryMapSize r hr).trans (h'.registryMapSize r hr),
    fun r hr => (h.registryMapRanges r hr).trans (h'.registryMapRanges r hr)⟩

theorem SameOutside.mono {types types' : List RegistryType} {s t : DynamicState}
    (h : SameOutside types s t) (hsub : types ⊆ types') : SameOutside types' s t :=
  ⟨h.anchors, h.codes, fun r hr => h.registryMap r (mt (@hsub r) hr),
    fun r hr => h.registryMapSize r (mt (@hsub r) hr),
    fun r hr => h.registryMapRanges r (mt (@hsub r) hr)⟩

/-- **Loading a map** that returns. -/
theorem loadRegistryMap_eq_ok_iff {s s' : DynamicState} {r : RegistryType}
    (hfile : (files r).isMissing = false) :
    p.loadRegistryMap files s r = .ok s' ↔ ∃ loaded items ranges,
      loadRegistryFile p.host p.settings r (files r) s.codes s.anchors.get? =
          .ok (loaded, items) ∧
        p.settings.initialRanges items = .ok ranges ∧
        s' = { s.collect r loaded with
          registryMap := Function.update s.registryMap r (some items)
          registryMapSize := Function.update s.registryMapSize r
            (some (ProtocolSettings.registryMapSize items))
          registryMapRanges := Function.update s.registryMapRanges r (some ranges) } := by
  unfold loadRegistryMap
  rw [hfile]
  simp only [Bool.false_eq_true, if_false]
  constructor
  · intro h
    split at h
    · cases h
    · next loaded items hloaded =>
      split at h
      · cases h
      · next ranges hranges =>
        exact ⟨loaded, items, ranges, hloaded, hranges, (Except.ok.inj h).symm⟩
  · rintro ⟨loaded, items, ranges, hloaded, hranges, rfl⟩
    rw [hloaded]
    dsimp only
    rw [hranges]
    rfl

theorem SameOutside.update {r : RegistryType} {types : List RegistryType} {s t : DynamicState}
    (h : SameOutside (r :: types) s t) (loaded : LoadState) (items : List RegistryMapEntry)
    (ranges : List (Int × Int)) :
    SameOutside types
      { s.collect r loaded with
        registryMap := Function.update s.registryMap r (some items)
        registryMapSize := Function.update s.registryMapSize r
          (some (ProtocolSettings.registryMapSize items))
        registryMapRanges := Function.update s.registryMapRanges r (some ranges) }
      { t.collect r loaded with
        registryMap := Function.update t.registryMap r (some items)
        registryMapSize := Function.update t.registryMapSize r
          (some (ProtocolSettings.registryMapSize items))
        registryMapRanges := Function.update t.registryMapRanges r (some ranges) } := by
  have hupdate {α : Type} {f g : RegistryType → Option α} (value : Option α)
      (hfg : ∀ q ∉ r :: types, f q = g q) :
      ∀ q ∉ types, Function.update f r value q = Function.update g r value q := by
    intro q hq
    by_cases heq : q = r
    · rw [heq, Function.update_self, Function.update_self]
    · rw [Function.update_of_ne heq, Function.update_of_ne heq]
      exact hfg q fun hmem => (List.mem_cons.mp hmem).elim heq hq
  exact ⟨h.anchors, rfl, hupdate _ h.registryMap, hupdate _ h.registryMapSize,
    hupdate _ h.registryMapRanges⟩

/-- A load only looks at the anchors and the code tables. -/
theorem sameOutside_loadRegistryMap {r : RegistryType} {types : List RegistryType}
    {s t s' : DynamicState} (hfile : (files r).isMissing = false)
    (h : SameOutside (r :: types) s t) (hs : p.loadRegistryMap files s r = .ok s') :
    ∃ t', p.loadRegistryMap files t r = .ok t' ∧ SameOutside types s' t' := by
  obtain ⟨loaded, items, ranges, hloaded, hranges, rfl⟩ := (loadRegistryMap_eq_ok_iff hfile).mp hs
  rw [h.codes, h.anchors] at hloaded
  exact ⟨_, (loadRegistryMap_eq_ok_iff hfile).mpr ⟨loaded, items, ranges, hloaded, hranges, rfl⟩,
    h.update loaded items ranges⟩

theorem sameOutside_foldlM {types : List RegistryType} {s t s' : DynamicState}
    (hfiles : ∀ r ∈ types, (files r).isMissing = false) (h : SameOutside types s t)
    (hs : types.foldlM (p.loadRegistryMap files) s = .ok s') :
    ∃ t', types.foldlM (p.loadRegistryMap files) t = .ok t' ∧ SameMaps s' t' := by
  induction types generalizing s t with
  | nil =>
    obtain rfl := Except.ok.inj hs
    exact ⟨t, rfl, h⟩
  | cons r types ih =>
    rw [List.foldlM_cons] at hs
    obtain ⟨between, hload, hrest⟩ := bind_eq_ok_iff.mp hs
    obtain ⟨between', hload', hsame⟩ :=
      sameOutside_loadRegistryMap (hfiles r List.mem_cons_self) h hload
    obtain ⟨t', hrest', hsame'⟩ :=
      ih (fun q hq => hfiles q (List.mem_cons_of_mem _ hq)) hsame hrest
    refine ⟨t', ?_, hsame'⟩
    rw [List.foldlM_cons]
    exact bind_eq_ok_iff.mpr ⟨between', hload', hrest'⟩

/-! ## The types with templates -/

variable (files) in
/-- `dynamic_registry_types` are the types whose file has a template row. -/
def Templated (s : DynamicState) : Prop :=
  ∀ r, r ∈ s.dynamicRegistryTypes ↔ (files r).hasTemplate = true

theorem Templated.withAnchors {s : DynamicState} (h : Templated files s)
    (anchors : Dict String PyValue) : Templated files { s with anchors } := h

theorem isMissing_of_hasTemplate {file : MapFile} (h : file.hasTemplate = true) :
    file.isMissing = false := by
  cases file with
  | missing => cases h
  | unreadable err => rfl
  | readable rows overrides => rfl

/-- Loading a map finds out whether its file has templates. -/
theorem mem_dynamicRegistryTypes_iff {s s' : DynamicState} {r q : RegistryType}
    (hmissing : (files r).isMissing = true → r ∉ s.dynamicRegistryTypes)
    (h : p.loadRegistryMap files s r = .ok s') :
    q ∈ s'.dynamicRegistryTypes ↔
      if q = r then (files r).hasTemplate = true else q ∈ s.dynamicRegistryTypes := by
  cases hfile : (files r).isMissing with
  | true =>
    have hnone : (files r).hasTemplate = false := by
      cases hkind : files r with
      | missing => rfl
      | unreadable err =>
        rw [hkind] at hfile
        cases hfile
      | readable rows overrides =>
        rw [hkind] at hfile
        cases hfile
    unfold loadRegistryMap at h
    rw [if_pos hfile] at h
    obtain rfl := Except.ok.inj h
    split
    · next heq =>
      subst heq
      rw [hnone]
      exact iff_of_false (hmissing hfile) (by simp)
    · exact Iff.rfl
  | false =>
    obtain ⟨loaded, items, ranges, hloaded, -, rfl⟩ := (loadRegistryMap_eq_ok_iff hfile).mp h
    have htemplate := template_loadRegistryFile hloaded
    show q ∈ s.dynamicRegistryTypes.filter (· ≠ r) ++ (if loaded.template then [r] else []) ↔ _
    rw [htemplate, List.mem_append, List.mem_filter]
    by_cases heq : q = r
    · rw [if_pos heq, heq]
      cases (files r).hasTemplate <;> simp
    · rw [if_neg heq]
      cases (files r).hasTemplate <;> simp [heq]

theorem templated_loadRegistryMap {s s' : DynamicState} {r : RegistryType}
    (hs : Templated files s) (h : p.loadRegistryMap files s r = .ok s') : Templated files s' := by
  intro q
  have hmissing : (files r).isMissing = true → r ∉ s.dynamicRegistryTypes := fun hfile hmem => by
    rw [isMissing_of_hasTemplate ((hs r).mp hmem)] at hfile
    cases hfile
  rw [mem_dynamicRegistryTypes_iff hmissing h]
  split
  · next heq => rw [heq]
  · exact hs q

theorem templated_foldlM {types : List RegistryType} {s s' : DynamicState}
    (hs : Templated files s) (h : types.foldlM (p.loadRegistryMap files) s = .ok s') :
    Templated files s' :=
  foldlM_preserves (Templated files) (fun _ _ _ _ ht hstep => templated_loadRegistryMap ht hstep)
    hs h

/-- Loading maps finds the templates of their files. -/
theorem mem_dynamicRegistryTypes_foldlM {types : List RegistryType} {s s' : DynamicState}
    (hs : ∀ r ∈ s.dynamicRegistryTypes, (files r).hasTemplate = true)
    (h : types.foldlM (p.loadRegistryMap files) s = .ok s') :
    (∀ r ∈ s'.dynamicRegistryTypes, (files r).hasTemplate = true) ∧
      ∀ r, r ∈ types ∨ r ∈ s.dynamicRegistryTypes → (files r).hasTemplate = true →
        r ∈ s'.dynamicRegistryTypes := by
  induction types generalizing s with
  | nil =>
    obtain rfl := Except.ok.inj h
    exact ⟨hs, fun r hr _ => hr.resolve_left List.not_mem_nil⟩
  | cons r types ih =>
    rw [List.foldlM_cons] at h
    obtain ⟨between, hload, hrest⟩ := bind_eq_ok_iff.mp h
    have hmissing : (files r).isMissing = true → r ∉ s.dynamicRegistryTypes := fun hfile hmem => by
      rw [isMissing_of_hasTemplate (hs r hmem)] at hfile
      cases hfile
    have hbetween (q : RegistryType) := @mem_dynamicRegistryTypes_iff p files s between r q
      hmissing hload
    have hsound : ∀ q ∈ between.dynamicRegistryTypes, (files q).hasTemplate = true := by
      intro q hq
      rw [hbetween] at hq
      split at hq
      · next heq => rwa [heq]
      · exact hs q hq
    obtain ⟨hsound', hcomplete⟩ := ih hsound hrest
    refine ⟨hsound', fun q hq htemplate => hcomplete q ?_ htemplate⟩
    rw [hbetween]
    by_cases heq : q = r
    · rw [if_pos heq, ← heq]
      exact .inr htemplate
    · rw [if_neg heq]
      exact hq.imp_left fun hmem => (List.mem_cons.mp hmem).resolve_left heq

/-- The first load finds the templates of all files. -/
theorem templated_fresh {first : DynamicState} (h : p.fresh files = .ok first) :
    Templated files first := by
  obtain ⟨hsound, hcomplete⟩ := mem_dynamicRegistryTypes_foldlM (fun r hr => by cases hr) h
  exact fun r => ⟨hsound r, hcomplete r (.inl r.mem_all)⟩

/-- The types of a rebuild. -/
theorem filter_dynamicRegistryTypes {s t : DynamicState} (hs : Templated files s)
    (ht : Templated files t) : RegistryType.all.filter (· ∈ s.dynamicRegistryTypes) =
      RegistryType.all.filter (· ∈ t.dynamicRegistryTypes) :=
  List.filter_congr fun r _ => by rw [decide_eq_decide, hs r, ht r]

/-- **A rebuild** is the same for two instances that differ in the maps with templates. -/
theorem sameMaps_rebuild {s t s' : DynamicState} (hs : Templated files s) (ht : Templated files t)
    (h : SameOutside (RegistryType.all.filter (· ∈ t.dynamicRegistryTypes)) s t)
    (hrebuild : p.rebuildDynamicMaps files s = .ok s') :
    ∃ t', p.rebuildDynamicMaps files t = .ok t' ∧ SameMaps s' t' := by
  unfold rebuildDynamicMaps at hrebuild ⊢
  rw [filter_dynamicRegistryTypes hs ht] at hrebuild
  refine sameOutside_foldlM (fun r hr => ?_) h hrebuild
  rw [List.mem_filter, decide_eq_true_iff] at hr
  exact isMissing_of_hasTemplate ((ht r).mp hr.2)

/-- A rebuild leaves the other maps alone. -/
theorem outside_rebuild {s s' : DynamicState} (h : p.rebuildDynamicMaps files s = .ok s') :
    ∀ r ∉ RegistryType.all.filter (· ∈ s.dynamicRegistryTypes),
      s'.registryMap r = s.registryMap r ∧ s'.registryMapSize r = s.registryMapSize r ∧
        s'.registryMapRanges r = s.registryMapRanges r := by
  intro r hr
  refine foldlM_preserves (fun t : DynamicState => t.registryMap r = s.registryMap r ∧
    t.registryMapSize r = s.registryMapSize r ∧ t.registryMapRanges r = s.registryMapRanges r)
      ?_ ⟨rfl, rfl, rfl⟩ h
  intro q hq t t' ht hload
  have hne : r ≠ q := fun heq => hr (heq ▸ hq)
  cases hfile : (files q).isMissing with
  | true =>
    unfold loadRegistryMap at hload
    rw [if_pos hfile] at hload
    rw [← Except.ok.inj hload]
    exact ht
  | false =>
    obtain ⟨loaded, items, ranges, -, -, rfl⟩ := (loadRegistryMap_eq_ok_iff hfile).mp hload
    exact ⟨(Function.update_of_ne hne _ _).trans ht.1, (Function.update_of_ne hne _ _).trans ht.2.1,
      (Function.update_of_ne hne _ _).trans ht.2.2⟩

/-! ## Runs -/

variable (p files)

/-- Loading one of the maps with templates again right after the first load changes nothing. -/
def Settled (first : DynamicState) : Prop :=
  ∀ r ∈ first.dynamicRegistryTypes, ∀ s, p.loadRegistryMap files first r = .ok s →
    SameMaps s first

/-- The map of a type can be loaded with the anchors. -/
def Loadable (anchors : Dict String PyValue) (r : RegistryType) : Prop :=
  ∀ codes, ∃ loaded items ranges,
    loadRegistryFile p.host p.settings r (files r) codes anchors.get? = .ok (loaded, items) ∧
      p.settings.initialRanges items = .ok ranges

/-- When a call finds nothing of earlier ones that it cannot take away. -/
structure Untouched (first s : DynamicState) (call : AnchorCall) : Prop where
  loadable : ∀ r ∈ first.dynamicRegistryTypes, p.Loadable files (p.mergedAnchors call) r
  /-- anchors that are equal to the present ones are the same -/
  present : sameAnchors (p.mergedAnchors call) s.anchors = true →
    (p.mergedAnchors call).get? = s.anchors.get?
  /-- and so are anchors that are equal to the defaults -/
  defaults : sameAnchors (p.mergedAnchors call) p.anchorDefaults = true →
    (p.mergedAnchors call).get? = p.anchorDefaults.get?
  /-- a rebuild starts with the code tables of the first load -/
  codes : sameAnchors (p.mergedAnchors call) s.anchors = false → s.codes = first.codes
  /-- a rebuild with the defaults makes the maps of the first load -/
  settled : sameAnchors (p.mergedAnchors call) s.anchors = false →
    sameAnchors (p.mergedAnchors call) p.anchorDefaults = true → p.Settled files first

/-- The runs of an instance, each state with the last call. -/
def runs (first : DynamicState) : System (DynamicState × Option AnchorCall) AnchorCall where
  init s := s = (first, none)
  step s call s' := s' = (p.afterCall files s.1 call, some call)

/-- What holds of an instance after calls that found nothing of earlier ones. -/
structure FollowsLast (first s : DynamicState) (last : Option AnchorCall) : Prop where
  templated : Templated files s
  outside : ∀ r ∉ RegistryType.all.filter (· ∈ first.dynamicRegistryTypes),
    s.registryMap r = first.registryMap r ∧ s.registryMapSize r = first.registryMapSize r ∧
      s.registryMapRanges r = first.registryMapRanges r
  start : last = none → s = first
  last : ∀ call, last = some call → SameMaps s (p.afterCall files first call) ∧
    (p.afterCall files first call).anchors.get? = (p.mergedAnchors call).get?

variable {p files}

/-- A map that can be loaded is loaded. -/
theorem returns_foldlM {types : List RegistryType} {s : DynamicState}
    (h : ∀ r ∈ types, p.Loadable files s.anchors r) :
    Returns (types.foldlM (p.loadRegistryMap files) s) := by
  induction types generalizing s with
  | nil => exact returns_ok s
  | cons r types ih =>
    rw [List.foldlM_cons, returns_bind_iff]
    refine ⟨?_, fun between hload => ih fun q hq => ?_⟩
    · cases hfile : (files r).isMissing with
      | true =>
        unfold loadRegistryMap
        rw [if_pos hfile]
        exact returns_ok s
      | false =>
        obtain ⟨loaded, items, ranges, hloaded, hranges⟩ := h r List.mem_cons_self s.codes
        exact ⟨_, (loadRegistryMap_eq_ok_iff hfile).mpr
          ⟨loaded, items, ranges, hloaded, hranges, rfl⟩⟩
    · have hanchors := @anchors_loadRegistryMap p files s r
      rw [hload] at hanchors
      rw [show between.anchors = s.anchors from hanchors]
      exact h q (List.mem_cons_of_mem _ hq)

/-- Loading maps again leaves them as they are, if it does so right after the first load. -/
theorem sameMaps_foldlM_of_settled {types : List RegistryType} {first s s' : DynamicState}
    (hfirst : Templated files first) (hsettled : p.Settled files first)
    (htypes : ∀ r ∈ types, r ∈ first.dynamicRegistryTypes) (hs : SameMaps s first)
    (h : types.foldlM (p.loadRegistryMap files) s = .ok s') : SameMaps s' first := by
  refine foldlM_preserves (fun t => SameMaps t first) ?_ hs h
  intro r hr t t' ht hload
  have hfile := isMissing_of_hasTemplate ((hfirst r).mp (htypes r hr))
  obtain ⟨u, hu, hsame⟩ := sameOutside_loadRegistryMap hfile (ht.mono (List.nil_subset [r])) hload
  exact hsame.trans (hsettled r (htypes r hr) u hu)

theorem afterCall_of_same {s : DynamicState} {call : AnchorCall}
    (h : sameAnchors (p.mergedAnchors call) s.anchors = true) : p.afterCall files s call = s := by
  unfold afterCall applyAnchors
  rw [if_pos h]
  rfl

theorem afterCall_of_rebuild {s s' : DynamicState} {call : AnchorCall}
    (h : sameAnchors (p.mergedAnchors call) s.anchors = false)
    (hrebuild : p.rebuildDynamicMaps files { s with anchors := p.mergedAnchors call } = .ok s') :
    p.afterCall files s call = s' := by
  unfold afterCall applyAnchors
  rw [if_neg (Bool.eq_false_iff.mp h), hrebuild]
  rfl

/-- Two calls with the same anchors leave the first instance in the same maps. -/
theorem sameMaps_afterCall {first : DynamicState} {call call' : AnchorCall}
    (hfirst : Templated files first)
    (hloadable : ∀ r ∈ first.dynamicRegistryTypes, p.Loadable files (p.mergedAnchors call) r)
    (h : (p.mergedAnchors call).get? = (p.mergedAnchors call').get?) :
    SameMaps (p.afterCall files first call') (p.afterCall files first call) := by
  have hcongr : sameAnchors (p.mergedAnchors call) first.anchors =
      sameAnchors (p.mergedAnchors call') first.anchors := sameAnchors_congr h rfl
  cases hsame : sameAnchors (p.mergedAnchors call) first.anchors with
  | true =>
    rw [afterCall_of_same hsame, afterCall_of_same (hcongr ▸ hsame)]
    exact SameOutside.refl _ _
  | false =>
    obtain ⟨t, ht⟩ := returns_foldlM (s := { first with anchors := p.mergedAnchors call })
      fun r hr => hloadable r (decide_eq_true_iff.mp (List.mem_filter.mp hr).2)
    have hstart : SameOutside (RegistryType.all.filter (· ∈ first.dynamicRegistryTypes))
        { first with anchors := p.mergedAnchors call }
        { first with anchors := p.mergedAnchors call' } :=
      ⟨h, rfl, fun _ _ => rfl, fun _ _ => rfl, fun _ _ => rfl⟩
    obtain ⟨t', ht', hsame'⟩ := sameMaps_rebuild (hfirst.withAnchors _)
      (hfirst.withAnchors (p.mergedAnchors call')) hstart ht
    rw [afterCall_of_rebuild hsame ht, afterCall_of_rebuild (hcongr ▸ hsame) ht']
    exact hsame'.symm

/-- The anchors of the first instance after a call. -/
theorem anchors_afterCall {first : DynamicState} {call : AnchorCall}
    (hanchors : first.anchors = p.anchorDefaults)
    (hdefaults : sameAnchors (p.mergedAnchors call) p.anchorDefaults = true →
      (p.mergedAnchors call).get? = p.anchorDefaults.get?) :
    (p.afterCall files first call).anchors.get? = (p.mergedAnchors call).get? := by
  cases hsame : sameAnchors (p.mergedAnchors call) first.anchors with
  | true =>
    rw [afterCall_of_same hsame, hanchors]
    exact (hdefaults (hanchors ▸ hsame)).symm
  | false =>
    have hleft : (p.rebuildDynamicMaps files
        { first with anchors := p.mergedAnchors call }).left.anchors = p.mergedAnchors call :=
      anchors_foldlM _ _
    unfold afterCall applyAnchors
    rw [if_neg (Bool.eq_false_iff.mp hsame)]
    cases hrebuild : p.rebuildDynamicMaps files
        { first with anchors := p.mergedAnchors call } with
    | ok t =>
      rw [hrebuild] at hleft
      exact congrArg Dict.get? hleft
    | error raised =>
      rw [hrebuild] at hleft
      exact congrArg Dict.get? hleft

/-- **One call**: it leaves the maps that it would leave right after the first load. -/
theorem followsLast_afterCall {first s : DynamicState} {last : Option AnchorCall}
    {call : AnchorCall} (hfirst : Templated files first)
    (hanchors : first.anchors = p.anchorDefaults) (h : p.FollowsLast files first s last)
    (hcall : p.Untouched files first s call) :
    p.FollowsLast files first (p.afterCall files s call) (some call) := by
  have hlast (hsame : SameMaps (p.afterCall files s call) (p.afterCall files first call)) :
      ∀ c, some call = some c → SameMaps (p.afterCall files s call)
        (p.afterCall files first c) ∧
          (p.afterCall files first c).anchors.get? = (p.mergedAnchors c).get? := by
    intro c hc
    obtain rfl := Option.some.inj hc
    exact ⟨hsame, anchors_afterCall hanchors hcall.defaults⟩
  cases hpresent : sameAnchors (p.mergedAnchors call) s.anchors with
  | true =>
    -- nothing is done, and the last call had the same anchors
    have hafter := @afterCall_of_same p files s call hpresent
    have hsame : SameMaps s (p.afterCall files first call) := by
      cases last with
      | none =>
        obtain rfl := h.start rfl
        rw [hafter]
        exact SameOutside.refl _ _
      | some c =>
        obtain ⟨hsame, hget⟩ := h.last c rfl
        refine hsame.trans (sameMaps_afterCall hfirst hcall.loadable ?_)
        rw [hcall.present hpresent, hsame.anchors, hget]
    rw [hafter] at hlast ⊢
    exact ⟨h.templated, h.outside, fun hnone => (by cases hnone), hlast hsame⟩
  | false =>
    have htypes := filter_dynamicRegistryTypes h.templated hfirst
    obtain ⟨s', hs'⟩ : Returns (p.rebuildDynamicMaps files
        { s with anchors := p.mergedAnchors call }) := by
      refine returns_foldlM fun r hr => hcall.loadable r ?_
      have hmem : r ∈ RegistryType.all.filter (· ∈ s.dynamicRegistryTypes) := hr
      rw [htypes] at hmem
      exact decide_eq_true_iff.mp (List.mem_filter.mp hmem).2
    have hafter := afterCall_of_rebuild hpresent hs'
    have hstart : SameOutside (RegistryType.all.filter (· ∈ first.dynamicRegistryTypes))
        { s with anchors := p.mergedAnchors call }
        { first with anchors := p.mergedAnchors call } :=
      ⟨rfl, hcall.codes hpresent, fun r hr => (h.outside r hr).1, fun r hr => (h.outside r hr).2.1,
        fun r hr => (h.outside r hr).2.2⟩
    obtain ⟨t, ht, hsame⟩ := sameMaps_rebuild (h.templated.withAnchors _)
      (hfirst.withAnchors (p.mergedAnchors call)) hstart hs'
    have hsame' : SameMaps s' (p.afterCall files first call) := by
      cases hdefaults : sameAnchors (p.mergedAnchors call) first.anchors with
      | true =>
        rw [afterCall_of_same hdefaults]
        have hequal := hcall.defaults (hanchors ▸ hdefaults)
        have hagain : SameMaps { first with anchors := p.mergedAnchors call } first :=
          ⟨hequal.trans (congrArg Dict.get? hanchors).symm, rfl, fun _ _ => rfl, fun _ _ => rfl,
            fun _ _ => rfl⟩
        exact hsame.trans (sameMaps_foldlM_of_settled hfirst
          (hcall.settled hpresent (hanchors ▸ hdefaults))
          (fun r hr => decide_eq_true_iff.mp (List.mem_filter.mp hr).2) hagain ht)
      | false =>
        rw [afterCall_of_rebuild hdefaults ht]
        exact hsame
    rw [hafter] at hlast ⊢
    refine ⟨templated_foldlM (s := { s with anchors := p.mergedAnchors call }) h.templated hs',
      fun r hr => ?_, fun hnone => (by cases hnone), hlast hsame'⟩
    obtain ⟨hmap, hsize, hranges⟩ := outside_rebuild hs' r (by rwa [← htypes] at hr)
    exact ⟨hmap.trans (h.outside r hr).1, hsize.trans (h.outside r hr).2.1,
      hranges.trans (h.outside r hr).2.2⟩

/-- **The maps follow the last call**, in every run whose calls find nothing of earlier ones that
they cannot take away. -/
theorem sameMaps_of_reach {first s : DynamicState} {call : AnchorCall}
    (hfresh : p.fresh files = .ok first)
    (h : Reach (p.runs files first) (fun s call => p.Untouched files first s.1 call)
      (s, some call)) :
    SameMaps s (p.afterCall files first call) := by
  have hfirst := templated_fresh hfresh
  have hanchors : first.anchors = p.anchorDefaults := by
    have hleft : (p.fresh files).left.anchors = p.anchorDefaults := anchors_foldlM _ _
    rwa [hfresh] at hleft
  have hfollows := Reach.invariant (P := fun s => p.FollowsLast files first s.1 s.2)
    (fun s hs => by
      obtain rfl : s = (first, none) := hs
      exact ⟨hfirst, fun r _ => ⟨rfl, rfl, rfl⟩, fun _ => rfl, fun c hc => by cases hc⟩)
    (fun s c s' _ hs hc hstep => by
      obtain rfl : s' = (p.afterCall files s.1 c, some c) := hstep
      exact followsLast_afterCall hfirst hanchors hs hc) h
  exact (hfollows.last call rfl).1

/-! ## Meters that come and go -/

/-- Tokens of a single anchor, and one code table. -/
def meterHost : RowHost where
  evaluateExpressions text anchors := .ok [
    match text.toList with
    | '[' :: name => match anchors (String.ofList name.dropLast) with
      | some (.int i) => toString i
      | _ => text
    | _ => text]
  columns _ _ := .ok { cell := "", variableName := "", values := [] }
  parseJson _ := some (.dict [("0", .str "off")])
  readCommand _ := .ok ()

/-- The status of every meter. -/
def meterRow (values : String) : CsvRow where
  cells := ⟨[("register", "[meter_\x7bi\x7d_base]"), ("variable name", "meter_\x7bi\x7d_status"),
    ("documented name", "meter_\x7bi\x7d_status"), ("values", values)],
    show List.Nodup ["register", "variable name", "documented name", "values"] by decide⟩

def meterFiles (values : String) : RegistryType → MapFile
  | .holding => .readable [meterRow values] none
  | _ => .missing

/-- One meter at 40. -/
def oneMeter : Dict String PyValue :=
  ⟨[("meter_count", .int 1), ("meter_1_base", .int 40)], by decide⟩

/-- And another one at 50. -/
def twoMeters : Dict String PyValue :=
  ⟨[("meter_count", .int 2), ("meter_1_base", .int 40), ("meter_2_base", .int 50)], by decide⟩

def meters : DynamicProtocol where
  settings := {}
  host := meterHost
  anchorDefaults := oneMeter

/-- The instance after the first load. -/
def firstMeters (values : String) : DynamicState := (meters.fresh (meterFiles values)).left

theorem fresh_meters : meters.fresh (meterFiles "") = .ok (firstMeters "") := rfl

/-- The second meter comes and goes. -/
theorem sameMaps_meter_gone :
    SameMaps (meters.afterCall (meterFiles "") (meters.afterCall (meterFiles "") (firstMeters "")
        ⟨twoMeters, []⟩) ⟨oneMeter, []⟩)
      (meters.afterCall (meterFiles "") (firstMeters "") ⟨oneMeter, []⟩) := by
  have hholding {r : RegistryType} (hr : r ∈ (firstMeters "").dynamicRegistryTypes) :
      r = .holding := by
    have hmem : r ∈ [RegistryType.holding] := hr
    exact List.mem_singleton.mp hmem
  have hcomes : meters.Untouched (meterFiles "") (firstMeters "") (firstMeters "")
      ⟨twoMeters, []⟩ := by
    have hnew : sameAnchors (meters.mergedAnchors ⟨twoMeters, []⟩) oneMeter = false := by decide
    refine ⟨fun r hr codes => ?_, fun h => ?_, fun h => ?_, fun _ => rfl, fun _ h => ?_⟩
    · rw [hholding hr]
      exact ⟨_, _, _, rfl, rfl⟩
    · exact absurd (hnew.symm.trans h) (by decide)
    · exact absurd (hnew.symm.trans h) (by decide)
    · exact absurd (hnew.symm.trans h) (by decide)
  have hgoes : meters.Untouched (meterFiles "") (firstMeters "")
      (meters.afterCall (meterFiles "") (firstMeters "") ⟨twoMeters, []⟩) ⟨oneMeter, []⟩ := by
    have hnew : sameAnchors (meters.mergedAnchors ⟨oneMeter, []⟩) (meters.afterCall
        (meterFiles "") (firstMeters "") ⟨twoMeters, []⟩).anchors = false := by decide
    have hold : meters.mergedAnchors ⟨oneMeter, []⟩ = oneMeter := by decide
    refine ⟨fun r hr codes => ?_, fun h => ?_, fun _ => congrArg Dict.get? hold, fun _ => ?_,
      fun _ _ r hr s hs => ?_⟩
    · rw [hholding hr]
      exact ⟨_, _, _, rfl, rfl⟩
    · exact absurd (hnew.symm.trans h) (by decide)
    · exact (List.length_eq_zero_iff.mp (by decide)).trans
        (List.length_eq_zero_iff.mp (by decide)).symm
    · rw [hholding hr] at hs
      rw [← Except.ok.inj hs]
      exact ⟨rfl, rfl, fun r _ => by cases r <;> rfl, fun r _ => by cases r <;> rfl,
        fun r _ => by cases r <;> rfl⟩
  exact sameMaps_of_reach fresh_meters (.step (.step (.init rfl) hcomes rfl) hgoes rfl)

/-- The code table of the second meter stays when the meter is gone. -/
theorem not_sameMaps_after_two : ¬ ∀ (p : DynamicProtocol) (files : RegistryType → MapFile)
    (first : DynamicState) (calls : List AnchorCall) (call : AnchorCall),
    p.fresh files = .ok first →
      SameMaps ((calls ++ [call]).foldl (p.afterCall files) first) (p.afterCall files first call) := by
  intro h
  have hsame := (h meters (meterFiles "\x7b\x7d") (firstMeters "\x7b\x7d") [⟨twoMeters, []⟩]
    ⟨oneMeter, []⟩ rfl).codes
  have hkept : (((([⟨twoMeters, []⟩] ++ [⟨oneMeter, []⟩] : List AnchorCall)).foldl
      (meters.afterCall (meterFiles "\x7b\x7d")) (firstMeters "\x7b\x7d")).codes.lookup
        "meter_2_status_codes").isSome = true := by decide
  rw [hsame] at hkept
  exact absurd hkept (by decide)

/-- The file of the meters cannot be read. -/
def brokenFiles : RegistryType → MapFile
  | .holding => .unreadable .valueError
  | _ => .missing

/-- The discovery of the second meter fails for good. -/
theorem not_recoverable_second_meter : ¬meters.Recoverable (firstMeters "")
    { (firstMeters "").collect .holding { codes := [] } with
      anchors := meters.mergedAnchors ⟨twoMeters, []⟩ } ⟨twoMeters, []⟩ :=
  @not_recoverable meters brokenFiles (firstMeters "") _ ⟨twoMeters, []⟩ .valueError rfl

/-- Its anchors are there, its registers are not, and the call again does nothing. -/
theorem second_meter_lost : ¬ ∀ (p : DynamicProtocol) (files : RegistryType → MapFile)
    (s s' : DynamicState) (call : AnchorCall) (err : PyError),
    p.applyAnchors files s call = .error (err, s') → p.Recoverable s s' call := by
  intro h
  have hraise : meters.applyAnchors brokenFiles (firstMeters "") ⟨twoMeters, []⟩ =
      .error (.valueError, { (firstMeters "").collect .holding { codes := [] } with
        anchors := meters.mergedAnchors ⟨twoMeters, []⟩ }) := rfl
  rcases h _ _ _ _ _ _ hraise with ⟨hanchors, -, -⟩ | ⟨later, s'', hretry⟩
  · have hsize := congrArg (fun anchors : Dict String PyValue => anchors.items.length) hanchors
    exact absurd hsize (by decide)
  · rw [applyAnchors_of_raise hraise later] at hretry
    cases Except.ok.inj hretry

end DynamicProtocol

end ProtocolGateway
