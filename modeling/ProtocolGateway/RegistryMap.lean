import ProtocolGateway.Loader

/-!
# Registry maps

The rest of `load__registry` after its row loop: adjacent `_l`/`_h` pairs become one 32-bit
entry, the variable mask or the variable screen removes entries, and every entry with a code
table gets a synthetic `_desc` entry. None of these steps touches where an entry's words live, so
every entry of a loaded map keeps an address form.
-/

namespace ProtocolGateway

/-- `self.codes`: the values of the protocol JSON, code tables among them. -/
abbrev Codes := List (String × Json)

/-- The part of a `protocol_settings` instance that loading and decoding a map read. -/
structure ProtocolSettings where
  /-- the protocol's `byteorder`, resolved -/
  defaultWordOrder : WordOrder := .abcd
  /-- `batch_size` of the protocol JSON, as text -/
  batchSize : Option String := none
  codes : Codes := []
  variableMask : List String := []
  variableScreen : List String := []
  /-- `register_key_type` is `text` -/
  textKeys : Bool := false

namespace ProtocolSettings

variable (ps : ProtocolSettings)

/-! ## Code tables -/

/-- `get_code_dict`. -/
def getCodeDict (key : String) : List (String × Json) :=
  match ps.codes.lookup key with
  | some (.dict items) => items
  | _ => []

/-- `get_entry_code_dict`: the table of the documented name, else that of the variable name. -/
def getEntryCodeDict (e : RegistryMapEntry) : List (String × Json) :=
  match ps.getCodeDict (e.documentedName ++ "_codes") with
  | [] => ps.getCodeDict (e.variableName ++ "_codes")
  | items => items

/-! ## Merging, filtering, describing -/

/-- `name[:-2]`. -/
def dropTwo (name : String) : String := String.ofList (name.toList.dropLast.dropLast)

/-- `name.strip()`. -/
def stripName (name : String) : String := String.ofList (Text.strip name.toList)

/-- `item` and `next_item` are the `_l` and `_h` rows of one 32-bit value. -/
def isPair (item next : RegistryMapEntry) : Bool :=
  "_l".toList.isSuffixOf item.documentedName.toList &&
    next.documentedName == dropTwo item.documentedName ++ "_h"

/-- The combined entry of an `_l`/`_h` pair: the `_l` row under the name without its suffix. -/
def mergePair (item next : RegistryMapEntry) : RegistryMapEntry :=
  { item with
    dataType :=
      if item.dataType = .ushort then
        if next.dataType ≠ .ushort then next.dataType else .uint
      else item.dataType
    variableName :=
      if item.documentedName = item.variableName then stripName (dropTwo item.variableName)
      else item.variableName
    documentedName := stripName (dropTwo item.documentedName)
    unit := if item.unit = "" then next.unit else item.unit
    unitMod := if item.unit = "" then next.unitMod else item.unitMod
    adjustments := if item.adjustments.isEmpty then next.adjustments else item.adjustments }

/-- The merge loop, from the end of the map to its start. -/
def mergePairs : List RegistryMapEntry → List RegistryMapEntry
  | [] => []
  | item :: items =>
    match mergePairs items with
    | [] => [item]
    | next :: rest => if isPair item next then mergePair item next :: rest else item :: next :: rest

/-- A filter file names an entry by either of its names, with or without the `_l` suffix. -/
def named (filter : List String) (e : RegistryMapEntry) : Bool :=
  let doc := String.ofList (Text.lower (Text.strip e.documentedName.toList))
  let var := String.ofList (Text.lower (Text.strip e.variableName.toList))
  filter.contains doc || filter.contains var || filter.contains (doc ++ "_l") ||
    filter.contains (var ++ "_l")

/-- The variable mask keeps what it names. Without a mask the variable screen removes what it
names, and all of a registry type in which it names nothing. -/
def applyFilters (items : List RegistryMapEntry) : List RegistryMapEntry :=
  if ps.variableMask ≠ [] then items.filter (named ps.variableMask)
  else if ps.variableScreen ≠ [] then
    if items.any (named ps.variableScreen) then items.filter fun e => !named ps.variableScreen e
    else []
  else items

/-- The synthetic entry `_add_code_description_entries` adds for `entry`. -/
def descriptionEntry (entry : RegistryMapEntry) : RegistryMapEntry :=
  { entry with
    variableName := entry.variableName ++ "_desc"
    documentedName := entry.documentedName ++ "_desc"
    unit := ""
    unitMod := 1
    adjustments := []
    concatenate := false
    concatenateRegisters := []
    values := []
    registerList := []
    valueRegex := ""
    valueMin := 0
    valueMax := 0
    dataType := .string
    dataTypeSize := -1
    nextReadTimestamp := 0
    writeMode := .readDisabled
    descriptionSource := entry.variableName }

/-- The loop of `_add_code_description_entries`; `existing` are the names taken so far. -/
def descriptionEntries : List String → List RegistryMapEntry → List RegistryMapEntry
  | _, [] => []
  | existing, entry :: entries =>
    let descName := entry.variableName ++ "_desc"
    if entry.descriptionSource ≠ "" ∨ (ps.getEntryCodeDict entry).isEmpty ∨ descName ∈ existing ∨
        String.ofList (Text.lower descName.toList) ∈ ps.variableScreen then
      descriptionEntries existing entries
    else descriptionEntry entry :: descriptionEntries (descName :: existing) entries

/-- `_add_code_description_entries`. -/
def addCodeDescriptionEntries (items : List RegistryMapEntry) : List RegistryMapEntry :=
  items ++ ps.descriptionEntries (items.map RegistryMapEntry.variableName) items

/-- `load__registry`: the entries of a register map, `none` when loading raises. -/
def loadRegistry (registryType : RegistryType) (rows : List Row) : Option (List RegistryMapEntry) :=
  (processRows registryType ps.textKeys [] rows).map fun items =>
    ps.addCodeDescriptionEntries (ps.applyFilters (mergePairs items))

/-- `registry_map_size`: the largest address of the map, as `load_registry_map` computes it. -/
def registryMapSize (items : List RegistryMapEntry) : Int :=
  items.foldl (fun size item => max size item.registerEnd) 0

/-! ## Address forms of loaded entries -/

/-- An address form only depends on the fields the address region sets. -/
theorem addressForm_congr {e e' : RegistryMapEntry} (h : AddressForm e)
    (hr : e'.register = e.register) (hb : e'.registerBit = e.registerBit)
    (hbe : e'.registerBitEnd = e.registerBitEnd) (hl : e'.registerList = e.registerList)
    (hc : e'.concatenate = e.concatenate)
    (hcr : e'.concatenateRegisters = e.concatenateRegisters) : AddressForm e' := by
  cases h with
  | single c l b => exact .single (by rw [hc, c]) (by rw [hl, l]) (by rw [hb, hbe]; exact b)
  | list c f t b =>
    exact .list (by rw [hc, c]) (by rw [hl, hr, f]) (by rw [hl]; exact t) (by rw [hb, hbe]; exact b)
  | range c l m t b =>
    exact .range (by rw [hc, c]) (by rw [hl, l]) (by rw [hr, hcr]; exact m) (by rw [hcr]; exact t)
      (by rw [hb, hbe]; exact b)

/-- What holds of an item and survives merging holds of all merged items. -/
theorem mergePairs_forall {P : RegistryMapEntry → Prop} {items : List RegistryMapEntry}
    (merge : ∀ item next, P item → P next → P (mergePair item next))
    (h : ∀ e ∈ items, P e) : ∀ e ∈ mergePairs items, P e := by
  induction items with
  | nil => exact h
  | cons item items ih =>
    have hitem : P item := h item (List.mem_cons_self ..)
    have hrest := ih fun e he => h e (List.mem_cons_of_mem _ he)
    intro e he
    unfold mergePairs at he
    split at he
    · rw [List.mem_singleton.mp he]
      exact hitem
    · next next rest hm =>
      rw [hm] at hrest
      split at he
      · rcases List.mem_cons.mp he with rfl | he
        · exact merge item next hitem (hrest next List.mem_cons_self)
        · exact hrest e (List.mem_cons_of_mem _ he)
      · rcases List.mem_cons.mp he with rfl | he
        · exact hitem
        · exact hrest e he

/-- The filters only remove entries. -/
theorem applyFilters_subset {items : List RegistryMapEntry} {e : RegistryMapEntry}
    (he : e ∈ ps.applyFilters items) : e ∈ items := by
  unfold applyFilters at he
  split at he
  · exact List.mem_of_mem_filter he
  · split at he
    · split at he
      · exact List.mem_of_mem_filter he
      · exact absurd he (by simp)
    · exact he

/-- Every synthetic entry describes an entry of the map. -/
theorem mem_descriptionEntries {existing : List String} {items : List RegistryMapEntry}
    {d : RegistryMapEntry} (hd : d ∈ ps.descriptionEntries existing items) :
    ∃ e ∈ items, d = descriptionEntry e := by
  induction items generalizing existing with
  | nil => exact absurd hd (by simp [descriptionEntries])
  | cons item items ih =>
    unfold descriptionEntries at hd
    dsimp only at hd
    split at hd
    · obtain ⟨e, he, rfl⟩ := ih hd
      exact ⟨e, List.mem_cons_of_mem _ he, rfl⟩
    · rcases List.mem_cons.mp hd with rfl | hd
      · exact ⟨item, List.mem_cons_self .., rfl⟩
      · obtain ⟨e, he, rfl⟩ := ih hd
        exact ⟨e, List.mem_cons_of_mem _ he, rfl⟩

/-- What holds of the entries of the rows, and survives merging and describing, holds of all loaded
entries. -/
theorem loadRegistry_forall {P : RegistryMapEntry → Prop} {registryType : RegistryType}
    {rows : List Row} {items : List RegistryMapEntry}
    (row : ∀ raw, processRows registryType ps.textKeys [] rows = some raw → ∀ e ∈ raw, P e)
    (merge : ∀ item next, P item → P next → P (mergePair item next))
    (describe : ∀ e, P e → P (descriptionEntry e))
    (h : ps.loadRegistry registryType rows = some items) : ∀ e ∈ items, P e := by
  obtain ⟨raw, hraw, rfl⟩ := Option.map_eq_some_iff.mp h
  have hmerged : ∀ e ∈ mergePairs raw, P e := mergePairs_forall merge (row raw hraw)
  intro e he
  rcases List.mem_append.mp he with he | he
  · exact hmerged e (ps.applyFilters_subset he)
  · obtain ⟨d, hd, rfl⟩ := ps.mem_descriptionEntries he
    exact describe d (hmerged d (ps.applyFilters_subset hd))

theorem descriptionEntry_addressForm {e : RegistryMapEntry} (h : AddressForm e) :
    AddressForm (descriptionEntry e) := by
  refine .single rfl rfl ?_
  cases h with
  | single _ _ bits => exact bits
  | list _ _ _ bits => exact Or.inl bits
  | range _ _ _ _ bits => exact Or.inl bits

/-- **Address forms.** Every entry of a loaded register map has one of the three address forms. -/
theorem loadRegistry_addressForm {registryType : RegistryType} {rows : List Row}
    {items : List RegistryMapEntry} (h : ps.loadRegistry registryType rows = some items) :
    ∀ e ∈ items, AddressForm e :=
  ps.loadRegistry_forall (fun _ hraw => processRows_addressForm hraw)
    (fun _ _ hitem _ => addressForm_congr hitem rfl rfl rfl rfl rfl rfl)
    (fun _ he => descriptionEntry_addressForm he) h

/-- The ranges of a loaded register map are blocks of addresses. -/
theorem loadRegistry_rangeForm {registryType : RegistryType} {rows : List Row}
    {items : List RegistryMapEntry} (h : ps.loadRegistry registryType rows = some items) :
    ∀ e ∈ items, RangeForm e :=
  ps.loadRegistry_forall (fun _ hraw => processRows_rangeForm hraw) (fun _ _ hitem _ => hitem)
    (fun _ _ hconcatenate => (by cases hconcatenate)) h

end ProtocolSettings

end ProtocolGateway
