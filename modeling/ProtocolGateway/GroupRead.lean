import ProtocolGateway.NonInterference
import ProtocolGateway.MemberFilter
import ProtocolGateway.ReadCycle
import ProtocolGateway.Lib.Layers

/-!
# Group reads

Transports that scrape the same device form a group. `read_group_data` reads for all of them: for
each registry type it plans ranges from the entries of the members that send the type, without
entries whose register and name came before, decodes what was read with each member's own
`protocolSettings`, and merges all values into one dictionary by their names.

So a member's values are its own exactly if no other decode has the last word on one of its names,
provided that the plan reaches what its entries decode from. It has to reach what the only entry of
a name decodes from (`group_read_matches_iff`).
-/

namespace ProtocolGateway

namespace GroupRead

open Outcomes Layers ProtocolSettings

/-! ## Groups -/

/-- A Modbus transport of a scrape group, after loading. -/
structure GroupMember where
  protocolSettings : ProtocolSettings
  /-- `send_input_register` and so on -/
  sends : RegistryType → Bool
  rows : RegistryType → List Row
  registryMap : RegistryType → List RegistryMapEntry
  loaded : ∀ registryType,
    protocolSettings.loadRegistry registryType (rows registryType) = some (registryMap registryType)

/-- A scrape group. -/
structure Group where
  members : List GroupMember
  /-- `ScrapeGroup.primary`, whose connection does the reading -/
  primary : Fin members.length

/-- The registry types of a Modbus device, in the order in which they are read. -/
def groupTypes : List RegistryType := [.input, .holding, .coil, .discrete]

/-- What the registers of each type hold. -/
abbrev Device := RegistryType → Int → Word

namespace GroupMember

variable (member : GroupMember)

/-- The variable names of a member. -/
def names : List String :=
  (Member.registryTypes.flatMap member.registryMap).map RegistryMapEntry.variableName

/-- The member takes part in the read of a registry type. -/
def takesPart (registryType : RegistryType) : Bool :=
  member.sends registryType && !(member.registryMap registryType).isEmpty

/-- What the member's own settings make of a registry. -/
def decodes (host : Host) (registryType : RegistryType) (registry : Int → Option Word) :
    Except PyError (Dict String PyValue) :=
  member.protocolSettings.processRegistery host (.words registry) (member.registryMap registryType)

/-- What they make of the full content of a registry type. -/
def decodesAll (host : Host) (device : Device) (registryType : RegistryType) :
    Except PyError (Dict String PyValue) :=
  member.decodes host registryType fun a => some (device registryType a)

/-- What the member's own settings decode from the full content of the registry types it sends. -/
def ownData (host : Host) (device : Device) : Except PyError (Dict String PyValue) :=
  mergeM (member.decodesAll host device) (groupTypes.filter member.sends) Dict.empty

end GroupMember

/-! ## The union of the entries and its plan -/

/-- The loop over the entries of all members; `seen` are the keys so far. -/
def unionOf : List (Int × String) → List RegistryMapEntry → List RegistryMapEntry
  | _, [] => []
  | seen, e :: entries =>
    if (e.register, e.variableName) ∈ seen then unionOf seen entries
    else e :: unionOf ((e.register, e.variableName) :: seen) entries

namespace Group

variable (group : Group)

/-- The members that contribute to a registry type. -/
def parts (registryType : RegistryType) : List GroupMember :=
  group.members.filter (·.takesPart registryType)

/-- `union_entries`. -/
def unionEntries (registryType : RegistryType) : List RegistryMapEntry :=
  unionOf [] ((group.parts registryType).flatMap (·.registryMap registryType))

/-- `max_register`. -/
def maxRegister (registryType : RegistryType) : Int :=
  (group.unionEntries registryType).foldl (fun m e => max m e.register) 0

/-- The settings of the primary. -/
def protocol : ProtocolSettings := (group.members.get group.primary).protocolSettings

/-- `calculate_registry_ranges` of the primary's protocol, for `init=True`. Its window size comes
from the protocol file: `range` raises for a step of zero, and is empty for a negative one. -/
def plan (registryType : RegistryType) : Except PyError (List (Int × Int)) :=
  let size := maxBatchSize group.protocol
  if size = 0 then .error .valueError
  else if size < 0 then .ok []
  else .ok (calculateRegistryRanges size (group.unionEntries registryType)
    (group.maxRegister registryType) true 0).1

end Group

/-! ## Reading -/

/-- What `read_modbus_registers` and `_read_registry_type_iter` collect while no read fails: the
registers of all ranges. -/
def readWords (ranges : List (Int × Int)) (content : Int → Word) (a : Int) : Option Word :=
  if Covered ranges a then some (content a) else none

section Read

variable (group : Group) (host : Host) (device : Device)

/-- One registry type of `read_group_data`. -/
def readGroupType (info : Dict String PyValue) (registryType : RegistryType) :
    Except PyError (Dict String PyValue) :=
  if group.unionEntries registryType = [] then .ok info
  else do
    let ranges ← group.plan registryType
    -- `if not registry: continue`
    if ranges.all (·.2 ≤ 0) then return info
    mergeM (fun member : GroupMember =>
        member.decodes host registryType (readWords ranges (device registryType)))
      (group.parts registryType) info

/-- `read_group_data`. `postProcess` is the primary's `post_process_data`. -/
def readGroupData (postProcess : Dict String PyValue → Dict String PyValue) :
    Except PyError (Dict String PyValue) :=
  (groupTypes.foldlM (readGroupType group host device) Dict.empty).map postProcess

end Read

/-! ## When the values are a member's own -/

/-- The decodes of a group read, in their order. -/
def Group.sendings (group : Group) : List (RegistryType × GroupMember) :=
  groupTypes.flatMap fun registryType => (group.parts registryType).map (registryType, ·)

namespace Group

variable (group : Group) (host : Host) (device : Device)

/-- The value of the last member, in the order of the decodes, whose own settings decode a name. -/
def lastDecode (name : String) : Option PyValue :=
  last (fun sending : RegistryType × GroupMember => sending.2.decodesAll host device sending.1)
    group.sendings name

/-- The plan reaches every register that an entry of a member decodes from. -/
def Covers : Prop :=
  ∀ sending ∈ group.sendings, ∃ ranges, group.plan sending.1 = .ok ranges ∧
    ∀ e ∈ sending.2.registryMap sending.1, e.descriptionSource = "" →
      ∀ a ∈ e.wordAddresses, Covered ranges a

/-- All entries of an entry's name in the group are plain and decode from the same registers. -/
def Sole (registryType : RegistryType) (e : RegistryMapEntry) : Prop :=
  ∀ sending ∈ group.sendings, ∀ e' ∈ sending.2.registryMap sending.1,
    e'.variableName = e.variableName → sending.1 = registryType ∧ e'.descriptionSource = "" ∧
      e'.concatenate = false ∧ e'.wordAddresses = e.wordAddresses

/-- The plan reaches the registers of such an entry, if the decode of its member returns. -/
def CoversSole : Prop :=
  ∀ sending ∈ group.sendings, Returns (sending.2.ownData host device) →
    ∀ e ∈ sending.2.registryMap sending.1, group.Sole sending.1 e →
      ∃ ranges, group.plan sending.1 = .ok ranges ∧ ∀ a ∈ e.wordAddresses, Covered ranges a

/-- For each of its own variables every member gets what its own settings decode. -/
def MatchesOwn (info : Dict String PyValue) : Prop :=
  ∀ member ∈ group.members, ∀ own, member.ownData host device = .ok own →
    ∀ name ∈ member.names, info.get? name = own.get? name

/-- The last decode of each of a member's names gives the member's own value. -/
def LastDecodesAgree : Prop :=
  ∀ member ∈ group.members, ∀ own, member.ownData host device = .ok own →
    ∀ name ∈ member.names, ∀ value, group.lastDecode host device name = some value →
      own.get? name = some value

end Group

/-! ## The registry of a member -/

section Registry

variable {ps : ProtocolSettings} {host : Host} {registryMap : List RegistryMapEntry}
  {snapshot snapshot' : Snapshot}

/-- Decoding a map is a matter of what its entries are decoded to. -/
theorem processRegistery_congr
    (h : ∀ e ∈ registryMap, e.descriptionSource = "" →
      ps.decodeEntry host snapshot e = ps.decodeEntry host snapshot' e) :
    ps.processRegistery host snapshot registryMap =
      ps.processRegistery host snapshot' registryMap := by
  have hstep : ∀ e ∈ registryMap, ∀ decoded, ps.decodeStep host snapshot decoded e =
      ps.decodeStep host snapshot' decoded e := by
    intro e he decoded
    unfold decodeStep
    by_cases hsource : e.descriptionSource = ""
    · rw [h e he hsource]
    · rw [if_pos hsource, if_pos hsource]
  unfold processRegistery
  rw [foldlM_congr hstep]

/-- Nothing is decoded from an empty registry. -/
theorem processRegistery_of_absent (h : ∀ a, snapshot.read a = none) :
    ps.processRegistery host snapshot registryMap = .ok Dict.empty := by
  have hdecode : registryMap.foldlM (ps.decodeStep host snapshot) ⟨Dict.empty, Dict.empty⟩ =
      .ok ⟨Dict.empty, Dict.empty⟩ := foldlM_of_fixed fun e _ => by
    unfold decodeStep
    rw [decodeEntry_of_absent (h e.register)]
    split <;> rfl
  have hcontext : registryMap.foldlM (contextStep host) Dict.empty = .ok Dict.empty :=
    foldlM_of_fixed fun _ _ => rfl
  have hdescribe : registryMap.foldlM (ps.describeStep host registryMap) Dict.empty =
      .ok Dict.empty := foldlM_of_fixed fun _ _ => rfl
  unfold processRegistery
  rw [hdecode]
  show (registryMap.foldlM (contextStep host) Dict.empty >>= _) = _
  rw [hcontext]
  exact hdescribe

variable {name : String}

theorem get?_contextStep_of_ne {info info' : Dict String PyValue} {e : RegistryMapEntry}
    (h : contextStep host info e = .ok info') (hne : e.variableName ≠ name) :
    info'.get? name = info.get? name := by
  unfold contextStep at h
  split at h
  · rw [← Except.ok.inj h]
  · obtain ⟨value, -, h⟩ := bind_eq_ok_iff.mp h
    rw [← Except.ok.inj h, Dict.get?_set, if_neg (Ne.symm hne)]

theorem get?_describeStep_of_ne {info info' : Dict String PyValue} {e : RegistryMapEntry}
    (h : ps.describeStep host registryMap info e = .ok info') (hne : e.variableName ≠ name) :
    info'.get? name = info.get? name := by
  unfold describeStep at h
  split at h
  · split at h
    · rw [← Except.ok.inj h]
    · obtain ⟨description, -, h⟩ := bind_eq_ok_iff.mp h
      split at h
      · rw [← Except.ok.inj h, Dict.get?_set, if_neg (Ne.symm hne)]
      · rw [← Except.ok.inj h]
  · rw [← Except.ok.inj h]

/-- An entry that describes nothing sets nothing in the description loop. -/
theorem describeStep_of_plain {info : Dict String PyValue} {e : RegistryMapEntry}
    (h : e.descriptionSource = "") : ps.describeStep host registryMap info e = .ok info := by
  unfold describeStep
  split
  · rw [if_pos h]
  · rfl

/-- A name has no value if none of its entries was read and none describes anything. -/
theorem get?_processRegistery_of_unread {info : Dict String PyValue}
    (h : ps.processRegistery host snapshot registryMap = .ok info)
    (hunread : ∀ e ∈ registryMap, e.variableName = name →
      e.descriptionSource = "" ∧ e.readIn snapshot = false) : info.get? name = none := by
  have hcontext : ∀ e ∈ registryMap, ∀ info info' : Dict String PyValue, info.get? name = none →
      contextStep host info e = .ok info' → info'.get? name = none := by
    intro e _ info info' hnone hstep
    by_cases hname : e.variableName = name
    · unfold contextStep at hstep
      rw [hname, hnone] at hstep
      rwa [← Except.ok.inj hstep]
    · rwa [get?_contextStep_of_ne hstep hname]
  have hdescribe : ∀ e ∈ registryMap, ∀ info info' : Dict String PyValue, info.get? name = none →
      ps.describeStep host registryMap info e = .ok info' → info'.get? name = none := by
    intro e he info info' hnone hstep
    by_cases hname : e.variableName = name
    · rw [describeStep_of_plain (hunread e he hname).1] at hstep
      rwa [← Except.ok.inj hstep]
    · rwa [get?_describeStep_of_ne hstep hname]
  have hown : ∀ e ∈ entriesOf name registryMap, e.readIn snapshot = false := by
    intro e he
    obtain ⟨hmem, hname⟩ := List.mem_filter.mp he
    exact (hunread e hmem (of_decide_eq_true hname)).2
  unfold processRegistery at h
  obtain ⟨decoded, hdecoded, h⟩ := bind_eq_ok_iff.mp h
  obtain ⟨adjusted, hadjusted, h⟩ := bind_eq_ok_iff.mp h
  have hempty : decoded.info.get? name = none :=
    get?_foldlM_of_unread filedAt_empty hown hdecoded
  exact foldlM_preserves (·.get? name = none) hdescribe
    (foldlM_preserves (·.get? name = none) hcontext hempty hadjusted) h

/-- A name has a value if the last of its entries that was read is plain. -/
theorem get?_processRegistery_of_lastRead {info : Dict String PyValue} {e : RegistryMapEntry}
    (h : ps.processRegistery host snapshot registryMap = .ok info)
    (hlast : lastRead snapshot (entriesOf name registryMap) = some e)
    (hplain : e.concatenate = false) : (info.get? name).isSome = true := by
  have hcontext : ∀ e ∈ registryMap, ∀ info info' : Dict String PyValue,
      (info.get? name).isSome = true → contextStep host info e = .ok info' →
        (info'.get? name).isSome = true := by
    intro e _ info info' hsome hstep
    unfold contextStep at hstep
    split at hstep
    · rwa [← Except.ok.inj hstep]
    · obtain ⟨value, -, hstep⟩ := bind_eq_ok_iff.mp hstep
      rw [← Except.ok.inj hstep, Dict.get?_set]
      split
      · rfl
      · exact hsome
  have hdescribe : ∀ e ∈ registryMap, ∀ info info' : Dict String PyValue,
      (info.get? name).isSome = true → ps.describeStep host registryMap info e = .ok info' →
        (info'.get? name).isSome = true := by
    intro e _ info info' hsome hstep
    by_cases hname : e.variableName = name
    · unfold describeStep at hstep
      split at hstep
      · split at hstep
        · rwa [← Except.ok.inj hstep]
        · obtain ⟨description, -, hstep⟩ := bind_eq_ok_iff.mp hstep
          split at hstep
          · rw [← Except.ok.inj hstep, Dict.get?_set, if_pos hname.symm]
            rfl
          · rwa [← Except.ok.inj hstep]
      · rwa [← Except.ok.inj hstep]
    · rwa [get?_describeStep_of_ne hstep hname]
  unfold processRegistery at h
  obtain ⟨decoded, hdecoded, h⟩ := bind_eq_ok_iff.mp h
  obtain ⟨adjusted, hadjusted, h⟩ := bind_eq_ok_iff.mp h
  obtain ⟨value, -, hvalue⟩ := get?_foldlM_of_lastRead filedAt_empty hlast hplain hdecoded
  have hsome : (decoded.info.get? name).isSome = true := by
    rw [hvalue]
    rfl
  exact foldlM_preserves (fun info => (info.get? name).isSome = true) hdescribe
    (foldlM_preserves (fun info => (info.get? name).isSome = true) hcontext hsome hadjusted) h

end Registry

/-! ## The read as one merge -/

section Merge

variable {group : Group} {host : Host} {device : Device} {info : Dict String PyValue}
  {postProcess : Dict String PyValue → Dict String PyValue}

/-- What a member decodes from the ranges of a registry type. -/
def Group.decodesRead (group : Group) (host : Host) (device : Device)
    (sending : RegistryType × GroupMember) : Except PyError (Dict String PyValue) := do
  sending.2.decodes host sending.1 (readWords (← group.plan sending.1) (device sending.1))

theorem unionOf_ne_nil {e : RegistryMapEntry} {entries : List RegistryMapEntry} :
    unionOf [] (e :: entries) ≠ [] := by
  unfold unionOf
  simp

/-- There are entries to read exactly if a member takes part. -/
theorem unionEntries_eq_nil_iff {registryType : RegistryType} :
    group.unionEntries registryType = [] ↔ group.parts registryType = [] := by
  unfold Group.unionEntries
  cases hparts : group.parts registryType with
  | nil => exact iff_of_true rfl rfl
  | cons member parts =>
    refine iff_of_false ?_ (by simp)
    have htakes : member.takesPart registryType = true :=
      (List.mem_filter.mp (hparts ▸ List.mem_cons_self :
        member ∈ group.parts registryType)).2
    unfold GroupMember.takesPart at htakes
    cases hmap : member.registryMap registryType with
    | nil =>
      rw [hmap] at htakes
      simp at htakes
    | cons e entries =>
      rw [List.flatMap_cons, hmap]
      exact unionOf_ne_nil

/-- Ranges without registers leave the registry empty. -/
theorem readWords_of_empty {ranges : List (Int × Int)} (h : ranges.all (·.2 ≤ 0) = true)
    (content : Int → Word) (a : Int) : readWords ranges content a = none := by
  refine if_neg ?_
  rintro ⟨range, hrange, hlo, hhi⟩
  have hcount := of_decide_eq_true (List.all_eq_true.mp h range hrange)
  omega

/-- One registry type of the read merges what its members decode. -/
theorem readGroupType_eq (info : Dict String PyValue) (registryType : RegistryType) :
    readGroupType group host device info registryType =
      mergeM (group.decodesRead host device)
        ((group.parts registryType).map (registryType, ·)) info := by
  unfold readGroupType
  by_cases hempty : group.unionEntries registryType = []
  · rw [if_pos hempty, unionEntries_eq_nil_iff.mp hempty]
    rfl
  · rw [if_neg hempty]
    cases hplan : group.plan registryType with
    | error err =>
      obtain ⟨member, parts, hparts⟩ :=
        List.exists_cons_of_ne_nil fun h => hempty (unionEntries_eq_nil_iff.mpr h)
      rw [hparts, List.map_cons, mergeM_cons, Group.decodesRead, hplan]
      rfl
    | ok ranges =>
      have hdecodes (member : GroupMember) :
          group.decodesRead host device (registryType, member) =
            member.decodes host registryType (readWords ranges (device registryType)) := by
        unfold Group.decodesRead
        rw [hplan]
        rfl
      have hmerge : mergeM (group.decodesRead host device)
          ((group.parts registryType).map (registryType, ·)) info =
          mergeM (fun member : GroupMember =>
            member.decodes host registryType (readWords ranges (device registryType)))
          (group.parts registryType) info :=
        (mergeM_map _ _ _).trans (mergeM_congr fun member _ => hdecodes member)
      show (if ranges.all (·.2 ≤ 0) then _ else _) = _
      rw [hmerge]
      by_cases hnone : ranges.all (·.2 ≤ 0) = true
      · rw [if_pos hnone]
        refine (mergeM_of_empty fun member _ => processRegistery_of_absent fun a => ?_).symm
        rw [read_words, readWords_of_empty hnone]
        rfl
      · rw [if_neg hnone]

/-- `read_group_data` is one merge of what the members decode. -/
theorem readGroupData_eq : readGroupData group host device postProcess =
    (mergeM (group.decodesRead host device) group.sendings Dict.empty).map postProcess := by
  have hstep : readGroupType group host device = fun info registryType =>
      mergeM (group.decodesRead host device)
        ((group.parts registryType).map (registryType, ·)) info :=
    funext fun info => funext fun registryType => readGroupType_eq info registryType
  rw [readGroupData, hstep, foldlM_mergeM]
  rfl

/-- Where the plan reaches all registers of a member, the read shows all that it decodes from. -/
theorem decodesRead_of_covers (hcovers : group.Covers) {sending : RegistryType × GroupMember}
    (h : sending ∈ group.sendings) :
    group.decodesRead host device sending = sending.2.decodesAll host device sending.1 := by
  obtain ⟨ranges, hplan, hreach⟩ := hcovers sending h
  unfold Group.decodesRead GroupMember.decodesAll GroupMember.decodes
  rw [hplan]
  refine processRegistery_congr fun e he hsource => decodeEntry_congr fun a ha => ?_
  rw [read_words, read_words, readWords, if_pos (hreach e he hsource a ha)]

theorem register_le_maxRegister {registryType : RegistryType} {e : RegistryMapEntry}
    (h : e ∈ group.unionEntries registryType) : e.register ≤ group.maxRegister registryType := by
  have hfold (entries : List RegistryMapEntry) (m : Int) :
      m ≤ entries.foldl (fun m e => max m e.register) m ∧
        ∀ e ∈ entries, e.register ≤ entries.foldl (fun m e => max m e.register) m := by
    induction entries generalizing m with
    | nil => exact ⟨le_rfl, fun _ h => absurd h List.not_mem_nil⟩
    | cons e entries ih =>
      obtain ⟨hle, hall⟩ := ih (max m e.register)
      refine ⟨le_trans (le_max_left _ _) hle, fun e' he' => ?_⟩
      rcases List.mem_cons.mp he' with rfl | he'
      · exact le_trans (le_max_right _ _) hle
      · exact hall e' he'
  exact (hfold _ 0).2 e h

/-- The plan reaches a register if it lies between the first register of one entry of the union and
the last register of another one of the same window. Entries that are not in the union, because
their register and name came before, do not count. -/
theorem covers_iff (hsize : 1 ≤ maxBatchSize group.protocol) :
    group.Covers ↔ ∀ sending ∈ group.sendings, ∀ e ∈ sending.2.registryMap sending.1,
      e.descriptionSource = "" → ∀ a ∈ e.wordAddresses,
        ∃ lo ∈ group.unionEntries sending.1, ∃ hi ∈ group.unionEntries sending.1,
          lo.readable = true ∧ hi.readable = true ∧
            SameWindow (maxBatchSize group.protocol) lo hi ∧ lo.register ≤ a ∧
              a ≤ hi.registerEnd := by
  have hplan (registryType : RegistryType) : group.plan registryType =
      .ok (calculateRegistryRanges (maxBatchSize group.protocol) (group.unionEntries registryType)
        (group.maxRegister registryType) true 0).1 := by
    unfold Group.plan
    rw [if_neg (by omega), if_neg (by omega)]
  have hcovered (registryType : RegistryType) (a : Int) :
      (∃ ranges, group.plan registryType = .ok ranges ∧ Covered ranges a) ↔
        ∃ lo ∈ group.unionEntries registryType, ∃ hi ∈ group.unionEntries registryType,
          lo.readable = true ∧ hi.readable = true ∧
            SameWindow (maxBatchSize group.protocol) lo hi ∧ lo.register ≤ a ∧
              a ≤ hi.registerEnd := by
    rw [hplan]
    simp only [Except.ok.injEq, exists_eq_left',
      covered_calculateRegistryRanges hsize fun e he => register_le_maxRegister he,
      RegistryMapEntry.planned, RegistryMapEntry.due, Bool.true_or, and_true]
  unfold Group.Covers
  refine forall₂_congr fun sending _ => ?_
  simp only [← hcovered, hplan, Except.ok.injEq, exists_eq_left']

theorem mem_sendings {registryType : RegistryType} {member : GroupMember} :
    (registryType, member) ∈ group.sendings ↔ registryType ∈ groupTypes ∧
      member ∈ group.members ∧ member.takesPart registryType = true := by
  unfold Group.sendings Group.parts
  simp only [List.mem_flatMap, List.mem_map, List.mem_filter, Prod.mk.injEq]
  constructor
  · rintro ⟨t, ht, m, hm, rfl, rfl⟩
    exact ⟨ht, hm⟩
  · rintro ⟨ht, hm⟩
    exact ⟨registryType, ht, member, hm, rfl, rfl⟩

/-- What a member decodes itself is decoded in the group. -/
theorem lastDecode_of_own {member : GroupMember} (hmember : member ∈ group.members)
    {own : Dict String PyValue} (hown : member.ownData host device = .ok own) {name : String}
    {value : PyValue} (hvalue : own.get? name = some value) :
    (group.lastDecode host device name).isSome = true := by
  rw [get?_mergeM hown] at hvalue
  obtain ⟨registryType, ht, layer, hlayer, hget⟩ := exists_of_last ((Option.or_eq_some_iff.mp
    hvalue).resolve_right fun h => by cases h.2)
  obtain ⟨ht, hsends⟩ := List.mem_filter.mp ht
  have htakes : member.takesPart registryType = true := by
    refine Bool.and_eq_true_iff.mpr ⟨hsends, ?_⟩
    cases hmap : member.registryMap registryType with
    | nil =>
      unfold GroupMember.decodesAll GroupMember.decodes at hlayer
      rw [hmap] at hlayer
      obtain rfl := Except.ok.inj hlayer
      cases hget
    | cons e entries => rfl
  by_contra hnone
  have hall := last_eq_none_iff.mp (Option.not_isSome_iff_eq_none.mp hnone) _
    (mem_sendings.mpr ⟨ht, hmember, htakes⟩) layer hlayer
  rw [hall] at hget
  cases hget

/-- What a name has after the read, while `post_process_data` leaves the members' variables alone. -/
theorem get?_readGroupData (hpost : ∀ info, ∀ member ∈ group.members, ∀ name ∈ member.names,
      (postProcess info).get? name = info.get? name)
    (hread : readGroupData group host device postProcess = .ok info) {member : GroupMember}
    (hmember : member ∈ group.members) {name : String} (hname : name ∈ member.names) :
    info.get? name = last (group.decodesRead host device) group.sendings name := by
  rw [readGroupData_eq] at hread
  obtain ⟨merged, hmerged, rfl⟩ := map_eq_ok_iff.mp hread
  rw [hpost merged member hmember name hname, get?_mergeM hmerged]
  exact Option.or_none

/-- Under a plan that reaches everything only the last decodes matter. -/
theorem matchesOwn_iff (hcovers : group.Covers)
    (hpost : ∀ info, ∀ member ∈ group.members, ∀ name ∈ member.names,
      (postProcess info).get? name = info.get? name)
    (hread : readGroupData group host device postProcess = .ok info) :
    group.MatchesOwn host device info ↔ group.LastDecodesAgree host device := by
  have hlast (member : GroupMember) (hmember : member ∈ group.members) (name : String)
      (hname : name ∈ member.names) : info.get? name = group.lastDecode host device name :=
    (get?_readGroupData hpost hread hmember hname).trans
      (last_congr (fun _ h => decodesRead_of_covers hcovers h) name)
  constructor
  · intro h member hmember own hown name hname value hvalue
    rw [← h member hmember own hown name hname, hlast member hmember name hname, hvalue]
  · intro h member hmember own hown name hname
    rw [hlast member hmember name hname]
    cases hdecode : group.lastDecode host device name with
    | some value => exact (h member hmember own hown name hname value hdecode).symm
    | none =>
      cases hvalue : own.get? name with
      | none => rfl
      | some value =>
        have hsome := lastDecode_of_own hmember hown hvalue
        rw [hdecode] at hsome
        cases hsome

theorem mem_names {member : GroupMember} {registryType : RegistryType} {e : RegistryMapEntry}
    (h : e ∈ member.registryMap registryType) : e.variableName ∈ member.names := by
  have ht : registryType ∈ Member.registryTypes := by cases registryType <;> decide
  exact List.mem_map_of_mem (List.mem_flatMap.mpr ⟨registryType, ht, h⟩)

/-- From the full content a member has a value for the name of a sole entry. -/
theorem get?_ownData_of_sole {registryType : RegistryType} {member : GroupMember}
    (hsending : (registryType, member) ∈ group.sendings) {own : Dict String PyValue}
    (hown : member.ownData host device = .ok own) {e : RegistryMapEntry}
    (he : e ∈ member.registryMap registryType) (hsole : group.Sole registryType e) :
    own.get? e.variableName ≠ none := by
  obtain ⟨ht, -, htakes⟩ := mem_sendings.mp hsending
  have hmem : registryType ∈ groupTypes.filter member.sends :=
    List.mem_filter.mpr ⟨ht, (Bool.and_eq_true_iff.mp htakes).1⟩
  obtain ⟨layer, hlayer⟩ := returns_mergeM_iff.mp ⟨own, hown⟩ registryType hmem
  have hall : ∀ e' ∈ (entriesOf e.variableName (member.registryMap registryType)).reverse,
      e'.readIn (.words fun a => some (device registryType a)) = true ∧
        e'.concatenate = false := by
    intro e' he'
    obtain ⟨hmem', hname⟩ := List.mem_filter.mp (List.mem_reverse.mp he')
    obtain ⟨-, hsource, hplain, -⟩ := hsole _ hsending e' hmem' (of_decide_eq_true hname)
    refine ⟨?_, hplain⟩
    unfold RegistryMapEntry.readIn
    rw [hsource]
    exact List.all_eq_true.mpr fun _ _ => rfl
  have hown' : e ∈ (entriesOf e.variableName (member.registryMap registryType)).reverse :=
    List.mem_reverse.mpr (List.mem_filter.mpr ⟨he, decide_eq_true rfl⟩)
  obtain ⟨found, hfound⟩ : ∃ found, lastRead (.words fun a => some (device registryType a))
      (entriesOf e.variableName (member.registryMap registryType)) = some found :=
    Option.isSome_iff_exists.mp (List.find?_isSome.mpr ⟨e, hown', (hall e hown').1⟩)
  have hsome := get?_processRegistery_of_lastRead hlayer hfound
    (hall found (List.mem_of_find?_eq_some hfound)).2
  intro hnone
  rw [get?_mergeM hown] at hnone
  rw [last_eq_none_iff.mp (Option.or_eq_none_iff.mp hnone).1 registryType hmem layer hlayer] at hsome
  cases hsome

/-- Where the members have their own values, the plan reaches what sole entries decode from. -/
theorem coversSole_of_matchesOwn
    (hpost : ∀ info, ∀ member ∈ group.members, ∀ name ∈ member.names,
      (postProcess info).get? name = info.get? name)
    (hread : readGroupData group host device postProcess = .ok info)
    (hmatches : group.MatchesOwn host device info) : group.CoversSole host device := by
  rintro ⟨registryType, member⟩ hsending ⟨own, hown⟩ e he hsole
  obtain ⟨-, hmember, -⟩ := mem_sendings.mp hsending
  have hvalue : last (group.decodesRead host device) group.sendings e.variableName ≠ none := by
    rw [← get?_readGroupData hpost hread hmember (mem_names he),
      hmatches member hmember own hown _ (mem_names he)]
    exact get?_ownData_of_sole hsending hown he hsole
  obtain ⟨value, hvalue⟩ := Option.ne_none_iff_exists'.mp hvalue
  obtain ⟨⟨t, member'⟩, hsending', layer, hlayer, hget⟩ := exists_of_last hvalue
  obtain ⟨ranges, hplan, hdecodes⟩ := bind_eq_ok_iff.mp hlayer
  -- one of the entries of the name was read, and it has the same registers
  by_contra hmissing
  rw [get?_processRegistery_of_unread hdecodes fun e' he' hname => ?_] at hget
  · cases hget
  · obtain ⟨rfl, hsource, -, hsame⟩ := hsole _ hsending' e' he' hname
    refine ⟨hsource, Bool.eq_false_iff.mpr fun hall => hmissing ⟨ranges, hplan, fun a ha => ?_⟩⟩
    have haddress : a ∈ e'.addressesIn (.words (readWords ranges (device t))) :=
      List.mem_append_left _ (show a ∈ e'.wordAddresses by rwa [hsame])
    have hsome := List.all_eq_true.mp (Bool.and_eq_true_iff.mp hall).2 a haddress
    by_contra huncovered
    rw [read_words, readWords, if_neg huncovered] at hsome
    cases hsome

end Merge

/-! ## Two members -/

/-- A member with holding registers only. -/
def holdingMember (rows : List Row)
    (h : (({} : ProtocolSettings).loadRegistry .holding rows).isSome = true) : GroupMember where
  protocolSettings := {}
  sends _ := true
  rows registryType := if registryType = .holding then rows else []
  registryMap registryType :=
    if registryType = .holding then (({} : ProtocolSettings).loadRegistry .holding rows).get h
    else []
  loaded registryType := by
    by_cases hholding : registryType = .holding
    · rw [if_pos hholding, if_pos hholding, hholding, Option.some_get]
    · rw [if_neg hholding, if_neg hholding]
      rfl

/-- A member with one register. -/
def batteryMember : GroupMember := holdingMember [{ cell := "40", variableName := "vbat" }] rfl

/-- A member with the next register. -/
def chargeMember : GroupMember := holdingMember [{ cell := "41", variableName := "soc" }] rfl

/-- Two members without common names. -/
def apartGroup : Group where
  members := [batteryMember, chargeMember]
  primary := ⟨0, Nat.zero_lt_two⟩

/-- Two members that read one register as a number with and without a sign. -/
def signedGroup : Group where
  members := [holdingMember [{ cell := "40", variableName := "power" }] rfl,
    holdingMember [{ cell := "40", variableName := "power", dataType := .short }] rfl]
  primary := ⟨0, Nat.zero_lt_two⟩

end GroupRead

end ProtocolGateway
