import ProtocolGateway.DiscoveryRuns
import ProtocolGateway.Lib.Dict

/-!
# Where telemetry goes

`mqtt.write_data` publishes what a scraper read, under topics that discovery told Home Assistant
about. Both build their topics with `_telemetry_topic`, but they find the registry type of a name in
two ways: discovery takes the first map that has the name, in the order in which the maps are
loaded, and `write_data` looks it up in a dictionary that `init_bridge` fills in another order,
where the last map counts.

* `writeData` — the messages of `write_data`.
* `topics_agree_iff` — an entity reads the topic that its value goes to exactly if the prefixes of
  the two types are the same, whatever the case of their letters, or the data goes out as JSON.
-/

namespace ProtocolGateway

namespace MqttDiscovery

open WriteRouting

/-! ## The types of the names -/

/-- The names of a map, as `init_bridge` lists them. -/
def Device.names (d : Device) (registryType : RegistryType) : List String :=
  (d.registryMap registryType).map fun he => underscored he.entry.variableName

/-- `_registry_type_by_name` of a device, as `init_bridge` builds it. -/
def Device.registryTypeByName (d : Device) : Dict String RegistryType :=
  [RegistryType.holding, .input, .coil, .discrete].foldl
    (fun types registryType =>
      types.update ((d.names registryType).map fun name => (name, registryType)))
    Dict.empty

/-- The last map that has a name. -/
def Device.lastType (d : Device) (name : String) : Option RegistryType :=
  [RegistryType.discrete, .coil, .input, .holding].find? fun registryType =>
    name ∈ d.names registryType

/-- Writing one value under many names. -/
theorem get?_update_const {types : Dict String RegistryType} {names : List String}
    {registryType : RegistryType} {name : String} :
    (types.update (names.map fun name => (name, registryType))).get? name =
      if name ∈ names then some registryType else types.get? name := by
  induction names generalizing types with
  | nil => simp
  | cons n names ih =>
    rw [List.map_cons, Dict.update_cons, ih, Dict.get?_set]
    by_cases hmem : name ∈ names
    · simp [hmem]
    · by_cases hn : name = n
      · simp [hn]
      · simp [hmem, hn]

/-- The dictionary has the last map of each name. -/
theorem get?_registryTypeByName (d : Device) (name : String) :
    d.registryTypeByName.get? name = d.lastType name := by
  unfold Device.registryTypeByName Device.lastType
  simp only [List.foldl_cons, List.foldl_nil, get?_update_const]
  by_cases hdiscrete : name ∈ d.names .discrete
  · simp [hdiscrete]
  · by_cases hcoil : name ∈ d.names .coil
    · simp [hdiscrete, hcoil]
    · by_cases hinput : name ∈ d.names .input
      · simp [hdiscrete, hcoil, hinput]
      · by_cases hholding : name ∈ d.names .holding
        · simp [hdiscrete, hcoil, hinput, hholding]
        · simp [hdiscrete, hcoil, hinput, hholding, Dict.get?, List.find?]

/-! ## The messages -/

/-- A message of `write_data`. -/
inductive Telemetry (ν : Type)
  /-- a retained `online` -/
  | online (topic : String)
  /-- one metric; its name is not in the message -/
  | value (metric topic : String) (v : ν)
  /-- all metrics by their names -/
  | json (topic : String) (data : Dict String ν)

variable {ν : Type}

/-- The message is about a metric. -/
def Telemetry.About (name : String) : Telemetry ν → Prop
  | .online _ => False
  | .value metric _ _ => metric = name
  | .json _ data => name ∈ data.keys

/-- The topic of a device. -/
def deviceTopic (m : Settings) (d : Device) : String :=
  m.baseTopic ++ "/" ++ d.transport.deviceIdentifier

/-- `write_data`: nothing but the availability goes out if that does not reach the broker. -/
def writeData (m : Settings) (d : Device) (types : Dict String RegistryType) (reached : Bool)
    (data : Dict String ν) : List (Telemetry ν) :=
  .online (deviceTopic m d ++ "/availability") ::
    if reached then
      .online m.bridgeStatusTopic ::
        if m.json then [.json (deviceTopic m d) data]
        else data.items.map fun metric =>
          .value metric.1 (m.telemetryTopic d.transport metric.1 (types.get? metric.1)) metric.2
    else []

/-- An entity that reads a topic for a name takes a value from a message: the message is on the
topic and says the value, in JSON mode under the name. -/
def Takes (p : Pass) (topic name : String) (v : ν) : Telemetry ν → Prop
  | .online _ => False
  | .value _ topic' v' => p.settings.json = false ∧ topic' = topic ∧ v' = v
  | .json topic' data => p.settings.json = true ∧ topic' = topic ∧ data.get? name = some v

/-- The messages about a metric. -/
theorem about_writeData_iff {m : Settings} {d : Device} {types : Dict String RegistryType}
    {data : Dict String ν} {name : String} {v : ν} (hdata : data.get? name = some v)
    {message : Telemetry ν} :
    message ∈ writeData m d types true data ∧ message.About name ↔
      message = if m.json then .json (deviceTopic m d) data
        else .value name (m.telemetryTopic d.transport name (types.get? name)) v := by
  have hkey : (name, v) ∈ data.items := Dict.mem_of_get? hdata
  unfold writeData
  cases hjson : m.json with
  | true =>
    simp only [if_true, List.mem_cons, List.not_mem_nil, or_false]
    constructor
    · rintro ⟨rfl | rfl | rfl, habout⟩
      · exact habout.elim
      · exact habout.elim
      · rfl
    · rintro rfl
      exact ⟨Or.inr (Or.inr rfl), Dict.mem_keys.mpr ⟨v, hkey⟩⟩
  | false =>
    simp only [if_true, Bool.false_eq_true, if_false, List.mem_cons, List.mem_map]
    constructor
    · rintro ⟨rfl | rfl | ⟨metric, hmetric, rfl⟩, habout⟩
      · exact habout.elim
      · exact habout.elim
      · obtain ⟨k, v'⟩ := metric
        obtain rfl : k = name := habout
        rw [Dict.eq_of_mem hmetric hkey]
    · rintro rfl
      exact ⟨Or.inr (Or.inr ⟨(name, v), hkey, rfl⟩), rfl⟩

/-- Home Assistant has an entity of a name from a pass, which reads a topic. -/
def EntityReads (conv : Conversions) (p : Pass) (name topic : String) : Prop :=
  ∃ re c m, p.planned name = some re ∧
    (planDiscoveryEntity conv p re.1 re.2 name).published = some (c, m) ∧ m.stateTopic = some topic

/-! ## The two topics -/

section Topics

variable {p : Pass} {m : Settings} {name : String} {re : RegistryType × HaEntry}

/-- The prefix of a registry type, if there is one. -/
def Settings.prefixOf (m : Settings) (registryType : Option RegistryType) : String :=
  registryType.elim "" m.typePrefix

/-- The letters of a telemetry topic. -/
theorem toList_telemetryTopic (t : Transport) (registryType : Option RegistryType) :
    (m.telemetryTopic t name registryType).toList =
      Text.lower (m.baseTopic ++ "/" ++ t.deviceIdentifier ++ "/").toList ++
        (if m.prefixOf registryType = "" then []
          else Text.lower (m.prefixOf registryType).toList ++ ['/']) ++ Text.lower name.toList := by
  unfold Settings.telemetryTopic Settings.prefixOf lowerText
  dsimp only
  rw [String.toList_ofList]
  split
  · have hjoin : "/".intercalate ([m.baseTopic, t.deviceIdentifier] ++ [] ++ [name]) =
        m.baseTopic ++ "/" ++ t.deviceIdentifier ++ "/" ++ name := rfl
    rw [hjoin]
    simp [Text.lower]
  · next hprefix =>
    generalize registryType.elim "" m.typePrefix = registryPrefix
    have hjoin : "/".intercalate
        ([m.baseTopic, t.deviceIdentifier] ++ [registryPrefix] ++ [name]) =
          m.baseTopic ++ "/" ++ t.deviceIdentifier ++ "/" ++ registryPrefix ++ "/" ++ name := rfl
    rw [hjoin]
    have hslash : Text.lower ['/'] = ['/'] := by decide
    simp [Text.lower] at hslash ⊢
    exact hslash

/-- Two telemetry topics of a name are the same exactly if the prefixes are, in small letters. -/
theorem telemetryTopic_eq_iff (t : Transport) (a b : Option RegistryType) :
    m.telemetryTopic t name a = m.telemetryTopic t name b ↔
      lowerText (m.prefixOf a) = lowerText (m.prefixOf b) := by
  have hlower : ∀ s s' : String, lowerText s = lowerText s' ↔
      Text.lower s.toList = Text.lower s'.toList := fun s s' => String.ofList_inj
  have hempty : ∀ s : String, Text.lower s.toList = [] ↔ s = "" := by
    intro s
    rw [Text.lower, List.map_eq_nil_iff, String.toList_eq_nil_iff]
  rw [← String.toList_inj, toList_telemetryTopic, toList_telemetryTopic, List.append_left_inj,
    List.append_right_inj, hlower]
  by_cases ha : m.prefixOf a = ""
  · rw [if_pos ha, (hempty _).mpr ha]
    split
    · next hb => rw [(hempty _).mpr hb]
    · next hb => exact iff_of_false (by simp) fun h => hb ((hempty _).mp h.symm)
  · rw [if_neg ha]
    split
    · next hb =>
      rw [(hempty _).mpr hb]
      exact iff_of_false (by simp) fun h => ha ((hempty _).mp h)
    · exact List.append_left_inj _

/-- Which topic the entity of a name reads, if there is one. -/
theorem entityReads_iff (conv : Conversions) {topic : String} : EntityReads conv p name topic ↔
    ∃ re c, p.planned name = some re ∧ component p re.1 re.2 name = some c ∧
      hasState re.2 c = true ∧ topic = stateTopic p re.1 name := by
  unfold EntityReads
  constructor
  · rintro ⟨re, c, m, hplanned, hpublished, htopic⟩
    obtain ⟨c', hcomponent, heq⟩ := Option.map_eq_some_iff.mp hpublished
    obtain ⟨rfl, rfl⟩ := Prod.mk.inj heq
    change (if hasState re.2 c' then some (stateTopic p re.1 name) else none) = some topic
      at htopic
    split at htopic
    · next hstate =>
      exact ⟨re, c', hplanned, hcomponent, hstate, (Option.some.inj htopic).symm⟩
    · cases htopic
  · rintro ⟨re, c, hplanned, hcomponent, hstate, rfl⟩
    refine ⟨re, c, payload conv p re.1 re.2 name c, hplanned, ?_, if_pos hstate⟩
    simp only [planDiscoveryEntity, hcomponent, Option.map_some]

/-- A value of a name goes to the state topic of a type exactly if the data goes out as JSON, or the
type and the last map with the name have the same prefix, in small letters. -/
theorem takes_iff {data : Dict String ν} {v : ν} (hdata : data.get? name = some v)
    (registryType : RegistryType) :
    (∃ message ∈ writeData p.settings p.device p.device.registryTypeByName true data,
        message.About name ∧ Takes p (stateTopic p registryType name) name v message) ↔
      p.settings.json = true ∨ lowerText (p.settings.typePrefix registryType) =
        lowerText (p.settings.prefixOf (p.device.lastType name)) := by
  simp only [← and_assoc, about_writeData_iff hdata, exists_eq_left]
  cases hjson : p.settings.json with
  | true =>
    have hstate : stateTopic p registryType name = deviceTopic p.settings p.device := if_pos hjson
    simp [Takes, hjson, hstate, hdata]
  | false =>
    have hstate : stateTopic p registryType name =
        p.settings.telemetryTopic p.device.transport name (some registryType) :=
      if_neg (by simp [hjson])
    simp only [Bool.false_eq_true, if_false, false_or, Takes, hjson, hstate,
      get?_registryTypeByName, true_and, and_true]
    rw [telemetryTopic_eq_iff, eq_comm]
    rfl

/-- **Which values Home Assistant sees.** The entity of a name takes the value of the name from the
message about it, if and only if discovery publishes the first entry of the name, as an entity with
a state, and the data goes out as JSON or the type of the entry and the last map with the name have
the same prefix, in small letters. -/
theorem value_seen_iff (conv : Conversions) {data : Dict String ν} {v : ν}
    (hdata : data.get? name = some v) :
    (∃ topic, EntityReads conv p name topic ∧
        ∃ message ∈ writeData p.settings p.device p.device.registryTypeByName true data,
          message.About name ∧ Takes p topic name v message) ↔
      ∃ re c, p.planned name = some re ∧ component p re.1 re.2 name = some c ∧
        hasState re.2 c = true ∧ (p.settings.json = true ∨
          lowerText (p.settings.typePrefix re.1) =
            lowerText (p.settings.prefixOf (p.device.lastType name))) := by
  constructor
  · rintro ⟨topic, hreads, htakes⟩
    obtain ⟨re, c, hplanned, hcomponent, hstate, rfl⟩ := (entityReads_iff conv).mp hreads
    exact ⟨re, c, hplanned, hcomponent, hstate, (takes_iff hdata re.1).mp htakes⟩
  · rintro ⟨re, c, hplanned, hcomponent, hstate, hagree⟩
    exact ⟨_, (entityReads_iff conv).mpr ⟨re, c, hplanned, hcomponent, hstate, rfl⟩,
      (takes_iff hdata re.1).mpr hagree⟩

/-- A name in the holding map and in the input map, which has a prefix. -/
def sharedPass : Pass where
  settings := { (socPass []).settings with inputRegisterPrefix := "in" }
  device :=
    { doorPass.device with
      registryMap := fun registryType =>
        if registryType = .holding ∨ registryType = .input then [socEntry] else [] }
  writeTopics := []

/-- Home Assistant does not see the value of a name that two maps share. -/
theorem shared_name_unseen : ¬∃ topic, EntityReads plainConversions sharedPass "soc" topic ∧
    ∃ message ∈ writeData sharedPass.settings sharedPass.device
        sharedPass.device.registryTypeByName true (Dict.empty.set "soc" 50),
      message.About "soc" ∧ Takes sharedPass topic "soc" 50 message := by
  rw [value_seen_iff plainConversions (by decide)]
  rintro ⟨re, c, hplanned, -, -, hjson | hagree⟩
  · cases hjson
  · have hfirst : sharedPass.planned "soc" = some (.holding, socEntry) := rfl
    obtain rfl := Option.some.inj (hfirst.symm.trans hplanned)
    exact absurd hagree (by decide)

end Topics

end MqttDiscovery

end ProtocolGateway
