import ProtocolGateway.Lib.Runs
import ProtocolGateway.Loader

/-!
# The way of a write command

`mqtt.init_bridge` subscribes a write topic for every entry of a device that is writable and listed
in the device's allowlist. A message on the topic finds the entry, `Protocol_Gateway.on_message`
hands its variable name to the first transport bridged to the broker, and `modbus_base.write_data`
looks the name up again in the device's holding and coil maps. The device of the topic, its registry
type and the allowlist are not handed over.

The state holds the topic maps, whose values here remember which device and map they were
subscribed for, the devices' `write_enabled` flags and the allowlist files. Whether `write_variable`
sends a request for a value is left open.

`message_exact_iff` says for which messages the command reaches exactly the register its topic
names.
-/

namespace ProtocolGateway

namespace WriteRouting

/-! ## Transports -/

/-- The settings of an `mqtt` transport that topics depend on. -/
structure Mqtt where
  baseTopic : String
  holdingRegisterPrefix : String
  coilRegisterPrefix : String
  discoveryEnabled : Bool
  discoveryTopic : String

/-- What kind of transport it is. -/
inductive Role
  /-- a Modbus device, with its holding and coil maps -/
  | device (holding coil : List RegistryMapEntry)
  | mqtt (m : Mqtt)
  /-- a transport that only takes data -/
  | output

/-- A transport of the configuration. -/
structure Transport where
  transportName : String
  deviceIdentifier : String
  bridges : List String
  role : Role

namespace Transport

/-- `get_registry_map`. -/
def getRegistryMap (t : Transport) : RegistryType → List RegistryMapEntry :=
  match t.role with
  | .device holding coil => fun registryType =>
    match registryType with
    | .holding => holding
    | .coil => coil
    | _ => []
  | _ => fun _ => []

/-- `_are_bridged`. -/
def areBridged (a b : Transport) : Bool :=
  b.transportName ∈ a.bridges || a.transportName ∈ b.bridges

end Transport

/-- The transports of the gateway, in the order of the configuration. -/
abbrev Config := List Transport

/-- An entry object: its device, its map and its place in it. -/
structure EntryRef where
  device : Nat
  registryType : RegistryType
  index : Nat
  deriving DecidableEq, Repr

variable (cfg : Config)

/-- The registry map of a transport. -/
def registryMap (k : Nat) (registryType : RegistryType) : List RegistryMapEntry :=
  match cfg[k]? with
  | some t => t.getRegistryMap registryType
  | none => []

/-- The entry a reference stands for. -/
def entryOf (ref : EntryRef) : Option RegistryMapEntry :=
  (registryMap cfg ref.device ref.registryType)[ref.index]?

/-- The transports are linked, in either direction. -/
def Bridged (b k : Nat) : Prop :=
  ∃ tb tk, cfg[b]? = some tb ∧ cfg[k]? = some tk ∧ tb.areBridged tk = true

/-! ## Topics -/

/-- `name.lower().replace(" ", "_")`. -/
def underscored (name : String) : String :=
  String.ofList ((Text.lower name.toList).map fun c => if c = ' ' then '_' else c)

/-- The name an allowlist lists an entry under. -/
def entryName (e : RegistryMapEntry) : String :=
  underscored (String.ofList (Text.strip e.documentedName.toList))

/-- `_registry_type_prefix`, for the types that can be written. -/
def Mqtt.registryTypePrefix (m : Mqtt) : RegistryType → String
  | .holding => m.holdingRegisterPrefix
  | .coil => m.coilRegisterPrefix
  | _ => ""

/-- `_write_topic`. -/
def Mqtt.writeTopic (m : Mqtt) (t : Transport) (varName : String) (registryType : RegistryType) :
    String :=
  let registryPrefix := m.registryTypePrefix registryType
  let parts := [m.baseTopic, t.deviceIdentifier] ++
    (if registryPrefix = "" then [] else [registryPrefix]) ++ [varName]
  "/".intercalate parts ++ "/write"

/-- `_ha_status_topic`. -/
def Mqtt.haStatusTopic (m : Mqtt) : String := m.discoveryTopic ++ "/status"

/-- `write_mode in (WriteMode.WRITE, WriteMode.WRITEONLY)`. -/
def Writable (e : RegistryMapEntry) : Prop := e.writeMode = .write ∨ e.writeMode = .writeOnly

instance (e : RegistryMapEntry) : Decidable (Writable e) :=
  inferInstanceAs (Decidable (_ ∨ _))

/-! ## The gateway -/

/-- What changes while the gateway runs. -/
structure State where
  /-- `_write_topics` of each `mqtt` transport -/
  writeTopics : Nat → List (String × EntryRef)
  /-- `write_enabled` of each transport -/
  writeEnabled : Nat → Bool
  /-- the documented names in each device's `<device>.writable.csv` -/
  writableFile : Nat → List String

/-- `_load_writable_allowlist`. -/
def loadWritableAllowlist (s : State) (k : Nat) : List String :=
  ((s.writableFile k).map fun name =>
    underscored (String.ofList (Text.strip name.toList))).filter (· ≠ "")

/-- One entry of the loop in `init_bridge`. A topic that is taken stays as it is: it maps to another
entry, which wins, or to this one. -/
def subscribeEntry (m : Mqtt) (t : Transport) (allowlist : List String)
    (topics : List (String × EntryRef)) (ref : EntryRef) (e : RegistryMapEntry) :
    List (String × EntryRef) :=
  if Writable e ∧ entryName e ∈ allowlist then
    let topic := m.writeTopic t (underscored e.variableName) ref.registryType
    match topics.lookup topic with
    | some _ => topics
    | none => topics ++ [(topic, ref)]
  else topics

/-- The entries `init_bridge` goes over, holding before coil. -/
def subscribable (k : Nat) : List (EntryRef × RegistryMapEntry) :=
  [RegistryType.holding, .coil].flatMap fun registryType =>
    (registryMap cfg k registryType).zipIdx.map fun (e, i) => (⟨k, registryType, i⟩, e)

/-- `init_bridge` of `mqtt` transport `b` with transport `k`. -/
def initBridge (s : State) (b k : Nat) : State :=
  match cfg[b]?, cfg[k]? with
  | some ⟨_, _, _, .mqtt m⟩, some t =>
    if s.writeEnabled k then
      let devicePrefix := m.baseTopic ++ "/" ++ t.deviceIdentifier ++ "/"
      let kept := (s.writeTopics b).filter fun kv => !devicePrefix.toList.isPrefixOf kv.1.toList
      let allowlist := loadWritableAllowlist s k
      let topics := (subscribable cfg k).foldl
        (fun topics re => subscribeEntry m t allowlist topics re.1 re.2) kept
      { s with writeTopics := Function.update s.writeTopics b topics }
    else s
  | _, _ => s

/-- What happens to the gateway between messages. -/
inductive Label
  | initBridge (b k : Nat)
  | setWriteEnabled (k : Nat) (enabled : Bool)
  | commitWritable (k : Nat) (names : List String)

/-- The gateway calls `init_bridge` for linked transports; the flags and the files are changed from
outside. -/
inductive Step : State → Label → State → Prop
  | initBridge {s : State} {b k : Nat} (linked : Bridged cfg b k) (ne : b ≠ k) :
      Step s (.initBridge b k) (initBridge cfg s b k)
  | setWriteEnabled {s : State} (k : Nat) (enabled : Bool) :
      Step s (.setWriteEnabled k enabled)
        { s with writeEnabled := Function.update s.writeEnabled k enabled }
  | commitWritable {s : State} (k : Nat) (names : List String) :
      Step s (.commitWritable k names)
        { s with writableFile := Function.update s.writableFile k names }

/-- A gateway starts without write topics. -/
def system : Runs.System State Label where
  init s := ∀ b, s.writeTopics b = []
  step := Step cfg

/-! ## Messages -/

/-- A write request to a device. -/
structure DeviceWrite where
  device : Nat
  registryType : RegistryType
  register : Int
  deriving DecidableEq, Repr

/-- What a message sets off: the transports whose `write_data` gets the value, and the write
requests. -/
structure Effect where
  given : List Nat
  writes : List DeviceWrite
  deriving DecidableEq, Repr

/-- The entry `client_on_message` emits a message for. -/
def clientOnMessage (s : State) (b : Nat) (topic : String) : Option EntryRef :=
  match cfg[b]? with
  | some ⟨_, _, _, .mqtt m⟩ =>
    if m.discoveryEnabled ∧ topic = m.haStatusTopic then none else (s.writeTopics b).lookup topic
  | _ => none

/-- The transport `on_message` picks: the first that is bridged to the sender. -/
def firstBridged (b : Nat) : Option Nat :=
  (List.range cfg.length).find? fun k => k ≠ b && (match cfg[b]?, cfg[k]? with
    | some tb, some tk => tb.areBridged tk
    | _, _ => false)

/-- The lookup in `write_data`: by name, the holding map before the coil map. -/
def findWritable (k : Nat) (variableName : String) : Option (RegistryType × RegistryMapEntry) :=
  match (registryMap cfg k .holding).find? fun e => e.variableName = variableName with
  | some e => some (.holding, e)
  | none =>
    match (registryMap cfg k .coil).find? fun e => e.variableName = variableName with
    | some e => some (.coil, e)
    | none => none

/-- `write_data` of a device, for the names in the data. `accept` tells whether `write_variable`
sends its request. -/
def writeData (s : State) (accept : RegistryMapEntry → Bool) (k : Nat) (names : List String) :
    List DeviceWrite :=
  if s.writeEnabled k then
    names.flatMap fun variableName =>
      match findWritable cfg k variableName with
      | some (registryType, e) =>
        if e.writeMode = .read ∨ e.writeMode = .readDisabled then []
        else if accept e then [⟨k, registryType, e.register⟩]
        else []
      | none => []
  else []

/-- A message on a topic of `mqtt` transport `b`, from `client_on_message` to the write requests. -/
def message (s : State) (accept : RegistryMapEntry → Bool) (b : Nat) (topic : String) : Effect :=
  match clientOnMessage cfg s b topic with
  | none => ⟨[], []⟩
  | some ref =>
    match entryOf cfg ref, firstBridged cfg b with
    | some e, some k => ⟨[k], writeData cfg s accept k [e.variableName]⟩
    | _, _ => ⟨[], []⟩

/-- The message does what its topic says: on a topic subscribed for an entry only the entry's device
is given the value, and makes at most one write, to the entry's register, while the entry is writable
and listed; any other message does nothing. -/
def Exact (s : State) (b : Nat) (topic : String) (effect : Effect) : Prop :=
  match (s.writeTopics b).lookup topic with
  | some ref =>
    (∀ k ∈ effect.given, k = ref.device) ∧ effect.writes.length ≤ 1 ∧
      ∀ w ∈ effect.writes, ∃ e, entryOf cfg ref = some e ∧
        w = ⟨ref.device, ref.registryType, e.register⟩ ∧ Writable e ∧
        entryName e ∈ loadWritableAllowlist s ref.device
  | none => effect = ⟨[], []⟩

/-- The condition: a message for an entry finds the entry's device as the first transport bridged to
the broker; and if the device takes writes and the variable name finds a register that may be
written, that register is the entry's, and the entry is still listed. -/
def Routable (s : State) (b : Nat) (topic : String) : Prop :=
  ∀ ref e, clientOnMessage cfg s b topic = some ref → entryOf cfg ref = some e →
    firstBridged cfg b = some ref.device ∧
    ∀ registryType e', s.writeEnabled ref.device = true →
      findWritable cfg ref.device e.variableName = some (registryType, e') →
      e'.writeMode ≠ .read → e'.writeMode ≠ .readDisabled →
      registryType = ref.registryType ∧ e'.register = e.register ∧
        entryName e ∈ loadWritableAllowlist s ref.device

/-! ## Write topics -/

section Topics

variable {cfg} {s s' : State} {b k : Nat} {l : Label}

/-- A topic is subscribed for a writable entry of a linked device. -/
def Subscribed (cfg : Config) (b : Nat) (ref : EntryRef) : Prop :=
  Bridged cfg b ref.device ∧ ref.device ≠ b ∧ ∃ e, entryOf cfg ref = some e ∧ Writable e

/-- The invariant of the topic maps. -/
def TopicsSound (cfg : Config) (s : State) : Prop :=
  ∀ b topic ref, (topic, ref) ∈ s.writeTopics b → Subscribed cfg b ref

theorem mem_of_lookup {topics : List (String × EntryRef)} {topic : String} {ref : EntryRef}
    (h : topics.lookup topic = some ref) : (topic, ref) ∈ topics := by
  obtain ⟨before, after, rfl, -⟩ := List.lookup_eq_some_iff.mp h
  simp

theorem entryOf_of_subscribable {re : EntryRef × RegistryMapEntry}
    (h : re ∈ subscribable cfg k) : re.1.device = k ∧ entryOf cfg re.1 = some re.2 := by
  obtain ⟨registryType, -, h⟩ := List.mem_flatMap.mp h
  obtain ⟨⟨e, i⟩, hmem, rfl⟩ := List.mem_map.mp h
  exact ⟨rfl, List.mk_mem_zipIdx_iff_getElem?.mp hmem⟩

theorem mem_subscribeEntry {m : Mqtt} {t : Transport} {allowlist : List String}
    {topics : List (String × EntryRef)} {ref : EntryRef} {e : RegistryMapEntry}
    {kv : String × EntryRef} (h : kv ∈ subscribeEntry m t allowlist topics ref e) :
    kv ∈ topics ∨ (kv.2 = ref ∧ Writable e) := by
  unfold subscribeEntry at h
  split at h
  · next hw =>
    dsimp only at h
    split at h
    · exact Or.inl h
    · rcases List.mem_append.mp h with h | h
      · exact Or.inl h
      · rw [List.mem_singleton.mp h]
        exact Or.inr ⟨rfl, hw.1⟩
  · exact Or.inl h

/-- What the loop of `init_bridge` subscribes was there before or is a writable entry of the
device. -/
theorem mem_subscribe {m : Mqtt} {t : Transport} {allowlist : List String}
    {entries : List (EntryRef × RegistryMapEntry)} {topics : List (String × EntryRef)}
    {kv : String × EntryRef}
    (h : kv ∈ entries.foldl (fun topics re => subscribeEntry m t allowlist topics re.1 re.2)
      topics) :
    kv ∈ topics ∨ ∃ re ∈ entries, kv.2 = re.1 ∧ Writable re.2 := by
  induction entries generalizing topics with
  | nil => exact Or.inl h
  | cons re entries ih =>
    rcases ih h with h | ⟨re', hmem, hkv⟩
    · rcases mem_subscribeEntry h with h | hkv
      · exact Or.inl h
      · exact Or.inr ⟨re, List.mem_cons_self, hkv⟩
    · exact Or.inr ⟨re', List.mem_cons_of_mem _ hmem, hkv⟩

theorem topicsSound_initBridge (h : TopicsSound cfg s) (hlinked : Bridged cfg b k) (hne : b ≠ k) :
    TopicsSound cfg (initBridge cfg s b k) := by
  unfold initBridge
  split
  · split
    · intro b' topic ref hmem
      by_cases hb : b' = b
      · subst hb
        simp only [Function.update_self] at hmem
        rcases mem_subscribe hmem with hmem | ⟨re, hre, href, hw⟩
        · exact h b' topic ref (List.mem_of_mem_filter hmem)
        · obtain ⟨hdev, hentry⟩ := entryOf_of_subscribable hre
          obtain rfl : ref = re.1 := href
          exact ⟨hdev ▸ hlinked, hdev ▸ hne.symm, re.2, hentry, hw⟩
      · simp only [Function.update_of_ne hb] at hmem
        exact h b' topic ref hmem
    · exact h
  · exact h

theorem topicsSound_of_reachable (h : Runs.Reachable (system cfg) s) : TopicsSound cfg s := by
  refine h.invariant (P := TopicsSound cfg) (fun s h0 b topic ref hmem => ?_)
    fun s l s' _ ih _ hs => ?_
  · rw [show s.writeTopics b = [] from h0 b] at hmem
    exact absurd hmem (by simp)
  · cases (show Step cfg s l s' from hs) with
    | initBridge hlinked hne => exact topicsSound_initBridge ih hlinked hne
    | setWriteEnabled _ _ | commitWritable _ _ => exact ih

/-! ## Where messages go -/

/-- A message is emitted only for the entry of its topic. -/
theorem lookup_of_clientOnMessage {topic : String} {ref : EntryRef}
    (h : clientOnMessage cfg s b topic = some ref) : (s.writeTopics b).lookup topic = some ref := by
  unfold clientOnMessage at h
  split at h
  · split at h
    · exact absurd h (by simp)
    · exact h
  · exact absurd h (by simp)

/-- A linked transport is found. -/
theorem firstBridged_isSome (h : Bridged cfg b k) (hne : k ≠ b) :
    (firstBridged cfg b).isSome = true := by
  obtain ⟨tb, tk, hb, hk, hbridged⟩ := h
  have hlt : k < cfg.length := by
    by_contra hge
    rw [List.getElem?_eq_none (Nat.le_of_not_lt hge)] at hk
    exact absurd hk (by simp)
  refine List.find?_isSome.mpr ⟨k, List.mem_range.mpr hlt, ?_⟩
  simp [hne, hb, hk, hbridged]

/-- A device makes one write for one name, to the register the name finds. -/
theorem writeData_single {accept : RegistryMapEntry → Bool} {variableName : String} :
    (writeData cfg s accept k [variableName]).length ≤ 1 ∧
      ∀ w ∈ writeData cfg s accept k [variableName], s.writeEnabled k = true ∧
        ∃ registryType e, findWritable cfg k variableName = some (registryType, e) ∧
          e.writeMode ≠ .read ∧ e.writeMode ≠ .readDisabled ∧
          w = ⟨k, registryType, e.register⟩ := by
  unfold writeData
  split
  · next henabled =>
    rw [List.flatMap_singleton]
    split
    · next registryType e hfind =>
      split
      · simp
      · next hmode =>
        rw [not_or] at hmode
        split
        · refine ⟨Nat.le_refl 1, fun w hw => ?_⟩
          exact ⟨henabled, registryType, e, hfind, hmode.1, hmode.2, List.mem_singleton.mp hw⟩
        · simp
    · simp
  · simp

/-- A device that takes the write makes it. -/
theorem writeData_accepted {variableName : String} {registryType : RegistryType}
    {e : RegistryMapEntry} (henabled : s.writeEnabled k = true)
    (hfind : findWritable cfg k variableName = some (registryType, e)) (hr : e.writeMode ≠ .read)
    (hd : e.writeMode ≠ .readDisabled) :
    writeData cfg s (fun _ => true) k [variableName] = [⟨k, registryType, e.register⟩] := by
  simp [writeData, henabled, hfind, hr, hd]

/-- **Where a write command goes.** In every reachable state a message reaches exactly the register
its topic names, whatever the device accepts, if and only if the first bridged transport is the
device of the topic and the variable name finds the entry's register, still listed. -/
theorem message_exact_iff (h : Runs.Reachable (system cfg) s) (b : Nat) (topic : String) :
    (∀ accept, Exact cfg s b topic (message cfg s accept b topic)) ↔ Routable cfg s b topic := by
  have hsound := topicsSound_of_reachable h
  constructor
  · intro hexact ref e hmsg hentry
    have hlookup := lookup_of_clientOnMessage hmsg
    obtain ⟨hlinked, hne, e₁, hentry₁, hw⟩ := hsound b topic ref (mem_of_lookup hlookup)
    obtain ⟨k, hk⟩ := Option.isSome_iff_exists.mp (firstBridged_isSome hlinked hne)
    have hall (accept : RegistryMapEntry → Bool) := hexact accept
    simp only [Exact, hlookup, message, hmsg, hentry, hk] at hall
    obtain rfl : k = ref.device := (hall fun _ => true).1 k (by simp)
    refine ⟨hk, fun registryType e' henabled hfind hr hd => ?_⟩
    have hwrite := (hall fun _ => true).2.2
    rw [writeData_accepted henabled hfind hr hd] at hwrite
    obtain ⟨e₂, he₂, heq, -, hlisted⟩ := hwrite _ (List.mem_singleton.mpr rfl)
    obtain rfl := Option.some.inj he₂
    injection heq with _ htype hreg
    exact ⟨htype, hreg, hlisted⟩
  · intro hroutable accept
    cases hmsg : clientOnMessage cfg s b topic with
    | none =>
      simp only [Exact, message, hmsg]
      split <;> simp
    | some ref =>
      have hlookup := lookup_of_clientOnMessage hmsg
      obtain ⟨-, -, e, hentry, hw⟩ := hsound b topic ref (mem_of_lookup hlookup)
      obtain ⟨hfirst, hfound⟩ := hroutable ref e hmsg hentry
      simp only [Exact, hlookup, message, hmsg, hentry, hfirst]
      refine ⟨by simp, writeData_single.1, fun w hw' => ?_⟩
      obtain ⟨henabled, registryType, e', hfind, hr, hd, rfl⟩ := writeData_single.2 w hw'
      obtain ⟨htype, hreg, hlisted⟩ := hfound registryType e' henabled hfind hr hd
      exact ⟨e, rfl, by rw [htype, hreg], hw, hlisted⟩

/-- One `init_bridge` more. -/
theorem reachable_initBridge (h : Runs.Reachable (system cfg) s) (hlinked : Bridged cfg b k)
    (hne : b ≠ k) : Runs.Reachable (system cfg) (initBridge cfg s b k) :=
  h.step (i := .initBridge b k) trivial (show Step cfg s _ _ from .initBridge hlinked hne)

/-- A writable entry named `soc`. -/
def exampleEntry (register : Int) : RegistryMapEntry :=
  ({ cell := "", variableName := "soc", writeMode := .write } : Row).entry .holding
    { register := register } 0

/-- A device with one writable entry, linked to the broker. -/
def exampleDevice (transportName deviceIdentifier : String) (register : Int) : Transport :=
  ⟨transportName, deviceIdentifier, ["transport.mqtt"], .device [exampleEntry register] []⟩

/-- An MQTT broker without prefixes. -/
def exampleBroker : Transport :=
  ⟨"transport.mqtt", "", [], .mqtt ⟨"home", "", "", false, "homeassistant"⟩⟩

/-- All devices take writes and list `soc`. -/
def exampleState : State := ⟨fun _ => [], fun _ => true, fun _ => ["soc"]⟩

/-- With one device on the broker, the message on its topic is exact. -/
theorem single_device_exact : ∃ s,
    (s.writeTopics 1).lookup "home/1/soc/write" = some ⟨0, .holding, 0⟩ ∧
    ∀ accept, Exact [exampleDevice "transport.a" "1" 10, exampleBroker] s 1 "home/1/soc/write"
      (message [exampleDevice "transport.a" "1" 10, exampleBroker] s accept 1
        "home/1/soc/write") := by
  have h0 : Runs.Reachable (system [exampleDevice "transport.a" "1" 10, exampleBroker])
      exampleState := .init fun _ => rfl
  have h1 := reachable_initBridge (b := 1) (k := 0) h0
    ⟨exampleBroker, _, rfl, rfl, by decide⟩ (by decide)
  refine ⟨_, by decide, (message_exact_iff h1 1 "home/1/soc/write").mpr ?_⟩
  intro ref e hmsg hentry
  obtain rfl : (⟨0, .holding, 0⟩ : EntryRef) = ref :=
    Option.some.inj ((show _ = some _ by decide).symm.trans hmsg)
  obtain rfl : exampleEntry 10 = e := Option.some.inj hentry
  refine ⟨by decide, fun registryType e' _ hfind _ _ => ?_⟩
  obtain ⟨rfl, rfl⟩ : RegistryType.holding = registryType ∧ exampleEntry 10 = e' :=
    Prod.mk.inj (Option.some.inj hfind)
  exact ⟨rfl, rfl, by decide⟩

/-- With two devices on the broker, the message for the second is given to the first. -/
theorem not_exact : ¬ ∀ cfg s, Runs.Reachable (system cfg) s → ∀ accept b topic,
    Exact cfg s b topic (message cfg s accept b topic) := by
  intro hall
  have h0 : Runs.Reachable (system [exampleDevice "transport.a" "1" 10,
      exampleDevice "transport.b" "2" 20, exampleBroker]) exampleState := .init fun _ => rfl
  have h1 := reachable_initBridge (b := 2) (k := 0) h0
    ⟨exampleBroker, _, rfl, rfl, by decide⟩ (by decide)
  have h2 := reachable_initBridge (b := 2) (k := 1) h1
    ⟨exampleBroker, _, rfl, rfl, by decide⟩ (by decide)
  have hexact := hall _ _ h2 (fun _ => true) 2 "home/2/soc/write"
  have hgiven := hexact.1 0 (by decide)
  exact absurd hgiven (by decide)

end Topics

end WriteRouting

end ProtocolGateway
