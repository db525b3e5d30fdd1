import ProtocolGateway.MqttDiscovery

/-!
# What discovery leaves behind

The config messages of discovery are retained, so the broker keeps them over restarts of the gateway
and of Home Assistant, and every later pass adds to what is there. A pass deletes the config that an
entity may have as a sensor, and the one of the platform it would have by itself; it does not know
under which platforms earlier passes published it.

* `one_platform_iff` — after a run of passes, with any settings, maps and write topics, an entity
  has exactly one config, unless an earlier pass gave it a platform that no pass since took it for.
* `control_iff` — an entity is a control exactly if the gateway takes a command for its register.
-/

namespace ProtocolGateway

namespace MqttDiscovery

open HaMetadata Retained WriteRouting

/-! ## Config topics -/

/-- A name without blanks. -/
def BlankFree (name : String) : Prop := ' ' ∉ name.toList

theorem replaceBlanks_of_blankFree {name : String} (h : BlankFree name) :
    replaceBlanks name = name := by
  have hmap : name.toList.map (fun c => if c = ' ' then '_' else c) = name.toList :=
    (List.map_congr_left fun c hc => if_neg fun heq : c = ' ' => h (heq ▸ hc)).trans
      (List.map_id _)
  rw [replaceBlanks, hmap, String.ofList_toList]

theorem mem_of_mem_strip {c : Char} {s : List Char} (h : c ∈ Text.strip s) : c ∈ s := by
  have hdropped := (List.dropWhile_sublist _).mem (List.mem_reverse.mp h)
  exact (List.dropWhile_sublist _).mem (List.mem_reverse.mp hdropped)

theorem blankFree_cleanName (he : HaEntry) : BlankFree (cleanName he) := by
  unfold BlankFree cleanName
  rw [String.toList_ofList]
  intro hmem
  have hmem := mem_of_mem_strip hmem
  rw [underscored, String.toList_ofList] at hmem
  obtain ⟨c, -, hc⟩ := List.mem_map.mp hmem
  split at hc
  · simp at hc
  · next hne => exact hne hc

/-- No platform's name begins another's. -/
theorem component_name_inj {c c' : Component} {rest rest' : List Char}
    (h : c.name.toList ++ ("/HN-".toList ++ rest) = c'.name.toList ++ ("/HN-".toList ++ rest')) :
    c = c' ∧ rest = rest' := by
  cases c <;> cases c' <;> simp [Component.name] at h <;> simp [h]

/-- A config topic says which platform and which name it is for. -/
theorem configTopic_inj {d s x y : String} {c c' : Component} (hx : BlankFree x) (hy : BlankFree y)
    (h : configTopic d c s x = configTopic d c' s y) : c = c' ∧ x = y := by
  unfold configTopic at h
  rw [replaceBlanks_of_blankFree hx, replaceBlanks_of_blankFree hy] at h
  have htext := congrArg String.toList h
  simp only [String.toList_append, List.append_assoc] at htext
  have hrest := List.append_cancel_left (List.append_cancel_left htext)
  obtain ⟨hcomponent, hserial⟩ := component_name_inj hrest
  have hname := List.append_cancel_right (List.append_cancel_left (List.append_cancel_left hserial))
  exact ⟨hcomponent, String.toList_inj.mp hname⟩

theorem availabilityTopic_ne (p : Pass) (d s x : String) (c : Component) :
    p.availabilityTopic ≠ configTopic d c s x := by
  intro h
  have havailability : ∀ text : String, (text ++ "/availability").toList.getLast? = some 'y' := by
    intro text
    simp [String.toList_append, List.getLast?_append]
  have hconfig : ∀ text : String, (text ++ "/config").toList.getLast? = some 'g' := by
    intro text
    simp [String.toList_append, List.getLast?_append]
  have hlast := congrArg (fun text : String => text.toList.getLast?) h
  exact absurd ((havailability _).symm.trans (hlast.trans (hconfig _))) (by decide)

/-! ## One pass -/

/-- The entry is the one that a name stands for, unless an earlier one has the name. -/
def Names (name : String) (re : RegistryType × HaEntry) : Prop :=
  ¬Skipped re.2 ∧ cleanName re.2 = name

instance (name : String) (re : RegistryType × HaEntry) : Decidable (Names name re) :=
  inferInstanceAs (Decidable (_ ∧ _))

/-- The entry that a pass takes for a name. -/
def Pass.planned (p : Pass) (name : String) : Option (RegistryType × HaEntry) :=
  p.device.entries.find? (Names name)

section OnePass

variable {conv : Conversions} {p : Pass} {name : String} {c : Component} {m : Message}

theorem find?_of_names {re : RegistryType × HaEntry} (h : Names name re)
    (entries : List (RegistryType × HaEntry)) :
    (re :: entries).find? (Names name) = some re :=
  List.find?_cons_of_pos (by simpa using h)

theorem find?_of_not_names {re : RegistryType × HaEntry} (h : ¬Names name re)
    (entries : List (RegistryType × HaEntry)) :
    (re :: entries).find? (Names name) = entries.find? (Names name) :=
  List.find?_cons_of_neg (by simpa using h)

/-- What the loop sends: the messages of the first entry of each name that is not taken. -/
theorem mem_loop {entries : List (RegistryType × HaEntry)} {progress : Progress} :
    m ∈ (entries.foldl (discoverEntry conv p) progress).sent ↔
      m ∈ progress.sent ∨ ∃ name, name ∉ progress.seenNames ∧ ∃ re,
        entries.find? (Names name) = some re ∧ m ∈ entityMessages conv p re.1 re.2 := by
  induction entries generalizing progress with
  | nil => simp
  | cons re entries ih =>
    rw [List.foldl_cons, ih]
    unfold discoverEntry
    by_cases hskip : Skipped re.2
    · rw [if_pos hskip]
      refine or_congr_right (exists_congr fun name => and_congr_right fun _ => ?_)
      rw [find?_of_not_names fun hnames => hnames.1 hskip]
    · rw [if_neg hskip]
      by_cases hseen : cleanName re.2 ∈ progress.seenNames
      · rw [if_pos hseen]
        refine or_congr_right (exists_congr fun name => and_congr_right fun hname => ?_)
        have hother : ¬Names name re := fun hnames => hname (hnames.2 ▸ hseen)
        rw [find?_of_not_names hother]
      · rw [if_neg hseen]
        simp only [List.mem_append, List.mem_cons, not_or]
        constructor
        · rintro ((hsent | hnew) | ⟨name, ⟨hne, hname⟩, re', hfind, hm⟩)
          · exact Or.inl hsent
          · exact Or.inr ⟨cleanName re.2, hseen, re, find?_of_names ⟨hskip, rfl⟩ _, hnew⟩
          · refine Or.inr ⟨name, hname, re', ?_, hm⟩
            rw [find?_of_not_names fun hnames => hne hnames.2.symm, hfind]
        · rintro (hsent | ⟨name, hname, re', hfind, hm⟩)
          · exact Or.inl (Or.inl hsent)
          · by_cases hne : name = cleanName re.2
            · subst hne
              rw [find?_of_names ⟨hskip, rfl⟩] at hfind
              obtain rfl := Option.some.inj hfind
              exact Or.inl (Or.inr hm)
            · rw [find?_of_not_names fun hnames => hne hnames.2.symm] at hfind
              exact Or.inr ⟨name, ⟨hne, hname⟩, re', hfind, hm⟩

/-- The messages of a pass are those of the entries it takes, and the availability. -/
theorem mem_mqttDiscovery : m ∈ mqttDiscovery conv p ↔
    (∃ name re, p.planned name = some re ∧ m ∈ entityMessages conv p re.1 re.2) ∨
      ((p.device.entries.foldl (discoverEntry conv p) ⟨[], [], false⟩).publishedAvailability =
          true ∧ m = ⟨p.availabilityTopic, some (.text "online"), true⟩) := by
  unfold mqttDiscovery
  rw [List.mem_append, mem_loop]
  simp only [List.not_mem_nil, not_false_eq_true, true_and, false_or]
  refine or_congr Iff.rfl ?_
  split
  · next hpublished => simp [hpublished]
  · next hpublished => simp [hpublished]

/-- The config topic of an entity of a pass. -/
def Pass.configTopic (p : Pass) (c : Component) (name : String) : String :=
  MqttDiscovery.configTopic p.settings.discoveryTopic c p.device.serial name

/-- The retained messages for an entry. -/
theorem retained_entityMessages {registryType : RegistryType} {he : HaEntry} :
    m ∈ entityMessages conv p registryType he ∧ m.retain = true ↔
      (∃ c ∈ staleComponents p registryType he (cleanName he),
        m = ⟨p.configTopic c (cleanName he), none, true⟩) ∨
      ∃ c, component p registryType he (cleanName he) = some c ∧
        m = ⟨p.configTopic c (cleanName he),
          some (.config (payload conv p registryType he (cleanName he) c)), true⟩ := by
  unfold entityMessages planDiscoveryEntity
  simp only [List.mem_append, List.mem_map]
  rw [or_and_right]
  refine or_congr ⟨?_, ?_⟩ ?_
  · rintro ⟨⟨c, hc, rfl⟩, -⟩
    exact ⟨c, hc, rfl⟩
  · rintro ⟨c, hc, rfl⟩
    exact ⟨⟨c, hc, rfl⟩, rfl⟩
  · cases component p registryType he (cleanName he) with
    | none => simp
    | some c =>
      simp only [Option.map_some, List.mem_cons, Option.some.injEq, exists_eq_left']
      constructor
      · rintro ⟨rfl | hvalue, hretain⟩
        · rfl
        · -- the value of a write-only sensor is not retained
          split at hvalue
          · split at hvalue
            · rw [List.mem_singleton.mp hvalue] at hretain
              cases hretain
            · cases hvalue
          · cases hvalue
      · rintro rfl
        exact ⟨Or.inl rfl, rfl⟩

/-- What a pass makes of the config of an entity, `none` if it leaves it alone. -/
def Pass.decision (conv : Conversions) (p : Pass) (c : Component) (name : String) :
    Option (Option Content) :=
  (p.planned name).bind fun re =>
    if component p re.1 re.2 name = some c then
      some (some (.config (payload conv p re.1 re.2 name c)))
    else if c = .sensor ∨ c = native p re.1 re.2 name then some none
    else none

theorem mem_staleComponents {registryType : RegistryType} {he : HaEntry} :
    c ∈ staleComponents p registryType he name ↔
      (c = .sensor ∨ c = native p registryType he name) ∧
        component p registryType he name ≠ some c := by
  unfold staleComponents
  rw [List.mem_filter, decide_eq_true_iff]
  refine and_iff_right ?_
  cases c <;> simp

theorem names_of_planned {re : RegistryType × HaEntry} (h : p.planned name = some re) :
    Names name re := by
  have hfound := List.find?_some h
  exact of_decide_eq_true hfound

/-- The retained messages of a pass on a config topic. -/
theorem retained_on_configTopic (hname : BlankFree name) :
    m ∈ mqttDiscovery conv p ∧ m.retain = true ∧ m.topic = p.configTopic c name ↔
      ∃ re, p.planned name = some re ∧
        ((c ∈ staleComponents p re.1 re.2 name ∧ m = ⟨p.configTopic c name, none, true⟩) ∨
          (component p re.1 re.2 name = some c ∧ m = ⟨p.configTopic c name,
            some (.config (payload conv p re.1 re.2 name c)), true⟩)) := by
  constructor
  · rintro ⟨hm, hretain, htopic⟩
    rcases mem_mqttDiscovery.mp hm with ⟨name', re, hplanned, hm⟩ | ⟨-, rfl⟩
    · obtain rfl := (names_of_planned hplanned).2
      rcases retained_entityMessages.mp ⟨hm, hretain⟩ with ⟨c', hc', rfl⟩ | ⟨c', hc', rfl⟩
      · obtain ⟨rfl, rfl⟩ := configTopic_inj (blankFree_cleanName re.2) hname htopic
        exact ⟨re, hplanned, Or.inl ⟨hc', rfl⟩⟩
      · obtain ⟨rfl, rfl⟩ := configTopic_inj (blankFree_cleanName re.2) hname htopic
        exact ⟨re, hplanned, Or.inr ⟨hc', rfl⟩⟩
    · exact absurd htopic (availabilityTopic_ne _ _ _ _ _)
  · rintro ⟨re, hplanned, hm⟩
    obtain rfl := (names_of_planned hplanned).2
    have hsent : m ∈ entityMessages conv p re.1 re.2 ∧ m.retain = true := by
      refine retained_entityMessages.mpr ?_
      rcases hm with ⟨hc, rfl⟩ | ⟨hc, rfl⟩
      · exact Or.inl ⟨c, hc, rfl⟩
      · exact Or.inr ⟨c, hc, rfl⟩
    refine ⟨mem_mqttDiscovery.mpr (Or.inl ⟨_, re, hplanned, hsent.1⟩), hsent.2, ?_⟩
    rcases hm with ⟨-, rfl⟩ | ⟨-, rfl⟩ <;> rfl

/-- One pass decides what is kept for the entities it plans, and leaves the others alone. -/
theorem decides_mqttDiscovery (hname : BlankFree name) :
    Decides (mqttDiscovery conv p) (p.configTopic c name) (p.decision conv c name) := by
  have hspec : ∀ m, m ∈ mqttDiscovery conv p ∧ m.retain = true ∧ m.topic = p.configTopic c name ↔
      _ := fun m => retained_on_configTopic hname
  cases hplanned : p.planned name with
  | none =>
    rw [show p.decision conv c name = none by simp [Pass.decision, hplanned]]
    refine .leaves fun m hm hretain htopic => ?_
    obtain ⟨re, hre, -⟩ := (hspec m).mp ⟨hm, hretain, htopic⟩
    rw [hplanned] at hre
    cases hre
  | some re =>
    by_cases hcomponent : component p re.1 re.2 name = some c
    · have hdecision : p.decision conv c name =
          some (some (.config (payload conv p re.1 re.2 name c))) := by
        simp [Pass.decision, hplanned, hcomponent]
      rw [hdecision]
      refine .sets fun kept => deliver_of_forall (fun m hm hretain htopic => ?_) ?_ kept
      · obtain ⟨re', hre', hcase⟩ := (hspec m).mp ⟨hm, hretain, htopic⟩
        obtain rfl := Option.some.inj (hplanned.symm.trans hre')
        rcases hcase with ⟨hstale, -⟩ | ⟨-, rfl⟩
        · exact absurd hcomponent (mem_staleComponents.mp hstale).2
        · rfl
      · have hsent := (hspec _).mpr ⟨re, hplanned, Or.inr ⟨hcomponent, rfl⟩⟩
        exact ⟨_, hsent.1, hsent.2⟩
    · by_cases hstale : c = .sensor ∨ c = native p re.1 re.2 name
      · have hdecision : p.decision conv c name = some none := by
          simp [Pass.decision, hplanned, hcomponent, hstale]
        rw [hdecision]
        refine .sets fun kept => deliver_of_forall (fun m hm hretain htopic => ?_) ?_ kept
        · obtain ⟨re', hre', hcase⟩ := (hspec m).mp ⟨hm, hretain, htopic⟩
          obtain rfl := Option.some.inj (hplanned.symm.trans hre')
          rcases hcase with ⟨-, rfl⟩ | ⟨hc, -⟩
          · rfl
          · exact absurd hc hcomponent
        · have hsent := (hspec _).mpr
            ⟨re, hplanned, Or.inl ⟨mem_staleComponents.mpr ⟨hstale, hcomponent⟩, rfl⟩⟩
          exact ⟨_, hsent.1, hsent.2⟩
      · have hdecision : p.decision conv c name = none := by
          simp [Pass.decision, hplanned, hcomponent, hstale]
        rw [hdecision]
        refine .leaves fun m hm hretain htopic => ?_
        obtain ⟨re', hre', hcase⟩ := (hspec m).mp ⟨hm, hretain, htopic⟩
        obtain rfl := Option.some.inj (hplanned.symm.trans hre')
        rcases hcase with ⟨hc, -⟩ | ⟨hc, -⟩
        · exact hstale (mem_staleComponents.mp hc).1
        · exact hcomponent hc

end OnePass

/-! ## Runs of passes -/

/-- What the broker gets: the messages of a pass, or any other message. -/
inductive Traffic
  | pass (p : Pass)
  | other (m : Message)

/-- The messages, in their order. -/
def Traffic.messages (conv : Conversions) : Traffic → List Message
  | .pass p => mqttDiscovery conv p
  | .other m => [m]

/-- The passes are those of one device, and nothing else writes to its config topics. -/
def Traffic.About (discoveryTopic serial : String) : Traffic → Prop
  | .pass p => p.settings.discoveryTopic = discoveryTopic ∧ p.device.serial = serial
  | .other m => m.retain = true → ∀ c name, m.topic ≠ configTopic discoveryTopic c serial name

/-- What traffic makes of the config of an entity. -/
def Traffic.decision (conv : Conversions) (c : Component) (name : String) :
    Traffic → Option (Option Content)
  | .pass p => p.decision conv c name
  | .other _ => none

/-- The broker keeps a config for an entity on a platform. -/
def Live (conv : Conversions) (discoveryTopic serial : String) (traffic : List Traffic)
    (c : Component) (name : String) : Prop :=
  ∃ m, deliverAll (Traffic.messages conv) (fun _ => none) traffic
    (configTopic discoveryTopic c serial name) = some (.config m)

/-- The pass publishes the name on a platform. -/
def Pass.Publishes (p : Pass) (c : Component) (name : String) : Prop :=
  ∃ re, p.planned name = some re ∧ component p re.1 re.2 name = some c

/-- The pass takes the name for one that belongs to a platform. -/
def Pass.TakesFor (p : Pass) (c : Component) (name : String) : Prop :=
  ∃ re, p.planned name = some re ∧ native p re.1 re.2 name = c

section Runs

variable {conv : Conversions} {discoveryTopic serial name : String} {c : Component} {p : Pass}
  {traffic : List Traffic}

theorem decides_traffic (conv : Conversions) (c : Component) {t : Traffic}
    (h : t.About discoveryTopic serial) (hname : BlankFree name) :
    Decides (t.messages conv) (configTopic discoveryTopic c serial name)
      (t.decision conv c name) := by
  cases t with
  | pass p =>
    obtain ⟨rfl, rfl⟩ := h
    exact decides_mqttDiscovery hname
  | other m =>
    refine .leaves fun m' hm' hretain => ?_
    obtain rfl := List.mem_singleton.mp hm'
    exact h hretain c name

/-- A pass that publishes a name sets its config. -/
theorem decision_of_publishes (conv : Conversions) (h : p.Publishes c name) :
    ∃ m, p.decision conv c name = some (some (.config m)) := by
  obtain ⟨re, hplanned, hcomponent⟩ := h
  exact ⟨payload conv p re.1 re.2 name c, by simp [Pass.decision, hplanned, hcomponent]⟩

/-- A pass sets a config only where it publishes. -/
theorem publishes_of_decision {content : Content}
    (h : p.decision conv c name = some (some content)) : p.Publishes c name := by
  obtain ⟨re, hplanned, h⟩ := Option.bind_eq_some_iff.mp h
  split at h
  · next hcomponent => exact ⟨re, hplanned, hcomponent⟩
  · split at h <;> cases h

/-- A pass leaves a platform other than `sensor` alone unless it takes the name for it. -/
theorem decision_eq_none_iff (conv : Conversions) (hc : c ≠ .sensor) :
    p.decision conv c name = none ↔ ¬p.TakesFor c name := by
  cases hplanned : p.planned name with
  | none =>
    have hnone : p.decision conv c name = none := by simp [Pass.decision, hplanned]
    refine iff_of_true hnone ?_
    rintro ⟨re, hre, -⟩
    rw [hplanned] at hre
    cases hre
  | some re =>
    have htakes : p.TakesFor c name ↔ native p re.1 re.2 name = c := by
      simp [Pass.TakesFor, hplanned]
    rw [htakes]
    by_cases hnative : native p re.1 re.2 name = c
    · subst hnative
      refine iff_of_false ?_ (not_not.mpr rfl)
      simp only [Pass.decision, hplanned, Option.bind_some]
      split <;> simp
    · have hcomponent : component p re.1 re.2 name ≠ some c := by
        intro h
        rcases component_cases h with ⟨-, heq⟩ | ⟨-, heq⟩
        · exact hnative heq.symm
        · exact hc heq
      have hstale : ¬(c = .sensor ∨ c = native p re.1 re.2 name) :=
        not_or.mpr ⟨hc, fun heq => hnative heq.symm⟩
      refine iff_of_true ?_ hnative
      simp [Pass.decision, hplanned, hcomponent, hstale]

/-- A config is kept exactly if a pass published it that no later one took the name from. -/
theorem live_iff (habout : ∀ t ∈ traffic, t.About discoveryTopic serial) (hname : BlankFree name)
    (hc : c ≠ .sensor) : Live conv discoveryTopic serial traffic c name ↔
      ∃ earlier q later, traffic = earlier ++ .pass q :: later ∧ q.Publishes c name ∧
        ∀ r, Traffic.pass r ∈ later → ¬r.TakesFor c name := by
  have hkept : ∀ m, deliverAll (Traffic.messages conv) (fun _ => none) traffic
      (configTopic discoveryTopic c serial name) = some m ↔ _ := fun m =>
    kept_iff fun t ht => decides_traffic conv c (habout t ht) hname
  unfold Live
  constructor
  · rintro ⟨m, hm⟩
    obtain ⟨earlier, t, later, hsplit, hset, hlater⟩ := (hkept _).mp hm
    cases t with
    | other m' => cases hset
    | pass q =>
      refine ⟨earlier, q, later, hsplit, publishes_of_decision hset, fun r hr => ?_⟩
      exact (decision_eq_none_iff conv hc).mp (hlater _ hr)
  · rintro ⟨earlier, q, later, hsplit, hpublishes, hlater⟩
    obtain ⟨m, hm⟩ := decision_of_publishes conv hpublishes
    refine ⟨m, (hkept _).mpr ⟨earlier, .pass q, later, hsplit, hm, fun t ht => ?_⟩⟩
    cases t with
    | other m' => rfl
    | pass r => exact (decision_eq_none_iff conv hc).mpr (hlater r ht)

/-- The last pass decides the platforms that it publishes on or deletes. -/
theorem live_of_taken {re : RegistryType × HaEntry}
    (habout : (Traffic.pass p).About discoveryTopic serial) (hplanned : p.planned name = some re)
    (hc : c = .sensor ∨ c = native p re.1 re.2 name) :
    Live conv discoveryTopic serial (traffic ++ [.pass p]) c name ↔
      component p re.1 re.2 name = some c := by
  have hname : BlankFree name := (names_of_planned hplanned).2 ▸ blankFree_cleanName re.2
  have hdecides := decides_traffic conv c habout hname
  unfold Live
  rw [deliverAll_concat, hdecides.deliver_eq]
  by_cases hcomponent : component p re.1 re.2 name = some c
  · simp [Traffic.decision, Pass.decision, hplanned, hcomponent]
  · simp [Traffic.decision, Pass.decision, hplanned, hcomponent, hc]

/-- The last pass leaves the other platforms as they are. -/
theorem live_of_left (habout : (Traffic.pass p).About discoveryTopic serial)
    (hname : BlankFree name) (hc : c ≠ .sensor) (htakes : ¬p.TakesFor c name) :
    Live conv discoveryTopic serial (traffic ++ [.pass p]) c name ↔
      Live conv discoveryTopic serial traffic c name := by
  have hdecides := decides_traffic conv c habout hname
  have hnone : p.decision conv c name = none := (decision_eq_none_iff conv hc).mpr htakes
  unfold Live
  rw [deliverAll_concat, hdecides.deliver_eq, Traffic.decision, hnone]
  rfl

/-- An entity is published on its own platform or as a sensor. -/
theorem component_ne {re : RegistryType × HaEntry} (hc : c ≠ .sensor)
    (hnative : c ≠ native p re.1 re.2 name) : component p re.1 re.2 name ≠ some c := by
  intro h
  rcases component_cases h with ⟨-, heq⟩ | ⟨-, heq⟩
  · exact hnative heq
  · exact hc heq

/-- **What passes leave behind.** After any run of passes, the last of which has an entity of a
name, the name has a config on exactly the platform that the last pass gave it, if and only if every
earlier pass that gave it a platform of its own, which is not the one it belongs to now, was
followed by a pass that took the name for that platform. -/
theorem one_platform_iff {re : RegistryType × HaEntry}
    (habout : ∀ t ∈ traffic ++ [.pass p], t.About discoveryTopic serial)
    (hplanned : p.planned name = some re) :
    (∀ c, Live conv discoveryTopic serial (traffic ++ [.pass p]) c name ↔
        component p re.1 re.2 name = some c) ↔
      ∀ c q earlier later, c ≠ .sensor → c ≠ native p re.1 re.2 name →
        traffic = earlier ++ .pass q :: later → q.Publishes c name →
          ∃ r, Traffic.pass r ∈ later ∧ r.TakesFor c name := by
  have hname : BlankFree name := (names_of_planned hplanned).2 ▸ blankFree_cleanName re.2
  have hlast := habout (.pass p) (by simp)
  have hbefore : ∀ t ∈ traffic, t.About discoveryTopic serial := fun t ht =>
    habout t (List.mem_append_left _ ht)
  have htakes : ∀ c, p.TakesFor c name ↔ native p re.1 re.2 name = c := by
    intro c
    simp [Pass.TakesFor, hplanned]
  constructor
  · intro h c q earlier later hc hnative hsplit hpublishes
    by_contra hno
    have hlive : Live conv discoveryTopic serial traffic c name :=
      (live_iff hbefore hname hc).mpr
        ⟨earlier, q, later, hsplit, hpublishes, fun r hr htaken => hno ⟨r, hr, htaken⟩⟩
    have hleft : ¬p.TakesFor c name := fun htaken => hnative ((htakes c).mp htaken).symm
    have hstill := (live_of_left hlast hname hc hleft).mpr hlive
    exact component_ne hc hnative ((h c).mp hstill)
  · intro h c
    by_cases hdecided : c = .sensor ∨ c = native p re.1 re.2 name
    · exact live_of_taken hlast hplanned hdecided
    · rw [not_or] at hdecided
      have hleft : ¬p.TakesFor c name := fun htaken => hdecided.2 ((htakes c).mp htaken).symm
      refine iff_of_false (fun hlive => ?_) (component_ne hdecided.1 hdecided.2)
      rw [live_of_left hlast hname hdecided.1 hleft, live_iff hbefore hname hdecided.1] at hlive
      obtain ⟨earlier, q, later, hsplit, hpublishes, hlater⟩ := hlive
      obtain ⟨r, hr, htaken⟩ := h c q earlier later hdecided.1 hdecided.2 hsplit hpublishes
      exact hlater r hr htaken

/-- A writable number. -/
def socEntry : HaEntry := ⟨exampleEntry 10, "", "", ""⟩

/-- A device with one writable number, with or without its write topic. -/
def socPass (writeTopics : List (String × RegistryMapEntry)) : Pass where
  settings := { doorPass.settings with auto := true }
  device :=
    { doorPass.device with
      registryMap := fun registryType => if registryType = .holding then [socEntry] else [] }
  writeTopics := writeTopics

/-- The number stays when its write topic is gone. -/
theorem number_left_behind : ¬∀ c, Live plainConversions "homeassistant" "SN1"
      [.pass (socPass [("home/1/soc/write", exampleEntry 10)]), .pass (socPass [])] c "soc" ↔
    component (socPass []) .holding socEntry "soc" = some c := by
  have habout : ∀ t ∈ [Traffic.pass (socPass [("home/1/soc/write", exampleEntry 10)])] ++
      [.pass (socPass [])], t.About "homeassistant" "SN1" := by
    intro t ht
    rcases List.mem_cons.mp ht with rfl | ht
    · exact ⟨rfl, rfl⟩
    · rw [List.mem_singleton.mp ht]
      exact ⟨rfl, rfl⟩
  have hplanned : (socPass []).planned "soc" = some (.holding, socEntry) := rfl
  intro hone
  obtain ⟨r, hr, -⟩ := (one_platform_iff habout hplanned).mp hone .number _ [] [] (by decide)
    (by decide) rfl ⟨(.holding, socEntry), rfl, by decide⟩
  cases hr

end Runs

/-! ## Controls and commands -/

/-- `_write_topics` of an `mqtt` transport, with the entries themselves. -/
def writeTargets (cfg : Config) (s : State) (b : Nat) : List (String × RegistryMapEntry) :=
  (s.writeTopics b).filterMap fun kv => (entryOf cfg kv.2).map fun e => (kv.1, e)

/-- A command on a topic is taken for an entry of a bridged device that can be written and is at the
same register. -/
def Accepts (cfg : Config) (s : State) (b : Nat) (topic : String) (e : RegistryMapEntry) : Prop :=
  ∃ ref e', clientOnMessage cfg s b topic = some ref ∧ entryOf cfg ref = some e' ∧
    SameRegister e' e ∧ Writable e' ∧ Bridged cfg b ref.device

/-- The values of an entry can be set from Home Assistant: they are on or off, named or numbers. -/
def Settable (p : Pass) (registryType : RegistryType) (he : HaEntry) : Prop :=
  registryType = .coil ∨ hasCodes p he = true ∨ isNumericEntry he.entry (hasCodes p he) = true

section Controls

variable {conv : Conversions} {cfg : Config} {s : State} {b : Nat} {t : Transport} {p : Pass}
  {registryType : RegistryType} {he : HaEntry} {name : String} {c : Component}

/-- Looking a topic up among the entries is looking its reference up. -/
theorem lookup_filterMap {topics : List (String × EntryRef)} {topic : String}
    (h : ∀ kv ∈ topics, (entryOf cfg kv.2).isSome = true) :
    (topics.filterMap fun kv => (entryOf cfg kv.2).map fun e => (kv.1, e)).lookup topic =
      (topics.lookup topic).bind (entryOf cfg) := by
  induction topics with
  | nil => rfl
  | cons kv topics ih =>
    obtain ⟨e, he⟩ := Option.isSome_iff_exists.mp (h kv List.mem_cons_self)
    have ih := ih fun kv' hkv' => h kv' (List.mem_cons_of_mem _ hkv')
    rw [List.filterMap_cons, he, Option.map_some]
    dsimp only
    rw [List.lookup_cons, List.lookup_cons]
    cases hkey : topic == kv.1 with
    | true => exact he.symm
    | false => exact ih

theorem writeTopic_ne_haStatusTopic (m : Mqtt) (t : Transport) (name : String)
    (registryType : RegistryType) : m.writeTopic t name registryType ≠ m.haStatusTopic := by
  intro h
  have hwrite : ∀ text : String, (text ++ "/write").toList.getLast? = some 'e' := by
    intro text
    simp [String.toList_append, List.getLast?_append]
  have hstatus : ∀ text : String, (text ++ "/status").toList.getLast? = some 's' := by
    intro text
    simp [String.toList_append, List.getLast?_append]
  have hlast := congrArg (fun text : String => text.toList.getLast?) h
  exact absurd ((hwrite _).symm.trans (hlast.trans (hstatus _))) (by decide)

/-- A command on a write topic goes to the entry the topic is subscribed for. -/
theorem clientOnMessage_writeTopic (ht : cfg[b]? = some t)
    (hrole : t.role = .mqtt p.settings.toMqtt) (device : Transport) :
    clientOnMessage cfg s b (p.settings.toMqtt.writeTopic device name registryType) =
      (s.writeTopics b).lookup (p.settings.toMqtt.writeTopic device name registryType) := by
  obtain ⟨transportName, identifier, bridges, role⟩ := t
  obtain rfl : role = .mqtt p.settings.toMqtt := hrole
  unfold clientOnMessage
  rw [ht]
  exact if_neg fun h => writeTopic_ne_haStatusTopic _ _ _ _ h.2

/-- An entry has a write topic exactly if it can be written and a command is taken for it. -/
theorem controlTopic_eq_some_iff (h : Runs.Reachable (system cfg) s) (ht : cfg[b]? = some t)
    (hrole : t.role = .mqtt p.settings.toMqtt) (hw : p.writeTopics = writeTargets cfg s b)
    {topic : String} :
    controlTopic p registryType he name = some topic ↔
      topic = p.settings.toMqtt.writeTopic p.device.transport name registryType ∧
        (registryType = .holding ∨ registryType = .coil) ∧ Writable he.entry ∧
        Accepts cfg s b topic he.entry := by
  have hsound := topicsSound_of_reachable h
  have hresolved : ∀ kv ∈ s.writeTopics b, (entryOf cfg kv.2).isSome = true := by
    intro kv hkv
    obtain ⟨-, -, e, he, -⟩ := hsound b kv.1 kv.2 hkv
    rw [he]
    rfl
  have hmsg : clientOnMessage cfg s b
      (p.settings.toMqtt.writeTopic p.device.transport name registryType) = _ :=
    clientOnMessage_writeTopic ht hrole p.device.transport
  have hlookup : (writeTargets cfg s b).lookup
      (p.settings.toMqtt.writeTopic p.device.transport name registryType) = _ :=
    lookup_filterMap hresolved
  unfold controlTopic
  rw [hw]
  dsimp only
  rw [hlookup, ← hmsg]
  constructor
  · intro hsome
    split at hsome
    · next hgate =>
      split at hsome
      · next e' hfound =>
        obtain ⟨ref, href, he'⟩ := Option.bind_eq_some_iff.mp hfound
        split at hsome
        · next hsame =>
          obtain rfl := Option.some.inj hsome
          obtain ⟨hbridged, -, e, he, hwritable⟩ := hsound b _ ref (mem_of_lookup (hmsg ▸ href))
          obtain rfl := Option.some.inj (he'.symm.trans he)
          exact ⟨rfl, hgate.1, hgate.2, ref, e', href, he', hsame, hwritable, hbridged⟩
        · cases hsome
      · cases hsome
    · cases hsome
  · rintro ⟨rfl, htype, hwritable, ref, e', href, he', hsame, -, -⟩
    rw [if_pos ⟨htype, hwritable⟩, href, Option.bind_some, he']
    exact if_pos hsame

/-- A bit without a code table is a number. -/
theorem isNumericEntry_of_bit {e : RegistryMapEntry} {codes : Bool} (hbit : e.dataType.value = 201)
    (hcodes : codes = false) : isNumericEntry e codes = true := by
  subst hcodes
  unfold isNumericEntry
  rw [if_neg (by simp)]
  split
  all_goals first | rfl | simp [hbit]

/-- An entry with a write topic whose values can be set belongs to a control. -/
theorem isControl_native_iff : (native p registryType he name).isControl = true ↔
    (controlTopic p registryType he name).isSome = true ∧ Settable p registryType he := by
  unfold native Settable
  split
  · next hcontrol =>
    split
    · next hswitch =>
      refine iff_of_true rfl ⟨hcontrol, ?_⟩
      rcases hswitch with hcoil | ⟨hbit, hcodes⟩
      · exact Or.inl hcoil
      · exact Or.inr (Or.inr (isNumericEntry_of_bit hbit hcodes))
    · next hswitch =>
      rw [not_or] at hswitch
      split
      · next hcodes => exact iff_of_true rfl ⟨hcontrol, Or.inr (Or.inl hcodes)⟩
      · next hcodes =>
        split
        · next hnumeric => exact iff_of_true rfl ⟨hcontrol, Or.inr (Or.inr hnumeric)⟩
        · next hnumeric =>
          refine iff_of_false (by simp [Component.isControl]) ?_
          rintro ⟨-, h | h | h⟩
          · exact hswitch.1 h
          · exact hcodes h
          · exact hnumeric h
  · next hcontrol =>
    refine iff_of_false ?_ fun h => hcontrol h.1
    split <;> simp [Component.isControl]

/-- **What Home Assistant can set.** In every reachable state of the gateway, a config message of a
pass has a command topic only if the gateway takes a command on it for the entry's register. In
`auto` mode it has one for every entry of which that is so, if its values can be set. -/
theorem control_iff (h : Runs.Reachable (system cfg) s) (ht : cfg[b]? = some t)
    (hrole : t.role = .mqtt p.settings.toMqtt) (hw : p.writeTopics = writeTargets cfg s b)
    (conv : Conversions) (registryType : RegistryType) (he : HaEntry) (name topic : String) :
    (∃ c m, (planDiscoveryEntity conv p registryType he name).published = some (c, m) ∧
        m.commandTopic = some topic) ↔
      p.settings.auto = true ∧ Settable p registryType he ∧
        topic = p.settings.toMqtt.writeTopic p.device.transport name registryType ∧
        (registryType = .holding ∨ registryType = .coil) ∧ Writable he.entry ∧
        Accepts cfg s b topic he.entry := by
  rw [← controlTopic_eq_some_iff h ht hrole hw]
  have hpublished : ∀ c m, (planDiscoveryEntity conv p registryType he name).published =
      some (c, m) ↔ component p registryType he name = some c ∧
        payload conv p registryType he name c = m := by
    intro c m
    simp only [planDiscoveryEntity, Option.map_eq_some_iff, Prod.mk.injEq]
    constructor
    · rintro ⟨c', hc', rfl, hm⟩
      exact ⟨hc', hm⟩
    · rintro ⟨hc, hm⟩
      exact ⟨c, hc, rfl, hm⟩
  constructor
  · rintro ⟨c, m, hcm, htopic⟩
    obtain ⟨hcomponent, rfl⟩ := (hpublished c m).mp hcm
    change (if c.isControl then controlTopic p registryType he name else none) = some topic
      at htopic
    split at htopic
    · next hcontrol =>
      rcases component_cases hcomponent with ⟨hauto, rfl⟩ | ⟨-, rfl⟩
      · exact ⟨hauto, (isControl_native_iff.mp hcontrol).2, htopic⟩
      · cases hcontrol
    · cases htopic
  · rintro ⟨hauto, hsettable, htopic⟩
    have hcontrol : (native p registryType he name).isControl = true :=
      isControl_native_iff.mpr ⟨by rw [htopic]; rfl, hsettable⟩
    have hcomponent : component p registryType he name = some (native p registryType he name) := by
      simp [component, hauto, hcontrol]
    refine ⟨_, _, (hpublished _ _).mpr ⟨hcomponent, rfl⟩, ?_⟩
    exact (if_pos hcontrol).trans htopic

/-- The gateway of the device and the broker. -/
def socGateway : Config :=
  [exampleDevice "transport.a" "1" 10,
    ⟨"transport.mqtt", "", [], .mqtt (socPass []).settings.toMqtt⟩]

/-- Once it is bridged, the number can be set. -/
theorem number_can_be_set : ∃ s, ∃ c m,
    (planDiscoveryEntity plainConversions (socPass (writeTargets socGateway s 1)) .holding socEntry
      "soc").published = some (c, m) ∧ m.commandTopic = some "home/1/soc/write" := by
  have h0 : Runs.Reachable (system socGateway) exampleState := .init fun _ => rfl
  have hlinked : Bridged socGateway 1 0 := ⟨_, _, rfl, rfl, by decide⟩
  refine ⟨initBridge socGateway exampleState 1 0, ?_⟩
  refine (control_iff (reachable_initBridge h0 hlinked (by decide)) rfl rfl rfl plainConversions
    .holding socEntry "soc" "home/1/soc/write").mpr ?_
  exact ⟨rfl, Or.inr (Or.inr rfl), by decide, Or.inl rfl, Or.inl rfl, ⟨0, .holding, 0⟩,
    exampleEntry 10, by decide, rfl, ⟨rfl, rfl, rfl, rfl, rfl⟩, Or.inl rfl, hlinked⟩

end Controls

end MqttDiscovery

end ProtocolGateway
