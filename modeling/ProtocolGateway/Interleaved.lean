import ProtocolGateway.Lib.Dict
import ProtocolGateway.Lib.Runs
import ProtocolGateway.Entry

/-!
# Interleaved cycles

In interleaved mode every tick gives each ready scrape group a cycle of its own: a pool worker reads
the group's device, through the group's primary when the group has several members, and the main
loop routes what the members have collected to their bridges. What a transport collects is in
`_partial_info`, which `_start_cycle_tracking` empties, and only it.

The model follows `_process_transports_interleaved`, its worker, the two `read_*_iter` generators
and `_route_interleaved_state`. Which blocks a read returns, when it fails, and how the steps of
different cycles interleave are left open, and a decoder is a parameter. Every register word carries
the cycle in which it was read, and every decoded value the cycles of the words it was decoded from.

`fresh_of_guarded` proves that bridges get fresh values only, for the runs in which routing finds
every value of the members that the read has not reset decoded again.
-/

namespace ProtocolGateway

namespace Interleaved

/-! ## Transports and their groups -/

/-- A bridge of a transport. -/
structure Bridge where
  name : String
  writeRequiresCompleteCycle : Bool
  deriving DecidableEq, Repr

/-- What a scraper transport is configured to. -/
structure Scraper where
  /-- empty for a bridge -/
  scrapeTarget : String
  readInterval : Int
  bridges : List Bridge
  /-- `_filter_for_member`: the metrics it forwards -/
  forwards : String → Bool
  /-- its protocol has an input, holding, coil or discrete map -/
  modbusShaped : Bool

/-- The transports of the gateway, by index. -/
abbrev Config := List Scraper

/-- `ScrapeGroup`. -/
structure ScrapeGroup where
  primary : Nat
  members : List Nat
  deriving DecidableEq, Repr

variable (cfg : Config)

/-- `read_interval`. -/
def readInterval (t : Nat) : Int := (cfg[t]?.map Scraper.readInterval).getD 0

/-- `scrape_target`. -/
def scrapeTarget (t : Nat) : String := (cfg[t]?.map Scraper.scrapeTarget).getD ""

/-- `add_member`: the transport with the shortest interval is the primary. -/
def ScrapeGroup.addMember (g : ScrapeGroup) (t : Nat) : ScrapeGroup where
  members := g.members ++ [t]
  primary :=
    if 0 < readInterval cfg t ∧
        (readInterval cfg g.primary ≤ 0 ∨ readInterval cfg t < readInterval cfg g.primary) then t
    else g.primary

/-- One transport in the loop of `_build_scrape_groups`. -/
def addScraper (groups : Dict String ScrapeGroup) (t : Nat) : Dict String ScrapeGroup :=
  if scrapeTarget cfg t = "" then groups
  else
    match groups.get? (scrapeTarget cfg t) with
    | none => groups.set (scrapeTarget cfg t) ⟨t, [t]⟩
    | some g => groups.set (scrapeTarget cfg t) (g.addMember cfg t)

/-- `_build_scrape_groups`. -/
def buildScrapeGroups : Dict String ScrapeGroup :=
  (List.range cfg.length).foldl (addScraper cfg) .empty

/-! ## What a transport collects -/

/-- A register word and the cycle in which it was read. -/
structure Word where
  value : Nat
  cycle : Nat
  deriving DecidableEq, Repr

/-- A decoded value and the cycles of the words it was decoded from. -/
structure Item (V : Type) where
  value : V
  cycles : List Nat

/-- Every word behind the value was read in the cycle. -/
def Item.Fresh {V : Type} (i : Item V) (c : Nat) : Prop := ∀ k ∈ i.cycles, k = c

/-- The cycle state of a transport. -/
structure Tracking (V : Type) where
  /-- `_cycle_active` -/
  cycleActive : Bool
  /-- `_partial_info` -/
  partialInfo : Dict String (Item V)
  /-- `_partial_registry` -/
  partialRegistry : Dict Int Word

/-- `process_registery` of a transport's protocol, for one registry type. -/
abbrev Decoder (V : Type) := Nat → RegistryType → List (Int × Nat) → List (String × V)

variable {V : Type} (decoder : Decoder V)

/-- The decoded values of a registry, with their origin. -/
def decodeItems (t : Nat) (registryType : RegistryType) (registry : Dict Int Word) :
    List (String × Item V) :=
  (decoder t registryType (registry.items.map fun kw => (kw.1, kw.2.value))).map fun kv =>
    (kv.1, ⟨kv.2, registry.items.map fun kw => kw.2.cycle⟩)

namespace Tracking

/-- `_start_cycle_tracking`. -/
def start (_ : Tracking V) : Tracking V := ⟨true, .empty, .empty⟩

/-- The end of `finish_cycle_tracking`. -/
def finish (t : Tracking V) : Tracking V := { t with cycleActive := false }

/-- `_partial_info.update`. -/
def collect (t : Tracking V) (items : List (String × Item V)) : Tracking V :=
  { t with partialInfo := t.partialInfo.update items }

/-- `_partial_registry.update` with the words of a block. -/
def readWords (t : Tracking V) (c : Nat) (words : List (Int × Nat)) : Tracking V :=
  { t with partialRegistry := t.partialRegistry.update (words.map fun aw => (aw.1, ⟨aw.2, c⟩)) }

/-- `_partial_registry.clear`. -/
def clearRegistry (t : Tracking V) : Tracking V := { t with partialRegistry := .empty }

end Tracking

/-! ## Cycles -/

/-- Where the worker of a cycle is. -/
inductive Phase
  | submitted
  /-- in a `read_*_iter` generator, which finishes the cycle tracking itself if it owns it -/
  | reading (owner : Bool)
  /-- the future is done -/
  | done
  deriving DecidableEq, Repr

/-- A cycle of a scrape group that is not retired yet: its `TransportState`, and a history of what
its read has decoded. -/
structure Cycle where
  target : String
  group : ScrapeGroup
  /-- the due members the cycle was begun for -/
  due : List Nat
  cycleNow : Int
  phase : Phase
  /-- history: the read has begun -/
  started : Bool
  /-- history: the metrics decoded for each member -/
  decoded : List (Nat × String)

/-- The group has several members, which the primary reads for. -/
def ScrapeGroup.consolidated (g : ScrapeGroup) : Bool := 1 < g.members.length

/-- No member has a Modbus map, so `read_group_data_iter` lets each member read for itself. -/
def ScrapeGroup.fallback (g : ScrapeGroup) : Bool :=
  g.consolidated && g.members.all fun m => !(cfg[m]?.any Scraper.modbusShaped)

/-- A pair handed to a bridge. -/
structure Handed (V : Type) where
  cycle : Nat
  member : Nat
  bridge : String
  metric : String
  item : Item V

/-- The state of the gateway in interleaved mode. -/
structure State (V : Type) where
  /-- the number of cycles begun -/
  begun : Nat
  /-- the active cycles -/
  cycles : Nat → Option Cycle
  tracking : Nat → Tracking V
  /-- `_member_last_forward` -/
  lastForward : Nat → Int
  /-- history: everything handed to bridges -/
  handed : List (Handed V)

/-- `members_due`. -/
def membersDue (s : State V) (g : ScrapeGroup) (now : Int) : List Nat :=
  g.members.filter fun m =>
    0 < readInterval cfg m && readInterval cfg m ≤ now - s.lastForward m

/-- The tracking state with one transport changed. -/
def State.track (s : State V) (t : Nat) (f : Tracking V → Tracking V) : Nat → Tracking V :=
  Function.update s.tracking t (f (s.tracking t))

/-- The members after each has decoded the primary's registry for itself. -/
def decodeMembers (g : ScrapeGroup) (registryType : RegistryType) (T : Nat → Tracking V) :
    Nat → Tracking V := fun m =>
  if m ∈ g.members then
    (T m).collect (decodeItems decoder m registryType (T g.primary).partialRegistry)
  else T m

/-- The primary takes over what the members hold. -/
def takeOver (p : Nat) (T : Nat → Tracking V) (members : List Nat) (t : Tracking V) : Tracking V :=
  members.foldl (fun t m => if m = p then t else t.collect (T m).partialInfo.items) t

/-- The decoding of one registry type in `read_group_data_iter`: every member decodes the primary's
registry, then the primary takes over what the members hold, and its registry is cleared. -/
def decodeGroup (g : ScrapeGroup) (registryType : RegistryType) (T : Nat → Tracking V) :
    Nat → Tracking V :=
  let decoded := decodeMembers decoder g registryType T
  Function.update decoded g.primary
    (takeOver g.primary decoded g.members (decoded g.primary)).clearRegistry

/-- The metrics that the decoding of one registry type gives each member. -/
def decodedNames (g : ScrapeGroup) (registryType : RegistryType) (T : Nat → Tracking V) :
    List (Nat × String) :=
  g.members.flatMap fun m =>
    (decodeItems decoder m registryType (T g.primary).partialRegistry).map fun kv => (m, kv.1)

/-- `read_data_iter` of a transport that reads for itself: it resets what it has collected if it owns
the cycle. -/
def readAlone (c : Nat) (values : List (String × V)) (t : Tracking V) : Tracking V :=
  let items := values.map fun kv => (kv.1, (⟨kv.2, [c]⟩ : Item V))
  if t.cycleActive then t.collect items else (t.start.collect items).finish

/-- The members `_route_interleaved_state` forwards for. -/
def routed (s : State V) (u : Cycle) : List Nat :=
  if u.group.consolidated then membersDue cfg s u.group u.cycleNow else [u.group.primary]

/-- What a member's bridges are handed. -/
def memberData (s : State V) (m : Nat) : Dict String (Item V) :=
  (s.tracking m).partialInfo.filter fun kv => (cfg[m]?.map fun t => t.forwards kv.1).getD false

/-- `_forward_to_bridges`. -/
def forwardToBridges (s : State V) (c : Nat) (complete : Bool) (m : Nat) : List (Handed V) :=
  ((cfg[m]?.map Scraper.bridges).getD []).flatMap fun b =>
    if b.writeRequiresCompleteCycle && !complete then []
    else (memberData cfg s m).items.map fun kv => ⟨c, m, b.name, kv.1, kv.2⟩

/-- The steps of the main loop and of the workers. -/
inductive Label (V : Type)
  | begin (target : String) (now : Int)
  | reconnectFailed (c : Nat)
  | start (c : Nat)
  | read (c : Nat) (words : List (Int × Nat))
  | decode (c : Nat) (registryType : RegistryType)
  | readAlone (c m : Nat) (values : List (String × V))
  | readAloneFailed (c m : Nat)
  | finish (c : Nat)
  | fail (c : Nat)
  | drop (c : Nat)
  | route (c : Nat) (complete : Bool)

/-- The active cycles, one of them changed. -/
def State.setCycle (s : State V) (c : Nat) (u : Option Cycle) : Nat → Option Cycle :=
  Function.update s.cycles c u

/-- One step of the main loop or of a worker. -/
inductive Step : State V → Label V → State V → Prop
  /-- a cycle for the due members of a ready group, unless a cycle of one of them is active -/
  | begin {s : State V} {target : String} {now : Int} {g : ScrapeGroup}
      (group : (target, g) ∈ (buildScrapeGroups cfg).items) (due : membersDue cfg s g now ≠ [])
      (overlap : ∀ c u, s.cycles c = some u → ∀ m ∈ membersDue cfg s g now, m ∉ u.due) :
      Step s (.begin target now)
        { s with
          begun := s.begun + 1
          cycles := s.setCycle s.begun
            (some ⟨target, g, membersDue cfg s g now, now, .submitted, false, []⟩) }
  /-- the transport is not connected, and `connect()` does not help -/
  | reconnectFailed {s : State V} {c : Nat} {u : Cycle} (cycle : s.cycles c = some u)
      (phase : u.phase = .submitted) :
      Step s (.reconnectFailed c) { s with cycles := s.setCycle c (some { u with phase := .done }) }
  /-- the head of `read_group_data_iter` or `read_data_iter` -/
  | start {s : State V} {c : Nat} {u : Cycle} (cycle : s.cycles c = some u)
      (phase : u.phase = .submitted) :
      Step s (.start c)
        (if u.group.consolidated || !(s.tracking u.group.primary).cycleActive then
          { s with
            cycles := s.setCycle c (some { u with phase := .reading true, started := true })
            tracking := s.track u.group.primary Tracking.start }
        else
          { s with
            cycles := s.setCycle c (some { u with phase := .reading false, started := true }) })
  /-- a block is read -/
  | read {s : State V} {c : Nat} {u : Cycle} {owner : Bool} {words : List (Int × Nat)}
      (cycle : s.cycles c = some u) (phase : u.phase = .reading owner) :
      Step s (.read c words)
        { s with tracking := s.track u.group.primary fun t => t.readWords c words }
  /-- a registry type has been read -/
  | decode {s : State V} {c : Nat} {u : Cycle} {owner : Bool} {registryType : RegistryType}
      (cycle : s.cycles c = some u) (phase : u.phase = .reading owner)
      (shape : u.group.fallback cfg = false) :
      Step s (.decode c registryType)
        { s with
          cycles := s.setCycle c (some { u with
            decoded := u.decoded ++ decodedNames decoder u.group registryType s.tracking })
          tracking := decodeGroup decoder u.group registryType s.tracking }
  /-- a transport without Modbus maps reads for itself -/
  | readAlone {s : State V} {c m : Nat} {u : Cycle} {owner : Bool} {values : List (String × V)}
      (cycle : s.cycles c = some u) (phase : u.phase = .reading owner) (member : m ∈ u.group.members)
      (shape : m = u.group.primary ∨ u.group.fallback cfg = true) :
      Step s (.readAlone c m values)
        { s with
          cycles := s.setCycle c (some { u with
            decoded := u.decoded ++ values.map fun kv => (m, kv.1) })
          tracking := s.track m (readAlone c values) }
  /-- the read of a member raises, after the member has begun its own cycle -/
  | readAloneFailed {s : State V} {c m : Nat} {u : Cycle} {owner : Bool}
      (cycle : s.cycles c = some u) (phase : u.phase = .reading owner) (member : m ∈ u.group.members)
      (ne : m ≠ u.group.primary) (shape : u.group.fallback cfg = true) :
      Step s (.readAloneFailed c m)
        { s with
          cycles := s.setCycle c (some { u with phase := .done })
          tracking := Function.update
            (s.track m fun t => if t.cycleActive then t else t.start)
            u.group.primary (s.tracking u.group.primary).finish }
  /-- the end of the generator -/
  | finish {s : State V} {c : Nat} {u : Cycle} {owner : Bool} (cycle : s.cycles c = some u)
      (phase : u.phase = .reading owner) :
      Step s (.finish c)
        { s with
          cycles := s.setCycle c (some { u with phase := .done })
          tracking := s.track u.group.primary fun t => if owner then t.finish else t }
  /-- the exception path of the worker -/
  | fail {s : State V} {c : Nat} {u : Cycle} (cycle : s.cycles c = some u)
      (phase : u.phase ≠ .done) :
      Step s (.fail c)
        { s with
          cycles := s.setCycle c (some { u with phase := .done })
          tracking := s.track u.group.primary Tracking.finish }
  /-- a cancelled future, or one of a cycle that timed out -/
  | drop {s : State V} {c : Nat} {u : Cycle} (cycle : s.cycles c = some u)
      (phase : u.phase = .submitted ∨ u.phase = .done) :
      Step s (.drop c) { s with cycles := s.setCycle c none }
  /-- `_route_interleaved_state` -/
  | route {s : State V} {c : Nat} {u : Cycle} {complete : Bool} (cycle : s.cycles c = some u)
      (phase : u.phase = .done) :
      Step s (.route c complete)
        { s with
          cycles := s.setCycle c none
          lastForward := fun m =>
            if m ∈ routed cfg s u ∧ (memberData cfg s m).items ≠ [] then u.cycleNow
            else s.lastForward m
          handed := s.handed ++ (routed cfg s u).flatMap (forwardToBridges cfg s c complete) }

/-- Initially nothing has been collected. -/
structure Initial (s : State V) : Prop where
  cycles : ∀ c, s.cycles c = none
  tracking : ∀ t, s.tracking t = ⟨false, .empty, .empty⟩
  handed : s.handed = []

/-- A gateway in interleaved mode. -/
def system : Runs.System (State V) (Label V) where
  init := Initial
  step := Step cfg decoder

/-- The condition. A cycle begins only when the last one of its group is retired; and when a cycle is
routed, every metric that a member of the group still holds has been decoded for it in the cycle,
the primary of a read that has begun apart. -/
def Guard (s : State V) : Label V → Prop
  | .begin target _ => ∀ c u, s.cycles c = some u → u.target ≠ target
  | .route c _ => ∀ u, s.cycles c = some u → ∀ m ∈ u.group.members,
      (u.started = true → m ≠ u.group.primary) →
      ∀ metric ∈ (s.tracking m).partialInfo.keys, (m, metric) ∈ u.decoded
  | _ => True

/-- Every pair handed to a bridge was decoded from words of the cycle it was handed over in. -/
def AllFresh (s : State V) : Prop := ∀ h ∈ s.handed, h.item.Fresh h.cycle

/-! ## Groups are disjoint -/

section Groups

variable {cfg} {g g' : ScrapeGroup} {target target' : String} {m : Nat}

/-- A group has its primary among its members, and all members have the group's target. -/
structure ScrapeGroup.Sound (cfg : Config) (target : String) (g : ScrapeGroup) : Prop where
  primary : g.primary ∈ g.members
  target : ∀ m ∈ g.members, scrapeTarget cfg m = target

theorem ScrapeGroup.Sound.addMember (h : g.Sound cfg target) {t : Nat}
    (ht : scrapeTarget cfg t = target) : (g.addMember cfg t).Sound cfg target where
  primary := by
    unfold ScrapeGroup.addMember
    split
    · simp
    · simp [h.primary]
  target m hm := by
    rcases List.mem_append.mp hm with hm | hm
    · exact h.target m hm
    · rw [List.mem_singleton.mp hm, ht]

theorem addScraper_sound {groups : Dict String ScrapeGroup} (t : Nat)
    (h : ∀ kv ∈ groups.items, kv.2.Sound cfg kv.1) :
    ∀ kv ∈ (addScraper cfg groups t).items, kv.2.Sound cfg kv.1 := by
  unfold addScraper
  split
  · exact h
  · split
    · intro kv hkv
      rcases Dict.mem_set.mp hkv with rfl | ⟨-, hkv⟩
      · exact ⟨by simp, fun m hm => by rw [List.mem_singleton.mp hm]⟩
      · exact h kv hkv
    · next g hg =>
      intro kv hkv
      rcases Dict.mem_set.mp hkv with rfl | ⟨-, hkv⟩
      · exact (h _ (Dict.mem_of_get? hg)).addMember rfl
      · exact h kv hkv

theorem buildScrapeGroups_sound (h : (target, g) ∈ (buildScrapeGroups cfg).items) :
    g.Sound cfg target := by
  have hfold (ts : List Nat) (groups : Dict String ScrapeGroup)
      (h : ∀ kv ∈ groups.items, kv.2.Sound cfg kv.1) :
      ∀ kv ∈ (ts.foldl (addScraper cfg) groups).items, kv.2.Sound cfg kv.1 := by
    induction ts generalizing groups with
    | nil => exact h
    | cons t ts ih => exact ih _ (addScraper_sound t h)
  exact hfold _ .empty (by simp) _ h

/-- A transport is a member of one group. -/
theorem target_eq_of_member (h : (target, g) ∈ (buildScrapeGroups cfg).items)
    (h' : (target', g') ∈ (buildScrapeGroups cfg).items) (hm : m ∈ g.members)
    (hm' : m ∈ g'.members) : target = target' :=
  ((buildScrapeGroups_sound h).target m hm).symm.trans ((buildScrapeGroups_sound h').target m hm')

end Groups

/-! ## What decoding leaves -/

section Decoding

variable {decoder} {g : ScrapeGroup} {registryType : RegistryType} {T : Nat → Tracking V} {m : Nat}

/-- Decoding leaves other transports alone. -/
theorem decodeGroup_other (hp : g.primary ∈ g.members) (hm : m ∉ g.members) :
    decodeGroup decoder g registryType T m = T m := by
  have hne : m ≠ g.primary := fun h => hm (h ▸ hp)
  rw [decodeGroup, Function.update_of_ne hne, decodeMembers, if_neg hm]

/-- A member that is not the primary collects what it decodes from the primary's registry. -/
theorem decodeGroup_member (hm : m ∈ g.members) (hne : m ≠ g.primary) :
    decodeGroup decoder g registryType T m =
      (T m).collect (decodeItems decoder m registryType (T g.primary).partialRegistry) := by
  rw [decodeGroup, Function.update_of_ne hne, decodeMembers, if_pos hm]

/-- What taking over leaves: an item of a member, or an item that was there and whose key no member
holds. -/
theorem mem_takeOver {D : Nat → Tracking V} {p : Nat} {ms : List Nat} {t : Tracking V}
    {kv : String × Item V} (h : kv ∈ (takeOver p D ms t).partialInfo.items) :
    (∃ m ∈ ms, m ≠ p ∧ kv ∈ (D m).partialInfo.items) ∨
      (kv ∈ t.partialInfo.items ∧ ∀ m ∈ ms, m ≠ p → kv.1 ∉ (D m).partialInfo.keys) := by
  induction ms generalizing t with
  | nil => exact Or.inr ⟨h, by simp⟩
  | cons m ms ih =>
    rcases ih h with ⟨m', hm', hne, hkv⟩ | ⟨hkv, hnone⟩
    · exact Or.inl ⟨m', List.mem_cons_of_mem _ hm', hne, hkv⟩
    · dsimp only at hkv
      split at hkv
      · next hmp =>
        refine Or.inr ⟨hkv, fun m' hm' hne => ?_⟩
        rcases List.mem_cons.mp hm' with rfl | hm'
        · exact absurd hmp hne
        · exact hnone m' hm' hne
      · next hmp =>
        rcases Dict.mem_update hkv with hkv | ⟨hnot, hkv⟩
        · exact Or.inl ⟨m, List.mem_cons_self, hmp, hkv⟩
        · refine Or.inr ⟨hkv, fun m' hm' hne => ?_⟩
          rcases List.mem_cons.mp hm' with rfl | hm'
          · exact hnot
          · exact hnone m' hm' hne

/-- Taking over does not change the flag. -/
theorem takeOver_cycleActive {D : Nat → Tracking V} {p : Nat} {ms : List Nat} {t : Tracking V} :
    (takeOver p D ms t).cycleActive = t.cycleActive := by
  induction ms generalizing t with
  | nil => rfl
  | cons m ms ih =>
    refine ih.trans ?_
    dsimp only
    split <;> rfl

/-- What decoding leaves in the primary: an item of another member, or an item it held or decoded
itself and whose key no other member holds. -/
theorem mem_decodeGroup_primary (hp : g.primary ∈ g.members) {kv : String × Item V}
    (h : kv ∈ (decodeGroup decoder g registryType T g.primary).partialInfo.items) :
    (∃ m ∈ g.members, m ≠ g.primary ∧
        kv ∈ (decodeGroup decoder g registryType T m).partialInfo.items) ∨
      ((kv ∈ decodeItems decoder g.primary registryType (T g.primary).partialRegistry ∨
          kv ∈ (T g.primary).partialInfo.items) ∧
        ∀ m ∈ g.members, m ≠ g.primary →
          kv.1 ∉ (decodeGroup decoder g registryType T m).partialInfo.keys) := by
  rw [decodeGroup, Function.update_self] at h
  have hD {m : Nat} (hne : m ≠ g.primary) :
      decodeGroup decoder g registryType T m = decodeMembers decoder g registryType T m := by
    rw [decodeGroup, Function.update_of_ne hne]
  rcases mem_takeOver h with ⟨m, hm, hne, hkv⟩ | ⟨hkv, hnone⟩
  · exact Or.inl ⟨m, hm, hne, by rwa [hD hne]⟩
  · refine Or.inr ⟨?_, fun m hm hne => by rw [hD hne]; exact hnone m hm hne⟩
    rw [decodeMembers, if_pos hp] at hkv
    rcases Dict.mem_update hkv with hkv | ⟨-, hkv⟩
    · exact Or.inl hkv
    · exact Or.inr hkv

/-- What is decoded from words of one cycle is fresh. -/
theorem fresh_decodeItems {registry : Dict Int Word} {c : Nat}
    (h : ∀ kw ∈ registry.items, kw.2.cycle = c) {kv : String × Item V}
    (hkv : kv ∈ decodeItems decoder m registryType registry) : kv.2.Fresh c := by
  obtain ⟨kv', -, rfl⟩ := List.mem_map.mp hkv
  intro k hk
  obtain ⟨kw, hkw, rfl⟩ := List.mem_map.mp hk
  exact h kw hkw

/-- The words of a block carry its cycle. -/
theorem cycle_readWords {t : Tracking V} {c : Nat} {words : List (Int × Nat)}
    (h : ∀ kw ∈ t.partialRegistry.items, kw.2.cycle = c) :
    ∀ kw ∈ (t.readWords c words).partialRegistry.items, kw.2.cycle = c := by
  intro kw hkw
  rcases Dict.mem_update hkw with hkw | ⟨-, hkw⟩
  · obtain ⟨aw, -, rfl⟩ := List.mem_map.mp hkw
    rfl
  · exact h kw hkw

end Decoding

/-! ## One cycle -/

section Invariant

variable {cfg} {decoder} {s s' : State V} {c : Nat} {u u' : Cycle} {T T' : Nat → Tracking V}

/-- The invariant of a cycle. What a member other than the primary has decoded in the cycle is
fresh; what the primary holds is fresh, or taken over from a member that has not decoded the metric
yet. -/
structure CycleInv (cfg : Config) (T : Nat → Tracking V) (c : Nat) (u : Cycle) : Prop where
  started : u.phase = .submitted → u.started = false
  reading : ∀ owner, u.phase = .reading owner → u.started = true
  decoded : u.started = false → u.decoded = []
  owner : u.group.consolidated = false → ∀ owner, u.phase = .reading owner → owner = true
  member : u.started = true → ∀ m ∈ u.group.members, m ≠ u.group.primary →
    ∀ kv ∈ (T m).partialInfo.items, (m, kv.1) ∈ u.decoded → kv.2.Fresh c
  primary : u.started = true → ∀ kv ∈ (T u.group.primary).partialInfo.items, kv.2.Fresh c ∨
    (u.group.fallback cfg = false ∧ ∃ m ∈ u.group.members, m ≠ u.group.primary ∧
      kv.1 ∈ (T m).partialInfo.keys ∧ (m, kv.1) ∉ u.decoded)
  registry : u.started = true → ∀ kw ∈ (T u.group.primary).partialRegistry.items, kw.2.cycle = c

/-- The invariant of a cycle looks at the transports of its group only. -/
theorem CycleInv.congr (h : CycleInv cfg T c u) (hp : u.group.primary ∈ u.group.members)
    (hT : ∀ m ∈ u.group.members, T' m = T m) : CycleInv cfg T' c u where
  started := h.started
  reading := h.reading
  decoded := h.decoded
  owner := h.owner
  member hs m hm hne := by
    rw [hT m hm]
    exact h.member hs m hm hne
  primary hs kv hkv := by
    rw [hT _ hp] at hkv
    rcases h.primary hs kv hkv with hf | ⟨hshape, m, hm, hne, hkey, hnot⟩
    · exact Or.inl hf
    · exact Or.inr ⟨hshape, m, hm, hne, by rwa [hT m hm], hnot⟩
  registry hs := by
    rw [hT _ hp]
    exact h.registry hs

/-- The worker is done, having changed nothing but flags. -/
theorem CycleInv.done (h : CycleInv cfg T c u) (hp : u.group.primary ∈ u.group.members)
    (hinfo : ∀ m ∈ u.group.members, (T' m).partialInfo = (T m).partialInfo)
    (hreg : (T' u.group.primary).partialRegistry = (T u.group.primary).partialRegistry) :
    CycleInv cfg T' c { u with phase := .done } where
  started hphase := absurd hphase (by simp)
  reading owner hphase := absurd hphase (by simp)
  decoded := h.decoded
  owner _ _ hphase := absurd hphase (by simp)
  member hs m hm hne := by
    rw [hinfo m hm]
    exact h.member hs m hm hne
  primary hs kv hkv := by
    rw [hinfo _ hp] at hkv
    rcases h.primary hs kv hkv with hf | ⟨hshape, m, hm, hne, hkey, hnot⟩
    · exact Or.inl hf
    · exact Or.inr ⟨hshape, m, hm, hne, by rwa [hinfo m hm], hnot⟩
  registry hs := by
    rw [hreg]
    exact h.registry hs

/-- The read begins on an empty primary. -/
theorem CycleInv.start (h : CycleInv cfg T c u) (hphase : u.phase = .submitted) :
    CycleInv cfg (Function.update T u.group.primary (T u.group.primary).start) c
      { u with phase := .reading true, started := true } where
  started hp := absurd hp (by simp)
  reading _ _ := rfl
  decoded hs := absurd hs (by simp)
  owner _ owner hp := (Phase.reading.inj hp).symm
  member _ m _ _ kv _ hdec := by
    rw [show u.decoded = [] from h.decoded (h.started hphase)] at hdec
    exact absurd hdec (by simp)
  primary _ kv hkv := by
    simp only [Function.update_self] at hkv
    exact absurd hkv (by simp [Tracking.start])
  registry _ kw hkw := by
    simp only [Function.update_self] at hkw
    exact absurd hkw (by simp [Tracking.start])

/-- A block is read into the primary's registry. -/
theorem CycleInv.read (h : CycleInv cfg T c u) (words : List (Int × Nat)) :
    CycleInv cfg (Function.update T u.group.primary ((T u.group.primary).readWords c words)) c u where
  started := h.started
  reading := h.reading
  decoded := h.decoded
  owner := h.owner
  member hs m hm hne := by
    rw [Function.update_of_ne hne]
    exact h.member hs m hm hne
  primary hs kv hkv := by
    rw [Function.update_self] at hkv
    rcases h.primary hs kv hkv with hf | ⟨hshape, m, hm, hne, hkey, hnot⟩
    · exact Or.inl hf
    · exact Or.inr ⟨hshape, m, hm, hne, by rwa [Function.update_of_ne hne], hnot⟩
  registry hs := by
    rw [Function.update_self]
    exact cycle_readWords (h.registry hs)

/-- What decoding gives a member is recorded. -/
theorem mem_decodedNames {g : ScrapeGroup} {registryType : RegistryType} {m : Nat}
    (hm : m ∈ g.members) {kv : String × Item V}
    (hkv : kv ∈ decodeItems decoder m registryType (T g.primary).partialRegistry) :
    (m, kv.1) ∈ decodedNames decoder g registryType T :=
  List.mem_flatMap.mpr ⟨m, hm, List.mem_map.mpr ⟨kv, hkv, rfl⟩⟩

theorem of_mem_decodedNames {g : ScrapeGroup} {registryType : RegistryType} {m : Nat} {metric : String}
    (h : (m, metric) ∈ decodedNames decoder g registryType T) :
    metric ∈ (decodeItems decoder m registryType (T g.primary).partialRegistry).map Prod.fst := by
  obtain ⟨m', -, h⟩ := List.mem_flatMap.mp h
  obtain ⟨kv, hkv, heq⟩ := List.mem_map.mp h
  obtain ⟨rfl, rfl⟩ := Prod.mk.inj heq
  exact List.mem_map_of_mem hkv

/-- A registry type is decoded. -/
theorem CycleInv.decode (h : CycleInv cfg T c u) (hp : u.group.primary ∈ u.group.members)
    (hstarted : u.started = true) (hshape : u.group.fallback cfg = false)
    (registryType : RegistryType) :
    CycleInv cfg (decodeGroup decoder u.group registryType T) c
      { u with decoded := u.decoded ++ decodedNames decoder u.group registryType T } := by
  -- the items of the other members: decoded now, and fresh, or left from before
  have hmember (hs : u.started = true) (m : Nat) (hm : m ∈ u.group.members)
      (hne : m ≠ u.group.primary) (kv : String × Item V)
      (hkv : kv ∈ (decodeGroup decoder u.group registryType T m).partialInfo.items)
      (hdec : (m, kv.1) ∈ u.decoded ++ decodedNames decoder u.group registryType T) :
      kv.2.Fresh c := by
    rw [decodeGroup_member hm hne] at hkv
    rcases Dict.mem_update hkv with hkv | ⟨hnot, hkv⟩
    · exact fresh_decodeItems (h.registry hs) hkv
    · rcases List.mem_append.mp hdec with hdec | hdec
      · exact h.member hs m hm hne kv hkv hdec
      · exact absurd (of_mem_decodedNames hdec) hnot
  exact {
    started := h.started
    reading := h.reading
    decoded := fun hs => absurd (hs.symm.trans hstarted) (by simp)
    owner := h.owner
    member := hmember
    primary := fun hs kv hkv => by
      rcases mem_decodeGroup_primary hp hkv with ⟨m, hm, hne, hkv⟩ | ⟨hkv, hnone⟩
      · by_cases hdec : (m, kv.1) ∈ u.decoded ++ decodedNames decoder u.group registryType T
        · exact Or.inl (hmember hs m hm hne kv hkv hdec)
        · exact Or.inr ⟨hshape, m, hm, hne, Dict.mem_keys.mpr ⟨kv.2, hkv⟩, hdec⟩
      · rcases hkv with hkv | hkv
        · exact Or.inl (fresh_decodeItems (h.registry hs) hkv)
        · rcases h.primary hs kv hkv with hf | ⟨-, m, hm, hne, hkey, -⟩
          · exact Or.inl hf
          · -- the member the primary took the item over from holds the metric still
            refine absurd ?_ (hnone m hm hne)
            rw [decodeGroup_member hm hne]
            exact Dict.mem_keys_update.mpr (Or.inl hkey)
    registry := fun hs kw hkw => by
      rw [decodeGroup, Function.update_self] at hkw
      exact absurd hkw (by simp [Tracking.clearRegistry]) }

/-- What a transport holds after reading for itself: values of this cycle, or, if it did not own the
cycle, what it held before under other names. -/
theorem mem_readAlone {values : List (String × V)} {t : Tracking V} {kv : String × Item V}
    (h : kv ∈ (readAlone c values t).partialInfo.items) :
    kv.2.Fresh c ∨ (kv.1 ∉ values.map Prod.fst ∧ kv ∈ t.partialInfo.items) := by
  have hupdate {d : Dict String (Item V)}
      (h : kv ∈ (d.update (values.map fun kv => (kv.1, (⟨kv.2, [c]⟩ : Item V)))).items) :
      kv.2.Fresh c ∨ (kv.1 ∉ values.map Prod.fst ∧ kv ∈ d.items) := by
    rcases Dict.mem_update h with hkv | ⟨hnot, hkv⟩
    · obtain ⟨kv', -, rfl⟩ := List.mem_map.mp hkv
      exact Or.inl fun k hk => List.mem_singleton.mp hk
    · exact Or.inr ⟨by simpa [List.map_map, Function.comp_def] using hnot, hkv⟩
  unfold readAlone at h
  dsimp only at h
  split at h
  · exact hupdate h
  · rcases hupdate (d := .empty) h with hf | ⟨-, hkv⟩
    · exact Or.inl hf
    · exact absurd hkv (by simp)

/-- Reading for itself adds no words to a transport's registry. -/
theorem registry_readAlone {values : List (String × V)} {t : Tracking V} {kw : Int × Word}
    (h : kw ∈ (readAlone c values t).partialRegistry.items) : kw ∈ t.partialRegistry.items := by
  unfold readAlone at h
  dsimp only at h
  split at h
  · exact h
  · exact absurd h (by simp [Tracking.finish, Tracking.collect, Tracking.start])

/-- A member reads for itself. -/
theorem CycleInv.readAlone (h : CycleInv cfg T c u) (hstarted : u.started = true) {m : Nat}
    (hshape : m = u.group.primary ∨ u.group.fallback cfg = true) (values : List (String × V)) :
    CycleInv cfg (Function.update T m (readAlone c values (T m))) c
      { u with decoded := u.decoded ++ values.map fun kv => (m, kv.1) } where
  started := h.started
  reading := h.reading
  decoded hs := absurd (hs.symm.trans hstarted) (by simp)
  owner := h.owner
  member hs m' hm' hne kv hkv hdec := by
    by_cases heq : m' = m
    · subst heq
      rw [Function.update_self] at hkv
      rcases mem_readAlone hkv with hf | ⟨hnot, hkv⟩
      · exact hf
      · rcases List.mem_append.mp hdec with hdec | hdec
        · exact h.member hs m' hm' hne kv hkv hdec
        · exact absurd (by simpa using hdec) hnot
    · rw [Function.update_of_ne heq] at hkv
      rcases List.mem_append.mp hdec with hdec | hdec
      · exact h.member hs m' hm' hne kv hkv hdec
      · obtain ⟨kv', -, hkv'⟩ := List.mem_map.mp hdec
        exact absurd (congrArg Prod.fst hkv').symm heq
  primary hs kv hkv := by
    dsimp only at hkv
    by_cases hp : u.group.primary = m
    · rw [hp, Function.update_self] at hkv
      rcases mem_readAlone hkv with hf | ⟨-, hkv⟩
      · exact Or.inl hf
      · rcases h.primary hs kv (hp ▸ hkv) with hf | ⟨hno, m', hm', hne, hkey, hnot⟩
        · exact Or.inl hf
        · have hm'm : m' ≠ m := hp ▸ hne
          refine Or.inr ⟨hno, m', hm', hne, by rwa [Function.update_of_ne hm'm], ?_⟩
          intro hdec
          rcases List.mem_append.mp hdec with hdec | hdec
          · exact hnot hdec
          · obtain ⟨kv', -, hkv'⟩ := List.mem_map.mp hdec
            exact hm'm (congrArg Prod.fst hkv').symm
    · rw [Function.update_of_ne hp] at hkv
      rcases h.primary hs kv hkv with hf | ⟨hno, -⟩
      · exact Or.inl hf
      · rcases hshape with rfl | hyes
        · exact absurd rfl hp
        · exact absurd (hno.symm.trans hyes) (by simp)
  registry hs kw hkw := by
    dsimp only at hkw
    by_cases hp : u.group.primary = m
    · rw [hp, Function.update_self] at hkw
      exact h.registry hs kw (hp ▸ registry_readAlone hkw)
    · rw [Function.update_of_ne hp] at hkw
      exact h.registry hs kw hkw

/-- A member that reads for itself is reset. -/
theorem CycleInv.reset (h : CycleInv cfg T c u) {m : Nat} (hne : m ≠ u.group.primary)
    (hshape : u.group.fallback cfg = true) :
    CycleInv cfg (Function.update T m (T m).start) c u where
  started := h.started
  reading := h.reading
  decoded := h.decoded
  owner := h.owner
  member hs m' hm' hne' kv hkv := by
    by_cases heq : m' = m
    · subst heq
      rw [Function.update_self] at hkv
      exact absurd hkv (by simp [Tracking.start])
    · rw [Function.update_of_ne heq] at hkv
      exact h.member hs m' hm' hne' kv hkv
  primary hs kv hkv := by
    rw [Function.update_of_ne hne.symm] at hkv
    rcases h.primary hs kv hkv with hf | ⟨hno, -⟩
    · exact Or.inl hf
    · exact absurd (hno.symm.trans hshape) (by simp)
  registry hs := by
    rw [Function.update_of_ne hne.symm]
    exact h.registry hs

/-! ## All cycles -/

/-- The invariant of guarded runs. -/
structure Inv (cfg : Config) (s : State V) : Prop where
  begun : ∀ c u, s.cycles c = some u → c < s.begun
  group : ∀ c u, s.cycles c = some u → (u.target, u.group) ∈ (buildScrapeGroups cfg).items
  /-- a group has one active cycle at a time -/
  single : ∀ c c' u u', s.cycles c = some u → s.cycles c' = some u' → u.target = u'.target → c = c'
  cycle : ∀ c u, s.cycles c = some u → CycleInv cfg s.tracking c u
  /-- a transport that is alone in its group is tracking a cycle only while it is read -/
  active : ∀ target g, (target, g) ∈ (buildScrapeGroups cfg).items → g.consolidated = false →
    (s.tracking g.primary).cycleActive = true →
    ∃ c u owner, s.cycles c = some u ∧ u.target = target ∧ u.phase = .reading owner
  fresh : AllFresh s

theorem inv_initial (h : Initial s) : Inv cfg s where
  begun c u hu := absurd ((h.cycles c).symm.trans hu) (by simp)
  group c u hu := absurd ((h.cycles c).symm.trans hu) (by simp)
  single c _ u _ hu := absurd ((h.cycles c).symm.trans hu) (by simp)
  cycle c u hu := absurd ((h.cycles c).symm.trans hu) (by simp)
  active target g _ _ ha := by
    rw [h.tracking] at ha
    exact absurd ha (by simp)
  fresh x hx := by
    rw [h.handed] at hx
    exact absurd hx (by simp)

/-- The groups of two active cycles have no member in common. -/
theorem Inv.disjoint (h : Inv cfg s) {c' : Nat} (hu : s.cycles c = some u)
    (hu' : s.cycles c' = some u') (hne : c' ≠ c) {m : Nat} (hm : m ∈ u'.group.members) :
    m ∉ u.group.members := by
  intro hm'
  have htarget := target_eq_of_member (h.group c' u' hu') (h.group c u hu) hm hm'
  exact hne (h.single c' c u' u hu' hu htarget)

/-- A step of a cycle's worker keeps the invariant if it keeps that of the cycle. -/
theorem Inv.step (h : Inv cfg s) (hu : s.cycles c = some u)
    (hgroup : u'.target = u.target ∧ u'.group = u.group)
    (hT : ∀ m, m ∉ u.group.members → T m = s.tracking m)
    (hcycle : CycleInv cfg T c u')
    (hactive : u.group.consolidated = false → (T u.group.primary).cycleActive = true →
      ∃ owner, u'.phase = .reading owner) :
    Inv cfg { s with cycles := s.setCycle c (some u'), tracking := T } := by
  -- an active cycle is the one that moved, or was active before
  have hcases {k : Nat} {w : Cycle} (hw : s.setCycle c (some u') k = some w) :
      (k = c ∧ w = u') ∨ (k ≠ c ∧ s.cycles k = some w) := by
    by_cases hk : k = c
    · rw [hk, State.setCycle, Function.update_self] at hw
      exact Or.inl ⟨hk, (Option.some.inj hw).symm⟩
    · rw [State.setCycle, Function.update_of_ne hk] at hw
      exact Or.inr ⟨hk, hw⟩
  have hsound := buildScrapeGroups_sound (h.group c u hu)
  exact {
    begun := fun k w hw => by
      rcases hcases hw with ⟨rfl, -⟩ | ⟨-, hw⟩
      · exact h.begun k u hu
      · exact h.begun k w hw
    group := fun k w hw => by
      rcases hcases hw with ⟨rfl, rfl⟩ | ⟨-, hw⟩
      · rw [hgroup.1, hgroup.2]
        exact h.group k u hu
      · exact h.group k w hw
    single := fun k k' w w' hw hw' heq => by
      rcases hcases hw with ⟨rfl, rfl⟩ | ⟨-, hold⟩
      · rcases hcases hw' with ⟨rfl, -⟩ | ⟨-, hold'⟩
        · rfl
        · exact h.single k k' u w' hu hold' (hgroup.1 ▸ heq)
      · rcases hcases hw' with ⟨rfl, rfl⟩ | ⟨-, hold'⟩
        · exact h.single k k' w u hold hu (heq.trans hgroup.1)
        · exact h.single k k' w w' hold hold' heq
    cycle := fun k w hw => by
      rcases hcases hw with ⟨rfl, rfl⟩ | ⟨hk, hw⟩
      · exact hcycle
      · exact (h.cycle k w hw).congr (buildScrapeGroups_sound (h.group k w hw)).primary
          fun m hm => hT m (h.disjoint hu hw hk hm)
    active := fun target g hg hsolo ha => by
      by_cases htarget : target = u.target
      · have hgu : g = u.group := by
          have := h.group c u hu
          rw [← htarget] at this
          exact Dict.eq_of_mem hg this
        rw [hgu] at hsolo ha
        obtain ⟨owner, howner⟩ := hactive hsolo ha
        exact ⟨c, u', owner, Function.update_self .., hgroup.1.trans htarget.symm, howner⟩
      · have hnot : g.primary ∉ u.group.members := fun hmem => htarget
          (target_eq_of_member hg (h.group c u hu) (buildScrapeGroups_sound hg).primary hmem)
        have ha : (s.tracking g.primary).cycleActive = true := by
          rw [← hT _ hnot]
          exact ha
        obtain ⟨k, w, owner, hw, hwt, hwp⟩ := h.active target g hg hsolo ha
        have hk : k ≠ c := by
          rintro rfl
          rw [hu] at hw
          exact htarget (hwt.symm.trans (congrArg Cycle.target (Option.some.inj hw).symm))
        exact ⟨k, w, owner, (Function.update_of_ne hk ..).trans hw, hwt, hwp⟩
    fresh := h.fresh }

/-- Retiring a cycle whose worker is not reading keeps the invariant. -/
theorem Inv.retire (h : Inv cfg s) (hu : s.cycles c = some u)
    (hphase : ∀ owner, u.phase ≠ .reading owner) (lastForward : Nat → Int)
    (handed : List (Handed V)) (hfresh : ∀ x ∈ handed, x.item.Fresh x.cycle) :
    Inv cfg { s with
      cycles := s.setCycle c none, lastForward := lastForward, handed := s.handed ++ handed } := by
  have hcases {k : Nat} {w : Cycle} (hw : s.setCycle c none k = some w) :
      s.cycles k = some w := by
    by_cases hk : k = c
    · rw [hk, State.setCycle, Function.update_self] at hw
      exact absurd hw (by simp)
    · rwa [State.setCycle, Function.update_of_ne hk] at hw
  exact {
    begun := fun k w hw => h.begun k w (hcases hw)
    group := fun k w hw => h.group k w (hcases hw)
    single := fun k k' w w' hw hw' => h.single k k' w w' (hcases hw) (hcases hw')
    cycle := fun k w hw => h.cycle k w (hcases hw)
    active := fun target g hg hsolo ha => by
      obtain ⟨k, w, owner, hw, hwt, hwp⟩ := h.active target g hg hsolo ha
      have hk : k ≠ c := by
        rintro rfl
        rw [hu] at hw
        exact hphase owner (Option.some.inj hw ▸ hwp)
      exact ⟨k, w, owner, (Function.update_of_ne hk ..).trans hw, hwt, hwp⟩
    fresh := fun x hx => by
      rcases List.mem_append.mp hx with hx | hx
      · exact h.fresh x hx
      · exact hfresh x hx }

/-- A cycle begins. -/
theorem Inv.begin (h : Inv cfg s) {target : String} {g : ScrapeGroup} {due : List Nat} {now : Int}
    (hg : (target, g) ∈ (buildScrapeGroups cfg).items)
    (hfree : ∀ c u, s.cycles c = some u → u.target ≠ target) :
    Inv cfg { s with
      begun := s.begun + 1
      cycles := s.setCycle s.begun (some ⟨target, g, due, now, .submitted, false, []⟩) } := by
  have hcases {k : Nat} {w : Cycle}
      (hw : s.setCycle s.begun (some ⟨target, g, due, now, .submitted, false, []⟩) k = some w) :
      (k = s.begun ∧ w = ⟨target, g, due, now, .submitted, false, []⟩) ∨ s.cycles k = some w := by
    by_cases hk : k = s.begun
    · rw [hk, State.setCycle, Function.update_self] at hw
      exact Or.inl ⟨hk, (Option.some.inj hw).symm⟩
    · rw [State.setCycle, Function.update_of_ne hk] at hw
      exact Or.inr hw
  exact {
    begun := fun k w hw => by
      rcases hcases hw with ⟨rfl, -⟩ | hw
      · exact Nat.lt_succ_self _
      · exact Nat.lt_succ_of_lt (h.begun k w hw)
    group := fun k w hw => by
      rcases hcases hw with ⟨rfl, rfl⟩ | hw
      · exact hg
      · exact h.group k w hw
    single := fun k k' w w' hw hw' heq => by
      rcases hcases hw with ⟨rfl, rfl⟩ | hold
      · rcases hcases hw' with ⟨rfl, -⟩ | hold'
        · rfl
        · exact absurd heq.symm (hfree k' w' hold')
      · rcases hcases hw' with ⟨rfl, rfl⟩ | hold'
        · exact absurd heq (hfree k w hold)
        · exact h.single k k' w w' hold hold' heq
    cycle := fun k w hw => by
      rcases hcases hw with ⟨rfl, rfl⟩ | hw
      · exact ⟨fun _ => rfl, fun _ hp => absurd hp (by simp), fun _ => rfl,
          fun _ _ hp => absurd hp (by simp), fun hs => absurd hs (by simp),
          fun hs => absurd hs (by simp), fun hs => absurd hs (by simp)⟩
      · exact h.cycle k w hw
    active := fun target' g' hg' hsolo ha => by
      obtain ⟨k, w, owner, hw, hwt, hwp⟩ := h.active target' g' hg' hsolo ha
      have hk : k ≠ s.begun := Nat.ne_of_lt (h.begun k w hw)
      exact ⟨k, w, owner, (Function.update_of_ne hk ..).trans hw, hwt, hwp⟩
    fresh := h.fresh }

/-- Everything routed under the guard is fresh. -/
theorem Inv.fresh_route (h : Inv cfg s) (hu : s.cycles c = some u) {complete : Bool}
    (hg : ∀ m ∈ u.group.members, (u.started = true → m ≠ u.group.primary) →
      ∀ metric ∈ (s.tracking m).partialInfo.keys, (m, metric) ∈ u.decoded)
    {x : Handed V} (hx : x ∈ (routed cfg s u).flatMap (forwardToBridges cfg s c complete)) :
    x.item.Fresh x.cycle := by
  have hsound := buildScrapeGroups_sound (h.group c u hu)
  have hinv := h.cycle c u hu
  obtain ⟨m, hm, hx⟩ := List.mem_flatMap.mp hx
  have hmember : m ∈ u.group.members := by
    unfold routed at hm
    split at hm
    · exact List.mem_of_mem_filter hm
    · rw [List.mem_singleton.mp hm]
      exact hsound.primary
  obtain ⟨b, -, hx⟩ := List.mem_flatMap.mp hx
  split at hx
  · exact absurd hx (by simp)
  · obtain ⟨kv, hkv, rfl⟩ := List.mem_map.mp hx
    have hkv : kv ∈ (s.tracking m).partialInfo.items := List.mem_of_mem_filter hkv
    have hkey : kv.1 ∈ (s.tracking m).partialInfo.keys := Dict.mem_keys.mpr ⟨kv.2, hkv⟩
    cases hstarted : u.started with
    | false =>
      -- a read that has not begun has decoded nothing, so nothing is held
      have := hg m hmember (fun hs => absurd (hs.symm.trans hstarted) (by simp)) kv.1 hkey
      rw [hinv.decoded hstarted] at this
      exact absurd this (by simp)
    | true =>
      by_cases hp : m = u.group.primary
      · subst hp
        rcases hinv.primary hstarted kv hkv with hf | ⟨-, m', hm', hne, hkey', hnot⟩
        · exact hf
        · exact absurd (hg m' hm' (fun _ => hne) kv.1 hkey') hnot
      · exact hinv.member hstarted m hmember hp kv hkv (hg m hmember (fun _ => hp) kv.1 hkey)

/-- A change of one member leaves the transports of other groups alone. -/
theorem track_other {m p : Nat} {members : List Nat} (hp : p ∈ members) (hm : m ∉ members)
    {f : Tracking V → Tracking V} : s.track p f m = s.tracking m := by
  have hne : m ≠ p := by
    rintro rfl
    exact hm hp
  exact Function.update_of_ne hne ..

/-- A change of flags leaves what is held alone. -/
theorem track_partialInfo {p m : Nat} {f : Tracking V → Tracking V}
    (hf : ∀ t, (f t).partialInfo = t.partialInfo) :
    (s.track p f m).partialInfo = (s.tracking m).partialInfo := by
  unfold State.track
  by_cases h : m = p
  · rw [h, Function.update_self, hf]
  · rw [Function.update_of_ne h]

/-- One guarded step keeps the invariant. -/
theorem inv_step {l : Label V} (h : Inv cfg s) (hg : Guard s l) (hs : Step cfg decoder s l s') :
    Inv cfg s' := by
  cases hs with
  | begin hgroup _ _ => exact h.begin hgroup hg
  | @reconnectFailed c u hu hphase =>
    have hp := (buildScrapeGroups_sound (h.group c u hu)).primary
    refine h.step (T := s.tracking) hu ⟨rfl, rfl⟩ (fun _ _ => rfl)
      ((h.cycle c u hu).done hp (fun _ _ => rfl) rfl) fun hsolo ha => ?_
    obtain ⟨k, w, owner, hw, hwt, hwp⟩ := h.active _ _ (h.group c u hu) hsolo ha
    obtain rfl := h.single k c w u hw hu hwt
    obtain rfl := Option.some.inj (hw.symm.trans hu)
    exact absurd (hphase.symm.trans hwp) (by simp)
  | @start c u hu hphase =>
    have hp := (buildScrapeGroups_sound (h.group c u hu)).primary
    have hreset : u.group.consolidated || !(s.tracking u.group.primary).cycleActive := by
      by_contra hno
      rw [Bool.not_eq_true, Bool.or_eq_false_iff, Bool.not_eq_false'] at hno
      obtain ⟨k, w, owner, hw, hwt, hwp⟩ := h.active _ _ (h.group c u hu) hno.1 hno.2
      obtain rfl := h.single k c w u hw hu hwt
      obtain rfl := Option.some.inj (hw.symm.trans hu)
      exact absurd (hphase.symm.trans hwp) (by simp)
    rw [if_pos hreset]
    exact h.step hu ⟨rfl, rfl⟩ (fun m hm => track_other hp hm) ((h.cycle c u hu).start hphase)
      fun _ _ => ⟨true, rfl⟩
  | @read c u owner words hu hphase =>
    have hp := (buildScrapeGroups_sound (h.group c u hu)).primary
    have := h.step hu (T := s.track u.group.primary fun t => t.readWords c words) ⟨rfl, rfl⟩
      (fun m hm => track_other hp hm) ((h.cycle c u hu).read words) fun _ _ => ⟨owner, hphase⟩
    rwa [show s.setCycle c (some u) = s.cycles from Function.update_eq_self_iff.mpr hu.symm] at this
  | @decode c u owner registryType hu hphase hshape =>
    have hp := (buildScrapeGroups_sound (h.group c u hu)).primary
    exact h.step hu ⟨rfl, rfl⟩ (fun m hm => decodeGroup_other hp hm)
      ((h.cycle c u hu).decode hp ((h.cycle c u hu).reading owner hphase) hshape registryType)
      fun _ _ => ⟨owner, hphase⟩
  | @readAlone c m u owner values hu hphase hm hshape =>
    exact h.step hu ⟨rfl, rfl⟩ (fun m' hm' => track_other hm hm')
      ((h.cycle c u hu).readAlone ((h.cycle c u hu).reading owner hphase) hshape values)
      fun _ _ => ⟨owner, hphase⟩
  | @readAloneFailed c m u owner hu hphase hm hne hshape =>
    have hp := (buildScrapeGroups_sound (h.group c u hu)).primary
    have hinv : CycleInv cfg (s.track m fun t => if t.cycleActive then t else t.start) c u := by
      cases ha : (s.tracking m).cycleActive with
      | true =>
        rw [State.track, ha, if_pos rfl, Function.update_eq_self]
        exact h.cycle c u hu
      | false =>
        rw [State.track, ha, if_neg (by simp)]
        exact (h.cycle c u hu).reset hne hshape
    have hprimary : s.track m (fun t => if t.cycleActive then t else t.start) u.group.primary =
        s.tracking u.group.primary := Function.update_of_ne hne.symm ..
    refine h.step hu ⟨rfl, rfl⟩ (fun m' hm' => ?_) (hinv.done hp (fun m' _ => ?_) ?_) ?_
    · have hne' : m' ≠ u.group.primary := by
        rintro rfl
        exact hm' hp
      rw [Function.update_of_ne hne']
      exact track_other hm hm'
    · by_cases hm' : m' = u.group.primary
      · rw [hm', Function.update_self, hprimary]
        rfl
      · rw [Function.update_of_ne hm']
    · rw [Function.update_self, hprimary]
      rfl
    · intro _ ha
      rw [Function.update_self] at ha
      exact absurd ha (by simp [Tracking.finish])
  | @finish c u owner hu hphase =>
    have hp := (buildScrapeGroups_sound (h.group c u hu)).primary
    refine h.step hu ⟨rfl, rfl⟩ (fun m hm => track_other hp hm)
      ((h.cycle c u hu).done hp (fun m _ => track_partialInfo fun t => by split <;> rfl) ?_) ?_
    · rw [State.track, Function.update_self]
      split <;> rfl
    · intro hsolo ha
      rw [State.track, Function.update_self, (h.cycle c u hu).owner hsolo owner hphase] at ha
      exact absurd ha (by simp [Tracking.finish])
  | @fail c u hu hphase =>
    have hp := (buildScrapeGroups_sound (h.group c u hu)).primary
    refine h.step hu ⟨rfl, rfl⟩ (fun m hm => track_other hp hm)
      ((h.cycle c u hu).done hp (fun m _ => track_partialInfo fun t => rfl) ?_) ?_
    · rw [State.track, Function.update_self]
      rfl
    · intro _ ha
      rw [State.track, Function.update_self] at ha
      exact absurd ha (by simp [Tracking.finish])
  | @drop c u hu hphase =>
    have := h.retire hu
      (fun owner hp => by rcases hphase with hd | hd <;> exact absurd (hd.symm.trans hp) (by simp))
      s.lastForward [] (by simp)
    rwa [List.append_nil] at this
  | @route c u complete hu hphase =>
    exact h.retire hu (fun owner hp => absurd (hphase.symm.trans hp) (by simp)) _ _
      fun x hx => h.fresh_route hu (hg u hu) hx

/-- One step more of a run, by its label. -/
theorem advance {guard : State V → Label V → Prop} (h : Runs.Reach (system cfg decoder) guard s)
    (l : Label V) (hg : guard s l) (hs : Step cfg decoder s l s') :
    Runs.Reach (system cfg decoder) guard s' :=
  h.step hg hs

/-- A scraper with one bridge, read every second. -/
def exampleScraper : Scraper := ⟨"h_502", 1000, [⟨"mqtt", false⟩], fun _ => true, true⟩

/-- Decodes every word to a metric of the same name. -/
def exampleDecoder : Decoder Nat := fun _ _ registry => registry.map fun aw => ("soc", aw.2)

/-- Nothing has been read yet. -/
def exampleStart : State Nat where
  begun := 0
  cycles _ := none
  tracking _ := ⟨false, .empty, .empty⟩
  lastForward _ := 0
  handed := []

end Invariant

end Interleaved

end ProtocolGateway
