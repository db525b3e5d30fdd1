import ProtocolGateway.MemberFilter
import ProtocolGateway.Lib.Attempts

/-!
# Forwarding to bridges

What happens to the data of a read: every due member of the group gets its metrics, filtered, and
every bridge the member lists is handed them with one call of `write_data`. `_process_group_read`
does so in sequential and concurrent mode, `_route_interleaved_state` in interleaved mode, for the
members of a consolidated read or for a single transport.

Nothing catches an exception of `write_data` before the whole cycle does, so a bridge that raises
takes the deliveries after its own with it. `exactly_once_iff` says which patterns of exceptions and
which bridge lists leave every connected bridge with exactly one delivery.
-/

namespace ProtocolGateway

namespace Forwarding

open Attempts

/-! ## Transports -/

/-- What a read leaves, or a bridge is handed. -/
abbrev Data := Dict String PyValue

/-- A transport: a scraper, a bridge, or both. -/
structure Transport where
  transportName : String
  bridges : List String
  readInterval : Int
  connected : Bool
  writeRequiresCompleteCycle : Bool
  /-- what `_filter_for_member` looks at -/
  member : Member

/-- The transports of the gateway. Section names are unique. -/
structure Gateway where
  transports : List Transport
  nodup : (transports.map Transport.transportName).Nodup

/-- `ScrapeGroup`. -/
structure ScrapeGroup where
  primary : Transport
  members : List Transport
  nodup : (members.map Transport.transportName).Nodup

/-- A call of `write_data`. -/
structure Call where
  bridge : String
  member : String
  data : Data

/-- What routing changes: the calls made so far in the cycle, `_member_last_forward`, and
`last_known_data` of each scraper. -/
structure Routing where
  calls : List Call
  lastForward : String → Int
  lastKnownData : String → Option Data

/-- `get_transport`. -/
def Gateway.find? (gw : Gateway) (name : String) : Option Transport :=
  gw.transports.find? (·.transportName = name)

/-! ## The loops -/

section Loops

variable (gw : Gateway) (raises : Nat → Bool) (complete : Bool) (now : Int)

/-- `bridge.write_data(data, member)`: the call is made, and may raise. -/
def writeData (bridge member : Transport) (data : Data) (r : Routing) : Except Routing Routing :=
  if raises r.calls.length then
    .error { r with calls := r.calls ++ [⟨bridge.transportName, member.transportName, data⟩] }
  else .ok { r with calls := r.calls ++ [⟨bridge.transportName, member.transportName, data⟩] }

/-- `_snapshot_scraper_data`. -/
def snapshotScraperData (scraper : Transport) (data : Data) (r : Routing) : Routing :=
  if data.items = [] then r
  else { r with lastKnownData := Function.update r.lastKnownData scraper.transportName (some data) }

/-- `mark_forwarded`. -/
def markForwarded (member : Transport) (r : Routing) : Routing :=
  { r with lastForward := Function.update r.lastForward member.transportName now }

/-- One bridge name in the loop of `_forward_to_bridges`. -/
def forwardToBridge (member : Transport) (data : Data) (name : String) (r : Routing) :
    Except Routing Routing :=
  match gw.find? name with
  | none => .ok r
  | some bridge =>
    if bridge.writeRequiresCompleteCycle && !complete then .ok r
    else writeData raises bridge member data (snapshotScraperData member data r)

/-- `_forward_to_bridges`, which `_process_group_read` has inline. -/
def forwardToBridges (member : Transport) (data : Data) :
    List String → Routing → Except Routing Routing
  | [] => .ok
  | name :: names => fun r =>
    forwardToBridge gw raises complete member data name r >>= forwardToBridges member data names

/-- One due member: its metrics are filtered and forwarded, if there are any. -/
def forwardMember (data : Data) (member : Transport) : Routing → Except Routing Routing :=
  let memberData := member.member.filterForMember data
  if memberData.items = [] then .ok
  else fun r =>
    forwardToBridges gw raises complete member memberData member.bridges r >>= fun r =>
      .ok (markForwarded now member r)

/-- The loop over the due members. -/
def forwardMembers (data : Transport → Data) : List Transport → Routing → Except Routing Routing
  | [] => .ok
  | member :: members => fun r =>
    forwardMember gw raises complete now (data member) member r >>= forwardMembers data members

/-- `members_due`. -/
def membersDue (group : ScrapeGroup) (r : Routing) : List Transport :=
  group.members.filter fun m =>
    0 < m.readInterval ∧ m.readInterval ≤ now - r.lastForward m.transportName

/-- `_process_group_read`, once the primary has read: an exception ends it. -/
def processGroupRead (group : ScrapeGroup) (fullData : Data) (r : Routing) : Routing :=
  if fullData.items = [] then r
  else final (forwardMembers gw raises complete now (fun _ => fullData) (membersDue now group r) r)

/-- `_route_interleaved_state` of a consolidated read, which `_poll_interleaved_cycles` calls: an
exception ends it. Members that hold no data are passed over. -/
def routeGroup (group : ScrapeGroup) (partialData : String → Data) (r : Routing) : Routing :=
  final (forwardMembers gw raises complete now (fun m => partialData m.transportName)
    ((membersDue now group r).filter fun m => (partialData m.transportName).items ≠ []) r)

/-- `_route_interleaved_state` of a standalone read. -/
def routeStandalone (transport : Transport) (data : Data) (r : Routing) : Routing :=
  if data.items = [] then r
  else final (forwardMember gw raises complete now data transport r)

end Loops

/-! ## Cycles -/

/-- How a cycle of a group is read. -/
inductive Read
  /-- one dictionary for all members -/
  | shared (fullData : Data)
  /-- a dictionary for each member -/
  | consolidated (partialData : String → Data)
  /-- the group has only its primary -/
  | standalone (data : Data)

/-- The routing of a cycle. -/
def cycle (gw : Gateway) (raises : Nat → Bool) (complete : Bool) (now : Int) (group : ScrapeGroup)
    (r : Routing) : Read → Routing
  | .shared fullData => processGroupRead gw raises complete now group fullData r
  | .consolidated partialData => routeGroup gw raises complete now group partialData r
  | .standalone data => routeStandalone gw raises complete now group.primary data r

/-- The members a cycle is routed to. -/
def Read.members (now : Int) (group : ScrapeGroup) (r : Routing) : Read → List Transport
  | .shared _ | .consolidated _ => membersDue now group r
  | .standalone _ => [group.primary]

/-- The filtered data of a member. -/
def Read.memberData (member : Transport) : Read → Data
  | .shared data | .standalone data => member.member.filterForMember data
  | .consolidated partialData => member.member.filterForMember (partialData member.transportName)

/-- A bridge is eligible for a member's data. -/
def Eligible (gw : Gateway) (complete : Bool) (member bridge : Transport) : Prop :=
  bridge ∈ gw.transports ∧ bridge.transportName ∈ member.bridges ∧
    ¬(bridge.writeRequiresCompleteCycle = true ∧ complete = false)

/-- The call for one bridge name of a member, if there is to be one. -/
def delivery (gw : Gateway) (complete : Bool) (member : Transport) (data : Data) (name : String) :
    Option Call :=
  match gw.find? name with
  | none => none
  | some bridge =>
    if bridge.writeRequiresCompleteCycle && !complete then none
    else some ⟨bridge.transportName, member.transportName, data⟩

/-- The calls for one member, in the order of its bridges. -/
def deliveries (gw : Gateway) (complete : Bool) (member : Transport) (data : Data) : List Call :=
  if data.items = [] then [] else member.bridges.filterMap (delivery gw complete member data)

/-- The calls a cycle is to make, in the order of its members and their bridges. -/
def plan (gw : Gateway) (complete : Bool) (now : Int) (group : ScrapeGroup) (r : Routing)
    (read : Read) : List Call :=
  (read.members now group r).flatMap fun m => deliveries gw complete m (read.memberData m)

/-- The call goes to a bridge for a member. -/
def Call.isFor (bridge member : Transport) (call : Call) : Bool :=
  call.bridge = bridge.transportName ∧ call.member = member.transportName

/-- Every connected bridge that is eligible for a member's data gets it exactly once. -/
def ExactlyOnce (gw : Gateway) (complete : Bool) (now : Int) (group : ScrapeGroup) (r : Routing)
    (read : Read) (calls : List Call) : Prop :=
  ∀ member ∈ read.members now group r, (read.memberData member).items ≠ [] →
    ∀ bridge, Eligible gw complete member bridge → bridge.connected = true →
      calls.filter (Call.isFor bridge member) =
        [⟨bridge.transportName, member.transportName, read.memberData member⟩]

/-! ## What the loops attempt -/

section Makes

variable {gw : Gateway} {raises : Nat → Bool} {complete : Bool} {now : Int} {group : ScrapeGroup}
  {member : Transport} {data : Data} {r : Routing} {read : Read}

theorem calls_snapshotScraperData :
    (snapshotScraperData member data r).calls = r.calls := by
  unfold snapshotScraperData
  split <;> rfl

theorem writeData_makes {bridge : Transport} :
    Makes Routing.calls raises [⟨bridge.transportName, member.transportName, data⟩]
      (writeData raises bridge member data) :=
  Makes.attempt fun _ => rfl

theorem forwardToBridge_makes (name : String) :
    Makes Routing.calls raises (delivery gw complete member data name).toList
      (forwardToBridge gw raises complete member data name) := by
  unfold forwardToBridge delivery
  cases gw.find? name with
  | none => exact Makes.skip fun _ => rfl
  | some bridge =>
    dsimp only
    split
    · exact Makes.skip fun _ => rfl
    · have hsnapshot : Makes Routing.calls raises [] fun r =>
          .ok (snapshotScraperData member data r) := Makes.skip fun _ => calls_snapshotScraperData
      exact hsnapshot.bind writeData_makes

theorem forwardToBridges_makes (names : List String) :
    Makes Routing.calls raises (names.filterMap (delivery gw complete member data))
      (forwardToBridges gw raises complete member data names) := by
  induction names with
  | nil => exact Makes.skip fun _ => rfl
  | cons name names ih =>
    have hcons : (name :: names).filterMap (delivery gw complete member data) =
        (delivery gw complete member data name).toList ++
          names.filterMap (delivery gw complete member data) := by
      rw [List.filterMap_cons]
      cases delivery gw complete member data name <;> rfl
    rw [hcons]
    exact (forwardToBridge_makes name).bind ih

theorem forwardMember_makes :
    Makes Routing.calls raises (deliveries gw complete member (member.member.filterForMember data))
      (forwardMember gw raises complete now data member) := by
  unfold forwardMember deliveries
  dsimp only
  split
  · exact Makes.skip fun _ => rfl
  · have hmark : Makes Routing.calls raises [] fun r => .ok (markForwarded now member r) :=
      Makes.skip fun _ => rfl
    have hcalls : Makes Routing.calls raises (member.bridges.filterMap
        (delivery gw complete member (member.member.filterForMember data)))
          (forwardToBridges gw raises complete member (member.member.filterForMember data)
            member.bridges) := forwardToBridges_makes member.bridges
    have := hcalls.bind hmark
    rwa [List.append_nil] at this

/-- The loop over the members makes the calls for each of them. -/
theorem forwardMembers_makes (data : Transport → Data) (members : List Transport) :
    Makes Routing.calls raises
      (members.flatMap fun m => deliveries gw complete m (m.member.filterForMember (data m)))
      (forwardMembers gw raises complete now data members) := by
  induction members with
  | nil => exact Makes.skip fun _ => rfl
  | cons m members ih => exact forwardMember_makes.bind ih

/-- Nothing is left of no data. -/
theorem items_filterForMember {m : Member} (h : data.items = []) :
    (m.filterForMember data).items = [] := by
  show data.items.filter _ = []
  rw [h]
  rfl

theorem deliveries_of_nil (h : data.items = []) :
    deliveries gw complete member (member.member.filterForMember data) = [] :=
  if_pos (items_filterForMember h)

/-- The routing of a cycle makes the calls of its plan. -/
theorem cycle_makes (gw : Gateway) (raises : Nat → Bool) (complete : Bool) (now : Int)
    (group : ScrapeGroup) (r : Routing) (read : Read) :
    ∃ f, Makes Routing.calls raises (plan gw complete now group r read) f ∧
      cycle gw raises complete now group r read = final (f r) := by
  cases read with
  | shared fullData =>
    by_cases hdata : fullData.items = []
    · refine ⟨.ok, ?_, if_pos hdata⟩
      have hplan : plan gw complete now group r (.shared fullData) = [] :=
        List.flatMap_eq_nil_iff.mpr fun m _ => deliveries_of_nil hdata
      rw [hplan]
      exact Makes.skip fun _ => rfl
    · exact ⟨_, forwardMembers_makes (fun _ => fullData) _, if_neg hdata⟩
  | consolidated partialData =>
    refine ⟨_, ?_, rfl⟩
    -- the members passed over would make no calls
    have hplan : plan gw complete now group r (.consolidated partialData) =
        ((membersDue now group r).filter fun m =>
          (partialData m.transportName).items ≠ []).flatMap fun m =>
            deliveries gw complete m (m.member.filterForMember (partialData m.transportName)) := by
      unfold plan Read.members
      induction membersDue now group r with
      | nil => rfl
      | cons m ms ih =>
        rw [List.flatMap_cons, List.filter_cons, ih]
        by_cases hdata : (partialData m.transportName).items = []
        · rw [if_neg (by simp [hdata])]
          exact congrArg (· ++ _) (deliveries_of_nil hdata)
        · rw [if_pos (by simp [hdata]), List.flatMap_cons]
          rfl
    rw [hplan]
    exact forwardMembers_makes _ _
  | standalone data =>
    have hplan : plan gw complete now group r (.standalone data) =
        deliveries gw complete group.primary (group.primary.member.filterForMember data) :=
      List.flatMap_singleton ..
    rw [hplan]
    by_cases hdata : data.items = []
    · refine ⟨.ok, ?_, if_pos hdata⟩
      rw [deliveries_of_nil hdata]
      exact Makes.skip fun _ => rfl
    · exact ⟨_, forwardMember_makes, if_neg hdata⟩

end Makes

/-! ## Exactly once -/

section ExactlyOnce

variable {gw : Gateway} {raises : Nat → Bool} {complete : Bool} {now : Int} {group : ScrapeGroup}
  {member bridge : Transport} {data : Data} {r : Routing} {read : Read}

theorem mem_members_names (h : member ∈ read.members now group r) {m : Transport}
    (hm : m ∈ read.members now group r) (hname : m.transportName = member.transportName) :
    m = member := by
  cases read with
  | shared _ | consolidated _ =>
    exact List.inj_on_of_nodup_map group.nodup (List.mem_of_mem_filter hm)
      (List.mem_of_mem_filter h) hname
  | standalone _ => exact (List.mem_singleton.mp hm).trans (List.mem_singleton.mp h).symm

/-- Every planned call for a member hands over the member's data. -/
theorem eq_of_mem_plan {call : Call} (hmember : member ∈ read.members now group r)
    (h : call ∈ plan gw complete now group r read) (hfor : call.isFor bridge member = true) :
    call = ⟨bridge.transportName, member.transportName, read.memberData member⟩ := by
  obtain ⟨hbridge, hname⟩ := of_decide_eq_true hfor
  obtain ⟨m, hm, hcall⟩ := List.mem_flatMap.mp h
  unfold deliveries at hcall
  split at hcall
  · exact absurd hcall (by simp)
  · obtain ⟨name, -, hdelivery⟩ := List.mem_filterMap.mp hcall
    unfold delivery at hdelivery
    split at hdelivery
    · exact absurd hdelivery (by simp)
    · split at hdelivery
      · exact absurd hdelivery (by simp)
      · obtain rfl := Option.some.inj hdelivery
        obtain rfl := mem_members_names hmember hm hname
        rw [← hbridge]

/-- **Exactly once.** In a cycle of any kind and with any pattern of exceptions, every connected
bridge that is eligible for a due member's data gets it exactly once if and only if, in the order of
the members and their bridges, exactly one of the calls planned for it comes before every call that
raises, or is the first one that does. -/
theorem exactly_once_iff (hr : r.calls = []) :
    ExactlyOnce gw complete now group r read (cycle gw raises complete now group r read).calls ↔
      ∀ member ∈ read.members now group r, (read.memberData member).items ≠ [] →
        ∀ bridge, Eligible gw complete member bridge → bridge.connected = true →
          ∃! i : Nat, (∃ call, (plan gw complete now group r read)[i]? = some call ∧
            call.isFor bridge member = true) ∧ ∀ j < i, raises j = false := by
  obtain ⟨f, hmakes, hcycle⟩ := cycle_makes gw raises complete now group r read
  have hcalls (i : Nat) (call : Call) :
      (cycle gw raises complete now group r read).calls[i]? = some call ↔
        (plan gw complete now group r read)[i]? = some call ∧ Reached raises i := by
    rw [hcycle]
    exact hmakes.getElem?_log hr
  unfold ExactlyOnce
  refine forall₂_congr fun member hmember => forall_congr' fun _ => forall₂_congr fun bridge _ =>
    forall_congr' fun _ => ?_
  -- all calls for the bridge and the member are the same, so only their number matters
  have hone : (cycle gw raises complete now group r read).calls.filter (Call.isFor bridge member) =
        [⟨bridge.transportName, member.transportName, read.memberData member⟩] ↔
      ((cycle gw raises complete now group r read).calls.filter
        (Call.isFor bridge member)).length = 1 := by
    refine ⟨fun h => by rw [h]; rfl, fun h => ?_⟩
    obtain ⟨call, hcall⟩ := List.length_eq_one_iff.mp h
    obtain ⟨hmem, hfor⟩ := List.mem_filter.mp (hcall ▸ List.mem_singleton_self call)
    obtain ⟨i, hi⟩ := List.getElem?_of_mem hmem
    rw [hcall, eq_of_mem_plan hmember (List.mem_of_getElem? ((hcalls i call).mp hi).1) hfor]
  rw [hone, length_filter_eq_one]
  refine existsUnique_congr fun i => ?_
  constructor
  · rintro ⟨call, hi, hfor⟩
    obtain ⟨hplan, hreached⟩ := (hcalls i call).mp hi
    exact ⟨⟨call, hplan, hfor⟩, hreached⟩
  · rintro ⟨⟨call, hplan, hfor⟩, hreached⟩
    exact ⟨call, (hcalls i call).mpr ⟨hplan, hreached⟩, hfor⟩

/-- A bridge without a scrape target of its own. -/
def exampleBridge (name : String) : Transport where
  transportName := name
  bridges := []
  readInterval := 0
  connected := true
  writeRequiresCompleteCycle := false
  member := ⟨none, fun _ => [], [], []⟩

/-- A scraper with two bridges. -/
def exampleScraper : Transport :=
  { exampleBridge "inverter" with bridges := ["mqtt", "influx"], readInterval := 1000 }

def exampleGateway : Gateway where
  transports := [exampleScraper, exampleBridge "mqtt", exampleBridge "influx"]
  nodup := by decide

def exampleGroup : ScrapeGroup where
  primary := exampleScraper
  members := [exampleScraper]
  nodup := by decide

/-- Nothing has been forwarded yet. -/
def exampleStart : Routing := ⟨[], fun _ => 0, fun _ => none⟩

def exampleData : Data := Dict.empty.set "soc" (.int 55)

/-- Only the last call of the cycle raises. -/
theorem exactly_once_last_raises :
    ExactlyOnce exampleGateway true 2000 exampleGroup exampleStart (.shared exampleData)
      (cycle exampleGateway (fun n => n = 1) true 2000 exampleGroup exampleStart
        (.shared exampleData)).calls := by
  refine (exactly_once_iff rfl).mpr fun member hmember _ bridge hbridge _ => ?_
  obtain rfl : member = exampleScraper := List.mem_singleton.mp hmember
  obtain ⟨hmem, hlisted, -⟩ := hbridge
  have hplan : plan exampleGateway true 2000 exampleGroup exampleStart (.shared exampleData) =
      [⟨"mqtt", "inverter", exampleData⟩, ⟨"influx", "inverter", exampleData⟩] := rfl
  rw [hplan]
  have hcases : bridge = exampleScraper ∨ bridge = exampleBridge "mqtt" ∨
      bridge = exampleBridge "influx" := by simpa [exampleGateway] using hmem
  rcases hcases with rfl | rfl | rfl
  · exact absurd hlisted (by decide)
  · refine ⟨0, ⟨⟨_, rfl, rfl⟩, by simp⟩, ?_⟩
    rintro i ⟨⟨call, hcall, hfor⟩, -⟩
    match i with
    | 0 => rfl
    | 1 => obtain rfl := Option.some.inj hcall; exact absurd hfor (by decide)
    | i + 2 => exact absurd hcall (by simp)
  · refine ⟨1, ⟨⟨_, rfl, rfl⟩, by decide⟩, ?_⟩
    rintro i ⟨⟨call, hcall, hfor⟩, -⟩
    match i with
    | 0 => obtain rfl := Option.some.inj hcall; exact absurd hfor (by decide)
    | 1 => rfl
    | i + 2 => exact absurd hcall (by simp)

/-- The first bridge raises, and the second one gets nothing. -/
theorem second_bridge_loses : ¬ ∀ (gw : Gateway) (raises : Nat → Bool) (complete : Bool)
    (now : Int) (group : ScrapeGroup) (r : Routing) (read : Read), r.calls = [] →
    ExactlyOnce gw complete now group r read
      (cycle gw raises complete now group r read).calls := by
  intro hall
  have h := hall exampleGateway (fun n => n = 0) true 2000 exampleGroup exampleStart
    (.shared exampleData) rfl exampleScraper (by exact List.mem_singleton_self _) (by decide)
    (exampleBridge "influx") ⟨by simp [exampleGateway], by decide, by decide⟩ rfl
  exact absurd (congrArg List.length h) (by decide)

end ExactlyOnce

end Forwarding

end ProtocolGateway
