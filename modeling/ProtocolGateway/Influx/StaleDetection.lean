import ProtocolGateway.Staleness
import ProtocolGateway.Lib.Outcomes
import ProtocolGateway.Influx.Points

/-!
# Stale data on its way to InfluxDB

Every `write_data` of `influxdb_out` and `influxdb3_out` first judges the row: `_check_is_stale`
compares it with the row the unchanged period of its transport began with, and
`_commit_transport_state` restarts the period if the row changed, or hands a stale row to
`_handle_stale_event`. The two bridges run the same code; their alerts begin differently.

* `detectStale`, `runDetection` — one row, and the rows of any transports in any order.
* `get?_detectStale`, `requestTimes_detectStale` — a row is an affair of its own transport.
* `lastChange` — when the data of a transport last changed, read off the rows alone.
* `reconnects_bounded` — what the requests of an unchanged period keep to.

The clock is the clock of the machine; nothing assumes that it runs forward.
-/

namespace ProtocolGateway

namespace InfluxOut

open Throttle

variable (host : Host)

/-! ## The detection -/

/-- The settings of the detection in a bridge. -/
def Version.staleSettings (version : Version)
    (staleDataTimeout maxStaleAttempts retryDelayMins : Int) (requestUpstreamReconnect : Bool) : StaleSettings where
  staleDataTimeout := staleDataTimeout
  maxStaleAttempts := maxStaleAttempts
  retryDelayMins := retryDelayMins
  requestUpstreamReconnect := requestUpstreamReconnect
  alertPrefix := match version with
    | .v1 => "InfluxDB_Out:"
    | .v3 => "InfluxDB3_Out:"
  alertTitle := "MPG Stale Data Alert"

/-- A row that `write_data` is called with, and when. -/
structure Arrival where
  transportId : String
  row : List (String × PyValue)
  timestamp : DateTime

/-- `_row_changed`. -/
def rowChanged (state : StaleRegistryState) (row : List (String × PyValue)) :
    Except PyError Bool :=
  (rowUnchanged host state.lastRow row).map (!·)

/-- `elapsed > timedelta(seconds=stale_data_timeout)`, since the period began. -/
def timedOut (cfg : StaleSettings) (state : StaleRegistryState) (timestamp : DateTime) : Bool :=
  decide (cfg.staleDataTimeout * 1000000 < timestamp.instant - state.startTs.instant)

/-- `_check_is_stale`. -/
def checkIsStale (cfg : StaleSettings) (registry : Dict String StaleRegistryState)
    (transportId : String) (row : List (String × PyValue)) (timestamp : DateTime) :
    Except PyError Bool :=
  match registry.get? transportId with
  | none => .ok false
  | some state =>
    (rowChanged host state row).map fun changed => !changed && timedOut cfg state timestamp

/-- `_commit_transport_state`. What it did before an exception stays done. -/
def commitTransportState (cfg : StaleSettings) (registry : Dict String StaleRegistryState)
    (transportId : String) (row : List (String × PyValue)) (timestamp : DateTime) (isStale : Bool) :
    Dict String StaleRegistryState × Except PyError (List StaleAction) :=
  let state :=
    { (registry.get? transportId).getD (.fresh row timestamp) with lastSeen := timestamp }
  let registry := registry.set transportId state
  match rowChanged host state row with
  | .error e => (registry, .error e)
  | .ok true =>
    (registry.set transportId
      { state with
        lastRow := row
        startTs := timestamp
        isStale := false
        staleEventCount := 0
        lastEventTs := none }, .ok [])
  | .ok false =>
    if isStale then
      let registry := registry.set transportId { state with isStale := true }
      let (registry, actions) := handleStaleEvent cfg registry transportId timestamp
        (timestamp.instant - state.startTs.instant)
      (registry, .ok actions)
    else (registry, .ok [])

/-- The stale detection at the head of `write_data`. -/
def detectStale (cfg : StaleSettings) (registry : Dict String StaleRegistryState) (a : Arrival) :
    Dict String StaleRegistryState × Except PyError (List StaleAction) :=
  match checkIsStale host cfg registry a.transportId a.row a.timestamp with
  | .error e => (registry, .error e)
  | .ok isStale =>
    commitTransportState host cfg registry a.transportId a.row a.timestamp isStale

/-- What a call did before it returned or raised. -/
def actionsOf : Except PyError (List StaleAction) → List StaleAction
  | .ok actions => actions
  | .error _ => []

/-- The detection over the rows of any transports, in the order they arrive. -/
def runDetection (cfg : StaleSettings) (registry : Dict String StaleRegistryState) :
    List Arrival → Dict String StaleRegistryState × List StaleAction
  | [] => (registry, [])
  | a :: rest =>
    let (registry', outcome) := detectStale host cfg registry a
    let (registry'', actions) := runDetection cfg registry' rest
    (registry'', actionsOf outcome ++ actions)

/-! ## One transport -/

/-- The state of a transport after a row of it. -/
def advance (cfg : StaleSettings) (a : Arrival) : Option StaleRegistryState → StaleRegistryState
  | none => .fresh a.row a.timestamp
  | some state =>
    match rowChanged host state a.row with
    | .error _ => state
    | .ok true => .fresh a.row a.timestamp
    | .ok false =>
      if timedOut cfg state a.timestamp then
        { state with lastSeen := a.timestamp, isStale := true }.attempt cfg a.timestamp
      else { state with lastSeen := a.timestamp }

/-- The attempts a row of a transport is granted. -/
def attempts (cfg : StaleSettings) (a : Arrival) : Option StaleRegistryState → List Int
  | none => []
  | some state =>
    match rowChanged host state a.row with
    | .error _ | .ok true => []
    | .ok false =>
      if timedOut cfg state a.timestamp then
        (cfg.limits.ask state.counter a.timestamp.instant).2
      else []

variable {host} {cfg : StaleSettings} {registry : Dict String StaleRegistryState}

/-- Two assignments to one key. -/
theorem get?_set_set (d : Dict String StaleRegistryState) (k id : String)
    (s s' : StaleRegistryState) :
    ((d.set k s).set k s').get? id = if id = k then some s' else d.get? id := by
  rw [Dict.get?_set, Dict.get?_set]
  split <;> rfl

/-- The first row of a transport starts its state, whatever comes of comparing it with itself. -/
theorem detectStale_of_none {a : Arrival} (h : registry.get? a.transportId = none) :
    (∀ id, (detectStale host cfg registry a).1.get? id =
      if id = a.transportId then some (.fresh a.row a.timestamp) else registry.get? id) ∧
    actionsOf (detectStale host cfg registry a).2 = [] := by
  simp only [detectStale, checkIsStale, h, commitTransportState, Option.getD_none]
  cases rowChanged host { StaleRegistryState.fresh a.row a.timestamp with
      lastSeen := a.timestamp } a.row with
  | error e => exact ⟨fun id => Dict.get?_set .., rfl⟩
  | ok changed =>
    cases changed with
    | true => exact ⟨fun id => get?_set_set .., rfl⟩
    | false => exact ⟨fun id => Dict.get?_set .., rfl⟩

section

variable {a : Arrival} {state : StaleRegistryState} (h : registry.get? a.transportId = some state)
include h

/-- A row that cannot be compared leaves everything as it is. -/
theorem detectStale_of_error {e : PyError} (hrow : rowChanged host state a.row = .error e) :
    detectStale host cfg registry a = (registry, .error e) := by
  simp only [detectStale, checkIsStale, h, hrow, Except.map]

/-- A row that changed starts a new period. -/
theorem detectStale_of_changed (hrow : rowChanged host state a.row = .ok true) :
    (∀ id, (detectStale host cfg registry a).1.get? id =
      if id = a.transportId then some (.fresh a.row a.timestamp) else registry.get? id) ∧
    actionsOf (detectStale host cfg registry a).2 = [] := by
  have hseen : rowChanged host { state with lastSeen := a.timestamp } a.row = .ok true := hrow
  simp only [detectStale, checkIsStale, h, hrow, Except.map, commitTransportState,
    Option.getD_some, hseen]
  exact ⟨fun id => get?_set_set .., rfl⟩

/-- A row that did not change, in a period that is not over time, is only noted. -/
theorem detectStale_of_unchanged (hrow : rowChanged host state a.row = .ok false)
    (htime : timedOut cfg state a.timestamp = false) :
    detectStale host cfg registry a =
      (registry.set a.transportId { state with lastSeen := a.timestamp }, .ok []) := by
  have hseen : rowChanged host { state with lastSeen := a.timestamp } a.row = .ok false := hrow
  simp only [detectStale, checkIsStale, h, hrow, Except.map, commitTransportState,
    Option.getD_some, hseen, htime, Bool.not_false, Bool.and_false, Bool.false_eq_true, if_false]

/-- A row that did not change for too long is a stale event. -/
theorem detectStale_of_stale (hrow : rowChanged host state a.row = .ok false)
    (htime : timedOut cfg state a.timestamp = true) :
    detectStale host cfg registry a =
      let (registry', actions) := handleStaleEvent cfg
        ((registry.set a.transportId { state with lastSeen := a.timestamp }).set a.transportId
          { state with lastSeen := a.timestamp, isStale := true })
        a.transportId a.timestamp (a.timestamp.instant - state.startTs.instant)
      (registry', .ok actions) := by
  have hseen : rowChanged host { state with lastSeen := a.timestamp } a.row = .ok false := hrow
  simp only [detectStale, checkIsStale, h, hrow, Except.map, commitTransportState,
    Option.getD_some, hseen, htime, Bool.not_false, Bool.and_true, if_true]

end

/-- The state of the row's transport advances, and those of the others stay. -/
theorem get?_detectStale (a : Arrival) (id : String) :
    (detectStale host cfg registry a).1.get? id =
      if id = a.transportId then some (advance host cfg a (registry.get? a.transportId))
      else registry.get? id := by
  cases h : registry.get? a.transportId with
  | none => exact (detectStale_of_none h).1 id
  | some state =>
    cases hrow : rowChanged host state a.row with
    | error e =>
      simp only [detectStale_of_error h hrow, advance, hrow]
      split
      · next heq => rw [heq, h]
      · rfl
    | ok changed =>
      cases changed with
      | true =>
        simp only [advance, hrow]
        exact (detectStale_of_changed h hrow).1 id
      | false =>
        cases htime : timedOut cfg state a.timestamp with
        | false =>
          simp only [detectStale_of_unchanged h hrow htime, advance, hrow, htime,
            Bool.false_eq_true, if_false]
          exact Dict.get?_set ..
        | true =>
          simp only [detectStale_of_stale h hrow htime, advance, hrow, htime, if_true]
          rw [get?_handleStaleEvent ((Dict.get?_set ..).trans (if_pos rfl)) _ _ id, get?_set_set]
          split <;> rfl

/-- Reconnects are requested for the row's transport only. -/
theorem requestTimes_detectStale (a : Arrival) (id : String) :
    requestTimes id (actionsOf (detectStale host cfg registry a).2) =
      if a.transportId = id ∧ cfg.requestUpstreamReconnect = true then
        attempts host cfg a (registry.get? a.transportId)
      else [] := by
  cases h : registry.get? a.transportId with
  | none =>
    rw [(detectStale_of_none h).2]
    exact (ite_self []).symm
  | some state =>
    cases hrow : rowChanged host state a.row with
    | error e =>
      simp only [detectStale_of_error h hrow, attempts, hrow, ite_self]
      rfl
    | ok changed =>
      cases changed with
      | true =>
        simp only [(detectStale_of_changed h hrow).2, attempts, hrow, ite_self]
        rfl
      | false =>
        cases htime : timedOut cfg state a.timestamp with
        | false =>
          simp only [detectStale_of_unchanged h hrow htime, attempts, hrow, htime,
            Bool.false_eq_true, if_false, ite_self]
          rfl
        | true =>
          simp only [detectStale_of_stale h hrow htime, attempts, hrow, htime, if_true]
          exact requestTimes_handleStaleEvent ((Dict.get?_set ..).trans (if_pos rfl)) _ _ id

/-! ## When the data changed -/

/-- The row that an unchanged period begins with, and when. -/
abbrev Beginning := List (String × PyValue) × DateTime

/-- What a state says about the period of its transport. -/
def began (state : StaleRegistryState) : Beginning := (state.lastRow, state.startTs)

theorem began_attempt (state : StaleRegistryState) (currentTime : DateTime) :
    began (state.attempt cfg currentTime) = began state :=
  Prod.ext (attempt_keeps cfg state currentTime).1 (attempt_keeps cfg state currentTime).2.1

variable (host)

/-- Does a row differ from the one the period began with? A field is compared if the row has it, and
numbers that are close are the same. -/
def Changes (base row : List (String × PyValue)) : Prop := rowUnchanged host base row = .ok false

/-- The beginning of the period of a transport after a row. -/
def beginningAfter (id : String) (last : Option Beginning) (a : Arrival) : Option Beginning :=
  if id = a.transportId then
    match last with
    | none => some (a.row, a.timestamp)
    | some (base, since) =>
      match rowUnchanged host base a.row with
      | .ok false => some (a.row, a.timestamp)
      | _ => some (base, since)
  else last

/-- The last change of the data of a transport: the row it changed to, and when. -/
def lastChange (id : String) (arrivals : List Arrival) : Option Beginning :=
  arrivals.foldl (beginningAfter host id) none

variable {host}

/-- A row moves the beginning that the state remembers as the comparison with it says. -/
theorem began_detectStale (a : Arrival) (id : String) :
    ((detectStale host cfg registry a).1.get? id).map began =
      beginningAfter host id ((registry.get? id).map began) a := by
  rw [get?_detectStale]
  unfold beginningAfter
  split
  · next heq =>
    rw [heq]
    cases registry.get? a.transportId with
    | none => rfl
    | some state =>
      simp only [advance, rowChanged, Option.map_some, began]
      cases rowUnchanged host state.lastRow a.row with
      | error e => rfl
      | ok same =>
        cases same with
        | false => rfl
        | true =>
          simp only [Except.map, Bool.not_true]
          split
          · rw [← began, began_attempt]
            rfl
          · rfl
  · rfl

/-- The state remembers the last change. -/
theorem began_runDetection (arrivals : List Arrival) (id : String) :
    ((runDetection host cfg registry arrivals).1.get? id).map began =
      arrivals.foldl (beginningAfter host id) ((registry.get? id).map began) := by
  induction arrivals generalizing registry with
  | nil => rfl
  | cons a rest ih =>
    rw [List.foldl_cons, ← began_detectStale]
    exact ih

/-- A run is run row by row. -/
theorem runDetection_append (arrivals arrivals' : List Arrival) :
    runDetection host cfg registry (arrivals ++ arrivals') =
      ((runDetection host cfg (runDetection host cfg registry arrivals).1 arrivals').1,
        (runDetection host cfg registry arrivals).2 ++
          (runDetection host cfg (runDetection host cfg registry arrivals).1 arrivals').2) := by
  induction arrivals generalizing registry with
  | nil => rfl
  | cons a rest ih =>
    simp only [List.cons_append, runDetection, ih, List.append_assoc]

/-! ## An unchanged period -/

/-- No transport has been granted more attempts in its period than the cap. -/
def WithinCap (cfg : StaleSettings) (registry : Dict String StaleRegistryState) : Prop :=
  ∀ id state, registry.get? id = some state → state.counter.count ≤ cfg.limits.cap

/-- A row that does not change the data of its transport: the period goes on, with the attempts it is
granted, and these come after the timeout. -/
theorem advance_of_not_changes {a : Arrival} {state : StaleRegistryState}
    (h : ¬Changes host state.lastRow a.row) :
    began (advance host cfg a (some state)) = began state ∧
      Period cfg.limits state.counter (attempts host cfg a (some state))
        (advance host cfg a (some state)).counter ∧
      ∀ t ∈ attempts host cfg a (some state),
        state.startTs.instant + cfg.staleDataTimeout * 1000000 < t := by
  unfold Changes at h
  simp only [advance, attempts, rowChanged]
  cases hrow : rowUnchanged host state.lastRow a.row with
  | error e => exact ⟨rfl, .nil _, fun t ht => absurd ht List.not_mem_nil⟩
  | ok same =>
    cases same with
    | false => exact absurd hrow h
    | true =>
      simp only [Except.map, Bool.not_true]
      cases htime : timedOut cfg state a.timestamp with
      | false => exact ⟨rfl, .nil _, fun t ht => absurd ht List.not_mem_nil⟩
      | true =>
        refine ⟨began_attempt .., ?_, fun t ht => ?_⟩
        · rw [if_pos rfl, if_pos rfl, counter_attempt]
          exact period_ask state.counter a.timestamp.instant
        · rw [if_pos rfl, Limits.ask] at ht
          have hgap := of_decide_eq_true htime
          split at ht
          · rw [List.mem_singleton.mp ht]
            omega
          · exact absurd ht List.not_mem_nil

/-- The cap is kept by every row. -/
theorem withinCap_detectStale (h : WithinCap cfg registry) (a : Arrival) :
    WithinCap cfg (detectStale host cfg registry a).1 := by
  intro id state hstate
  rw [get?_detectStale] at hstate
  split at hstate
  · obtain rfl := Option.some.inj hstate
    cases hget : registry.get? a.transportId with
    | none => exact Nat.zero_le _
    | some state =>
      by_cases hrow : Changes host state.lastRow a.row
      · unfold Changes at hrow
        simp only [advance, rowChanged, hrow, Except.map, Bool.not_false]
        exact Nat.zero_le _
      · exact (advance_of_not_changes hrow).2.1.count_le (h _ _ hget)
  · exact h id state hstate

theorem withinCap_runDetection (h : WithinCap cfg registry) (arrivals : List Arrival) :
    WithinCap cfg (runDetection host cfg registry arrivals).1 := by
  induction arrivals generalizing registry with
  | nil => exact h
  | cons a rest ih => exact ih (withinCap_detectStale h a)

/-- While the data of a transport does not change, its requests are attempts of one period. -/
theorem runDetection_period {id : String} {state : StaleRegistryState}
    (h : registry.get? id = some state) {period : List Arrival}
    (hperiod : ∀ a ∈ period, a.transportId = id → ¬Changes host state.lastRow a.row) :
    ∃ state' times, (runDetection host cfg registry period).1.get? id = some state' ∧
      began state' = began state ∧ Period cfg.limits state.counter times state'.counter ∧
      (∀ t ∈ times, state.startTs.instant + cfg.staleDataTimeout * 1000000 < t) ∧
      requestTimes id (runDetection host cfg registry period).2 =
        if cfg.requestUpstreamReconnect = true then times else [] := by
  induction period generalizing registry state with
  | nil =>
    exact ⟨state, [], h, rfl, .nil _, fun t ht => absurd ht List.not_mem_nil, (ite_self []).symm⟩
  | cons a rest ih =>
    have hrest := fun b hb => hperiod b (List.mem_cons_of_mem _ hb)
    have hstate := @get?_detectStale host cfg registry a id
    have htimes := @requestTimes_detectStale host cfg registry a id
    simp only [runDetection, requestTimes_append, htimes]
    by_cases hid : a.transportId = id
    · obtain ⟨hbegan, hask, hlate⟩ := @advance_of_not_changes host cfg a state
        (hperiod a List.mem_cons_self hid)
      obtain ⟨hrow, hstart⟩ := Prod.mk.inj hbegan
      rw [hid, if_pos rfl, h] at hstate
      rw [hid, h]
      rw [← hrow] at hrest
      obtain ⟨state', times, hget, hbegan', hperiod', hlate', hrequests⟩ := ih hstate hrest
      refine ⟨state', _ ++ times, hget, hbegan'.trans hbegan, hask.append hperiod', ?_, ?_⟩
      · intro t ht
        rcases List.mem_append.mp ht with ht | ht
        · exact hlate t ht
        · have := hlate' t ht
          rwa [hstart] at this
      · rw [hrequests]
        cases cfg.requestUpstreamReconnect <;> simp
    · rw [if_neg (Ne.symm hid), h] at hstate
      rw [if_neg (fun hboth => hid hboth.1), List.nil_append]
      exact ih hstate hrest

/-! ## The bounds -/

/-- The requests of a period that began at `since`: not too many, not too early and not too close. -/
structure Bounded (cfg : StaleSettings) (since : DateTime) (requests : List Int) : Prop where
  few : requests.length ≤ cfg.maxStaleAttempts.toNat
  late : ∀ t ∈ requests, since.instant + cfg.staleDataTimeout * 1000000 < t
  spaced : requests.IsChain fun t t' => t + cfg.retryDelayMins * 60000000 ≤ t'

theorem bounded_nil (since : DateTime) : Bounded cfg since [] :=
  ⟨Nat.zero_le _, fun _ ht => absurd ht List.not_mem_nil, List.isChain_nil⟩

/-- The attempts of a period that come after the timeout. -/
theorem Bounded.of_period {state state' : StaleRegistryState} {times : List Int}
    (hcap : state.counter.count ≤ cfg.limits.cap)
    (h : Period cfg.limits state.counter times state'.counter)
    (hlate : ∀ t ∈ times, state.startTs.instant + cfg.staleDataTimeout * 1000000 < t) :
    Bounded cfg state.startTs times where
  few := h.length_le hcap
  late := hlate
  spaced := by
    have hspaced := h.spaced.right_of_append
    refine hspaced.imp fun {t t'} hgap => ?_
    have hdelay : ¬t' - t < cfg.retryDelayMins * 60000000 := hgap
    omega

/-- **The reconnects that stale data leads to are bounded.** The rows of all transports may arrive in
any order and at any times. From a change of the data of a transport to the next, the requests for
it are at most `max_stale_attempts`, come later than `stale_data_timeout` after the change, and are
at least `retry_delay_mins` apart; a change starts anew, with no attempt counted. -/
theorem reconnects_bounded {id : String} {earlier period : List Arrival}
    {base : List (String × PyValue)} {since : DateTime}
    (hbegan : lastChange host id earlier = some (base, since))
    (hperiod : ∀ a ∈ period, a.transportId = id → ¬Changes host base a.row) :
    Bounded cfg since
        (requestTimes id
          (runDetection host cfg (runDetection host cfg .empty earlier).1 period).2) ∧
      ∀ a, a.transportId = id → Changes host base a.row →
        (runDetection host cfg .empty (earlier ++ period ++ [a])).1.get? id =
          some (.fresh a.row a.timestamp) := by
  have hbegan' := @began_runDetection host cfg .empty earlier id
  obtain ⟨state, hstate, hbase⟩ := Option.map_eq_some_iff.mp (hbegan'.trans hbegan)
  obtain ⟨rfl, rfl⟩ := Prod.mk.inj hbase
  have hcap := @withinCap_runDetection host cfg .empty (fun _ _ h => (by cases h)) earlier
    _ _ hstate
  obtain ⟨state', times, hstate', hsame, htimes, hlate, hrequests⟩ :=
    @runDetection_period host cfg _ id state hstate period hperiod
  refine ⟨?_, fun a hid hrow => ?_⟩
  · rw [hrequests]
    split
    · exact Bounded.of_period hcap htimes hlate
    · exact bounded_nil _
  · rw [runDetection_append, runDetection_append]
    simp only [runDetection]
    rw [get?_detectStale, if_pos hid.symm, hid, hstate']
    have hlast : state'.lastRow = state.lastRow := (Prod.mk.inj hsame).1
    unfold Changes at hrow
    simp only [advance, rowChanged, hlast, hrow, Except.map, Bool.not_false]

/-- A row of an inverter, some minutes and seconds after nine. -/
def repeatedRow (minute second : Nat) (fields : List (String × PyValue))
    (valid : ValidTime 2026 6 1 9 minute second 0 0) : Arrival :=
  ⟨"inverter", fields, ⟨2026, 6, 1, 9, minute, second, 0, 0, valid⟩⟩

def sampleFields : List (String × PyValue) := [("state", .str "charging"), ("fault", .str "none")]

def sampleSettings : StaleSettings := Version.v1.staleSettings 300 3 5 true

/-- The row comes again after six minutes, and a reconnect is requested. -/
theorem reconnects_bounded_of_repeated_row :
    requestTimes "inverter"
        (runDetection default sampleSettings
          (runDetection default sampleSettings .empty [repeatedRow 0 0 sampleFields (by decide)]).1
          [repeatedRow 6 0 sampleFields (by decide)]).2 =
      [(repeatedRow 6 0 sampleFields (by decide)).timestamp.instant] ∧
    Bounded sampleSettings (repeatedRow 0 0 sampleFields (by decide)).timestamp
        (requestTimes "inverter"
          (runDetection default sampleSettings
            (runDetection default sampleSettings .empty
              [repeatedRow 0 0 sampleFields (by decide)]).1
            [repeatedRow 6 0 sampleFields (by decide)]).2) := by
  have hbegan : lastChange default "inverter" [repeatedRow 0 0 sampleFields (by decide)] =
      some (sampleFields, (repeatedRow 0 0 sampleFields (by decide)).timestamp) := rfl
  refine ⟨by decide, (reconnects_bounded hbegan ?_).1⟩
  intro a ha _ hrow
  rw [List.mem_singleton.mp ha] at hrow
  have hsame : rowUnchanged default sampleFields sampleFields = .ok true := by decide
  cases hsame.symm.trans hrow

/-- A field that disappears is a change of the data, but none that the bridges compare: the request
made before it still counts. -/
theorem dropped_field_keeps_count :
    ¬∀ (cfg : StaleSettings) (earlier : List Arrival) (a b : Arrival) (state : StaleRegistryState),
      b.transportId = a.transportId → b.row ≠ a.row →
      (runDetection default cfg .empty (earlier ++ [a, b])).1.get? a.transportId = some state →
      state.staleEventCount = 0 := by
  intro h
  have hcount : ((runDetection default sampleSettings .empty
      ([repeatedRow 0 0 sampleFields (by decide)] ++
        [repeatedRow 6 0 sampleFields (by decide),
          repeatedRow 7 0 [("state", .str "charging")] (by decide)])).1.get? "inverter").map
      (·.staleEventCount) = some 1 := by
    decide
  obtain ⟨state, hstate, hone⟩ := Option.map_eq_some_iff.mp hcount
  have hzero := h sampleSettings [repeatedRow 0 0 sampleFields (by decide)]
    (repeatedRow 6 0 sampleFields (by decide))
    (repeatedRow 7 0 [("state", .str "charging")] (by decide)) state rfl (by decide) hstate
  rw [hzero] at hone
  cases hone

end InfluxOut

end ProtocolGateway
