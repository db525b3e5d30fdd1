import ProtocolGateway.Values
import ProtocolGateway.Lib.Dict
import ProtocolGateway.Lib.Throttle
import ProtocolGateway.Timescale.DateTime

/-!
# Stale data

Three bridges watch whether the readings of a source transport still change: `influxdb_out`,
`influxdb3_out` and `timescaledb`. They compare a row with one they remember in the same way, keep
the same state of each transport, and ask for an upstream reconnect in the same way. When they
restart the clock of a transport is where they differ; that is left to the bridges.

* `rowUnchanged` — the comparison of two rows.
* `handleStaleEvent` — a reconnect is requested, unless there were too many or it is too soon.
* `get?_handleStaleEvent`, `requestTimes_handleStaleEvent` — it is an attempt of a throttle.
-/

namespace ProtocolGateway

/-! ## The comparison of rows -/

/-- `math.isclose(a, b, rel_tol=1e-4, abs_tol=1e-6)`. -/
def isClose (a b : Float) : Bool :=
  if a == b then true
  else if a.isInf || b.isInf then false
  else
    let diff := (b - a).abs
    decide (diff ≤ (1e-4 * b).abs) || decide (diff ≤ (1e-4 * a).abs) || decide (diff ≤ 1e-6)

variable (host : Host)

/-- Is a reading what it was before? -/
def unchanged (val : PyValue) (prev : Option PyValue) : Except PyError Bool :=
  match val, prev with
  | .str s, prev => .ok (prev == some (.str s))
  | _, none | _, some (.str _) => .ok false
  | val, some prev => do return isClose (← val.toFloat host) (← prev.toFloat host)

/-- The loop that compares a row with the one remembered. -/
def rowUnchanged (lastRow : List (String × PyValue)) :
    List (String × PyValue) → Except PyError Bool
  | [] => .ok true
  | (key, val) :: rest => do
    if ← unchanged host val (lastRow.lookup key) then rowUnchanged lastRow rest else return false

/-! ## The state of a transport -/

/-- `StaleRegistryState`: what a bridge remembers of a transport. -/
structure StaleRegistryState where
  lastRow : List (String × PyValue)
  startTs : DateTime
  isStale : Bool
  lastSeen : DateTime
  staleEventCount : Nat
  lastEventTs : Option DateTime

/-- The state a row begins with. -/
def StaleRegistryState.fresh (row : List (String × PyValue)) (timestamp : DateTime) :
    StaleRegistryState where
  lastRow := row
  startTs := timestamp
  isStale := false
  lastSeen := timestamp
  staleEventCount := 0
  lastEventTs := none

/-- The settings of the detection. -/
structure StaleSettings where
  /-- seconds -/
  staleDataTimeout : Int
  maxStaleAttempts : Int
  retryDelayMins : Int
  /-- is the callback of the gateway there -/
  requestUpstreamReconnect : Bool
  /-- what the message and the title of an alert begin with -/
  alertPrefix : String
  alertTitle : String

/-- What a stale transport leads to. -/
inductive StaleAction
  /-- `request_upstream_reconnect(transport_id)`, and when -/
  | requestReconnect (transportId : String) (now : DateTime)
  /-- the alert "`alertPrefix` Transport [`transportId`] stale for `elapsed` mins. Attempt `attempt`
  of `cap`." -/
  | notify (alertPrefix alertTitle transportId : String) (elapsed : Int) (attempt : Nat) (cap : Int)

/-! ## Requests -/

/-- `current_time - last_event_ts < timedelta(minutes=retry_delay_mins)`. -/
def tooSoon (cfg : StaleSettings) (currentTime : DateTime) : Option DateTime → Bool
  | some last => decide (currentTime.instant - last.instant < cfg.retryDelayMins * 60000000)
  | none => false

/-- `_handle_stale_event`. What a request or an alert raises is caught and logged. -/
def handleStaleEvent (cfg : StaleSettings) (registry : Dict String StaleRegistryState)
    (transportId : String) (currentTime : DateTime) (totalStaleElapsed : Int) :
    Dict String StaleRegistryState × List StaleAction :=
  match registry.get? transportId with
  | none => (registry, [])
  | some state =>
    if cfg.maxStaleAttempts ≤ state.staleEventCount then (registry, [])
    else if tooSoon cfg currentTime state.lastEventTs then (registry, [])
    else
      let count := state.staleEventCount + 1
      let state' := { state with staleEventCount := count, lastEventTs := some currentTime }
      let request :=
        if cfg.requestUpstreamReconnect then
          [StaleAction.requestReconnect transportId currentTime]
        else []
      (registry.set transportId state',
        request ++
          [.notify cfg.alertPrefix cfg.alertTitle transportId totalStaleElapsed count
            cfg.maxStaleAttempts])

/-- The instants at which a reconnect of a transport is requested. -/
def requestTimes (transportId : String) (actions : List StaleAction) : List Int :=
  actions.filterMap fun
    | .requestReconnect id now => if id = transportId then some now.instant else none
    | .notify .. => none

@[simp] theorem requestTimes_nil (transportId : String) : requestTimes transportId [] = [] := rfl

theorem requestTimes_append (transportId : String) (actions actions' : List StaleAction) :
    requestTimes transportId (actions ++ actions') =
      requestTimes transportId actions ++ requestTimes transportId actions' :=
  List.filterMap_append

/-! ## The throttle -/

/-- The limits of the requests, in microseconds. A cap below zero allows as many as zero does. -/
def StaleSettings.limits (cfg : StaleSettings) : Throttle.Limits Int where
  cap := cfg.maxStaleAttempts.toNat
  delay := cfg.retryDelayMins * 60000000

/-- What the state counts. -/
def StaleRegistryState.counter (state : StaleRegistryState) : Throttle.Counter Int :=
  ⟨state.staleEventCount, state.lastEventTs.map (·.instant)⟩

@[simp] theorem StaleRegistryState.counter_fresh (row : List (String × PyValue))
    (timestamp : DateTime) : (fresh row timestamp).counter = Throttle.Counter.zero := rfl

/-- The state after a stale event. -/
def StaleRegistryState.attempt (cfg : StaleSettings) (state : StaleRegistryState)
    (currentTime : DateTime) : StaleRegistryState :=
  if cfg.limits.grants state.counter currentTime.instant then
    { state with staleEventCount := state.staleEventCount + 1, lastEventTs := some currentTime }
  else state

/-- The two guards of `handleStaleEvent` are those of the throttle. -/
theorem grants_eq_true_iff {cfg : StaleSettings} {state : StaleRegistryState}
    {currentTime : DateTime} :
    cfg.limits.grants state.counter currentTime.instant = true ↔
      ¬cfg.maxStaleAttempts ≤ state.staleEventCount ∧
        tooSoon cfg currentTime state.lastEventTs = false := by
  have hcap : state.staleEventCount < cfg.maxStaleAttempts.toNat ↔
      ¬cfg.maxStaleAttempts ≤ state.staleEventCount := by
    omega
  rw [Throttle.Limits.grants, Bool.and_eq_true, decide_eq_true_eq]
  refine and_congr hcap ?_
  cases hlast : state.lastEventTs with
  | none => simp [StaleRegistryState.counter, hlast, tooSoon]
  | some last =>
    simp only [StaleRegistryState.counter, hlast, Option.map_some, Option.all_some, tooSoon,
      StaleSettings.limits, Bool.not_eq_true']
    exact Iff.rfl

/-- What an attempt counts, it counts as the throttle does. -/
theorem counter_attempt (cfg : StaleSettings) (state : StaleRegistryState)
    (currentTime : DateTime) :
    (state.attempt cfg currentTime).counter =
      (cfg.limits.ask state.counter currentTime.instant).1 := by
  unfold StaleRegistryState.attempt Throttle.Limits.ask
  cases cfg.limits.grants state.counter currentTime.instant <;> rfl

/-- An attempt leaves the comparison and its clock as they are. -/
theorem attempt_keeps (cfg : StaleSettings) (state : StaleRegistryState) (currentTime : DateTime) :
    (state.attempt cfg currentTime).lastRow = state.lastRow ∧
      (state.attempt cfg currentTime).startTs = state.startTs ∧
      (state.attempt cfg currentTime).lastSeen = state.lastSeen := by
  unfold StaleRegistryState.attempt
  split <;> exact ⟨rfl, rfl, rfl⟩

section

variable {cfg : StaleSettings} {registry : Dict String StaleRegistryState} {transportId : String}
  {state : StaleRegistryState} (h : registry.get? transportId = some state)
  (currentTime : DateTime) (elapsed : Int)
include h

/-- A stale event whose attempt is denied does nothing. -/
theorem handleStaleEvent_of_denied
    (hdenied : ¬cfg.limits.grants state.counter currentTime.instant = true) :
    handleStaleEvent cfg registry transportId currentTime elapsed = (registry, []) := by
  rw [grants_eq_true_iff] at hdenied
  simp only [handleStaleEvent, h]
  by_cases hcap : cfg.maxStaleAttempts ≤ state.staleEventCount
  · rw [if_pos hcap]
  · have hsoon : tooSoon cfg currentTime state.lastEventTs = true := by
      cases hsoon : tooSoon cfg currentTime state.lastEventTs with
      | true => rfl
      | false => exact absurd ⟨hcap, hsoon⟩ hdenied
    rw [if_neg hcap, if_pos hsoon]

/-- A stale event whose attempt is granted counts it, asks for the reconnect and sends an alert. -/
theorem handleStaleEvent_of_granted
    (hgranted : cfg.limits.grants state.counter currentTime.instant = true) :
    handleStaleEvent cfg registry transportId currentTime elapsed =
      (registry.set transportId (state.attempt cfg currentTime),
        (if cfg.requestUpstreamReconnect then [.requestReconnect transportId currentTime]
          else []) ++
          [.notify cfg.alertPrefix cfg.alertTitle transportId elapsed (state.staleEventCount + 1)
            cfg.maxStaleAttempts]) := by
  obtain ⟨hcap, hsoon⟩ := grants_eq_true_iff.mp hgranted
  simp only [handleStaleEvent, h, StaleRegistryState.attempt, if_pos hgranted, if_neg hcap, hsoon,
    Bool.false_eq_true, if_false]

/-- A stale event is an attempt of its transport and leaves the others as they are. -/
theorem get?_handleStaleEvent (id : String) :
    (handleStaleEvent cfg registry transportId currentTime elapsed).1.get? id =
      if id = transportId then some (state.attempt cfg currentTime) else registry.get? id := by
  by_cases hgrants : cfg.limits.grants state.counter currentTime.instant = true
  · rw [handleStaleEvent_of_granted h currentTime elapsed hgrants, Dict.get?_set]
  · rw [handleStaleEvent_of_denied h currentTime elapsed hgrants, StaleRegistryState.attempt,
      if_neg hgrants]
    split
    · next heq => rw [heq, h]
    · rfl

/-- The requests of a stale event are what its attempt is granted, if there is someone to ask. -/
theorem requestTimes_handleStaleEvent (id : String) :
    requestTimes id (handleStaleEvent cfg registry transportId currentTime elapsed).2 =
      if transportId = id ∧ cfg.requestUpstreamReconnect = true then
        (cfg.limits.ask state.counter currentTime.instant).2
      else [] := by
  by_cases hgrants : cfg.limits.grants state.counter currentTime.instant = true
  · rw [handleStaleEvent_of_granted h currentTime elapsed hgrants, Throttle.Limits.ask,
      if_pos hgrants]
    cases cfg.requestUpstreamReconnect <;> by_cases hid : transportId = id <;>
      simp [requestTimes, hid]
  · rw [handleStaleEvent_of_denied h currentTime elapsed hgrants, Throttle.Limits.ask,
      if_neg hgrants]
    simp

end

end ProtocolGateway
