import Mathlib.Data.NNRat.Defs
import Mathlib.Tactic.NormNum
import ProtocolGateway.Lib.Dict
import ProtocolGateway.Entry

/-!
# The register failure tracker

`modbus_base` counts the failed reads of every register range, and leaves a range alone for some
hours once it has failed too often. The counts live in tracker objects that the reads make when
they need them, and that a reset, a manual enable and a reconnect clear.

* `RegisterFailureTracker`, `FailureTracking` — the tracker and the methods around it.
* `Event`, `FailureTracking.run` — a history of reads, queries, resets and reconnects.
* `recorded` — what a history says of a range: the times of the failures recorded since it was
  last cleared.
* `isDisabled_run` — a range is disabled when that many failures have been recorded and the period
  that began with the last of them has not ended. A period that ends clears nothing: the next
  failure disables the range again.
-/

namespace ProtocolGateway

/-! ## The tracker -/

/-- A register range of a type, which names its tracker. -/
structure RangeKey where
  registryType : RegistryType
  /-- start and count -/
  registerRange : Int × Int
  deriving DecidableEq

/-- `time.time()`: seconds since the epoch. -/
abbrev Timestamp := ℚ≥0

/-- `RegisterFailureTracker`. -/
structure RegisterFailureTracker where
  registerRange : Int × Int
  registryType : RegistryType
  failureCount : Nat := 0
  lastFailureTime : Timestamp := 0
  lastSuccessTime : Timestamp := 0
  disabledUntil : ℚ := 0

namespace RegisterFailureTracker

/-- `record_failure`: the tracker afterwards, and whether the range should be disabled. -/
def recordFailure (tracker : RegisterFailureTracker) (maxFailures disableDurationHours : Int)
    (now : Timestamp) : RegisterFailureTracker × Bool :=
  let tracker := { tracker with failureCount := tracker.failureCount + 1, lastFailureTime := now }
  if maxFailures ≤ tracker.failureCount then
    ({ tracker with disabledUntil := now + disableDurationHours * 3600 }, true)
  else (tracker, false)

/-- `record_success`. -/
def recordSuccess (tracker : RegisterFailureTracker) (now : Timestamp) : RegisterFailureTracker :=
  { tracker with lastSuccessTime := now, failureCount := 0, disabledUntil := 0 }

/-- `is_disabled`. -/
def isDisabled (tracker : RegisterFailureTracker) (now : Timestamp) : Bool :=
  if tracker.disabledUntil = 0 then false else now < tracker.disabledUntil

/-- What `connect` leaves of a tracker. -/
def onConnect (tracker : RegisterFailureTracker) : RegisterFailureTracker :=
  { tracker with failureCount := 0, disabledUntil := 0, lastFailureTime := 0 }

/-- What `enable_register_range` leaves of a tracker. -/
def enable (tracker : RegisterFailureTracker) : RegisterFailureTracker :=
  { tracker with disabledUntil := 0, failureCount := 0 }

end RegisterFailureTracker

/-- A tracker as it is made. -/
def RangeKey.tracker (key : RangeKey) : RegisterFailureTracker where
  registerRange := key.registerRange
  registryType := key.registryType

/-! ## The methods of the transport -/

/-- The settings of failure tracking. -/
structure FailureSettings where
  enableRegisterFailureTracking : Bool := true
  maxFailuresBeforeDisable : Int := 5
  disableDurationHours : Int := 12

/-- `register_failure_trackers`. -/
abbrev FailureTracking := Dict RangeKey RegisterFailureTracker

namespace FailureTracking

variable (settings : FailureSettings) (trackers : FailureTracking)

/-- `_get_or_create_failure_tracker`: the tracker, and the trackers with it. -/
def getOrCreate (key : RangeKey) : RegisterFailureTracker × FailureTracking :=
  match trackers.get? key with
  | some tracker => (tracker, trackers)
  | none => (key.tracker, trackers.set key key.tracker)

/-- `_record_register_read_success`. -/
def recordReadSuccess (key : RangeKey) (now : Timestamp) : FailureTracking :=
  if settings.enableRegisterFailureTracking then
    let (tracker, trackers) := getOrCreate trackers key
    trackers.set key (tracker.recordSuccess now)
  else trackers

/-- `_record_register_read_failure`. A failure while the connection is lost is not recorded. -/
def recordReadFailure (connected : Bool) (key : RangeKey) (now : Timestamp) : FailureTracking :=
  if settings.enableRegisterFailureTracking && connected then
    let (tracker, trackers) := getOrCreate trackers key
    trackers.set key (tracker.recordFailure settings.maxFailuresBeforeDisable
      settings.disableDurationHours now).1
  else trackers

/-- `_is_register_range_disabled`: the answer, and the trackers with the one that was asked. -/
def isRangeDisabled (key : RangeKey) (now : Timestamp) : Bool × FailureTracking :=
  if settings.enableRegisterFailureTracking then
    let (tracker, trackers) := getOrCreate trackers key
    (tracker.isDisabled now, trackers)
  else (false, trackers)

/-- `reset_register_failure_tracking`. A range without a type is one of the input registers. -/
def reset (registryType : Option RegistryType) (registerRange : Option (Int × Int)) :
    FailureTracking :=
  match registryType, registerRange with
  | none, none => .empty
  | _, some range =>
    trackers.filter fun kv => kv.1 ≠ ⟨registryType.getD .input, range⟩
  | some t, none => trackers.filter fun kv => kv.2.registryType ≠ t

/-- `enable_register_range`. -/
def enableRange (key : RangeKey) : FailureTracking :=
  let (tracker, trackers) := getOrCreate trackers key
  trackers.set key tracker.enable

/-- The part of `connect` that clears the trackers, once the transport is connected. -/
def connect (connected : Bool) : FailureTracking :=
  if connected then trackers.mapValues fun _ tracker => tracker.onConnect else trackers

end FailureTracking

/-! ## Histories -/

/-- A call that reads or changes the trackers, with the clock as it finds it. -/
inductive FailureEvent
  /-- a failed read, and whether the transport is connected -/
  | failure (connected : Bool) (key : RangeKey) (now : Timestamp)
  /-- a successful read -/
  | success (key : RangeKey) (now : Timestamp)
  /-- a look at whether a range is disabled -/
  | query (key : RangeKey) (now : Timestamp)
  /-- a manual reset -/
  | reset (registryType : Option RegistryType) (registerRange : Option (Int × Int))
  /-- a manual enable -/
  | enable (key : RangeKey)
  /-- a connection attempt, and whether the transport is connected after it -/
  | connect (connected : Bool)

namespace FailureTracking

/-- One call. -/
def step (settings : FailureSettings) (trackers : FailureTracking) :
    FailureEvent → FailureTracking
  | .failure connected key now => recordReadFailure settings trackers connected key now
  | .success key now => recordReadSuccess settings trackers key now
  | .query key now => (isRangeDisabled settings trackers key now).2
  | .reset registryType registerRange => reset trackers registryType registerRange
  | .enable key => enableRange trackers key
  | .connect connected => connect trackers connected

/-- A history of calls, from a transport without trackers. -/
def run (settings : FailureSettings) (history : List FailureEvent) : FailureTracking :=
  history.foldl (step settings) .empty

end FailureTracking

/-- The reset is one of this range. -/
def RangeKey.isReset (key : RangeKey) (registryType : Option RegistryType)
    (registerRange : Option (Int × Int)) : Bool :=
  match registryType, registerRange with
  | none, none => true
  | _, some range => key = ⟨registryType.getD .input, range⟩
  | some t, none => key.registryType = t

/-- What a call says of a range: `times` are the failures recorded since it was last cleared, the
last one first. -/
def recordedStep (settings : FailureSettings) (key : RangeKey) (times : List Timestamp) :
    FailureEvent → List Timestamp
  | .failure connected k now =>
    if settings.enableRegisterFailureTracking && connected && k = key then now :: times else times
  | .success k _ => if k = key then [] else times
  | .query _ _ => times
  | .reset registryType registerRange =>
    if key.isReset registryType registerRange then [] else times
  | .enable k => if k = key then [] else times
  | .connect connected => if connected then [] else times

/-- The times of the failures recorded for a range since its last success, reset, enable or
reconnect, the last one first. -/
def recorded (settings : FailureSettings) (key : RangeKey) (history : List FailureEvent) : List Timestamp :=
  history.foldl (recordedStep settings key) []

/-- The end of the disable period that a failure starts. -/
def FailureSettings.periodEnd (settings : FailureSettings) (failure : Timestamp) : ℚ :=
  failure + settings.disableDurationHours * 3600

/-- The failures have disabled the range at time `t`: there are enough of them, and `t` is before
the end of the period that began with the last one. -/
def DisabledBy (settings : FailureSettings) (times : List Timestamp) (t : Timestamp) : Prop :=
  settings.maxFailuresBeforeDisable ≤ times.length ∧
    ∃ last ∈ times.head?, (t : ℚ) < settings.periodEnd last

/-! ## The trackers follow the history -/

/-- The tracker of a range, one as it is made if there is none. -/
def FailureTracking.trackerOf (trackers : FailureTracking) (key : RangeKey) :
    RegisterFailureTracker :=
  (trackers.get? key).getD key.tracker

/-- The tracker holds what the failures say. -/
structure RegisterFailureTracker.Follows (settings : FailureSettings) (key : RangeKey)
    (times : List Timestamp) (tracker : RegisterFailureTracker) : Prop where
  untracked : settings.enableRegisterFailureTracking = false → times = []
  registryType : tracker.registryType = key.registryType
  count : tracker.failureCount = times.length
  disabledUntil : tracker.disabledUntil =
    if settings.maxFailuresBeforeDisable ≤ times.length then
      (times.head?.map settings.periodEnd).getD 0
    else 0

namespace FailureTracking

open RegisterFailureTracker

variable {settings : FailureSettings} {key : RangeKey} {times : List Timestamp}

theorem follows_fresh : Follows settings key [] key.tracker := by
  refine ⟨fun _ => rfl, rfl, rfl, ?_⟩
  simp [RangeKey.tracker]

theorem trackerOf_getOrCreate (trackers : FailureTracking) (key k : RangeKey) :
    trackerOf (getOrCreate trackers k).2 key = trackerOf trackers key := by
  rw [getOrCreate]
  rcases h : trackers.get? k with _ | tracker
  · rw [trackerOf, trackerOf, Dict.get?_set]
    by_cases hk : key = k
    · subst hk
      simp [h]
    · simp [hk]
  · rfl

theorem getOrCreate_fst (trackers : FailureTracking) (key : RangeKey) :
    (getOrCreate trackers key).1 = trackerOf trackers key := by
  rw [getOrCreate, trackerOf]
  rcases trackers.get? key with _ | tracker <;> rfl

/-- A tracker that is set is the tracker of its range, and the others stay. -/
theorem trackerOf_set (trackers : FailureTracking) (key k : RangeKey)
    (tracker : RegisterFailureTracker) :
    trackerOf (trackers.set k tracker) key =
      if key = k then tracker else trackerOf trackers key := by
  rw [trackerOf, trackerOf, Dict.get?_set]
  split_ifs with h <;> rfl

/-- Forgotten trackers are as trackers that are made. -/
theorem trackerOf_filter (trackers : FailureTracking)
    (p : RangeKey × RegisterFailureTracker → Bool) (key : RangeKey) :
    trackerOf (trackers.filter p) key = trackerOf trackers key ∨
      trackerOf (trackers.filter p) key = key.tracker ∧
        ∃ tracker, trackers.get? key = some tracker ∧ p (key, tracker) = false := by
  rw [trackerOf, trackerOf, Dict.get?_filter]
  rcases h : trackers.get? key with _ | tracker
  · exact .inl rfl
  · rcases hp : p (key, tracker) with _ | _
    · exact .inr ⟨by simp [Option.filter_some, hp], tracker, rfl, hp⟩
    · exact .inl (by simp [Option.filter_some, hp])

theorem follows_recordFailure {tracker : RegisterFailureTracker}
    (hon : settings.enableRegisterFailureTracking = true)
    (h : Follows settings key times tracker) (now : Timestamp) :
    Follows settings key (now :: times)
      (tracker.recordFailure settings.maxFailuresBeforeDisable settings.disableDurationHours
        now).1 := by
  have hcount : tracker.failureCount + 1 = (now :: times).length := by
    rw [h.count, List.length_cons]
  have htracked : settings.enableRegisterFailureTracking = false → now :: times = [] := by
    rw [hon]
    exact nofun
  rw [recordFailure]
  split_ifs with hmax
  · -- the failure that reaches the count starts the period
    refine ⟨htracked, h.registryType, hcount, ?_⟩
    rw [if_pos (by rw [← hcount]; exact hmax)]
    rfl
  · -- below the count no period has been started since the last clearing
    refine ⟨htracked, h.registryType, hcount, ?_⟩
    have hfew : ¬settings.maxFailuresBeforeDisable ≤ times.length := by
      rw [← h.count]
      push_cast at hmax
      omega
    rw [if_neg (by rw [← hcount]; exact hmax), h.disabledUntil, if_neg hfew]

theorem follows_cleared {tracker tracker' : RegisterFailureTracker}
    (h : Follows settings key times tracker) (htype : tracker'.registryType = tracker.registryType)
    (hcount : tracker'.failureCount = 0) (huntil : tracker'.disabledUntil = 0) :
    Follows settings key [] tracker' :=
  ⟨fun _ => rfl, htype.trans h.registryType, hcount, by rw [huntil]; simp⟩

theorem follows_reset {trackers : FailureTracking}
    (h : Follows settings key times (trackerOf trackers key))
    (registryType : Option RegistryType) (registerRange : Option (Int × Int)) :
    Follows settings key (if key.isReset registryType registerRange then [] else times)
      (trackerOf (reset trackers registryType registerRange) key) := by
  -- a reset forgets trackers, and forgets this one exactly if it is meant
  have hforget : ∀ p : RangeKey × RegisterFailureTracker → Bool,
      (∀ tracker, trackers.get? key = some tracker →
        p (key, tracker) = !key.isReset registryType registerRange) →
      Follows settings key (if key.isReset registryType registerRange then [] else times)
        (trackerOf (trackers.filter p) key) := by
    intro p hp
    rcases hmeant : key.isReset registryType registerRange with _ | _
    · rcases trackerOf_filter trackers p key with hsame | ⟨-, tracker, hget, hfalse⟩
      · rw [hsame]
        exact h
      · rw [hp tracker hget, hmeant] at hfalse
        cases hfalse
    · have hfresh : trackerOf (trackers.filter p) key = key.tracker := by
        rw [trackerOf, Dict.get?_filter]
        rcases hget : trackers.get? key with _ | tracker
        · rfl
        · simp [Option.filter_some, hp tracker hget, hmeant]
      rw [hfresh]
      exact follows_fresh
  rcases registerRange with _ | range
  · rcases registryType with _ | t
    · exact follows_fresh
    · refine hforget _ fun tracker hget => ?_
      have htype : tracker.registryType = key.registryType := by
        have := h.registryType
        rwa [trackerOf, hget] at this
      simp [RangeKey.isReset, htype]
  · rcases registryType with _ | t
    · refine hforget (fun kv => kv.1 ≠ ⟨.input, range⟩) fun tracker _ => ?_
      simp [RangeKey.isReset]
    · refine hforget (fun kv => kv.1 ≠ ⟨t, range⟩) fun tracker _ => ?_
      simp [RangeKey.isReset]

/-- **One call.** The tracker of a range goes on to hold what the calls say of it. -/
theorem follows_step {trackers : FailureTracking}
    (h : Follows settings key times (trackerOf trackers key)) (event : FailureEvent) :
    Follows settings key (recordedStep settings key times event)
      (trackerOf (step settings trackers event) key) := by
  cases event with
  | failure connected k now =>
    rw [step, recordReadFailure, recordedStep]
    rcases hon : settings.enableRegisterFailureTracking && connected with _ | _
    · simpa using h
    · simp only [Bool.true_and, decide_eq_true_eq, if_true, trackerOf_set, getOrCreate_fst,
        trackerOf_getOrCreate]
      by_cases hk : k = key
      · subst hk
        rw [if_pos rfl, if_pos rfl]
        exact follows_recordFailure (Bool.and_eq_true_iff.mp hon).1 h now
      · rw [if_neg hk, if_neg (Ne.symm hk)]
        exact h
  | success k now =>
    rw [step, recordReadSuccess, recordedStep]
    rcases hon : settings.enableRegisterFailureTracking with _ | _
    · -- nothing has been recorded, so nothing is cleared
      have hnil : times = [] := h.untracked hon
      subst hnil
      simpa using h
    · simp only [if_true, trackerOf_set, getOrCreate_fst, trackerOf_getOrCreate]
      by_cases hk : k = key
      · subst hk
        rw [if_pos rfl, if_pos rfl]
        exact follows_cleared h rfl rfl rfl
      · rw [if_neg hk, if_neg (Ne.symm hk)]
        exact h
  | query k now =>
    rw [step, isRangeDisabled]
    rcases settings.enableRegisterFailureTracking with _ | _
    · exact h
    · simp only [if_true, trackerOf_getOrCreate]
      exact h
  | reset registryType registerRange => exact follows_reset h registryType registerRange
  | enable k =>
    simp only [step, enableRange, recordedStep, trackerOf_set, getOrCreate_fst,
      trackerOf_getOrCreate]
    by_cases hk : k = key
    · subst hk
      rw [if_pos rfl, if_pos rfl]
      exact follows_cleared h rfl rfl rfl
    · rw [if_neg hk, if_neg (Ne.symm hk)]
      exact h
  | connect connected =>
    cases connected with
    | false => exact h
    | true =>
      rw [step, connect, if_pos rfl, recordedStep, if_pos rfl, trackerOf, Dict.get?_mapValues]
      rcases hget : trackers.get? key with _ | tracker
      · exact follows_fresh
      · have htracker : trackerOf trackers key = tracker := by rw [trackerOf, hget]; rfl
        rw [htracker] at h
        exact follows_cleared h rfl rfl rfl

/-- **All calls.** After a history the tracker of every range holds what the history says. -/
theorem follows_run (settings : FailureSettings) (key : RangeKey) (history : List FailureEvent) :
    Follows settings key (recorded settings key history)
      (trackerOf (run settings history) key) := by
  induction history using List.reverseRecOn with
  | nil => exact follows_fresh
  | append_singleton history event ih =>
    rw [recorded, run, List.foldl_append, List.foldl_append]
    exact follows_step ih event

/-- What is reported of a range, from what its tracker holds. -/
theorem isRangeDisabled_iff {trackers : FailureTracking}
    (h : Follows settings key times (trackerOf trackers key)) (t : Timestamp) :
    (isRangeDisabled settings trackers key t).1 = true ↔ DisabledBy settings times t := by
  rw [isRangeDisabled, DisabledBy]
  rcases hon : settings.enableRegisterFailureTracking with _ | _
  · simp [h.untracked hon]
  · simp only [if_true, getOrCreate_fst, RegisterFailureTracker.isDisabled, h.disabledUntil]
    by_cases hmax : settings.maxFailuresBeforeDisable ≤ times.length
    · rcases times with _ | ⟨last, times⟩
      · simp
      · simp only [hmax, if_true, true_and, List.head?_cons, Option.map_some, Option.getD_some]
        split_ifs with hend
        · -- `0` stands for no period, and no time is before it
          simp [hend]
        · simp
    · simp [hmax]

/-- **The law of the tracker.** After any history a range is reported disabled at a time when at
least `max_failures_before_disable` failures were recorded since its last success, reset, enable or
reconnect, and the period that began with the last of them has not ended. -/
theorem isRangeDisabled_run (settings : FailureSettings) (key : RangeKey)
    (history : List FailureEvent) (t : Timestamp) :
    (isRangeDisabled settings (run settings history) key t).1 = true ↔
      DisabledBy settings (recorded settings key history) t :=
  isRangeDisabled_iff (follows_run settings key history) t

end FailureTracking

/-! ## The end of a period -/

/-- What a call says of a range if the end of a disable period cleared it too. -/
def recordedSinceExpiryStep (settings : FailureSettings) (key : RangeKey) (times : List Timestamp)
    (event : FailureEvent) : List Timestamp :=
  match event with
  | .failure _ _ now =>
    -- the period that the last failure started is over
    if settings.maxFailuresBeforeDisable ≤ times.length ∧
        ∃ last ∈ times.head?, settings.periodEnd last ≤ now then
      recordedStep settings key [] event
    else recordedStep settings key times event
  | _ => recordedStep settings key times event

/-- The times of the failures recorded for a range since its last success, reset, enable or
reconnect, or the end of its last disable period. -/
def recordedSinceExpiry (settings : FailureSettings) (key : RangeKey)
    (history : List FailureEvent) : List Timestamp :=
  history.foldl (recordedSinceExpiryStep settings key) []

namespace FailureTracking

/-- Two failures disable a range for an hour. A third one after that hour disables it again, though
it is the only one since the period ended. -/
theorem isRangeDisabled_after_expiry :
    ¬∀ (settings : FailureSettings) (key : RangeKey) (history : List FailureEvent) (t : Timestamp),
      (isRangeDisabled settings (run settings history) key t).1 = true ↔
        DisabledBy settings (recordedSinceExpiry settings key history) t := by
  intro h
  let settings : FailureSettings :=
    { maxFailuresBeforeDisable := 2, disableDurationHours := 1 }
  let key : RangeKey := ⟨.input, (994, 6)⟩
  let history : List FailureEvent :=
    [.failure true key 0, .failure true key 1, .failure true key 4000]
  have hall : recorded settings key history = [4000, 1, 0] := by
    simp [history, recorded, recordedStep, settings]
  have hlast : recordedSinceExpiry settings key history = [4000] := by
    simp [history, recordedSinceExpiry, recordedSinceExpiryStep, recordedStep, settings,
      FailureSettings.periodEnd]
    norm_num
  have hdisabled : DisabledBy settings (recorded settings key history) 4001 := by
    rw [hall]
    refine ⟨by decide, 4000, rfl, ?_⟩
    norm_num [settings, FailureSettings.periodEnd]
  have hclaim := (h settings key history 4001).mp
    ((isRangeDisabled_iff (follows_run settings key history) 4001).mpr hdisabled)
  rw [hlast] at hclaim
  exact absurd hclaim.1 (by decide)

end FailureTracking

end ProtocolGateway
