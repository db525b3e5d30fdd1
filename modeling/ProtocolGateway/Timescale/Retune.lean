import ProtocolGateway.Lib.Dict
import ProtocolGateway.Lib.Runs
import ProtocolGateway.Lib.Timers

/-!
# The dynamic-sizing retune

A table that is set up before live data exists gets static chunk settings, and its key is flagged: the
protocol of a wide table, or `none` for the narrow table. Each transport reports once, when its first
write succeeds. A key fires, and its table is set up again, once every transport that is recorded for
it has reported, or when the timer is up that its first report armed.

The locked part of each method is one step. `note_device_metric_count_known` decides under the lock
which keys to fire and calls `_fire_retune` after it; what is left of such a call is in `calls`, and
other steps may come in between.

* `step`, `run` — the steps of any threads, in any order.
* `retune_amended` — a key fires once, not too early, and is not missed.
* `reported_before_flag` — but a report that comes before the flag does not count.
-/

namespace ProtocolGateway

namespace Retune

open Runs Timers

/-- A protocol, or `none` for the narrow table. -/
abbrev Key := Option String

/-- What the threads share, and the calls of `_fire_retune` that are still to be made. -/
structure State where
  /-- `transport_read_intervals`: the protocol and the interval of each transport -/
  intervals : Dict String (String × Int)
  /-- `_retune_reported` -/
  reported : Dict Key (List String)
  /-- `_retuned` -/
  retuned : List Key
  timers : Pool Key
  /-- `retune_timer` -/
  retuneTimer : Dict Key Nat
  calls : List (List Key)

def State.init : State := ⟨.empty, .empty, [], [], .empty, []⟩

/-! ## The methods -/

/-- `record_transport_interval`. Only the sign of the interval is looked at here. -/
def recordTransportInterval (s : State) (transport protocol : String) (readInterval : Int) :
    State :=
  if 0 < readInterval then
    { s with intervals := s.intervals.set transport (protocol, readInterval) }
  else s

/-- `flag_pending_retune`. -/
def flagPendingRetune (s : State) (key : Key) : State :=
  if key ∈ s.retuned ∨ key ∈ s.reported.keys then s
  else { s with reported := s.reported.set key [] }

/-- `_start_retune_timer_if_needed`. -/
def startRetuneTimerIfNeeded (s : State) (key : Key) : State :=
  if key ∈ s.retuneTimer.keys then s
  else
    { s with
      timers := arm s.timers key
      retuneTimer := s.retuneTimer.set key s.timers.length }

/-- The transports that are recorded for a key. -/
def State.expected (s : State) (key : Key) : List String :=
  (s.intervals.items.filter fun kv => key.all (· == kv.2.1)).map Prod.fst

/-- `reported.add(transport_name)`, and the timer of the key if this is its first report. -/
def reportTo (s : State) (transport : String) (key : Key) (reported : List String) : State :=
  let s' := { s with reported := s.reported.set key (reported.insert transport) }
  if reported = [] then startRetuneTimerIfNeeded s' key else s'

/-- One turn of the loop in `note_device_metric_count_known`: a report to one key. -/
def report (transport : String) (r : State × List Key) (key : Key) : State × List Key :=
  match r.1.reported.get? key with
  | none => r
  | some reported =>
    if key ∈ r.1.retuned then r
    else
      let s := reportTo r.1 transport key reported
      let expected := s.expected key
      if expected ≠ [] ∧ ∀ t ∈ expected, t ∈ reported.insert transport then (s, r.2 ++ [key])
      else (s, r.2)

/-- The locked part of `note_device_metric_count_known`. -/
def noteDeviceMetricCountKnown (s : State) (transport protocol : String) : State :=
  let r := report transport (report transport (s, []) none) (some protocol)
  { r.1 with calls := r.1.calls ++ [r.2] }

/-- `timer.cancel()`, if there is a timer. -/
def cancelTimer (timers : Pool Key) : Option Nat → Pool Key
  | some id => cancel timers id
  | none => timers

/-- `_fire_retune`, and the keys whose retune it starts. -/
def fireRetune (s : State) (key : Key) : State × List Key :=
  if key ∈ s.retuned then (s, [])
  else
    ({ s with
       retuned := key :: s.retuned
       reported := s.reported.filter fun kv => kv.1 ≠ key
       retuneTimer := s.retuneTimer.filter fun kv => kv.1 ≠ key
       timers := cancelTimer s.timers (s.retuneTimer.get? key) }, [key])

/-- The end of `stop_auto_refresh`. -/
def stop (s : State) : State :=
  { s with
    timers := s.retuneTimer.items.foldl (fun timers kv => cancel timers kv.2) s.timers
    retuneTimer := .empty }

/-! ## Runs -/

inductive Step
  | record (transport protocol : String) (readInterval : Int)
  | flag (key : Key)
  | note (transport protocol : String)
  /-- the next call of `_fire_retune` by the thread of the `n`th note -/
  | fire (n : Nat)
  /-- the time of a timer is up -/
  | expire (id : Nat)
  /-- … and it calls `_fire_retune` -/
  | start (id : Nat)
  | stop
  deriving DecidableEq

/-- One step, and the keys that fire in it. -/
def step (s : State) : Step → Option (State × List Key)
  | .record transport protocol readInterval =>
    some (recordTransportInterval s transport protocol readInterval, [])
  | .flag key => some (flagPendingRetune s key, [])
  | .note transport protocol => some (noteDeviceMetricCountKnown s transport protocol, [])
  | .fire n =>
    match s.calls[n]? with
    | some (key :: rest) => some (fireRetune { s with calls := s.calls.set n rest } key)
    | _ => none
  | .expire id => (expire s.timers id).map fun timers => ({ s with timers := timers }, [])
  | .start id => (Timers.start s.timers id).map fun r => fireRetune { s with timers := r.2 } r.1
  | .stop => some (stop s, [])

/-- Steps one after the other, and the keys that fire in them. -/
def run (s : State) (steps : List Step) : Option (State × List Key) := emit step s steps

/-! ## The invariant -/

/-- The timer that a key refers to will run. -/
def Refers (s : State) (key : Key) : Prop :=
  ∀ id, s.retuneTimer.get? key = some id →
    ∃ phase : Phase, s.timers[id]? = some (key, phase) ∧ phase.live = true

/-- A key that fired is forgotten, and only a key with a report has a timer. -/
structure Consistent (s : State) : Prop where
  apart : ∀ key ∈ s.retuned, s.reported.get? key = none
  timed : ∀ key id, s.retuneTimer.get? key = some id →
    ∃ ts, s.reported.get? key = some ts ∧ ts ≠ []

/-- The key fired, or has a report. -/
def Heard (s : State) (key : Key) : Prop :=
  key ∈ s.retuned ∨ ∃ ts, s.reported.get? key = some ts ∧ ts ≠ []

/-- The key fired, or is flagged. -/
def Flagged (s : State) (key : Key) : Prop := key ∈ s.retuned ∨ ∃ ts, s.reported.get? key = some ts

/-- Every key with a report has a timer. -/
def Armed (s : State) : Prop :=
  ∀ key ts, s.reported.get? key = some ts → ts ≠ [] → ∃ id, s.retuneTimer.get? key = some id

/-- What every step does to the keys. -/
structure Moves (s s' : State) : Prop where
  heard : ∀ key, Heard s key → Heard s' key
  flagged : ∀ key, Flagged s key → Flagged s' key
  consistent : Consistent s → Consistent s'
  refers : Consistent s → (∀ key, Refers s key) → ∀ key, Refers s' key

theorem Moves.refl (s : State) : Moves s s :=
  ⟨fun _ h => h, fun _ h => h, fun h => h, fun _ h => h⟩

theorem Moves.trans {s s' s'' : State} (h : Moves s s') (h' : Moves s' s'') : Moves s s'' where
  heard key hk := h'.heard key (h.heard key hk)
  flagged key hk := h'.flagged key (h.flagged key hk)
  consistent hs := h'.consistent (h.consistent hs)
  refers hs hrefers := h'.refers (h.consistent hs) (h.refers hs hrefers)

/-- A step that leaves the keys and their timers as they are. -/
theorem Moves.of_eq {s s' : State} (hretuned : s'.retuned = s.retuned)
    (hreported : s'.reported = s.reported) (htimers : s'.timers = s.timers)
    (htimer : s'.retuneTimer = s.retuneTimer) : Moves s s' := by
  refine ⟨fun key h => ?_, fun key h => ?_, fun h => ⟨?_, ?_⟩, fun _ h key => ?_⟩
  · unfold Heard
    rw [hretuned, hreported]
    exact h
  · unfold Flagged
    rw [hretuned, hreported]
    exact h
  · rw [hretuned, hreported]
    exact h.apart
  · rw [htimer, hreported]
    exact h.timed
  · unfold Refers
    rw [htimer, htimers]
    exact h key

variable {s s' : State} {key : Key}

/-- A timer is started once for a key. -/
theorem get?_startRetuneTimerIfNeeded (s : State) (key : Key) :
    ∃ id, (startRetuneTimerIfNeeded s key).retuneTimer.get? key = some id := by
  unfold startRetuneTimerIfNeeded
  split
  · next hmem =>
    cases hget : s.retuneTimer.get? key with
    | none => exact absurd hmem (Dict.get?_eq_none_iff.mp hget)
    | some id => exact ⟨id, rfl⟩
  · exact ⟨_, (Dict.get?_set ..).trans (if_pos rfl)⟩

theorem get?_startRetuneTimerIfNeeded_ne {key' : Key} (hne : key' ≠ key) :
    (startRetuneTimerIfNeeded s key).retuneTimer.get? key' = s.retuneTimer.get? key' := by
  unfold startRetuneTimerIfNeeded
  split
  · rfl
  · exact (Dict.get?_set ..).trans (if_neg hne)

theorem refers_startRetuneTimerIfNeeded (h : ∀ key, Refers s key) (key' : Key) :
    Refers (startRetuneTimerIfNeeded s key) key' := by
  unfold startRetuneTimerIfNeeded
  split
  · exact h key'
  · intro id hid
    rw [Dict.get?_set] at hid
    split at hid
    · next heq =>
      obtain rfl := Option.some.inj hid
      rw [heq]
      exact ⟨.waiting, getElem?_arm_length, rfl⟩
    · obtain ⟨phase, hget, hlive⟩ := h key' id hid
      exact ⟨phase, getElem?_arm_of_some hget, hlive⟩

theorem startRetuneTimerIfNeeded_keeps (s : State) (key : Key) :
    (startRetuneTimerIfNeeded s key).reported = s.reported ∧
      (startRetuneTimerIfNeeded s key).retuned = s.retuned ∧
      (startRetuneTimerIfNeeded s key).intervals = s.intervals ∧
      (startRetuneTimerIfNeeded s key).calls = s.calls := by
  unfold startRetuneTimerIfNeeded
  split <;> exact ⟨rfl, rfl, rfl, rfl⟩

theorem timers_startRetuneTimerIfNeeded (s : State) (key : Key) :
    (startRetuneTimerIfNeeded s key).timers = s.timers ∨
      (startRetuneTimerIfNeeded s key).timers = arm s.timers key := by
  unfold startRetuneTimerIfNeeded
  split
  · exact Or.inl rfl
  · exact Or.inr rfl

/-! ## A report -/

/-- A report to a key, if it counts. -/
theorem report_cases (transport : String) (r : State × List Key) (key : Key) :
    (report transport r key = r ∧
        (key ∈ r.1.retuned ∨ r.1.reported.get? key = none)) ∨
      ∃ reported, r.1.reported.get? key = some reported ∧ key ∉ r.1.retuned ∧
        (report transport r key).1 = reportTo r.1 transport key reported ∧
        ((report transport r key).2 = r.2 ∨
          (report transport r key).2 = r.2 ++ [key] ∧
            ∀ t ∈ (reportTo r.1 transport key reported).expected key,
              t ∈ reported.insert transport) := by
  unfold report
  cases hget : r.1.reported.get? key with
  | none => exact Or.inl ⟨rfl, Or.inr rfl⟩
  | some reported =>
    by_cases hretuned : key ∈ r.1.retuned
    · exact Or.inl ⟨if_pos hretuned, Or.inl hretuned⟩
    · refine Or.inr ⟨reported, rfl, hretuned, ?_⟩
      simp only [if_neg hretuned]
      split
      · next hall => exact ⟨rfl, Or.inr ⟨rfl, hall.2⟩⟩
      · exact ⟨rfl, Or.inl rfl⟩

theorem insert_ne_nil (reported : List String) (transport : String) :
    reported.insert transport ≠ [] :=
  List.ne_nil_of_mem (List.mem_insert_self ..)

section

variable {reported : List String} (transport : String)

theorem get?_reportTo (key' : Key) :
    (reportTo s transport key reported).reported.get? key' =
      if key' = key then some (reported.insert transport) else s.reported.get? key' := by
  unfold reportTo
  split
  · rw [(startRetuneTimerIfNeeded_keeps _ _).1, Dict.get?_set]
  · rw [Dict.get?_set]

theorem retuned_reportTo : (reportTo s transport key reported).retuned = s.retuned := by
  unfold reportTo
  split
  · exact (startRetuneTimerIfNeeded_keeps _ _).2.1
  · rfl

/-- After a report the key has one. -/
theorem heard_reportTo : Heard (reportTo s transport key reported) key :=
  Or.inr ⟨_, (get?_reportTo transport key).trans (if_pos rfl), insert_ne_nil _ _⟩

theorem moves_reportTo (hretuned : key ∉ s.retuned) :
    Moves s (reportTo s transport key reported) where
  heard key' h := by
    rcases h with h | ⟨ts, hts, hne⟩
    · exact Or.inl (by rwa [retuned_reportTo])
    · by_cases heq : key' = key
      · rw [heq]
        exact heard_reportTo transport
      · exact Or.inr ⟨ts, by rw [get?_reportTo, if_neg heq, hts], hne⟩
  flagged key' h := by
    rcases h with h | ⟨ts, hts⟩
    · exact Or.inl (by rwa [retuned_reportTo])
    · by_cases heq : key' = key
      · exact Or.inr ⟨_, (get?_reportTo transport key').trans (if_pos heq)⟩
      · exact Or.inr ⟨ts, by rw [get?_reportTo, if_neg heq, hts]⟩
  consistent h := by
    refine ⟨fun key' hkey' => ?_, fun key' id hid => ?_⟩
    · rw [retuned_reportTo] at hkey'
      have hne : key' ≠ key := fun heq => hretuned (heq ▸ hkey')
      rw [get?_reportTo, if_neg hne, h.apart key' hkey']
    · by_cases heq : key' = key
      · exact ⟨_, (get?_reportTo transport key').trans (if_pos heq), insert_ne_nil _ _⟩
      · have hid' : s.retuneTimer.get? key' = some id := by
          unfold reportTo at hid
          split at hid
          · rwa [get?_startRetuneTimerIfNeeded_ne heq] at hid
          · exact hid
        rw [get?_reportTo, if_neg heq]
        exact h.timed key' id hid'
  refers _ h key' := by
    unfold reportTo
    split
    · exact @refers_startRetuneTimerIfNeeded
        { s with reported := s.reported.set key (reported.insert transport) } key h key'
    · exact h key'

theorem armed_reportTo (hget : s.reported.get? key = some reported) (h : Armed s) :
    Armed (reportTo s transport key reported) := by
  intro key' ts hts hne
  by_cases heq : key' = key
  · unfold reportTo
    split
    · rw [heq]
      exact get?_startRetuneTimerIfNeeded _ _
    · next hnil => exact h key' reported (heq ▸ hget) hnil
  · rw [get?_reportTo, if_neg heq] at hts
    obtain ⟨id, hid⟩ := h key' ts hts hne
    refine ⟨id, ?_⟩
    unfold reportTo
    split
    · rw [get?_startRetuneTimerIfNeeded_ne heq]
      exact hid
    · exact hid

end

/-- A turn of the loop. -/
theorem moves_report (transport : String) (r : State × List Key) (key : Key) :
    Moves r.1 (report transport r key).1 := by
  rcases report_cases transport r key with ⟨heq, -⟩ | ⟨reported, -, hretuned, heq, -⟩
  · rw [heq]
    exact .refl _
  · rw [heq]
    exact moves_reportTo transport hretuned

theorem armed_report (transport : String) (r : State × List Key) (key : Key) (h : Armed r.1) :
    Armed (report transport r key).1 := by
  rcases report_cases transport r key with ⟨heq, -⟩ | ⟨reported, hget, -, heq, -⟩
  · rwa [heq]
  · rw [heq]
    exact armed_reportTo transport hget h

/-- A flagged key has a report after one. -/
theorem heard_report (transport : String) (r : State × List Key) (key : Key)
    (h : Flagged r.1 key) : Heard (report transport r key).1 key := by
  rcases report_cases transport r key with ⟨heq, hor⟩ | ⟨reported, -, -, heq, -⟩
  · rw [heq]
    rcases h with h | ⟨ts, hts⟩
    · exact Or.inl h
    · rcases hor with hor | hor
      · exact Or.inl hor
      · rw [hor] at hts
        cases hts
  · rw [heq]
    exact heard_reportTo transport

/-! ## The other methods -/

theorem moves_record (s : State) (transport protocol : String) (readInterval : Int) :
    Moves s (recordTransportInterval s transport protocol readInterval) := by
  unfold recordTransportInterval
  split
  · exact .of_eq rfl rfl rfl rfl
  · exact .refl s

/-- A key that is flagged anew has no report. -/
theorem get?_flagPendingRetune (key' : Key) :
    (flagPendingRetune s key).reported.get? key' = s.reported.get? key' ∨
      key' = key ∧ key ∉ s.retuned ∧ s.reported.get? key = none ∧
        (flagPendingRetune s key).reported.get? key' = some [] := by
  unfold flagPendingRetune
  split
  · exact Or.inl rfl
  · next hnew =>
    obtain ⟨hretuned, hmem⟩ := not_or.mp hnew
    rw [Dict.get?_set]
    split
    · next heq => exact Or.inr ⟨heq, hretuned, Dict.get?_eq_none_iff.mpr hmem, rfl⟩
    · exact Or.inl rfl

theorem flagPendingRetune_keeps (s : State) (key : Key) :
    (flagPendingRetune s key).retuned = s.retuned ∧ (flagPendingRetune s key).timers = s.timers ∧
      (flagPendingRetune s key).retuneTimer = s.retuneTimer ∧
      (flagPendingRetune s key).calls = s.calls := by
  unfold flagPendingRetune
  split <;> exact ⟨rfl, rfl, rfl, rfl⟩

theorem moves_flag (s : State) (key : Key) : Moves s (flagPendingRetune s key) := by
  obtain ⟨hretuned, htimers, htimer, -⟩ := flagPendingRetune_keeps s key
  refine ⟨fun key' h => ?_, fun key' h => ?_, fun h => ⟨fun key' hkey' => ?_, fun key' id hid => ?_⟩,
    fun _ h key' => ?_⟩
  · rcases h with h | ⟨ts, hts, hne⟩
    · exact Or.inl (hretuned ▸ h)
    · rcases @get?_flagPendingRetune s key key' with heq | ⟨rfl, -, hnone, -⟩
      · exact Or.inr ⟨ts, heq.trans hts, hne⟩
      · rw [hnone] at hts
        cases hts
  · rcases h with h | ⟨ts, hts⟩
    · exact Or.inl (hretuned ▸ h)
    · rcases @get?_flagPendingRetune s key key' with heq | ⟨-, -, -, heq⟩
      · exact Or.inr ⟨ts, heq.trans hts⟩
      · exact Or.inr ⟨[], heq⟩
  · rw [hretuned] at hkey'
    rcases @get?_flagPendingRetune s key key' with heq | ⟨rfl, hnot, -⟩
    · rw [heq, h.apart key' hkey']
    · exact absurd hkey' hnot
  · rw [htimer] at hid
    obtain ⟨ts, hts, hne⟩ := h.timed key' id hid
    rcases @get?_flagPendingRetune s key key' with heq | ⟨rfl, -, hnone, -⟩
    · exact ⟨ts, heq.trans hts, hne⟩
    · rw [hnone] at hts
      cases hts
  · unfold Refers
    rw [htimer, htimers]
    exact h key'

theorem flagged_flag (s : State) (key : Key) : Flagged (flagPendingRetune s key) key := by
  unfold flagPendingRetune
  split
  · next hor =>
    refine hor.imp id fun hmem => ?_
    cases hget : s.reported.get? key with
    | none => exact absurd hmem (Dict.get?_eq_none_iff.mp hget)
    | some ts => exact ⟨ts, rfl⟩
  · exact Or.inr ⟨[], (Dict.get?_set ..).trans (if_pos rfl)⟩

theorem armed_flag (h : Armed s) : Armed (flagPendingRetune s key) := by
  intro key' ts hts hne
  rw [(flagPendingRetune_keeps s key).2.2.1]
  rcases @get?_flagPendingRetune s key key' with heq | ⟨-, -, -, heq⟩
  · exact h key' ts (heq ▸ hts) hne
  · rw [heq] at hts
    exact absurd (Option.some.inj hts).symm hne

/-! ## Firing -/

/-- A key fires, unless it has fired. -/
theorem fireRetune_cases (s : State) (key : Key) :
    (key ∈ s.retuned ∧ fireRetune s key = (s, [])) ∨
      (key ∉ s.retuned ∧ (fireRetune s key).2 = [key] ∧
        (fireRetune s key).1.retuned = key :: s.retuned ∧
        (fireRetune s key).1.calls = s.calls ∧
        (∀ key', (fireRetune s key).1.reported.get? key' =
          if key' = key then none else s.reported.get? key') ∧
        (∀ key', (fireRetune s key).1.retuneTimer.get? key' =
          if key' = key then none else s.retuneTimer.get? key') ∧
        (fireRetune s key).1.timers = cancelTimer s.timers (s.retuneTimer.get? key)) := by
  have hfilter : ∀ {ν : Type} (d : Dict Key ν) (key' : Key),
      (d.filter fun kv => kv.1 ≠ key).get? key' = if key' = key then none else d.get? key' := by
    intro ν d key'
    split
    · next heq =>
      rw [Dict.get?_filter, heq]
      cases d.get? key <;> simp
    · next hne => exact Dict.get?_filter_ne d hne
  unfold fireRetune
  by_cases hmem : key ∈ s.retuned
  · exact Or.inl ⟨hmem, if_pos hmem⟩
  · rw [if_neg hmem]
    exact Or.inr ⟨hmem, rfl, rfl, rfl, hfilter s.reported, hfilter s.retuneTimer, rfl⟩

/-- Only the key itself fires. -/
theorem eq_of_mem_fired {fired : List Key} {key' : Key} (h : fireRetune s key' = (s', fired))
    (hkey : key ∈ fired) : key = key' := by
  have hout : fired = (fireRetune s key').2 := (congrArg Prod.snd h).symm
  rw [hout] at hkey
  rcases fireRetune_cases s key' with ⟨-, heq⟩ | ⟨-, heq, -⟩
  · rw [heq] at hkey
    cases hkey
  · rw [heq] at hkey
    exact List.mem_singleton.mp hkey

/-- A key fires. Its own timer may have been running already. -/
theorem moves_fire {s₀ : State} (hretuned : s₀.retuned = s.retuned)
    (hreported : s₀.reported = s.reported) (htimer : s₀.retuneTimer = s.retuneTimer)
    (hothers : (∀ key, Refers s key) → (∀ key' ≠ key, Refers s₀ key') ∧
      ∀ id, s₀.retuneTimer.get? key = some id → ∃ phase : Phase, s₀.timers[id]? = some (key, phase)) :
    Moves s (fireRetune s₀ key).1 := by
  have hs₀ : Consistent s → Consistent s₀ := fun h =>
    ⟨by rw [hretuned, hreported]; exact h.apart, by rw [htimer, hreported]; exact h.timed⟩
  rcases fireRetune_cases s₀ key with ⟨hmem, heq⟩ | ⟨hmem, -, hfired, -, hgets, hids, htimers⟩
  · rw [heq]
    refine ⟨fun key' h => ?_, fun key' h => ?_, hs₀, fun h hrefers key' => ?_⟩
    · unfold Heard
      rw [hretuned, hreported]
      exact h
    · unfold Flagged
      rw [hretuned, hreported]
      exact h
    · by_cases hkey : key' = key
      · intro id hid
        obtain ⟨ts, hts, -⟩ := (hs₀ h).timed key' id hid
        rw [hkey, (hs₀ h).apart key hmem] at hts
        cases hts
      · exact (hothers hrefers).1 key' hkey
  · refine ⟨fun key' h => ?_, fun key' h => ?_,
      fun h => ⟨fun key' hkey' => ?_, fun key' id hid => ?_⟩, fun _ hrefers key' id hid => ?_⟩
    · unfold Heard
      rw [hfired, hgets, hretuned, hreported]
      rcases h with h | ⟨ts, hts, hne⟩
      · exact Or.inl (List.mem_cons_of_mem _ h)
      · by_cases hkey : key' = key
        · exact Or.inl (hkey ▸ List.mem_cons_self)
        · exact Or.inr ⟨ts, by rw [if_neg hkey, hts], hne⟩
    · unfold Flagged
      rw [hfired, hgets, hretuned, hreported]
      rcases h with h | ⟨ts, hts⟩
      · exact Or.inl (List.mem_cons_of_mem _ h)
      · by_cases hkey : key' = key
        · exact Or.inl (hkey ▸ List.mem_cons_self)
        · exact Or.inr ⟨ts, by rw [if_neg hkey, hts]⟩
    · rw [hgets]
      split
      · rfl
      · next hne =>
        rw [hfired] at hkey'
        rcases List.mem_cons.mp hkey' with heq | hmem'
        · exact absurd heq hne
        · exact (hs₀ h).apart key' hmem'
    · rw [hids] at hid
      split at hid
      · cases hid
      · next hne =>
        rw [hgets, if_neg hne]
        exact (hs₀ h).timed key' id hid
    · rw [hids] at hid
      split at hid
      · cases hid
      · next hne =>
        obtain ⟨phase, hget, hlive⟩ := (hothers hrefers).1 key' hne id hid
        refine ⟨phase, ?_, hlive⟩
        rw [htimers]
        cases hown : s₀.retuneTimer.get? key with
        | none => exact hget
        | some own =>
          refine getElem?_cancel hget fun heq => ?_
          obtain ⟨phase', hget'⟩ := (hothers hrefers).2 own hown
          rw [← heq, hget] at hget'
          exact hne (Prod.mk.inj (Option.some.inj hget')).1

theorem armed_fire {s₀ : State} (hreported : s₀.reported = s.reported)
    (htimer : s₀.retuneTimer = s.retuneTimer) (h : Armed s) : Armed (fireRetune s₀ key).1 := by
  have hs₀ : Armed s₀ := by
    unfold Armed
    rw [hreported, htimer]
    exact h
  rcases fireRetune_cases s₀ key with ⟨-, heq⟩ | ⟨-, -, -, -, hgets, hids, -⟩
  · rwa [heq]
  · intro key' ts hts hne
    rw [hgets] at hts
    rw [hids]
    split at hts
    · cases hts
    · next hkey =>
      rw [if_neg hkey]
      exact hs₀ key' ts hts hne

/-- What `stop` leaves. -/
theorem moves_stop (s : State) : Moves s (stop s) :=
  ⟨fun _ h => h, fun _ h => h, fun h => ⟨h.apart, fun _ _ hid => (by cases hid)⟩,
    fun _ _ _ _ hid => (by cases hid)⟩

/-- The time of a timer is up. -/
theorem moves_expire {timers : Pool Key} {id : Nat} (h : expire s.timers id = some timers) :
    Moves s { s with timers := timers } := by
  refine ⟨fun _ h => h, fun _ h => h, fun h => ⟨h.apart, h.timed⟩, fun _ hrefers key' id' hid' => ?_⟩
  obtain ⟨phase, hget, hlive⟩ := hrefers key' id' hid'
  obtain ⟨k, hwaiting, rfl⟩ := expire_eq_some_iff.mp h
  by_cases heq : id' = id
  · subst heq
    obtain ⟨rfl, -⟩ := Prod.mk.inj (Option.some.inj (hwaiting.symm.trans hget))
    exact ⟨.expired, getElem?_set_changed hwaiting, rfl⟩
  · exact ⟨phase, by rw [List.getElem?_set_ne (Ne.symm heq), hget], hlive⟩

/-- A timer calls `_fire_retune`. -/
theorem moves_start {timers : Pool Key} {id : Nat}
    (h : Timers.start s.timers id = some (key, timers)) :
    Moves s (fireRetune { s with timers := timers } key).1 := by
  obtain ⟨hexpired, rfl⟩ := start_eq_some_iff.mp h
  refine moves_fire rfl rfl rfl fun hrefers => ⟨fun key' hne id' hid' => ?_, fun id' hid' => ?_⟩
  · obtain ⟨phase, hget, hlive⟩ := hrefers key' id' hid'
    have hother : id' ≠ id := fun heq => by
      rw [heq, hexpired] at hget
      exact hne (Prod.mk.inj (Option.some.inj hget)).1.symm
    exact ⟨phase, by rw [List.getElem?_set_ne (Ne.symm hother), hget], hlive⟩
  · obtain ⟨phase, hget, -⟩ := hrefers key id' hid'
    exact keeps_set hexpired id' key phase hget

/-! ## Every step -/

/-- The next call of a thread. -/
theorem step_fire {n : Nat} {out : List Key} (h : step s (.fire n) = some (s', out)) :
    ∃ key rest, s.calls[n]? = some (key :: rest) ∧
      fireRetune { s with calls := s.calls.set n rest } key = (s', out) := by
  simp only [step] at h
  split at h
  · next key rest hcall => exact ⟨key, rest, hcall, Option.some.inj h⟩
  · cases h

theorem step_moves {i : Step} {out : List Key} (h : step s i = some (s', out)) : Moves s s' := by
  cases i with
  | record transport protocol readInterval =>
    obtain ⟨rfl, -⟩ := Prod.mk.inj (Option.some.inj h)
    exact moves_record ..
  | flag key =>
    obtain ⟨rfl, -⟩ := Prod.mk.inj (Option.some.inj h)
    exact moves_flag ..
  | note transport protocol =>
    obtain ⟨rfl, -⟩ := Prod.mk.inj (Option.some.inj h)
    exact ((moves_report transport (s, []) none).trans (moves_report transport _ _)).trans
      (.of_eq rfl rfl rfl rfl)
  | fire n =>
    obtain ⟨key, rest, -, hfire⟩ := step_fire h
    rw [← (Prod.mk.inj hfire).1]
    refine moves_fire rfl rfl rfl fun hrefers => ⟨fun key' _ => hrefers key', fun id hid => ?_⟩
    obtain ⟨phase, hget, -⟩ := hrefers key id hid
    exact ⟨phase, hget⟩
  | expire id =>
    obtain ⟨timers, hexpire, heq⟩ := Option.map_eq_some_iff.mp h
    obtain ⟨rfl, -⟩ := Prod.mk.inj heq
    exact moves_expire hexpire
  | start id =>
    obtain ⟨⟨key, timers⟩, hstart, heq⟩ := Option.map_eq_some_iff.mp h
    rw [← (Prod.mk.inj heq).1]
    exact moves_start hstart
  | stop =>
    obtain ⟨rfl, -⟩ := Prod.mk.inj (Option.some.inj h)
    exact moves_stop s

theorem step_armed {i : Step} {out : List Key} (hi : i ≠ .stop) (h : step s i = some (s', out))
    (harmed : Armed s) : Armed s' := by
  cases i with
  | record transport protocol readInterval =>
    obtain ⟨rfl, -⟩ := Prod.mk.inj (Option.some.inj h)
    unfold recordTransportInterval
    split <;> exact harmed
  | flag key =>
    obtain ⟨rfl, -⟩ := Prod.mk.inj (Option.some.inj h)
    exact armed_flag harmed
  | note transport protocol =>
    obtain ⟨rfl, -⟩ := Prod.mk.inj (Option.some.inj h)
    exact armed_report transport _ _ (armed_report transport (s, []) none harmed)
  | fire n =>
    obtain ⟨key, rest, -, hfire⟩ := step_fire h
    rw [← (Prod.mk.inj hfire).1]
    exact @armed_fire s key _ rfl rfl harmed
  | expire id =>
    obtain ⟨timers, hexpire, heq⟩ := Option.map_eq_some_iff.mp h
    obtain ⟨rfl, -⟩ := Prod.mk.inj heq
    exact harmed
  | start id =>
    obtain ⟨⟨key, timers⟩, hstart, heq⟩ := Option.map_eq_some_iff.mp h
    rw [← (Prod.mk.inj heq).1]
    exact @armed_fire s key _ rfl rfl harmed
  | stop => exact absurd rfl hi

/-! ## The history of a run -/

/-- Is a report by a transport of a protocol one to the key? -/
def Concerns (key : Key) (protocol : String) : Prop := key = none ∨ key = some protocol

/-- A transport reported to a key. -/
def Reported (steps : List Step) (key : Key) (transport : String) : Prop :=
  ∃ protocol, Concerns key protocol ∧ .note transport protocol ∈ steps

/-- A report came after which every transport that was recorded for the key had reported. -/
def Decided (steps : List Step) (key : Key) : Prop :=
  ∃ before t p after s out, steps = before ++ .note t p :: after ∧ Concerns key p ∧
    run .init (before ++ [.note t p]) = some (s, out) ∧
    ∀ t' ∈ s.expected key, Reported (before ++ [.note t p]) key t'

/-- The timer was armed when the first report to its key came, and these are the steps since. -/
def ArmedAtFirst (steps : List Step) (key : Key) (id : Nat) (since : List Step) : Prop :=
  ∃ before t p s out s' out', steps = before ++ .note t p :: since ∧ Concerns key p ∧
    run .init before = some (s, out) ∧ s.reported.get? key = some [] ∧
    step s (.note t p) = some (s', out') ∧ s.timers[id]? = none ∧
    s'.timers[id]? = some (key, .waiting)

/-- What the history of a run says about the state it leads to. -/
structure Sound (steps : List Step) (s : State) (out : List Key) : Prop where
  consistent : Consistent s
  refers : ∀ key, Refers s key
  armed : Step.stop ∉ steps → Armed s
  fired : ∀ key, key ∈ s.retuned ↔ key ∈ out
  once : out.Nodup
  reports : ∀ key ts, s.reported.get? key = some ts → ∀ t ∈ ts, Reported steps key t
  calls : ∀ call ∈ s.calls, ∀ key ∈ call, Decided steps key
  timers : ∀ (id : Nat) (key : Key) (phase : Phase), s.timers[id]? = some (key, phase) →
    ∃ since, ArmedAtFirst steps key id since ∧ (phase = .expired → .expire id ∈ since)

theorem Reported.append {steps : List Step} {t : String} (h : Reported steps key t)
    (later : List Step) : Reported (steps ++ later) key t := by
  obtain ⟨p, hp, hmem⟩ := h
  exact ⟨p, hp, List.mem_append_left _ hmem⟩

theorem Decided.append {steps : List Step} (h : Decided steps key) (later : List Step) :
    Decided (steps ++ later) key := by
  obtain ⟨before, t, p, after, s, out, rfl, h⟩ := h
  exact ⟨before, t, p, after ++ later, s, out, by simp, h⟩

theorem ArmedAtFirst.append {steps since : List Step} {id : Nat}
    (h : ArmedAtFirst steps key id since) (later : List Step) :
    ArmedAtFirst (steps ++ later) key id (since ++ later) := by
  obtain ⟨before, t, p, s, out, s', out', rfl, h⟩ := h
  exact ⟨before, t, p, s, out, s', out', by simp, h⟩

/-! ### What a report adds -/

theorem expected_congr (h : s'.intervals = s.intervals) (key : Key) :
    s'.expected key = s.expected key := by
  unfold State.expected
  rw [h]

theorem reportTo_keeps {reported : List String} (transport : String) :
    (reportTo s transport key reported).intervals = s.intervals ∧
      (reportTo s transport key reported).calls = s.calls := by
  unfold reportTo
  split
  · exact (startRetuneTimerIfNeeded_keeps _ _).2.2
  · exact ⟨rfl, rfl⟩

theorem report_keeps (transport : String) (r : State × List Key) (key : Key) :
    (report transport r key).1.intervals = r.1.intervals ∧
      (report transport r key).1.calls = r.1.calls ∧
      (report transport r key).1.retuned = r.1.retuned := by
  rcases report_cases transport r key with ⟨heq, -⟩ | ⟨reported, -, -, heq, -⟩
  · rw [heq]
    exact ⟨rfl, rfl, rfl⟩
  · rw [heq]
    exact ⟨(reportTo_keeps transport).1, (reportTo_keeps transport).2, retuned_reportTo transport⟩

/-- A report to one key leaves those to another as they are. -/
theorem get?_report_of_ne (transport : String) (r : State × List Key) {key key' : Key}
    (hne : key' ≠ key) :
    (report transport r key).1.reported.get? key' = r.1.reported.get? key' := by
  rcases report_cases transport r key with ⟨heq, -⟩ | ⟨reported, -, -, heq, -⟩
  · rw [heq]
  · rw [heq, get?_reportTo, if_neg hne]

/-- A report to a key arms a timer only if it is the first. -/
theorem timers_report (transport : String) (r : State × List Key) (key : Key) :
    (report transport r key).1.timers = r.1.timers ∨
      r.1.reported.get? key = some [] ∧
        (report transport r key).1.timers = arm r.1.timers key := by
  rcases report_cases transport r key with ⟨heq, -⟩ | ⟨reported, hget, -, heq, -⟩
  · exact Or.inl (by rw [heq])
  · rw [heq]
    unfold reportTo
    split
    · next hnil =>
      exact (timers_startRetuneTimerIfNeeded _ _).imp id fun heq => ⟨hnil ▸ hget, heq⟩
    · exact Or.inl rfl

section

variable {steps : List Step} {t p : String}

/-- The reports that are kept for a key were made. -/
theorem reports_report (r : State × List Key) (hkey : Concerns key p)
    (hmem : .note t p ∈ steps)
    (h : ∀ key ts, r.1.reported.get? key = some ts → ∀ t ∈ ts, Reported steps key t) :
    ∀ key' ts, (report t r key).1.reported.get? key' = some ts →
      ∀ t' ∈ ts, Reported steps key' t' := by
  intro key' ts hts t' ht'
  rcases report_cases t r key with ⟨heq, -⟩ | ⟨reported, hget, -, heq, -⟩
  · rw [heq] at hts
    exact h key' ts hts t' ht'
  · rw [heq, get?_reportTo] at hts
    split at hts
    · next hkey' =>
      obtain rfl := Option.some.inj hts
      rw [hkey']
      rcases List.mem_insert_iff.mp ht' with rfl | hold
      · exact ⟨p, hkey, hmem⟩
      · exact h key reported hget t' hold
    · exact h key' ts hts t' ht'

/-- A key that is to fire after a report has all the reports it waits for. -/
theorem decided_report (r : State × List Key) (hkey : Concerns key p)
    (hmem : .note t p ∈ steps)
    (h : ∀ key ts, r.1.reported.get? key = some ts → ∀ t ∈ ts, Reported steps key t)
    {key' : Key} (hdecided : key' ∈ (report t r key).2) :
    key' ∈ r.2 ∨ key' = key ∧ ∀ t' ∈ r.1.expected key, Reported steps key t' := by
  rcases report_cases t r key with ⟨heq, -⟩ | ⟨reported, hget, -, -, heq | ⟨heq, hall⟩⟩
  · rw [heq] at hdecided
    exact Or.inl hdecided
  · rw [heq] at hdecided
    exact Or.inl hdecided
  · rw [heq] at hdecided
    refine (List.mem_append.mp hdecided).imp id fun hlast => ⟨List.mem_singleton.mp hlast, ?_⟩
    intro t' ht'
    rw [← expected_congr (reportTo_keeps t).1] at ht'
    rcases List.mem_insert_iff.mp (hall t' ht') with rfl | hold
    · exact ⟨p, hkey, hmem⟩
    · exact h key reported hget t' hold

end

/-! ### What a step adds -/

/-- A note: the two reports, and the call that is left. -/
theorem step_note {t p : String} {out : List Key} (h : step s (.note t p) = some (s', out)) :
    out = [] ∧
      (report t (report t (s, []) none) (some p)).1.reported = s'.reported ∧
      (report t (report t (s, []) none) (some p)).1.timers = s'.timers ∧
      s'.retuned = s.retuned ∧ s'.intervals = s.intervals ∧
      s'.calls = s.calls ++ [(report t (report t (s, []) none) (some p)).2] := by
  obtain ⟨hs', hout⟩ := Prod.mk.inj (Option.some.inj h)
  obtain ⟨hintervals, hcalls, hretuned⟩ := report_keeps t (s, []) none
  obtain ⟨hintervals', hcalls', hretuned'⟩ := report_keeps t (report t (s, []) none) (some p)
  rw [← hs']
  refine ⟨hout.symm, rfl, rfl, ?_, ?_, ?_⟩
  · exact hretuned'.trans hretuned
  · exact hintervals'.trans hintervals
  · exact congrArg (· ++ _) (hcalls'.trans hcalls)

/-- Firing starts no timer. -/
theorem subsides_fireRetune (s : State) (key : Key) :
    Subsides s.timers (fireRetune s key).1.timers := by
  rcases fireRetune_cases s key with ⟨-, heq⟩ | ⟨-, -, -, -, -, -, heq⟩
  · rw [heq]
    exact .refl _
  · rw [heq]
    cases s.retuneTimer.get? key with
    | none => exact .refl _
    | some own => exact subsides_cancel _ own

theorem subsides_cancelAll (items : List (Key × Nat)) (timers : Pool Key) :
    Subsides timers (items.foldl (fun timers kv => cancel timers kv.2) timers) := by
  induction items generalizing timers with
  | nil => exact .refl timers
  | cons kv items ih => exact (subsides_cancel timers kv.2).trans (ih _)

/-- A timer that is there after a report was there before, or this is the first report to its key. -/
theorem getElem?_timers_report {transport : String} {r : State × List Key} {key key' : Key}
    {id : Nat} {phase : Phase}
    (h : (report transport r key).1.timers[id]? = some (key', phase)) :
    r.1.timers[id]? = some (key', phase) ∨
      key' = key ∧ r.1.reported.get? key = some [] ∧ id = r.1.timers.length ∧
        phase = Phase.waiting := by
  rcases timers_report transport r key with heq | ⟨hnil, heq⟩
  · rw [heq] at h
    exact Or.inl h
  · rw [heq] at h
    refine (getElem?_arm_eq_some h).imp (fun hold => hold) fun hnew => ?_
    exact ⟨hnew.2.1, hnil, hnew.1, hnew.2.2⟩

/-- A timer that is there after a note was there before, or this was the first report to its key. -/
theorem note_timers {t p : String} {out : List Key} (h : step s (.note t p) = some (s', out))
    {id : Nat} {phase : Phase} (hget : s'.timers[id]? = some (key, phase)) :
    s.timers[id]? = some (key, phase) ∨
      Concerns key p ∧ s.reported.get? key = some [] ∧ s.timers[id]? = none ∧
        phase = Phase.waiting := by
  obtain ⟨-, -, htimers, -⟩ := step_note h
  rw [← htimers] at hget
  rcases getElem?_timers_report hget with hfirst | ⟨rfl, hnil, hid, hphase⟩
  · rcases getElem?_timers_report hfirst with hold | ⟨rfl, hnil, hid, hphase⟩
    · exact Or.inl hold
    · exact Or.inr ⟨Or.inl rfl, hnil, List.getElem?_eq_none (Nat.le_of_eq hid.symm), hphase⟩
  · have hlonger : s.timers.length ≤ (report t (s, []) none).1.timers.length := by
      rcases timers_report t (s, []) none with heq | ⟨-, heq⟩
      · exact Nat.le_of_eq (congrArg List.length heq).symm
      · rw [heq, arm, List.length_append]
        exact Nat.le_add_right ..
    rw [get?_report_of_ne t (s, []) (by simp)] at hnil
    exact Or.inr ⟨Or.inr rfl, hnil, List.getElem?_eq_none (Nat.le_trans hlonger (Nat.le_of_eq hid.symm)), hphase⟩

/-- Where the timers of a state come from. -/
theorem step_timers {i : Step} {out : List Key} (h : step s i = some (s', out)) {id : Nat}
    {phase' : Phase} (hget : s'.timers[id]? = some (key, phase')) :
    (∃ phase : Phase, s.timers[id]? = some (key, phase) ∧
        (phase' = .expired → phase = .expired ∨ i = .expire id)) ∨
      ∃ t p, i = .note t p ∧ Concerns key p ∧ s.reported.get? key = some [] ∧
        s.timers[id]? = none ∧ phase' = Phase.waiting := by
  have hsubsides : Subsides s.timers s'.timers →
      ∃ phase : Phase, s.timers[id]? = some (key, phase) ∧
        (phase' = .expired → phase = .expired ∨ i = .expire id) := by
    intro hs
    obtain ⟨phase, hold, himp⟩ := hs id key phase' hget
    exact ⟨phase, hold, fun heq => Or.inl (himp heq)⟩
  cases i with
  | record transport protocol readInterval =>
    obtain ⟨rfl, -⟩ := Prod.mk.inj (Option.some.inj h)
    refine Or.inl (hsubsides ?_)
    unfold recordTransportInterval
    split <;> exact .refl _
  | flag key' =>
    obtain ⟨rfl, -⟩ := Prod.mk.inj (Option.some.inj h)
    refine Or.inl (hsubsides ?_)
    rw [(flagPendingRetune_keeps s key').2.1]
    exact .refl _
  | note t p =>
    refine (note_timers h hget).imp (fun hold => ⟨phase', hold, Or.inl⟩) fun hnew => ?_
    exact ⟨t, p, rfl, hnew⟩
  | fire n =>
    obtain ⟨key', rest, -, hfired⟩ := step_fire h
    rw [← (Prod.mk.inj hfired).1] at hsubsides
    exact Or.inl (hsubsides (subsides_fireRetune { s with calls := s.calls.set n rest } key'))
  | expire id' =>
    obtain ⟨timers, hexpire, heq⟩ := Option.map_eq_some_iff.mp h
    obtain ⟨rfl, -⟩ := Prod.mk.inj heq
    obtain ⟨k, hwaiting, rfl⟩ := expire_eq_some_iff.mp hexpire
    refine Or.inl ?_
    by_cases hid : id = id'
    · subst hid
      rw [getElem?_set_changed hwaiting] at hget
      obtain ⟨rfl, -⟩ := Prod.mk.inj (Option.some.inj hget)
      exact ⟨Phase.waiting, hwaiting, fun _ => Or.inr rfl⟩
    · rw [List.getElem?_set_ne (Ne.symm hid)] at hget
      exact ⟨phase', hget, Or.inl⟩
  | start id' =>
    obtain ⟨⟨key', timers⟩, hstart, heq⟩ := Option.map_eq_some_iff.mp h
    rw [← (Prod.mk.inj heq).1] at hsubsides
    exact Or.inl (hsubsides ((subsides_start hstart).trans
      (subsides_fireRetune { s with timers := timers } key')))
  | stop =>
    obtain ⟨rfl, -⟩ := Prod.mk.inj (Option.some.inj h)
    exact Or.inl (hsubsides (subsides_cancelAll s.retuneTimer.items s.timers))

/-- At most one key fires in a step, and it did not fire before. -/
theorem step_fired {i : Step} {out : List Key} (h : step s i = some (s', out)) :
    (out = [] ∧ s'.retuned = s.retuned) ∨
      ∃ key, out = [key] ∧ key ∉ s.retuned ∧ s'.retuned = key :: s.retuned := by
  have hfire : ∀ {s₀ : State} {key : Key}, s₀.retuned = s.retuned →
      fireRetune s₀ key = (s', out) → (out = [] ∧ s'.retuned = s.retuned) ∨
        ∃ key, out = [key] ∧ key ∉ s.retuned ∧ s'.retuned = key :: s.retuned := by
    intro s₀ key hs₀ hfired
    rcases fireRetune_cases s₀ key with ⟨-, heq⟩ | ⟨hnew, hout, hretuned, -⟩
    · obtain ⟨rfl, rfl⟩ := Prod.mk.inj (hfired.symm.trans heq)
      exact Or.inl ⟨rfl, hs₀⟩
    · rw [hfired] at hout hretuned
      exact Or.inr ⟨key, hout, hs₀ ▸ hnew, hs₀ ▸ hretuned⟩
  cases i with
  | record transport protocol readInterval =>
    obtain ⟨rfl, rfl⟩ := Prod.mk.inj (Option.some.inj h)
    refine Or.inl ⟨rfl, ?_⟩
    unfold recordTransportInterval
    split <;> rfl
  | flag key =>
    obtain ⟨rfl, rfl⟩ := Prod.mk.inj (Option.some.inj h)
    exact Or.inl ⟨rfl, (flagPendingRetune_keeps s key).1⟩
  | note t p => exact Or.inl ⟨(step_note h).1, (step_note h).2.2.2.1⟩
  | fire n =>
    obtain ⟨key, rest, -, hfired⟩ := step_fire h
    exact @hfire { s with calls := s.calls.set n rest } key rfl hfired
  | expire id =>
    obtain ⟨timers, -, heq⟩ := Option.map_eq_some_iff.mp h
    obtain ⟨rfl, rfl⟩ := Prod.mk.inj heq
    exact Or.inl ⟨rfl, rfl⟩
  | start id =>
    obtain ⟨⟨key, timers⟩, -, heq⟩ := Option.map_eq_some_iff.mp h
    exact @hfire { s with timers := timers } key rfl heq
  | stop =>
    obtain ⟨rfl, rfl⟩ := Prod.mk.inj (Option.some.inj h)
    exact Or.inl ⟨rfl, rfl⟩

/-- A report that is kept was kept before, or a note made it. -/
theorem step_reports {steps : List Step} {i : Step} {out : List Key}
    (h : step s i = some (s', out)) (hi : i ∈ steps)
    (hs : ∀ key ts, s.reported.get? key = some ts → ∀ t ∈ ts, Reported steps key t) :
    ∀ key ts, s'.reported.get? key = some ts → ∀ t ∈ ts, Reported steps key t := by
  have hfire : ∀ {s₀ : State} {key : Key}, s₀.reported = s.reported →
      fireRetune s₀ key = (s', out) →
      ∀ key ts, s'.reported.get? key = some ts → ∀ t ∈ ts, Reported steps key t := by
    intro s₀ key hs₀ hfired key' ts hts
    rcases fireRetune_cases s₀ key with ⟨-, heq⟩ | ⟨-, -, -, -, hgets, -⟩
    · rw [(Prod.mk.inj (hfired.symm.trans heq)).1, hs₀] at hts
      exact hs key' ts hts
    · rw [hfired] at hgets
      rw [hgets, hs₀] at hts
      split at hts
      · cases hts
      · exact hs key' ts hts
  cases i with
  | record transport protocol readInterval =>
    obtain ⟨rfl, -⟩ := Prod.mk.inj (Option.some.inj h)
    unfold recordTransportInterval
    split <;> exact hs
  | flag key =>
    obtain ⟨rfl, -⟩ := Prod.mk.inj (Option.some.inj h)
    intro key' ts hts t ht
    rcases @get?_flagPendingRetune s key key' with heq | ⟨-, -, -, heq⟩
    · exact hs key' ts (heq ▸ hts) t ht
    · rw [heq] at hts
      obtain rfl := Option.some.inj hts
      cases ht
  | note t p =>
    obtain ⟨-, hreported, -⟩ := step_note h
    rw [← hreported]
    exact reports_report _ (Or.inr rfl) hi (reports_report (s, []) (Or.inl rfl) hi hs)
  | fire n =>
    obtain ⟨key, rest, -, hfired⟩ := step_fire h
    exact @hfire { s with calls := s.calls.set n rest } key rfl hfired
  | expire id =>
    obtain ⟨timers, -, heq⟩ := Option.map_eq_some_iff.mp h
    obtain ⟨rfl, -⟩ := Prod.mk.inj heq
    exact hs
  | start id =>
    obtain ⟨⟨key, timers⟩, -, heq⟩ := Option.map_eq_some_iff.mp h
    exact @hfire { s with timers := timers } key rfl heq
  | stop =>
    obtain ⟨rfl, -⟩ := Prod.mk.inj (Option.some.inj h)
    exact hs

/-- A call that is left was left before, or a note decided it. -/
theorem step_calls {steps : List Step} {i : Step} {out : List Key}
    (h : step s i = some (s', out)) (hi : i ∈ steps)
    (hs : ∀ key ts, s.reported.get? key = some ts → ∀ t ∈ ts, Reported steps key t)
    {call : List Key} (hcall : call ∈ s'.calls) (hkey : key ∈ call) :
    (∃ call ∈ s.calls, key ∈ call) ∨ ∃ t p, i = .note t p ∧ Concerns key p ∧
      ∀ t' ∈ s'.expected key, Reported steps key t' := by
  have hfire : ∀ {s₀ : State} {key₀ : Key}, fireRetune s₀ key₀ = (s', out) →
      s'.calls = s₀.calls := by
    intro s₀ key₀ hfired
    rcases fireRetune_cases s₀ key₀ with ⟨-, heq⟩ | ⟨-, -, -, hcalls, -⟩
    · rw [(Prod.mk.inj (hfired.symm.trans heq)).1]
    · rwa [hfired] at hcalls
  cases i with
  | record transport protocol readInterval =>
    obtain ⟨rfl, -⟩ := Prod.mk.inj (Option.some.inj h)
    refine Or.inl ⟨call, ?_, hkey⟩
    unfold recordTransportInterval at hcall
    split at hcall <;> exact hcall
  | flag key' =>
    obtain ⟨rfl, -⟩ := Prod.mk.inj (Option.some.inj h)
    exact Or.inl ⟨call, (flagPendingRetune_keeps s key').2.2.2 ▸ hcall, hkey⟩
  | note t p =>
    obtain ⟨-, -, -, -, hintervals, hcalls⟩ := step_note h
    rw [hcalls] at hcall
    rcases List.mem_append.mp hcall with hold | hnew
    · exact Or.inl ⟨call, hold, hkey⟩
    · obtain rfl := List.mem_singleton.mp hnew
      have hreports := reports_report (s, []) (Or.inl rfl) hi hs
      have hexpected : ∀ key', (report t (s, []) none).1.expected key' = s'.expected key' :=
        fun key' => expected_congr ((report_keeps t (s, []) none).1.trans hintervals.symm) key'
      refine Or.inr ⟨t, p, rfl, ?_⟩
      rcases decided_report _ (Or.inr rfl) hi hreports hkey with hfirst | ⟨rfl, hall⟩
      · rcases decided_report (s, []) (Or.inl rfl) hi hs hfirst with hnil | ⟨rfl, hall⟩
        · cases hnil
        · exact ⟨Or.inl rfl, fun t' ht' => hall t' (expected_congr hintervals none ▸ ht')⟩
      · exact ⟨Or.inr rfl, fun t' ht' => hall t' (hexpected _ ▸ ht')⟩
  | fire n =>
    obtain ⟨key', rest, hget, hfired⟩ := step_fire h
    rw [@hfire { s with calls := s.calls.set n rest } key' hfired] at hcall
    rcases List.mem_or_eq_of_mem_set hcall with hold | rfl
    · exact Or.inl ⟨call, hold, hkey⟩
    · exact Or.inl ⟨key' :: call, List.mem_of_getElem? hget, List.mem_cons_of_mem _ hkey⟩
  | expire id =>
    obtain ⟨timers, -, heq⟩ := Option.map_eq_some_iff.mp h
    obtain ⟨rfl, -⟩ := Prod.mk.inj heq
    exact Or.inl ⟨call, hcall, hkey⟩
  | start id =>
    obtain ⟨⟨key', timers⟩, -, heq⟩ := Option.map_eq_some_iff.mp h
    rw [@hfire { s with timers := timers } key' heq] at hcall
    exact Or.inl ⟨call, hcall, hkey⟩
  | stop =>
    obtain ⟨rfl, -⟩ := Prod.mk.inj (Option.some.inj h)
    exact Or.inl ⟨call, hcall, hkey⟩

theorem sound_init : Sound [] .init [] where
  consistent := ⟨fun _ h => (by cases h), fun _ _ h => (by cases h)⟩
  refers _ _ h := by cases h
  armed _ _ _ h := by cases h
  fired key := Iff.rfl
  once := List.nodup_nil
  reports _ _ h := by cases h
  calls _ h := by cases h
  timers id key phase h := by simp [State.init] at h

/-- A step after a run. -/
theorem Sound.step {steps : List Step} {i : Step} {out out' : List Key}
    (hrun : run .init steps = some (s, out)) (hs : Sound steps s out)
    (h : step s i = some (s', out')) : Sound (steps ++ [i]) s' (out ++ out') := by
  have hmoves := step_moves h
  have hi : i ∈ steps ++ [i] := List.mem_append_right _ (List.mem_singleton_self i)
  have hreports : ∀ key ts, s.reported.get? key = some ts →
      ∀ t ∈ ts, Reported (steps ++ [i]) key t :=
    fun key ts hts t ht => (hs.reports key ts hts t ht).append [i]
  have hfired := step_fired h
  refine ⟨hmoves.consistent hs.consistent, hmoves.refers hs.consistent hs.refers, fun hstop => ?_,
    fun key => ?_, ?_, step_reports h hi hreports, fun call hcall key hkey => ?_,
    fun id key phase hget => ?_⟩
  · have hstop' : Step.stop ∉ steps := fun hmem => hstop (List.mem_append_left _ hmem)
    exact step_armed (fun heq => hstop (heq ▸ hi)) h (hs.armed hstop')
  · rw [List.mem_append, ← hs.fired]
    rcases hfired with ⟨rfl, heq⟩ | ⟨key', rfl, -, heq⟩
    · rw [heq]
      simp
    · rw [heq, List.mem_cons, List.mem_singleton, or_comm]
  · rcases hfired with ⟨rfl, -⟩ | ⟨key', rfl, hnew, -⟩
    · rw [List.append_nil]
      exact hs.once
    · refine List.nodup_append.mpr ⟨hs.once, List.nodup_singleton key', fun a ha b hb heq => ?_⟩
      rw [heq, List.mem_singleton.mp hb] at ha
      exact hnew ((hs.fired key').mpr ha)
  · rcases step_calls h hi hreports hcall hkey with ⟨call', hcall', hkey'⟩ | ⟨t, p, rfl, hp, hall⟩
    · exact (hs.calls call' hcall' key hkey').append [i]
    · have hrun' : run .init (steps ++ [.note t p]) = some (s', out ++ out') :=
        emit_append_eq_some_iff.mpr ⟨s, out, out', hrun, (emit_singleton s _).trans h, rfl⟩
      exact ⟨steps, t, p, [], s', out ++ out', rfl, hp, hrun', hall⟩
  · rcases step_timers h hget with ⟨phase', hold, hup⟩ | ⟨t, p, rfl, hp, hnil, hnone, rfl⟩
    · obtain ⟨since, harmed, hexpired⟩ := hs.timers id key phase' hold
      refine ⟨since ++ [i], harmed.append [i], fun heq => ?_⟩
      rcases hup heq with hbefore | hnow
      · exact List.mem_append_left _ (hexpired hbefore)
      · exact List.mem_append_right _ (List.mem_singleton.mpr hnow.symm)
    · exact ⟨[], ⟨steps, t, p, s, out, s', out', rfl, hp, hrun, hnil, h, hnone, hget⟩,
        fun heq => (by cases heq)⟩

/-- Every run leads to a state that its history describes. -/
theorem sound_run {steps : List Step} {out : List Key} (h : run .init steps = some (s, out)) :
    Sound steps s out :=
  emit_invariant sound_init (fun _ _ _ _ _ _ hrun hs hstep => hs.step hrun hstep) h

/-- What every step keeps, the steps of a run keep. -/
theorem moves_run {steps : List Step} {out : List Key} (h : run s steps = some (s', out)) :
    Moves s s' := by
  induction steps generalizing s out with
  | nil =>
    obtain ⟨rfl, -⟩ := Prod.mk.inj (Option.some.inj h)
    exact .refl s
  | cons i steps ih =>
    obtain ⟨s₁, out₁, out₂, hstep, hrest, -⟩ := emit_cons_eq_some_iff.mp h
    exact (step_moves hstep).trans (ih hrest)

/-- After a note, a key that it concerns and that was flagged has a report or fired. -/
theorem heard_note {t p : String} {out : List Key} (h : step s (.note t p) = some (s', out))
    (hp : Concerns key p) (hflagged : Flagged s key) : Heard s' key := by
  obtain ⟨hs', -⟩ := Prod.mk.inj (Option.some.inj h)
  rw [← hs']
  have hlast : Heard (report t (report t (s, []) none) (some p)).1 key := by
    rcases hp with rfl | rfl
    · exact (moves_report t _ _).heard none (heard_report t (s, []) none hflagged)
    · exact heard_report t _ _ ((moves_report t (s, []) none).flagged (some p) hflagged)
  exact hlast

/-! ## The retune -/

/-- **A retune fires once, not too early, and is not missed.** In every run: a key fires at most once;
it fires by a call that was decided when every transport recorded for it had reported, or by the timer
that its first report armed, after its time was up; and until `stop`, a key that was flagged and got a
report since has fired, or a timer that will fire it is running. -/
theorem retune_amended (steps : List Step) (s : State) (out : List Key)
    (hrun : run .init steps = some (s, out)) :
    out.Nodup ∧
    (∀ before i after s₁ out₁ s₂ fired, steps = before ++ i :: after →
      run .init before = some (s₁, out₁) → step s₁ i = some (s₂, fired) → ∀ key ∈ fired,
        (∃ n, i = .fire n) ∧ Decided before key ∨
        ∃ id since, i = .start id ∧ ArmedAtFirst before key id since ∧ .expire id ∈ since) ∧
    (∀ key before middle after t p, .stop ∉ steps →
      steps = before ++ .flag key :: middle ++ .note t p :: after → Concerns key p →
        key ∈ out ∨ ∃ (id : Nat) (phase : Phase),
          s.timers[id]? = some (key, phase) ∧ phase.live = true) := by
  have hsound := sound_run hrun
  refine ⟨hsound.once, ?_, ?_⟩
  · intro before i after s₁ out₁ s₂ fired _ hbefore hstep key hkey
    have hs₁ := sound_run hbefore
    cases i with
    | record transport protocol readInterval =>
      rw [← (Prod.mk.inj (Option.some.inj hstep)).2] at hkey
      cases hkey
    | flag key =>
      rw [← (Prod.mk.inj (Option.some.inj hstep)).2] at hkey
      cases hkey
    | note t p =>
      rw [(step_note hstep).1] at hkey
      cases hkey
    | fire n =>
      obtain ⟨key', rest, hcall, hfired⟩ := step_fire hstep
      refine Or.inl ⟨⟨n, rfl⟩, hs₁.calls _ (List.mem_of_getElem? hcall) key ?_⟩
      rw [eq_of_mem_fired hfired hkey]
      exact List.mem_cons_self
    | expire id =>
      obtain ⟨timers, -, heq⟩ := Option.map_eq_some_iff.mp hstep
      rw [← (Prod.mk.inj heq).2] at hkey
      cases hkey
    | start id =>
      obtain ⟨⟨key', timers⟩, hstart, hfired⟩ := Option.map_eq_some_iff.mp hstep
      have hkey' : key = key' := eq_of_mem_fired hfired hkey
      obtain ⟨since, harmed, hexpired⟩ :=
        hs₁.timers id key' .expired (start_eq_some_iff.mp hstart).1
      exact Or.inr ⟨id, since, rfl, hkey' ▸ harmed, hexpired rfl⟩
    | stop =>
      rw [← (Prod.mk.inj (Option.some.inj hstep)).2] at hkey
      cases hkey
  · intro key before middle after t p hstop hsteps hp
    rw [hsteps] at hrun
    obtain ⟨s₁, out₁, out₂, hfirst, hrest, -⟩ := emit_append_eq_some_iff.mp hrun
    obtain ⟨s₀, out₀, out₀', hbefore, hmiddle, -⟩ := emit_append_eq_some_iff.mp hfirst
    obtain ⟨s₀', out₃, out₄, hflag, hmiddle', -⟩ := emit_cons_eq_some_iff.mp hmiddle
    obtain ⟨s₂, out₅, out₆, hnote, hafter, -⟩ := emit_cons_eq_some_iff.mp hrest
    have hflagged : Flagged s₁ key := by
      refine (moves_run hmiddle').flagged key ?_
      obtain ⟨rfl, -⟩ := Prod.mk.inj (Option.some.inj hflag)
      exact flagged_flag s₀ key
    have hheard : Heard s key := (moves_run hafter).heard key (heard_note hnote hp hflagged)
    rcases hheard with hfired | ⟨ts, hts, hne⟩
    · exact Or.inl ((hsound.fired key).mp hfired)
    · obtain ⟨id, hid⟩ := hsound.armed hstop key ts hts hne
      obtain ⟨phase, hget, hlive⟩ := hsound.refers key id hid
      exact Or.inr ⟨id, phase, hget, hlive⟩

/-- A wide table that was flagged fires after the report of its only transport. -/
theorem retune_amended_fires : ∃ s,
    run .init [.record "a" "p" 1, .flag (some "p"), .note "a" "p", .fire 0] = some (s, [some "p"]) ∧
    [some "p"].Nodup := by
  have hrun : ∃ s, run .init [.record "a" "p" 1, .flag (some "p"), .note "a" "p", .fire 0] =
      some (s, [some "p"]) := ⟨_, rfl⟩
  obtain ⟨s, hrun⟩ := hrun
  exact ⟨s, hrun, (retune_amended _ s _ hrun).1⟩

/-- A report that comes before the flag is forgotten: every transport that is recorded has reported, and
nothing fired, nothing is decided and no timer is running. -/
theorem reported_before_flag : ∃ s,
    run .init [.record "a" "p" 1, .note "a" "p", .flag (some "p")] = some (s, []) ∧
    s.expected (some "p") = ["a"] ∧ Flagged s (some "p") ∧ s.calls = [[]] ∧ s.timers = [] := by
  refine ⟨_, rfl, rfl, Or.inr ⟨[], rfl⟩, rfl, rfl⟩

end Retune

end ProtocolGateway
