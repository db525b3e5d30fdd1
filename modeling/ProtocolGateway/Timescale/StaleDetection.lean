import ProtocolGateway.Lib.Reports
import ProtocolGateway.Timescale.Flush

/-!
# Stale data on its way to TimescaleDB

The flush worker judges every live batch before it writes it. `_check_is_stale` compares the row
with the one remembered and measures the time since; a batch that is not stale is written, and
`_commit_transport_state` then restarts the clock of the transport with it, whether its row changed
or not. A stale batch is not written and goes to `_handle_stale_event`.

* `flushBatch` — the judgement of one batch and what is remembered of it.
* `Flushed` — the batches of a transport one after the other, each write succeeding.
* `detects_iff` — the runs in which a batch is found stale exactly if its data is out of date.
* `remembers_flushOneInner` — the flush worker remembers what `flushBatch` does.
-/

namespace ProtocolGateway

namespace Timescale

open Throttle Reports

variable (host : Host)

/-! ## The registry -/

/-- The settings of the detection, as the bridge reads them. -/
def staleSettings (staleDataTimeout maxStaleAttempts retryDelayMins : Int)
    (requestUpstreamReconnect : Bool) : StaleSettings where
  staleDataTimeout := staleDataTimeout
  maxStaleAttempts := max 0 maxStaleAttempts
  retryDelayMins := retryDelayMins
  requestUpstreamReconnect := requestUpstreamReconnect
  alertPrefix := ""
  alertTitle := "MPG Stale Event Alert"

/-- `_check_is_stale`. -/
def checkIsStale (cfg : StaleSettings) (registry : Dict String StaleRegistryState)
    (transportId : String) (row : List (String × PyValue)) (timestamp : DateTime) :
    Except PyError Bool :=
  match registry.get? transportId with
  | none => .ok false
  | some state => do
    if ← rowUnchanged host state.lastRow row then
      return decide (cfg.staleDataTimeout * 1000000 < timestamp.instant - state.startTs.instant)
    else return false

/-- `_commit_transport_state`. -/
def commitTransportState (cfg : StaleSettings) (registry : Dict String StaleRegistryState)
    (transportId : String) (row : List (String × PyValue)) (timestamp : DateTime) (isStale : Bool) :
    Dict String StaleRegistryState × List StaleAction :=
  let state :=
    { (registry.get? transportId).getD (.fresh row timestamp) with lastSeen := timestamp }
  let registry := registry.set transportId state
  if isStale then
    handleStaleEvent cfg (registry.set transportId { state with isStale := true }) transportId
      timestamp (timestamp.instant - state.startTs.instant)
  else
    (registry.set transportId
      { state with
        lastRow := row
        startTs := timestamp
        isStale := false
        staleEventCount := 0
        lastEventTs := none }, [])

/-- `(now - last_seen).days >= 7`. -/
def decommissioned (now lastSeen : DateTime) : Bool :=
  decide (7 ≤ (now.instant - lastSeen.instant) / 86400000000)

/-- `_cleanup_stale_registry`. -/
def cleanupStaleRegistry (registry : Dict String StaleRegistryState) (now : DateTime) :
    Dict String StaleRegistryState :=
  registry.filter fun kv => !decommissioned now kv.2.lastSeen

/-- The stale gate of `_flush_one_inner`, and the commit after it: of a stale batch at once, of
another when its write succeeded. -/
def flushBatch (cfg : StaleSettings) (registry : Dict String StaleRegistryState)
    (transportId : String) (row : List (String × PyValue)) (timestamp : DateTime) :
    Except PyError (Bool × Dict String StaleRegistryState × List StaleAction) := do
  let isStale ← checkIsStale host cfg registry transportId row timestamp
  return (isStale, commitTransportState cfg registry transportId row timestamp isStale)

/-! ## Runs -/

/-- A batch of a transport, with the cleanups that the worker made since the one before it. -/
structure Batch where
  cleanups : List DateTime
  row : List (String × PyValue)
  timestamp : DateTime

/-- What became of a batch: was it found stale, what was done, and the state it left. -/
structure Treated where
  batch : Batch
  isStale : Bool
  actions : List StaleAction
  state : StaleRegistryState

/-- The worker treats the batches of a transport one after the other. Each write succeeds. -/
inductive Flushed (cfg : StaleSettings) (id : String) :
    Dict String StaleRegistryState → List Treated → Dict String StaleRegistryState → Prop
  | nil (registry : Dict String StaleRegistryState) : Flushed cfg id registry [] registry
  | cons {registry registry' registry'' : Dict String StaleRegistryState} {t : Treated}
      {rest : List Treated}
      (flush : flushBatch host cfg (t.batch.cleanups.foldl cleanupStaleRegistry registry) id
        t.batch.row t.batch.timestamp = .ok (t.isStale, registry', t.actions))
      (state : registry'.get? id = some t.state)
      (next : Flushed cfg id registry' rest registry'') :
      Flushed cfg id registry (t :: rest) registry''

/-- What the detection is for: two rows are the same if no value of the later one changed. -/
def detector (cfg : StaleSettings) : Detector Batch Int where
  same a b :=
    match rowUnchanged host a.row b.row with
    | .ok same => same
    | .error _ => false
  time b := b.timestamp.instant
  timeout := cfg.staleDataTimeout * 1000000
  cleared last b := last.any fun a => b.cleanups.any fun now => decommissioned now a.timestamp

/-! ## One batch -/

variable {host} {cfg : StaleSettings} {registry registry' : Dict String StaleRegistryState}
  {id : String}

/-- A transport survives the cleanups if it survives each of them. -/
theorem get?_foldl_cleanupStaleRegistry (cleanups : List DateTime) :
    (cleanups.foldl cleanupStaleRegistry registry).get? id =
      (registry.get? id).filter fun state =>
        !cleanups.any fun now => decommissioned now state.lastSeen := by
  induction cleanups generalizing registry with
  | nil =>
    rw [List.foldl_nil]
    cases registry.get? id <;> rfl
  | cons now rest ih =>
    rw [List.foldl_cons, ih, cleanupStaleRegistry, Dict.get?_filter, Option.filter_filter]
    congr 1
    funext state
    rw [List.any_cons, Bool.not_or]

/-- The state after a batch that is not stale. -/
theorem commitTransportState_fresh (row : List (String × PyValue)) (timestamp : DateTime) :
    (commitTransportState cfg registry id row timestamp false).1.get? id =
      some (.fresh row timestamp) := by
  simp only [commitTransportState, Bool.false_eq_true, if_false]
  rw [Dict.get?_set, if_pos rfl]
  rfl

/-- A batch that is not stale makes no request. -/
theorem commitTransportState_fresh_actions (row : List (String × PyValue)) (timestamp : DateTime) :
    (commitTransportState cfg registry id row timestamp false).2 = [] := rfl

section

variable {state : StaleRegistryState} (h : registry.get? id = some state)
include h

/-- The state after a stale batch. -/
theorem commitTransportState_stale (row : List (String × PyValue)) (timestamp : DateTime) :
    (commitTransportState cfg registry id row timestamp true).1.get? id =
      some ({ state with lastSeen := timestamp, isStale := true }.attempt cfg timestamp) := by
  simp only [commitTransportState, h, Option.getD_some, if_true]
  rw [get?_handleStaleEvent ((Dict.get?_set ..).trans (if_pos rfl)) _ _ id, if_pos rfl]

/-- The requests of a stale batch. -/
theorem commitTransportState_stale_requests (row : List (String × PyValue)) (timestamp : DateTime) :
    requestTimes id (commitTransportState cfg registry id row timestamp true).2 =
      if cfg.requestUpstreamReconnect = true then
        (cfg.limits.ask state.counter timestamp.instant).2
      else [] := by
  simp only [commitTransportState, h, Option.getD_some, if_true]
  rw [requestTimes_handleStaleEvent ((Dict.get?_set ..).trans (if_pos rfl)) _ _ id]
  simp only [true_and]
  rfl

end

/-- What a batch that could be compared leads to. -/
theorem flushBatch_eq_ok_iff {row : List (String × PyValue)} {timestamp : DateTime} {isStale : Bool}
    {actions : List StaleAction} :
    flushBatch host cfg registry id row timestamp = .ok (isStale, registry', actions) ↔
      checkIsStale host cfg registry id row timestamp = .ok isStale ∧
        commitTransportState cfg registry id row timestamp isStale = (registry', actions) := by
  unfold flushBatch
  cases checkIsStale host cfg registry id row timestamp with
  | error e => exact ⟨fun h => (by cases h), fun h => (by cases h.1)⟩
  | ok stale =>
    constructor
    · intro h
      obtain ⟨rfl, hcommit⟩ := Prod.mk.inj (Except.ok.inj h)
      exact ⟨rfl, hcommit⟩
    · rintro ⟨hstale, hcommit⟩
      obtain rfl := Except.ok.inj hstale
      rw [← hcommit]
      rfl

/-! ## What is remembered -/

/-- The registry remembers of a transport what the detector does, and when it was last seen. -/
def Tracks (host : Host) (cfg : StaleSettings) (id : String) (past : List Batch)
    (registry : Dict String StaleRegistryState) : Prop :=
  match registry.get? id with
  | none => past = []
  | some state => ∃ a last, (detector host cfg).memory past = some a ∧ past.getLast? = some last ∧
      state.lastRow = a.row ∧ state.startTs = a.timestamp ∧ state.lastSeen = last.timestamp

/-- What the cleanups leave of a transport is what the detector keeps in its memory. -/
theorem Tracks.cleanup {past : List Batch} (h : Tracks host cfg id past registry) (b : Batch) :
    match (b.cleanups.foldl cleanupStaleRegistry registry).get? id with
    | none => (detector host cfg).kept ((detector host cfg).memory past) past.getLast? b = none
    | some state => ∃ a,
        (detector host cfg).kept ((detector host cfg).memory past) past.getLast? b = some a ∧
          state.lastRow = a.row ∧ state.startTs = a.timestamp := by
  rw [get?_foldl_cleanupStaleRegistry]
  unfold Tracks at h
  cases hget : registry.get? id with
  | none =>
    rw [hget] at h
    subst h
    rfl
  | some state =>
    rw [hget] at h
    obtain ⟨a, last, hmemory, hlast, hrow, hstart, hseen⟩ := h
    have hcleared : (detector host cfg).cleared past.getLast? b =
        b.cleanups.any fun now => decommissioned now state.lastSeen := by
      rw [hlast, hseen]
      rfl
    rw [Detector.kept, hcleared, hmemory, Option.filter_some]
    cases b.cleanups.any fun now => decommissioned now state.lastSeen with
    | true => rfl
    | false => exact ⟨a, rfl, hrow, hstart⟩

/-- The comparison of a batch with the state is that with what the detector remembers. -/
theorem checkIsStale_eq_finds {memory : Option Batch} {b : Batch}
    (h : match registry.get? id with
      | none => memory = none
      | some state => ∃ a, memory = some a ∧ state.lastRow = a.row ∧ state.startTs = a.timestamp)
    {isStale : Bool} (hcheck : checkIsStale host cfg registry id b.row b.timestamp = .ok isStale) :
    isStale = (detector host cfg).finds memory b := by
  cases hget : registry.get? id with
  | none =>
    rw [hget] at h
    simp only [checkIsStale, hget] at hcheck
    rw [h, ← Except.ok.inj hcheck]
    rfl
  | some state =>
    rw [hget] at h
    obtain ⟨a, rfl, hrow, hstart⟩ := h
    simp only [checkIsStale, hget, hrow, hstart] at hcheck
    obtain ⟨same, hsame, hcheck⟩ := Outcomes.bind_eq_ok_iff.mp hcheck
    simp only [Detector.finds, detector, Option.any_some, hsame]
    cases same with
    | true => exact (Except.ok.inj hcheck).symm
    | false => exact (Except.ok.inj hcheck).symm

/-- A batch is judged as the detector judges it, and remembered as the detector remembers it. -/
theorem Tracks.flushBatch {past : List Batch} (h : Tracks host cfg id past registry) {b : Batch}
    {isStale : Bool} {actions : List StaleAction}
    (hflush : flushBatch host cfg (b.cleanups.foldl cleanupStaleRegistry registry) id b.row
      b.timestamp = .ok (isStale, registry', actions)) :
    isStale = (detector host cfg).found past b ∧ Tracks host cfg id (past ++ [b]) registry' := by
  obtain ⟨hcheck, hcommit⟩ := flushBatch_eq_ok_iff.mp hflush
  have hfound : isStale = (detector host cfg).found past b :=
    checkIsStale_eq_finds (h.cleanup b) hcheck
  refine ⟨hfound, ?_⟩
  have hmemory := @Detector.memory_append_singleton _ _ past b _ _ (detector host cfg) _
  have hcleanup := h.cleanup b
  have hregistry : registry' = (commitTransportState cfg
      (b.cleanups.foldl cleanupStaleRegistry registry) id b.row b.timestamp isStale).1 :=
    (congrArg Prod.fst hcommit).symm
  unfold Tracks
  cases isStale with
  | false =>
    rw [← hfound, if_neg Bool.false_ne_true] at hmemory
    rw [hregistry, commitTransportState_fresh]
    exact ⟨b, b, hmemory, List.getLast?_concat, rfl, rfl, rfl⟩
  | true =>
    rw [← hfound, if_pos rfl] at hmemory
    cases hget : (b.cleanups.foldl cleanupStaleRegistry registry).get? id with
    | none =>
      rw [checkIsStale, hget] at hcheck
      cases hcheck
    | some state =>
      rw [hget] at hcleanup
      obtain ⟨a, hkept, hrow, hstart⟩ := hcleanup
      rw [hregistry, commitTransportState_stale hget]
      obtain ⟨hrow', hstart', hseen⟩ := attempt_keeps cfg
        { state with lastSeen := b.timestamp, isStale := true } b.timestamp
      exact ⟨a, b, hmemory.trans hkept, List.getLast?_concat, hrow'.trans hrow,
        hstart'.trans hstart, hseen⟩

/-! ## The requests of a batch -/

/-- What is counted of a transport. -/
def counterOf (registry : Dict String StaleRegistryState) (id : String) : Counter Int :=
  ((registry.get? id).map (·.counter)).getD .zero

/-- A batch that is not stale starts a fresh state; the requests of a stale one are an attempt. -/
theorem flushBatch_requests {b : Batch} {isStale : Bool} {actions : List StaleAction}
    (hflush : flushBatch host cfg (b.cleanups.foldl cleanupStaleRegistry registry) id b.row
      b.timestamp = .ok (isStale, registry', actions)) :
    if isStale = true then
      ∃ times, Period cfg.limits (counterOf registry id) times (counterOf registry' id) ∧
        requestTimes id actions = if cfg.requestUpstreamReconnect = true then times else []
    else registry'.get? id = some (.fresh b.row b.timestamp) := by
  obtain ⟨hcheck, hcommit⟩ := flushBatch_eq_ok_iff.mp hflush
  have hregistry : registry' = (commitTransportState cfg
      (b.cleanups.foldl cleanupStaleRegistry registry) id b.row b.timestamp isStale).1 :=
    (congrArg Prod.fst hcommit).symm
  have hactions : actions = (commitTransportState cfg
      (b.cleanups.foldl cleanupStaleRegistry registry) id b.row b.timestamp isStale).2 :=
    (congrArg Prod.snd hcommit).symm
  cases isStale with
  | false =>
    rw [if_neg Bool.false_ne_true, hregistry]
    exact commitTransportState_fresh ..
  | true =>
    rw [if_pos rfl]
    cases hget : (b.cleanups.foldl cleanupStaleRegistry registry).get? id with
    | none =>
      rw [checkIsStale, hget] at hcheck
      cases hcheck
    | some state =>
      have hbefore := hget
      rw [get?_foldl_cleanupStaleRegistry, Option.filter_eq_some_iff] at hbefore
      refine ⟨(cfg.limits.ask state.counter b.timestamp.instant).2, ?_, ?_⟩
      · rw [counterOf, counterOf, hbefore.1, hregistry, commitTransportState_stale hget]
        simp only [Option.map_some, Option.getD_some]
        rw [counter_attempt]
        exact period_ask state.counter b.timestamp.instant
      · rw [hactions, commitTransportState_stale_requests hget]

/-! ## Runs, one batch after the other -/

/-- A run splits where its batches do. -/
theorem Flushed.split {before after : List Treated}
    (h : Flushed host cfg id registry (before ++ after) registry') :
    ∃ middle, Flushed host cfg id registry before middle ∧
      Flushed host cfg id middle after registry' := by
  induction before generalizing registry with
  | nil => exact ⟨registry, .nil _, h⟩
  | cons t before ih =>
    cases h with
    | cons flush state next =>
      obtain ⟨middle, hbefore, hafter⟩ := ih next
      exact ⟨middle, .cons flush state hbefore, hafter⟩

/-- A run remembers what the detector does. -/
theorem Flushed.tracks {treated : List Treated} {past : List Batch}
    (h : Flushed host cfg id registry treated registry')
    (hpast : Tracks host cfg id past registry) :
    Tracks host cfg id (past ++ treated.map (·.batch)) registry' := by
  induction h generalizing past with
  | nil registry => simpa using hpast
  | @cons _ _ _ t rest flush state next ih =>
    have hrest := ih (hpast.flushBatch flush).2
    rwa [List.append_assoc, List.singleton_append] at hrest

/-- Nothing is remembered before the first batch. -/
theorem tracks_empty : Tracks host cfg id [] .empty := rfl

/-- A batch of a run is judged as the detector judges it. -/
theorem Flushed.verdict {before rest : List Treated} {t : Treated}
    (h : Flushed host cfg id .empty (before ++ t :: rest) registry) :
    t.isStale = (detector host cfg).found (before.map (·.batch)) t.batch := by
  obtain ⟨middle, hbefore, hafter⟩ := h.split
  cases hafter with
  | cons flush state next => exact ((hbefore.tracks tracks_empty).flushBatch flush).1

/-- The state a batch leaves that is not stale. -/
theorem Flushed.state_eq_fresh {before rest : List Treated} {t : Treated}
    (h : Flushed host cfg id registry (before ++ t :: rest) registry') (ht : t.isStale = false) :
    t.state = .fresh t.batch.row t.batch.timestamp := by
  obtain ⟨middle, -, hafter⟩ := h.split
  cases hafter with
  | cons flush state next =>
    have hfresh := flushBatch_requests flush
    rw [ht, if_neg Bool.false_ne_true, state] at hfresh
    exact Option.some.inj hfresh

/-- The attempts counted stay within the cap. -/
theorem Flushed.count_le {treated : List Treated}
    (h : Flushed host cfg id registry treated registry')
    (hcap : (counterOf registry id).count ≤ cfg.limits.cap) :
    (counterOf registry' id).count ≤ cfg.limits.cap := by
  induction h with
  | nil registry => exact hcap
  | @cons _ registry' _ t rest flush state next ih =>
    refine ih ?_
    have hrequests := flushBatch_requests flush
    cases hstale : t.isStale with
    | false =>
      rw [hstale, if_neg Bool.false_ne_true] at hrequests
      rw [counterOf, hrequests]
      exact Nat.zero_le _
    | true =>
      rw [hstale, if_pos rfl] at hrequests
      obtain ⟨times, hperiod, -⟩ := hrequests
      exact hperiod.count_le hcap

/-- Stale batches in a row make the attempts of one period. -/
theorem Flushed.period {treated : List Treated}
    (h : Flushed host cfg id registry treated registry')
    (hstale : ∀ t ∈ treated, t.isStale = true) :
    ∃ times, Period cfg.limits (counterOf registry id) times (counterOf registry' id) ∧
      requestTimes id (treated.flatMap (·.actions)) =
        if cfg.requestUpstreamReconnect = true then times else [] := by
  induction h with
  | nil registry => exact ⟨[], .nil _, (ite_self []).symm⟩
  | @cons _ _ _ t rest flush state next ih =>
    have hrequests := flushBatch_requests flush
    rw [hstale t List.mem_cons_self, if_pos rfl] at hrequests
    obtain ⟨times, hperiod, htimes⟩ := hrequests
    obtain ⟨times', hperiod', htimes'⟩ := ih fun u hu => hstale u (List.mem_cons_of_mem _ hu)
    refine ⟨times ++ times', hperiod.append hperiod', ?_⟩
    rw [List.flatMap_cons, requestTimes_append, htimes, htimes']
    split
    · rfl
    · rfl

/-! ## Exact detection -/

/-- What the detection of a run is for. -/
structure Detects (host : Host) (cfg : StaleSettings) (id : String) (treated : List Treated) :
    Prop where
  /-- a batch is found stale exactly if it and all batches since one that is more than the timeout
  older are the same as that one -/
  exact : ∀ before t rest, treated = before ++ t :: rest →
    (t.isStale = true ↔ (detector host cfg).Stale (before.map (·.batch)) t.batch)
  /-- the requests of stale batches in a row are not too many -/
  few : ∀ before period rest, treated = before ++ period ++ rest →
    (∀ t ∈ period, t.isStale = true) →
    (requestTimes id (period.flatMap (·.actions))).length ≤ cfg.maxStaleAttempts.toNat
  /-- and not too close -/
  spaced : ∀ before period rest, treated = before ++ period ++ rest →
    (∀ t ∈ period, t.isStale = true) →
    (requestTimes id (period.flatMap (·.actions))).IsChain fun u u' =>
      u + cfg.retryDelayMins * 60000000 ≤ u'
  /-- a batch that differs from the last one that was not stale starts anew -/
  fresh : ∀ before t rest a, treated = before ++ t :: rest →
    (detector host cfg).LastFresh (before.map (·.batch)) a →
    (detector host cfg).same a t.batch = false →
    t.state = .fresh t.batch.row t.batch.timestamp

/-- A property of the batches of a run. -/
theorem throughout_map_batch {P : List Batch → Batch → Prop} {treated : List Treated} :
    Throughout P (treated.map (·.batch)) ↔
      ∀ before t rest, treated = before ++ t :: rest → P (before.map (·.batch)) t.batch := by
  constructor
  · rintro h before t rest rfl
    exact h _ _ (rest.map (·.batch)) (by rw [List.map_append, List.map_cons])
  · intro h past b rest heq
    obtain ⟨before, after, rfl, rfl, hafter⟩ := List.map_eq_append_iff.mp heq
    obtain ⟨t, rest', rfl, rfl, -⟩ := List.map_eq_cons_iff.mp hafter
    exact h before t rest' rfl

/-- The requests of stale batches in a row, in any run. -/
theorem Flushed.requests_bounded {before period rest : List Treated}
    (h : Flushed host cfg id .empty (before ++ period ++ rest) registry)
    (hstale : ∀ t ∈ period, t.isStale = true) :
    (requestTimes id (period.flatMap (·.actions))).length ≤ cfg.maxStaleAttempts.toNat ∧
      (requestTimes id (period.flatMap (·.actions))).IsChain fun u u' =>
        u + cfg.retryDelayMins * 60000000 ≤ u' := by
  obtain ⟨middle, hfirst, -⟩ := h.split
  obtain ⟨start, hbefore, hperiod⟩ := hfirst.split
  obtain ⟨times, hattempts, htimes⟩ := hperiod.period hstale
  rw [htimes]
  split
  · refine ⟨hattempts.length_le (hbefore.count_le (Nat.zero_le _)), ?_⟩
    refine hattempts.spaced.right_of_append.imp fun {u u'} hgap => ?_
    have hdelay : ¬u' - u < cfg.retryDelayMins * 60000000 := hgap
    omega
  · exact ⟨Nat.zero_le _, List.isChain_nil⟩

/-- **The stale detection is exact if the data only becomes stale in one silence.** In a run whose
writes succeed, a batch is found stale exactly if no value changed since one more than
`stale_data_timeout` older, and the requests keep their bounds, if and only if for each batch whose
data is out of date so, the last batch before it whose data was not is itself more than the timeout
older and the same, and the transport was not decommissioned since the batch before. Data that is
polled more often than the timeout never gets stale: each batch restarts the clock. -/
theorem detects_iff {treated : List Treated}
    (h : Flushed host cfg id .empty treated registry) :
    Detects host cfg id treated ↔
      Throughout (detector host cfg).InOneSilence (treated.map (·.batch)) := by
  rw [← Detector.exact_iff]
  constructor
  · intro hdetects
    refine throughout_map_batch.mpr fun before t rest heq => ?_
    have hverdict := hdetects.exact before t rest heq
    subst heq
    rwa [h.verdict] at hverdict
  · intro hthroughout
    have hexact := throughout_map_batch.mp hthroughout
    refine ⟨?_, ?_, ?_, ?_⟩
    · rintro before t rest rfl
      rw [h.verdict]
      exact hexact before t rest rfl
    · rintro before period rest rfl hstale
      exact (h.requests_bounded hstale).1
    · rintro before period rest rfl hstale
      exact (h.requests_bounded hstale).2
    · rintro before t rest a rfl hlast hdiffers
      refine h.state_eq_fresh ?_
      have hbefore : Throughout (fun past b => (detector host cfg).found past b = true ↔
          (detector host cfg).Stale past b) (before.map (·.batch)) := by
        refine throughout_map_batch.mpr fun before' t' rest' heq =>
          hexact before' t' (rest' ++ t :: rest) ?_
        rw [heq, List.append_assoc, List.cons_append]
      have hmemory := (Detector.memory_eq_some_iff hbefore).mpr hlast
      rw [h.verdict]
      cases hfound : (detector host cfg).found (before.map (·.batch)) t.batch with
      | false => rfl
      | true =>
        obtain ⟨-, a', ha', hrepeats⟩ := Detector.found_iff.mp hfound
        obtain rfl := Option.some.inj (ha'.symm.trans hmemory)
        rw [hrepeats.1] at hdiffers
        cases hdiffers

/-! ## Three polls -/

/-- The row of an inverter that reports the same all morning, some minutes and seconds after nine. -/
def morningBatch (minute second : Nat) (valid : ValidTime 2026 6 1 9 minute second 0 0) : Batch :=
  ⟨[], [("state", .str "charging")], ⟨2026, 6, 1, 9, minute, second, 0, 0, valid⟩⟩

/-- A batch that was written. -/
def Batch.written (b : Batch) : Treated := ⟨b, false, [], .fresh b.row b.timestamp⟩

/-- Three batches, each 200 seconds after the one before. -/
def morningPolls : List Treated :=
  [(morningBatch 0 0 (by decide)).written, (morningBatch 3 20 (by decide)).written,
    (morningBatch 6 40 (by decide)).written]

/-- All three are written, although the data did not change for 400 seconds. -/
theorem flushed_morningPolls :
    ∃ registry,
      Flushed default (staleSettings 300 3 5 true) "inverter" .empty morningPolls registry :=
  ⟨_, .cons rfl rfl (.cons rfl rfl (.cons rfl rfl (.nil _)))⟩

/-- They come in order, and the last of them is stale, but is not found so. -/
theorem detects_morningPolls_false :
    ¬∀ (host : Host) (cfg : StaleSettings) (id : String) (treated : List Treated)
      (registry : Dict String StaleRegistryState), Flushed host cfg id .empty treated registry →
      treated.Pairwise (fun t u => t.batch.timestamp.instant ≤ u.batch.timestamp.instant) →
      Detects host cfg id treated := by
  intro h
  obtain ⟨registry, hflushed⟩ := flushed_morningPolls
  have hdetects := h _ _ _ _ registry hflushed (by decide)
  have hlast := hdetects.exact [(morningBatch 0 0 (by decide)).written,
    (morningBatch 3 20 (by decide)).written] (morningBatch 6 40 (by decide)).written [] rfl
  refine Bool.false_ne_true (hlast.mpr ?_)
  refine ⟨[], morningBatch 0 0 (by decide), [morningBatch 3 20 (by decide)], rfl,
    ⟨by decide, by decide⟩, fun c hc => ?_⟩
  rw [List.mem_singleton.mp hc]
  decide

/-- The condition at the three polls. -/
theorem detects_iff_morningPolls :
    Detects default (staleSettings 300 3 5 true) "inverter" morningPolls ↔
      Throughout (detector default (staleSettings 300 3 5 true)).InOneSilence
        (morningPolls.map (·.batch)) := by
  obtain ⟨registry, hflushed⟩ := flushed_morningPolls
  exact detects_iff hflushed

/-! ## The flush worker -/

/-- The registry of the flush worker holds what is compared. -/
def Remembers (registry : Dict String StaleRegistryState) (compared : StaleRegistry) : Prop :=
  ∀ id, compared.lookup id = (registry.get? id).map fun state => ⟨state.lastRow, state.startTs⟩

variable {compared : StaleRegistry} {row : List (String × PyValue)} {timestamp : DateTime}

/-- The flush worker finds the same batches stale. -/
theorem checkIsStale_of_remembers (h : Remembers registry compared) {flush : FlushSettings}
    (htimeout : flush.staleDataTimeout = cfg.staleDataTimeout) :
    ProtocolGateway.checkIsStale host flush compared id row timestamp =
      checkIsStale host cfg registry id row timestamp := by
  simp only [ProtocolGateway.checkIsStale, checkIsStale, h id, htimeout]
  cases registry.get? id <;> rfl

/-- The other transports keep what is compared. -/
theorem lookup_filter_ne {id' : String} (hid : id' ≠ id) :
    (compared.filter fun kv => kv.1 ≠ id).lookup id' = compared.lookup id' := by
  induction compared with
  | nil => rfl
  | cons kv rest ih =>
    rw [List.lookup_cons]
    by_cases hkey : kv.1 = id
    · have hne : (id' == kv.1) = false := beq_eq_false_iff_ne.mpr (hkey ▸ hid)
      rw [List.filter_cons_of_neg (by simpa using hkey), hne, ih]
    · rw [List.filter_cons_of_pos (by simpa using hkey), List.lookup_cons, ih]

/-- A batch that was written is compared with the next. -/
theorem remembers_commit_fresh (h : Remembers registry compared) :
    Remembers (commitTransportState cfg registry id row timestamp false).1
      (ProtocolGateway.commitTransportState compared id row timestamp) := by
  intro id'
  simp only [commitTransportState, Bool.false_eq_true, if_false,
    ProtocolGateway.commitTransportState, Dict.get?_set]
  rw [List.lookup_cons]
  by_cases hid : id' = id
  · subst hid
    simp
  · have hne : (id' == id) = false := beq_eq_false_iff_ne.mpr hid
    rw [hne, if_neg hid, if_neg hid, ← h id']
    exact lookup_filter_ne hid

/-- A stale batch is not. -/
theorem remembers_commit_stale (h : Remembers registry compared) {state : StaleRegistryState}
    (hget : registry.get? id = some state) :
    Remembers (commitTransportState cfg registry id row timestamp true).1 compared := by
  intro id'
  simp only [commitTransportState, hget, Option.getD_some, if_true]
  rw [get?_handleStaleEvent ((Dict.get?_set ..).trans (if_pos rfl)) _ _ id', h id']
  split
  · next heq =>
    obtain ⟨hrow, hstart, -⟩ := attempt_keeps cfg
      { state with lastSeen := timestamp, isStale := true } timestamp
    rw [heq, hget, Option.map_some, Option.map_some, hrow, hstart]
  · next hne =>
    rw [Dict.get?_set, if_neg hne, Dict.get?_set, if_neg hne]

section

variable {flush : FlushSettings} {f : ProtocolGateway.Flushed} {item : QueueItem} {a : Answers}

/-- An item ends with its row written and compared with the next, or neither. -/
def Committed (f f' : ProtocolGateway.Flushed) (item : QueueItem) : Prop :=
  f'.registry =
    if f'.committed then
      ProtocolGateway.commitTransportState f.registry item.payload.transportName
        item.payload.metrics item.payload.mTime
    else f.registry

theorem committed_keepUnwritten (hbefore : f.committed = false) :
    Committed f (keepUnwritten flush f item a) item := by
  unfold Committed keepUnwritten
  cases item.backlogRowid with
  | some rowid => simp [hbefore]
  | none => simp [hbefore]

theorem committed_handleFailure (hbefore : f.committed = false) (e : Raised) :
    Committed f (handleFailure flush f item a e) item := by
  unfold handleFailure
  dsimp only
  split
  · exact committed_keepUnwritten hbefore
  · simp [Committed, hbefore]

theorem committed_writeItem (hlive : item.backlogRowid = none) (hbefore : f.committed = false)
    (narrow : Dict String PyValue) : Committed f (writeItem host flush f item narrow a) item := by
  unfold writeItem
  split
  · simp [Committed, hbefore]
  · split
    · exact committed_keepUnwritten hbefore
    · split
      · simp [Committed, hlive]
      · split
        · exact committed_handleFailure hbefore _
        · simp [Committed, hbefore]

theorem committed_flushRow (hlive : item.backlogRowid = none) (hbefore : f.committed = false) :
    Committed f (flushRow host flush f item a) item := by
  unfold flushRow
  dsimp only
  split
  · simp [Committed, hbefore]
  · split
    · split
      · exact committed_writeItem hlive hbefore _
      · split
        · simp [Committed, hbefore]
        · next schema' _ =>
          exact @committed_writeItem host flush { f with schema := schema' } item a hlive hbefore _
    · exact committed_writeItem hlive hbefore _

/-- **The flush worker remembers what `flushBatch` does** of a live point, if the point is stale or
its write succeeds. -/
theorem remembers_flushOneInner (h : Remembers registry f.registry)
    (htimeout : flush.staleDataTimeout = cfg.staleDataTimeout) (hlive : item.backlogRowid = none)
    (hbefore : f.committed = false) {isStale : Bool} {actions : List StaleAction}
    (hflush : flushBatch host cfg registry item.payload.transportName item.payload.metrics
      item.payload.mTime = .ok (isStale, registry', actions))
    (hwritten : isStale = false → (flushOneInner host flush f (some item) a).committed = true) :
    Remembers registry' (flushOneInner host flush f (some item) a).registry := by
  obtain ⟨hcheck, hcommit⟩ := flushBatch_eq_ok_iff.mp hflush
  have hregistry : registry' = (commitTransportState cfg registry item.payload.transportName
      item.payload.metrics item.payload.mTime isStale).1 := (congrArg Prod.fst hcommit).symm
  have hjudged := (@checkIsStale_of_remembers host cfg registry item.payload.transportName
    f.registry item.payload.metrics item.payload.mTime h flush htimeout).trans hcheck
  have hinner : flushOneInner host flush f (some item) a =
      if isStale then { f with notices := f.notices ++ [.stale] }
      else flushRow host flush f item a := by
    simp only [flushOneInner, hlive, Option.isSome_none, Bool.false_eq_true, if_false, hjudged]
    cases isStale <;> rfl
  rw [hinner] at hwritten ⊢
  rw [hregistry]
  cases isStale with
  | true =>
    cases hget : registry.get? item.payload.transportName with
    | none =>
      rw [checkIsStale, hget] at hcheck
      cases hcheck
    | some state => exact remembers_commit_stale h hget
  | false =>
    have hcommitted := @committed_flushRow host flush f item a hlive hbefore
    rw [if_neg Bool.false_ne_true] at hwritten ⊢
    rw [Committed, hwritten rfl, if_pos rfl] at hcommitted
    rw [hcommitted]
    exact remembers_commit_fresh h

end

end Timescale

end ProtocolGateway
