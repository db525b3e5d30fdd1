import ProtocolGateway.Decode
import ProtocolGateway.Lib.Runs

/-!
# Reading from a CAN bus

A CAN bus is read passively. A thread receives frames and puts them into a cache, and `read_data`
decodes what the cache holds. Both take the lock of the transport, and so does `clean_cache`, which
`read_data` calls while it holds the lock. The lock is not reentrant, so the call waits for itself
(`waits_forever`), unless `read_data` is left before it cleans the cache.

The model steps through both threads. Frames may arrive and the clock may be set at any time.
-/

namespace ProtocolGateway

namespace CanBus

open Runs

/-! ## States -/

/-- A frame, with the time at which it was received. -/
structure Frame where
  arbitrationId : Int
  data : List Byte
  received : Int
deriving DecidableEq

/-- What the cache holds under an id. The time of the last store is the one that the code sees. -/
structure Cached where
  data : List Byte
  timestamp : Int
  received : Int
deriving DecidableEq

/-- The settings of a transport. -/
structure Config where
  host : Host
  /-- `protocolSettings` -/
  protocolSettings : Option ProtocolSettings
  /-- its map of the custom bus -/
  registryMap : List RegistryMapEntry
  cacheTimeout : Int := 120
  watchDogTime : Int := 120

/-- The threads. -/
inductive Thread
  | reader
  | caller
deriving DecidableEq

/-- Where the receiving thread is. -/
inductive Phase
  | receiving
  /-- it has a frame and waits for the lock -/
  | storing
  /-- it has the lock -/
  | inside
deriving DecidableEq

/-- Where a call of `read_data` is. -/
inductive Caller
  | idle
  /-- it waits for the lock -/
  | entering (callTime : Int)
  /-- it has the lock -/
  | inside (callTime : Int)
  /-- it is in `clean_cache`, which waits for the lock -/
  | cleaning (callTime : Int) (cache : Dict Int Cached) (info : Dict String PyValue)
      (currentTime : Int)
  | returned (callTime : Int) (cache : Dict Int Cached) (info : Dict String PyValue)
  | raised (error : PyError)
  /-- `sys.exit(1)` -/
  | exited

/-- The state of a transport and its threads. -/
structure State where
  now : Int
  /-- `self.lock` -/
  lock : Option Thread
  cache : Dict Int Cached
  emptyTime : Option Int
  /-- the variable `msg` of `read_bus` -/
  msg : Option Frame
  phase : Phase
  caller : Caller

/-! ## Steps -/

/-- What can happen next. -/
inductive Action
  /-- the clock is read at any value from now on -/
  | tick (now : Int)
  /-- `bus.recv()` returns -/
  | receive (arbitrationId : Int) (data : List Byte)
  /-- `bus.recv()` raises -/
  | receiveFails
  | readerAcquire
  | readerStore
  /-- `read_data` is called -/
  | call
  | acquire
  | decode
  | clean

/-- The steps of `read_data`. -/
def Action.ofCaller : Action → Bool
  | .acquire | .decode | .clean => true
  | _ => false

/-- A call is under way. -/
def Caller.busy : Caller → Bool
  | .entering _ | .inside _ | .cleaning .. => true
  | _ => false

/-- The registry that `read_data` hands to `process_registery`. -/
def registry (cache : Dict Int Cached) (id : Int) : Option (List Byte) :=
  (cache.get? id).map Cached.data

/-- `process_registery(registry, get_registry_map(CUSTOM_BUS))`. -/
def Config.process (cfg : Config) (ps : ProtocolSettings) (cache : Dict Int Cached) :
    Except PyError (Dict String PyValue) :=
  ps.processRegistery cfg.host (.bytes (registry cache)) cfg.registryMap

/-- The body of `read_data`, with the lock, up to `clean_cache`. -/
def decodeStep (cfg : Config) (s : State) (callTime : Int) : State :=
  match cfg.protocolSettings with
  | none => { s with lock := none, caller := .returned callTime s.cache Dict.empty }
  | some ps =>
    match cfg.process ps s.cache with
    | .error error => { s with lock := none, caller := .raised error }
    | .ok info =>
      if info.items = [] then
        match s.emptyTime with
        | some emptyTime =>
          if cfg.watchDogTime < s.now - emptyTime then { s with lock := none, caller := .exited }
          else { s with caller := .cleaning callTime s.cache info s.now }
        | none => { s with caller := .cleaning callTime s.cache info s.now }
      else
        { s with emptyTime := some s.now, caller := .cleaning callTime s.cache info s.now }

/-- One step, `none` when it cannot happen. -/
def step (cfg : Config) (s : State) : Action → Option State
  | .tick now => some { s with now := now }
  | .receive arbitrationId data =>
    if s.phase = .receiving then
      some { s with msg := some ⟨arbitrationId, data, s.now⟩, phase := .storing }
    else none
  | .receiveFails =>
    -- the exception is logged, and the frame before is still in `msg`
    if s.phase = .receiving then
      some (if s.msg.isSome then { s with phase := .storing } else s)
    else none
  | .readerAcquire =>
    if s.phase = .storing ∧ s.lock = none then
      some { s with lock := some .reader, phase := .inside }
    else none
  | .readerStore =>
    if s.phase = .inside then
      let cache := match s.msg with
        | some msg => s.cache.set msg.arbitrationId ⟨msg.data, s.now, msg.received⟩
        | none => s.cache
      some { s with cache := cache, lock := none, phase := .receiving }
    else none
  | .call => if s.caller.busy then none else some { s with caller := .entering s.now }
  | .acquire =>
    match s.caller with
    | .entering callTime =>
      if s.lock = none then some { s with lock := some .caller, caller := .inside callTime }
      else none
    | _ => none
  | .decode =>
    match s.caller with
    | .inside callTime => some (decodeStep cfg s callTime)
    | _ => none
  | .clean =>
    match s.caller with
    | .cleaning callTime cache info currentTime =>
      -- `with self.lock`, while the lock is held around the call
      if s.lock = none then
        some { s with
          cache := s.cache.filter fun kv => currentTime - kv.2.timestamp ≤ cfg.cacheTimeout
          caller := .returned callTime cache info }
      else none
    | _ => none

/-- A transport that has been constructed, with any cache. -/
def Started (s : State) : Prop := s.lock = none ∧ s.phase = .receiving ∧ s.caller = .idle

/-- The threads of a transport. -/
def system (cfg : Config) : System State Action where
  init := Started
  step s a s' := step cfg s a = some s'

/-- The states that can follow a state. -/
def Later (cfg : Config) (s : State) : State → Prop :=
  Reachable { init := (· = s), step := fun s a s' => step cfg s a = some s' }

/-! ## The lock -/

/-- The call holds the lock. -/
def Caller.holds : Caller → Bool
  | .inside _ | .cleaning .. => true
  | _ => false

/-- The lock says where the threads are. -/
structure Owned (s : State) : Prop where
  reader : s.lock = some .reader ↔ s.phase = .inside
  caller : s.lock = some .caller ↔ s.caller.holds = true

/-- `read_data` is left before the cache is cleaned: there are no protocol settings, decoding
raises, or the watchdog ends the process. -/
def Leaves (cfg : Config) (s : State) : Prop :=
  ∀ ps, cfg.protocolSettings = some ps →
    (∃ error, cfg.process ps s.cache = .error error) ∨
      ∃ info emptyTime, cfg.process ps s.cache = .ok info ∧ info.items = [] ∧
        s.emptyTime = some emptyTime ∧ cfg.watchDogTime < s.now - emptyTime

/-- What a call that is left gives up the lock with. -/
def Caller.Left : Caller → Prop
  | .returned _ _ info => info = Dict.empty
  | .raised _ | .exited => True
  | _ => False

theorem Caller.Left.holds {c : Caller} (h : c.Left) : c.holds = false := by
  cases c <;> first | rfl | exact h.elim

/-- A call that is left has given up the lock. -/
theorem decodeStep_of_leaves {cfg : Config} {s : State} (h : Leaves cfg s) (callTime : Int) :
    ∃ caller, decodeStep cfg s callTime = { s with lock := none, caller := caller } ∧
      caller.Left := by
  unfold decodeStep
  cases hps : cfg.protocolSettings with
  | none => exact ⟨.returned callTime s.cache Dict.empty, rfl, rfl⟩
  | some ps =>
    rcases h ps hps with ⟨error, hprocess⟩ | ⟨info, emptyTime, hprocess, hinfo, hempty, hwatch⟩
    · exact ⟨.raised error, by simp only [hprocess], trivial⟩
    · exact ⟨.exited, by simp only [hprocess, hinfo, hempty, if_true, if_pos hwatch], trivial⟩

/-- A call that is not left goes on to `clean_cache` with the lock. -/
theorem decodeStep_of_not_leaves {cfg : Config} {s : State} (h : ¬Leaves cfg s) (callTime : Int) :
    ∃ emptyTime info, decodeStep cfg s callTime =
      { s with emptyTime := emptyTime, caller := .cleaning callTime s.cache info s.now } := by
  unfold Leaves at h
  push Not at h
  obtain ⟨ps, hps, hok, hstay⟩ := h
  unfold decodeStep
  rw [hps]
  cases hprocess : cfg.process ps s.cache with
  | error error => exact absurd hprocess (hok error)
  | ok info =>
    simp only [hprocess]
    by_cases hinfo : info.items = []
    · rw [if_pos hinfo]
      cases hempty : s.emptyTime with
      | none => exact ⟨none, info, rfl⟩
      | some emptyTime =>
        refine ⟨some emptyTime, info, ?_⟩
        have hle := hstay info emptyTime hprocess hinfo hempty
        simp only [if_neg (Int.not_lt.mpr hle)]
    · rw [if_neg hinfo]
      exact ⟨some s.now, info, rfl⟩

theorem Owned.free {s : State} (h : Owned s) (hfree : s.lock = none) :
    s.phase ≠ .inside ∧ s.caller.holds = false := by
  refine ⟨fun hphase => ?_, ?_⟩
  · rw [h.reader.mpr hphase] at hfree
    cases hfree
  · rw [Bool.eq_false_iff]
    intro hholds
    rw [h.caller.mpr hholds] at hfree
    cases hfree

theorem Owned.not_both {s : State} (h : Owned s) (hphase : s.phase = .inside) :
    s.caller.holds = false := by
  rw [Bool.eq_false_iff]
  intro hholds
  have hlock := h.caller.mpr hholds
  rw [h.reader.mpr hphase] at hlock
  cases hlock

/-- Every step keeps the lock in order. -/
theorem owned_step {cfg : Config} {s s' : State} {a : Action} (h : Owned s)
    (hstep : step cfg s a = some s') : Owned s' := by
  cases a with
  | tick now =>
    cases hstep
    exact ⟨h.reader, h.caller⟩
  | receive id data =>
    simp only [step] at hstep
    split at hstep
    · next hphase =>
      cases hstep
      refine ⟨⟨fun hlock => ?_, fun hphase => by cases hphase⟩, h.caller⟩
      rw [h.reader.mp hlock] at hphase
      cases hphase
    · cases hstep
  | receiveFails =>
    simp only [step] at hstep
    split at hstep
    · next hphase =>
      cases hstep
      split
      · refine ⟨⟨fun hlock => ?_, fun hphase => by cases hphase⟩, h.caller⟩
        rw [h.reader.mp hlock] at hphase
        cases hphase
      · exact h
    · cases hstep
  | readerAcquire =>
    simp only [step] at hstep
    split at hstep
    · next hguard =>
      cases hstep
      refine ⟨⟨fun _ => rfl, fun _ => rfl⟩, ⟨fun hlock => (by cases hlock), fun hholds => ?_⟩⟩
      rw [(h.free hguard.2).2] at hholds
      cases hholds
    · cases hstep
  | readerStore =>
    simp only [step] at hstep
    split at hstep
    · next hphase =>
      cases hstep
      refine ⟨⟨fun hlock => (by cases hlock), fun hphase => by cases hphase⟩,
        ⟨fun hlock => (by cases hlock), fun hholds => ?_⟩⟩
      rw [h.not_both hphase] at hholds
      cases hholds
    · cases hstep
  | call =>
    simp only [step] at hstep
    split at hstep
    · cases hstep
    · next hbusy =>
      cases hstep
      refine ⟨h.reader, ⟨fun hlock => ?_, fun hholds => by cases hholds⟩⟩
      have hholds := h.caller.mp hlock
      cases hcaller : s.caller with
      | inside _ | cleaning _ _ _ _ =>
        rw [hcaller] at hbusy
        exact absurd rfl hbusy
      | idle | entering _ | returned _ _ _ | raised _ | exited =>
        rw [hcaller] at hholds
        cases hholds
  | acquire =>
    simp only [step] at hstep
    split at hstep
    · split at hstep
      · next hfree =>
        cases hstep
        exact ⟨⟨fun hlock => (by cases hlock), fun hphase => absurd hphase (h.free hfree).1⟩,
          ⟨fun _ => rfl, fun _ => rfl⟩⟩
      · cases hstep
    · cases hstep
  | decode =>
    simp only [step] at hstep
    split at hstep
    · next callTime hcaller =>
      cases hstep
      have hlock : s.lock = some .caller := h.caller.mpr (by rw [hcaller]; rfl)
      have hphase : s.phase ≠ .inside := by
        intro hphase
        rw [h.reader.mpr hphase] at hlock
        cases hlock
      by_cases hleaves : Leaves cfg s
      · obtain ⟨caller, hdecode, hleft⟩ := decodeStep_of_leaves hleaves callTime
        rw [hdecode]
        refine ⟨⟨fun hlock => (by cases hlock), fun h => absurd h hphase⟩,
          ⟨fun hlock => (by cases hlock), fun hholds => ?_⟩⟩
        rw [hleft.holds] at hholds
        cases hholds
      · obtain ⟨emptyTime, info, hdecode⟩ := decodeStep_of_not_leaves hleaves callTime
        rw [hdecode]
        exact ⟨h.reader, ⟨fun _ => rfl, fun _ => hlock⟩⟩
    · cases hstep
  | clean =>
    simp only [step] at hstep
    split at hstep
    · split at hstep
      · next hcaller hfree =>
        cases hstep
        have hholds := (h.free hfree).2
        rw [hcaller] at hholds
        cases hholds
      · cases hstep
    · cases hstep

theorem reach_owned {cfg : Config} {guard : State → Action → Prop} {s : State}
    (h : Reach (system cfg) guard s) : Owned s := by
  refine h.invariant (P := Owned) ?_ fun s a s' _ hs _ hstep => owned_step hs hstep
  rintro s ⟨hlock, hphase, hcaller⟩
  rw [← Option.isNone_iff_eq_none] at hlock
  refine ⟨⟨fun h => ?_, fun h => ?_⟩, ⟨fun h => ?_, fun h => ?_⟩⟩
  · rw [h] at hlock; cases hlock
  · rw [hphase] at h; cases h
  · rw [h] at hlock; cases hlock
  · rw [hcaller] at h; cases h

/-! ## Calls -/

/-- A call waits for nothing that it holds itself, can always go on once the receiving thread has
left the lock, and returns nothing that was decoded from a frame older than `cacheTimeout`. -/
structure ReadsWell (cfg : Config) (s : State) : Prop where
  notItself : ∀ callTime cache info currentTime,
    s.caller = .cleaning callTime cache info currentTime → s.lock ≠ some .caller
  progress : s.caller.busy = true →
    (∃ a, a.ofCaller = true ∧ (step cfg s a).isSome = true) ∨
      s.lock = some .reader ∧ (step cfg s .readerStore).isSome = true
  fresh : ∀ callTime cache info, s.caller = .returned callTime cache info →
    ∀ name value, info.get? name = some value → ∃ e cached, e ∈ cfg.registryMap ∧
      e.variableName = name ∧ cache.get? e.register = some cached ∧
        callTime - cached.received ≤ cfg.cacheTimeout

/-- Only calls that are left before the cache is cleaned. -/
def Guard (cfg : Config) (s : State) (a : Action) : Prop := a = .decode → Leaves cfg s

/-- No call has got to `clean_cache`, and none has returned a value. -/
def Caller.Unspent : Caller → Prop
  | .cleaning .. => False
  | .returned _ _ info => info = Dict.empty
  | _ => True

theorem Caller.Left.unspent {c : Caller} (h : c.Left) : c.Unspent := by
  cases c <;> first | exact h | exact trivial

theorem unspent_step {cfg : Config} {s s' : State} {a : Action} (h : s.caller.Unspent)
    (hguard : Guard cfg s a) (hstep : step cfg s a = some s') : s'.caller.Unspent := by
  cases a with
  | tick now =>
    cases hstep
    exact h
  | receive _ _ | receiveFails | readerAcquire | readerStore =>
    simp only [step] at hstep
    split at hstep
    · cases hstep
      first | exact h | (split <;> exact h)
    · cases hstep
  | call =>
    simp only [step] at hstep
    split at hstep
    · cases hstep
    · cases hstep
      exact trivial
  | acquire =>
    simp only [step] at hstep
    split at hstep
    · split at hstep
      · cases hstep
        exact trivial
      · cases hstep
    · cases hstep
  | decode =>
    simp only [step] at hstep
    split at hstep
    · next callTime _ =>
      cases hstep
      obtain ⟨caller, hdecode, hleft⟩ := decodeStep_of_leaves (hguard rfl) callTime
      rw [hdecode]
      exact hleft.unspent
    · cases hstep
  | clean =>
    simp only [step] at hstep
    split at hstep
    · next hcaller =>
      rw [hcaller] at h
      exact h.elim
    · cases hstep

theorem reach_unspent {cfg : Config} {s : State} (h : Reach (system cfg) (Guard cfg) s) :
    s.caller.Unspent := by
  refine h.invariant (P := fun s => s.caller.Unspent) ?_
    fun s a s' _ hs hguard hstep => unspent_step hs hguard hstep
  rintro s ⟨-, -, hcaller⟩
  rw [hcaller]
  trivial

/-- A call that has not got to `clean_cache` can go on, unless the receiving thread has the lock. -/
theorem Owned.progress {cfg : Config} {s : State} (h : Owned s) (hunspent : s.caller.Unspent)
    (hbusy : s.caller.busy = true) :
    (∃ a, a.ofCaller = true ∧ (step cfg s a).isSome = true) ∨
      s.lock = some .reader ∧ (step cfg s .readerStore).isSome = true := by
  cases hcaller : s.caller with
  | entering callTime =>
    cases hlock : s.lock with
    | none => exact .inl ⟨.acquire, rfl, by simp [step, hcaller, hlock]⟩
    | some thread =>
      cases thread with
      | reader => exact .inr ⟨rfl, by simp [step, h.reader.mp hlock]⟩
      | caller =>
        have hholds := h.caller.mp hlock
        rw [hcaller] at hholds
        cases hholds
  | inside callTime => exact .inl ⟨.decode, rfl, by simp [step, hcaller]⟩
  | cleaning _ _ _ _ =>
    rw [hcaller] at hunspent
    exact hunspent.elim
  | idle | returned _ _ _ | raised _ | exited =>
    rw [hcaller] at hbusy
    cases hbusy

/-- A call that waits for the lock it holds. -/
def Stuck (s : State) : Prop :=
  s.lock = some .caller ∧ ∃ callTime cache info currentTime,
    s.caller = .cleaning callTime cache info currentTime

/-- No step of either thread ends it. -/
theorem stuck_step {cfg : Config} {s s' : State} {a : Action} (howned : Owned s) (h : Stuck s)
    (hstep : step cfg s a = some s') : Stuck s' := by
  obtain ⟨hlock, callTime, cache, info, currentTime, hcaller⟩ := h
  have hphase : s.phase ≠ .inside := by
    intro hphase
    rw [howned.reader.mpr hphase] at hlock
    cases hlock
  cases a <;> simp only [step] at hstep
  case tick =>
    cases hstep
    exact ⟨hlock, _, _, _, _, hcaller⟩
  case receive | receiveFails =>
    split at hstep
    · cases hstep
      first
        | exact ⟨hlock, _, _, _, _, hcaller⟩
        | (split <;> exact ⟨hlock, _, _, _, _, hcaller⟩)
    · cases hstep
  case readerAcquire => simp [hlock] at hstep
  case readerStore => simp [hphase] at hstep
  case call => simp [hcaller, Caller.busy] at hstep
  case acquire | decode => simp [hcaller] at hstep
  case clean => simp [hcaller, hlock] at hstep

/-- **A call that cleans the cache never returns.** It holds the lock that `clean_cache` waits for,
and so the receiving thread waits as well. -/
theorem waits_forever {cfg : Config} {s s' s'' : State} (h : Reachable (system cfg) s)
    (hstay : ¬Leaves cfg s) (hstep : step cfg s .decode = some s') (hlater : Later cfg s' s'') :
    Stuck s'' := by
  have howned := owned_step (reach_owned h) hstep
  have hstuck : Stuck s' := by
    have hlock := howned.caller
    simp only [step] at hstep
    split at hstep
    · next callTime hcaller =>
      obtain ⟨emptyTime, info, hdecode⟩ := decodeStep_of_not_leaves hstay callTime
      rw [hdecode] at hstep
      cases hstep
      exact ⟨hlock.mpr rfl, _, _, _, _, rfl⟩
    · cases hstep
  have hboth : Owned s'' ∧ Stuck s'' := by
    refine hlater.invariant (P := fun s => Owned s ∧ Stuck s) ?_ ?_
    · rintro _ rfl
      exact ⟨howned, hstuck⟩
    · intro s a s' _ hs _ hstep
      exact ⟨owned_step hs.1 hstep, stuck_step hs.1 hs.2 hstep⟩
  exact hboth.2

/-- **Calls that are left.** In every run all of whose calls are left before the cache is cleaned,
every state is as it should be. The first call that is not left waits for its own lock for ever. -/
theorem readsWell_of_leaves (cfg : Config) :
    (∀ s, Reach (system cfg) (Guard cfg) s → ReadsWell cfg s) ∧
      ∀ s s' s'', Reachable (system cfg) s → ¬Leaves cfg s → step cfg s .decode = some s' →
        Later cfg s' s'' → ¬ReadsWell cfg s'' := by
  refine ⟨fun s h => ?_, fun s s' s'' h hstay hstep hlater hwell => ?_⟩
  · have howned := reach_owned h
    have hunspent := reach_unspent h
    refine ⟨?_, howned.progress hunspent, ?_⟩
    · intro _ _ _ _ hcaller
      rw [hcaller] at hunspent
      exact hunspent.elim
    · intro _ _ info hcaller name value hvalue
      rw [hcaller] at hunspent
      change info = Dict.empty at hunspent
      rw [hunspent] at hvalue
      cases hvalue
  · obtain ⟨hlock, _, _, _, _, hcaller⟩ := waits_forever h hstay hstep hlater
    exact hwell.notItself _ _ _ _ hcaller hlock

/-! ## A run -/

/-- A transport whose protocol has no entries. -/
def bareConfig : Config := { host := default, protocolSettings := some {}, registryMap := [] }

/-- The state in which it is constructed. -/
def constructed : State where
  now := 0
  lock := none
  cache := Dict.empty
  emptyTime := some 0
  msg := none
  phase := .receiving
  caller := .idle

/-- Its first call waits for its own lock. -/
theorem not_readsWell_bareConfig :
    ¬∀ s, Reachable (system bareConfig) s → ReadsWell bareConfig s := by
  intro h
  have h0 : Reachable (system bareConfig) constructed := .init ⟨rfl, rfl, rfl⟩
  have h1 := h0.step trivial (show (system bareConfig).step constructed .call _ from rfl)
  have h2 := h1.step trivial (show (system bareConfig).step _ .acquire _ from rfl)
  have h3 := h2.step trivial (show (system bareConfig).step _ .decode _ from rfl)
  exact (h _ h3).notItself _ _ _ _ rfl rfl

end CanBus

end ProtocolGateway
