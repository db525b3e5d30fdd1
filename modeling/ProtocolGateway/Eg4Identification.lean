import Mathlib.Algebra.Order.Field.Rat
import Mathlib.Algebra.Ring.Nat
import Mathlib.Logic.Relation
import Mathlib.Tactic.Linarith
import ProtocolGateway.Lib.Dict
import ProtocolGateway.Lib.Runs

/-!
# The EG4 identification cache

An EG4 device is identified when its transport connects for the first time. The scrape cycles read
nothing but what is missing: an incomplete identification is tried again with growing delays, and so
is the pass over the serial numbers of the battery modules. A reconnect refreshes both.

The first pass does not go through the cache: it enters no time there, and so a reconnect right
after it refreshes; and it replaces what a cycle may have found before. The serial numbers are
entered into a dictionary that a refresh does not clear, so a module that was taken out stays
reported. `identification_sound` is what holds of all runs that keep clear of these.
-/

namespace ProtocolGateway

namespace Eg4

/-! ## The transport -/

/-- What an identification is about, as far as the cache reads it. -/
inductive Metadata
  /-- `EG4DeviceMetadata` -/
  | inverter (serial : String)
  /-- `EG4BatteryMetadata` -/
  | battery
deriving DecidableEq, Repr

/-- `eg4_hardware_kind_cache`. -/
inductive HardwareKind
  | inverter
  | battery
deriving DecidableEq, Repr

/-- `EG4IdentificationCache`. -/
structure Cache where
  identifyAttempts : Nat
  identifyLastAttempt : ℚ
  batterySerials : Dict String String
  batterySerialsLoaded : Bool
  batterySerialsAttempts : Nat
  batterySerialsLastAttempt : ℚ

/-- The fields of a transport that the identification reads and writes. -/
structure Transport where
  deviceMetadata : Option Metadata
  hardwareKind : Option HardwareKind
  identificationAttempted : Bool
  cache : Cache

/-- `_identification_complete`. -/
def identificationComplete : Option Metadata → Bool
  | some (.inverter serial) => serial ≠ ""
  | some .battery => true
  | none => false

/-- `_retry_delay`. The power is a whole number, and one that no float can hold makes the product
an error. -/
def retryDelay (attempts : Nat) : Option ℚ :=
  if attempts = 0 then some 0
  else if 1024 ≤ attempts - 1 then none
  else some (min (60 * 2 ^ (attempts - 1)) 3600)

/-- The test before a further attempt: the delay is over. An error is caught by the caller, and
there is no attempt. -/
def due (attempts : Nat) (lastAttempt now : ℚ) : Prop :=
  attempts ≠ 0 → ∃ delay, retryDelay attempts = some delay ∧ delay ≤ now - lastAttempt

instance (attempts : Nat) (lastAttempt now : ℚ) : Decidable (due attempts lastAttempt now) :=
  decidable_of_iff (attempts ≠ 0 → (retryDelay attempts).any (· ≤ now - lastAttempt)) (by
    rw [due]
    cases retryDelay attempts <;> simp)

/-- `_REFRESH_MIN_INTERVAL_SECONDS`. -/
def refreshMinInterval : ℚ := 300

/-- What `identify_eg4_device` gives: the kind that is detected if none is cached yet, and the
metadata, unless a read raises. -/
structure Identification where
  kind : Option HardwareKind
  metadata : Option (Option Metadata)

/-- What `_read_battery_serial_fields` gives: the fields and whether every read succeeded, unless
it raises. -/
def BatteryPass := Option (Dict String String × Bool)

/-- The kind is detected once. -/
def detect (o : Identification) (t : Transport) : Transport :=
  { t with hardwareKind := t.hardwareKind.orElse fun _ => o.kind }

/-- The attempt of `get_cached_eg4_metadata`. -/
def retry (now : ℚ) (o : Identification) (t : Transport) : Transport :=
  let tried := detect o { t with cache := { t.cache with
    identifyAttempts := t.cache.identifyAttempts + 1
    identifyLastAttempt := now } }
  match o.metadata with
  | some (some fresh) =>
    if identificationComplete (some fresh) ∨ t.deviceMetadata = none then
      { tried with deviceMetadata := some fresh }
    else tried
  | _ => tried

/-- Whether `get_cached_eg4_metadata` reads the device. -/
def retries (now : ℚ) (t : Transport) : Prop :=
  identificationComplete t.deviceMetadata = false ∧
    due t.cache.identifyAttempts t.cache.identifyLastAttempt now

instance (now : ℚ) (t : Transport) : Decidable (retries now t) :=
  inferInstanceAs (Decidable (_ ∧ _))

/-- `get_cached_eg4_metadata`. -/
def getCachedMetadata (now : ℚ) (o : Identification) (t : Transport) : Transport :=
  if retries now t then retry now o t else t

/-- Whether `refresh_eg4_identification` reads the device. A time of zero is taken for none. -/
def refreshes (now : ℚ) (t : Transport) : Prop :=
  t.hardwareKind ≠ some .battery ∧
    ¬(t.cache.identifyLastAttempt ≠ 0 ∧ now - t.cache.identifyLastAttempt < refreshMinInterval)

instance (now : ℚ) (t : Transport) : Decidable (refreshes now t) :=
  inferInstanceAs (Decidable (_ ∧ _))

/-- The reads of `refresh_eg4_identification`. -/
def refresh (now : ℚ) (o : Identification) (t : Transport) : Transport :=
  let tried := detect o { t with cache := { t.cache with
    identifyLastAttempt := now
    batterySerialsLoaded := false
    batterySerialsAttempts := 0 } }
  match o.metadata with
  | some (some fresh) =>
    if identificationComplete (some fresh) ∨ identificationComplete t.deviceMetadata = false then
      { tried with deviceMetadata := some fresh }
    else tried
  | _ => tried

/-- The identification of `init_after_connect` on the first connect. -/
def identify (o : Identification) (t : Transport) : Transport :=
  let tried := detect o { t with identificationAttempted := true }
  match o.metadata with
  | some metadata => { tried with deviceMetadata := metadata }
  | none => tried

/-- `init_after_connect` of a transport with an EG4 protocol. -/
def initAfterConnect (now : ℚ) (o : Identification) (t : Transport) : Transport :=
  if t.identificationAttempted then if refreshes now t then refresh now o t else t
  else identify o t

/-- Whether `get_cached_battery_serial_fields` reads the device. -/
def readsSerials (now : ℚ) (t : Transport) : Prop :=
  t.cache.batterySerialsLoaded = false ∧
    due t.cache.batterySerialsAttempts t.cache.batterySerialsLastAttempt now

instance (now : ℚ) (t : Transport) : Decidable (readsSerials now t) :=
  inferInstanceAs (Decidable (_ ∧ _))

/-- The pass of `get_cached_battery_serial_fields`. -/
def readSerials (now : ℚ) (p : BatteryPass) (t : Transport) : Transport :=
  let tried := { t.cache with
    batterySerialsAttempts := t.cache.batterySerialsAttempts + 1
    batterySerialsLastAttempt := now }
  match p with
  | some (fields, complete) =>
    { t with cache := { tried with
        batterySerials := tried.batterySerials.update fields.items
        batterySerialsLoaded := complete } }
  | none => { t with cache := tried }

/-- `get_cached_battery_serial_fields`, which returns the dictionary it leaves. -/
def getCachedSerials (now : ℚ) (p : BatteryPass) (t : Transport) : Transport :=
  if readsSerials now t then readSerials now p t else t

/-! ## Runs -/

/-- A pass over the device that a connect or a reconnect started. -/
structure Identified where
  isRefresh : Bool
  time : ℚ

/-- A transport and its history. -/
structure State where
  transport : Transport
  /-- the clock when it was last read -/
  clock : ℚ
  /-- the retries of cycles, the last one first -/
  retries : List ℚ
  /-- the passes of connects, the last one first -/
  identified : List Identified
  /-- how often the device was read, by a connect or by a cycle -/
  passes : Nat
  /-- there was a complete identification -/
  wasComplete : Bool
  /-- there was a refresh -/
  refreshed : Bool
  /-- the fields of a complete battery pass since the last refresh -/
  decoded : Option (Dict String String)

/-- What happens to a transport: a connect at a time, or a scrape cycle, which reads the clock once
for the identification and once for the serial numbers. -/
inductive Event
  | connect (now : ℚ) (o : Identification)
  | cycle (now : ℚ) (o : Identification) (later : ℚ) (p : BatteryPass)

/-- A connect. -/
def State.connect (now : ℚ) (o : Identification) (s : State) : State :=
  let t := initAfterConnect now o s.transport
  let wasComplete := s.wasComplete || identificationComplete t.deviceMetadata
  if s.transport.identificationAttempted then
    if refreshes now s.transport then
      { s with
        transport := t
        clock := now
        identified := ⟨true, now⟩ :: s.identified
        passes := s.passes + 1
        wasComplete := wasComplete
        refreshed := true
        decoded := none }
    else { s with transport := t, clock := now }
  else
    { s with
      transport := t
      clock := now
      identified := ⟨false, now⟩ :: s.identified
      passes := s.passes + 1
      wasComplete := wasComplete }

/-- The identification of a cycle. -/
def State.identification (now : ℚ) (o : Identification) (s : State) : State :=
  let t := getCachedMetadata now o s.transport
  if Eg4.retries now s.transport then
    { s with
      transport := t
      clock := now
      retries := now :: s.retries
      passes := s.passes + 1
      wasComplete := s.wasComplete || identificationComplete t.deviceMetadata }
  else { s with transport := t, clock := now }

/-- The serial numbers of a cycle. -/
def State.serials (now : ℚ) (p : BatteryPass) (s : State) : State :=
  let t := getCachedSerials now p s.transport
  if readsSerials now s.transport then
    { s with
      transport := t
      clock := now
      passes := s.passes + 1
      decoded :=
        match p with
        | some (fields, true) => if s.refreshed then some fields else s.decoded
        | _ => s.decoded }
  else { s with transport := t, clock := now }

/-- An event, at a time that is not before the last one. -/
inductive Step : State → Event → State → Prop
  | connect {s : State} {now : ℚ} {o : Identification} : s.clock ≤ now →
    Step s (.connect now o) (s.connect now o)
  | cycle {s : State} {now later : ℚ} {o : Identification} {p : BatteryPass} : s.clock ≤ now →
    now ≤ later → Step s (.cycle now o later p) ((s.identification now o).serials later p)

/-- A transport that has not connected yet. -/
def new (clock : ℚ) : State where
  transport := {
    deviceMetadata := none
    hardwareKind := none
    identificationAttempted := false
    cache := {
      identifyAttempts := 0
      identifyLastAttempt := 0
      batterySerials := Dict.empty
      batterySerialsLoaded := false
      batterySerialsAttempts := 0
      batterySerialsLastAttempt := 0 } }
  clock
  retries := []
  identified := []
  passes := 0
  wasComplete := false
  refreshed := false
  decoded := none

/-- The life of a transport. The clock is `time.monotonic()`. -/
def system : Runs.System State Event where
  init s := ∃ clock, 0 ≤ clock ∧ s = new clock
  step := Step

/-! ## What the cache promises -/

/-- The seconds between a retry and the next one, by the number of retries so far. -/
def spacing (count : Nat) : ℚ := min (60 * 2 ^ (count - 1)) 3600

/-- Retries, the last one first, each of which kept its distance. -/
def Spaced : List ℚ → Prop
  | later :: earlier :: rest =>
    spacing (rest.length + 1) ≤ later - earlier ∧ Spaced (earlier :: rest)
  | _ => True

/-- Nothing is left to be read. -/
def Transport.Settled (t : Transport) : Prop :=
  identificationComplete t.deviceMetadata = true ∧ t.cache.batterySerialsLoaded = true

/-- What holds of a transport and its history. -/
structure Sound (s : State) : Prop where
  /-- a complete identification is never replaced by an incomplete one -/
  complete : s.wasComplete = true → identificationComplete s.transport.deviceMetadata = true
  /-- retries keep growing distances -/
  spaced : Spaced s.retries
  /-- no refresh comes within 300 seconds of an identification -/
  quiet : s.identified.Pairwise fun later earlier =>
    later.isRefresh = true → earlier.time + refreshMinInterval ≤ later.time
  /-- after a refresh and a complete pass, the serial numbers are those the pass decoded -/
  exact : ∀ fields, s.decoded = some fields →
    s.transport.cache.batterySerialsLoaded = true ∧
      ∀ name, s.transport.cache.batterySerials.get? name = fields.get? name

/-- The condition on the environment. The first pass does not find a complete identification and
lose it; a refresh that is not skipped comes 300 seconds after the first pass or later, and not at
the time zero; and a complete battery pass after a refresh finds every module that is known. -/
def Guard (s : State) : Event → Prop
  | .connect now o =>
    if s.transport.identificationAttempted then
      refreshes now s.transport →
        now ≠ 0 ∧ ∀ i ∈ s.identified, i.isRefresh = false → i.time + refreshMinInterval ≤ now
    else
      identificationComplete s.transport.deviceMetadata = true →
        ∀ metadata, o.metadata = some metadata → identificationComplete metadata = true
  | .cycle _ _ later p =>
    s.refreshed = true → readsSerials later s.transport → ∀ fields, p = some (fields, true) →
      ∀ name ∈ s.transport.cache.batterySerials.keys, name ∈ fields.keys

/-! ## The invariant -/

/-- The invariant of guarded runs: the promise, and what the history says about the cache. -/
structure Inv (s : State) : Prop extends Sound s where
  attempts : s.transport.cache.identifyAttempts = s.retries.length
  retried : ∀ t ∈ s.retries.head?, t ≤ s.transport.cache.identifyLastAttempt ∧ t ≤ s.clock
  refreshes_pos : ∀ i ∈ s.identified, i.isRefresh = true →
    0 < i.time ∧ i.time ≤ s.transport.cache.identifyLastAttempt ∧ i.time ≤ s.clock
  clock_nonneg : 0 ≤ s.clock

theorem inv_new {clock : ℚ} (h : 0 ≤ clock) : Inv (new clock) where
  complete hw := by cases hw
  spaced := trivial
  quiet := List.Pairwise.nil
  exact _ hd := by cases hd
  attempts := rfl
  retried _ ht := by cases ht
  refreshes_pos _ hi := by cases hi
  clock_nonneg := h

variable {s : State} {now : ℚ} {o : Identification} {p : BatteryPass} {t : Transport}

/-- An attempt keeps a complete identification. -/
theorem complete_retry (h : identificationComplete t.deviceMetadata = true) :
    identificationComplete (retry now o t).deviceMetadata = true := by
  unfold retry detect
  dsimp only
  split
  · split
    · next hfresh =>
      rcases hfresh with hfresh | hnone
      · exact hfresh
      · rw [hnone] at h
        cases h
    · exact h
  · exact h

theorem complete_refresh (h : identificationComplete t.deviceMetadata = true) :
    identificationComplete (refresh now o t).deviceMetadata = true := by
  unfold refresh detect
  dsimp only
  split
  · split
    · next hfresh =>
      rcases hfresh with hfresh | hnone
      · exact hfresh
      · rw [hnone] at h
        cases h
    · exact h
  · exact h

/-- What an attempt leaves in the cache. -/
theorem cache_retry : (retry now o t).cache = { t.cache with
    identifyAttempts := t.cache.identifyAttempts + 1
    identifyLastAttempt := now } := by
  unfold retry detect
  dsimp only
  split
  · split <;> rfl
  · rfl

theorem cache_refresh : (refresh now o t).cache = { t.cache with
    identifyLastAttempt := now
    batterySerialsLoaded := false
    batterySerialsAttempts := 0 } := by
  unfold refresh detect
  dsimp only
  split
  · split <;> rfl
  · rfl

theorem cache_identify : (identify o t).cache = t.cache := by
  unfold identify detect
  dsimp only
  split <;> rfl

theorem metadata_readSerials : (readSerials now p t).deviceMetadata = t.deviceMetadata := by
  unfold readSerials
  dsimp only
  split <;> rfl

theorem identify_readSerials :
    (readSerials now p t).cache.identifyAttempts = t.cache.identifyAttempts ∧
      (readSerials now p t).cache.identifyLastAttempt = t.cache.identifyLastAttempt := by
  unfold readSerials
  dsimp only
  split <;> exact ⟨rfl, rfl⟩

/-- An attempt that is due comes when its distance is over. -/
theorem spacing_of_due {count : Nat} {last : ℚ} (h : due (count + 1) last now) :
    spacing (count + 1) ≤ now - last := by
  obtain ⟨delay, hdelay, hle⟩ := h (Nat.succ_ne_zero count)
  rw [retryDelay, if_neg (Nat.succ_ne_zero count)] at hdelay
  split at hdelay
  · cases hdelay
  · obtain rfl := Option.some.inj hdelay
    exact hle

/-- **The identification of a cycle** keeps the invariant. -/
theorem inv_identification (h : Inv s) (hclock : s.clock ≤ now) :
    Inv (s.identification now o) := by
  unfold State.identification getCachedMetadata
  dsimp only
  split
  · next hretry =>
    refine {
      complete := ?_
      spaced := ?_
      quiet := h.quiet
      exact := ?_
      attempts := ?_
      retried := ?_
      refreshes_pos := ?_
      clock_nonneg := le_trans h.clock_nonneg hclock }
    · intro hw
      rcases Bool.or_eq_true_iff.mp hw with hw | hw
      · exact complete_retry (h.complete hw)
      · exact hw
    · have hattempts := h.attempts
      have hretried := h.retried
      have hspaced := h.spaced
      obtain ⟨-, hdue⟩ := hretry
      cases hlist : s.retries with
      | nil => exact trivial
      | cons last rest =>
        rw [hlist] at hattempts hretried hspaced
        rw [hattempts, List.length_cons] at hdue
        have hlast := (hretried last rfl).1
        exact ⟨le_trans (spacing_of_due hdue) (sub_le_sub_left hlast now), hspaced⟩
    · intro fields hdecoded
      rw [cache_retry]
      exact h.exact fields hdecoded
    · rw [cache_retry, List.length_cons, ← h.attempts]
    · intro t ht
      obtain rfl := Option.some.inj ht
      rw [cache_retry]
      exact ⟨le_refl _, le_refl _⟩
    · intro i hi hrefresh
      obtain ⟨hpos, -, hle⟩ := h.refreshes_pos i hi hrefresh
      rw [cache_retry]
      exact ⟨hpos, le_trans hle hclock, le_trans hle hclock⟩
  · exact {
      complete := h.complete
      spaced := h.spaced
      quiet := h.quiet
      exact := h.exact
      attempts := h.attempts
      retried := fun t ht => ⟨(h.retried t ht).1, le_trans (h.retried t ht).2 hclock⟩
      refreshes_pos := fun i hi hrefresh => by
        obtain ⟨hpos, hlast, hle⟩ := h.refreshes_pos i hi hrefresh
        exact ⟨hpos, hlast, le_trans hle hclock⟩
      clock_nonneg := le_trans h.clock_nonneg hclock }

/-- A pass that finds every module that is known leaves its own fields. -/
theorem get?_update_of_keys {d fields : Dict String String}
    (h : ∀ name ∈ d.keys, name ∈ fields.keys) (name : String) :
    (d.update fields.items).get? name = fields.get? name := by
  rw [Dict.get?_update fields.nodup]
  change (fields.get? name).or (d.get? name) = fields.get? name
  cases hfound : fields.get? name with
  | some value => rfl
  | none =>
    have habsent : name ∉ d.keys := fun hmem => Dict.get?_eq_none_iff.mp hfound (h name hmem)
    rw [Dict.get?_eq_none_iff.mpr habsent]
    rfl

/-- **The serial numbers of a cycle** keep the invariant when a complete pass after a refresh finds
every module that is known. -/
theorem inv_serials (h : Inv s) (hclock : s.clock ≤ now)
    (hg : s.refreshed = true → readsSerials now s.transport → ∀ fields, p = some (fields, true) →
      ∀ name ∈ s.transport.cache.batterySerials.keys, name ∈ fields.keys) :
    Inv (s.serials now p) := by
  have hretried : ∀ t ∈ s.retries.head?,
      t ≤ s.transport.cache.identifyLastAttempt ∧ t ≤ now :=
    fun t ht => ⟨(h.retried t ht).1, le_trans (h.retried t ht).2 hclock⟩
  have hrefreshes : ∀ i ∈ s.identified, i.isRefresh = true →
      0 < i.time ∧ i.time ≤ s.transport.cache.identifyLastAttempt ∧ i.time ≤ now := by
    intro i hi hrefresh
    obtain ⟨hpos, hlast, hle⟩ := h.refreshes_pos i hi hrefresh
    exact ⟨hpos, hlast, le_trans hle hclock⟩
  unfold State.serials getCachedSerials
  dsimp only
  split
  · next hreads =>
    refine {
      complete := ?_
      spaced := h.spaced
      quiet := h.quiet
      exact := ?_
      attempts := identify_readSerials.1.trans h.attempts
      retried := ?_
      refreshes_pos := ?_
      clock_nonneg := le_trans h.clock_nonneg hclock }
    · rw [metadata_readSerials]
      exact h.complete
    · -- the pass of an earlier refresh is over only when the serial numbers are loaded
      have hnone : s.decoded = none := by
        by_contra hsome
        obtain ⟨fields, hfields⟩ := Option.ne_none_iff_exists'.mp hsome
        have hopen := hreads.1
        rw [(h.exact fields hfields).1] at hopen
        cases hopen
      intro fields hdecoded
      dsimp only at hdecoded
      split at hdecoded
      · next decoded =>
        split at hdecoded
        · next hrefreshed =>
          obtain rfl := Option.some.inj hdecoded
          exact ⟨rfl, get?_update_of_keys (hg hrefreshed hreads decoded rfl)⟩
        · rw [hnone] at hdecoded
          cases hdecoded
      · rw [hnone] at hdecoded
        cases hdecoded
    · rw [identify_readSerials.2]
      exact hretried
    · rw [identify_readSerials.2]
      exact hrefreshes
  · exact {
      complete := h.complete
      spaced := h.spaced
      quiet := h.quiet
      exact := h.exact
      attempts := h.attempts
      retried := hretried
      refreshes_pos := hrefreshes
      clock_nonneg := le_trans h.clock_nonneg hclock }

/-- **A connect** keeps the invariant under the guard. -/
theorem inv_connect (h : Inv s) (hclock : s.clock ≤ now) (hg : Guard s (.connect now o)) :
    Inv (s.connect now o) := by
  have hnonneg : 0 ≤ now := le_trans h.clock_nonneg hclock
  have hrefreshes : ∀ i ∈ s.identified, i.isRefresh = true →
      0 < i.time ∧ i.time ≤ s.transport.cache.identifyLastAttempt ∧ i.time ≤ now := by
    intro i hi hrefresh
    obtain ⟨hpos, hlast, hle⟩ := h.refreshes_pos i hi hrefresh
    exact ⟨hpos, hlast, le_trans hle hclock⟩
  unfold State.connect initAfterConnect
  dsimp only [Guard] at hg ⊢
  split
  · next hattempted =>
    rw [if_pos hattempted] at hg
    split
    · next hrefresh =>
      obtain ⟨hnow, hfirst⟩ := hg hrefresh
      refine {
        complete := ?_
        spaced := h.spaced
        quiet := ?_
        exact := fun fields hdecoded => by cases hdecoded
        attempts := ?_
        retried := ?_
        refreshes_pos := ?_
        clock_nonneg := hnonneg }
      · intro hw
        rcases Bool.or_eq_true_iff.mp hw with hw | hw
        · exact complete_refresh (h.complete hw)
        · exact hw
      · refine List.pairwise_cons.mpr ⟨fun i hi _ => ?_, h.quiet⟩
        by_cases hkind : i.isRefresh = true
        · -- the cache knows the time of a refresh
          obtain ⟨hpos, hlast, -⟩ := h.refreshes_pos i hi hkind
          have hne : s.transport.cache.identifyLastAttempt ≠ 0 := (lt_of_lt_of_le hpos hlast).ne'
          have hlong : refreshMinInterval ≤ now - s.transport.cache.identifyLastAttempt :=
            not_lt.mp fun hlt => hrefresh.2 ⟨hne, hlt⟩
          linarith
        · exact hfirst i hi (Bool.not_eq_true _ ▸ hkind)
      · rw [cache_refresh]
        exact h.attempts
      · rw [cache_refresh]
        intro t ht
        have hle := le_trans (h.retried t ht).2 hclock
        exact ⟨hle, hle⟩
      · rw [cache_refresh]
        intro i hi hkind
        rcases List.mem_cons.mp hi with rfl | hi
        · exact ⟨lt_of_le_of_ne hnonneg (Ne.symm hnow), le_refl _, le_refl _⟩
        · obtain ⟨hpos, -, hle⟩ := hrefreshes i hi hkind
          exact ⟨hpos, hle, hle⟩
    · exact {
        complete := h.complete
        spaced := h.spaced
        quiet := h.quiet
        exact := h.exact
        attempts := h.attempts
        retried := fun t ht => ⟨(h.retried t ht).1, le_trans (h.retried t ht).2 hclock⟩
        refreshes_pos := hrefreshes
        clock_nonneg := hnonneg }
  · next hattempted =>
    rw [if_neg hattempted] at hg
    refine {
      complete := ?_
      spaced := h.spaced
      quiet := ?_
      exact := ?_
      attempts := ?_
      retried := ?_
      refreshes_pos := ?_
      clock_nonneg := hnonneg }
    · intro hw
      rcases Bool.or_eq_true_iff.mp hw with hw | hw
      · have hbefore := h.complete hw
        unfold identify detect
        dsimp only
        split
        · next metadata hmetadata => exact hg hbefore metadata hmetadata
        · exact hbefore
      · exact hw
    · refine List.pairwise_cons.mpr ⟨fun i _ hkind => ?_, h.quiet⟩
      cases hkind
    · rw [cache_identify]
      exact h.exact
    · rw [cache_identify]
      exact h.attempts
    · rw [cache_identify]
      exact fun t ht => ⟨(h.retried t ht).1, le_trans (h.retried t ht).2 hclock⟩
    · rw [cache_identify]
      intro i hi hkind
      rcases List.mem_cons.mp hi with rfl | hi
      · cases hkind
      · exact hrefreshes i hi hkind

/-- **Guarded runs** keep the invariant. -/
theorem inv_of_reach (h : Runs.Reach system Guard s) : Inv s := by
  refine h.invariant ?_ ?_
  · rintro s ⟨clock, hclock, rfl⟩
    exact inv_new hclock
  · intro s i s' _ hinv hg hstep
    cases hstep with
    | connect hclock => exact inv_connect hinv hclock hg
    | @cycle now later o p hclock hlater =>
      -- the identification does not touch what the guard is about
      have hkept : (s.identification now o).transport.cache.batterySerials =
            s.transport.cache.batterySerials ∧
          (s.identification now o).refreshed = s.refreshed ∧
          (s.identification now o).clock = now ∧
          (readsSerials later (s.identification now o).transport ↔
            readsSerials later s.transport) := by
        unfold State.identification getCachedMetadata
        dsimp only
        split
        · refine ⟨by rw [cache_retry], rfl, rfl, ?_⟩
          rw [readsSerials, readsSerials, cache_retry]
        · exact ⟨rfl, rfl, rfl, Iff.rfl⟩
      obtain ⟨hserials, hrefreshed, hnow, hreads⟩ := hkept
      refine inv_serials (inv_identification hinv hclock) (hnow.symm ▸ hlater) ?_
      rw [hserials, hrefreshed, hreads]
      exact hg

/-! ## Nothing left to read -/

/-- Scrape cycles, one after the other. -/
def Cycles : State → State → Prop :=
  Relation.ReflTransGen fun s s' => ∃ now o later p, Step s (.cycle now o later p) s'

/-- A complete identification is not tried again. -/
theorem identification_of_complete
    (h : identificationComplete s.transport.deviceMetadata = true) :
    s.identification now o = { s with clock := now } := by
  have hretry : ¬retries now s.transport := fun hr => by
    have hopen := hr.1
    rw [h] at hopen
    cases hopen
  rw [State.identification, getCachedMetadata, if_neg hretry, if_neg hretry]

/-- A cycle of a settled transport reads nothing. -/
theorem settled_cycle {later : ℚ} (h : s.transport.Settled) :
    (((s.identification now o).serials later p).transport = s.transport) ∧
      ((s.identification now o).serials later p).passes = s.passes := by
  have hreads : ¬readsSerials later s.transport := fun hr => by
    have hopen := hr.1
    rw [h.2] at hopen
    cases hopen
  rw [identification_of_complete h.1]
  unfold State.serials getCachedSerials
  rw [if_neg hreads, if_neg hreads]
  exact ⟨rfl, rfl⟩

theorem settled_cycles {s' : State} (h : s.transport.Settled) (hrun : Cycles s s') :
    s'.transport = s.transport ∧ s'.passes = s.passes := by
  induction hrun with
  | refl => exact ⟨rfl, rfl⟩
  | tail _ hstep ih =>
    obtain ⟨now, o, later, p, hstep⟩ := hstep
    obtain ⟨htransport, hpasses⟩ := ih
    cases hstep with
    | cycle _ _ =>
      obtain ⟨hsame, hquiet⟩ := settled_cycle (htransport ▸ h)
      exact ⟨hsame.trans htransport, hquiet.trans hpasses⟩

/-- **The identification cache.** In every run under the guard a complete identification stays
complete, the retries of the cycles keep their distances, a refresh keeps 300 seconds from the
identification before it, and the serial numbers after a refresh and a complete pass are those of
the pass; and cycles of a transport with nothing left to read do not read the device. -/
theorem identification_sound (h : Runs.Reach system Guard s) :
    Sound s ∧ (s.transport.Settled → ∀ s', Cycles s s' → s'.passes = s.passes) :=
  ⟨(inv_of_reach h).toSound, fun hsettled _ hrun => (settled_cycles hsettled hrun).2⟩

/-! ### A run that keeps the promise, and two that do not -/

/-- An inverter that answers. -/
def answering : Identification where
  kind := some .inverter
  metadata := some (some (.inverter "4401234567"))

/-- A pass over one battery module, and one over two. -/
def oneModule : Dict String String := Dict.empty.set "batteryserialnumber_1" "B1"

def twoModules : Dict String String := oneModule.set "batteryserialnumber_2" "B2"

/-- A connect does not touch the serial numbers. -/
theorem serials_connect : (s.connect now o).transport.cache.batterySerials =
    s.transport.cache.batterySerials := by
  unfold State.connect initAfterConnect
  dsimp only
  split
  · split
    · rw [cache_refresh]
    · rfl
  · rw [cache_identify]

theorem clock_connect : (s.connect now o).clock = now := by
  unfold State.connect
  dsimp only
  split
  · split <;> rfl
  · rfl

/-- A refresh 390 seconds after the first connect, and a cycle. -/
theorem sound_refreshed : Sound (((((new 0).connect 10 answering).connect 400
    answering).identification 410 answering).serials 411 (some (oneModule, true))) := by
  have hfirst : Runs.Reach system Guard ((new 0).connect 10 answering) := by
    refine .step (.init ⟨0, le_refl _, rfl⟩) ?_ (.connect ?_)
    · intro hcomplete
      cases hcomplete
    · norm_num [new]
  have hsecond :
      Runs.Reach system Guard (((new 0).connect 10 answering).connect 400 answering) := by
    refine .step hfirst ?_ (.connect ?_)
    · intro _
      refine ⟨by norm_num, ?_⟩
      intro i hi _
      obtain rfl := List.mem_singleton.mp hi
      norm_num [refreshMinInterval]
    · show (10 : ℚ) ≤ 400
      norm_num
  refine (identification_sound (.step hsecond ?_ (.cycle ?_ ?_))).1
  · intro _ _ fields _ name hname
    rw [serials_connect, serials_connect] at hname
    cases hname
  · rw [clock_connect]
    norm_num
  · norm_num

/-- A refresh that is not skipped. -/
theorem connect_of_refreshes (hattempted : s.transport.identificationAttempted = true)
    (hrefreshes : refreshes now s.transport) :
    (s.connect now o).transport = refresh now o s.transport ∧
      (s.connect now o).identified = ⟨true, now⟩ :: s.identified ∧
        (s.connect now o).refreshed = true := by
  unfold State.connect initAfterConnect
  rw [if_pos hattempted, if_pos hattempted, if_pos hrefreshes, if_pos hrefreshes]
  exact ⟨rfl, rfl, rfl⟩

/-- A complete pass. -/
theorem serials_of_reads {fields : Dict String String} (h : readsSerials now s.transport) :
    (s.serials now (some (fields, true))).transport.cache.batterySerials =
        s.transport.cache.batterySerials.update fields.items ∧
      (s.serials now (some (fields, true))).decoded =
        if s.refreshed then some fields else s.decoded := by
  unfold State.serials getCachedSerials
  rw [if_pos h, if_pos h]
  exact ⟨rfl, rfl⟩

/-- A reconnect 10 seconds after the first connect refreshes; and a module that was taken out before
a refresh is still reported after the next pass. -/
theorem not_sound : (¬ ∀ s, Runs.Reachable system s → Sound s) ∧
    ¬ ∀ s, Runs.Reachable system s → ∀ fields, s.decoded = some fields →
      ∀ name, s.transport.cache.batterySerials.get? name = fields.get? name := by
  have hfirst : Runs.Reachable system ((new 0).connect 10 answering) :=
    .step (.init ⟨0, le_refl _, rfl⟩) trivial (.connect (by norm_num [new]))
  have hrefreshes (now : ℚ) : refreshes now ((new 0).connect 10 answering).transport :=
    ⟨fun hkind => (by cases hkind), fun hlast => hlast.1 rfl⟩
  constructor
  · intro hall
    have hsecond : Runs.Reachable system (((new 0).connect 10 answering).connect 20 answering) :=
      .step hfirst trivial (.connect (by rw [clock_connect]; norm_num))
    have hquiet := (hall _ hsecond).quiet
    rw [(connect_of_refreshes rfl (hrefreshes 20)).2.1] at hquiet
    have hgap := (List.pairwise_cons.mp hquiet).1 ⟨false, 10⟩ (.head _) rfl
    norm_num [refreshMinInterval] at hgap
  · intro hall
    -- two modules before the refresh, one after it
    obtain ⟨s, hs⟩ : ∃ s, s = (((new 0).connect 10 answering).identification 11
        answering).serials 12 (some (twoModules, true)) := ⟨_, rfl⟩
    have hcycle : Runs.Reachable system s :=
      hs ▸ .step hfirst trivial (.cycle (by rw [clock_connect]; norm_num) (by norm_num))
    have heq : s = { (new 0).connect 10 answering with
        transport := readSerials 12 (some (twoModules, true))
          ((new 0).connect 10 answering).transport
        clock := 12
        passes := 2 } := by
      have hreads : readsSerials 12 ((new 0).connect 10 answering).transport :=
        ⟨rfl, fun hne => absurd rfl hne⟩
      rw [hs, identification_of_complete rfl]
      unfold State.serials getCachedSerials
      rw [if_pos hreads, if_pos hreads]
      rfl
    have hrefresh : refreshes 400 s.transport := by
      rw [heq]
      exact ⟨fun hkind => (by cases hkind), fun hlast => hlast.1 rfl⟩
    obtain ⟨htransport, -, hrefreshed⟩ :=
      connect_of_refreshes (o := answering) (show _ = true by rw [heq]; rfl) hrefresh
    have hreconnect : Runs.Reachable system (s.connect 400 answering) :=
      .step hcycle trivial (.connect (by rw [heq]; norm_num))
    have hcomplete :
        identificationComplete (s.connect 400 answering).transport.deviceMetadata = true := by
      rw [htransport, heq]
      rfl
    have hreads : readsSerials 411 (s.connect 400 answering).transport := by
      rw [htransport, readsSerials, cache_refresh]
      exact ⟨rfl, fun hne => absurd rfl hne⟩
    have hlast : Runs.Reachable system (((s.connect 400 answering).identification 410
        answering).serials 411 (some (oneModule, true))) :=
      .step hreconnect trivial (.cycle (by rw [clock_connect]; norm_num) (by norm_num))
    have hexact := hall _ hlast oneModule
    rw [identification_of_complete hcomplete] at hexact
    obtain ⟨hserials, hdecoded⟩ :=
      @serials_of_reads { s.connect 400 answering with clock := 410 } 411 oneModule hreads
    rw [hdecoded, if_pos hrefreshed, hserials, serials_connect, heq] at hexact
    exact absurd (hexact rfl "batteryserialnumber_2") (by decide)

end Eg4

end ProtocolGateway
