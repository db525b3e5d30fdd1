import Mathlib.Data.List.Count
import ProtocolGateway.FailureTracker
import ProtocolGateway.ReadPlan
import ProtocolGateway.Values

/-!
# The read loop of a Modbus transport

`read_modbus_registers` reads a list of register ranges one after the other. A range that fails is
tried again as long as there is credit: every retry uses some up, and every range that is read gives
some back. Ranges that the failure tracker has disabled are passed over.

* `batchRanges` — the ranges that the call makes of a start and an end.
* `visit`, `readLoop` — one turn of the loop, and the loop.
* `readLoop_eq_some` — the loop ends, within twice as many turns as there are ranges and eight more.
* `served_iff` — every range ends counted complete once or marked incomplete, for all devices,
  exactly when no range is in the list twice.
* `readsExactly_iff` — the requests for a start and an end cover the interval exactly when the
  batch size divides its length.
-/

namespace ProtocolGateway

/-! ## The ranges of a call -/

/-- The ranges made of the addresses from `start` to `last`. The end is moved on by one before the
last count is taken from it. -/
def batchRanges (start last batchSize : Int) : Except PyError (List (Int × Int)) :=
  if batchSize ≤ 0 ∧ start < last + 1 then .error .diverges
  else .ok ((pyRange start (last + 1) batchSize).map fun start =>
    (start, if last + 1 < start + batchSize then last + 1 - start + 1 else batchSize))

/-- The ranges `read_modbus_registers` reads: those it is given, or those it makes of `start` and
`end`. Without an `end` there are none. -/
def callRanges (ranges : List (Int × Int)) (start : Int) (last : Option Int) (batchSize : Int) :
    Except PyError (List (Int × Int)) :=
  match ranges, last with
  | [], none => .ok []
  | [], some last => batchRanges start last batchSize
  | ranges, _ => .ok ranges

/-! ## One turn -/

/-- What `read_registers` gives back. Exceptions other than `ModbusIOException` leave the call. -/
inductive ReadResponse
  /-- `None`, a text in place of an answer, a Modbus error, or a `ModbusIOException` -/
  | error
  /-- an answer, and the values `_extract_response_values` takes from it -/
  | registers (extracted : Option (List (Int × Int)))

/-- What the loop finds at one of its turns. -/
structure ReadTurn where
  /-- what other calls do to the trackers before the turn -/
  before : List FailureEvent := []
  /-- the clock when the tracker is asked -/
  askedAt : Timestamp := 0
  response : ReadResponse
  /-- the connection when a failure is recorded -/
  connected : Bool := true
  /-- the clock when the outcome is recorded -/
  recordedAt : Timestamp := 0

/-- `TransportCycleResult`, the part that the loop keeps. -/
structure CycleResult where
  expectedUnits : Nat := 0
  completedUnits : Nat := 0
  skippedUnits : Nat := 0
  isComplete : Bool := true
  deriving DecidableEq

/-- How a turn leaves its range. -/
inductive TurnKind
  /-- passed over as disabled, and marked incomplete -/
  | skipped
  /-- failed, to be tried again -/
  | failed
  /-- failed without credit, and marked incomplete -/
  | gaveUp
  /-- read, and counted complete -/
  | read
  deriving DecidableEq

/-- The locals of the loop and what it changes of the transport. -/
structure ReadState where
  /-- the range that is next, one after the `index` of the source at the loop's head -/
  next : Nat := 0
  retry : Nat := 0
  totalRetries : Nat := 0
  countedRanges : List (Int × Int) := []
  trackers : FailureTracking
  modbusDelay : ℚ
  cycle : CycleResult := {}
  registry : Dict Int Int := .empty
  /-- the turns so far, the last one first -/
  turns : List ((Int × Int) × TurnKind) := []

/-- The settings the loop reads. -/
structure ReadSettings extends FailureSettings where
  modbusDelaySetting : ℚ := 0
  modbusDelayIncrement : ℚ := 0

/-- `retries`. -/
def maxRetries : Nat := 7

namespace ReadState

/-- `cycle_mark_incomplete()`. -/
def markIncomplete (s : ReadState) : ReadState :=
  { s with cycle := { s.cycle with isComplete := false, skippedUnits := s.cycle.skippedUnits + 1 } }

/-- `_cycle_expect_unit()`, the first time a range is met. -/
def expect (s : ReadState) (range : Int × Int) : ReadState :=
  if range ∈ s.countedRanges then s
  else { s with
    countedRanges := range :: s.countedRanges
    cycle := { s.cycle with expectedUnits := s.cycle.expectedUnits + 1 } }

/-- The turn is over. -/
def turn (s : ReadState) (range : Int × Int) (kind : TurnKind) : ReadState :=
  { s with turns := (range, kind) :: s.turns }

/-- Longer pauses after an error, up to a minute. -/
def slowDown (s : ReadState) (settings : ReadSettings) : ReadState :=
  let delay := s.modbusDelay + settings.modbusDelayIncrement
  { s with modbusDelay := if 60 < delay then 60 else delay }

/-- Shorter pauses after an answer, down to the setting. -/
def speedUp (s : ReadState) (settings : ReadSettings) : ReadState :=
  if settings.modbusDelaySetting < s.modbusDelay then
    let delay := s.modbusDelay - settings.modbusDelayIncrement
    { s with
      modbusDelay :=
        if delay < settings.modbusDelaySetting then settings.modbusDelaySetting else delay }
  else s

/-- The turn of a range that failed: it stays next as long as there is credit. -/
def onError (settings : ReadSettings) (key : RangeKey) (found : ReadTurn) (s : ReadState) :
    ReadState :=
  let s := { s with
    trackers := s.trackers.recordReadFailure settings.toFailureSettings found.connected key
      found.recordedAt }
  let s := s.slowDown settings
  if maxRetries < s.retry then
    { (s.markIncomplete.turn key.registerRange .gaveUp) with next := s.next + 1 }
  else
    { (s.turn key.registerRange .failed) with
      retry := s.retry + 1, totalRetries := s.totalRetries + 1 }

/-- The turn of a range that was read. -/
def onAnswer (settings : ReadSettings) (key : RangeKey) (found : ReadTurn)
    (extracted : Option (List (Int × Int))) (s : ReadState) : ReadState :=
  let s := s.speedUp settings
  { (s.turn key.registerRange .read) with
    trackers := s.trackers.recordReadSuccess settings.toFailureSettings key found.recordedAt
    cycle := { s.cycle with completedUnits := s.cycle.completedUnits + 1 }
    retry := s.retry - 1
    registry := (extracted.map s.registry.update).getD s.registry
    next := s.next + 1 }

/-- One turn of the loop, at the range that is next. -/
def visit (settings : ReadSettings) (registryType : RegistryType) (range : Int × Int)
    (found : ReadTurn) (s : ReadState) : ReadState :=
  let key : RangeKey := ⟨registryType, range⟩
  let s := s.expect range
  let trackers := found.before.foldl (FailureTracking.step settings.toFailureSettings) s.trackers
  let (isDisabled, trackers) :=
    trackers.isRangeDisabled settings.toFailureSettings key found.askedAt
  let s := { s with trackers }
  if isDisabled then { (s.markIncomplete.turn range .skipped) with next := s.next + 1 }
  else
    match found.response with
    | .error => s.onError settings key found
    | .registers extracted => s.onAnswer settings key found extracted

end ReadState

/-! ## The loop -/

/-- The loop, for so many turns at most: `found` is what the turns find, from the `k`-th on. -/
def readLoop (settings : ReadSettings) (registryType : RegistryType) (ranges : List (Int × Int))
    (found : Nat → ReadTurn) : Nat → Nat → ReadState → Option ReadState
  | fuel, k, s =>
    match ranges[s.next]? with
    | none => some s
    | some range =>
      match fuel with
      | 0 => none
      | fuel + 1 => readLoop settings registryType ranges found fuel (k + 1)
          (s.visit settings registryType range (found k))

/-- The loop of `read_modbus_registers` over a list of ranges. -/
def readRanges (settings : ReadSettings) (registryType : RegistryType) (ranges : List (Int × Int))
    (found : Nat → ReadTurn) (trackers : FailureTracking) (modbusDelay : ℚ) : Option ReadState :=
  readLoop settings registryType ranges found (2 * ranges.length + 8) 0 { trackers, modbusDelay }

/-- `read_modbus_registers`, with the state the loop leaves. -/
def readModbusRegisters (settings : ReadSettings) (registryType : RegistryType)
    (ranges : List (Int × Int)) (start : Int) (last : Option Int) (batchSize : Int)
    (found : Nat → ReadTurn) (trackers : FailureTracking) (modbusDelay : ℚ) :
    Except PyError ReadState := do
  let ranges ← callRanges ranges start last batchSize
  match readRanges settings registryType ranges found trackers modbusDelay with
  | some s => return s
  | none => throw .diverges

/-- The read requests that were issued, in their order. -/
def ReadState.requests (s : ReadState) : List (Int × Int) :=
  (s.turns.reverse.filter (·.2 ≠ .skipped)).map Prod.fst

/-! ## What a turn does -/

section Turns

variable {settings : ReadSettings} {registryType : RegistryType} {ranges : List (Int × Int)}

namespace ReadState

@[simp] theorem expect_turns (s : ReadState) (range : Int × Int) :
    (s.expect range).turns = s.turns := by
  rw [expect]
  split_ifs <;> rfl

@[simp] theorem expect_next (s : ReadState) (range : Int × Int) :
    (s.expect range).next = s.next := by
  rw [expect]
  split_ifs <;> rfl

@[simp] theorem expect_retry (s : ReadState) (range : Int × Int) :
    (s.expect range).retry = s.retry := by
  rw [expect]
  split_ifs <;> rfl

@[simp] theorem speedUp_turns (s : ReadState) : (s.speedUp settings).turns = s.turns := by
  rw [speedUp]
  split_ifs <;> rfl

@[simp] theorem speedUp_next (s : ReadState) : (s.speedUp settings).next = s.next := by
  rw [speedUp]
  split_ifs <;> rfl

@[simp] theorem speedUp_retry (s : ReadState) : (s.speedUp settings).retry = s.retry := by
  rw [speedUp]
  split_ifs <;> rfl

/-- **One turn.** A turn ends its range, or leaves it next for one more unit of credit. -/
theorem visit_cases (s : ReadState) (range : Int × Int) (found : ReadTurn) :
    (∃ kind, kind ≠ .failed ∧
        (s.visit settings registryType range found).turns = (range, kind) :: s.turns ∧
        (s.visit settings registryType range found).next = s.next + 1 ∧
        s.retry ≤ (s.visit settings registryType range found).retry + 1 ∧
        (s.visit settings registryType range found).retry ≤ s.retry) ∨
      (s.visit settings registryType range found).turns = (range, .failed) :: s.turns ∧
        (s.visit settings registryType range found).next = s.next ∧ s.retry ≤ maxRetries ∧
        (s.visit settings registryType range found).retry = s.retry + 1 := by
  rw [visit]
  generalize FailureTracking.isRangeDisabled settings.toFailureSettings _ _ _ = asked
  obtain ⟨isDisabled, trackers⟩ := asked
  cases isDisabled with
  | true => exact .inl ⟨.skipped, by decide, by simp [turn, markIncomplete]⟩
  | false =>
    rcases found.response with _ | extracted
    · by_cases hcredit : maxRetries < s.retry
      · exact .inl ⟨.gaveUp, by decide, by simp [onError, slowDown, turn, markIncomplete, hcredit]⟩
      · refine .inr ?_
        simp [onError, slowDown, turn, hcredit]
        omega
    · refine .inl ⟨.read, by decide, ?_⟩
      simp [onAnswer, turn]
      omega

end ReadState

/-- The credit and the turns that are left: it goes down at every turn. -/
def ReadState.measure (ranges : List (Int × Int)) (s : ReadState) : Nat :=
  2 * (ranges.length - s.next) + (maxRetries + 1 - s.retry)

/-- The turns at which a range was read or failed. -/
def ReadState.attempts (s : ReadState) : Nat := s.turns.countP (·.2 ≠ .skipped)

/-- What holds at the head of the loop. -/
structure ReadState.Progress (ranges : List (Int × Int)) (s : ReadState) : Prop where
  next_le : s.next ≤ ranges.length
  retry_le : s.retry ≤ maxRetries + 1
  /-- the ranges before the next one have been ended, each once -/
  ended : (s.turns.filter (·.2 ≠ .failed)).map Prod.fst = (ranges.take s.next).reverse
  /-- every attempt has been paid for -/
  paid : s.attempts + s.measure ranges ≤ 2 * ranges.length + 8

theorem ReadState.Progress.visit {s : ReadState} {range : Int × Int}
    (h : s.Progress ranges) (hrange : ranges[s.next]? = some range) (found : ReadTurn) :
    (s.visit settings registryType range found).Progress ranges ∧
      (s.visit settings registryType range found).measure ranges < s.measure ranges := by
  obtain ⟨hlt, hget⟩ := List.getElem?_eq_some_iff.mp hrange
  have hretry := h.retry_le
  have hpaid := h.paid
  rcases @ReadState.visit_cases settings registryType s range found with
    ⟨kind, hkind, hturns, hnext, hle, hge⟩ | ⟨hturns, hnext, hcredit, hup⟩
  · -- the range is ended, at the price of its two units and one unit of credit given back
    have hattempts : (s.visit settings registryType range found).attempts ≤ s.attempts + 1 := by
      rw [attempts, attempts, hturns, List.countP_cons]
      split_ifs <;> omega
    refine ⟨⟨by omega, by omega, ?_, ?_⟩, ?_⟩
    · rw [hturns, hnext, List.filter_cons_of_pos (by simpa using hkind), List.map_cons, h.ended,
        List.take_succ_eq_append_getElem hlt, List.reverse_append, hget]
      rfl
    · simp only [measure] at hpaid ⊢
      omega
    · simp only [measure]
      omega
  · -- the range stays, and the attempt is paid for from the credit
    have hattempts : (s.visit settings registryType range found).attempts = s.attempts + 1 := by
      rw [attempts, attempts, hturns, List.countP_cons_of_pos (by simp)]
    refine ⟨⟨by omega, by omega, ?_, ?_⟩, ?_⟩
    · rw [hturns, hnext, List.filter_cons_of_neg (by simp), h.ended]
    · simp only [measure] at hpaid ⊢
      omega
    · simp only [measure]
      omega

/-- What every turn keeps holds when the loop ends, and then there is no next range. -/
theorem readLoop_invariant {P : ReadState → Prop} {found : Nat → ReadTurn}
    (keep : ∀ s range k, P s → ranges[s.next]? = some range →
      P (s.visit settings registryType range (found k)))
    {fuel k : Nat} {s s' : ReadState} (hs : P s)
    (h : readLoop settings registryType ranges found fuel k s = some s') :
    P s' ∧ ranges[s'.next]? = none := by
  induction fuel generalizing k s with
  | zero =>
    rw [readLoop] at h
    split at h
    · next hnone => exact Option.some.inj h ▸ ⟨hs, hnone⟩
    · cases h
  | succ fuel ih =>
    rw [readLoop] at h
    split at h
    · next hnone => exact Option.some.inj h ▸ ⟨hs, hnone⟩
    · next range hrange => exact ih (keep s range k hs hrange) h

/-- **The loop ends.** As many turns as the measure says are enough. -/
theorem readLoop_eq_some {found : Nat → ReadTurn} {fuel k : Nat} {s : ReadState}
    (h : s.Progress ranges) (hfuel : s.measure ranges ≤ fuel) :
    ∃ s', readLoop settings registryType ranges found fuel k s = some s' := by
  induction fuel generalizing k s with
  | zero =>
    have hnone : ranges[s.next]? = none := by
      apply List.getElem?_eq_none
      simp only [ReadState.measure] at hfuel
      omega
    exact ⟨s, by rw [readLoop, hnone]⟩
  | succ fuel ih =>
    rw [readLoop]
    rcases hrange : ranges[s.next]? with _ | range
    · exact ⟨s, rfl⟩
    · obtain ⟨hprogress, hless⟩ :=
        @ReadState.Progress.visit settings registryType ranges s range h hrange (found k)
      exact ih hprogress (by omega)

/-! ## How the ranges end -/

/-- How often the range was counted complete. -/
def ReadState.completed (s : ReadState) (range : Int × Int) : Nat := s.turns.count (range, .read)

/-- The range was marked incomplete. -/
def ReadState.Incomplete (s : ReadState) (range : Int × Int) : Prop :=
  (range, .skipped) ∈ s.turns ∨ (range, .gaveUp) ∈ s.turns

/-- What is said of a call: a bound on the attempts, an attempt at every range that was not found
disabled, and an end for every range. -/
structure Served (ranges : List (Int × Int)) (s : ReadState) : Prop where
  attempts_le : s.attempts ≤ 2 * ranges.length + 8
  attempted : ∀ range ∈ ranges, (range, .skipped) ∉ s.turns →
    ∃ kind, kind ≠ .skipped ∧ (range, kind) ∈ s.turns
  ends : ∀ range ∈ ranges, s.completed range = 1 ∧ ¬s.Incomplete range ∨
    s.completed range = 0 ∧ s.Incomplete range

/-- The loop starts with nothing done. -/
theorem ReadState.progress_init (trackers : FailureTracking) (modbusDelay : ℚ) :
    ReadState.Progress ranges { trackers, modbusDelay } := by
  refine ⟨Nat.zero_le _, Nat.zero_le _, rfl, ?_⟩
  simp [attempts, measure, maxRetries]

/-- When the loop ends every range has been ended, once for each place in the list. -/
theorem ended_of_readRanges {found : Nat → ReadTurn} {trackers : FailureTracking} {modbusDelay : ℚ}
    {s : ReadState}
    (h : readRanges settings registryType ranges found trackers modbusDelay = some s) :
    s.Progress ranges ∧ (s.turns.filter (·.2 ≠ .failed)).map Prod.fst = ranges.reverse := by
  have hkeep : ∀ (s : ReadState) (range : Int × Int) (k : Nat), s.Progress ranges →
      ranges[s.next]? = some range →
      (s.visit settings registryType range (found k)).Progress ranges :=
    fun s range k hs hrange => (hs.visit hrange (found k)).1
  obtain ⟨hprogress, hnone⟩ :=
    readLoop_invariant hkeep (ReadState.progress_init trackers modbusDelay) h
  have hnext : ranges.length ≤ s.next := List.getElem?_eq_none_iff.mp hnone
  refine ⟨hprogress, ?_⟩
  rw [hprogress.ended, List.take_of_length_le hnext]

/-- Without a range twice in the list, every call serves the list. -/
theorem served_of_nodup (hnodup : ranges.Nodup) {found : Nat → ReadTurn}
    {trackers : FailureTracking} {modbusDelay : ℚ} {s : ReadState}
    (h : readRanges settings registryType ranges found trackers modbusDelay = some s) :
    Served ranges s := by
  obtain ⟨hprogress, hended⟩ := ended_of_readRanges h
  -- the turn that ended a range is the only one that did
  have hexists : ∀ range ∈ ranges, ∃ kind, kind ≠ .failed ∧ (range, kind) ∈ s.turns := by
    intro range hrange
    have hmem : range ∈ (s.turns.filter (·.2 ≠ .failed)).map Prod.fst := by
      rw [hended]
      exact List.mem_reverse.mpr hrange
    obtain ⟨⟨_, kind⟩, hturn, rfl⟩ := List.mem_map.mp hmem
    obtain ⟨hturn, hkind⟩ := List.mem_filter.mp hturn
    exact ⟨kind, by simpa using hkind, hturn⟩
  have hfst : ((s.turns.filter (·.2 ≠ .failed)).map Prod.fst).Nodup := by
    rw [hended]
    exact List.nodup_reverse.mpr hnodup
  have hunique : ∀ {range kind kind'}, kind ≠ .failed → kind' ≠ .failed →
      (range, kind) ∈ s.turns → (range, kind') ∈ s.turns → kind = kind' := by
    intro range kind kind' hkind hkind' hmem hmem'
    have hpair := List.inj_on_of_nodup_map hfst (List.mem_filter.mpr ⟨hmem, by simpa using hkind⟩)
      (List.mem_filter.mpr ⟨hmem', by simpa using hkind'⟩) rfl
    exact (Prod.mk.inj hpair).2
  have hcount : ∀ range, s.completed range ≤ 1 := by
    intro range
    have hfilter : s.completed range = (s.turns.filter (·.2 ≠ .failed)).count (range, .read) :=
      (List.count_filter (by simp)).symm
    rw [hfilter]
    exact List.nodup_iff_count_le_one.mp hfst.of_map _
  refine ⟨by have := hprogress.paid; omega, ?_, ?_⟩
  · intro range hrange hskipped
    obtain ⟨kind, -, hmem⟩ := hexists range hrange
    refine ⟨kind, ?_, hmem⟩
    rintro rfl
    exact hskipped hmem
  · intro range hrange
    obtain ⟨kind, hkind, hmem⟩ := hexists range hrange
    by_cases hread : kind = .read
    · subst hread
      refine .inl ⟨le_antisymm (hcount range) (List.count_pos_iff.mpr hmem), ?_⟩
      rintro (hin | hin)
      · cases hunique hkind (by decide) hmem hin
      · cases hunique hkind (by decide) hmem hin
    · refine .inr ⟨List.count_eq_zero.mpr ?_, ?_⟩
      · intro hin
        exact hread (hunique hkind (by decide) hmem hin)
      · cases kind with
        | skipped => exact .inl hmem
        | failed => exact absurd rfl hkind
        | gaveUp => exact .inr hmem
        | read => exact absurd rfl hread

/-! ## The counts of the cycle -/

/-- The cycle has counted the turns. -/
structure ReadState.Counted (s : ReadState) : Prop where
  completed : s.cycle.completedUnits = s.turns.countP (·.2 = .read)
  skipped : s.cycle.skippedUnits = s.turns.countP fun x => x.2 = .skipped ∨ x.2 = .gaveUp
  complete : s.cycle.isComplete = true ↔ s.cycle.skippedUnits = 0

theorem ReadState.Counted.turn {s t : ReadState} (h : s.Counted) (range : Int × Int)
    (kind : TurnKind) (hturns : t.turns = (range, kind) :: s.turns)
    (hcycle : t.cycle.completedUnits = s.cycle.completedUnits + (if kind = .read then 1 else 0) ∧
      t.cycle.skippedUnits =
        s.cycle.skippedUnits + (if kind = .skipped ∨ kind = .gaveUp then 1 else 0) ∧
      t.cycle.isComplete =
        (s.cycle.isComplete && !decide (kind = .skipped ∨ kind = .gaveUp))) : t.Counted := by
  obtain ⟨hcompleted, hskipped, hcomplete⟩ := hcycle
  refine ⟨?_, ?_, ?_⟩
  · rw [hcompleted, hturns, List.countP_cons, h.completed]
    simp
  · rw [hskipped, hturns, List.countP_cons, h.skipped]
    simp
  · rw [hcomplete, hskipped, Bool.and_eq_true, h.complete]
    split_ifs with hkind <;> simp [hkind]

theorem ReadState.Counted.visit {s : ReadState} (h : s.Counted) (range : Int × Int)
    (found : ReadTurn) : (s.visit settings registryType range found).Counted := by
  have hexpect : (s.expect range).cycle.completedUnits = s.cycle.completedUnits ∧
      (s.expect range).cycle.skippedUnits = s.cycle.skippedUnits ∧
      (s.expect range).cycle.isComplete = s.cycle.isComplete := by
    rw [expect]
    split_ifs <;> exact ⟨rfl, rfl, rfl⟩
  obtain ⟨hcompleted, hskipped, hcomplete⟩ := hexpect
  rw [ReadState.visit]
  generalize FailureTracking.isRangeDisabled settings.toFailureSettings _ _ _ = asked
  obtain ⟨isDisabled, trackers⟩ := asked
  cases isDisabled with
  | true =>
    refine h.turn range .skipped (by simp [ReadState.turn, markIncomplete]) ?_
    simp [ReadState.turn, markIncomplete, hcompleted, hskipped]
  | false =>
    rcases found.response with _ | extracted
    · by_cases hcredit : maxRetries < s.retry
      · refine h.turn range .gaveUp
          (by simp [onError, slowDown, ReadState.turn, markIncomplete, hcredit]) ?_
        simp [onError, slowDown, ReadState.turn, markIncomplete, hcredit, hcompleted, hskipped]
      · refine h.turn range .failed
          (by simp [onError, slowDown, ReadState.turn, hcredit]) ?_
        simp [onError, slowDown, ReadState.turn, hcredit, hcompleted, hskipped, hcomplete]
    · have hspeed : ∀ t : ReadState, (t.speedUp settings).cycle = t.cycle := by
        intro t
        rw [speedUp]
        split_ifs <;> rfl
      refine h.turn range .read (by simp [onAnswer, ReadState.turn]) ?_
      simp [onAnswer, ReadState.turn, hspeed, hcompleted, hskipped, hcomplete]

/-- **The cycle result.** After a call the completed units are the ranges that were read, the
skipped ones those that were passed over or given up, and the cycle is complete if there are none
of these. -/
theorem counted_of_readRanges {found : Nat → ReadTurn} {trackers : FailureTracking}
    {modbusDelay : ℚ} {s : ReadState}
    (h : readRanges settings registryType ranges found trackers modbusDelay = some s) :
    s.Counted := by
  have hkeep : ∀ (s : ReadState) (range : Int × Int) (k : Nat), s.Counted →
      ranges[s.next]? = some range →
      (s.visit settings registryType range (found k)).Counted :=
    fun s range k hs _ => hs.visit range (found k)
  exact (readLoop_invariant hkeep ⟨rfl, rfl, by simp⟩ h).1

/-! ## A device that answers -/

/-- No range is disabled. -/
def FailureTracking.Quiet (trackers : FailureTracking) : Prop :=
  ∀ key, (trackers.trackerOf key).disabledUntil = 0

theorem FailureTracking.quiet_empty : Quiet .empty := fun _ => rfl

namespace FailureTracking

theorem quiet_getOrCreate {trackers : FailureTracking} (h : trackers.Quiet) (key : RangeKey) :
    (getOrCreate trackers key).2.Quiet := by
  intro k
  rw [trackerOf_getOrCreate]
  exact h k

/-- Where no range is disabled none is reported so. -/
theorem isRangeDisabled_of_quiet (settings : FailureSettings) {trackers : FailureTracking}
    (h : trackers.Quiet) (key : RangeKey) (now : Timestamp) :
    (isRangeDisabled settings trackers key now).1 = false ∧
      (isRangeDisabled settings trackers key now).2.Quiet := by
  rw [isRangeDisabled]
  split_ifs
  · refine ⟨?_, quiet_getOrCreate h key⟩
    simp only [getOrCreate_fst, RegisterFailureTracker.isDisabled]
    exact if_pos (h key)
  · exact ⟨rfl, h⟩

theorem quiet_recordReadSuccess (settings : FailureSettings) {trackers : FailureTracking}
    (h : trackers.Quiet) (key : RangeKey) (now : Timestamp) :
    (recordReadSuccess settings trackers key now).Quiet := by
  rw [recordReadSuccess]
  split_ifs
  · intro k
    rw [trackerOf_set]
    split_ifs
    · rfl
    · exact quiet_getOrCreate h key k
  · exact h

end FailureTracking

/-- Nothing happens before the turn, and the device answers. -/
def ReadTurn.Answered (found : ReadTurn) : Prop :=
  found.before = [] ∧ ∃ extracted, found.response = .registers extracted

/-- A turn with a device that answers reads its range. -/
theorem ReadState.visit_answered {s : ReadState} (range : Int × Int) {found : ReadTurn}
    (hquiet : s.trackers.Quiet) (hfound : found.Answered) :
    (s.visit settings registryType range found).turns = (range, .read) :: s.turns ∧
      (s.visit settings registryType range found).trackers.Quiet := by
  obtain ⟨hbefore, extracted, hresponse⟩ := hfound
  have htrackers : (s.expect range).trackers = s.trackers := by
    rw [expect]
    split_ifs <;> rfl
  obtain ⟨hdisabled, hasked⟩ := FailureTracking.isRangeDisabled_of_quiet
    settings.toFailureSettings hquiet ⟨registryType, range⟩ found.askedAt
  simp only [visit, hbefore, List.foldl_nil, htrackers, hdisabled, hresponse]
  refine ⟨by simp [onAnswer, turn], ?_⟩
  have hspeed : ∀ t : ReadState, (t.speedUp settings).trackers = t.trackers := by
    intro t
    rw [speedUp]
    split_ifs <;> rfl
  simp only [onAnswer, hspeed, Bool.false_eq_true, if_false]
  exact FailureTracking.quiet_recordReadSuccess _ hasked _ _

/-- **A device that answers is asked once for every range of the list, in its order.** -/
theorem turns_of_answered {found : Nat → ReadTurn} (hfound : ∀ k, (found k).Answered)
    {trackers : FailureTracking} (hquiet : trackers.Quiet) {modbusDelay : ℚ} {s : ReadState}
    (h : readRanges settings registryType ranges found trackers modbusDelay = some s) :
    s.turns = (ranges.map fun range => (range, .read)).reverse := by
  have hkeep : ∀ (s : ReadState) (range : Int × Int) (k : Nat),
      (s.trackers.Quiet ∧ ∀ x ∈ s.turns, x.2 = .read) → ranges[s.next]? = some range →
      ((s.visit settings registryType range (found k)).trackers.Quiet ∧
        ∀ x ∈ (s.visit settings registryType range (found k)).turns, x.2 = .read) := by
    rintro s range k ⟨hs, hread⟩ -
    obtain ⟨hturns, htrackers⟩ :=
      @ReadState.visit_answered settings registryType s range (found k) hs (hfound k)
    refine ⟨htrackers, ?_⟩
    rw [hturns]
    exact List.forall_mem_cons.mpr ⟨rfl, hread⟩
  obtain ⟨⟨-, hread⟩, -⟩ := readLoop_invariant hkeep ⟨hquiet, by simp⟩ h
  obtain ⟨-, hended⟩ := ended_of_readRanges h
  have hall : s.turns.filter (·.2 ≠ .failed) = s.turns := by
    apply List.filter_eq_self.mpr
    intro x hx
    simp [hread x hx]
  rw [hall] at hended
  rw [← List.map_reverse, ← hended, List.map_map]
  refine (List.map_id' _).symm.trans (List.map_congr_left ?_)
  intro x hx
  exact Prod.ext rfl (hread x hx)

/-- A device that answers is asked for a range as often as it is in the list. -/
theorem completed_of_answered {found : Nat → ReadTurn} (hfound : ∀ k, (found k).Answered)
    {trackers : FailureTracking} (hquiet : trackers.Quiet) {modbusDelay : ℚ} {s : ReadState}
    (h : readRanges settings registryType ranges found trackers modbusDelay = some s)
    (range : Int × Int) : s.completed range = ranges.count range := by
  rw [ReadState.completed, turns_of_answered hfound hquiet h, List.count_reverse]
  exact List.count_map_of_injective _ _ (fun _ _ heq => (Prod.mk.inj heq).1) _

/-- **Every call ends.** -/
theorem exists_readRanges (settings : ReadSettings) (registryType : RegistryType)
    (ranges : List (Int × Int)) (found : Nat → ReadTurn) (trackers : FailureTracking)
    (modbusDelay : ℚ) :
    ∃ s, readRanges settings registryType ranges found trackers modbusDelay = some s := by
  refine readLoop_eq_some (ReadState.progress_init trackers modbusDelay) ?_
  simp [ReadState.measure, maxRetries]

/-- **The loop serves a list for all devices exactly when no range is in it twice.** Whatever the
device, the connection, the clock and other calls do, the loop ends; each range is then counted
complete once or marked incomplete, unless the list holds a range twice. -/
theorem served_iff (settings : ReadSettings) (registryType : RegistryType)
    (ranges : List (Int × Int)) :
    (∀ found trackers modbusDelay, ∃ s,
        readRanges settings registryType ranges found trackers modbusDelay = some s ∧
          Served ranges s) ↔ ranges.Nodup := by
  constructor
  · intro h
    -- a device that answers completes a range once for each place in the list
    let found : Nat → ReadTurn := fun _ => { response := .registers none }
    obtain ⟨s, hs, hserved⟩ := h found .empty 0
    have hanswered : ∀ k, (found k).Answered := fun _ => ⟨rfl, none, rfl⟩
    have hcount := completed_of_answered hanswered
      FailureTracking.quiet_empty hs
    rw [List.nodup_iff_count_le_one]
    intro range
    by_cases hrange : range ∈ ranges
    · rw [← hcount]
      rcases hserved.ends range hrange with ⟨hone, -⟩ | ⟨hzero, -⟩
      · exact hone.le
      · exact hzero.le.trans (Nat.zero_le 1)
    · rw [List.count_eq_zero.mpr hrange]
      exact Nat.zero_le 1
  · intro hnodup found trackers modbusDelay
    obtain ⟨s, hs⟩ :=
      exists_readRanges settings registryType ranges found trackers modbusDelay
    exact ⟨s, hs, served_of_nodup hnodup hs⟩

/-- A range that is in the list twice is counted complete twice. -/
theorem not_served_twice : ∃ found s,
    readRanges {} .input [(0, 40), (0, 40)] found .empty 0 = some s ∧
      ¬Served [(0, 40), (0, 40)] s := by
  let found : Nat → ReadTurn := fun _ => { response := .registers none }
  obtain ⟨s, hs⟩ := exists_readRanges {} .input [(0, 40), (0, 40)] found .empty 0
  refine ⟨found, s, hs, ?_⟩
  intro hserved
  have hanswered : ∀ k, (found k).Answered := fun _ => ⟨rfl, none, rfl⟩
  have hcount := completed_of_answered hanswered
    FailureTracking.quiet_empty hs (0, 40)
  rcases hserved.ends (0, 40) (by simp) with ⟨hone, -⟩ | ⟨hzero, -⟩
  · rw [hone] at hcount
    exact absurd hcount (by decide)
  · rw [hzero] at hcount
    exact absurd hcount (by decide)

/-! ## The interval of a start and an end -/

/-- The request reads the address. -/
def reads (a : Int) (range : Int × Int) : Bool := range.1 ≤ a && a < range.1 + range.2

/-- The requests read every address of the interval once, and no other. -/
def ReadsExactly (start last : Int) (requests : List (Int × Int)) : Prop :=
  ∀ a, requests.countP (reads a) = if start ≤ a ∧ a ≤ last then 1 else 0

/-- Full windows side by side read the interval from the first to the last once. -/
theorem countP_windows (start a : Int) {size : Int} (hsize : 0 < size) (m : Nat) :
    ((List.range m).map fun i : Nat => (start + size * i, size)).countP (reads a) =
      if start ≤ a ∧ a < start + size * m then 1 else 0 := by
  induction m with
  | zero => simp
  | succ m ih =>
    rw [List.range_succ, List.map_append, List.countP_append, ih]
    have hnext : size * ((m + 1 : Nat) : Int) = size * m + size := by
      rw [Int.natCast_succ, Int.mul_add, Int.mul_one]
    have hnonneg : 0 ≤ size * (m : Int) := Int.mul_nonneg hsize.le (Int.natCast_nonneg m)
    rw [hnext]
    simp only [reads, List.map_cons, List.map_nil, List.countP_singleton, Bool.and_eq_true,
      decide_eq_true_eq]
    clear ih
    split_ifs <;> omega

/-- The windows of a start and an end read the interval exactly when they fill it. -/
theorem readsExactly_batchRanges {start last size : Int} (hle : start ≤ last) (hsize : 0 < size) :
    ∃ ranges, batchRanges start last size = .ok ranges ∧
      (ReadsExactly start last ranges ↔ size ∣ last + 1 - start) := by
  refine ⟨_, if_neg (by omega), ?_⟩
  rw [pyRange]
  generalize hm : (last + 1 - start + size - 1) / size = m
  have hlow : last + 1 - start ≤ size * m := by
    have := @Int.lt_mul_ediv_self_add (last + 1 - start + size - 1) size hsize
    rw [hm] at this
    omega
  have hhigh : size * m ≤ last + 1 - start + size - 1 := by
    rw [← hm]
    exact Int.mul_ediv_self_le hsize.ne'
  have hpos : 0 < m := by
    rcases Int.lt_or_le 0 m with h | h
    · exact h
    · have := Int.mul_nonpos_of_nonneg_of_nonpos hsize.le h
      omega
  obtain ⟨n, rfl⟩ : ∃ n : Nat, m = n + 1 := ⟨(m - 1).toNat, by omega⟩
  have hlast : size * ((n : Int) + 1) = size * n + size := by
    rw [Int.mul_add, Int.mul_one]
  constructor
  · intro hexact
    -- otherwise the last window has an address too many
    by_contra hdvd
    have hne : size * ((n : Int) + 1) ≠ last + 1 - start := fun h => hdvd ⟨_, h.symm⟩
    have hmem : (start + size * (n : Int), last + 1 - (start + size * n) + 1) ∈
        (List.map (fun i : Nat => start + size * i) (List.range (n + 1 : Int).toNat)).map
          fun start => (start, if last + 1 < start + size then last + 1 - start + 1 else size) := by
      refine List.mem_map.mpr ⟨start + size * n, List.mem_map.mpr ⟨n, ?_, rfl⟩, ?_⟩
      · exact List.mem_range.mpr (by omega)
      · rw [if_pos (by omega)]
    have hcount := hexact (last + 1)
    rw [if_neg (by omega)] at hcount
    have hreads := List.countP_eq_zero.mp hcount _ hmem
    simp [reads] at hreads
    omega
  · rintro ⟨q, hq⟩
    -- the windows are as many as the batches that fill the interval, and all are full
    have hlow' : q ≤ n + 1 := Int.le_of_mul_le_mul_left (hq ▸ hlow) hsize
    have hhigh' : (n + 1 : Int) < q + 1 := by
      apply Int.lt_of_mul_lt_mul_left _ hsize.le
      rw [Int.mul_add size q, Int.mul_one, ← hq]
      omega
    have hfull : size * ((n : Int) + 1) = last + 1 - start := by
      rw [hq, show q = n + 1 by omega]
    have hwindows : (List.map (fun i : Nat => start + size * (i : Int))
          (List.range (n + 1 : Int).toNat)).map
          (fun start => (start, if last + 1 < start + size then last + 1 - start + 1 else size)) =
        (List.range (n + 1)).map fun i : Nat => (start + size * (i : Int), size) := by
      rw [List.map_map]
      refine List.map_congr_left fun i hi => Prod.ext rfl (if_neg ?_)
      have hi : i ≤ n := by
        have := List.mem_range.mp hi
        omega
      have hmul : size * (i : Int) ≤ size * n := Int.mul_le_mul_of_nonneg_left (by omega) hsize.le
      change ¬last + 1 < start + size * (i : Int) + size
      omega
    intro a
    rw [hwindows, countP_windows start a hsize]
    have hend : start + size * ((n + 1 : Nat) : Int) = last + 1 := by
      rw [Int.natCast_succ, hfull]
      omega
    rw [hend]
    split_ifs <;> omega

/-- **The interval of a start and an end.** A device that answers is asked for every address from
`start` to `last` once and for no other, exactly when the batch size divides their number. -/
theorem readsExactly_iff {found : Nat → ReadTurn} (hfound : ∀ k, (found k).Answered)
    {trackers : FailureTracking} (hquiet : trackers.Quiet) (modbusDelay : ℚ)
    {start last batchSize : Int} (hle : start ≤ last) (hbatch : 1 ≤ batchSize) :
    ∃ s, readModbusRegisters settings registryType [] start (some last) batchSize found trackers
        modbusDelay = .ok s ∧
      (ReadsExactly start last s.requests ↔ batchSize ∣ last + 1 - start) := by
  obtain ⟨ranges, hranges, hiff⟩ := readsExactly_batchRanges hle (by omega : 0 < batchSize)
  obtain ⟨s, hs⟩ := exists_readRanges settings registryType ranges found trackers modbusDelay
  have hrequests : s.requests = ranges := by
    have hall : ∀ x ∈ ranges.map fun range => (range, TurnKind.read),
        decide (x.2 ≠ .skipped) = true := by
      intro x hx
      obtain ⟨range, -, rfl⟩ := List.mem_map.mp hx
      rfl
    rw [ReadState.requests, turns_of_answered hfound hquiet hs, List.reverse_reverse,
      List.filter_eq_self.mpr hall, List.map_map]
    exact List.map_id _
  refine ⟨s, ?_, hrequests ▸ hiff⟩
  simp only [readModbusRegisters, callRanges, hranges, bind, Except.bind, hs]
  rfl

end Turns

/-- A register read by itself takes its neighbour with it. -/
theorem not_readsExactly_single : ∃ s,
    readModbusRegisters {} .input [] 10 (some 10) 45 (fun _ => { response := .registers none })
      .empty 0 = .ok s ∧ ¬ReadsExactly 10 10 s.requests := by
  refine ⟨_, rfl, ?_⟩
  intro hexact
  have hneighbour := hexact 11
  exact absurd hneighbour (by decide)

/-- Two whole batches read their interval. -/
theorem readsExactly_two_batches : ∃ s,
    readModbusRegisters {} .input [] 0 (some 79) 40 (fun _ => { response := .registers none })
      .empty 0 = .ok s ∧ (ReadsExactly 0 79 s.requests ↔ (40 : Int) ∣ 79 + 1 - 0) :=
  readsExactly_iff (fun _ => ⟨rfl, none, rfl⟩) FailureTracking.quiet_empty 0 (by decide) (by decide)

end ProtocolGateway
