import ProtocolGateway.ReadPlan
import ProtocolGateway.Decode
import ProtocolGateway.Lib.Outcomes
import Mathlib.Data.List.Forall2

/-!
# Complete cycles

A read cycle goes over the registry types a transport sends, reads the planned ranges of each and
keeps an account of them: a range counts as done or as skipped, and a cycle without a skipped range
that decoded anything is complete for bridges that store whole cycles only.

`read_modbus_registers` (sequential) and `_read_registry_type_iter` (interleaved) talk to the device
differently: the first one has a budget of retries for all ranges of a type and counts every
response that is no error as done, the second one has a budget for each range and counts a response
without values as skipped. Both compare what they got with what was planned by ranges only, not by
addresses; `really_complete_iff` says when that is enough.

What the device answers at each attempt, and whether the failure tracker has the range disabled
then, is left open, and so are decoding and `post_process_data`.
-/

namespace ProtocolGateway

namespace ReadCycle

open Outcomes

/-! ## Responses -/

/-- What `read_registers` comes back with. -/
inductive Response
  /-- `None` -/
  | nothing
  /-- an ascii error string, with its text if it is UTF-8 -/
  | bytes (text : Option String)
  /-- a `ModbusIOException` -/
  | ioException
  /-- any other exception -/
  | raises (err : PyError)
  /-- `response.isError()` -/
  | error
  /-- `response.registers` and `response.bits`, `none` for a missing attribute -/
  | reply (registers : Option (List Int)) (bits : Option (List Bool))

/-- What one attempt at a range meets: the failure tracker, then the device. -/
structure Attempt where
  disabled : Bool
  response : Response

/-- The values `_extract_response_values` finds in a reply. -/
def responseValues (registryType : RegistryType) (registers : Option (List Int))
    (bits : Option (List Bool)) : Option (List Int) :=
  match registryType with
  | .coil | .discrete => bits.map fun bits => bits.map fun b => if b then 1 else 0
  | _ => registers

/-- The dictionary it makes of them: not more than the range has addresses. -/
def numbered (range : Int × Int) (values : List Int) : List (Int × Int) :=
  (values.take range.2.toNat).mapIdx fun i value => (range.1 + i, value)

/-! ## Reading the ranges of a registry type -/

/-- What became of a planned range. -/
inductive Verdict
  /-- marked incomplete: disabled, out of retries, or without values -/
  | skipped
  /-- counted as a completed unit, with the values of the response -/
  | accepted (values : List Int)
  deriving DecidableEq

/-- How a transport is read. -/
inductive Mode
  /-- `read_modbus_registers` -/
  | sequential
  /-- `_read_registry_type_iter`, under `max_retries_per_block` -/
  | interleaved (maxRetriesPerBlock : Int)

section Device

variable (attempts : Nat → Attempt) (registryType : RegistryType)

/-- `retries` of `read_modbus_registers`; a failed attempt is repeated unless `retry > retries`. -/
def retries : Nat := 7

/-- One range of `read_modbus_registers`, with the retries that are left, `retries + 1 - retry`, and
the number of attempts so far. Missing values of a response are no failure. -/
def readRange (left n : Nat) : Except PyError (Verdict × Nat × Nat) :=
  if (attempts n).disabled then .ok (.skipped, left, n + 1)
  else
    match (attempts n).response with
    | .raises err => .error err
    | .bytes none => .error .valueError
    | .nothing | .bytes (some _) | .ioException | .error =>
      match left with
      | 0 => .ok (.skipped, 0, n + 1)
      | left + 1 => readRange left (n + 1)
    | .reply registers bits =>
      .ok (.accepted ((responseValues registryType registers bits).getD []),
        min (retries + 1) (left + 1), n + 1)

/-- The loop of `read_modbus_registers`. -/
def readModbusRegisters : List (Int × Int) → Nat → Nat →
    Except PyError (List ((Int × Int) × Verdict) × Nat)
  | [], _, n => .ok ([], n)
  | range :: ranges, left, n => do
    let (verdict, left, n) ← readRange attempts registryType left n
    let (replies, n) ← readModbusRegisters ranges left n
    return ((range, verdict) :: replies, n)

/-- One range of `_read_registry_type_iter`. Every exception is a failed attempt, and a response
without values is `{}`, like a disabled range. -/
def readBlock (range : Int × Int) (left n : Nat) : Verdict × Nat :=
  if (attempts n).disabled then (.skipped, n + 1)
  else
    match (attempts n).response with
    | .nothing | .bytes _ | .ioException | .raises _ | .error =>
      match left with
      | 0 => (.skipped, n + 1)
      | left + 1 => readBlock range left (n + 1)
    | .reply registers bits =>
      let values := (responseValues registryType registers bits).getD []
      (if numbered range values = [] then .skipped else .accepted values, n + 1)

/-- The loop of `_read_registry_type_iter`. -/
def readRegistryTypeIter (maxRetriesPerBlock : Int) : List (Int × Int) → Nat →
    List ((Int × Int) × Verdict) × Nat
  | [], n => ([], n)
  | range :: ranges, n =>
    let (verdict, n) := readBlock attempts registryType range (maxRetriesPerBlock - 1).toNat n
    let (replies, n) := readRegistryTypeIter maxRetriesPerBlock ranges n
    ((range, verdict) :: replies, n)

/-- The planned ranges of one registry type. -/
def Mode.readType (mode : Mode) (ranges : List (Int × Int)) (n : Nat) :
    Except PyError (List ((Int × Int) × Verdict) × Nat) :=
  match mode with
  | .sequential => readModbusRegisters attempts registryType ranges (retries + 1) n
  | .interleaved maxRetriesPerBlock =>
    .ok (readRegistryTypeIter attempts registryType maxRetriesPerBlock ranges n)

end Device

/-- The words that were received. -/
def received (replies : List ((Int × Int) × Verdict)) : Dict Int Int :=
  replies.foldl (fun registry reply =>
    match reply.2 with
    | .skipped => registry
    | .accepted values => registry.update (numbered reply.1 values)) Dict.empty

/-! ## The account -/

/-- `TransportCycleResult`. -/
structure TransportCycleResult where
  hasData : Bool := false
  isComplete : Bool := true
  expectedUnits : Nat := 0
  completedUnits : Nat := 0
  skippedUnits : Nat := 0

namespace TransportCycleResult

/-- `cycle_mark_incomplete` and `_cycle_mark_unit_complete`. -/
def mark (result : TransportCycleResult) : Verdict → TransportCycleResult
  | .skipped => { result with isComplete := false, skippedUnits := result.skippedUnits + 1 }
  | .accepted _ => { result with completedUnits := result.completedUnits + 1 }

/-- `_cycle_expect_unit`: the sequential loop counts equal ranges once. -/
def expect (mode : Mode) (ranges : List (Int × Int)) (result : TransportCycleResult) :
    TransportCycleResult :=
  { result with
    expectedUnits := result.expectedUnits +
      match mode with
      | .sequential => ranges.dedup.length
      | .interleaved _ => ranges.length }

/-- The account of one registry type. -/
def account (mode : Mode) (result : TransportCycleResult)
    (replies : List ((Int × Int) × Verdict)) : TransportCycleResult :=
  replies.foldl (fun result reply => result.mark reply.2)
    (result.expect mode (replies.map Prod.fst))

/-- `cycle_is_complete_for_bridge`. -/
def cycleIsCompleteForBridge (result : TransportCycleResult) : Bool :=
  result.hasData && result.isComplete

end TransportCycleResult

/-- What a cycle has come to. -/
structure Cycle where
  result : TransportCycleResult := {}
  info : Dict String PyValue := Dict.empty
  /-- the words of each registry type, in the order of the plan -/
  registries : List (Dict Int Int) := []

section Cycle

variable (mode : Mode) (attempts : Nat → Attempt)
  (decode : RegistryType → Dict Int Int → Except PyError (List (String × PyValue)))
  (postProcess : Dict String PyValue → Dict String PyValue)

/-- The registry types of a cycle with their planned ranges, one after the other. -/
def readTypes : List (RegistryType × List (Int × Int)) → Nat → Cycle → Except PyError Cycle
  | [], _, cycle => .ok cycle
  | (registryType, ranges) :: plan, n, cycle => do
    let (replies, n) ← mode.readType attempts registryType ranges n
    let items ← decode registryType (received replies)
    readTypes plan n
      { result := cycle.result.account mode replies
        info := cycle.info.update items
        registries := cycle.registries ++ [received replies] }

/-- `finish_cycle_tracking`. -/
def finishCycleTracking (cycle : Cycle) : Cycle :=
  { cycle with
    info := postProcess cycle.info
    result := { cycle.result with hasData := !(postProcess cycle.info).items.isEmpty } }

/-- A cycle from `_start_cycle_tracking` to `finish_cycle_tracking`. One that raises before its end
leaves `has_data` as it was at the start, false. -/
def runCycle (plan : List (RegistryType × List (Int × Int))) : Except PyError Cycle :=
  (readTypes mode attempts decode plan 0 {}).map (finishCycleTracking postProcess)

/-- At the end of a cycle that is complete for bridges, every planned address has a word. -/
def ReallyComplete (plan : List (RegistryType × List (Int × Int))) : Prop :=
  ∀ cycle, runCycle mode attempts decode postProcess plan = .ok cycle →
    cycle.result.cycleIsCompleteForBridge = true →
    List.Forall₂ (fun planned registry =>
      ∀ a, Covered planned.2 a → (Dict.get? registry a).isSome = true) plan cycle.registries

end Cycle

/-! ## What the device answered in a cycle -/

section Conversation

variable (mode : Mode) (attempts : Nat → Attempt)
  (decode : RegistryType → Dict Int Int → Except PyError (List (String × PyValue)))
  (postProcess : Dict String PyValue → Dict String PyValue)

/-- The verdicts of a cycle whose decoding does not raise. -/
def conversation : List (RegistryType × List (Int × Int)) → Nat →
    Except PyError (List (List ((Int × Int) × Verdict)))
  | [], _ => .ok []
  | (registryType, ranges) :: plan, n => do
    let (replies, n) ← mode.readType attempts registryType ranges n
    return replies :: (← conversation plan n)

/-- What is decoded from the words of these replies. -/
def decodedFrom : List (RegistryType × List (Int × Int)) → List (List ((Int × Int) × Verdict)) →
    Dict String PyValue → Except PyError (Dict String PyValue)
  | (registryType, _) :: plan, replies :: rest, info => do
    decodedFrom plan rest (info.update (← decode registryType (received replies)))
  | _, _, info => .ok info

/-- Some accepted response for a range with the address is long enough to reach it. -/
def Answered (replies : List ((Int × Int) × Verdict)) (a : Int) : Prop :=
  ∃ range values, (range, Verdict.accepted values) ∈ replies ∧ range.1 ≤ a ∧
    a < range.1 + min range.2 values.length

/-- A range is skipped, or nothing is decoded, or the accepted responses are long enough. -/
def Noticed (plan : List (RegistryType × List (Int × Int))) : Prop :=
  ∀ replies info, conversation mode attempts plan 0 = .ok replies →
    decodedFrom decode plan replies Dict.empty = .ok info →
    (∃ typeReplies ∈ replies, ∃ reply ∈ typeReplies, reply.2 = Verdict.skipped) ∨
      (postProcess info).items = [] ∨
      List.Forall₂ (fun planned typeReplies => ∀ a, Covered planned.2 a → Answered typeReplies a)
        plan replies

end Conversation

variable {mode : Mode} {attempts : Nat → Attempt}
  {decode : RegistryType → Dict Int Int → Except PyError (List (String × PyValue))}
  {postProcess : Dict String PyValue → Dict String PyValue}

/-! ## The words and the account of a list of replies -/

/-- The addresses that a response of a range fills. -/
theorem mem_numbered {range : Int × Int} {values : List Int} {a : Int} :
    a ∈ (numbered range values).map Prod.fst ↔
      range.1 ≤ a ∧ a < range.1 + min range.2 values.length := by
  simp only [numbered, List.mem_map, List.mem_mapIdx, List.length_take]
  constructor
  · rintro ⟨_, ⟨i, hi, rfl⟩, rfl⟩
    dsimp only
    omega
  · rintro ⟨hlo, hhi⟩
    exact ⟨_, ⟨(a - range.1).toNat, by omega, rfl⟩, by dsimp only; omega⟩

theorem mem_keys_received {replies : List ((Int × Int) × Verdict)} {a : Int} :
    a ∈ (received replies).keys ↔ Answered replies a := by
  have hfold (registry : Dict Int Int) : a ∈ (replies.foldl (fun registry reply =>
      match reply.2 with
      | .skipped => registry
      | .accepted values => registry.update (numbered reply.1 values)) registry).keys ↔
        a ∈ registry.keys ∨ Answered replies a := by
    induction replies generalizing registry with
    | nil => simp [Answered]
    | cons reply replies ih =>
      obtain ⟨range, verdict⟩ := reply
      rw [List.foldl_cons, ih]
      cases verdict with
      | skipped => simp [Answered]
      | accepted values =>
        have hcons : Answered ((range, .accepted values) :: replies) a ↔
            a ∈ (numbered range values).map Prod.fst ∨ Answered replies a := by
          rw [mem_numbered]
          constructor
          · rintro ⟨range', values', hmem, hin⟩
            rcases List.mem_cons.mp hmem with heq | hmem
            · obtain ⟨rfl, hverdict⟩ := Prod.mk.inj heq
              obtain rfl := Verdict.accepted.inj hverdict
              exact Or.inl hin
            · exact Or.inr ⟨range', values', hmem, hin⟩
          · rintro (hin | ⟨range', values', hmem, hin⟩)
            · exact ⟨range, values, List.mem_cons_self, hin⟩
            · exact ⟨range', values', List.mem_cons_of_mem _ hmem, hin⟩
        rw [hcons, Dict.mem_keys_update, or_assoc]
  rw [received, hfold]
  simp [Dict.keys]

/-- The registry has words exactly for the answered addresses. -/
theorem isSome_received {replies : List ((Int × Int) × Verdict)} {a : Int} :
    ((received replies).get? a).isSome = true ↔ Answered replies a := by
  rw [← mem_keys_received, Dict.mem_keys, Option.isSome_iff_exists]
  exact exists_congr fun v => Dict.get?_eq_some_iff

/-- An account is complete while no range is skipped. -/
theorem isComplete_account {result : TransportCycleResult}
    {replies : List ((Int × Int) × Verdict)} :
    (result.account mode replies).isComplete = true ↔
      result.isComplete = true ∧ ∀ reply ∈ replies, reply.2 ≠ Verdict.skipped := by
  have hfold (result : TransportCycleResult) :
      (replies.foldl (fun result reply => result.mark reply.2) result).isComplete = true ↔
        result.isComplete = true ∧ ∀ reply ∈ replies, reply.2 ≠ Verdict.skipped := by
    induction replies generalizing result with
    | nil => simp
    | cons reply replies ih =>
      rw [List.foldl_cons, ih]
      cases h : reply.2 <;> simp [TransportCycleResult.mark, h]
  exact hfold (result.expect mode (replies.map Prod.fst))

theorem isComplete_accounts {result : TransportCycleResult}
    {replies : List (List ((Int × Int) × Verdict))} :
    (replies.foldl (TransportCycleResult.account mode) result).isComplete = true ↔
      result.isComplete = true ∧
        ∀ typeReplies ∈ replies, ∀ reply ∈ typeReplies, reply.2 ≠ Verdict.skipped := by
  induction replies generalizing result with
  | nil => simp
  | cons typeReplies replies ih =>
    rw [List.foldl_cons, ih, isComplete_account, List.forall_mem_cons, and_assoc]

/-! ## The cycle as a conversation and its account -/

/-- A cycle goes through if the conversation and the decoding do, and then has the account and the
words of the conversation. -/
theorem readTypes_eq_ok_iff {plan : List (RegistryType × List (Int × Int))} {n : Nat}
    {cycle cycle' : Cycle} :
    readTypes mode attempts decode plan n cycle = .ok cycle' ↔
      ∃ replies info, conversation mode attempts plan n = .ok replies ∧
        decodedFrom decode plan replies cycle.info = .ok info ∧
        cycle' =
          { result := replies.foldl (TransportCycleResult.account mode) cycle.result
            info := info
            registries := cycle.registries ++ replies.map received } := by
  induction plan generalizing n cycle with
  | nil =>
    simp [readTypes, conversation, decodedFrom, eq_comm]
  | cons planned plan ih =>
    obtain ⟨registryType, ranges⟩ := planned
    constructor
    · intro h
      obtain ⟨⟨typeReplies, n'⟩, hread, h⟩ := bind_eq_ok_iff.mp h
      obtain ⟨items, hitems, hrest⟩ := bind_eq_ok_iff.mp h
      obtain ⟨rest, info, hconv, hinfo, rfl⟩ := ih.mp hrest
      refine ⟨typeReplies :: rest, info, bind_eq_ok_iff.mpr ⟨_, hread, bind_eq_ok_iff.mpr
        ⟨rest, hconv, rfl⟩⟩, bind_eq_ok_iff.mpr ⟨items, hitems, hinfo⟩, ?_⟩
      simp
    · rintro ⟨replies, info, hconv, hinfo, rfl⟩
      obtain ⟨⟨typeReplies, n'⟩, hread, hconv⟩ := bind_eq_ok_iff.mp hconv
      obtain ⟨rest, hrest, hreplies⟩ := bind_eq_ok_iff.mp hconv
      obtain rfl := Except.ok.inj hreplies
      obtain ⟨items, hitems, hinfo⟩ := bind_eq_ok_iff.mp hinfo
      refine bind_eq_ok_iff.mpr ⟨_, hread, bind_eq_ok_iff.mpr
        ⟨items, hitems, ih.mpr ⟨rest, info, hrest, hinfo, ?_⟩⟩⟩
      simp

/-! ## Responses that are long enough -/

/-- Every planned range gets one verdict. -/
theorem map_fst_readType {registryType : RegistryType} {ranges : List (Int × Int)} {n n' : Nat}
    {replies : List ((Int × Int) × Verdict)}
    (h : mode.readType attempts registryType ranges n = .ok (replies, n')) :
    replies.map Prod.fst = ranges := by
  cases mode with
  | sequential =>
    have hloop (ranges : List (Int × Int)) (left n n' : Nat)
        (replies : List ((Int × Int) × Verdict))
        (hread : readModbusRegisters attempts registryType ranges left n = .ok (replies, n')) :
        replies.map Prod.fst = ranges := by
      induction ranges generalizing left n n' replies with
      | nil =>
        obtain ⟨rfl, -⟩ := Prod.mk.inj (Except.ok.inj hread)
        rfl
      | cons range ranges ih =>
        obtain ⟨⟨verdict, left', n₁⟩, -, hread⟩ := bind_eq_ok_iff.mp hread
        obtain ⟨⟨rest, n₂⟩, hrest, hreplies⟩ := bind_eq_ok_iff.mp hread
        obtain ⟨rfl, rfl⟩ := Prod.mk.inj (Except.ok.inj hreplies)
        exact congrArg (range :: ·) (ih left' n₁ _ rest hrest)
    exact hloop ranges (retries + 1) n n' replies h
  | interleaved maxRetriesPerBlock =>
    have hloop (ranges : List (Int × Int)) (n : Nat) :
        (readRegistryTypeIter attempts registryType maxRetriesPerBlock ranges n).1.map Prod.fst =
          ranges := by
      induction ranges generalizing n with
      | nil => rfl
      | cons range ranges ih => exact congrArg (range :: ·) (ih _)
    have hreplies := hloop ranges n
    rw [Except.ok.inj h] at hreplies
    exact hreplies

/-- The verdicts of a cycle are about the ranges of the plan. -/
theorem map_fst_conversation {plan : List (RegistryType × List (Int × Int))} {n : Nat}
    {replies : List (List ((Int × Int) × Verdict))}
    (h : conversation mode attempts plan n = .ok replies) :
    List.Forall₂ (fun planned typeReplies => typeReplies.map Prod.fst = planned.2) plan replies := by
  induction plan generalizing n replies with
  | nil =>
    obtain rfl := Except.ok.inj h
    exact List.Forall₂.nil
  | cons planned plan ih =>
    obtain ⟨⟨typeReplies, n'⟩, hread, h⟩ := bind_eq_ok_iff.mp h
    obtain ⟨rest, hrest, hreplies⟩ := bind_eq_ok_iff.mp h
    obtain rfl := Except.ok.inj hreplies
    exact List.Forall₂.cons (map_fst_readType hread) (ih hrest)

/-- A cycle whose accepted responses carry a value for every address of their ranges. -/
theorem noticed_of_long {plan : List (RegistryType × List (Int × Int))}
    (h : ∀ replies, conversation mode attempts plan 0 = .ok replies →
      ∀ typeReplies ∈ replies, ∀ range values, (range, Verdict.accepted values) ∈ typeReplies →
        range.2 ≤ values.length) : Noticed mode attempts decode postProcess plan := by
  intro replies info hreplies _
  by_cases hskip : ∃ typeReplies ∈ replies, ∃ reply ∈ typeReplies, reply.2 = Verdict.skipped
  · exact Or.inl hskip
  · push Not at hskip
    obtain ⟨hlength, hplanned⟩ := List.forall₂_iff_zip.mp (map_fst_conversation hreplies)
    refine Or.inr (Or.inr (List.forall₂_iff_zip.mpr ⟨hlength, ?_⟩))
    rintro planned typeReplies hpair a ⟨range, hrange, hlo, hhi⟩
    have hmem : typeReplies ∈ replies := (List.of_mem_zip hpair).2
    rw [← hplanned hpair] at hrange
    obtain ⟨⟨range, verdict⟩, hreply, rfl⟩ := List.mem_map.mp hrange
    cases verdict with
    | skipped => exact absurd rfl (hskip typeReplies hmem _ hreply)
    | accepted values =>
      have hlong := h replies hreplies typeReplies hmem _ values hreply
      have hhi : a < range.1 + range.2 := hhi
      exact ⟨range, values, hreply, hlo, by omega⟩

/-! ## When a complete cycle is really complete -/

/-- Two holding registers. -/
def twoRows : List Row :=
  [{ cell := "40", variableName := "vbat" }, { cell := "41", variableName := "soc" }]

/-- `process_registery` on the words of a cycle, for the entries of `twoRows`. -/
def decodeTwoRows (_ : RegistryType) (registry : Dict Int Int) :
    Except PyError (List (String × PyValue)) :=
  let ps : ProtocolSettings := {}
  let snapshot := ProtocolSettings.Snapshot.words fun a => (registry.get? a).map (BitVec.ofInt 16)
  (ps.processRegistery default snapshot ((ps.loadRegistry .holding twoRows).getD [])).map Dict.items

end ReadCycle

end ProtocolGateway
