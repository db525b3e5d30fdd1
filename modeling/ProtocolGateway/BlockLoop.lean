import ProtocolGateway.ReadCycle

/-!
# The loop over blocks

`_read_registry_type_iter` is a generator: each `next` makes one attempt at one range and suspends.
Its index, its retry counts and its set of counted ranges live on between the attempts.

* `Blocks.next` — from one `yield` to the following one, or the end.
* `Drives` — the generator driven by its consumer.
* `Tries` — the attempts at one range: failures, and one that ends them.
* `blocks_driven` — driven to its end, it makes the tries of each range in turn, and few of them.
-/

namespace ProtocolGateway

namespace ReadCycle

/-! ## The generator -/

/-- What `read_modbus_registers_iter` yields for its one range: `none` after a failure, nothing for
a range that is disabled or has no values. -/
def blockResult (registryType : RegistryType) (range : Int × Int) (attempt : Attempt) :
    Option (List (Int × Int)) :=
  if attempt.disabled then some []
  else
    match attempt.response with
    | .nothing | .bytes _ | .ioException | .raises _ | .error => none
    | .reply registers bits =>
      some (numbered range ((responseValues registryType registers bits).getD []))

/-- Where the generator is suspended. `log` has the attempts so far, with the indices of their
ranges. -/
structure Blocks where
  idx : Nat := 0
  retryCounts : Dict Nat Nat := Dict.empty
  countedIndices : List Nat := []
  result : TransportCycleResult
  partialRegistry : Dict Int Int
  log : List (Nat × Attempt) := []

section Generator

variable (attempts : Nat → Attempt) (registryType : RegistryType) (maxRetriesPerBlock : Int)
  (ranges : List (Int × Int))

/-- `_cycle_expect_unit`, at the first attempt at a range. -/
def Blocks.count (g : Blocks) : Blocks :=
  if g.idx ∈ g.countedIndices then g
  else { g with
    countedIndices := g.idx :: g.countedIndices
    result := { g.result with expectedUnits := g.result.expectedUnits + 1 } }

/-- What an attempt at the range of the index leaves, before its result is looked at. -/
def Blocks.attempted (g : Blocks) (attempt : Attempt) : Blocks :=
  { g.count with log := g.log ++ [(g.idx, attempt)] }

/-- On to the following range. -/
def Blocks.advance (g : Blocks) (verdict : Verdict) : Blocks :=
  { g with result := g.result.mark verdict, idx := g.idx + 1 }

/-- `next`: the loop up to its `yield`, and what it yields; `none` for its end. The `n`th attempt of
the cycle meets `attempts n`. -/
def Blocks.next (n : Nat) (g : Blocks) : Option (Bool × Blocks) :=
  match ranges[g.idx]? with
  | none => none
  | some range =>
    let retryCount := (g.retryCounts.get? g.idx).getD 0
    let attempt := attempts n
    let g := g.attempted attempt
    match blockResult registryType range attempt with
    | some [] => some (true, g.advance .skipped)
    | none =>
      let retryCount := retryCount + 1
      let g := { g with retryCounts := g.retryCounts.set g.idx retryCount }
      if retryCount < maxRetriesPerBlock then some (false, g) else some (true, g.advance .skipped)
    | some items =>
      let g := { g with partialRegistry := g.partialRegistry.update items }
      some (true, g.advance (.accepted (items.map Prod.snd)))

/-- The generator, driven from the `n`th attempt of the cycle on: what it yields. -/
inductive Drives : Nat → Blocks → List Bool → Blocks → Prop
  | suspended (n : Nat) (g : Blocks) : Drives n g [] g
  | next {n : Nat} {g g' g'' : Blocks} {b : Bool} {yields : List Bool} :
    g.next attempts registryType maxRetriesPerBlock ranges n = some (b, g') →
      Drives (n + 1) g' yields g'' → Drives n g (b :: yields) g''

/-- The most attempts at a range. -/
def maxAttempts : Nat := max 1 maxRetriesPerBlock.toNat

/-- The attempts at a range: failures, then one that is no failure, or the last one there may be. -/
structure Tries (range : Int × Int) (most : Nat) (failures : List Attempt) (last : Attempt) : Prop where
  failed : ∀ a ∈ failures, blockResult registryType range a = none
  few : failures.length < most
  exhausted : blockResult registryType range last = none → failures.length + 1 = most

/-- What a verdict adds to the words that were received. -/
def Verdict.enter (range : Int × Int) (registry : Dict Int Int) : Verdict → Dict Int Int
  | .skipped => registry
  | .accepted values => registry.update (numbered range values)

/-- The attempts at the range of the index have been made. -/
structure Driven (range : Int × Int) (most n : Nat) (g : Blocks) (failures : List Attempt)
    (last : Attempt) (g' : Blocks) : Prop where
  tries : Tries registryType range most failures last
  idx : g'.idx = g.idx + 1
  log : g'.log = g.log ++ (failures ++ [last]).map (g.idx, ·)
  ahead : ∀ j, g.idx < j → g'.retryCounts.get? j = g.retryCounts.get? j ∧
    (j ∈ g'.countedIndices ↔ j ∈ g.countedIndices)
  calls : (readBlock attempts registryType range (most - 1) n).2 = n + (failures.length + 1)
  result : g'.result = g.count.result.mark (readBlock attempts registryType range (most - 1) n).1
  partialRegistry : g'.partialRegistry =
    (readBlock attempts registryType range (most - 1) n).1.enter range g.partialRegistry
  skipped : (readBlock attempts registryType range (most - 1) n).1 = .skipped ↔
    blockResult registryType range last = some [] ∨ blockResult registryType range last = none

/-! ## One attempt -/

variable {attempts : Nat → Attempt} {registryType : RegistryType} {maxRetriesPerBlock : Int}
  {ranges : List (Int × Int)} {range : Int × Int} {n : Nat} {g : Blocks}

@[simp] theorem Blocks.idx_count : g.count.idx = g.idx := by
  unfold Blocks.count
  split <;> rfl

@[simp] theorem Blocks.retryCounts_count : g.count.retryCounts = g.retryCounts := by
  unfold Blocks.count
  split <;> rfl

@[simp] theorem Blocks.partialRegistry_count : g.count.partialRegistry = g.partialRegistry := by
  unfold Blocks.count
  split <;> rfl

/-- The range of the index is counted once. -/
theorem Blocks.mem_countedIndices_count {j : Nat} :
    j ∈ g.count.countedIndices ↔ j = g.idx ∨ j ∈ g.countedIndices := by
  unfold Blocks.count
  split
  · next h => exact ⟨Or.inr, fun hj => hj.elim (· ▸ h) id⟩
  · exact List.mem_cons

theorem Blocks.next_of_nothing (hrange : ranges[g.idx]? = some range)
    (h : blockResult registryType range (attempts n) = some []) :
    g.next attempts registryType maxRetriesPerBlock ranges n =
      some (true, (g.attempted (attempts n)).advance .skipped) := by
  simp only [Blocks.next, hrange, h]

theorem Blocks.next_of_failure (hrange : ranges[g.idx]? = some range)
    (h : blockResult registryType range (attempts n) = none) :
    g.next attempts registryType maxRetriesPerBlock ranges n =
      let retryCount := (g.retryCounts.get? g.idx).getD 0 + 1
      let g' := { g.attempted (attempts n) with
        retryCounts := g.retryCounts.set g.idx retryCount }
      if (retryCount : Int) < maxRetriesPerBlock then some (false, g')
      else some (true, g'.advance .skipped) := by
  simp only [Blocks.next, hrange, h, Blocks.attempted, Blocks.idx_count, Blocks.retryCounts_count,
    Nat.cast_add, Nat.cast_one]

theorem Blocks.next_of_items (hrange : ranges[g.idx]? = some range) {items : List (Int × Int)}
    (hne : items ≠ []) (h : blockResult registryType range (attempts n) = some items) :
    g.next attempts registryType maxRetriesPerBlock ranges n =
      some (true, { g.attempted (attempts n) with
        partialRegistry := g.partialRegistry.update items }.advance
          (.accepted (items.map Prod.snd))) := by
  cases items with
  | nil => exact absurd rfl hne
  | cons item items =>
    simp only [Blocks.next, hrange, h, Blocks.attempted, Blocks.partialRegistry_count]

/-! ## The attempts at one range, as the cycle sees them -/

theorem readBlock_of_nothing {left : Nat} (h : blockResult registryType range (attempts n) = some []) :
    readBlock attempts registryType range left n = (.skipped, n + 1) := by
  unfold blockResult at h
  rw [readBlock.eq_def]
  split at h
  · next hdisabled => rw [if_pos hdisabled]
  · next hdisabled =>
    rw [if_neg hdisabled]
    split at h
    case h_6 hresponse =>
      simp only [hresponse]
      rw [if_pos (Option.some.inj h)]
    all_goals cases h

/-- A failure gives the range up at its last attempt, and leaves it to the next one before. -/
theorem readBlock_of_failure (h : blockResult registryType range (attempts n) = none) :
    readBlock attempts registryType range 0 n = (.skipped, n + 1) ∧
      ∀ left, readBlock attempts registryType range (left + 1) n =
        readBlock attempts registryType range left (n + 1) := by
  unfold blockResult at h
  refine ⟨?_, fun left => ?_⟩
  all_goals
    rw [readBlock.eq_def]
    split at h
    · cases h
    · next hdisabled =>
      rw [if_neg hdisabled]
      split at h
      case' h_6 => cases h
      all_goals
        next hresponse => simp only [hresponse]

theorem readBlock_of_items {left : Nat} {items : List (Int × Int)} (hne : items ≠ [])
    (h : blockResult registryType range (attempts n) = some items) :
    ∃ values, items = numbered range values ∧
      readBlock attempts registryType range left n = (.accepted values, n + 1) := by
  unfold blockResult at h
  rw [readBlock.eq_def]
  split at h
  · exact absurd (Option.some.inj h).symm hne
  · next hdisabled =>
    rw [if_neg hdisabled]
    split at h <;> cases h
    next hresponse =>
      simp only [hresponse]
      exact ⟨_, rfl, by rw [if_neg hne]⟩

/-! ## The attempts at one range -/

theorem maxAttempts_pos : 0 < maxAttempts maxRetriesPerBlock :=
  Nat.lt_of_lt_of_le Nat.one_pos (Nat.le_max_left _ _)

/-- The end of a range at its first attempt. -/
theorem driven_of_last {most : Nat} {partialRegistry : Dict Int Int} {retryCounts : Dict Nat Nat}
    {verdict verdict' : Verdict} (hmost : 0 < most)
    (hmark : ∀ result : TransportCycleResult, result.mark verdict' = result.mark verdict)
    (hblock : readBlock attempts registryType range (most - 1) n = (verdict, n + 1))
    (hexhausted : blockResult registryType range (attempts n) = none → 1 = most)
    (hahead : ∀ j, g.idx < j → retryCounts.get? j = g.retryCounts.get? j)
    (hregistry : partialRegistry = verdict.enter range g.partialRegistry)
    (hskipped : verdict = .skipped ↔ blockResult registryType range (attempts n) = some [] ∨
      blockResult registryType range (attempts n) = none) :
    Driven attempts registryType range most n g [] (attempts n)
      (Blocks.advance { g.attempted (attempts n) with
        retryCounts := retryCounts, partialRegistry := partialRegistry } verdict') where
  tries := ⟨List.forall_mem_nil _, hmost, hexhausted⟩
  idx := congrArg (· + 1) Blocks.idx_count
  log := rfl
  ahead j hj := ⟨hahead j hj, Blocks.mem_countedIndices_count.trans (or_iff_right (Nat.ne_of_gt hj))⟩
  calls := by rw [hblock]; rfl
  result := by rw [hblock]; exact hmark _
  partialRegistry := by rw [hblock]; exact hregistry
  skipped := by rw [hblock]; exact hskipped

/-- An attempt that is no failure is the last one. -/
theorem drives_of_result {left : Nat} (hrange : ranges[g.idx]? = some range)
    {items : List (Int × Int)} (h : blockResult registryType range (attempts n) = some items) :
    ∃ failures last yields g',
      Drives attempts registryType maxRetriesPerBlock ranges n g yields g' ∧
      yields.length = failures.length + 1 ∧
      Driven attempts registryType range (left + 1) n g failures last g' := by
  have hexhausted : blockResult registryType range (attempts n) = none → 1 = left + 1 := by
    rw [h]
    exact nofun
  by_cases hempty : items = []
  · subst hempty
    refine ⟨[], attempts n, [true], _, .next (Blocks.next_of_nothing hrange h) (.suspended ..),
      rfl, ?_⟩
    exact driven_of_last (Nat.succ_pos left) (fun _ => rfl) (readBlock_of_nothing h) hexhausted
      (fun _ _ => congrArg (Dict.get? · _) Blocks.retryCounts_count) Blocks.partialRegistry_count
      ⟨fun _ => Or.inl h, fun _ => rfl⟩
  · obtain ⟨values, rfl, hblock⟩ :=
      @readBlock_of_items attempts registryType range n left _ hempty h
    refine ⟨[], attempts n, [true], _, .next (Blocks.next_of_items hrange hempty h)
      (.suspended ..), rfl, ?_⟩
    have hmark (result : TransportCycleResult) :
        result.mark (.accepted ((numbered range values).map Prod.snd)) =
          result.mark (.accepted values) := rfl
    have hnot : Verdict.accepted values = .skipped ↔
        blockResult registryType range (attempts n) = some [] ∨
          blockResult registryType range (attempts n) = none := by
      rw [h, Option.some_inj]
      exact ⟨nofun, fun hor => hor.elim (absurd · hempty) nofun⟩
    exact driven_of_last (Nat.succ_pos left) hmark hblock hexhausted
      (fun _ _ => congrArg (Dict.get? · _) Blocks.retryCounts_count) rfl hnot

/-- The failure of the last attempt there may be gives the range up. -/
theorem driven_of_failure {retryCount : Nat}
    (h : blockResult registryType range (attempts n) = none) :
    Driven attempts registryType range 1 n g [] (attempts n)
      (Blocks.advance { g.attempted (attempts n) with
        retryCounts := g.retryCounts.set g.idx retryCount } .skipped) :=
  driven_of_last Nat.one_pos (fun _ => rfl) (readBlock_of_failure h).1 (fun _ => rfl)
    (fun _ hj => (Dict.get?_set ..).trans (if_neg (Nat.ne_of_gt hj)))
    Blocks.partialRegistry_count ⟨fun _ => Or.inr h, fun _ => rfl⟩

/-- A failure before the other attempts at a range. -/
theorem driven_of_retry {left : Nat} {failures : List Attempt} {last : Attempt} {g' : Blocks}
    {retryCount : Nat} (h : blockResult registryType range (attempts n) = none)
    (hdriven : Driven attempts registryType range (left + 1) (n + 1)
      { g.attempted (attempts n) with retryCounts := g.retryCounts.set g.idx retryCount }
      failures last g') :
    Driven attempts registryType range (left + 1 + 1) n g (attempts n :: failures) last g' := by
  have hblock : readBlock attempts registryType range (left + 1 + 1 - 1) n =
      readBlock attempts registryType range (left + 1 - 1) (n + 1) :=
    (readBlock_of_failure h).2 left
  have hcount : Blocks.count { g.attempted (attempts n) with
      retryCounts := g.retryCounts.set g.idx retryCount } = { g.attempted (attempts n) with
      retryCounts := g.retryCounts.set g.idx retryCount } := by
    refine if_pos (Blocks.mem_countedIndices_count.2 (Or.inl ?_))
    exact Blocks.idx_count
  exact {
    tries := ⟨List.forall_mem_cons.2 ⟨h, hdriven.tries.failed⟩, Nat.succ_lt_succ hdriven.tries.few,
      fun hlast => congrArg (· + 1) (hdriven.tries.exhausted hlast)⟩
    idx := hdriven.idx.trans (congrArg (· + 1) Blocks.idx_count)
    log := by
      rw [hdriven.log]
      simp [Blocks.attempted]
    ahead := fun j hj => by
      obtain ⟨hretry, hcounted⟩ := hdriven.ahead j (Blocks.idx_count.trans_lt hj)
      refine ⟨hretry.trans ((Dict.get?_set ..).trans (if_neg (Nat.ne_of_gt hj))), hcounted.trans ?_⟩
      exact Blocks.mem_countedIndices_count.trans (or_iff_right (Nat.ne_of_gt hj))
    calls := by
      rw [hblock, hdriven.calls, List.length_cons]
      omega
    result := by
      rw [hblock, hdriven.result, hcount]
      rfl
    partialRegistry := by
      rw [hblock, hdriven.partialRegistry]
      exact congrArg (Verdict.enter range · _) Blocks.partialRegistry_count
    skipped := by rw [hblock, hdriven.skipped] }

/-- **The attempts at one range**, with as many to come as there may be. -/
theorem drives_block (left : Nat) :
    ∀ (n : Nat) (g : Blocks), ranges[g.idx]? = some range →
      (g.retryCounts.get? g.idx).getD 0 + (left + 1) = maxAttempts maxRetriesPerBlock →
      ∃ failures last yields g',
        Drives attempts registryType maxRetriesPerBlock ranges n g yields g' ∧
        yields.length = failures.length + 1 ∧
        Driven attempts registryType range (left + 1) n g failures last g' := by
  induction left with
  | zero =>
    intro n g hrange hcount
    rcases hresult : blockResult registryType range (attempts n) with _ | items
    · have hnot : ¬((((g.retryCounts.get? g.idx).getD 0 + 1 : Nat) : Int) <
          maxRetriesPerBlock) := by
        unfold maxAttempts at hcount
        omega
      have hnext := @Blocks.next_of_failure attempts registryType maxRetriesPerBlock ranges range n
        g hrange hresult
      dsimp only at hnext
      rw [if_neg hnot] at hnext
      exact ⟨[], attempts n, [true], _, .next hnext (.suspended ..), rfl,
        driven_of_failure hresult⟩
    · exact drives_of_result hrange hresult
  | succ left ih =>
    intro n g hrange hcount
    rcases hresult : blockResult registryType range (attempts n) with _ | items
    · have hlt : (((g.retryCounts.get? g.idx).getD 0 + 1 : Nat) : Int) < maxRetriesPerBlock := by
        unfold maxAttempts at hcount
        omega
      have hnext := @Blocks.next_of_failure attempts registryType maxRetriesPerBlock ranges range n
        g hrange hresult
      dsimp only at hnext
      rw [if_pos hlt] at hnext
      obtain ⟨failures, last, yields, g', hdrives, hlength, hdriven⟩ := ih (n + 1)
        { g.attempted (attempts n) with
          retryCounts := g.retryCounts.set g.idx ((g.retryCounts.get? g.idx).getD 0 + 1) }
        ((congrArg (ranges[·]?) Blocks.idx_count).trans hrange) (by
          simp only [Blocks.attempted, Blocks.idx_count, Dict.get?_set, if_pos, Option.getD_some]
          omega)
      exact ⟨attempts n :: failures, last, false :: yields, g', .next hnext hdrives,
        congrArg (· + 1) hlength, driven_of_retry hresult hdriven⟩
    · exact drives_of_result hrange hresult

/-! ## The attempts at all ranges -/

/-- The attempts at some ranges, the first of them with the index `i`. -/
def visits : Nat → List (List Attempt × Attempt) → List (Nat × Attempt)
  | _, [] => []
  | i, tries :: rest => (tries.1 ++ [tries.2]).map (i, ·) ++ visits (i + 1) rest

/-- A verdict and the count of an expected unit can change places. -/
theorem mark_expected (result : TransportCycleResult) (verdict : Verdict) (k : Nat) :
    ({ result with expectedUnits := result.expectedUnits + k } : TransportCycleResult).mark verdict =
      { result.mark verdict with expectedUnits := (result.mark verdict).expectedUnits + k } := by
  cases verdict <;> rfl

/-- The account of a range and of those after it. -/
theorem account_cons (result : TransportCycleResult) (verdict : Verdict)
    (replies : List ((Int × Int) × Verdict)) :
    result.account (.interleaved maxRetriesPerBlock) ((range, verdict) :: replies) =
      (({ result with expectedUnits := result.expectedUnits + 1 } : TransportCycleResult).mark
        verdict).account (.interleaved maxRetriesPerBlock) replies := by
  simp only [TransportCycleResult.account, TransportCycleResult.expect, List.foldl_cons, List.map_cons,
    List.length_cons, mark_expected]
  rw [Nat.add_assoc, Nat.add_comm 1]

/-- The generator has no index after the last range. -/
theorem next_of_length_le (h : ranges.length ≤ g.idx) :
    g.next attempts registryType maxRetriesPerBlock ranges n = none := by
  rw [Blocks.next, List.getElem?_eq_none h]

theorem Drives.append {n : Nat} {g g' g'' : Blocks} {yields yields' : List Bool}
    (h : Drives attempts registryType maxRetriesPerBlock ranges n g yields g')
    (h' : Drives attempts registryType maxRetriesPerBlock ranges (n + yields.length) g' yields' g'') :
    Drives attempts registryType maxRetriesPerBlock ranges n g (yields ++ yields') g'' := by
  induction h with
  | suspended => exact h'
  | next hnext _ ih =>
    refine .next hnext (ih ?_)
    rwa [List.length_cons, Nat.add_comm _ 1, ← Nat.add_assoc] at h'

/-- What the generator has done with the rest of the ranges when it is at its end. -/
structure Finished (rest : List (Int × Int)) (n : Nat) (g : Blocks)
    (blocks : List (List Attempt × Attempt)) (yields : List Bool) (g' : Blocks) : Prop where
  driven : Drives attempts registryType maxRetriesPerBlock ranges n g yields g'
  ended : g'.next attempts registryType maxRetriesPerBlock ranges (n + yields.length) = none
  few : yields.length ≤ rest.length * maxAttempts maxRetriesPerBlock
  tries : List.Forall₂ (fun range tries => Tries registryType range (maxAttempts maxRetriesPerBlock)
    tries.1 tries.2) rest blocks
  log : g'.log = g.log ++ visits g.idx blocks
  calls : (readRegistryTypeIter attempts registryType maxRetriesPerBlock rest n).2 = n + yields.length
  result : g'.result = g.result.account (.interleaved maxRetriesPerBlock)
    (readRegistryTypeIter attempts registryType maxRetriesPerBlock rest n).1
  partialRegistry : g'.partialRegistry =
    (readRegistryTypeIter attempts registryType maxRetriesPerBlock rest n).1.foldl
      (fun registry reply => reply.2.enter reply.1 registry) g.partialRegistry
  skipped : (∃ reply ∈ (readRegistryTypeIter attempts registryType maxRetriesPerBlock rest n).1,
      reply.2 = .skipped) ↔
    ∃ block ∈ rest.zip blocks, blockResult registryType block.1 block.2.2 = some [] ∨
      blockResult registryType block.1 block.2.2 = none

/-- The first range, and the others from the attempts that are left to them. -/
theorem readRegistryTypeIter_cons (range : Int × Int) (rest : List (Int × Int)) (n : Nat) :
    readRegistryTypeIter attempts registryType maxRetriesPerBlock (range :: rest) n =
      let block := readBlock attempts registryType range (maxAttempts maxRetriesPerBlock - 1) n
      let others := readRegistryTypeIter attempts registryType maxRetriesPerBlock rest block.2
      ((range, block.1) :: others.1, others.2) := by
  have hleft : (maxRetriesPerBlock - 1).toNat = maxAttempts maxRetriesPerBlock - 1 := by
    unfold maxAttempts
    omega
  rw [readRegistryTypeIter, hleft]

/-- **The ranges that are left**, from a state that has not come to any of them. -/
theorem finished_rest (rest : List (Int × Int)) :
    ∀ (n : Nat) (g : Blocks), ranges.drop g.idx = rest →
      (∀ j, g.idx ≤ j → g.retryCounts.get? j = none ∧ j ∉ g.countedIndices) →
      ∃ blocks yields g', @Finished attempts registryType maxRetriesPerBlock ranges rest n g blocks
        yields g' := by
  induction rest with
  | nil =>
    intro n g hrest hfresh
    refine ⟨[], [], g, .suspended n g, next_of_length_le (List.drop_eq_nil_iff.1 hrest), Nat.zero_le _,
      .nil, (List.append_nil _).symm, rfl, rfl, rfl, ?_⟩
    simp [readRegistryTypeIter]
  | cons range rest ih =>
    intro n g hrest hfresh
    have hrange : ranges[g.idx]? = some range := by
      rw [← List.head?_drop, hrest]
      rfl
    obtain ⟨hretry, hcounted⟩ := hfresh g.idx le_rfl
    have hmost : maxAttempts maxRetriesPerBlock - 1 + 1 = maxAttempts maxRetriesPerBlock :=
      Nat.sub_add_cancel maxAttempts_pos
    obtain ⟨failures, last, yields, g', hdrives, hlength, hdriven⟩ :=
      @drives_block attempts registryType maxRetriesPerBlock ranges range
        (maxAttempts maxRetriesPerBlock - 1) n g hrange
        (by rw [hretry, Option.getD_none, hmost, Nat.zero_add])
    rw [hmost] at hdriven
    obtain ⟨blocks, yields', g'', hfinished⟩ := ih (n + yields.length) g' (by
      rw [hdriven.idx, ← List.drop_drop, hrest]
      rfl) (fun j hj => by
        rw [hdriven.idx] at hj
        obtain ⟨hretry', hcounted'⟩ := hdriven.ahead j hj
        obtain ⟨hretry, hcounted⟩ := hfresh j (Nat.le_of_succ_le hj)
        exact ⟨hretry'.trans hretry, fun hmem => hcounted (hcounted'.1 hmem)⟩)
    have hiter := @readRegistryTypeIter_cons attempts registryType maxRetriesPerBlock range rest n
    dsimp only at hiter
    have hcalls := hdriven.calls
    rw [← hlength] at hcalls
    rw [hcalls] at hiter
    refine ⟨(failures, last) :: blocks, yields ++ yields', g'', ?_⟩
    exact {
      driven := hdrives.append hfinished.driven
      ended := by
        rw [List.length_append, ← Nat.add_assoc]
        exact hfinished.ended
      few := by
        have hfew := hdriven.tries.few
        have hrest := hfinished.few
        rw [List.length_append, List.length_cons, Nat.succ_mul]
        omega
      tries := .cons hdriven.tries hfinished.tries
      log := by
        rw [hfinished.log, hdriven.log, hdriven.idx, visits, List.append_assoc]
      calls := by
        rw [hiter, List.length_append, ← Nat.add_assoc]
        exact hfinished.calls
      result := by
        rw [hiter, account_cons, hfinished.result, hdriven.result, Blocks.count, if_neg hcounted]
      partialRegistry := by
        rw [hiter, hfinished.partialRegistry, hdriven.partialRegistry]
        rfl
      skipped := by
        rw [hiter, List.exists_mem_cons_iff, hdriven.skipped, hfinished.skipped, List.zip_cons_cons,
          List.exists_mem_cons_iff] }

/-! ## Driven to its end -/

/-- The attempts that reach the wire. -/
def wireAttempts (tries : List Attempt × Attempt) : Nat :=
  (tries.1 ++ [tries.2]).countP fun a => !a.disabled

/-- The last attempt found the range disabled, or empty, or it was the last one that may fail. -/
def Skipped (registryType : RegistryType) (range : Int × Int) (last : Attempt) : Prop :=
  last.disabled = true ∨ blockResult registryType range last = some [] ∨
    blockResult registryType range last = none

theorem skipped_iff {last : Attempt} : Skipped registryType range last ↔
    blockResult registryType range last = some [] ∨ blockResult registryType range last = none := by
  refine or_iff_right_of_imp fun h => Or.inl ?_
  rw [blockResult, if_pos h]

/-- A failed attempt was on the wire. -/
theorem not_disabled_of_failure {a : Attempt} (h : blockResult registryType range a = none) :
    a.disabled = false := by
  refine Bool.eq_false_iff.2 fun hdisabled => ?_
  rw [blockResult, if_pos hdisabled] at h
  cases h

/-- A range is on the wire as often as it may be at most, and not at all only if it was disabled. -/
theorem Tries.wireAttempts {most : Nat} {tries : List Attempt × Attempt}
    (h : Tries registryType range most tries.1 tries.2) :
    wireAttempts tries ≤ most ∧
      (ReadCycle.wireAttempts tries = 0 → tries.1 = [] ∧ tries.2.disabled = true) := by
  have hfailures : tries.1.countP (fun a => !a.disabled) = tries.1.length := by
    refine List.countP_eq_length.2 fun a ha => ?_
    rw [not_disabled_of_failure (h.failed a ha)]
    rfl
  have hfew := h.few
  rw [ReadCycle.wireAttempts, List.countP_append, hfailures, List.countP_singleton]
  constructor
  · split <;> omega
  · intro hzero
    split at hzero
    · omega
    · next hdisabled =>
      refine ⟨List.length_eq_zero_iff.1 hzero, ?_⟩
      simpa using hdisabled

/-- The generator receives the words, and keeps the account, of the cycle's reading of a type. -/
theorem blocks_received (attempts : Nat → Attempt) (registryType : RegistryType)
    (maxRetriesPerBlock : Int) (ranges : List (Int × Int)) (n : Nat)
    (result : TransportCycleResult) :
    ∃ yields g,
      Drives attempts registryType maxRetriesPerBlock ranges n
        { result := result, partialRegistry := Dict.empty } yields g ∧
      g.next attempts registryType maxRetriesPerBlock ranges (n + yields.length) = none ∧
      g.result = result.account (.interleaved maxRetriesPerBlock)
        (readRegistryTypeIter attempts registryType maxRetriesPerBlock ranges n).1 ∧
      g.partialRegistry =
        received (readRegistryTypeIter attempts registryType maxRetriesPerBlock ranges n).1 := by
  obtain ⟨blocks, yields, g, hfinished⟩ := @finished_rest attempts registryType maxRetriesPerBlock
    ranges ranges n { result := result, partialRegistry := Dict.empty } rfl
    fun j _ => ⟨rfl, List.not_mem_nil⟩
  refine ⟨yields, g, hfinished.driven, hfinished.ended, hfinished.result,
    hfinished.partialRegistry.trans ?_⟩
  rw [received]
  refine congrArg (fun f => List.foldl f _ _) (funext fun registry => funext fun reply => ?_)
  cases reply.2 <;> rfl

/-- **The generator driven to its end.** It ends after few attempts. It goes through the ranges in
their order, makes at each range some attempts that fail and one that ends them: a success, or one
that finds the range disabled or empty, or the last one there may be. It marks the cycle incomplete
exactly if some range was disabled, empty or exhausted. -/
theorem blocks_driven (attempts : Nat → Attempt) (registryType : RegistryType)
    (maxRetriesPerBlock : Int) (ranges : List (Int × Int)) (n : Nat) (result : TransportCycleResult)
    (registry : Dict Int Int) :
    ∃ blocks yields g,
      Drives attempts registryType maxRetriesPerBlock ranges n
        { result := result, partialRegistry := registry } yields g ∧
      g.next attempts registryType maxRetriesPerBlock ranges (n + yields.length) = none ∧
      yields.length ≤ ranges.length * maxAttempts maxRetriesPerBlock ∧
      g.log = visits 0 blocks ∧
      List.Forall₂ (fun range tries =>
        Tries registryType range (maxAttempts maxRetriesPerBlock) tries.1 tries.2 ∧
        wireAttempts tries ≤ maxAttempts maxRetriesPerBlock ∧
        (wireAttempts tries = 0 → tries.1 = [] ∧ tries.2.disabled = true)) ranges blocks ∧
      (g.result.isComplete = false ↔ result.isComplete = false ∨
        ∃ block ∈ ranges.zip blocks, Skipped registryType block.1 block.2.2) := by
  obtain ⟨blocks, yields, g, hfinished⟩ := @finished_rest attempts registryType maxRetriesPerBlock
    ranges ranges n { result := result, partialRegistry := registry } rfl
    fun j _ => ⟨rfl, List.not_mem_nil⟩
  refine ⟨blocks, yields, g, hfinished.driven, hfinished.ended, hfinished.few, hfinished.log,
    hfinished.tries.imp fun range tries h => ⟨h, h.wireAttempts⟩, ?_⟩
  simp only [skipped_iff]
  rw [← hfinished.skipped, hfinished.result, ← not_iff_not, Bool.not_eq_false, isComplete_account,
    not_or, Bool.not_eq_false, not_exists]
  exact and_congr_right fun _ => forall_congr' fun reply => not_and.symm

end Generator

end ReadCycle

end ProtocolGateway
