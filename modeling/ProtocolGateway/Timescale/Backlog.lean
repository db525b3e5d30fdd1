import Mathlib.Data.List.Zip
import ProtocolGateway.Lib.IdTable
import ProtocolGateway.Timescale.Payload

/-!
# The backlog of the TimescaleDB bridge

`BacklogManager`: data points that could not be written, kept in memory and journalled to an
SQLite table. Every operation holds the backlog lock from its first access to its last, so it is
one step here. An operation on the table either happens in full or, when it fails, not at all; the
flags of an operation say which of its table accesses fail.

A crash in the middle of an operation leaves the table as one of the operation's failure outcomes
does, and everything else is lost with the process (`crash`).

* `enqueue`, `replayToQueue`, `ack`, `release`, `commitAcks`, `loadFromDisk` — the source's.
* `put`, `take` — the two ends of the flush queue.

The notices the manager collects for the user have no effect on the points and are left out.
-/

namespace ProtocolGateway

/-- A row of the journal without its identifier: two columns of text, the second one JSON. -/
structure BacklogRow where
  mTime : List Char
  payload : Json

/-- The settings of the backlog. -/
structure BacklogSettings where
  /-- seconds -/
  maxBacklogAge : Int
  maxBacklogSize : Nat
  one_le_size : 1 ≤ maxBacklogSize

/-- What a call of `enqueue` comes to. -/
inductive EnqueueResult
  /-- it returned `True` -/
  | stored
  /-- it returned `False`: the lock could not be obtained -/
  | busy
  /-- a disk error was raised -/
  | raised
  deriving DecidableEq, Repr

/-- The journal row of a point. -/
def FlushPayload.toRow (p : FlushPayload) : BacklogRow := ⟨p.mTime.str, p.toJson⟩

/-- `BacklogManager`, its journal and the flush queue. -/
structure Backlog where
  backlogPoints : List FlushPayload
  /-- parallel to `backlogPoints` -/
  backlogRowids : List Nat
  /-- rowids currently sitting in the flush queue (replayed, not yet settled) -/
  inflight : List Nat
  /-- acknowledged rowids not yet deleted from SQLite -/
  pendingDeletes : List Nat
  /-- `None` is the shutdown sentinel -/
  flushQueue : List (Option QueueItem)
  table : IdTable BacklogRow

namespace Backlog

variable (cfg : BacklogSettings)

/-- A fresh process with an empty journal. -/
def empty : Backlog := ⟨[], [], [], [], [], .empty⟩

/-- The process dies: only the journal is left. -/
def crash (s : Backlog) : Backlog := { empty with table := s.table }

/-- The points in memory, each with its rowid. -/
def entries (s : Backlog) : List (Nat × FlushPayload) := s.backlogRowids.zip s.backlogPoints

/-- The rowids of the replayed points in the flush queue, in its order. -/
def queued (s : Backlog) : List Nat := s.flushQueue.filterMap fun item => item.bind QueueItem.backlogRowid

/-- `write_data` puts a live point on the flush queue, `close` the sentinel. -/
def put (s : Backlog) (p : Option FlushPayload) : Backlog :=
  { s with flushQueue := s.flushQueue ++ [p.map fun p => ⟨p, none⟩] }

/-- The flush worker takes an item off the queue. -/
def take (s : Backlog) : Backlog := { s with flushQueue := s.flushQueue.tail }

/-! ## enqueue -/

/-- The eviction of the oldest point: from the journal first, then from memory. -/
def evictOldest (s : Backlog) (oldest : Nat) : Backlog :=
  { s with
    backlogPoints := s.backlogPoints.tail
    backlogRowids := s.backlogRowids.tail
    inflight := s.inflight.filter (· ≠ oldest)
    table := s.table.delete [oldest] }

/-- The insertion of a new point: into the journal first, then into memory. -/
def append (s : Backlog) (p : FlushPayload) : Backlog :=
  { s with
    backlogPoints := s.backlogPoints ++ [p]
    backlogRowids := s.backlogRowids ++ [s.table.next]
    table := s.table.insert p.toRow }

/-- `enqueue`. -/
def enqueue (s : Backlog) (p : FlushPayload) (busy deleteFails insertFails : Bool) :
    Backlog × EnqueueResult :=
  if busy then (s, .busy)
  else if cfg.maxBacklogSize ≤ s.backlogPoints.length then
    match s.backlogRowids with
    | [] => (s, .raised)
    | oldest :: _ =>
      if deleteFails then (s, .raised)
      else if insertFails then (s.evictOldest oldest, .raised)
      else ((s.evictOldest oldest).append p, .stored)
  else if insertFails then (s, .raised)
  else (s.append p, .stored)

/-! ## Replaying and settling -/

/-- One round of the loop of `replay_to_queue`. A rowid is never negative: the journal always has
a path. -/
def replayStep (acc : Backlog × Nat) (e : FlushPayload × Nat) : Backlog × Nat :=
  if e.2 ∈ acc.1.inflight then acc
  else
    ({ acc.1 with
        flushQueue := acc.1.flushQueue ++ [some ⟨e.1, some e.2⟩]
        inflight := acc.1.inflight ++ [e.2] }, acc.2 + 1)

/-- `replay_to_queue`: the number of points queued comes with the state. -/
def replayToQueue (s : Backlog) : Backlog × Nat :=
  (s.backlogPoints.zip s.backlogRowids).foldl replayStep (s, 0)

/-- The locked part of `ack`, and whether `commit_acks` is called after it. -/
def ack (s : Backlog) (rowid : Nat) : Backlog × Bool :=
  let s' := { s with inflight := s.inflight.filter (· ≠ rowid) }
  if rowid ∈ s.backlogRowids then
    let index := s.backlogRowids.idxOf rowid
    let pending := s.pendingDeletes ++ [rowid]
    ({ s' with
        backlogPoints := s.backlogPoints.eraseIdx index
        backlogRowids := s.backlogRowids.eraseIdx index
        pendingDeletes := pending }, 200 ≤ pending.length)
  else (s', false)

/-- `release`. -/
def release (s : Backlog) (rowid : Nat) : Backlog :=
  { s with inflight := s.inflight.filter (· ≠ rowid) }

/-- `commit_acks`. -/
def commitAcks (s : Backlog) (deleteFails : Bool) : Backlog :=
  if s.pendingDeletes = [] then s
  else if deleteFails then s
  else { s with pendingDeletes := [], table := s.table.delete s.pendingDeletes }

/-! ## Loading -/

/-- The number of days `datetime` covers, in microseconds. -/
def wallLimit : Int := 3652059 * dayMicroseconds

/-- `cutoff`: `_now_tz() - timedelta(seconds=max_backlog_age)`, `none` for an `OverflowError`. -/
def cutoff (now : DateTime) : Option Int :=
  let age := cfg.maxBacklogAge * 1000000
  if 0 ≤ now.wall - age ∧ now.wall - age < wallLimit then some (now.instant - age) else none

/-- What a row is loaded as, `none` when it is expired or corrupted. -/
def loadRow (cutoff : Int) (row : BacklogRow) : Option FlushPayload := do
  let mTime ← DateTime.fromIsoFormat row.mTime
  if mTime.instant < cutoff then none else flushPayloadFromJson row.payload mTime

/-- The rows that are loaded. -/
def loadable (cutoff : Int) (rows : List (Nat × BacklogRow)) : List (Nat × FlushPayload) :=
  rows.filterMap fun row => (loadRow cutoff row.2).map fun p => (row.1, p)

/-- `expired_ids`: the expired and the corrupted rows. -/
def expiredIds (cutoff : Int) (rows : List (Nat × BacklogRow)) : List Nat :=
  (rows.filter fun row => (loadRow cutoff row.2).isNone).map Prod.fst

/-- `load_from_disk`, `none` when it fails, which changes nothing. -/
def loadFromDisk (s : Backlog) (now : DateTime) (selectFails deleteFails : Bool) :
    Option Backlog := do
  let cutoff ← cutoff cfg now
  if selectFails then none
  else if expiredIds cutoff s.table.rows ≠ [] ∧ deleteFails then none
  else
    some { s with
      backlogPoints := (loadable cutoff s.table.rows).map Prod.snd
      backlogRowids := (loadable cutoff s.table.rows).map Prod.fst
      inflight := []
      pendingDeletes := []
      table := s.table.delete (expiredIds cutoff s.table.rows) }

/-! ## What the operations do -/

variable {s : Backlog}

@[simp] theorem queued_put (s : Backlog) (p : Option FlushPayload) :
    (s.put p).queued = s.queued := by
  cases p <;> simp [queued, put]

theorem queued_take_sublist (s : Backlog) : s.take.queued.Sublist s.queued :=
  (List.tail_sublist _).filterMap _

theorem map_fst_entries (h : s.backlogPoints.length = s.backlogRowids.length) :
    s.entries.map Prod.fst = s.backlogRowids :=
  List.map_fst_zip (Nat.le_of_eq h.symm)

/-- **What an `enqueue` can come to.** Nothing, the eviction of the oldest point of a full backlog,
the insertion of the new point into one that is not full, or both. -/
theorem enqueue_cases (p : FlushPayload) (busy deleteFails insertFails : Bool) {s' : Backlog}
    {result : EnqueueResult}
    (h : s.enqueue cfg p busy deleteFails insertFails = (s', result)) :
    (s' = s ∧ result ≠ .stored) ∨
    (s.backlogPoints.length < cfg.maxBacklogSize ∧ s' = s.append p ∧ result = .stored) ∨
    (cfg.maxBacklogSize ≤ s.backlogPoints.length ∧ ∃ oldest rest,
      s.backlogRowids = oldest :: rest ∧
        ((s' = s.evictOldest oldest ∧ result ≠ .stored) ∨
          (s' = (s.evictOldest oldest).append p ∧ result = .stored))) := by
  unfold enqueue at h
  split at h
  · cases h
    exact .inl ⟨rfl, by simp⟩
  · split at h
    · next hfull =>
      split at h
      · cases h
        exact .inl ⟨rfl, by simp⟩
      · next oldest rest heq =>
        split at h
        · cases h
          exact .inl ⟨rfl, by simp⟩
        · split at h <;> cases h
          · exact .inr (.inr ⟨hfull, oldest, rest, heq, .inl ⟨rfl, by simp⟩⟩)
          · exact .inr (.inr ⟨hfull, oldest, rest, heq, .inr ⟨rfl, rfl⟩⟩)
    · next hroom =>
      split at h <;> cases h
      · exact .inl ⟨rfl, by simp⟩
      · exact .inr (.inl ⟨Nat.lt_of_not_le hroom, rfl, rfl⟩)

/-- The points a replay puts on the queue: those in memory that are not already there. -/
def fresh (s : Backlog) : List (Nat × FlushPayload) := s.entries.filter fun e => e.1 ∉ s.inflight

/-- The rounds of the replay loop over points with distinct rowids. -/
theorem foldl_replayStep {es : List (FlushPayload × Nat)} (hnodup : (es.map Prod.snd).Nodup)
    (acc : Backlog × Nat) :
    es.foldl replayStep acc =
      ({ acc.1 with
          flushQueue := acc.1.flushQueue ++
            (es.filter fun e => e.2 ∉ acc.1.inflight).map fun e => some ⟨e.1, some e.2⟩
          inflight := acc.1.inflight ++
            (es.filter fun e => e.2 ∉ acc.1.inflight).map Prod.snd },
        acc.2 + (es.filter fun e => e.2 ∉ acc.1.inflight).length) := by
  induction es generalizing acc with
  | nil => simp
  | cons e es ih =>
    rw [List.map_cons, List.nodup_cons] at hnodup
    obtain ⟨hnotin, hnodup⟩ := hnodup
    rw [List.foldl_cons, ih hnodup]
    by_cases hin : e.2 ∈ acc.1.inflight
    · simp [replayStep, hin]
    · -- the rowid just marked is not that of a later point
      have hlater : (es.filter fun x => x.2 ∉ acc.1.inflight ++ [e.2]) =
          es.filter fun x => x.2 ∉ acc.1.inflight :=
        List.filter_congr fun x hx => by
          have hne : x.2 ≠ e.2 := fun heq => hnotin (heq ▸ List.mem_map_of_mem hx)
          simp [hne]
      simp only [replayStep, if_neg hin, hlater]
      simp [hin, Nat.add_assoc, Nat.add_comm 1]

/-- **What a replay does**, when no two points in memory share a rowid. -/
theorem replayToQueue_eq (hnodup : s.backlogRowids.Nodup)
    (hlen : s.backlogPoints.length = s.backlogRowids.length) :
    s.replayToQueue =
      ({ s with
          flushQueue := s.flushQueue ++ s.fresh.map fun e => some ⟨e.2, some e.1⟩
          inflight := s.inflight ++ s.fresh.map Prod.fst }, s.fresh.length) := by
  have hswap : s.backlogPoints.zip s.backlogRowids = s.entries.map Prod.swap := by
    rw [entries, List.zip_swap]
  have hmap : (s.backlogPoints.zip s.backlogRowids).map Prod.snd = s.backlogRowids :=
    List.map_snd_zip (Nat.le_of_eq hlen.symm)
  rw [replayToQueue, foldl_replayStep (by rw [hmap]; exact hnodup), hswap]
  simp [fresh, List.filter_map, Function.comp_def]

/-! ## What a row is loaded as -/

theorem loadRow_toRow (cutoff : Int) (p : FlushPayload) :
    loadRow cutoff p.toRow = if p.mTime.instant < cutoff then none else some p := by
  simp only [loadRow, FlushPayload.toRow, DateTime.fromIsoFormat_str, Option.bind_eq_bind,
    Option.bind_some, flushPayloadFromJson_toJson]

/-- Of journalled points, those that are not expired are loaded, unchanged and in order. -/
theorem loadable_map (cutoff : Int) (es : List (Nat × FlushPayload)) :
    loadable cutoff (es.map fun e => (e.1, e.2.toRow)) =
      es.filter fun e => ¬e.2.mTime.instant < cutoff := by
  induction es with
  | nil => rfl
  | cons e es ih =>
    rw [loadable] at ih ⊢
    rw [List.map_cons, List.filterMap_cons, ih, loadRow_toRow]
    by_cases h : e.2.mTime.instant < cutoff
    · rw [if_pos h, List.filter_cons_of_neg (by simpa using h)]
      rfl
    · rw [if_neg h, List.filter_cons_of_pos (by simpa using h)]
      rfl

/-- Of journalled points, the expired ones are deleted. -/
theorem mem_expiredIds_map {cutoff : Int} {es : List (Nat × FlushPayload)} {r : Nat} :
    r ∈ expiredIds cutoff (es.map fun e => (e.1, e.2.toRow)) ↔
      ∃ p, (r, p) ∈ es ∧ p.mTime.instant < cutoff := by
  simp only [expiredIds, List.mem_map, List.mem_filter]
  constructor
  · rintro ⟨row, ⟨⟨e, he, rfl⟩, hnone⟩, rfl⟩
    rw [loadRow_toRow] at hnone
    refine ⟨e.2, he, ?_⟩
    by_contra hge
    rw [if_neg hge] at hnone
    exact absurd hnone (by simp)
  · rintro ⟨p, hp, hlt⟩
    exact ⟨(r, p.toRow), ⟨⟨(r, p), hp, rfl⟩, by rw [loadRow_toRow, if_pos hlt]; rfl⟩, rfl⟩

/-- **What a load that succeeds does.** -/
theorem loadFromDisk_eq_some {now : DateTime} {selectFails deleteFails : Bool} {s' : Backlog}
    (h : s.loadFromDisk cfg now selectFails deleteFails = some s') :
    ∃ c, cutoff cfg now = some c ∧ s' =
      { s with
        backlogPoints := (loadable c s.table.rows).map Prod.snd
        backlogRowids := (loadable c s.table.rows).map Prod.fst
        inflight := []
        pendingDeletes := []
        table := s.table.delete (expiredIds c s.table.rows) } := by
  unfold loadFromDisk at h
  obtain ⟨c, hc, h⟩ := Option.bind_eq_some_iff.mp h
  refine ⟨c, hc, ?_⟩
  split at h
  · cases h
  · split at h
    · cases h
    · exact (Option.some.inj h).symm

/-- A load whose table accesses succeed, at a time that has a cutoff, succeeds. -/
theorem loadFromDisk_eq {now : DateTime} {c : Int} (h : cutoff cfg now = some c) :
    s.loadFromDisk cfg now false false =
      some { s with
        backlogPoints := (loadable c s.table.rows).map Prod.snd
        backlogRowids := (loadable c s.table.rows).map Prod.fst
        inflight := []
        pendingDeletes := []
        table := s.table.delete (expiredIds c s.table.rows) } := by
  simp [loadFromDisk, h]

/-! ## Tidy backlogs -/

/-- The two lists correspond, and the rowids ascend and were given out by the journal. -/
structure Tidy (s : Backlog) : Prop where
  length_eq : s.backlogPoints.length = s.backlogRowids.length
  sorted : s.backlogRowids.Pairwise (· < ·)
  lt_next : ∀ r ∈ s.backlogRowids, r < s.table.next

namespace Tidy

variable {s : Backlog}

theorem nodup (h : Tidy s) : s.backlogRowids.Nodup := h.sorted.imp Nat.ne_of_lt

theorem crash (s : Backlog) : Tidy s.crash where
  length_eq := rfl
  sorted := .nil
  lt_next := fun _ hr => absurd hr List.not_mem_nil

/-- Whatever is in the journal. -/
theorem load {cfg : BacklogSettings} {now : DateTime} {selectFails deleteFails : Bool}
    {s' : Backlog} (h : s.loadFromDisk cfg now selectFails deleteFails = some s') : Tidy s' := by
  obtain ⟨c, -, rfl⟩ := loadFromDisk_eq_some cfg h
  have hsub : ((loadable c s.table.rows).map Prod.fst).Sublist s.table.ids := by
    have hids : ∀ rows : List (Nat × BacklogRow),
        ((loadable c rows).map Prod.fst).Sublist (rows.map Prod.fst) := by
      intro rows
      induction rows with
      | nil => exact .slnil
      | cons row rows ih =>
        rw [loadable] at ih ⊢
        rw [List.filterMap_cons]
        cases loadRow c row.2 with
        | none => exact ih.cons _
        | some p => exact ih.cons_cons _
    exact hids _
  exact
    { length_eq := by rw [List.length_map, List.length_map]
      sorted := s.table.sorted.sublist hsub
      lt_next := fun r hr => IdTable.lt_next (t := s.table) (hsub.subset hr) }

theorem evictOldest (h : Tidy s) (oldest : Nat) : Tidy (s.evictOldest oldest) where
  length_eq := by
    have := h.length_eq
    simp only [Backlog.evictOldest, List.length_tail]
    omega
  sorted := h.sorted.sublist (List.tail_sublist _)
  lt_next := fun r hr => h.lt_next r (List.mem_of_mem_tail hr)

theorem append (h : Tidy s) (p : FlushPayload) : Tidy (s.append p) where
  length_eq := by simp [Backlog.append, h.length_eq]
  sorted := by
    refine List.pairwise_append.mpr ⟨h.sorted, List.pairwise_singleton _ _, fun r hr n hn => ?_⟩
    rw [List.mem_singleton.mp hn]
    exact h.lt_next r hr
  lt_next := fun r hr => by
    rcases List.mem_append.mp hr with hr | hr
    · exact Nat.lt_succ_of_lt (h.lt_next r hr)
    · rw [List.mem_singleton.mp hr]
      exact Nat.lt_succ_self _

theorem enqueue (h : Tidy s) (cfg : BacklogSettings) (p : FlushPayload)
    (busy deleteFails insertFails : Bool) :
    Tidy (s.enqueue cfg p busy deleteFails insertFails).1 := by
  rcases heq : s.enqueue cfg p busy deleteFails insertFails with ⟨s', result⟩
  rcases enqueue_cases cfg p busy deleteFails insertFails heq with
    ⟨rfl, -⟩ | ⟨-, rfl, -⟩ | ⟨-, oldest, rest, -, ⟨rfl, -⟩ | ⟨rfl, -⟩⟩
  · exact h
  · exact h.append p
  · exact h.evictOldest oldest
  · exact (h.evictOldest oldest).append p

theorem ack (h : Tidy s) (rowid : Nat) : Tidy (s.ack rowid).1 := by
  unfold Backlog.ack
  dsimp only
  split
  · exact
      { length_eq := by rw [List.length_eraseIdx, List.length_eraseIdx, h.length_eq]
        sorted := h.sorted.sublist (List.eraseIdx_sublist _ _)
        lt_next := fun r hr => h.lt_next r ((List.eraseIdx_sublist _ _).subset hr) }
  · exact ⟨h.length_eq, h.sorted, h.lt_next⟩

theorem commitAcks (h : Tidy s) (deleteFails : Bool) : Tidy (s.commitAcks deleteFails) := by
  unfold Backlog.commitAcks
  split
  · exact h
  · split
    · exact h
    · exact ⟨h.length_eq, h.sorted, h.lt_next⟩

/-- The points a replay puts on the queue are those in memory that are not in flight. -/
theorem mem_fresh (h : Tidy s) {r : Nat} :
    r ∈ s.fresh.map Prod.fst ↔ r ∈ s.backlogRowids ∧ r ∉ s.inflight := by
  rw [← map_fst_entries h.length_eq, fresh]
  simp only [List.mem_map, List.mem_filter, decide_eq_true_eq]
  constructor
  · rintro ⟨e, ⟨he, hin⟩, rfl⟩
    exact ⟨⟨e, he, rfl⟩, hin⟩
  · rintro ⟨⟨e, he, rfl⟩, hin⟩
    exact ⟨e, ⟨he, hin⟩, rfl⟩

theorem queued_replayToQueue (h : Tidy s) :
    s.replayToQueue.1.queued = s.queued ++ s.fresh.map Prod.fst := by
  rw [replayToQueue_eq h.nodup h.length_eq]
  simp [queued]

/-- **After a replay every point in memory is in flight.** -/
theorem mem_inflight_replayToQueue (h : Tidy s) {r : Nat} (hr : r ∈ s.backlogRowids) :
    r ∈ s.replayToQueue.1.inflight := by
  rw [replayToQueue_eq h.nodup h.length_eq, List.mem_append, h.mem_fresh]
  tauto

/-- What is in flight after a replay was so before, or is on the queue. -/
theorem inflight_replayToQueue (h : Tidy s) {r : Nat} (hr : r ∈ s.replayToQueue.1.inflight) :
    r ∈ s.inflight ∨ r ∈ s.replayToQueue.1.queued := by
  rw [h.queued_replayToQueue, List.mem_append]
  rw [replayToQueue_eq h.nodup h.length_eq, List.mem_append] at hr
  exact hr.imp_right .inr

theorem replayToQueue (h : Tidy s) : Tidy s.replayToQueue.1 := by
  rw [replayToQueue_eq h.nodup h.length_eq]
  exact ⟨h.length_eq, h.sorted, h.lt_next⟩

end Tidy

end Backlog

end ProtocolGateway
