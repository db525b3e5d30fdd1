import ProtocolGateway.Lib.Runs
import ProtocolGateway.Timescale.Backlog

/-!
# Runs of the backlog

Sequences of calls of the backlog's operations, with failures of the journal and crashes anywhere,
and next to them the history of the points: which were enqueued, evicted, acknowledged, deleted
after an acknowledgement, and dropped as expired.

`Journalled` is what the backlog owes its callers in every state: the two lists correspond, memory
is on disk, nothing is queued twice, the size bound holds, replays go in the order of enqueueing,
and a reload after a crash gives back the points that are still owed. `load_from_disk` loads every
unexpired row, so the size bound fails after a crash that left acknowledged rows undeleted; and a
load, or a `release` of a point that still waits in the queue, makes a replay queue it again. Where
neither happens, `journalled_of_reach` gives all of it.
-/

namespace ProtocolGateway

namespace Backlog

open Runs

variable (cfg : BacklogSettings)

/-! ## The system -/

/-- The backlog and the history of its points. -/
structure Trace where
  backlog : Backlog
  /-- the points enqueued, each under the rowid it got -/
  enqueued : IdTable FlushPayload
  /-- the rowids `enqueue` deleted from the journal -/
  evicted : List Nat
  /-- the rowids acknowledged while in memory -/
  acknowledged : List Nat
  /-- the rowids `commit_acks` deleted from the journal -/
  committed : List Nat
  /-- the rowids of the points that were too old at a load -/
  expired : List Nat
  /-- the rowids replayed since the last load, in the order of their first replay -/
  sent : List Nat

/-- The calls, with the failures of their table accesses. -/
inductive Call
  | put (p : Option FlushPayload)
  | take
  | enqueue (p : FlushPayload) (busy deleteFails insertFails : Bool)
  | replayToQueue
  | ack (rowid : Nat)
  | release (rowid : Nat)
  | commitAcks (deleteFails : Bool)
  | loadFromDisk (now : DateTime) (selectFails deleteFails : Bool)
  | crash

/-- The rowids of the points older than a cutoff. -/
def tooOld (cutoff : Int) (enqueued : IdTable FlushPayload) : List Nat :=
  (enqueued.rows.filter fun e => e.2.mTime.instant < cutoff).map Prod.fst

/-- One call, and what it adds to the history. -/
def Trace.step (t : Trace) : Call → Trace
  | .put p => { t with backlog := t.backlog.put p }
  | .take => { t with backlog := t.backlog.take }
  | .enqueue p busy deleteFails insertFails =>
    let (s', result) := t.backlog.enqueue cfg p busy deleteFails insertFails
    { t with
      backlog := s'
      enqueued := if result = .stored then t.enqueued.insert p else t.enqueued
      evicted := t.evicted ++ t.backlog.table.removed s'.table }
  | .replayToQueue =>
    let s' := t.backlog.replayToQueue.1
    { t with
      backlog := s'
      sent := t.sent ++ (s'.queued.drop t.backlog.queued.length).filter (· ∉ t.sent) }
  | .ack rowid =>
    { t with
      backlog := (t.backlog.ack rowid).1
      acknowledged :=
        if rowid ∈ t.backlog.backlogRowids then t.acknowledged ++ [rowid] else t.acknowledged }
  | .release rowid => { t with backlog := t.backlog.release rowid }
  | .commitAcks deleteFails =>
    let s' := t.backlog.commitAcks deleteFails
    { t with backlog := s', committed := t.committed ++ t.backlog.table.removed s'.table }
  | .loadFromDisk now selectFails deleteFails =>
    match cutoff cfg now, t.backlog.loadFromDisk cfg now selectFails deleteFails with
    | some c, some s' =>
      { t with backlog := s', expired := t.expired ++ tooOld c t.enqueued, sent := [] }
    | _, _ => t
  | .crash => { t with backlog := t.backlog.crash, sent := [] }

/-- The first start of the bridge. -/
def Trace.start : Trace := ⟨Backlog.empty, .empty, [], [], [], [], []⟩

/-- The runs of the backlog. -/
def system : System Trace Call := .ofFun (· = Trace.start) (Trace.step cfg)

/-- What the runs below are assumed to keep to. A load finds no more unexpired rows than the backlog
may hold, and none whose point still waits in the flush queue; no point in memory is released while
it still waits there. -/
def Orderly (t : Trace) : Call → Prop
  | .loadFromDisk now _ _ => ∀ c, cutoff cfg now = some c →
    (loadable c t.backlog.table.rows).length ≤ cfg.maxBacklogSize ∧
      ∀ e ∈ loadable c t.backlog.table.rows, e.1 ∉ t.backlog.queued
  | .release rowid => rowid ∈ t.backlog.backlogRowids → rowid ∉ t.backlog.queued
  | _ => True

/-! ## What the backlog owes -/

/-- The points a reload owes: those enqueued that are neither expired, now or at an earlier load,
nor evicted, nor deleted after their acknowledgement. -/
def Trace.owed (t : Trace) (cutoff : Int) : List (Nat × FlushPayload) :=
  t.enqueued.rows.filter fun e => ¬e.2.mTime.instant < cutoff ∧ e.1 ∉ t.expired ∧ e.1 ∉ t.evicted ∧
    e.1 ∉ t.committed

/-- The backlog is in order. -/
structure Journalled (t : Trace) : Prop where
  /-- `backlog_points` and `_backlog_rowids` have the same length … -/
  length_eq : t.backlog.backlogPoints.length = t.backlog.backlogRowids.length
  /-- … and a rowid stands next to the point that was enqueued under it, oldest first -/
  corresponds : t.backlog.entries.Sublist t.enqueued.rows
  /-- every in-memory rowid exists on disk -/
  on_disk : ∀ r ∈ t.backlog.backlogRowids, r ∈ t.backlog.table.ids
  /-- the in-flight rowids are in memory -/
  inflight_memory : ∀ r ∈ t.backlog.inflight, r ∈ t.backlog.backlogRowids
  /-- no rowid is in the flush queue twice -/
  queue_nodup : t.backlog.queued.Nodup
  /-- the size limit -/
  bounded : t.backlog.backlogPoints.length ≤ cfg.maxBacklogSize
  /-- a replay puts enqueued points on the queue, in the order they were enqueued … -/
  replay_order : ∃ es : List (Nat × FlushPayload), es.Sublist t.enqueued.rows ∧
    t.backlog.replayToQueue.1.flushQueue =
      t.backlog.flushQueue ++ es.map fun e => some ⟨e.2, some e.1⟩
  /-- … and from replay to replay points are first sent in that order -/
  sent_sorted : t.sent.Pairwise (· < ·)
  /-- a load that succeeds after a crash gives back the points owed, each as it was enqueued -/
  reload : ∀ now c s', cutoff cfg now = some c →
    t.backlog.crash.loadFromDisk cfg now false false = some s' → s'.entries = t.owed c
  /-- only acknowledged points are deleted without having been evicted or expired -/
  committed_acknowledged : ∀ r ∈ t.committed, r ∈ t.acknowledged

/-! ## The invariant -/

/-- The rowids the journal has lost. -/
def Trace.dead (t : Trace) : List Nat := t.evicted ++ t.committed ++ t.expired

/-- What every call keeps. -/
structure Consistent (t : Trace) : Prop where
  next_eq : t.backlog.table.next = t.enqueued.next
  /-- the journal is what was enqueued and not lost -/
  holds : t.backlog.table.Holds t.enqueued t.dead FlushPayload.toRow
  dead_lt : ∀ r ∈ t.dead, r < t.enqueued.next
  length_eq : t.backlog.backlogPoints.length = t.backlog.backlogRowids.length
  corresponds : t.backlog.entries.Sublist t.enqueued.rows
  on_disk : ∀ r ∈ t.backlog.backlogRowids, r ∈ t.backlog.table.ids
  bounded : t.backlog.backlogPoints.length ≤ cfg.maxBacklogSize
  inflight_memory : ∀ r ∈ t.backlog.inflight, r ∈ t.backlog.backlogRowids
  inflight_sent : ∀ r ∈ t.backlog.inflight, r ∈ t.sent
  queue_nodup : t.backlog.queued.Nodup
  queued_lt : ∀ r ∈ t.backlog.queued, r < t.enqueued.next
  /-- a replayed point that is still queued and in memory is marked as in flight -/
  queued_inflight : ∀ r ∈ t.backlog.backlogRowids, r ∈ t.backlog.queued → r ∈ t.backlog.inflight
  pending_acknowledged : ∀ r ∈ t.backlog.pendingDeletes, r ∈ t.acknowledged
  pending_gone : ∀ r ∈ t.backlog.pendingDeletes, r ∉ t.backlog.backlogRowids
  pending_lt : ∀ r ∈ t.backlog.pendingDeletes, r < t.enqueued.next
  committed_acknowledged : ∀ r ∈ t.committed, r ∈ t.acknowledged
  sent_sorted : t.sent.Pairwise (· < ·)
  sent_lt : ∀ r ∈ t.sent, r < t.enqueued.next
  /-- what was not sent yet is younger than all that was -/
  unsent : ∀ r ∈ t.backlog.backlogRowids, r ∉ t.sent → ∀ x ∈ t.sent, x < r

namespace Consistent

variable {cfg : BacklogSettings} {t : Trace}

theorem rowids_sorted (h : Consistent cfg t) : t.backlog.backlogRowids.Pairwise (· < ·) := by
  rw [← map_fst_entries h.length_eq]
  exact t.enqueued.sorted.sublist (h.corresponds.map Prod.fst)

theorem rowids_nodup (h : Consistent cfg t) : t.backlog.backlogRowids.Nodup :=
  h.rowids_sorted.imp Nat.ne_of_lt

theorem rowids_lt (h : Consistent cfg t) {r : Nat} (hr : r ∈ t.backlog.backlogRowids) :
    r < t.enqueued.next := by
  rw [← h.next_eq]
  exact IdTable.lt_next (h.on_disk r hr)

theorem tidy (h : Consistent cfg t) : Tidy t.backlog where
  length_eq := h.length_eq
  sorted := h.rowids_sorted
  lt_next := fun r hr => IdTable.lt_next (h.on_disk r hr)

/-- The first start. -/
theorem start : Consistent cfg Trace.start where
  next_eq := rfl
  holds := rfl
  dead_lt := fun _ hr => absurd hr List.not_mem_nil
  length_eq := rfl
  corresponds := List.Sublist.refl _
  on_disk := fun _ hr => absurd hr List.not_mem_nil
  bounded := Nat.zero_le _
  inflight_memory := fun _ hr => absurd hr List.not_mem_nil
  inflight_sent := fun _ hr => absurd hr List.not_mem_nil
  queue_nodup := List.nodup_nil
  queued_lt := fun _ hr => absurd hr List.not_mem_nil
  queued_inflight := fun _ hr => absurd hr List.not_mem_nil
  pending_acknowledged := fun _ hr => absurd hr List.not_mem_nil
  pending_gone := fun _ hr => absurd hr List.not_mem_nil
  pending_lt := fun _ hr => absurd hr List.not_mem_nil
  committed_acknowledged := fun _ hr => absurd hr List.not_mem_nil
  sent_sorted := List.Pairwise.nil
  sent_lt := fun _ hr => absurd hr List.not_mem_nil
  unsent := fun _ hr => absurd hr List.not_mem_nil

/-! ### The queue's two ends, a release and a crash -/

theorem put (h : Consistent cfg t) (p : Option FlushPayload) :
    Consistent cfg { t with backlog := t.backlog.put p } :=
  { h with
    queue_nodup := by
      rw [queued_put]
      exact h.queue_nodup
    queued_lt := by
      rw [queued_put]
      exact h.queued_lt
    queued_inflight := by
      rw [queued_put]
      exact h.queued_inflight }

theorem take (h : Consistent cfg t) : Consistent cfg { t with backlog := t.backlog.take } :=
  { h with
    queue_nodup := h.queue_nodup.sublist (queued_take_sublist _)
    queued_lt := fun r hr => h.queued_lt r ((queued_take_sublist _).subset hr)
    queued_inflight := fun r hr hq => h.queued_inflight r hr ((queued_take_sublist _).subset hq) }

theorem release (h : Consistent cfg t) {rowid : Nat}
    (hq : rowid ∈ t.backlog.backlogRowids → rowid ∉ t.backlog.queued) :
    Consistent cfg { t with backlog := t.backlog.release rowid } :=
  { h with
    inflight_memory := fun r hr => h.inflight_memory r (List.mem_of_mem_filter hr)
    inflight_sent := fun r hr => h.inflight_sent r (List.mem_of_mem_filter hr)
    queued_inflight := fun r hr hqr => by
      have hne : r ≠ rowid := fun heq => hq (heq ▸ hr) (heq ▸ hqr)
      exact List.mem_filter.mpr ⟨h.queued_inflight r hr hqr, by simpa using hne⟩ }

/-- Memory filled anew, with nothing replayed: what a crash and a load both leave. -/
theorem refill {l : List (Nat × FlushPayload)} (hnext : t.backlog.table.next = t.enqueued.next)
    (hholds : t.backlog.table.Holds t.enqueued t.dead FlushPayload.toRow)
    (hdead : ∀ r ∈ t.dead, r < t.enqueued.next)
    (hcommitted : ∀ r ∈ t.committed, r ∈ t.acknowledged)
    (hpoints : t.backlog.backlogPoints = l.map Prod.snd)
    (hrowids : t.backlog.backlogRowids = l.map Prod.fst) (hinflight : t.backlog.inflight = [])
    (hpending : t.backlog.pendingDeletes = []) (hnodup : t.backlog.queued.Nodup)
    (hqueued : ∀ r ∈ t.backlog.queued, r < t.enqueued.next)
    (hgone : ∀ e ∈ l, e.1 ∉ t.backlog.queued)
    (hsent : t.sent = []) (hes : l.Sublist t.enqueued.rows)
    (hdisk : ∀ e ∈ l, e.1 ∈ t.backlog.table.ids) (hsize : l.length ≤ cfg.maxBacklogSize) :
    Consistent cfg t where
  next_eq := hnext
  holds := hholds
  dead_lt := hdead
  length_eq := by rw [hpoints, hrowids, List.length_map, List.length_map]
  corresponds := by
    have hentries : t.backlog.entries = l := by
      rw [entries, hpoints, hrowids]
      exact (List.zip_of_prod rfl rfl).symm
    rw [hentries]
    exact hes
  on_disk := fun r hr => by
    rw [hrowids] at hr
    obtain ⟨e, he, rfl⟩ := List.mem_map.mp hr
    exact hdisk e he
  bounded := by
    rw [hpoints, List.length_map]
    exact hsize
  inflight_memory := by simp [hinflight]
  inflight_sent := by simp [hinflight]
  queue_nodup := hnodup
  queued_lt := hqueued
  queued_inflight := fun r hr hq => by
    rw [hrowids] at hr
    obtain ⟨e, he, rfl⟩ := List.mem_map.mp hr
    exact absurd hq (hgone e he)
  pending_acknowledged := by simp [hpending]
  pending_gone := by simp [hpending]
  pending_lt := by simp [hpending]
  committed_acknowledged := hcommitted
  sent_sorted := by simp [hsent]
  sent_lt := by simp [hsent]
  unsent := by simp [hsent]

theorem crash (h : Consistent cfg t) :
    Consistent cfg { t with backlog := t.backlog.crash, sent := [] } :=
  refill h.next_eq h.holds h.dead_lt h.committed_acknowledged
    (l := []) rfl rfl rfl rfl List.nodup_nil (fun _ hr => absurd hr List.not_mem_nil)
    (fun _ he => absurd he List.not_mem_nil) rfl (List.nil_sublist _)
    (fun _ he => absurd he List.not_mem_nil) (Nat.zero_le _)

/-! ### enqueue -/

/-- Evicting the oldest point. -/
theorem evictOldest (h : Consistent cfg t) {oldest : Nat} {rest : List Nat}
    (heq : t.backlog.backlogRowids = oldest :: rest) :
    Consistent cfg { t with
      backlog := t.backlog.evictOldest oldest
      evicted := t.evicted ++
        t.backlog.table.removed (t.backlog.evictOldest oldest).table } where
  next_eq := h.next_eq
  holds := by
    refine h.holds.delete (fun r hr => ?_) (fun r hr => ?_)
    · have halive := (h.holds.mem_ids.mp hr).2
      simp only [Trace.dead, List.mem_append, not_or] at halive ⊢
      rw [Backlog.evictOldest, IdTable.mem_removed_delete]
      tauto
    · simp only [Trace.dead, List.mem_append] at hr ⊢
      tauto
  dead_lt := fun r hr => by
    simp only [Trace.dead, List.mem_append] at hr
    rcases hr with ((hr | hr) | hr) | hr
    · exact h.dead_lt r (by simp [Trace.dead, hr])
    · rw [Backlog.evictOldest, IdTable.mem_removed_delete] at hr
      rw [← h.next_eq]
      exact IdTable.lt_next hr.1
    · exact h.dead_lt r (by simp [Trace.dead, hr])
    · exact h.dead_lt r (by simp [Trace.dead, hr])
  length_eq := by
    have := h.length_eq
    simp only [Backlog.evictOldest, List.length_tail]
    omega
  corresponds := by
    refine List.Sublist.trans ?_ h.corresponds
    have htail : (t.backlog.evictOldest oldest).entries = t.backlog.entries.tail :=
      List.tail_zip.symm
    rw [htail]
    exact List.tail_sublist _
  on_disk := fun r hr => by
    have hnodup := h.rowids_nodup
    simp only [Backlog.evictOldest, heq, List.tail_cons] at hr ⊢
    rw [heq, List.nodup_cons] at hnodup
    refine IdTable.mem_ids_delete.mpr ⟨h.on_disk r (heq ▸ List.mem_cons_of_mem _ hr), ?_⟩
    rw [List.mem_singleton]
    rintro rfl
    exact hnodup.1 hr
  bounded := by
    have := h.bounded
    simp only [Backlog.evictOldest, List.length_tail]
    omega
  inflight_memory := fun r hr => by
    simp only [Backlog.evictOldest, List.mem_filter, decide_eq_true_eq] at hr ⊢
    have hmem := h.inflight_memory r hr.1
    rw [heq] at hmem ⊢
    exact (List.mem_cons.mp hmem).resolve_left hr.2
  inflight_sent := fun r hr => h.inflight_sent r (List.mem_of_mem_filter hr)
  queue_nodup := h.queue_nodup
  queued_lt := h.queued_lt
  queued_inflight := fun r hr hq => by
    have hnodup := h.rowids_nodup
    simp only [Backlog.evictOldest, heq, List.tail_cons] at hr ⊢
    rw [heq, List.nodup_cons] at hnodup
    have hne : r ≠ oldest := fun h' => hnodup.1 (h' ▸ hr)
    exact List.mem_filter.mpr
      ⟨h.queued_inflight r (heq ▸ List.mem_cons_of_mem _ hr) hq, by simpa using hne⟩
  pending_acknowledged := h.pending_acknowledged
  pending_gone := fun r hr hmem => h.pending_gone r hr (List.mem_of_mem_tail hmem)
  pending_lt := h.pending_lt
  committed_acknowledged := h.committed_acknowledged
  sent_sorted := h.sent_sorted
  sent_lt := h.sent_lt
  unsent := fun r hr => h.unsent r (List.mem_of_mem_tail hr)

/-- Appending a point where there is room for it. -/
theorem append (h : Consistent cfg t) (p : FlushPayload)
    (hroom : t.backlog.backlogPoints.length < cfg.maxBacklogSize) :
    Consistent cfg { t with backlog := t.backlog.append p, enqueued := t.enqueued.insert p } where
  next_eq := congrArg (· + 1) h.next_eq
  holds := h.holds.insert h.next_eq h.dead_lt p
  dead_lt := fun r hr => Nat.lt_succ_of_lt (h.dead_lt r hr)
  length_eq := by simpa [Backlog.append] using h.length_eq
  corresponds := by
    have hentries : (t.backlog.append p).entries =
        t.backlog.entries ++ [(t.backlog.table.next, p)] :=
      List.zip_append h.length_eq.symm
    rw [hentries, h.next_eq]
    exact h.corresponds.append (List.Sublist.refl _)
  on_disk := fun r hr => by
    rw [Backlog.append, IdTable.mem_ids_insert]
    rcases List.mem_append.mp hr with hr | hr
    · exact .inl (h.on_disk r hr)
    · exact .inr (List.mem_singleton.mp hr)
  bounded := by
    rw [Backlog.append, List.length_append]
    exact hroom
  inflight_memory := fun r hr => List.mem_append_left _ (h.inflight_memory r hr)
  inflight_sent := h.inflight_sent
  queue_nodup := h.queue_nodup
  queued_lt := fun r hr => Nat.lt_succ_of_lt (h.queued_lt r hr)
  queued_inflight := fun r hr hq => by
    rcases List.mem_append.mp hr with hr | hr
    · exact h.queued_inflight r hr hq
    · -- a rowid that was never used is not queued
      have hlt := h.queued_lt r hq
      rw [List.mem_singleton.mp hr, h.next_eq] at hlt
      exact absurd hlt (Nat.lt_irrefl _)
  pending_acknowledged := h.pending_acknowledged
  pending_gone := fun r hr hmem => by
    rcases List.mem_append.mp hmem with hmem | hmem
    · exact h.pending_gone r hr hmem
    · have hlt := h.pending_lt r hr
      rw [List.mem_singleton.mp hmem, h.next_eq] at hlt
      exact absurd hlt (Nat.lt_irrefl _)
  pending_lt := fun r hr => Nat.lt_succ_of_lt (h.pending_lt r hr)
  committed_acknowledged := h.committed_acknowledged
  sent_sorted := h.sent_sorted
  sent_lt := fun r hr => Nat.lt_succ_of_lt (h.sent_lt r hr)
  unsent := fun r hr hns x hx => by
    rcases List.mem_append.mp hr with hr | hr
    · exact h.unsent r hr hns x hx
    · rw [List.mem_singleton.mp hr, h.next_eq]
      exact h.sent_lt x hx

/-- An `enqueue`, whatever comes of it. -/
theorem enqueue (h : Consistent cfg t) (p : FlushPayload) (busy deleteFails insertFails : Bool) :
    Consistent cfg (t.step cfg (.enqueue p busy deleteFails insertFails)) := by
  simp only [Trace.step]
  rcases heq : t.backlog.enqueue cfg p busy deleteFails insertFails with ⟨s', result⟩
  rcases enqueue_cases cfg p busy deleteFails insertFails heq with
    ⟨rfl, hres⟩ | ⟨hroom, rfl, rfl⟩ | ⟨hfull, oldest, rest, hrowids, ⟨rfl, hres⟩ | ⟨rfl, rfl⟩⟩
  · simpa [hres] using h
  · have hnone : t.backlog.table.removed (t.backlog.append p).table = [] := by
      rw [Backlog.append, IdTable.removed_insert (Nat.le_refl _), IdTable.removed_self]
    simpa [hnone] using h.append p hroom
  · simpa [hres] using h.evictOldest hrowids
  · have hnext : t.backlog.table.next ≤ (t.backlog.evictOldest oldest).table.next := Nat.le_refl _
    have hsame : t.backlog.table.removed ((t.backlog.evictOldest oldest).append p).table =
        t.backlog.table.removed (t.backlog.evictOldest oldest).table :=
      IdTable.removed_insert hnext _
    have hroom : (t.backlog.evictOldest oldest).backlogPoints.length < cfg.maxBacklogSize := by
      have hpos := cfg.one_le_size
      have hbound := h.bounded
      rw [Backlog.evictOldest, List.length_tail]
      omega
    simpa [hsame] using (h.evictOldest hrowids).append p hroom

/-- What an `enqueue` leaves of the points there were: a point that leaves memory was evicted, and
what stays keeps its mark. -/
structure Kept (s s' : Backlog) : Prop where
  queue : s'.flushQueue = s.flushQueue
  stays : ∀ r ∈ s.backlogRowids, r ∈ s'.backlogRowids ∨ r ∈ s.table.removed s'.table
  marked : ∀ r ∈ s.inflight, r ∈ s'.backlogRowids → r ∈ s'.inflight
  fresh : ∀ r ∈ s'.backlogRowids, r ∈ s.backlogRowids ∨ r = s.table.next

theorem Kept.refl (s : Backlog) : Kept s s :=
  ⟨rfl, fun _ hr => .inl hr, fun _ hr _ => hr, fun _ hr => .inl hr⟩

theorem evictOldest_kept (h : Consistent cfg t) {oldest : Nat} {rest : List Nat}
    (heq : t.backlog.backlogRowids = oldest :: rest) :
    Kept t.backlog (t.backlog.evictOldest oldest) where
  queue := rfl
  stays := fun r hr => by
    have hids := h.on_disk r hr
    rw [heq, List.mem_cons] at hr
    rcases hr with rfl | hr
    · exact .inr (IdTable.mem_removed_delete.mpr ⟨hids, List.mem_singleton_self _⟩)
    · refine .inl ?_
      rw [Backlog.evictOldest, heq]
      exact hr
  marked := fun r hr hmem => by
    have hnodup := h.rowids_nodup
    rw [Backlog.evictOldest, heq] at hmem
    rw [heq, List.nodup_cons] at hnodup
    have hne : r ≠ oldest := fun h' => hnodup.1 (h' ▸ hmem)
    exact List.mem_filter.mpr ⟨hr, by simpa using hne⟩
  fresh := fun r hr => .inl (List.mem_of_mem_tail hr)

theorem append_kept {s s' : Backlog} (h : Kept s s') (hnext : s'.table.next = s.table.next)
    (hlt : ∀ r ∈ s.inflight, r < s.table.next) (p : FlushPayload) : Kept s (s'.append p) where
  queue := h.queue
  stays := fun r hr => by
    rw [Backlog.append, IdTable.removed_insert (Nat.le_of_eq hnext.symm)]
    rcases h.stays r hr with hr | hr
    · exact .inl (List.mem_append_left _ hr)
    · exact .inr hr
  marked := fun r hr hmem => by
    rcases List.mem_append.mp hmem with hmem | hmem
    · exact h.marked r hr hmem
    · have := hlt r hr
      rw [List.mem_singleton.mp hmem, hnext] at this
      exact absurd this (Nat.lt_irrefl _)
  fresh := fun r hr => by
    rcases List.mem_append.mp hr with hr | hr
    · exact h.fresh r hr
    · exact .inr ((List.mem_singleton.mp hr).trans hnext)

/-- An `enqueue` keeps all points in memory but the one it evicts. -/
theorem enqueue_kept (h : Consistent cfg t) (p : FlushPayload) (busy deleteFails insertFails : Bool) :
    Kept t.backlog (t.backlog.enqueue cfg p busy deleteFails insertFails).1 := by
  have hlt : ∀ r ∈ t.backlog.inflight, r < t.backlog.table.next := fun r hr =>
    IdTable.lt_next (h.on_disk r (h.inflight_memory r hr))
  rcases heq : t.backlog.enqueue cfg p busy deleteFails insertFails with ⟨s', result⟩
  rcases enqueue_cases cfg p busy deleteFails insertFails heq with
    ⟨rfl, -⟩ | ⟨-, rfl, -⟩ | ⟨-, oldest, rest, hrowids, ⟨rfl, -⟩ | ⟨rfl, -⟩⟩
  · exact .refl _
  · exact append_kept (.refl _) rfl hlt p
  · exact h.evictOldest_kept hrowids
  · exact append_kept (h.evictOldest_kept hrowids) rfl hlt p

theorem mem_entries_append {s : Backlog} (h : s.backlogPoints.length = s.backlogRowids.length)
    (p : FlushPayload) : (s.table.next, p) ∈ (s.append p).entries := by
  rw [entries, Backlog.append, List.zip_append h.symm]
  exact List.mem_append_right _ (List.mem_singleton_self _)

/-- **An `enqueue` that returns `True` has the point in memory**, under the next rowid; no other
one has. -/
theorem enqueue_stored_iff (h : Consistent cfg t) (p : FlushPayload)
    (busy deleteFails insertFails : Bool) :
    (t.backlog.table.next, p) ∈ (t.backlog.enqueue cfg p busy deleteFails insertFails).1.entries ↔
      (t.backlog.enqueue cfg p busy deleteFails insertFails).2 = .stored := by
  have hold : ∀ s' : Backlog, s'.backlogRowids.Sublist t.backlog.backlogRowids →
      (t.backlog.table.next, p) ∉ s'.entries := fun s' hsub hmem => by
    have hr := IdTable.lt_next (h.on_disk _ (hsub.subset (List.of_mem_zip hmem).1))
    exact Nat.lt_irrefl _ hr
  rcases heq : t.backlog.enqueue cfg p busy deleteFails insertFails with ⟨s', result⟩
  rcases enqueue_cases cfg p busy deleteFails insertFails heq with
    ⟨rfl, hres⟩ | ⟨-, rfl, rfl⟩ | ⟨-, oldest, rest, hrowids, ⟨rfl, hres⟩ | ⟨rfl, rfl⟩⟩
  · exact iff_of_false (hold _ (List.Sublist.refl _)) hres
  · exact iff_of_true (mem_entries_append h.length_eq p) rfl
  · exact iff_of_false (hold _ (List.tail_sublist _)) hres
  · exact iff_of_true (mem_entries_append (h.evictOldest hrowids).length_eq p) rfl

/-- A point is stored exactly if a rowid is used up. -/
theorem enqueue_next (s : Backlog) (p : FlushPayload) (busy deleteFails insertFails : Bool) :
    s.table.next < (s.enqueue cfg p busy deleteFails insertFails).1.table.next ↔
      (s.enqueue cfg p busy deleteFails insertFails).2 = .stored := by
  rcases heq : s.enqueue cfg p busy deleteFails insertFails with ⟨s', result⟩
  rcases enqueue_cases cfg p busy deleteFails insertFails heq with
    ⟨rfl, hres⟩ | ⟨-, rfl, rfl⟩ | ⟨-, oldest, rest, -, ⟨rfl, hres⟩ | ⟨rfl, rfl⟩⟩
  · exact iff_of_false (Nat.lt_irrefl _) hres
  · exact iff_of_true (Nat.lt_succ_self _) rfl
  · exact iff_of_false (Nat.lt_irrefl _) hres
  · exact iff_of_true (Nat.lt_succ_self _) rfl

/-! ### Replaying and settling -/

theorem queued_replayToQueue (h : Consistent cfg t) :
    t.backlog.replayToQueue.1.queued = t.backlog.queued ++ t.backlog.fresh.map Prod.fst :=
  h.tidy.queued_replayToQueue

/-- The points a replay puts on the queue are those in memory that are not in flight. -/
theorem mem_fresh (h : Consistent cfg t) {r : Nat} :
    r ∈ t.backlog.fresh.map Prod.fst ↔
      r ∈ t.backlog.backlogRowids ∧ r ∉ t.backlog.inflight :=
  h.tidy.mem_fresh

theorem fresh_sublist (h : Consistent cfg t) : t.backlog.fresh.Sublist t.enqueued.rows :=
  List.filter_sublist.trans h.corresponds

theorem replayToQueue (h : Consistent cfg t) : Consistent cfg (t.step cfg .replayToQueue) := by
  have heq := replayToQueue_eq h.rowids_nodup h.length_eq
  have hqueued := h.queued_replayToQueue
  have hdrop : t.backlog.replayToQueue.1.queued.drop t.backlog.queued.length =
      t.backlog.fresh.map Prod.fst := by
    rw [hqueued, List.drop_left]
  have hsorted : (t.backlog.fresh.map Prod.fst).Pairwise (· < ·) :=
    t.enqueued.sorted.sublist (h.fresh_sublist.map _)
  have hinflight : ∀ r, r ∈ t.backlog.replayToQueue.1.inflight ↔
      r ∈ t.backlog.backlogRowids := fun r => by
    rw [heq, List.mem_append, h.mem_fresh]
    have := h.inflight_memory r
    tauto
  -- every point in memory has been sent now
  have hsent : ∀ r ∈ t.backlog.backlogRowids,
      r ∈ t.sent ++ (t.backlog.fresh.map Prod.fst).filter (· ∉ t.sent) := fun r hr => by
    rw [List.mem_append, List.mem_filter, h.mem_fresh]
    have := h.inflight_sent r
    simp only [decide_eq_true_eq]
    tauto
  have hrowids : t.backlog.replayToQueue.1.backlogRowids = t.backlog.backlogRowids := by rw [heq]
  have hpoints : t.backlog.replayToQueue.1.backlogPoints = t.backlog.backlogPoints := by rw [heq]
  have hpending : t.backlog.replayToQueue.1.pendingDeletes = t.backlog.pendingDeletes := by rw [heq]
  have htable : t.backlog.replayToQueue.1.table = t.backlog.table := by rw [heq]
  have hentries : t.backlog.replayToQueue.1.entries = t.backlog.entries := by
    rw [entries, entries, hrowids, hpoints]
  simp only [Trace.step, hdrop]
  exact
    { next_eq := by simpa only [htable] using h.next_eq
      holds := by
        have hholds := h.holds
        rw [← htable] at hholds
        exact hholds
      dead_lt := h.dead_lt
      length_eq := by simpa only [hpoints, hrowids] using h.length_eq
      corresponds := by simpa only [hentries] using h.corresponds
      on_disk := by simpa only [htable, hrowids] using h.on_disk
      bounded := by simpa only [hpoints] using h.bounded
      inflight_memory := fun r hr => by
        rw [hrowids]
        exact (hinflight r).mp hr
      inflight_sent := fun r hr => hsent r ((hinflight r).mp hr)
      queue_nodup := by
        rw [hqueued]
        refine List.nodup_append'.mpr ⟨h.queue_nodup, hsorted.imp Nat.ne_of_lt, ?_⟩
        intro r hq hr
        obtain ⟨hmem, hin⟩ := h.mem_fresh.mp hr
        exact hin (h.queued_inflight r hmem hq)
      queued_lt := fun r hr => by
        rw [hqueued, List.mem_append, h.mem_fresh] at hr
        rcases hr with hr | hr
        · exact h.queued_lt r hr
        · exact h.rowids_lt hr.1
      queued_inflight := fun r hr _ => (hinflight r).mpr (hrowids ▸ hr)
      pending_acknowledged := by simpa only [hpending] using h.pending_acknowledged
      pending_gone := by simpa only [hpending, hrowids] using h.pending_gone
      pending_lt := by simpa only [hpending] using h.pending_lt
      committed_acknowledged := h.committed_acknowledged
      sent_sorted := by
        refine List.pairwise_append.mpr ⟨h.sent_sorted, hsorted.sublist List.filter_sublist, ?_⟩
        intro x hx r hr
        obtain ⟨hr, hns⟩ := List.mem_filter.mp hr
        exact h.unsent r (h.mem_fresh.mp hr).1 (by simpa using hns) x hx
      sent_lt := fun r hr => by
        rcases List.mem_append.mp hr with hr | hr
        · exact h.sent_lt r hr
        · exact h.rowids_lt (h.mem_fresh.mp (List.mem_of_mem_filter hr)).1
      unsent := fun r hr hns => absurd (hsent r (hrowids ▸ hr)) hns }

/-- Erasing at one index of both lists erases the pair there. -/
theorem zip_eraseIdx {α β : Type} (xs : List α) (ys : List β) (i : Nat) :
    (xs.eraseIdx i).zip (ys.eraseIdx i) = (xs.zip ys).eraseIdx i := by
  induction xs generalizing ys i with
  | nil => simp
  | cons x xs ih =>
    cases ys with
    | nil => simp
    | cons y ys =>
      cases i with
      | zero => rfl
      | succ i => simp [ih]

theorem ack (h : Consistent cfg t) (rowid : Nat) : Consistent cfg (t.step cfg (.ack rowid)) := by
  simp only [Trace.step, Backlog.ack]
  by_cases hmem : rowid ∈ t.backlog.backlogRowids
  · have herase : t.backlog.backlogRowids.eraseIdx (t.backlog.backlogRowids.idxOf rowid) =
        t.backlog.backlogRowids.erase rowid := (List.erase_eq_eraseIdx_of_idxOf rfl).symm
    have hleft : ∀ r, r ∈ t.backlog.backlogRowids.eraseIdx (t.backlog.backlogRowids.idxOf rowid) ↔
        r ≠ rowid ∧ r ∈ t.backlog.backlogRowids := fun r => by
      rw [herase, h.rowids_nodup.mem_erase_iff]
    simp only [if_pos hmem]
    exact
      { h with
        length_eq := by
          rw [List.length_eraseIdx, List.length_eraseIdx, h.length_eq]
        corresponds := by
          refine List.Sublist.trans ?_ h.corresponds
          rw [entries, zip_eraseIdx]
          exact List.eraseIdx_sublist _ _
        on_disk := fun r hr => h.on_disk r ((hleft r).mp hr).2
        bounded := Nat.le_trans (List.length_eraseIdx_le _ _) h.bounded
        inflight_memory := fun r hr => by
          obtain ⟨hr, hne⟩ := List.mem_filter.mp hr
          exact (hleft r).mpr ⟨by simpa using hne, h.inflight_memory r hr⟩
        inflight_sent := fun r hr => h.inflight_sent r (List.mem_of_mem_filter hr)
        queued_inflight := fun r hr hq => by
          obtain ⟨hne, hr⟩ := (hleft r).mp hr
          exact List.mem_filter.mpr ⟨h.queued_inflight r hr hq, by simpa using hne⟩
        pending_acknowledged := fun r hr => by
          rcases List.mem_append.mp hr with hr | hr
          · exact List.mem_append_left _ (h.pending_acknowledged r hr)
          · exact List.mem_append_right _ hr
        pending_gone := fun r hr hr' => by
          obtain ⟨hne, hr'⟩ := (hleft r).mp hr'
          rcases List.mem_append.mp hr with hr | hr
          · exact h.pending_gone r hr hr'
          · exact hne (List.mem_singleton.mp hr)
        pending_lt := fun r hr => by
          rcases List.mem_append.mp hr with hr | hr
          · exact h.pending_lt r hr
          · rw [List.mem_singleton.mp hr]
            exact h.rowids_lt hmem
        committed_acknowledged := fun r hr =>
          List.mem_append_left _ (h.committed_acknowledged r hr)
        unsent := fun r hr => h.unsent r ((hleft r).mp hr).2 }
  · simp only [if_neg hmem]
    exact
      { h with
        inflight_memory := fun r hr => h.inflight_memory r (List.mem_of_mem_filter hr)
        inflight_sent := fun r hr => h.inflight_sent r (List.mem_of_mem_filter hr)
        queued_inflight := fun r hr hq => by
          have hne : r ≠ rowid := fun heq => hmem (heq ▸ hr)
          exact List.mem_filter.mpr ⟨h.queued_inflight r hr hq, by simpa using hne⟩ }

theorem commitAcks (h : Consistent cfg t) (deleteFails : Bool) :
    Consistent cfg (t.step cfg (.commitAcks deleteFails)) := by
  simp only [Trace.step, Backlog.commitAcks]
  split
  · simpa using h
  · split
    · simpa using h
    · exact
        { h with
          holds := by
            refine h.holds.delete (fun r hr => ?_) (fun r hr => ?_)
            · have halive := (h.holds.mem_ids.mp hr).2
              simp only [Trace.dead, List.mem_append, not_or] at halive ⊢
              rw [IdTable.mem_removed_delete]
              tauto
            · simp only [Trace.dead, List.mem_append] at hr ⊢
              tauto
          dead_lt := fun r hr => by
            simp only [Trace.dead, List.mem_append] at hr
            rcases hr with (hr | hr | hr) | hr
            · exact h.dead_lt r (by simp [Trace.dead, hr])
            · exact h.dead_lt r (by simp [Trace.dead, hr])
            · rw [IdTable.mem_removed_delete] at hr
              exact h.pending_lt r hr.2
            · exact h.dead_lt r (by simp [Trace.dead, hr])
          on_disk := fun r hr =>
            IdTable.mem_ids_delete.mpr ⟨h.on_disk r hr, fun hp => h.pending_gone r hp hr⟩
          pending_acknowledged := fun _ hr => absurd hr List.not_mem_nil
          pending_gone := fun _ hr => absurd hr List.not_mem_nil
          pending_lt := fun _ hr => absurd hr List.not_mem_nil
          committed_acknowledged := fun r hr => by
            rcases List.mem_append.mp hr with hr | hr
            · exact h.committed_acknowledged r hr
            · rw [IdTable.mem_removed_delete] at hr
              exact h.pending_acknowledged r hr.2 }

/-! ### Loading -/

theorem mem_tooOld {cutoff : Int} {enqueued : IdTable FlushPayload} {r : Nat} :
    r ∈ tooOld cutoff enqueued ↔ ∃ p, (r, p) ∈ enqueued.rows ∧ p.mTime.instant < cutoff := by
  simp only [tooOld, List.mem_map, List.mem_filter, decide_eq_true_eq]
  constructor
  · rintro ⟨e, ⟨he, hlt⟩, rfl⟩
    exact ⟨e.2, he, hlt⟩
  · rintro ⟨p, hp, hlt⟩
    exact ⟨(r, p), ⟨hp, hlt⟩, rfl⟩

/-- **What a load finds**: the points owed. -/
theorem loadable_rows (h : Consistent cfg t) (c : Int) :
    loadable c t.backlog.table.rows = t.owed c := by
  have hrows := h.holds
  unfold IdTable.Holds at hrows
  rw [hrows, loadable_map, List.filter_filter, Trace.owed]
  refine List.filter_congr fun e _ => ?_
  simp only [Trace.dead, List.mem_append, not_or]
  by_cases hold : e.2.mTime.instant < c <;> simp [hold, and_comm, and_assoc]

/-- The rows a load deletes are those of the points that are too old. -/
theorem mem_expiredIds (h : Consistent cfg t) {c : Int} {r : Nat} (hr : r ∈ t.backlog.table.ids) :
    r ∈ expiredIds c t.backlog.table.rows ↔ r ∈ tooOld c t.enqueued := by
  have hrows := h.holds
  unfold IdTable.Holds at hrows
  rw [hrows, mem_expiredIds_map, mem_tooOld]
  have halive := (h.holds.mem_ids.mp hr).2
  constructor
  · rintro ⟨p, hp, hlt⟩
    exact ⟨p, List.mem_of_mem_filter hp, hlt⟩
  · rintro ⟨p, hp, hlt⟩
    exact ⟨p, List.mem_filter.mpr ⟨hp, by simpa using halive⟩, hlt⟩

/-- A load that finds no more than the backlog may hold, and no point that is still queued. -/
theorem loadFromDisk (h : Consistent cfg t) {now : DateTime} {selectFails deleteFails : Bool}
    (horderly : Orderly cfg t (.loadFromDisk now selectFails deleteFails)) :
    Consistent cfg (t.step cfg (.loadFromDisk now selectFails deleteFails)) := by
  simp only [Trace.step]
  split
  · next c s' hc hload =>
    obtain ⟨c', hc', rfl⟩ := loadFromDisk_eq_some cfg hload
    obtain rfl : c = c' := Option.some.inj (hc.symm.trans hc')
    have halive : ∀ r ∈ t.backlog.table.ids, r ∉ t.dead := fun r hr => (h.holds.mem_ids.mp hr).2
    obtain ⟨hsize, hgone⟩ := horderly c hc
    refine refill h.next_eq ?_ ?_ h.committed_acknowledged rfl rfl rfl rfl h.queue_nodup h.queued_lt
      hgone rfl ?_ ?_ hsize
    · refine h.holds.delete (fun r hr => ?_) (fun r hr => ?_)
      · have hdead := halive r hr
        simp only [Trace.dead, List.mem_append, not_or] at hdead ⊢
        rw [h.mem_expiredIds hr]
        tauto
      · simp only [Trace.dead, List.mem_append] at hr ⊢
        tauto
    · intro r hr
      simp only [Trace.dead, List.mem_append] at hr
      rcases hr with (hr | hr) | hr | hr
      · exact h.dead_lt r (by simp [Trace.dead, hr])
      · exact h.dead_lt r (by simp [Trace.dead, hr])
      · exact h.dead_lt r (by simp [Trace.dead, hr])
      · obtain ⟨p, hp, -⟩ := mem_tooOld.mp hr
        exact t.enqueued.below _ hp
    · rw [h.loadable_rows]
      exact List.filter_sublist
    · intro e he
      rw [h.loadable_rows, Trace.owed, List.mem_filter] at he
      obtain ⟨hmem, howed⟩ := he
      simp only [decide_eq_true_eq] at howed
      obtain ⟨hyoung, hexpired, hevicted, hcommitted⟩ := howed
      have hids : e.1 ∈ t.backlog.table.ids := h.holds.mem_ids.mpr
        ⟨List.mem_map_of_mem hmem, by simp [Trace.dead, hexpired, hevicted, hcommitted]⟩
      refine IdTable.mem_ids_delete.mpr ⟨hids, ?_⟩
      rw [h.mem_expiredIds hids, mem_tooOld]
      rintro ⟨p, hp, hlt⟩
      have hsame : (e.1, p) = e := List.inj_on_of_nodup_map t.enqueued.nodup_ids hp hmem rfl
      rw [← hsame] at hyoung
      exact hyoung hlt
  · exact h

/-- **Every orderly call keeps the backlog consistent.** -/
theorem step (h : Consistent cfg t) {call : Call} (horderly : Orderly cfg t call) :
    Consistent cfg (t.step cfg call) := by
  cases call with
  | put p => exact h.put p
  | take => exact h.take
  | enqueue p busy deleteFails insertFails => exact h.enqueue p busy deleteFails insertFails
  | replayToQueue => exact h.replayToQueue
  | ack rowid => exact h.ack rowid
  | release rowid => exact h.release horderly
  | commitAcks deleteFails => exact h.commitAcks deleteFails
  | loadFromDisk now selectFails deleteFails => exact h.loadFromDisk horderly
  | crash => exact h.crash

/-- A consistent backlog gives its callers what it owes. -/
theorem journalled (h : Consistent cfg t) : Journalled cfg t where
  length_eq := h.length_eq
  corresponds := h.corresponds
  on_disk := h.on_disk
  inflight_memory := h.inflight_memory
  queue_nodup := h.queue_nodup
  bounded := h.bounded
  replay_order :=
    ⟨t.backlog.fresh, h.fresh_sublist, by rw [replayToQueue_eq h.rowids_nodup h.length_eq]⟩
  sent_sorted := h.sent_sorted
  reload := fun now c s' hc hload => by
    obtain ⟨c', hc', rfl⟩ := loadFromDisk_eq_some cfg hload
    obtain rfl : c = c' := Option.some.inj (hc.symm.trans hc')
    rw [← h.loadable_rows]
    exact (List.zip_of_prod rfl rfl).symm
  committed_acknowledged := h.committed_acknowledged

end Consistent

/-! ## The theorem -/

theorem consistent_of_reach {cfg : BacklogSettings} {t : Trace}
    (h : Reach (system cfg) (Orderly cfg) t) : Consistent cfg t := by
  refine h.invariant (P := Consistent cfg) ?_ ?_
  · rintro t rfl
    exact Consistent.start
  · rintro t call t' - ht horderly rfl
    exact ht.step horderly

/-- **The backlog is in order in every state that orderly runs reach**, whatever table accesses
fail and wherever the process crashes. -/
theorem journalled_of_reach {cfg : BacklogSettings} {t : Trace}
    (h : Reach (system cfg) (Orderly cfg) t) : Journalled cfg t :=
  (consistent_of_reach h).journalled

/-! ## A reload that exceeds the size limit -/

/-- Room for one point, kept for a day. -/
def oneSlot : BacklogSettings := ⟨86400, 1, by decide⟩

/-- The second of June 2026, 14:23:11 UTC. -/
def sampleTime : DateTime := ⟨2026, 6, 2, 14, 23, 11, 0, 0, by decide⟩

def samplePoint : FlushPayload :=
  ⟨3, [("state", .str "charging")], sampleTime, "eg4_18kpv_inverter_1", "eg4_18kpv", none⟩

/-- A point is stored, replayed and acknowledged; another one is stored; the process dies before the
first one's row is deleted. -/
def crowded : Trace :=
  ((((Trace.start.step oneSlot (.enqueue samplePoint false false false)).step oneSlot
    .replayToQueue).step oneSlot (.ack 1)).step oneSlot
      (.enqueue samplePoint false false false)).step oneSlot .crash

theorem reach_crowded : Reach (system oneSlot) (Orderly oneSlot) crowded := by
  have hstart : Reach (system oneSlot) (Orderly oneSlot) Trace.start := .init rfl
  have hstored := hstart.step (i := Call.enqueue samplePoint false false false) trivial rfl
  have hreplayed := hstored.step (i := Call.replayToQueue) trivial rfl
  have hacknowledged := hreplayed.step (i := Call.ack 1) trivial rfl
  have hagain := hacknowledged.step (i := Call.enqueue samplePoint false false false) trivial rfl
  exact hagain.step (i := Call.crash) trivial rfl

theorem journalled_crowded : Journalled oneSlot crowded := journalled_of_reach reach_crowded

/-- **The reload takes both rows in**, over the limit of one. -/
theorem not_journalled_reloaded :
    ¬∀ cfg t, Reachable (system cfg) t → Journalled cfg t := by
  intro hall
  have hc : cutoff oneSlot sampleTime = some (sampleTime.instant - 86400000000) := by decide
  have hload : (crowded.step oneSlot (.loadFromDisk sampleTime false false)).backlog.backlogPoints =
      (crowded.owed (sampleTime.instant - 86400000000)).map Prod.snd := by
    rw [← (consistent_of_reach reach_crowded).loadable_rows]
    simp only [Trace.step, hc, loadFromDisk_eq oneSlot hc]
  have hbounded := (hall oneSlot _ (reach_crowded.reachable.step
    (i := Call.loadFromDisk sampleTime false false) trivial rfl)).bounded
  rw [hload] at hbounded
  exact absurd hbounded (by decide)

end Backlog

end ProtocolGateway
