import ProtocolGateway.Timescale.FlushRuns

/-!
# Reconnecting and replaying

`_attempt_reconnect` and `_trigger_reconnect` next to the flush worker, whose way with one item is
cut into the pieces between which another thread can change the connection flags or the backlog.

* `ReconnectPc`, `WorkerPc` — where the two threads stand.
* `Bridge.reconnect`, `Bridge.work` — their next steps.
* `noneStranded_of_reach` — no point that was kept for a retry stays behind.

A point is kept for a retry without a look at whether a retry will come. A transient refusal keeps
it while the connection is up; a worker that found the connection lost may be overtaken by the
reconnect thread, which has replayed the backlog by the time the point gets there. In both cases the
point waits for the next outage, unless the refresh loop is enabled. Where a replay is still to come
whenever a point is kept (`Bridge.Covered`), none is left behind.

The shutdown, which keeps points for the next start on purpose, is not part of these runs.
-/

namespace ProtocolGateway

namespace Reconnect

open Runs Backlog

/-! ## The two threads -/

/-- Where the reconnect thread stands in `_attempt_reconnect`. -/
inductive ReconnectPc
  /-- at the head of the loop, after so many attempts -/
  | waiting (attemptNo : Nat)
  /-- the database answered `SELECT 1` -/
  | verified (attemptNo : Nat)
  /-- it did not -/
  | refused (attemptNo : Nat)
  /-- before `tsdb_connected` is read -/
  | reading (attemptNo : Nat)
  /-- rediscovering the protocols and repopulating the rollup views, before the replay -/
  | rediscovering
  /-- before the `finally` block -/
  | finishing
  deriving DecidableEq, Repr

/-- The flag is set, or about to be read, and the replay not done. -/
def ReconnectPc.replayAhead : ReconnectPc → Bool
  | reading _ | rediscovering => true
  | waiting _ | verified _ | refused _ | finishing => false

/-- Where the flush worker stands in `_flush_one`. -/
inductive WorkerPc
  /-- between two items -/
  | idle
  /-- at the checks before the write -/
  | taken (item : QueueItem)
  /-- at the transaction -/
  | writing (item : QueueItem)
  /-- the connection was lost: before `_set_tsdb_connected` -/
  | lost (item : QueueItem)
  /-- … and before `_trigger_reconnect` -/
  | flagged (item : QueueItem)
  /-- the write failed for another reason: before `tsdb_connected` is read -/
  | failed (item : QueueItem)
  /-- before the point is kept: `_keep_unwritten`, and `release` for a replayed one -/
  | keeping (item : QueueItem)
  /-- the write was committed: before `_recover_if_flagged_disconnected` reads the flags -/
  | written (item : QueueItem)
  /-- … and before its `_trigger_reconnect` -/
  | recovering (item : QueueItem)
  /-- the point is not kept: before the `finally` block -/
  | done (item : QueueItem)

/-- The item in the worker's hand. -/
def WorkerPc.item : WorkerPc → Option QueueItem
  | idle => none
  | taken item | writing item | lost item | flagged item | failed item | keeping item
  | written item | recovering item | done item => some item

/-- The rowid of the replayed point in its hand. -/
def WorkerPc.rowid (pc : WorkerPc) : Option Nat := pc.item.bind (·.backlogRowid)

/-- What the worker does next, and what it meets. -/
inductive WorkerStep
  /-- `_flush_queue.get` returns an item -/
  | take
  /-- the item is stale, without data, or an exception skips it before the write -/
  | drop
  /-- the transaction is committed, or fails -/
  | write (failure : Option Raised)
  /-- the point is handed to the backlog; the answers say how that goes -/
  | keep (a : Answers)
  /-- a step that meets nothing -/
  | advance

/-- Settings of the bridge. -/
structure ReconnectSettings extends FlushSettings where
  /-- zero or less for no limit -/
  reconnectAttempts : Int

/-- The state the threads share, and where they stand. -/
structure Bridge where
  backlog : Backlog
  tsdbConnected : Bool
  reconnectThreadRunning : Bool
  /-- the reconnect threads there are -/
  threads : List ReconnectPc
  worker : WorkerPc
  /-- the rowids of the points that were kept for a retry -/
  kept : List Nat

namespace Bridge

variable (cfg : ReconnectSettings)

/-- `_trigger_reconnect`. -/
def triggerReconnect (s : Bridge) : Bridge :=
  if s.reconnectThreadRunning then s
  else
    { s with
      reconnectThreadRunning := true
      tsdbConnected := false
      threads := s.threads ++ [.waiting 0] }

/-- The next step of a reconnect thread that stands at `pc`, the `i`-th one: `answers` says whether
the database answers. -/
def reconnect (s : Bridge) (i : Nat) (answers : Bool) : ReconnectPc → Bridge
  | .waiting attemptNo =>
    let pc : ReconnectPc :=
      if cfg.reconnectAttempts ≤ 0 ∨ attemptNo < cfg.reconnectAttempts then
        if answers then .verified (attemptNo + 1) else .refused (attemptNo + 1)
      else .finishing
    { s with threads := s.threads.set i pc }
  | .verified attemptNo =>
    { s with tsdbConnected := true, threads := s.threads.set i (.reading attemptNo) }
  | .refused attemptNo =>
    { s with tsdbConnected := false, threads := s.threads.set i (.reading attemptNo) }
  | .reading attemptNo =>
    { s with
      threads := s.threads.set i (if s.tsdbConnected then .rediscovering else .waiting attemptNo) }
  | .rediscovering =>
    { s with
      backlog := if cfg.enablePersistentStorage then s.backlog.replayToQueue.1 else s.backlog
      threads := s.threads.set i .finishing }
  | .finishing =>
    { s with reconnectThreadRunning := false, threads := s.threads.eraseIdx i }

/-- The point in hand is kept. -/
def keep (s : Bridge) (item : QueueItem) (a : Answers) : Bridge :=
  match item.backlogRowid with
  | some rowid =>
    { s with backlog := s.backlog.release rowid, kept := s.kept ++ [rowid], worker := .idle }
  | none =>
    let b := (backlogLivePoint cfg.toFlushSettings s.backlog item.payload a).1
    let new := if s.backlog.table.next < b.table.next then [s.backlog.table.next] else []
    { s with backlog := b, kept := s.kept ++ new, worker := .idle }

/-- The next step of the flush worker. -/
def work (s : Bridge) : WorkerPc → WorkerStep → Option Bridge
  | .idle, .take =>
    match s.backlog.flushQueue with
    | some item :: _ => some { s with backlog := s.backlog.take, worker := .taken item }
    | _ => none
  | .taken item, .drop => some { s with worker := .done item }
  | .taken item, .advance =>
    -- an outage that a reconnect thread is at work on
    if !s.tsdbConnected && s.reconnectThreadRunning then some { s with worker := .keeping item }
    else some { s with worker := .writing item }
  | .writing item, .write none => some { s with worker := .written item }
  | .writing item, .write (some e) =>
    if !e.caught then some { s with worker := .done item }
    else if e.isConnectionError then some { s with worker := .lost item }
    else if e.isTransientError then some { s with worker := .keeping item }
    else some { s with worker := .failed item }
  | .lost item, .advance => some { s with tsdbConnected := false, worker := .flagged item }
  | .flagged item, .advance => some { s.triggerReconnect with worker := .keeping item }
  | .failed item, .advance =>
    some { s with worker := if s.tsdbConnected then .done item else .keeping item }
  | .written item, .advance =>
    if s.tsdbConnected || s.reconnectThreadRunning then some { s with worker := .done item }
    else some { s with worker := .recovering item }
  | .recovering item, .advance => some { s.triggerReconnect with worker := .done item }
  | .keeping item, .keep a => some (s.keep cfg item a)
  | .done item, .advance =>
    match item.backlogRowid with
    | some rowid => some { s with backlog := (s.backlog.ack rowid).1, worker := .idle }
    | none => some { s with worker := .idle }
  | _, _ => none

end Bridge

/-! ## The system -/

/-- What can happen next. -/
inductive Event
  /-- `write_data` -/
  | put (p : FlushPayload)
  | work (step : WorkerStep)
  /-- a reconnect thread goes on -/
  | reconnect (i : Nat) (answers : Bool)
  /-- another caller of `_trigger_reconnect` -/
  | trigger
  /-- the replay of the schema setup, or of the refresh loop when that is enabled -/
  | replay
  | commitAcks (deleteFails : Bool)

variable (cfg : ReconnectSettings)

/-- One event, where it is possible. -/
def Bridge.step (s : Bridge) : Event → Option Bridge
  | .put p => some { s with backlog := s.backlog.put (some p) }
  | .work step => s.work cfg s.worker step
  | .reconnect i answers => (s.threads[i]?).map (s.reconnect cfg i answers)
  | .trigger => some s.triggerReconnect
  | .replay => some { s with backlog := s.backlog.replayToQueue.1 }
  | .commitAcks deleteFails => some { s with backlog := s.backlog.commitAcks deleteFails }

/-- The backlog of a bridge that starts: empty, or loaded from whatever journal there is. -/
def Loaded (b : Backlog) : Prop :=
  ∃ before : Backlog, b = before.crash ∨
    cfg.enablePersistentStorage = true ∧ ∃ now selectFails deleteFails,
      before.crash.loadFromDisk cfg.backlog now selectFails deleteFails = some b

/-- A bridge that starts, whether or not its first connect was successful. -/
structure Bridge.Starting (s : Bridge) : Prop where
  loaded : Loaded cfg s.backlog
  not_running : s.reconnectThreadRunning = false
  threads : s.threads = []
  idle : s.worker = .idle
  kept : s.kept = []

/-- The runs of the bridge. -/
def system : System Bridge Event where
  init := Bridge.Starting cfg
  step s e s' := s.step cfg e = some s'

/-- A replay is still to come: the database is flagged as down, so that a later reconnect ends with
one, or a reconnect thread has one ahead. -/
def Bridge.Covered (s : Bridge) : Prop :=
  s.tsdbConnected = false ∨ ∃ pc ∈ s.threads, pc.replayAhead = true

/-- Points are kept only while a replay is still to come. -/
def Orderly (s : Bridge) : Event → Prop
  | .work (.keep _) => s.Covered
  | _ => True

/-- **No point is stranded.** -/
structure NoneStranded (s : Bridge) : Prop where
  /-- at most one reconnect thread runs -/
  single : s.threads.length ≤ 1
  /-- connected, with no reconnect at work and the queue drained, no point that was kept for a retry
  is left in the backlog -/
  none_left : s.tsdbConnected = true → s.reconnectThreadRunning = false → s.worker = .idle →
    s.backlog.flushQueue = [] → ∀ r ∈ s.kept, r ∉ s.backlog.backlogRowids

/-! ## What a step of the worker does -/

/-- **The kinds of steps of the flush worker.** Most of them only move it on. -/
inductive Bridge.Works (s : Bridge) : WorkerStep → Bridge → Prop
  | goto (step : WorkerStep) (pc : WorkerPc) : pc.rowid = s.worker.rowid →
      Works s step { s with worker := pc }
  | take (item : QueueItem) (rest : List (Option QueueItem)) : s.worker = .idle →
      s.backlog.flushQueue = some item :: rest →
      Works s .take { s with backlog := s.backlog.take, worker := .taken item }
  | disconnect (step : WorkerStep) (pc : WorkerPc) : pc.rowid = s.worker.rowid →
      Works s step { s with tsdbConnected := false, worker := pc }
  | trigger (step : WorkerStep) (pc : WorkerPc) : pc.rowid = s.worker.rowid →
      Works s step { s.triggerReconnect with worker := pc }
  | keep (item : QueueItem) (a : Answers) : s.worker = .keeping item →
      Works s (.keep a) (s.keep cfg item a)
  | settle (step : WorkerStep) (item : QueueItem) (rowid : Nat) : s.worker = .done item →
      item.backlogRowid = some rowid →
      Works s step { s with backlog := (s.backlog.ack rowid).1, worker := .idle }

variable {cfg} {s s' : Bridge}

theorem Bridge.work_cases {step : WorkerStep} (hstep : s.work cfg s.worker step = some s') :
    s.Works cfg step s' := by
  rcases hworker : s.worker with _ | item | item | item | item | item | item | item | item | item
  all_goals rw [hworker] at hstep
  case idle =>
    cases step with
    | take =>
      simp only [work] at hstep
      split at hstep
      · next item rest hqueue =>
        obtain rfl := Option.some.inj hstep
        exact .take item rest hworker hqueue
      · cases hstep
    | drop | write | keep | advance => cases hstep
  case taken =>
    cases step with
    | drop =>
      obtain rfl := Option.some.inj hstep
      exact .goto _ _ (by rw [hworker]; rfl)
    | advance =>
      simp only [work] at hstep
      split at hstep <;> obtain rfl := Option.some.inj hstep
      · exact .goto _ _ (by rw [hworker]; rfl)
      · exact .goto _ _ (by rw [hworker]; rfl)
    | take | write | keep => cases hstep
  case writing =>
    cases step with
    | write failure =>
      cases failure with
      | none =>
        obtain rfl := Option.some.inj hstep
        exact .goto _ _ (by rw [hworker]; rfl)
      | some e =>
        simp only [work] at hstep
        split at hstep
        · obtain rfl := Option.some.inj hstep
          exact .goto _ _ (by rw [hworker]; rfl)
        · split at hstep
          · obtain rfl := Option.some.inj hstep
            exact .goto _ _ (by rw [hworker]; rfl)
          · split at hstep <;> obtain rfl := Option.some.inj hstep
            · exact .goto _ _ (by rw [hworker]; rfl)
            · exact .goto _ _ (by rw [hworker]; rfl)
    | take | drop | keep | advance => cases hstep
  case lost =>
    cases step with
    | advance =>
      obtain rfl := Option.some.inj hstep
      exact .disconnect _ _ (by rw [hworker]; rfl)
    | take | drop | write | keep => cases hstep
  case flagged =>
    cases step with
    | advance =>
      obtain rfl := Option.some.inj hstep
      exact .trigger _ _ (by rw [hworker]; rfl)
    | take | drop | write | keep => cases hstep
  case failed =>
    cases step with
    | advance =>
      obtain rfl := Option.some.inj hstep
      refine .goto _ _ ?_
      rw [hworker]
      split <;> rfl
    | take | drop | write | keep => cases hstep
  case keeping =>
    cases step with
    | keep a =>
      obtain rfl := Option.some.inj hstep
      exact .keep item a hworker
    | take | drop | write | advance => cases hstep
  case written =>
    cases step with
    | advance =>
      simp only [work] at hstep
      split at hstep <;> obtain rfl := Option.some.inj hstep
      · exact .goto _ _ (by rw [hworker]; rfl)
      · exact .goto _ _ (by rw [hworker]; rfl)
    | take | drop | write | keep => cases hstep
  case recovering =>
    cases step with
    | advance =>
      obtain rfl := Option.some.inj hstep
      exact .trigger _ _ (by rw [hworker]; rfl)
    | take | drop | write | keep => cases hstep
  case done =>
    cases step with
    | advance =>
      simp only [work] at hstep
      split at hstep <;> obtain rfl := Option.some.inj hstep
      · next rowid hrow => exact .settle _ item rowid hworker hrow
      · next hrow => exact .goto _ _ (by rw [hworker]; exact hrow.symm)
    | take | drop | write | keep => cases hstep

/-! ## One thread at a time -/

/-- There is a reconnect thread exactly if the flag says so, and then only one. -/
def Bridge.OneThread (s : Bridge) : Prop :=
  s.threads.length = if s.reconnectThreadRunning then 1 else 0

namespace Bridge

@[simp] theorem worker_triggerReconnect (s : Bridge) : s.triggerReconnect.worker = s.worker := by
  unfold triggerReconnect
  split <;> rfl

namespace OneThread

theorem le_one (h : s.OneThread) : s.threads.length ≤ 1 := by
  rw [h]
  split <;> omega

/-- Where a thread stands, it is the only one. -/
theorem eq_singleton (h : s.OneThread) {i : Nat} {pc : ReconnectPc}
    (hpc : s.threads[i]? = some pc) : s.threads = [pc] ∧ i = 0 := by
  obtain ⟨hi, hget⟩ := List.getElem?_eq_some_iff.mp hpc
  have hle := h.le_one
  obtain ⟨pc', hpc'⟩ := List.length_eq_one_iff.mp (show s.threads.length = 1 by omega)
  have hzero : i = 0 := by omega
  subst hzero
  simp only [hpc', List.getElem_cons_zero] at hget
  exact ⟨by rw [hpc', hget], rfl⟩

theorem trigger (h : s.OneThread) : s.triggerReconnect.OneThread := by
  unfold triggerReconnect
  split
  · exact h
  · next hrunning =>
    rw [OneThread, if_neg hrunning] at h
    simp [OneThread, List.length_eq_zero_iff.mp h]

theorem reconnect (h : s.OneThread) {i : Nat} {pc : ReconnectPc} (answers : Bool)
    (hpc : s.threads[i]? = some pc) : (s.reconnect cfg i answers pc).OneThread := by
  obtain ⟨hthreads, rfl⟩ := h.eq_singleton hpc
  have hset : ∀ pc', (s.threads.set 0 pc').length = if s.reconnectThreadRunning then 1 else 0 := by
    intro pc'
    rw [List.length_set]
    exact h
  cases pc with
  | waiting | verified | refused | reading | rediscovering => exact hset _
  | finishing => simp [OneThread, Bridge.reconnect, hthreads]

theorem work (h : s.OneThread) {step : WorkerStep} (hstep : s.Works cfg step s') :
    s'.OneThread := by
  cases hstep with
  | goto | take | disconnect | settle => exact h
  | trigger => exact h.trigger
  | keep item a =>
    unfold Bridge.keep
    split <;> exact h

theorem step (h : s.OneThread) {e : Event} (hstep : s.step cfg e = some s') : s'.OneThread := by
  cases e with
  | put | replay | commitAcks =>
    obtain rfl := Option.some.inj hstep
    exact h
  | work step => exact h.work (work_cases hstep)
  | reconnect i answers =>
    obtain ⟨pc, hpc, rfl⟩ := Option.map_eq_some_iff.mp hstep
    exact h.reconnect answers hpc
  | trigger =>
    obtain rfl := Option.some.inj hstep
    exact h.trigger

end OneThread

end Bridge

/-- **At most one reconnect thread runs at a time**, in every run. -/
theorem oneThread_of_reach {guard : Bridge → Event → Prop} (h : Reach (system cfg) guard s) :
    s.OneThread := by
  refine Reach.invariant (P := Bridge.OneThread) (fun s h0 => ?_)
    (fun _ _ _ _ ih _ hstep => ih.step hstep) h
  rw [Bridge.OneThread, h0.threads, h0.not_running]
  rfl

/-! ## The invariant -/

/-- What every event keeps: a kept point that is not on its way has a replay to come. -/
structure Scheduled (cfg : ReconnectSettings) (s : Bridge) : Prop where
  tidy : Tidy s.backlog
  /-- what is in flight is in the flush queue or in the worker's hand -/
  inflight : ∀ r ∈ s.backlog.inflight, r ∈ s.backlog.queued ∨ s.worker.rowid = some r
  /-- without persistent storage the backlog is empty -/
  storage : cfg.enablePersistentStorage = false → s.backlog.backlogRowids = []
  waiting : ∀ r ∈ s.kept, r ∈ s.backlog.backlogRowids → r ∉ s.backlog.inflight → s.Covered

/-- Handing a live point to the backlog is an `enqueue`, or nothing. -/
theorem backlogLivePoint_fst (cfg : FlushSettings) (b : Backlog) (p : FlushPayload) (a : Answers) :
    (backlogLivePoint cfg b p a).1 =
      if cfg.enablePersistentStorage then
        (b.enqueue cfg.backlog p a.busy a.deleteFails a.insertFails).1
      else b := by
  unfold backlogLivePoint
  split
  · rcases b.enqueue cfg.backlog p a.busy a.deleteFails a.insertFails with ⟨b', result⟩
    cases result <;> rfl
  · rfl

/-- An `enqueue` leaves the queue as it is, and marks nothing as in flight. -/
theorem enqueue_fields (cfg : BacklogSettings) (b : Backlog) (p : FlushPayload)
    (busy deleteFails insertFails : Bool) :
    (b.enqueue cfg p busy deleteFails insertFails).1.flushQueue = b.flushQueue ∧
      ∀ r ∈ (b.enqueue cfg p busy deleteFails insertFails).1.inflight, r ∈ b.inflight := by
  rcases heq : b.enqueue cfg p busy deleteFails insertFails with ⟨b', result⟩
  rcases enqueue_cases cfg p busy deleteFails insertFails heq with
    ⟨rfl, -⟩ | ⟨-, rfl, -⟩ | ⟨-, oldest, rest, -, ⟨rfl, -⟩ | ⟨rfl, -⟩⟩
  · exact ⟨rfl, fun _ hr => hr⟩
  · exact ⟨rfl, fun _ hr => hr⟩
  · exact ⟨rfl, fun _ hr => List.mem_of_mem_filter hr⟩
  · exact ⟨rfl, fun _ hr => List.mem_of_mem_filter hr⟩

namespace Scheduled

/-- A step of one of the threads that touches neither the backlog nor a point. -/
theorem move (h : Scheduled cfg s) (hbacklog : s'.backlog = s.backlog) (hkept : s'.kept = s.kept)
    (hrowid : s'.worker.rowid = s.worker.rowid) (hcovered : s.Covered → s'.Covered) :
    Scheduled cfg s' where
  tidy := hbacklog ▸ h.tidy
  inflight := by
    rw [hbacklog, hrowid]
    exact h.inflight
  storage := hbacklog ▸ h.storage
  waiting := by
    rw [hbacklog, hkept]
    exact fun r hr hmem hin => hcovered (h.waiting r hr hmem hin)

/-- A step of the worker that touches neither the flags nor the backlog. -/
theorem goto (h : Scheduled cfg s) {pc : WorkerPc} (hrowid : pc.rowid = s.worker.rowid) :
    Scheduled cfg { s with worker := pc } :=
  h.move rfl rfl hrowid id

theorem trigger (h : Scheduled cfg s) : Scheduled cfg s.triggerReconnect := by
  unfold Bridge.triggerReconnect
  split
  · exact h
  · exact h.move rfl rfl rfl fun _ => .inl rfl

/-- **A replay leaves no point behind.** -/
theorem replay (h : Scheduled cfg s) (hbacklog : s'.backlog = s.backlog.replayToQueue.1)
    (hrowid : s'.worker.rowid = s.worker.rowid) : Scheduled cfg s' where
  tidy := hbacklog ▸ h.tidy.replayToQueue
  inflight := by
    rw [hbacklog, hrowid, h.tidy.queued_replayToQueue]
    intro r hr
    rcases h.tidy.inflight_replayToQueue hr with hr | hr
    · exact (h.inflight r hr).imp_left (List.mem_append_left _)
    · exact .inl (h.tidy.queued_replayToQueue ▸ hr)
  storage := fun hoff => by
    rw [hbacklog, replayToQueue_eq h.tidy.nodup h.tidy.length_eq]
    exact h.storage hoff
  waiting := by
    rw [hbacklog]
    intro r _ hmem hin
    rw [replayToQueue_eq h.tidy.nodup h.tidy.length_eq] at hmem
    exact absurd (h.tidy.mem_inflight_replayToQueue hmem) hin

/-- **The reconnect thread goes on.** -/
theorem reconnect (h : Scheduled cfg s) (hone : s.OneThread) {i : Nat} {pc : ReconnectPc}
    (answers : Bool) (hpc : s.threads[i]? = some pc) :
    Scheduled cfg (s.reconnect cfg i answers pc) := by
  obtain ⟨hthreads, rfl⟩ := hone.eq_singleton hpc
  -- while no replay is ahead of the only thread, the flag alone covers
  have hflag : pc.replayAhead = false → s.Covered → s.tsdbConnected = false := by
    rintro hahead (hdown | ⟨pc', hmem, hpc'⟩)
    · exact hdown
    · rw [hthreads, List.mem_singleton] at hmem
      rw [hmem, hahead] at hpc'
      cases hpc'
  cases pc with
  | waiting attemptNo => exact h.move rfl rfl rfl fun hcovered => .inl (hflag rfl hcovered)
  | verified attemptNo =>
    refine h.move rfl rfl rfl fun _ => .inr ⟨.reading attemptNo, ?_, rfl⟩
    simp [Bridge.reconnect, hthreads]
  | refused attemptNo => exact h.move rfl rfl rfl fun _ => .inl rfl
  | reading attemptNo =>
    refine h.move rfl rfl rfl fun _ => ?_
    cases hconnected : s.tsdbConnected with
    | false => exact .inl hconnected
    | true => exact .inr ⟨.rediscovering, by simp [Bridge.reconnect, hthreads, hconnected], rfl⟩
  | rediscovering =>
    cases hstorage : cfg.enablePersistentStorage with
    | true => exact h.replay (by simp [Bridge.reconnect, hstorage]) rfl
    | false =>
      have hbacklog : (s.reconnect cfg 0 answers .rediscovering).backlog = s.backlog := by
        simp [Bridge.reconnect, hstorage]
      exact
        { tidy := hbacklog ▸ h.tidy
          inflight := by
            rw [hbacklog]
            exact h.inflight
          storage := hbacklog ▸ h.storage
          waiting := fun r _ hmem => by
            rw [hbacklog, h.storage hstorage] at hmem
            cases hmem }
  | finishing => exact h.move rfl rfl rfl fun hcovered => .inl (hflag rfl hcovered)

/-- The worker takes an item off the queue. -/
theorem take (h : Scheduled cfg s) (hidle : s.worker = .idle) {item : QueueItem}
    {rest : List (Option QueueItem)} (hqueue : s.backlog.flushQueue = some item :: rest) :
    Scheduled cfg { s with backlog := s.backlog.take, worker := .taken item } where
  tidy := ⟨h.tidy.length_eq, h.tidy.sorted, h.tidy.lt_next⟩
  inflight := fun r hr => by
    rcases h.inflight r hr with hq | hhand
    · rw [queued_eq hqueue, List.mem_append] at hq
      exact hq.symm.imp_right Option.mem_toList.mp
    · rw [hidle] at hhand
      cases hhand
  storage := h.storage
  waiting := h.waiting

/-- **The worker keeps the point in its hand**, while a replay is still to come. -/
theorem keep (h : Scheduled cfg s) {item : QueueItem} (hhand : s.worker = .keeping item)
    (hcovered : s.Covered) (a : Answers) : Scheduled cfg (s.keep cfg item a) := by
  have hrowid : s.worker.rowid = item.backlogRowid := by rw [hhand]; rfl
  unfold Bridge.keep
  cases hrow : item.backlogRowid with
  | some rowid =>
    exact
      { tidy := ⟨h.tidy.length_eq, h.tidy.sorted, h.tidy.lt_next⟩
        inflight := fun r hr => by
          obtain ⟨hr, hne⟩ := List.mem_filter.mp hr
          refine .inl ((h.inflight r hr).resolve_right fun heq => ?_)
          rw [hrowid, hrow] at heq
          exact absurd (Option.some.inj heq).symm (by simpa using hne)
        storage := h.storage
        waiting := fun _ _ _ _ => hcovered }
  | none =>
    have hbacklog := backlogLivePoint_fst cfg.toFlushSettings s.backlog item.payload a
    have hinflight : ∀ r ∈ s.backlog.inflight, r ∈ s.backlog.queued := fun r hr =>
      (h.inflight r hr).resolve_right fun heq => by
        rw [hrowid, hrow] at heq
        cases heq
    dsimp only
    generalize (backlogLivePoint cfg.toFlushSettings s.backlog item.payload a).1 = b at hbacklog ⊢
    cases hstorage : cfg.enablePersistentStorage with
    | true =>
      rw [if_pos hstorage] at hbacklog
      obtain ⟨hqueue, hmarks⟩ := enqueue_fields cfg.backlog s.backlog item.payload a.busy
        a.deleteFails a.insertFails
      subst hbacklog
      exact
        { tidy := h.tidy.enqueue _ _ _ _ _
          inflight := fun r hr => by
            refine .inl ?_
            simp only [queued, hqueue]
            exact hinflight r (hmarks r hr)
          storage := fun hoff => by
            rw [hstorage] at hoff
            cases hoff
          waiting := fun _ _ _ _ => hcovered }
    | false =>
      rw [if_neg (by rw [hstorage]; exact Bool.false_ne_true)] at hbacklog
      subst hbacklog
      exact
        { tidy := h.tidy
          inflight := fun r hr => .inl (hinflight r hr)
          storage := h.storage
          waiting := fun _ _ _ _ => hcovered }

/-- The worker is done with the replayed point in its hand. -/
theorem settle (h : Scheduled cfg s) {item : QueueItem} {rowid : Nat}
    (hhand : s.worker = .done item) (hrow : item.backlogRowid = some rowid) :
    Scheduled cfg { s with backlog := (s.backlog.ack rowid).1, worker := .idle } where
  tidy := h.tidy.ack rowid
  inflight := fun r hr => by
    simp only [inflight_ack] at hr
    obtain ⟨hr, hne⟩ := List.mem_filter.mp hr
    simp only [queued_ack]
    refine .inl ((h.inflight r hr).resolve_right fun heq => ?_)
    have hrowid : s.worker.rowid = some rowid := by
      rw [hhand]
      exact hrow
    rw [hrowid] at heq
    exact absurd (Option.some.inj heq).symm (by simpa using hne)
  storage := fun hoff => by
    have hsub := ack_sublist s.backlog rowid
    rw [h.storage hoff] at hsub
    exact List.sublist_nil.mp hsub
  waiting := fun r hr hmem hin => by
    simp only [inflight_ack] at hin
    have hne : r ≠ rowid := fun heq => not_mem_ack h.tidy rowid (heq ▸ hmem)
    exact h.waiting r hr ((ack_sublist _ _).subset hmem) fun hr =>
      hin (List.mem_filter.mpr ⟨hr, by simpa using hne⟩)

/-- **The flush worker goes on.** -/
theorem work (h : Scheduled cfg s) {step : WorkerStep} (horderly : Orderly s (.work step))
    (hstep : s.Works cfg step s') : Scheduled cfg s' := by
  cases hstep with
  | goto _ pc hrowid => exact h.goto hrowid
  | take item rest hidle hqueue => exact h.take hidle hqueue
  | disconnect _ pc hrowid => exact h.move rfl rfl hrowid fun _ => .inl rfl
  | trigger _ pc hrowid =>
    exact h.trigger.goto (hrowid.trans (congrArg _ s.worker_triggerReconnect.symm))
  | keep item a hhand => exact h.keep hhand horderly a
  | settle _ item rowid hhand hrow => exact h.settle hhand hrow

theorem step (h : Scheduled cfg s) (hone : s.OneThread) {e : Event} (horderly : Orderly s e)
    (hstep : s.step cfg e = some s') : Scheduled cfg s' := by
  cases e with
  | put p =>
    obtain rfl := Option.some.inj hstep
    exact
      { tidy := ⟨h.tidy.length_eq, h.tidy.sorted, h.tidy.lt_next⟩
        inflight := fun r hr => by
          simp only [queued_put]
          exact h.inflight r hr
        storage := h.storage
        waiting := h.waiting }
  | work step => exact h.work horderly (Bridge.work_cases hstep)
  | reconnect i answers =>
    obtain ⟨pc, hpc, rfl⟩ := Option.map_eq_some_iff.mp hstep
    exact h.reconnect hone answers hpc
  | trigger =>
    obtain rfl := Option.some.inj hstep
    exact h.trigger
  | replay =>
    obtain rfl := Option.some.inj hstep
    exact h.replay rfl rfl
  | commitAcks deleteFails =>
    obtain rfl := Option.some.inj hstep
    obtain ⟨hqueue, hrowids, hinflight⟩ := commitAcks_fields s.backlog deleteFails
    exact
      { tidy := h.tidy.commitAcks deleteFails
        inflight := by
          simp only [hinflight, queued, hqueue]
          exact h.inflight
        storage := by
          simp only [hrowids]
          exact h.storage
        waiting := by
          simp only [hrowids, hinflight]
          exact h.waiting }

theorem start (h : s.Starting cfg) : Scheduled cfg s := by
  obtain ⟨⟨before, hloaded⟩, -, -, -, hkept⟩ := h
  rcases hloaded with heq | ⟨hstorage, now, selectFails, deleteFails, hload⟩
  · exact
      { tidy := heq ▸ Tidy.crash before
        inflight := fun r hr => by
          rw [heq] at hr
          cases hr
        storage := fun _ => by
          rw [heq]
          rfl
        waiting := by simp [hkept] }
  · exact
      { tidy := Tidy.load hload
        inflight := fun r hr => by
          obtain ⟨c, -, heq⟩ := loadFromDisk_eq_some cfg.backlog hload
          rw [heq] at hr
          cases hr
        storage := fun hoff => by
          rw [hstorage] at hoff
          cases hoff
        waiting := by simp [hkept] }

theorem of_reach (h : Reach (system cfg) Orderly s) : Scheduled cfg s :=
  Reach.invariant (P := Scheduled cfg) (fun _ h0 => start h0)
    (fun _ _ _ hr ih horderly hstep => ih.step (oneThread_of_reach hr) horderly hstep) h

end Scheduled

/-! ## No point is stranded -/

/-- **Where a replay is to come whenever a point is kept, no point is stranded.** -/
theorem noneStranded_of_reach (h : Reach (system cfg) Orderly s) : NoneStranded s := by
  have hone := oneThread_of_reach h
  have hscheduled := Scheduled.of_reach h
  refine ⟨hone.le_one, fun hconnected hrunning hidle hqueue r hr hmem => ?_⟩
  have hnone : s.threads = [] := by
    rw [Bridge.OneThread, hrunning, if_neg Bool.false_ne_true] at hone
    exact List.length_eq_zero_iff.mp hone
  have hlanded : r ∉ s.backlog.inflight := fun hin => by
    rcases hscheduled.inflight r hin with hq | hhand
    · rw [queued, hqueue] at hq
      cases hq
    · rw [hidle] at hhand
      cases hhand
  rcases hscheduled.waiting r hr hmem hlanded with hdown | ⟨pc, hpc, -⟩
  · rw [hconnected] at hdown
    cases hdown
  · rw [hnone] at hpc
    cases hpc

/-! ### An outage, and a refusal -/

def sampleReconnect : ReconnectSettings :=
  { Flush.sampleSettings with reconnectAttempts := 5 }

/-- A bridge that starts with an empty journal and a database that answers. -/
def connected : Bridge := ⟨Backlog.empty, true, false, [], .idle, []⟩

theorem starting_connected : connected.Starting sampleReconnect :=
  ⟨⟨Backlog.empty, .inl rfl⟩, rfl, rfl, rfl, rfl⟩

/-- A point meets an outage and is kept; the reconnect succeeds and replays it; it is written. -/
theorem noneStranded_recovered :
    ∃ s, s.kept = [1] ∧ s.tsdbConnected = true ∧ s.reconnectThreadRunning = false ∧
      s.backlog.flushQueue = [] ∧ NoneStranded s := by
  have hstart : Reach (system sampleReconnect) Orderly connected := .init starting_connected
  have hput := hstart.step (i := Event.put samplePoint) trivial rfl
  have htaken := hput.step (i := Event.work .take) trivial rfl
  have hwriting := htaken.step (i := Event.work .advance) trivial rfl
  have hlost := hwriting.step (i := Event.work (.write (some (.dbapi true none true)))) trivial rfl
  have hflagged := hlost.step (i := Event.work .advance) trivial rfl
  have hkeeping := hflagged.step (i := Event.work .advance) trivial rfl
  have hkept := hkeeping.step (i := Event.work (.keep Flush.allWell)) (.inl rfl) rfl
  have hverified := hkept.step (i := Event.reconnect 0 true) trivial rfl
  have hup := hverified.step (i := Event.reconnect 0 true) trivial rfl
  have hread := hup.step (i := Event.reconnect 0 true) trivial rfl
  have hreplayed := hread.step (i := Event.reconnect 0 true) trivial rfl
  have hagain := hreplayed.step (i := Event.work .take) trivial rfl
  have hchecked := hagain.step (i := Event.work .advance) trivial rfl
  have hwritten := hchecked.step (i := Event.work (.write none)) trivial rfl
  have hdone := hwritten.step (i := Event.work .advance) trivial rfl
  have hacknowledged := hdone.step (i := Event.work .advance) trivial rfl
  have hfinished := hacknowledged.step (i := Event.reconnect 0 true) trivial rfl
  exact ⟨_, rfl, rfl, rfl, rfl, noneStranded_of_reach hfinished⟩

/-- **A point that meets a lock timeout stays in the backlog**, with the connection up and nothing
to replay it. -/
theorem not_noneStranded_refused :
    ¬∀ cfg s, Reachable (system cfg) s → NoneStranded s := by
  intro hall
  have hstart : Reachable (system sampleReconnect) connected := .init starting_connected
  have hput := hstart.step (i := Event.put samplePoint) trivial rfl
  have htaken := hput.step (i := Event.work .take) trivial rfl
  have hwriting := htaken.step (i := Event.work .advance) trivial rfl
  have hkeeping := hwriting.step (i := Event.work (.write (some (.dbapi false (some "55P03") true))))
    trivial rfl
  have hkept := hkeeping.step (i := Event.work (.keep Flush.allWell)) trivial rfl
  exact (hall _ _ hkept).none_left rfl rfl rfl rfl 1 (by decide) (by decide)

end Reconnect

end ProtocolGateway
