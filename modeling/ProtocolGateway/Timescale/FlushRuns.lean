import ProtocolGateway.Timescale.HandOver
import ProtocolGateway.Timescale.Flush

/-!
# Runs of the flush worker

The flush worker, the threads that fill its queue, and the shutdown that empties it. What becomes of
each item is recorded; `Settlement.Settled` says that it is written, in the backlog or dropped for a
reason the worker names, and exactly one of these.

An exception the worker does not handle where it arises takes the point with it: `_flush_one`'s
`finally` block acknowledges a replayed point although it was not written, and a live one is in no
backlog. That happens when the resync of a wide table meets a database that is down, which is
outside the guarded block, and when a `KeyError` or `OverflowError` comes out of it. Where no item
meets this (`Undisturbed`), `accounted_of_reach` accounts for every item.
-/

namespace ProtocolGateway

/-- The reasons for which the worker drops a point. -/
def Notice.drops : Notice → Bool
  | stale | noData | missingColumns | rejected | skipped => true
  | storageDisabled | backlogBusy | enqueueFailed => true
  | unreachable | refused | itemSkipped => false

/-- The reasons for which a point that should be kept could not be. -/
def Notice.storage : Notice → Bool
  | storageDisabled | backlogBusy | enqueueFailed => true
  | _ => false

theorem Notice.drops_of_storage {n : Notice} (h : n.storage = true) : n.drops = true := by
  cases n <;> first | rfl | simp [storage] at h

namespace Flush

open Runs Backlog Outcomes

variable (host : Host) (cfg : FlushSettings)

/-! ## Items that are not cut short -/

/-- The write is attempted: no stop was requested, and no reconnect is under way. -/
def Attempted (a : Answers) : Prop :=
  a.stopRequested = false ∧ ¬(a.tsdbConnected = false ∧ a.reconnectThreadRunning = true)

/-- The row for the wide table. -/
def wideRow (schema : WideSchema) (p : FlushPayload) : Dict String SqlValue :=
  (RawMetrics.processRawMetrics host (schema.mappingOf p.protocol) p.metrics).1

/-- The row for the narrow table. -/
def narrowRow (schema : WideSchema) (p : FlushPayload) : Dict String PyValue :=
  (RawMetrics.processRawMetrics host (schema.mappingOf p.protocol) p.metrics).2

/-- **Nothing cuts the item short.** -/
structure Undisturbed (schema : WideSchema) (registry : StaleRegistry) (item : QueueItem)
    (a : Answers) : Prop where
  /-- the numbers of a live point can be compared with the last ones -/
  compares : item.backlogRowid = none → Returns (checkIsStale host cfg registry
    item.payload.transportName item.payload.metrics item.payload.mTime)
  /-- the database answers the resync that a metric without a column asks for -/
  reflects : ∀ table, item.payload.wideTableName = some table →
    extraKeys schema table (wideRow host schema item.payload) ≠ [] → a.reflect = none
  /-- the wide table is in the metadata -/
  present : Attempted a → ∀ table, item.payload.wideTableName = some table →
    extraKeys schema table (wideRow host schema item.payload) = [] → table ∈ schema.tables
  /-- the numbers of the point fit a `float` -/
  fits : Attempted a → Returns (RawMetrics.narrowRows host (narrowRow host schema item.payload))
  /-- the database's failures are of the kinds the worker handles -/
  caught : Attempted a → ∀ e, some e ∈ [a.begin, a.insertNarrow, a.insertWide, a.commit] →
    e.caught = true

/-- The log blames the database for the write that failed: it is down, or it refused for now. -/
def Blamed (notices : List Notice) : Prop := Notice.unreachable ∈ notices ∨ Notice.refused ∈ notices

/-- What `_flush_one_inner` leaves of an item that is not cut short. -/
inductive Outcome (s : Backlog) (item : QueueItem) (a : Answers) (f : Flushed) : Prop
  /-- its transaction was committed -/
  | written : f.committed = true → f.retainUnwritten = false → f.backlog = s →
      ¬Blamed f.notices → Outcome s item a f
  /-- it is to be kept by the `finally` block -/
  | retained : f.committed = false → f.retainUnwritten = true → f.backlog = s → Outcome s item a f
  /-- a live point was handed to the backlog -/
  | journalled (notices : List Notice) : item.backlogRowid = none → f.committed = false →
      f.retainUnwritten = false → backlogLivePoint cfg s item.payload a = (f.backlog, notices) →
      (∀ n ∈ notices, n ∈ f.notices) → Outcome s item a f
  /-- it was dropped for a reason -/
  | dropped : f.committed = false → f.retainUnwritten = false → f.backlog = s →
      ¬Blamed f.notices → (∃ n ∈ f.notices, n.drops = true) → Outcome s item a f

/-- The state before an item's way. -/
structure Fresh (s : Backlog) (f : Flushed) : Prop where
  backlog : f.backlog = s
  retain : f.retainUnwritten = false
  committed : f.committed = false
  notices : f.notices = []

variable {host cfg} {s : Backlog} {f : Flushed} {item : QueueItem} {a : Answers}

theorem keepUnwritten_outcome (hbacklog : f.backlog = s) (hretain : f.retainUnwritten = false)
    (hcommitted : f.committed = false) : Outcome cfg s item a (keepUnwritten cfg f item a) := by
  unfold keepUnwritten
  cases hrow : item.backlogRowid with
  | some rowid => exact .retained hcommitted rfl hbacklog
  | none =>
    refine .journalled (backlogLivePoint cfg s item.payload a).2 hrow hcommitted hretain ?_ ?_
    · rw [← hbacklog]
    · intro n hn
      rw [hbacklog]
      exact List.mem_append_right _ hn

/-- An item dropped with one line in the log. -/
theorem Outcome.ofNotice (h : Fresh s f) {f' : Flushed} (n : Notice) (hdrops : n.drops = true)
    (hbacklog : f'.backlog = f.backlog) (hretain : f'.retainUnwritten = f.retainUnwritten)
    (hcommitted : f'.committed = f.committed) (hnotices : f'.notices = f.notices ++ [n]) :
    Outcome cfg s item a f' := by
  rw [h.notices, List.nil_append] at hnotices
  refine .dropped (hcommitted.trans h.committed) (hretain.trans h.retain)
    (hbacklog.trans h.backlog) ?_ ⟨n, by rw [hnotices]; exact List.mem_singleton_self _, hdrops⟩
  rw [Blamed, hnotices, List.mem_singleton, List.mem_singleton]
  rintro (rfl | rfl) <;> cases hdrops

/-- A failed write is kept, or dropped as rejected. -/
theorem handleFailure_outcome (h : Fresh s f) (e : Raised) :
    Outcome cfg s item a (handleFailure cfg f item a e) := by
  unfold handleFailure
  dsimp only
  split
  · exact keepUnwritten_outcome h.backlog h.retain h.committed
  · next hkeep =>
    rw [Bool.not_eq_true, Bool.or_eq_false_iff, Bool.or_eq_false_iff] at hkeep
    obtain ⟨⟨hlost, htransient⟩, -⟩ := hkeep
    refine .ofNotice h _ ?_ rfl rfl rfl rfl
    rw [htransient, hlost]
    cases e.isSQLAlchemyError <;> rfl

theorem firstFailure_eq_some {steps : List (Option Raised)} {e : Raised}
    (h : firstFailure steps = some e) : some e ∈ steps := by
  obtain ⟨step, hmem, hstep⟩ := List.exists_of_findSome?_eq_some h
  rwa [← show step = some e from hstep]

/-- What the body of the transaction raises is one of the database's failures. -/
theorem writeRows_eq_some {schema : WideSchema} {wide : Option String} {narrow : Dict String PyValue}
    {e : Raised} (hfits : Returns (RawMetrics.narrowRows host narrow))
    (hpresent : ∀ table, wide = some table → table ∈ schema.tables)
    (h : writeRows host schema wide narrow a = some e) :
    some e ∈ [a.begin, a.insertNarrow, a.insertWide, a.commit] := by
  have hmem := firstFailure_eq_some h
  obtain ⟨rows, hrows⟩ := hfits
  simp only [List.mem_cons, List.not_mem_nil, or_false] at hmem ⊢
  rcases hmem with hmem | hmem | hmem | hmem
  · exact .inl hmem
  · rw [hrows] at hmem
    cases rows with
    | nil => cases hmem
    | cons r rows => exact .inr (.inl hmem)
  · cases wide with
    | none => cases hmem
    | some table =>
      dsimp only at hmem
      rw [if_pos (hpresent table rfl)] at hmem
      exact .inr (.inr (.inl hmem))
  · exact .inr (.inr (.inr hmem))

/-- The write of an item. The schema is the one the validation left. -/
theorem writeItem_outcome (h : Fresh s f) {narrow : Dict String PyValue}
    (hfits : Attempted a → Returns (RawMetrics.narrowRows host narrow))
    (hpresent : Attempted a → ∀ table, item.payload.wideTableName = some table →
      table ∈ f.schema.tables)
    (hcaught : Attempted a → ∀ e, some e ∈ [a.begin, a.insertNarrow, a.insertWide, a.commit] →
      e.caught = true) :
    Outcome cfg s item a (writeItem host cfg f item narrow a) := by
  unfold writeItem
  split
  · exact .retained h.committed rfl h.backlog
  · next hstop =>
    split
    · exact keepUnwritten_outcome h.backlog h.retain h.committed
    · next houtage =>
      have hattempted : Attempted a :=
        ⟨by simpa using hstop, fun ⟨hdown, hrunning⟩ => houtage (by simp [hdown, hrunning])⟩
      split
      · refine .written rfl h.retain h.backlog ?_
        simp [Blamed, h.notices]
      · next e he =>
        have hmem := writeRows_eq_some (hfits hattempted) (hpresent hattempted) he
        rw [if_pos (hcaught hattempted e hmem)]
        exact handleFailure_outcome h e

/-- After a validation that raised nothing the wide table is in the metadata. -/
theorem mem_tables_of_validate {schema schema' : WideSchema} {table : String}
    {row : Dict String SqlValue} (hpresent : extraKeys schema table row = [] → table ∈ schema.tables)
    (h : validateWideRow schema table row a = (schema', none)) : table ∈ schema'.tables := by
  unfold validateWideRow at h
  split at h
  · next hnone =>
    obtain ⟨rfl, -⟩ := Prod.mk.inj h
    exact hpresent hnone
  · split at h
    · simp at h
    · next schema'' hsync =>
      have hschema : schema'' = schema' := by
        split at h <;> exact (Prod.mk.inj h).1
      rw [← hschema]
      unfold syncSingleTableSchema at hsync
      cases hreflect : a.reflect with
      | some e => simp [hreflect] at hsync
      | none =>
        simp only [hreflect] at hsync
        obtain ⟨rfl, -⟩ := Prod.mk.inj hsync
        exact List.mem_cons_self

/-- A validation that raises is the one that finds columns missing after the resync. -/
theorem eq_missingColumns_of_validate {schema schema' : WideSchema} {table : String} {e : Raised}
    {row : Dict String SqlValue} (hreflects : extraKeys schema table row ≠ [] → a.reflect = none)
    (h : validateWideRow schema table row a = (schema', some e)) : e = .missingColumns := by
  unfold validateWideRow at h
  split at h
  · simp at h
  · next hextra =>
    have hnone := hreflects hextra
    simp only [syncSingleTableSchema, hnone] at h
    split at h
    · simp at h
    · exact (Option.some.inj (Prod.mk.inj h).2).symm

/-- **What becomes of an item that is not cut short.** -/
theorem flushOneInner_outcome {schema : WideSchema} {registry : StaleRegistry} (h : Fresh s f)
    (hschema : f.schema = schema) (hregistry : f.registry = registry)
    (hu : Undisturbed host cfg schema registry item a) :
    Outcome cfg s item a (flushOneInner host cfg f (some item) a) := by
  subst hschema hregistry
  have hrow : Outcome cfg s item a (flushRow host cfg f item a) := by
    unfold flushRow
    dsimp only
    split
    · exact .ofNotice h .noData rfl rfl rfl rfl rfl
    · split
      · next table htable =>
        split
        · next hempty =>
          refine writeItem_outcome h hu.fits (fun hattempted table' htable' => ?_) hu.caught
          obtain rfl : table = table' := Option.some.inj (htable.symm.trans htable')
          refine hu.present hattempted table htable ?_
          simp [extraKeys, wideRow, Dict.keys, hempty]
        · split
          · next schema' e he =>
            obtain rfl := eq_missingColumns_of_validate (hu.reflects table htable) he
            exact .ofNotice h .missingColumns rfl rfl rfl rfl rfl
          · next schema' he =>
            have hfresh : Fresh s { f with schema := schema' } :=
              ⟨h.backlog, h.retain, h.committed, h.notices⟩
            refine writeItem_outcome hfresh hu.fits (fun hattempted table' htable' => ?_) hu.caught
            obtain rfl : table = table' := Option.some.inj (htable.symm.trans htable')
            exact mem_tables_of_validate (hu.present hattempted table htable) he
      · next hnarrow =>
        refine writeItem_outcome h hu.fits (fun _ table htable => ?_) hu.caught
        rw [hnarrow] at htable
        cases htable
  unfold flushOneInner
  dsimp only
  split
  · next e he =>
    -- only a live point is compared, and its comparison returns
    cases hlive : item.backlogRowid with
    | some rowid => simp [hlive] at he
    | none =>
      obtain ⟨b, hb⟩ := hu.compares hlive
      simp [hlive, hb] at he
  · exact .ofNotice h .stale rfl rfl rfl rfl rfl
  · exact hrow

/-! ## Runs -/

/-- What became of one item. -/
structure Settlement where
  item : QueueItem
  /-- the backlog before … -/
  before : Backlog
  /-- … and after, with the rowids evicted from it until then -/
  outcome : Flushed
  evicted : List Nat

namespace Settlement

variable (r : Settlement)

/-- The item is in the backlog: a replayed one under its rowid, a live one under the next. -/
def InBacklog : Prop :=
  match r.item.backlogRowid with
  | some rowid => rowid ∈ r.outcome.backlog.backlogRowids
  | none => (r.before.table.next, r.item.payload) ∈ r.outcome.backlog.entries

theorem inBacklog_replayed {r : Settlement} {rowid : Nat} (h : r.item.backlogRowid = some rowid) :
    r.InBacklog ↔ rowid ∈ r.outcome.backlog.backlogRowids := by
  rw [InBacklog, h]

theorem inBacklog_live {r : Settlement} (h : r.item.backlogRowid = none) :
    r.InBacklog ↔ (r.before.table.next, r.item.payload) ∈ r.outcome.backlog.entries := by
  rw [InBacklog, h]

/-- A reason is on record: in the worker's log, or an eviction of the replayed point by the size
limit while it was on its way. -/
def Reasoned : Prop :=
  (∃ n ∈ r.outcome.notices, n.drops = true) ∨ ∃ rowid, r.item.backlogRowid = some rowid ∧
    rowid ∈ r.evicted

/-- **Exactly one of**: written, in the backlog, dropped for a reason. -/
def Settled : Prop :=
  (r.outcome.committed = true ∧ ¬r.InBacklog) ∨
    (r.outcome.committed = false ∧ r.InBacklog) ∨
      (r.outcome.committed = false ∧ ¬r.InBacklog ∧ r.Reasoned)

end Settlement

/-- The flush worker, its queue and its backlog. -/
structure Worker where
  trace : Trace
  schema : WideSchema
  registry : StaleRegistry
  /-- the item taken off the queue, until `task_done` -/
  hand : Option (Option QueueItem)
  /-- the loop of `_flush_worker` goes on -/
  running : Bool
  /-- `unfinished_tasks` of the queue -/
  unfinishedTasks : Nat
  history : List Settlement

/-- What happens. -/
inductive Event
  /-- `write_data`, or the sentinel of `close` -/
  | put (p : Option FlushPayload)
  /-- a replay, by whichever thread -/
  | replay
  | commitAcks (deleteFails : Bool)
  /-- the worker takes the next item off the queue -/
  | take
  /-- the worker brings the item to its end -/
  | process (a : Answers)
  /-- another thread changes the wide tables -/
  | setSchema (schema : WideSchema)
  /-- the cleanup of transports not seen for long -/
  | setRegistry (registry : StaleRegistry)
  /-- `_persist_unflushed_queue` takes the next item -/
  | persist (a : Answers)

/-- The history of the points after a call of `enqueue` that may not have come to it. -/
def observe (t : Trace) (p : FlushPayload) (s' : Backlog) : Trace :=
  { t with
    backlog := s'
    enqueued := if t.backlog.table.next < s'.table.next then t.enqueued.insert p else t.enqueued
    evicted := t.evicted ++ t.backlog.table.removed s'.table }

variable (host cfg)

/-- The history of the points after an item was settled. -/
def settledTrace (t : Trace) (item : QueueItem) (f : Flushed) : Trace :=
  match item.backlogRowid with
  | some rowid =>
    t.step cfg.backlog (if f.retainUnwritten then .release rowid else .ack rowid)
  | none => observe t item.payload f.backlog

/-- One event, `none` where it cannot happen. -/
def Worker.step (w : Worker) : Event → Option Worker
  | .put p => some { w with
      trace := w.trace.step cfg.backlog (.put p)
      unfinishedTasks := w.unfinishedTasks + 1 }
  | .replay => some { w with
      trace := w.trace.step cfg.backlog .replayToQueue
      unfinishedTasks := w.unfinishedTasks + w.trace.backlog.replayToQueue.2 }
  | .commitAcks deleteFails => some { w with
      trace := w.trace.step cfg.backlog (.commitAcks deleteFails) }
  | .take =>
    match w.hand, w.running, w.trace.backlog.flushQueue with
    | none, true, dataIn :: _ =>
      some { w with trace := w.trace.step cfg.backlog .take, hand := some dataIn }
    | _, _, _ => none
  | .process a =>
    match w.hand with
    | none => none
    | some dataIn =>
      let f := flushOne host cfg w.trace.backlog w.schema w.registry dataIn a
      let w' := { w with
        schema := f.schema
        registry := f.registry
        hand := none
        running := match f.result with | .ok stop => !stop | .error _ => true
        unfinishedTasks := w.unfinishedTasks - 1 }
      match dataIn with
      | none => some w'
      | some item =>
        let trace := settledTrace cfg w.trace item f
        some { w' with
          trace := trace
          history := ⟨item, w.trace.backlog, f, trace.evicted⟩ :: w.history }
  | .setSchema schema => some { w with schema := schema }
  | .setRegistry registry => some { w with registry := registry }
  | .persist a =>
    match w.trace.backlog.flushQueue with
    | [] => none
    | dataIn :: _ =>
      let t := w.trace.step cfg.backlog .take
      some { w with
        trace := match dataIn with
          | some ⟨p, none⟩ => observe t p (backlogLivePoint cfg t.backlog p a).1
          | _ => t
        unfinishedTasks := w.unfinishedTasks - 1 }

/-- The worker's first start, after the backlog was loaded: nothing is queued. -/
structure Worker.Start (w : Worker) : Prop where
  backlog : Reach (Backlog.system cfg.backlog) (Orderly cfg.backlog) w.trace
  queue : w.trace.backlog.flushQueue = []
  hand : w.hand = none
  unfinished : w.unfinishedTasks = 0
  history : w.history = []

/-- The runs of the flush worker. -/
def system : System Worker Event where
  init := Worker.Start cfg
  step w e w' := w.step host cfg e = some w'

/-- No item is cut short. -/
def Calm (w : Worker) : Event → Prop
  | .process a => ∀ item, w.hand = some (some item) →
    Undisturbed host cfg w.schema w.registry item a
  | _ => True

variable {host cfg} {t : Trace} {w : Worker}

/-! ## One settlement -/

/-- What `_backlog_live_point` comes to: the point is stored, or there is a reason why not. -/
theorem backlogLivePoint_cases (cfg : FlushSettings) (s : Backlog) (p : FlushPayload) (a : Answers) :
    ((backlogLivePoint cfg s p a).1 = (s.enqueue cfg.backlog p a.busy a.deleteFails a.insertFails).1 ∧
      ((s.enqueue cfg.backlog p a.busy a.deleteFails a.insertFails).2 = .stored ∨
        ∃ n ∈ (backlogLivePoint cfg s p a).2, n.storage = true)) ∨
    ((backlogLivePoint cfg s p a).1 = s ∧ ∃ n ∈ (backlogLivePoint cfg s p a).2, n.storage = true) := by
  unfold backlogLivePoint
  split
  · rcases s.enqueue cfg.backlog p a.busy a.deleteFails a.insertFails with ⟨s', result⟩
    cases result with
    | stored => exact .inl ⟨rfl, .inl rfl⟩
    | busy => exact .inl ⟨rfl, .inr ⟨_, List.mem_singleton_self _, rfl⟩⟩
    | raised => exact .inl ⟨rfl, .inr ⟨_, List.mem_singleton_self _, rfl⟩⟩
  · exact .inr ⟨rfl, _, List.mem_singleton_self _, rfl⟩

/-- A point handed to the backlog is in it, or there is a reason why not. -/
theorem backlogLivePoint_stored (h : Consistent cfg.backlog t) (p : FlushPayload) (a : Answers) :
    (t.backlog.table.next, p) ∈ (backlogLivePoint cfg t.backlog p a).1.entries ∨
      ∃ n ∈ (backlogLivePoint cfg t.backlog p a).2, n.storage = true := by
  rcases backlogLivePoint_cases cfg t.backlog p a with ⟨heq, hstored | hreason⟩ | ⟨-, hreason⟩
  · refine .inl ?_
    rw [heq]
    exact (h.enqueue_stored_iff p _ _ _).mpr hstored
  · exact .inr hreason
  · exact .inr hreason

/-- The history of the points after a point was handed to the backlog, or not. -/
theorem observe_self (t : Trace) (p : FlushPayload) : observe t p t.backlog = t := by
  simp [observe]

theorem observe_enqueue (t : Trace) (p : FlushPayload) (busy deleteFails insertFails : Bool) :
    observe t p (t.backlog.enqueue cfg.backlog p busy deleteFails insertFails).1 =
      t.step cfg.backlog (.enqueue p busy deleteFails insertFails) := by
  simp only [observe, Trace.step, Consistent.enqueue_next]

/-- Handing a point to the backlog keeps it consistent. -/
theorem observe_backlogLivePoint (h : Consistent cfg.backlog t) (p : FlushPayload) (a : Answers) :
    Consistent cfg.backlog (observe t p (backlogLivePoint cfg t.backlog p a).1) ∧
      Consistent.Kept t.backlog (backlogLivePoint cfg t.backlog p a).1 := by
  rcases backlogLivePoint_cases cfg t.backlog p a with ⟨heq, -⟩ | ⟨heq, -⟩
  · rw [heq, observe_enqueue]
    exact ⟨h.enqueue p _ _ _, h.enqueue_kept p _ _ _⟩
  · rw [heq, observe_self]
    exact ⟨h, .refl _⟩

/-- A live point that is not handed to the backlog is not in it. -/
theorem next_not_mem_entries (h : Consistent cfg.backlog t) (p : FlushPayload) :
    (t.backlog.table.next, p) ∉ t.backlog.entries := fun hmem =>
  Nat.lt_irrefl _ (IdTable.lt_next (h.on_disk _ (List.of_mem_zip hmem).1))

/-- The point was kept, or there is a reason why it could not be. -/
def Settlement.KeptOrReasoned (r : Settlement) : Prop :=
  r.InBacklog ∨ (∃ n ∈ r.outcome.notices, n.storage = true) ∨
    ∃ rowid, r.item.backlogRowid = some rowid ∧ rowid ∈ r.evicted

/-- What one settlement owes. -/
structure Settlement.Fair (r : Settlement) : Prop where
  settled : r.Settled
  /-- a point whose write the database cut short is in the backlog, unless the backlog is disabled,
  busy or failing, or has evicted it -/
  kept : Blamed r.outcome.notices → r.KeptOrReasoned

/-- A point that was kept, as far as that was possible. -/
theorem Settlement.Fair.ofKept {r : Settlement} (hcommitted : r.outcome.committed = false)
    (h : r.KeptOrReasoned) : r.Fair where
  settled := by
    by_cases hin : r.InBacklog
    · exact .inr (.inl ⟨hcommitted, hin⟩)
    · refine .inr (.inr ⟨hcommitted, hin, ?_⟩)
      rcases h with h | ⟨n, hn, hstorage⟩ | h
      · exact absurd h hin
      · exact .inl ⟨n, hn, Notice.drops_of_storage hstorage⟩
      · exact .inr h
  kept := fun _ => h

/-- A point that is not in the backlog any more: it was written, or dropped for a reason. -/
theorem Settlement.Fair.ofGone {r : Settlement} (hin : ¬r.InBacklog)
    (hblame : ¬Blamed r.outcome.notices)
    (h : r.outcome.committed = true ∨
      r.outcome.committed = false ∧ ∃ n ∈ r.outcome.notices, n.drops = true) : r.Fair where
  settled := by
    rcases h with h | ⟨hcommitted, hreason⟩
    · exact .inl ⟨h, hin⟩
    · exact .inr (.inr ⟨hcommitted, hin, .inl hreason⟩)
  kept := fun hb => absurd hb hblame

/-- What the handler of the worker changes is the log alone. -/
theorem logSkipped_fields (f : Flushed) :
    (logSkipped f).backlog = f.backlog ∧ (logSkipped f).committed = f.committed ∧
      (logSkipped f).retainUnwritten = f.retainUnwritten ∧
        (∀ n ∈ f.notices, n ∈ (logSkipped f).notices) ∧
          (Blamed (logSkipped f).notices ↔ Blamed f.notices) := by
  unfold logSkipped
  split
  · exact ⟨rfl, rfl, rfl, fun _ hn => hn, Iff.rfl⟩
  · refine ⟨rfl, rfl, rfl, fun _ hn => List.mem_append_left _ hn, ?_⟩
    simp [Blamed]

/-- The rowid of the item in hand, if it is a replayed one. -/
def Worker.handRowid (w : Worker) : Option Nat := w.hand.bind fun dataIn => dataIn.bind (·.backlogRowid)

/-- The settlement of an item. -/
def settlement (host : Host) (cfg : FlushSettings) (w : Worker) (item : QueueItem) (a : Answers) : Settlement :=
  let f := flushOne host cfg w.trace.backlog w.schema w.registry (some item) a
  ⟨item, w.trace.backlog, f, (settledTrace cfg w.trace item f).evicted⟩

theorem evicted_settledTrace_replayed {rowid : Nat} (hrow : item.backlogRowid = some rowid)
    (f : Flushed) : (settledTrace cfg t item f).evicted = t.evicted := by
  rw [settledTrace, hrow]
  dsimp only
  split <;> rfl

/-- The settlement of a replayed point. -/
theorem fair_replayed (h : Consistent cfg.backlog t) {rowid : Nat}
    (hrow : item.backlogRowid = some rowid)
    (hmem : rowid ∈ t.backlog.backlogRowids ∨ rowid ∈ t.evicted)
    (ho : Outcome cfg t.backlog item a f) :
    (Settlement.mk item t.backlog (logSkipped (settle cfg f (some item) a))
      (settledTrace cfg t item (logSkipped (settle cfg f (some item) a))).evicted).Fair := by
  obtain ⟨hbacklog, hcommitted, -, hnotices, hblamed⟩ :=
    logSkipped_fields (settle cfg f (some item) a)
  have hsettle : settle cfg f (some item) a = { f with
      backlog := if f.retainUnwritten then f.backlog.release rowid
        else (f.backlog.ack rowid).1 } := by
    rw [settle]
    simp only [hrow]
  -- an acknowledged point has left memory
  have hgone : f.retainUnwritten = false → f.backlog = t.backlog →
      ¬(Settlement.mk item t.backlog (logSkipped (settle cfg f (some item) a))
        (settledTrace cfg t item (logSkipped (settle cfg f (some item) a))).evicted).InBacklog := by
    intro hretain hsame
    rw [Settlement.inBacklog_replayed hrow, hbacklog, hsettle, hretain, if_neg Bool.false_ne_true,
      hsame]
    exact not_mem_ack h.tidy rowid
  have hfirst : (settle cfg f (some item) a).committed = f.committed := by rw [hsettle]
  have hlog : (settle cfg f (some item) a).notices = f.notices := by rw [hsettle]
  cases ho with
  | written hc hretain hsame hblame =>
    refine .ofGone (hgone hretain hsame) ?_ (.inl ?_)
    · rw [hblamed, hlog]
      exact hblame
    · rw [hcommitted, hfirst]
      exact hc
  | retained hc hretain hsame =>
    refine .ofKept ?_ ?_
    · rw [hcommitted, hfirst]
      exact hc
    · rcases hmem with hmem | hmem
      · refine .inl ?_
        rw [Settlement.inBacklog_replayed hrow, hbacklog, hsettle, hretain, if_pos rfl, hsame]
        exact hmem
      · refine .inr (.inr ⟨rowid, hrow, ?_⟩)
        rw [evicted_settledTrace_replayed hrow]
        exact hmem
  | journalled _ hlive => simp [hlive] at hrow
  | dropped hc hretain hsame hblame hreason =>
    refine .ofGone (hgone hretain hsame) ?_ (.inr ⟨?_, ?_⟩)
    · rw [hblamed, hlog]
      exact hblame
    · rw [hcommitted, hfirst]
      exact hc
    · obtain ⟨n, hn, hdrops⟩ := hreason
      exact ⟨n, hnotices n (hlog ▸ hn), hdrops⟩

/-- The settlement of a live point. -/
theorem fair_live (h : Consistent cfg.backlog t) (hlive : item.backlogRowid = none)
    (ho : Outcome cfg t.backlog item a f) (evicted : List Nat) :
    (Settlement.mk item t.backlog (logSkipped (settle cfg f (some item) a)) evicted).Fair := by
  obtain ⟨hbacklog, hcommitted, -, hnotices, hblamed⟩ :=
    logSkipped_fields (settle cfg f (some item) a)
  have hsettle : settle cfg f (some item) a = if f.retainUnwritten then { f with
      backlog := (backlogLivePoint cfg f.backlog item.payload a).1
      notices := f.notices ++ (backlogLivePoint cfg f.backlog item.payload a).2 } else f := by
    rw [settle]
    simp only [hlive]
  cases ho with
  | written hc hretain hsame hblame =>
    rw [hretain, if_neg Bool.false_ne_true] at hsettle
    refine .ofGone ?_ ?_ (.inl ?_)
    · rw [Settlement.inBacklog_live hlive, hbacklog, hsettle, hsame]
      exact next_not_mem_entries h item.payload
    · rw [hblamed, hsettle]
      exact hblame
    · rw [hcommitted, hsettle]
      exact hc
  | retained hc hretain hsame =>
    rw [hretain, if_pos rfl, hsame] at hsettle
    refine .ofKept ?_ ?_
    · rw [hcommitted, hsettle]
      exact hc
    · rcases backlogLivePoint_stored h item.payload a with hstored | ⟨n, hn, hstorage⟩
      · refine .inl ?_
        rw [Settlement.inBacklog_live hlive, hbacklog, hsettle]
        exact hstored
      · refine .inr (.inl ⟨n, hnotices n ?_, hstorage⟩)
        rw [hsettle]
        exact List.mem_append_right _ hn
  | journalled notices _ hc hretain hlivepoint hsub =>
    rw [hretain, if_neg Bool.false_ne_true] at hsettle
    refine .ofKept ?_ ?_
    · rw [hcommitted, hsettle]
      exact hc
    · rcases backlogLivePoint_stored h item.payload a with hstored | ⟨n, hn, hstorage⟩
      · refine .inl ?_
        rw [hlivepoint] at hstored
        rw [Settlement.inBacklog_live hlive, hbacklog, hsettle]
        exact hstored
      · refine .inr (.inl ⟨n, hnotices n ?_, hstorage⟩)
        rw [hsettle]
        rw [hlivepoint] at hn
        exact hsub n hn
  | dropped hc hretain hsame hblame hreason =>
    rw [hretain, if_neg Bool.false_ne_true] at hsettle
    refine .ofGone ?_ ?_ (.inr ⟨?_, ?_⟩)
    · rw [Settlement.inBacklog_live hlive, hbacklog, hsettle, hsame]
      exact next_not_mem_entries h item.payload
    · rw [hblamed, hsettle]
      exact hblame
    · rw [hcommitted, hsettle]
      exact hc
    · obtain ⟨n, hn, hdrops⟩ := hreason
      refine ⟨n, hnotices n ?_, hdrops⟩
      rw [hsettle]
      exact hn

/-- The state in which an item's way begins. -/
def Worker.begun (w : Worker) : Flushed :=
  ⟨w.trace.backlog, w.schema, w.registry, false, false, [], .ok false⟩

/-- **Every item that is not cut short is settled.** -/
theorem settlement_fair (h : Consistent cfg.backlog w.trace)
    (hmem : ∀ rowid, item.backlogRowid = some rowid →
      rowid ∈ w.trace.backlog.backlogRowids ∨ rowid ∈ w.trace.evicted)
    (hu : Undisturbed host cfg w.schema w.registry item a) :
    (settlement host cfg w item a).Fair := by
  have hfresh : Fresh w.trace.backlog w.begun := ⟨rfl, rfl, rfl, rfl⟩
  have houtcome := flushOneInner_outcome hfresh rfl rfl hu
  cases hrow : item.backlogRowid with
  | some rowid => exact fair_replayed h hrow (hmem rowid hrow) houtcome
  | none => exact fair_live h hrow houtcome _

/-! ## The invariant -/

/-- The number of items taken off the queue and not marked done. -/
def Worker.inHand (w : Worker) : Nat := if w.hand.isSome then 1 else 0

/-- What every event keeps. -/
structure Sound (cfg : FlushSettings) (w : Worker) : Prop where
  handled : Handled cfg.backlog w.trace w.handRowid
  tasks : w.unfinishedTasks = w.trace.backlog.flushQueue.length + w.inHand
  fair : ∀ r ∈ w.history, r.Fair

namespace Sound

theorem start (h : w.Start cfg) : Sound cfg w where
  handled := by
    have hnone : w.handRowid = none := by simp [Worker.handRowid, h.hand]
    rw [hnone]
    exact .start (consistent_of_reach h.backlog) h.queue
  tasks := by simp [h.queue, h.unfinished, Worker.inHand, h.hand]
  fair := by simp [h.history]

theorem put (h : Sound cfg w) (p : Option FlushPayload) :
    Sound cfg { w with
      trace := w.trace.step cfg.backlog (.put p)
      unfinishedTasks := w.unfinishedTasks + 1 } where
  handled := h.handled.put p
  tasks := by
    have hlen : (w.trace.backlog.put p).flushQueue.length = w.trace.backlog.flushQueue.length + 1 := by
      simp [Backlog.put]
    simp only [Trace.step, hlen, h.tasks, Worker.inHand]
    omega
  fair := h.fair

theorem replay (h : Sound cfg w) :
    Sound cfg { w with
      trace := w.trace.step cfg.backlog .replayToQueue
      unfinishedTasks := w.unfinishedTasks + w.trace.backlog.replayToQueue.2 } where
  handled := h.handled.replay
  tasks := by
    have heq := replayToQueue_eq h.handled.consistent.rowids_nodup h.handled.consistent.length_eq
    simp only [Trace.step, heq, List.length_append, List.length_map, h.tasks, Worker.inHand]
    omega
  fair := h.fair

theorem commitAcks (h : Sound cfg w) (deleteFails : Bool) :
    Sound cfg { w with trace := w.trace.step cfg.backlog (.commitAcks deleteFails) } where
  handled := h.handled.commitAcks deleteFails
  tasks := by
    have htasks := h.tasks
    rw [← (commitAcks_fields w.trace.backlog deleteFails).1] at htasks
    exact htasks
  fair := h.fair

theorem take (h : Sound cfg w) (hhand : w.hand = none) {dataIn : Option QueueItem}
    {rest : List (Option QueueItem)} (hqueue : w.trace.backlog.flushQueue = dataIn :: rest) :
    Sound cfg { w with trace := w.trace.step cfg.backlog .take, hand := some dataIn } where
  handled := h.handled.clear.take hqueue
  tasks := by
    have htasks := h.tasks
    simp only [Worker.inHand, hhand, hqueue, List.length_cons] at htasks
    simp only [Trace.step, Backlog.take, hqueue, List.tail_cons, Worker.inHand]
    simpa using htasks
  fair := h.fair

/-- The shutdown takes an item off the queue in the worker's place. -/
theorem drop (h : Sound cfg w) {dataIn : Option QueueItem} {rest : List (Option QueueItem)}
    (hqueue : w.trace.backlog.flushQueue = dataIn :: rest) :
    Sound cfg { w with
      trace := w.trace.step cfg.backlog .take
      unfinishedTasks := w.unfinishedTasks - 1 } where
  handled := h.handled.drop
  tasks := by
    have htasks := h.tasks
    simp only [hqueue, List.length_cons] at htasks
    simp only [Trace.step, Backlog.take, hqueue, List.tail_cons, htasks, Worker.inHand]
    omega
  fair := h.fair

/-- A point was handed to the backlog. -/
theorem persist (h : Sound cfg w) (p : FlushPayload) (a : Answers) :
    Sound cfg { w with trace := observe w.trace p (backlogLivePoint cfg w.trace.backlog p a).1 } where
  handled :=
    let ⟨hconsistent, hkept⟩ := observe_backlogLivePoint h.handled.consistent p a
    h.handled.keep hconsistent hkept rfl
  tasks := by
    have htasks := h.tasks
    rw [← (observe_backlogLivePoint h.handled.consistent p a).2.queue] at htasks
    exact htasks
  fair := h.fair

/-- `task_done` for the item in hand, after its point was settled. -/
theorem finish (h : Sound cfg w) {dataIn : Option QueueItem} (hhand : w.hand = some dataIn)
    {t' : Trace} (hhandled : Handled cfg.backlog t' none)
    (hqueue : t'.backlog.flushQueue = w.trace.backlog.flushQueue)
    (schema : WideSchema) (registry : StaleRegistry) (running : Bool) {history : List Settlement}
    (hfair : ∀ r ∈ history, r.Fair) :
    Sound cfg ⟨t', schema, registry, none, running, w.unfinishedTasks - 1, history⟩ where
  handled := hhandled
  tasks := by
    have htasks := h.tasks
    simp only [Worker.inHand, hhand, Option.isSome_some, if_true] at htasks
    simp [Worker.inHand, htasks, hqueue]
  fair := hfair

end Sound

/-- What the backlog is after a live point: unchanged, or the point was handed to it. -/
theorem backlog_of_live (hlive : item.backlogRowid = none) (ho : Outcome cfg s item a f) :
    (logSkipped (settle cfg f (some item) a)).backlog = s ∨
      (logSkipped (settle cfg f (some item) a)).backlog =
        (backlogLivePoint cfg s item.payload a).1 := by
  rw [(logSkipped_fields _).1, settle]
  simp only [hlive]
  cases ho with
  | written _ hretain hsame =>
    rw [hretain, if_neg Bool.false_ne_true]
    exact .inl hsame
  | retained _ hretain hsame =>
    rw [hretain, if_pos rfl, hsame]
    exact .inr rfl
  | journalled notices _ _ hretain hpoint =>
    rw [hretain, if_neg Bool.false_ne_true, hpoint]
    exact .inr rfl
  | dropped _ hretain hsame =>
    rw [hretain, if_neg Bool.false_ne_true]
    exact .inl hsame

/-- **The item in hand is settled**: its point is released, acknowledged, handed to the backlog or
left alone. -/
theorem settledTrace_handled (h : Handled cfg.backlog w.trace item.backlogRowid)
    (hu : Undisturbed host cfg w.schema w.registry item a) :
    Handled cfg.backlog
      (settledTrace cfg w.trace item (settlement host cfg w item a).outcome) none ∧
    (settledTrace cfg w.trace item (settlement host cfg w item a).outcome).backlog.flushQueue =
      w.trace.backlog.flushQueue := by
  have hfresh : Fresh w.trace.backlog w.begun := ⟨rfl, rfl, rfl, rfl⟩
  have houtcome := flushOneInner_outcome hfresh rfl rfl hu
  set f := (settlement host cfg w item a).outcome with hf
  cases hrow : item.backlogRowid with
  | some rowid =>
    simp only [settledTrace, hrow]
    cases f.retainUnwritten with
    | true => exact ⟨h.release hrow, rfl⟩
    | false => exact ⟨h.ack hrow, flushQueue_ack _ _⟩
  | none =>
    simp only [settledTrace, hrow]
    rcases backlog_of_live hrow houtcome with hsame | hpoint
    · have hsame : f.backlog = w.trace.backlog := hsame
      rw [hsame, observe_self]
      exact ⟨h.clear, rfl⟩
    · have hpoint : f.backlog = (backlogLivePoint cfg w.trace.backlog item.payload a).1 := hpoint
      obtain ⟨hconsistent, hkept⟩ := observe_backlogLivePoint h.consistent item.payload a
      rw [hpoint]
      exact ⟨h.clear.keep hconsistent hkept rfl, hkept.queue⟩

namespace Sound

/-- **The worker brings an item to its end.** -/
theorem process (h : Sound cfg w) (hhand : w.hand = some (some item))
    (hu : Undisturbed host cfg w.schema w.registry item a) {w' : Worker}
    (hstep : w.step host cfg (.process a) = some w') : Sound cfg w' := by
  have hrowid : w.handRowid = item.backlogRowid := by simp [Worker.handRowid, hhand]
  have hhandled : Handled cfg.backlog w.trace item.backlogRowid := hrowid ▸ h.handled
  have hfair : ∀ r ∈ settlement host cfg w item a :: w.history, r.Fair := by
    intro r hr
    rcases List.mem_cons.mp hr with rfl | hr
    · exact settlement_fair hhandled.consistent
        (fun rowid hrow => hhandled.kept rowid (.inr hrow)) hu
    · exact h.fair r hr
  simp only [Worker.step, hhand, Option.some.injEq] at hstep
  subst hstep
  obtain ⟨hsettled, hqueue⟩ := settledTrace_handled hhandled hu
  exact h.finish hhand hsettled hqueue _ _ _ hfair

/-- **Every calm event keeps the worker sound.** -/
theorem step (h : Sound cfg w) {e : Event} (hcalm : Calm host cfg w e) {w' : Worker}
    (hstep : w.step host cfg e = some w') : Sound cfg w' := by
  cases e with
  | put p =>
    obtain rfl := Option.some.inj hstep
    exact h.put p
  | replay =>
    obtain rfl := Option.some.inj hstep
    exact h.replay
  | commitAcks deleteFails =>
    obtain rfl := Option.some.inj hstep
    exact h.commitAcks deleteFails
  | take =>
    simp only [Worker.step] at hstep
    split at hstep
    · next dataIn rest hhand _ hqueue =>
      obtain rfl := Option.some.inj hstep
      exact h.take hhand hqueue
    · cases hstep
  | process a =>
    cases hhand : w.hand with
    | none => simp [Worker.step, hhand] at hstep
    | some dataIn =>
      cases dataIn with
      | none =>
        simp only [Worker.step, hhand, Option.some.injEq] at hstep
        subst hstep
        exact h.finish hhand h.handled.clear rfl _ _ _ h.fair
      | some item => exact h.process hhand (hcalm item hhand) hstep
  | setSchema schema =>
    obtain rfl := Option.some.inj hstep
    exact { h with }
  | setRegistry registry =>
    obtain rfl := Option.some.inj hstep
    exact { h with }
  | persist a =>
    simp only [Worker.step] at hstep
    split at hstep
    · cases hstep
    · next dataIn rest hqueue =>
      obtain rfl := Option.some.inj hstep
      have hdrop := h.drop hqueue
      split
      · exact hdrop.persist _ a
      · exact hdrop

end Sound

/-! ## The theorem -/

/-- A point that leaves the backlog was evicted, or its item was just settled as written or as
dropped for a reason. -/
def Leaves (w w' : Worker) : Prop :=
  ∀ rowid ∈ w.trace.backlog.backlogRowids, rowid ∈ w'.trace.backlog.backlogRowids ∨
    rowid ∈ w'.trace.evicted ∨
      ∃ r, w'.history = r :: w.history ∧ r.item.backlogRowid = some rowid ∧
        (r.outcome.committed = true ∨ ∃ n ∈ r.outcome.notices, n.drops = true)

variable (host cfg) in
/-- **Every item is accounted for.** -/
structure Accounted (w : Worker) : Prop where
  /-- each item is written, in the backlog, or dropped for a reason, and exactly one of these; one
  whose write the database cut short was kept as far as that was possible -/
  fair : ∀ r ∈ w.history, r.Fair
  /-- `task_done` is called once per item: what is unfinished is what is queued or in hand -/
  tasks : w.unfinishedTasks = w.trace.backlog.flushQueue.length + w.inHand
  /-- a point leaves the backlog only for such a reason -/
  leaves : ∀ e w', Calm host cfg w e → w.step host cfg e = some w' → Leaves w w'

/-- A settlement that does not keep a replayed point wrote it or has a reason. -/
theorem reason_of_not_retained {rowid : Nat} (hrow : item.backlogRowid = some rowid)
    (ho : Outcome cfg s item a f)
    (hretain : (logSkipped (settle cfg f (some item) a)).retainUnwritten = false) :
    (logSkipped (settle cfg f (some item) a)).committed = true ∨
      ∃ n ∈ (logSkipped (settle cfg f (some item) a)).notices, n.drops = true := by
  obtain ⟨-, hcommitted, hretained, hnotices, -⟩ := logSkipped_fields (settle cfg f (some item) a)
  have hsettle : settle cfg f (some item) a = { f with
      backlog := if f.retainUnwritten then f.backlog.release rowid
        else (f.backlog.ack rowid).1 } := by
    rw [settle]
    simp only [hrow]
  rw [hretained] at hretain
  rw [hcommitted]
  rw [hsettle] at hretain hnotices ⊢
  cases ho with
  | written hc => exact .inl hc
  | retained _ hkept => simp [hkept] at hretain
  | journalled _ hlive => simp [hlive] at hrow
  | dropped _ _ _ _ hreason =>
    obtain ⟨n, hn, hdrops⟩ := hreason
    exact .inr ⟨n, hnotices n hn, hdrops⟩

theorem Sound.leaves (h : Sound cfg w) {e : Event} (hcalm : Calm host cfg w e) {w' : Worker}
    (hstep : w.step host cfg e = some w') : Leaves w w' := by
  have hkeep : ∀ {t t' : Trace} (p : FlushPayload) (a : Answers), Consistent cfg.backlog t →
      t' = observe t p (backlogLivePoint cfg t.backlog p a).1 →
      ∀ rowid ∈ t.backlog.backlogRowids,
        rowid ∈ t'.backlog.backlogRowids ∨ rowid ∈ t'.evicted := by
    rintro t t' p a hconsistent rfl rowid hmem
    have hkept := (observe_backlogLivePoint hconsistent p a).2
    exact (hkept.stays rowid hmem).imp_right fun hr => List.mem_append_right _ hr
  intro rowid hmem
  cases e with
  | put p =>
    obtain rfl := Option.some.inj hstep
    exact .inl hmem
  | replay =>
    obtain rfl := Option.some.inj hstep
    refine .inl ?_
    simp only [Trace.step]
    rw [replayToQueue_eq h.handled.consistent.rowids_nodup h.handled.consistent.length_eq]
    exact hmem
  | commitAcks deleteFails =>
    obtain rfl := Option.some.inj hstep
    refine .inl ?_
    simp only [Trace.step, Backlog.commitAcks]
    split
    · exact hmem
    · split <;> exact hmem
  | take =>
    simp only [Worker.step] at hstep
    split at hstep
    · obtain rfl := Option.some.inj hstep
      exact .inl hmem
    · cases hstep
  | process a =>
    cases hhand : w.hand with
    | none => simp [Worker.step, hhand] at hstep
    | some dataIn =>
      cases dataIn with
      | none =>
        simp only [Worker.step, hhand, Option.some.injEq] at hstep
        subst hstep
        exact .inl hmem
      | some item =>
        have hu := hcalm item hhand
        have hfresh : Fresh w.trace.backlog w.begun := ⟨rfl, rfl, rfl, rfl⟩
        have houtcome := flushOneInner_outcome hfresh rfl rfl hu
        simp only [Worker.step, hhand, Option.some.injEq] at hstep
        subst hstep
        set f := flushOne host cfg w.trace.backlog w.schema w.registry (some item) a with hf
        cases hrow : item.backlogRowid with
        | some r =>
          cases hretain : f.retainUnwritten with
          | true =>
            refine .inl ?_
            simp only [settledTrace, hrow, hretain, if_true]
            exact hmem
          | false =>
            by_cases heq : rowid = r
            · exact .inr (.inr ⟨_, rfl, heq ▸ hrow, reason_of_not_retained hrow houtcome hretain⟩)
            · refine .inl ?_
              simp only [settledTrace, hrow, hretain, Bool.false_eq_true, if_false, Trace.step]
              exact mem_ack_of_ne hmem heq
        | none =>
          simp only [settledTrace, hrow]
          rcases backlog_of_live hrow houtcome with hsame | hpoint
          · have hsame : f.backlog = w.trace.backlog := hsame
            rw [hsame, observe_self]
            exact .inl hmem
          · have hpoint : f.backlog = (backlogLivePoint cfg w.trace.backlog item.payload a).1 := hpoint
            rw [hpoint]
            exact (hkeep item.payload a h.handled.consistent rfl rowid hmem).imp_right .inl
  | setSchema schema =>
    obtain rfl := Option.some.inj hstep
    exact .inl hmem
  | setRegistry registry =>
    obtain rfl := Option.some.inj hstep
    exact .inl hmem
  | persist a =>
    simp only [Worker.step] at hstep
    split at hstep
    · cases hstep
    · next dataIn rest hqueue =>
      obtain rfl := Option.some.inj hstep
      dsimp only
      split
      · exact (hkeep _ a h.handled.consistent.take rfl rowid hmem).imp_right .inl
      · exact .inl hmem

/-- **In every run in which no item is cut short, every item is accounted for.** -/
theorem accounted_of_reach (h : Reach (system host cfg) (Calm host cfg) w) :
    Accounted host cfg w := by
  have hsound : Sound cfg w := by
    refine h.invariant (P := Sound cfg) ?_ ?_
    · exact fun _ => Sound.start
    · exact fun _ _ _ _ hw hcalm hstep => hw.step hcalm hstep
  exact ⟨hsound.fair, hsound.tasks, fun _ _ hcalm hstep => hsound.leaves hcalm hstep⟩

/-! ## Two runs -/

/-- The settings of the runs below. -/
def sampleSettings : FlushSettings := ⟨oneSlot, true, 1800⟩

/-- A database that answers, and a bridge that is connected. -/
def allWell : Answers :=
  { reflect := none, reflectedColumns := none, stopRequested := false, tsdbConnected := true
    reconnectThreadRunning := false, begin := none, insertNarrow := none, insertWide := none
    commit := none, connectedAfter := true, busy := false, deleteFails := false
    insertFails := false }

/-- A worker before its first item, with one wide table whose columns are not known. -/
def idle : Worker :=
  ⟨Trace.start, ⟨[], ["device_metrics_wide__eg4_18kpv"], []⟩, [], none, true, 0, []⟩

theorem idle_start : idle.Start sampleSettings := ⟨.init rfl, rfl, rfl, rfl, rfl⟩

/-- A point of a protocol with a narrow table only is in the worker's hand. -/
def narrowInHand : Worker :=
  { idle with
    trace := (idle.trace.step oneSlot (.put (some samplePoint))).step oneSlot .take
    hand := some (some ⟨samplePoint, none⟩)
    unfinishedTasks := 1 }

theorem reach_narrowInHand :
    Reach (system default sampleSettings) (Calm default sampleSettings)
      narrowInHand := by
  have hstart : Reach (system default sampleSettings) (Calm default sampleSettings)
      idle := .init idle_start
  have hput := hstart.step (i := Event.put (some samplePoint)) trivial rfl
  exact hput.step (i := Event.take) trivial rfl

theorem undisturbed_narrowInHand : Undisturbed default sampleSettings
    narrowInHand.schema narrowInHand.registry ⟨samplePoint, none⟩ allWell where
  compares := fun _ => ⟨false, rfl⟩
  reflects := fun _ h => by cases h
  present := fun _ _ h => by cases h
  fits := fun _ => ⟨_, rfl⟩
  caught := fun _ e he => by simp [allWell] at he

theorem accounted_written : ∃ w', narrowInHand.step default sampleSettings
    (.process allWell) = some w' ∧ Accounted default sampleSettings w' :=
  ⟨_, rfl, accounted_of_reach (reach_narrowInHand.step (i := Event.process allWell)
    (fun item hitem => by
      obtain rfl := Option.some.inj (Option.some.inj hitem)
      exact undisturbed_narrowInHand) rfl)⟩

/-- The same point for a wide table. -/
def widePoint : FlushPayload :=
  { samplePoint with wideTableName := some "device_metrics_wide__eg4_18kpv" }

/-- The connection is gone when the wide table is to be reflected. -/
def gone : Answers := { allWell with reflect := some (.dbapi false none true) }

/-- The point is in the worker's hand. -/
def wideInHand : Worker :=
  { idle with
    trace := (idle.trace.step oneSlot (.put (some widePoint))).step oneSlot .take
    hand := some (some ⟨widePoint, none⟩)
    unfinishedTasks := 1 }

theorem notices_gone : (settlement default sampleSettings wideInHand ⟨widePoint, none⟩
    gone).outcome.notices = [.itemSkipped] := by
  decide

/-- **A point whose validation meets a lost connection is lost.** -/
theorem not_accounted_gone :
    ¬∀ host cfg w, Reachable (system host cfg) w →
      Accounted host cfg w := by
  intro hall
  have hstart : Reachable (system default sampleSettings) idle := .init idle_start
  have hput := hstart.step (i := Event.put (some widePoint)) trivial rfl
  have hhand : Reachable (system default sampleSettings) wideInHand :=
    hput.step (i := Event.take) trivial rfl
  have hdone := hhand.step (i := Event.process gone) trivial rfl
  have hfair := (hall _ _ _ hdone).fair
    (settlement default sampleSettings wideInHand ⟨widePoint, none⟩ gone)
    List.mem_cons_self
  rcases hfair.settled with ⟨hcommitted, -⟩ | ⟨-, hin⟩ | ⟨-, -, ⟨n, hn, hdrops⟩ | ⟨rowid, hrow, -⟩⟩
  · exact absurd hcommitted (by decide)
  · exact absurd hin List.not_mem_nil
  · rw [notices_gone, List.mem_singleton] at hn
    rw [hn] at hdrops
    cases hdrops
  · cases hrow

end Flush

end ProtocolGateway
