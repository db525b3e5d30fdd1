import Mathlib.Data.List.Basic
import ProtocolGateway.Lib.Runs

/-!
# Points on their way to InfluxDB

The bridges `influxdb_out` and `influxdb3_out` move each point from the write batch to the server,
or through the backlog. Their methods run on any number of threads; `Pc` says where a thread stands,
between any two accesses to what the threads share. A point is its arrival number.

The two bridges differ in one step: version 3 converts the points before it writes them, and the
conversion can raise. `_flush_batch` converts outside its guarded block, `_flush_backlog` and
`_write_pending_on_close` inside theirs.

* `After.resume`, `Next.resume` — where a method goes on when the one it called returns.
* `Bridge.step` — the next access of a thread.
* `Orderly`, `Conserved` — the condition of the runs, and what they keep.

The stamp `_backlog_time` is read when the backlog is loaded, and is part of the file only.
-/

namespace ProtocolGateway

namespace InfluxOut

open Runs

/-- The client library of a bridge. -/
inductive Version
  | v1
  | v3
  deriving DecidableEq, Repr

/-- The settings. -/
structure Settings where
  version : Version
  enablePersistentStorage : Bool
  maxBacklogSize : Int
  /-- seconds -/
  maxBacklogAge : Int

/-! ## Threads -/

/-- On whose behalf the connection is checked. -/
inductive After
  /-- `write_data`, before it has a point -/
  | route
  /-- `_flush_batch`, with the points of the batch -/
  | write (points : List Nat)
  /-- `_flush_batch` after its write failed -/
  | rewrite (points : List Nat)
  /-- nobody: `connect`, `trigger_periodic_reconnect` -/
  | manual

/-- What follows when points were added to the backlog. -/
inductive Next
  /-- the point of `write_data`, after the points of the batch -/
  | store (point : Nat)
  | finish
  /-- `self.connected = False` -/
  | disconnect
  /-- the rest of `close` -/
  | close

/-- Where a thread stands. -/
inductive Pc
  | idle
  /-- in `_check_connection` -/
  | checking (k : After)
  /-- in `_attempt_reconnect` or `connect` -/
  | reconnecting (k : After)
  /-- before `_flush_backlog` -/
  | entering (k : After)
  /-- it has `points_to_send` -/
  | sending (k : After) (points : List Nat)
  /-- … written, before `self.backlog_points = []` -/
  | removing (k : After) (points : List Nat)
  /-- `_process_and_write_data` -/
  | accepting
  /-- before `_flush_batch` takes the batch -/
  | flushing
  /-- before the write of the batch -/
  | writing (points : List Nat)
  /-- before the second write, after a reconnect -/
  | rewriting (points : List Nat)
  /-- `_process_and_store_data` -/
  | offline
  /-- before it takes the batch -/
  | draining (point : Nat)
  /-- before `_add_points_to_backlog` -/
  | appending (points : List Nat) (next : Next)
  /-- the points are in the backlog, before its overflow is computed -/
  | measuring (next : Next)
  /-- … and before the overflow is deleted -/
  | trimming (overflow : Nat) (next : Next)
  | disconnecting
  /-- `close`, before it takes the batch -/
  | closing
  /-- … and before it writes it -/
  | closeWriting (points : List Nat)
  /-- … and before the client is dropped -/
  | closed

/-- The points in the hand of the method that is called back. -/
def After.points : After → List Nat
  | write points | rewrite points => points
  | route | manual => []

/-- `_check_connection` or `_attempt_reconnect` returns. -/
def After.resume : After → Bool → Pc
  | route, true => .accepting
  | route, false => .offline
  | write points, true => .writing points
  | write points, false => .appending points .finish
  | rewrite points, true => .rewriting points
  | rewrite points, false => .appending points .disconnect
  | manual, _ => .idle

def Next.points : Next → List Nat
  | store point => [point]
  | finish | disconnect | close => []

/-- `_add_points_to_backlog` returns. -/
def Next.resume : Next → Pc
  | store point => .appending [point] .finish
  | finish => .idle
  | disconnect => .disconnecting
  | close => .closed

/-- The points in a thread's hand. -/
def Pc.hand : Pc → List Nat
  | checking k | reconnecting k | entering k | sending k _ | removing k _ => k.points
  | writing points | rewriting points | closeWriting points => points
  | draining point => [point]
  | appending points next => points ++ next.points
  | measuring next | trimming _ next => next.points
  | idle | accepting | flushing | offline | disconnecting | closing | closed => []

/-- The points of the backlog that a thread has written and not removed from it yet. -/
def Pc.removes : Pc → List Nat
  | removing _ points => points
  | _ => []

/-- The thread is at work on the backlog. -/
def Pc.inBacklog : Pc → Bool
  | sending _ _ | removing _ _ | measuring _ | trimming _ _ => true
  | _ => false

/-! ## The bridge -/

/-- A bridge with its threads, and the history of its points. -/
structure Bridge where
  connected : Bool
  /-- `self.client is not None` -/
  client : Bool
  /-- `_closed` -/
  isClosed : Bool
  batch : List Nat
  backlog : List Nat
  threads : List Pc
  /-- the arrival number of the next point -/
  next : Nat
  /-- the points that arrived -/
  accepted : List Nat
  /-- the points the server stored, as often as it did -/
  written : List Nat
  /-- the points dropped by the size limit, the age limit or disabled storage -/
  dropped : List Nat
  /-- the points of each backlog flush, as they were sent -/
  flushes : List (List Nat)

/-- What a thread does next, and what it meets. -/
inductive Action
  /-- the four methods others call -/
  | writeData
  | triggerPeriodicReconnect
  | connect
  | close
  /-- `_check_connection` returns, or goes to `_attempt_reconnect` -/
  | returns (connected : Bool)
  | reconnects
  /-- an attempt succeeds, or all fail, which may leave a client that was made -/
  | reached
  | unreachable (madeClient : Bool)
  /-- an exception that nobody handles here -/
  | raises
  /-- the conversion of the points raises -/
  | unconverted
  /-- the client writes: what the server stores, and whether the call returns -/
  | write (stored : List Nat) (returned : Bool)
  /-- a step that meets nothing; for a point that arrives, whether the batch is due -/
  | advance (due : Bool)

namespace Bridge

variable (cfg : Settings)

/-- The thread goes to `pc`. -/
def goto (s : Bridge) (i : Nat) (pc : Pc) : Bridge := { s with threads := s.threads.set i pc }

/-- A new point. -/
def accept (s : Bridge) : Bridge := { s with next := s.next + 1, accepted := s.accepted ++ [s.next] }

/-- The next access of the thread `i`, which stands at a `Pc`. -/
def act (s : Bridge) (i : Nat) : Pc → Action → Option Bridge
  | .idle, .writeData => some (s.goto i (.checking .route))
  | .idle, .triggerPeriodicReconnect => some (s.goto i (.checking .manual))
  | .idle, .connect => some ({ s with isClosed := false }.goto i (.reconnecting .manual))
  | .idle, .close => if s.isClosed then none else some ({ s with isClosed := true }.goto i .closing)
  | .checking k, .returns connected => some (s.goto i (k.resume connected))
  | .checking k, .reconnects => some (s.goto i (.reconnecting k))
  | .checking _, .raises => some (s.goto i .idle)
  | .reconnecting k, .reached =>
    some ({ s with connected := true, client := true }.goto i
      (if cfg.enablePersistentStorage then .entering k else k.resume true))
  | .reconnecting k, .unreachable madeClient =>
    some ({ s with connected := false, client := s.client || madeClient }.goto i (k.resume false))
  | .reconnecting _, .raises => some (s.goto i .idle)
  | .entering k, .advance _ =>
    if s.backlog.isEmpty || !s.connected then some (s.goto i (k.resume true))
    else some ({ s with flushes := s.flushes ++ [s.backlog] }.goto i (.sending k s.backlog))
  | .sending k _, .unconverted =>
    -- inside the guarded block
    if cfg.version = .v3 then some (s.goto i (k.resume true)) else none
  | .sending k points, .write stored returned =>
    if s.client && stored.isSublist points then
      some ({ s with written := s.written ++ stored }.goto i
        (if returned then .removing k points else k.resume true))
    else none
  | .sending k _, .advance _ => if s.client then none else some (s.goto i (k.resume true))
  | .removing k _, .advance _ => some ({ s with backlog := [] }.goto i (k.resume true))
  | .accepting, .advance due =>
    some ({ s.accept with batch := s.batch ++ [s.next] }.goto i (if due then .flushing else .idle))
  | .accepting, .raises => some (s.goto i .idle)
  | .flushing, .advance _ =>
    if s.batch.isEmpty then some (s.goto i .idle)
    else some ({ s with batch := [] }.goto i (.checking (.write s.batch)))
  | .writing _, .unconverted =>
    -- outside the guarded block: nobody has the points any more
    if cfg.version = .v3 then some (s.goto i .idle) else none
  | .writing points, .write stored returned =>
    if s.client && stored.isSublist points then
      some ({ s with written := s.written ++ stored }.goto i
        (if returned then .idle else .reconnecting (.rewrite points)))
    else none
  | .writing _, .advance _ => if s.client then none else some (s.goto i .idle)
  | .rewriting points, .write stored returned =>
    if s.client && stored.isSublist points then
      some ({ s with written := s.written ++ stored }.goto i
        (if returned then .idle else .appending points .disconnect))
    else none
  | .rewriting _, .advance _ => if s.client then none else some (s.goto i .idle)
  | .offline, .advance _ =>
    if cfg.enablePersistentStorage then some (s.accept.goto i (.draining s.next))
    else some ({ s.accept with dropped := s.dropped ++ [s.next] }.goto i .idle)
  | .offline, .raises => some (s.goto i .idle)
  | .draining point, .advance _ =>
    some ({ s with batch := [] }.goto i (.appending s.batch (.store point)))
  | .appending points next, .advance _ =>
    if points.isEmpty then some (s.goto i next.resume)
    else if !cfg.enablePersistentStorage then
      some ({ s with dropped := s.dropped ++ points }.goto i next.resume)
    else some ({ s with backlog := s.backlog ++ points }.goto i (.measuring next))
  | .measuring next, .advance _ =>
    some (s.goto i (.trimming (s.backlog.length - cfg.maxBacklogSize).toNat next))
  | .trimming overflow next, .advance _ =>
    some ({ s with
      backlog := s.backlog.drop overflow
      dropped := s.dropped ++ s.backlog.take overflow }.goto i next.resume)
  | .disconnecting, .advance _ => some ({ s with connected := false }.goto i .idle)
  | .closing, .advance _ =>
    some ({ s with batch := [] }.goto i
      (if s.batch.isEmpty then .closed else .closeWriting s.batch))
  | .closeWriting points, .unconverted =>
    if cfg.version = .v3 then some (s.goto i (.appending points .close)) else none
  | .closeWriting points, .write stored returned =>
    if stored.isSublist points then
      some ({ s with written := s.written ++ stored }.goto i
        (if returned then .closed else .appending points .close))
    else none
  | .closeWriting points, .advance _ =>
    if s.connected && s.client then none else some (s.goto i (.appending points .close))
  | .closed, .advance _ => some ({ s with client := false, connected := false }.goto i .idle)
  | _, _ => none

/-- One access of one thread, where it is possible. -/
def step (s : Bridge) (e : Nat × Action) : Option Bridge :=
  match s.threads[e.1]? with
  | some pc => s.act cfg e.1 pc e.2
  | none => none

end Bridge

/-! ## Runs -/

/-- `_load_backlog`: the points of the file, each with its stamp, that are not too old. -/
def loadBacklog (cfg : Settings) (now : Int) (file : List (Nat × Int)) : List Nat :=
  (file.filter fun p => now - p.2 < cfg.maxBacklogAge).map Prod.fst

/-- A bridge that starts, with a file whose points are listed as they arrived. -/
structure Bridge.Starting (cfg : Settings) (s : Bridge) : Prop where
  loaded : ∃ now file, (file.map Prod.fst).Pairwise (· < ·) ∧ (∀ p ∈ file, p.1 < s.next) ∧
    s.accepted = file.map Prod.fst ∧ s.backlog = loadBacklog cfg now file ∧
      s.dropped = (file.filter fun p => ¬now - p.2 < cfg.maxBacklogAge).map Prod.fst
  batch : s.batch = []
  idle : ∀ pc ∈ s.threads, pc = .idle
  written : s.written = []
  flushes : s.flushes = []

/-- The runs of a bridge, with any number of threads. -/
def system (cfg : Settings) : System Bridge (Nat × Action) where
  init := Bridge.Starting cfg
  step s e s' := s.step cfg e = some s'

/-- No thread is at work on the backlog. -/
def Bridge.Free (s : Bridge) : Prop := ∀ pc ∈ s.threads, pc.inBacklog = false

/-- What the runs below are assumed to keep to, for a thread at a `Pc`. A write stores all its points
or raises and stores none; no exception and no missing client takes away points in hand; and a
thread begins to work on the backlog when no other does, with points younger than those in it. -/
def Undisturbed (s : Bridge) : Pc → Action → Prop
  | .checking k, .raises | .reconnecting k, .raises => k.points = []
  | .writing _, .unconverted => False
  | .writing _, .advance _ | .rewriting _, .advance _ => False
  | .sending _ points, .write stored returned | .writing points, .write stored returned
  | .rewriting points, .write stored returned | .closeWriting points, .write stored returned =>
    stored = if returned then points else []
  | .entering _, .advance _ => s.Free
  | .appending points _, .advance _ =>
    points ≠ [] → s.Free ∧ ∀ q ∈ s.backlog, ∀ p ∈ points, q < p
  | _, _ => True

/-- Every step is undisturbed. -/
def Orderly (s : Bridge) (e : Nat × Action) : Prop :=
  ∀ pc, s.threads[e.1]? = some pc → Undisturbed s pc e.2

/-- The points in the hands of the threads. -/
def Bridge.inHand (s : Bridge) : List Nat := s.threads.flatMap Pc.hand

/-- The points a backlog flush has written and is about to remove. -/
def Bridge.removing (s : Bridge) : List Nat := s.threads.flatMap Pc.removes

/-- **Every point is in one place.** -/
structure Conserved (s : Bridge) : Prop where
  /-- no point arrives twice … -/
  accepted_nodup : s.accepted.Nodup
  /-- … and each is in the batch, in hand, in the backlog and not written from there, written, or
  dropped, once in one of these -/
  conserved : s.accepted.Perm (s.batch ++ s.inHand ++ s.backlog.filter (· ∉ s.removing) ++
    s.written ++ s.dropped)
  /-- a backlog flush sends points in the order they arrived -/
  in_order : ∀ points ∈ s.flushes, points.Pairwise (· < ·)

end InfluxOut

end ProtocolGateway
