import ProtocolGateway.Lib.Runs
import ProtocolGateway.Endpoint

/-!
# Stopping a gateway

`Protocol_Gateway.stop()` clears `__running`, waits until `run()` has set the stopped event, and
cleans every transport up. `run()` sets the event in its `finally` block, after it has shut the
thread pools down with `wait=False`: tasks that wait in a pool are cancelled, tasks that a worker
is executing go on.

The gateway is a state machine over the steps of its threads: the `run()` loop, the pool workers
and the thread that calls `stop()`. A thread works off a list of operations: it takes and leaves
transport locks, connects, sends device requests and hands data to bridges. What a tick reads and
writes, and how long anything takes, is left open.

`quiesced_iff_of_guarded` says when a `stop()` that returns `True` keeps its promise, for runs in
which no worker is executing when the pools are shut down: exactly when the keys of the client cache
are port identifiers, `KeysMatch`. With Modbus transports they never are (`keysMatch_iff`).
-/

namespace ProtocolGateway

namespace Shutdown

/-! ## Threads -/

/-- `__read_mode`. -/
inductive ReadMode
  | sequential
  | concurrent
  | interleaved
  deriving DecidableEq, Repr

/-- What a thread of the gateway does to a transport, given by its index, or to a bridge. -/
inductive Op
  /-- takes `_transport_lock` -/
  | lock (i : Nat)
  /-- leaves `_transport_lock` -/
  | unlock (i : Nat)
  /-- `connect()`: closes and opens the client -/
  | connect (i : Nat)
  /-- a device request -/
  | request (i : Nat)
  /-- `write_data` of a bridge -/
  | deliver (i : Nat)
  deriving DecidableEq, Repr

/-- What the `run()` loop does in a tick: an operation of its own, or the submission of a task. -/
inductive LoopOp
  | op (o : Op)
  | submit (task : List Op)
  deriving DecidableEq, Repr

/-- A thread in the middle of its work. -/
structure Thread (α : Type) where
  /-- the first operation is a device request that has been sent and not answered -/
  inFlight : Bool
  ops : List α
  deriving DecidableEq, Repr

/-- The work a tick may bring in each mode: sequential ticks read and route on the loop's own
thread, concurrent ticks submit whole group reads, interleaved ticks route finished reads and
submit reads that deliver nothing themselves. -/
def Allowed : ReadMode → List LoopOp → Prop
  | .sequential, ops => ∀ o ∈ ops, ∃ p, o = .op p
  | .concurrent, ops => ∀ o ∈ ops, ∃ task, o = .submit task
  | .interleaved, ops =>
    ∀ o ∈ ops, (∃ i, o = .op (.deliver i)) ∨ ∃ task, o = .submit task ∧ ∀ i, .deliver i ∉ task

/-- Where `run()` is. -/
inductive Loop
  | notStarted
  /-- `__running` is set, the stopped event is not cleared yet -/
  | entered
  /-- in the loop; at its head when there is nothing left to do -/
  | looping (thread : Thread LoopOp)
  /-- in the `finally` block, the pools shut down -/
  | closing
  | finished
  deriving DecidableEq, Repr

/-- Where `stop()` is. -/
inductive Stop
  | notCalled
  /-- waits for the stopped event -/
  | waiting
  /-- has cleaned up the transports before the given index -/
  | cleaning (i : Nat)
  | returned (ok : Bool)
  deriving DecidableEq, Repr

/-! ## The gateway -/

/-- What a gateway is built from. -/
structure Config where
  readMode : ReadMode
  transports : List Endpoint

/-- The state of a gateway and of the client cache. A client is named by its cache key. -/
structure State where
  loop : Loop
  running : Bool
  stoppedEvent : Bool
  /-- tasks waiting in the pool -/
  queue : List (List Op)
  /-- tasks a pool worker is executing -/
  workers : List (Thread Op)
  /-- the transports whose `_transport_lock` a thread of the gateway holds -/
  locked : List Nat
  stop : Stop
  /-- the keys of `modbus_base.clients` -/
  clients : List String
  /-- the closed clients -/
  closed : List String
  /-- history: a device request or a connect after `stop()` returned `True` -/
  lateRequest : Bool
  /-- history: data handed to a bridge after `stop()` returned `True` -/
  lateDelivery : Bool
  deriving DecidableEq

variable (cfg : Config)

/-- The cache key of a transport's client. -/
def clientKey (i : Nat) : Option String := (cfg.transports[i]?).bind Endpoint.clientStr

/-- `stop()` has returned `True`. -/
def State.stopped (s : State) : Bool := s.stop = .returned true

/-- The effect of an operation on what the threads share. -/
def perform (o : Op) (s : State) : State :=
  match o with
  | .lock i => { s with locked := i :: s.locked }
  | .unlock i => { s with locked := s.locked.erase i }
  | .connect i =>
    { s with
      closed := s.closed.filter fun key => clientKey cfg i ≠ some key
      lateRequest := s.lateRequest || s.stopped }
  | .request _ => { s with lateRequest := s.lateRequest || s.stopped }
  | .deliver _ => { s with lateDelivery := s.lateDelivery || s.stopped }

/-- An operation a thread can start: a lock has to be free. -/
def Ready (s : State) : Op → Prop
  | .lock i => i ∉ s.locked
  | _ => True

/-- `modbus_base.cleanup` closes the client and evicts it, if the port identifier is a key of the
cache; the cleanup of other transports does not touch the cache. -/
def cleanup (i : Nat) (s : State) : State :=
  match cfg.transports[i]? with
  | none | some (.other _) => s
  | some e =>
    if e.portIdentifier ∈ s.clients then
      { s with
        closed := e.portIdentifier :: s.closed
        clients := s.clients.filter fun key => key ≠ e.portIdentifier }
    else s

/-- The steps of the threads. -/
inductive Label
  | enterRun
  | clearEvent
  | tick (ops : List LoopOp)
  | loopBegin
  | loopEnd
  | loopSubmit
  | loopExit
  | setEvent
  | workerStart
  | workerBegin (k : Nat)
  | workerEnd (k : Nat)
  | workerDone (k : Nat)
  | stopCall
  | stopTimeout
  | stopSeen
  | stopCleanup
  | stopReturn

/-- One step of one thread. An operation begins, with its effect, and ends; in between it is in
flight. -/
inductive Step : State → Label → State → Prop
  /-- `self.__running = True` -/
  | enterRun {s : State} (h : s.loop = .notStarted) :
      Step s .enterRun { s with loop := .entered, running := true }
  /-- `self.__stopped_event.clear()` -/
  | clearEvent {s : State} (h : s.loop = .entered) :
      Step s .clearEvent { s with loop := .looping ⟨false, []⟩, stoppedEvent := false }
  /-- another round of `while self.__running` -/
  | tick {s : State} {ops : List LoopOp} (h : s.loop = .looping ⟨false, []⟩)
      (running : s.running = true) (allowed : Allowed cfg.readMode ops) :
      Step s (.tick ops) { s with loop := .looping ⟨false, ops⟩ }
  | loopBegin {s : State} {o : Op} {ops : List LoopOp}
      (h : s.loop = .looping ⟨false, .op o :: ops⟩) (ready : Ready s o) :
      Step s .loopBegin (perform cfg o { s with loop := .looping ⟨true, .op o :: ops⟩ })
  | loopEnd {s : State} {o : LoopOp} {ops : List LoopOp} (h : s.loop = .looping ⟨true, o :: ops⟩) :
      Step s .loopEnd { s with loop := .looping ⟨false, ops⟩ }
  | loopSubmit {s : State} {task : List Op} {ops : List LoopOp}
      (h : s.loop = .looping ⟨false, .submit task :: ops⟩) :
      Step s .loopSubmit { s with loop := .looping ⟨false, ops⟩, queue := s.queue ++ [task] }
  /-- `shutdown(wait=False, cancel_futures=True)` -/
  | loopExit {s : State} (h : s.loop = .looping ⟨false, []⟩) (running : s.running = false) :
      Step s .loopExit { s with loop := .closing, queue := [] }
  /-- `self.__stopped_event.set()` -/
  | setEvent {s : State} (h : s.loop = .closing) :
      Step s .setEvent { s with loop := .finished, stoppedEvent := true }
  | workerStart {s : State} {task : List Op} {rest : List (List Op)} (h : s.queue = task :: rest) :
      Step s .workerStart { s with queue := rest, workers := s.workers ++ [⟨false, task⟩] }
  | workerBegin {s : State} {k : Nat} {o : Op} {ops : List Op}
      (h : s.workers[k]? = some ⟨false, o :: ops⟩) (ready : Ready s o) :
      Step s (.workerBegin k) (perform cfg o { s with workers := s.workers.set k ⟨true, o :: ops⟩ })
  | workerEnd {s : State} {k : Nat} {o : Op} {ops : List Op}
      (h : s.workers[k]? = some ⟨true, o :: ops⟩) :
      Step s (.workerEnd k) { s with workers := s.workers.set k ⟨false, ops⟩ }
  | workerDone {s : State} {k : Nat} (h : s.workers[k]? = some ⟨false, []⟩) :
      Step s (.workerDone k) { s with workers := s.workers.eraseIdx k }
  /-- `self.__running = False` -/
  | stopCall {s : State} (h : s.stop = .notCalled ∨ s.stop = .returned false) :
      Step s .stopCall { s with stop := .waiting, running := false }
  | stopTimeout {s : State} (h : s.stop = .waiting) (event : s.stoppedEvent = false) :
      Step s .stopTimeout { s with stop := .returned false }
  | stopSeen {s : State} (h : s.stop = .waiting) (event : s.stoppedEvent = true) :
      Step s .stopSeen { s with stop := .cleaning 0 }
  /-- `transport.cleanup()`, which waits for the transport's lock -/
  | stopCleanup {s : State} {i : Nat} (h : s.stop = .cleaning i) (more : i < cfg.transports.length)
      (free : i ∉ s.locked) :
      Step s .stopCleanup (cleanup cfg i { s with stop := .cleaning (i + 1) })
  | stopReturn {s : State} {i : Nat} (h : s.stop = .cleaning i) (all : cfg.transports.length ≤ i) :
      Step s .stopReturn { s with stop := .returned true }

/-- A gateway that has been built: nothing runs, the stopped event is set, and the clients of its
transports are in the cache. -/
structure Built (s : State) : Prop where
  loop : s.loop = .notStarted
  running : s.running = false
  stoppedEvent : s.stoppedEvent = true
  queue : s.queue = []
  workers : s.workers = []
  stop : s.stop = .notCalled
  clients : ∀ e ∈ cfg.transports, ∀ key, e.clientStr = some key → key ∈ s.clients
  lateRequest : s.lateRequest = false
  lateDelivery : s.lateDelivery = false

/-- A gateway over its life. -/
def system : Runs.System State Label where
  init := Built cfg
  step := Step cfg

/-- The condition on the environment: `run()` is not entered once `stop()` has been called, and no
worker is executing a task when the loop shuts the pools down. -/
def Guard (s : State) : Label → Prop
  | .enterRun => s.stop = .notCalled
  | .loopExit => s.workers = []
  | _ => True

/-! ## What operations leave alone -/

section Frame

variable {cfg} {o : Op} {s : State} {i : Nat}

@[simp] theorem perform_loop : (perform cfg o s).loop = s.loop := by cases o <;> rfl

@[simp] theorem perform_running : (perform cfg o s).running = s.running := by cases o <;> rfl

@[simp] theorem perform_stoppedEvent : (perform cfg o s).stoppedEvent = s.stoppedEvent := by
  cases o <;> rfl

@[simp] theorem perform_queue : (perform cfg o s).queue = s.queue := by cases o <;> rfl

@[simp] theorem perform_workers : (perform cfg o s).workers = s.workers := by cases o <;> rfl

@[simp] theorem perform_stop : (perform cfg o s).stop = s.stop := by cases o <;> rfl

@[simp] theorem perform_clients : (perform cfg o s).clients = s.clients := by cases o <;> rfl

/-- A cleanup changes the client cache only. -/
theorem cleanup_frame (cfg : Config) (s : State) (i : Nat) : ∃ clients closed,
    cleanup cfg i s = { s with clients := clients, closed := closed } := by
  unfold cleanup
  split
  · exact ⟨_, _, rfl⟩
  · exact ⟨_, _, rfl⟩
  · split
    · exact ⟨_, _, rfl⟩
    · exact ⟨_, _, rfl⟩

end Frame

/-! ## Nothing runs any more -/

/-- `stop()` has seen the stopped event. -/
def Cleaning (s : State) : Prop := (∃ i, s.stop = .cleaning i) ∨ s.stop = .returned true

/-- No worker is executing, no task is waiting, and the loop has nothing to do. -/
structure Settled (s : State) : Prop where
  workers : s.workers = []
  queue : s.queue = []
  loop : ∀ t, s.loop = .looping t → t = ⟨false, []⟩

/-- The invariant behind the quiet part of the promise. -/
structure Inv (s : State) : Prop where
  /-- outside the loop there is no work -/
  quiet : (∀ t, s.loop ≠ .looping t) → s.workers = [] ∧ s.queue = []
  /-- the stopped event is not set inside the loop -/
  event : s.stoppedEvent = true → ∀ t, s.loop ≠ .looping t
  /-- once `stop()` has been called the loop starts no further round -/
  halted : s.stop ≠ .notCalled → s.running = false
  settled : Cleaning s → Settled s
  request : s.lateRequest = false
  delivery : s.lateDelivery = false

variable {cfg} {s s' : State} {l : Label}

theorem inv_built (h : Built cfg s) : Inv s where
  quiet _ := ⟨h.workers, h.queue⟩
  event _ t := by simp [h.loop]
  halted hc := absurd h.stop hc
  settled hc := by
    rcases hc with ⟨i, hc⟩ | hc
    · exact absurd (h.stop.symm.trans hc) (by simp)
    · exact absurd (h.stop.symm.trans hc) (by simp)
  request := h.lateRequest
  delivery := h.lateDelivery

theorem not_stopped (h : ¬ Cleaning s) : s.stopped = false := by
  by_contra hs
  exact h (Or.inr (by simpa [State.stopped] using hs))

/-- An operation that begins before `stop()` has seen the event is not late. -/
theorem perform_not_late (cfg : Config) (s : State) (o : Op) (h : ¬ Cleaning s) :
    (perform cfg o s).lateRequest = s.lateRequest ∧
      (perform cfg o s).lateDelivery = s.lateDelivery := by
  cases o <;> simp [perform, not_stopped h]

/-- A thread that has an operation to do shows that the gateway is not settled. -/
theorem not_cleaning_of_loop (h : Inv s) {t : Thread LoopOp} (hl : s.loop = .looping t)
    (ht : t ≠ ⟨false, []⟩) : ¬ Cleaning s :=
  fun hc => ht ((h.settled hc).loop t hl)

theorem not_cleaning_of_worker (h : Inv s) {k : Nat} {t : Thread Op}
    (hw : s.workers[k]? = some t) : ¬ Cleaning s := by
  intro hc
  rw [(h.settled hc).workers] at hw
  exact absurd hw (by simp)

/-- Work on threads, before `stop()` has seen the event and inside the loop, keeps the
invariant. -/
theorem inv_work (h : Inv s) (hc : ¬ Cleaning s) (hloop : ∃ t, s'.loop = .looping t)
    (hevent : s.stoppedEvent = false) (he : s'.stoppedEvent = s.stoppedEvent)
    (hr : s'.running = s.running) (hs : s'.stop = s.stop)
    (hreq : s'.lateRequest = s.lateRequest) (hdel : s'.lateDelivery = s.lateDelivery) : Inv s' where
  quiet hq := by
    obtain ⟨t, ht⟩ := hloop
    exact absurd ht (hq t)
  event hset := absurd (hset.symm.trans (he.trans hevent)) (by simp)
  halted hne := by
    rw [hr]
    exact h.halted (by rwa [← hs])
  settled hcl := by
    have : Cleaning s := by rwa [Cleaning, ← hs]
    exact absurd this hc
  request := hreq.trans h.request
  delivery := hdel.trans h.delivery

/-- Inside the loop the stopped event is not set. -/
theorem event_false_of_loop (h : Inv s) {t : Thread LoopOp} (hl : s.loop = .looping t) :
    s.stoppedEvent = false := by
  by_contra he
  exact h.event (by simpa using he) t hl

/-- While a worker is executing the loop is in its body. -/
theorem loop_of_worker (h : Inv s) {k : Nat} {t : Thread Op} (hw : s.workers[k]? = some t) :
    ∃ t, s.loop = .looping t := by
  by_contra hno
  have := (h.quiet fun t ht => hno ⟨t, ht⟩).1
  rw [this] at hw
  exact absurd hw (by simp)

/-- One guarded step keeps the invariant. -/
theorem inv_step (h : Inv s) (hg : Guard s l) (hs : Step cfg s l s') : Inv s' := by
  cases hs with
  | enterRun hl =>
    have hq := h.quiet (by simp [hl])
    have hcall : s.stop = .notCalled := hg
    exact {
      quiet := fun _ => hq
      event := fun _ t => by simp
      halted := fun hne => absurd hcall hne
      settled := fun hc => ⟨hq.1, hq.2, fun t ht => absurd ht (by simp)⟩
      request := h.request
      delivery := h.delivery }
  | clearEvent hl =>
    have hq := h.quiet (by simp [hl])
    exact {
      quiet := fun _ => hq
      event := fun he => absurd he (by simp)
      halted := h.halted
      settled := fun _ => ⟨hq.1, hq.2, fun t ht => (Loop.looping.inj ht).symm⟩
      request := h.request
      delivery := h.delivery }
  | tick hl hr _ =>
    have hc : ¬ Cleaning s := by
      intro hc
      have hne : s.stop ≠ .notCalled := by
        rcases hc with ⟨i, hc⟩ | hc <;> simp [hc]
      exact absurd (hr.symm.trans (h.halted hne)) (by simp)
    exact inv_work h hc ⟨_, rfl⟩ (event_false_of_loop h hl) rfl rfl rfl rfl rfl
  | @loopBegin o ops hl _ =>
    have hc := not_cleaning_of_loop h hl (by simp)
    obtain ⟨hreq, hdel⟩ :=
      perform_not_late cfg { s with loop := .looping ⟨true, .op o :: ops⟩ } o hc
    exact inv_work h hc ⟨_, perform_loop⟩ (event_false_of_loop h hl) perform_stoppedEvent
      perform_running perform_stop hreq hdel
  | loopEnd hl =>
    exact inv_work h (not_cleaning_of_loop h hl (by simp)) ⟨_, rfl⟩ (event_false_of_loop h hl)
      rfl rfl rfl rfl rfl
  | loopSubmit hl =>
    exact inv_work h (not_cleaning_of_loop h hl (by simp)) ⟨_, rfl⟩ (event_false_of_loop h hl)
      rfl rfl rfl rfl rfl
  | loopExit hl _ =>
    have hw : s.workers = [] := hg
    exact {
      quiet := fun _ => ⟨hw, rfl⟩
      event := fun _ t => by simp
      halted := h.halted
      settled := fun _ => ⟨hw, rfl, fun t ht => absurd ht (by simp)⟩
      request := h.request
      delivery := h.delivery }
  | setEvent hl =>
    have hq := h.quiet (by simp [hl])
    exact {
      quiet := fun _ => hq
      event := fun _ t => by simp
      halted := h.halted
      settled := fun _ => ⟨hq.1, hq.2, fun t ht => absurd ht (by simp)⟩
      request := h.request
      delivery := h.delivery }
  | workerStart hq =>
    have hloop : ∃ t, s.loop = .looping t := by
      by_contra hno
      have := (h.quiet fun t ht => hno ⟨t, ht⟩).2
      rw [this] at hq
      exact absurd hq (by simp)
    obtain ⟨t, hl⟩ := hloop
    have hc : ¬ Cleaning s := by
      intro hc
      rw [(h.settled hc).queue] at hq
      exact absurd hq (by simp)
    exact inv_work h hc ⟨t, hl⟩ (event_false_of_loop h hl) rfl rfl rfl rfl rfl
  | @workerBegin k o ops hw _ =>
    obtain ⟨t, hl⟩ := loop_of_worker h hw
    have hc := not_cleaning_of_worker h hw
    obtain ⟨hreq, hdel⟩ :=
      perform_not_late cfg { s with workers := s.workers.set k ⟨true, o :: ops⟩ } o hc
    exact inv_work h hc ⟨t, perform_loop.trans hl⟩ (event_false_of_loop h hl) perform_stoppedEvent
      perform_running perform_stop hreq hdel
  | workerEnd hw =>
    obtain ⟨t, hl⟩ := loop_of_worker h hw
    exact inv_work h (not_cleaning_of_worker h hw) ⟨t, hl⟩ (event_false_of_loop h hl)
      rfl rfl rfl rfl rfl
  | workerDone hw =>
    obtain ⟨t, hl⟩ := loop_of_worker h hw
    exact inv_work h (not_cleaning_of_worker h hw) ⟨t, hl⟩ (event_false_of_loop h hl)
      rfl rfl rfl rfl rfl
  | stopCall hc =>
    exact { h with
      halted := fun _ => rfl
      settled := fun hcl => by
        rcases hcl with ⟨i, hcl⟩ | hcl
        · exact absurd hcl (by simp)
        · exact absurd hcl (by simp) }
  | stopTimeout hw _ =>
    exact { h with
      halted := fun _ => h.halted (by simp [hw])
      settled := fun hcl => by
        rcases hcl with ⟨i, hcl⟩ | hcl
        · exact absurd hcl (by simp)
        · exact absurd hcl (by simp) }
  | stopSeen hw he =>
    have hno := h.event he
    exact { h with
      halted := fun _ => h.halted (by simp [hw])
      settled := fun _ => ⟨(h.quiet hno).1, (h.quiet hno).2, fun t ht => absurd ht (hno t)⟩ }
  | @stopCleanup i hw _ _ =>
    obtain ⟨clients, closed, hframe⟩ := cleanup_frame cfg { s with stop := .cleaning (i + 1) } i
    have hset := h.settled (Or.inl ⟨i, hw⟩)
    rw [hframe]
    exact {
      quiet := h.quiet
      event := h.event
      halted := fun _ => h.halted (by simp [hw])
      settled := fun _ => ⟨hset.workers, hset.queue, hset.loop⟩
      request := h.request
      delivery := h.delivery }
  | @stopReturn i hw _ =>
    have hset := h.settled (Or.inl ⟨i, hw⟩)
    exact { h with
      halted := fun _ => h.halted (by simp [hw])
      settled := fun _ => ⟨hset.workers, hset.queue, hset.loop⟩ }

/-- In guarded runs the invariant holds. -/
theorem inv_of_guarded (h : Runs.Reach (system cfg) Guard s) : Inv s :=
  h.invariant (fun _ hb => inv_built hb) fun _ _ _ _ ih hg hs => inv_step ih hg hs

/-! ## The client cache -/

/-- A Modbus transport of the gateway. -/
def Modbus (cfg : Config) (e : Endpoint) : Prop := e ∈ cfg.transports ∧ e.clientStr.isSome = true

/-- The cache key of every Modbus transport is the port identifier of one. -/
def KeysMatch (cfg : Config) : Prop :=
  ∀ e ∈ cfg.transports, ∀ key, e.clientStr = some key →
    ∃ e', Modbus cfg e' ∧ e'.portIdentifier = key

/-- The number of transports `stop()` has cleaned up. -/
def State.cleaned (s : State) (n : Nat) : Nat :=
  match s.stop with
  | .cleaning i => i
  | .returned true => n
  | _ => 0

/-- The invariant behind the cache part of the promise: a client is cached until a transport with
its key as port identifier has been cleaned up, and is closed from then on. -/
structure CacheInv (cfg : Config) (s : State) : Prop where
  cached : ¬ Cleaning s → ∀ e ∈ cfg.transports, ∀ key, e.clientStr = some key → key ∈ s.clients
  closed : ∀ e ∈ cfg.transports, ∀ key, e.clientStr = some key → key ∈ s.clients ∨ key ∈ s.closed
  evicted : ∀ j < s.cleaned cfg.transports.length, ∀ e, cfg.transports[j]? = some e →
    e.clientStr.isSome = true → e.portIdentifier ∉ s.clients

theorem cacheInv_built (h : Built cfg s) : CacheInv cfg s where
  cached _ := h.clients
  closed e he key hk := Or.inl (h.clients e he key hk)
  evicted j hj := by simp [State.cleaned, h.stop] at hj

/-- A step that evicts nothing and cleans up no further transport keeps the cache invariant, if it
closes no client or comes before the cleanup. -/
theorem cacheInv_frame (h : CacheInv cfg s) (hc : s'.clients = s.clients)
    (hcleaning : ¬ Cleaning s' → ¬ Cleaning s)
    (hcleaned : s'.cleaned cfg.transports.length ≤ s.cleaned cfg.transports.length)
    (hclosed : s'.closed = s.closed ∨ ¬ Cleaning s) : CacheInv cfg s' where
  cached hn := by
    rw [hc]
    exact h.cached (hcleaning hn)
  closed e he key hk := by
    rw [hc]
    rcases hclosed with hcl | hno
    · rw [hcl]
      exact h.closed e he key hk
    · exact Or.inl (h.cached hno e he key hk)
  evicted j hj := by
    rw [hc]
    exact h.evicted j (Nat.lt_of_lt_of_le hj hcleaned)

/-- A cleanup evicts its own port identifier and closes what it evicts. -/
theorem cleanup_cache {i : Nat} {e : Endpoint} (he : cfg.transports[i]? = some e)
    (hm : e.clientStr.isSome = true) :
    e.portIdentifier ∉ (cleanup cfg i s).clients := by
  unfold cleanup
  rw [he]
  cases e with
  | other name => exact absurd hm (by simp [Endpoint.clientStr])
  | tcp host port =>
    dsimp only
    split
    · simp
    · assumption
  | rtu port baudrate =>
    dsimp only
    split
    · simp
    · assumption

theorem cleanup_subset {i : Nat} {key : String} (hk : key ∈ (cleanup cfg i s).clients) :
    key ∈ s.clients := by
  unfold cleanup at hk
  split at hk
  · exact hk
  · exact hk
  · split at hk
    · exact List.mem_of_mem_filter hk
    · exact hk

/-- What a cleanup takes out of the cache it has closed, and what was closed stays closed. -/
theorem cleanup_closed {i : Nat} {key : String} (hk : key ∈ s.clients ∨ key ∈ s.closed) :
    key ∈ (cleanup cfg i s).clients ∨ key ∈ (cleanup cfg i s).closed := by
  unfold cleanup
  split
  · exact hk
  · exact hk
  · next e _ _ =>
    split
    · by_cases heq : key = e.portIdentifier
      · exact Or.inr (by simp [heq])
      · rcases hk with hk | hk
        · exact Or.inl (List.mem_filter.mpr ⟨hk, by simpa using heq⟩)
        · exact Or.inr (List.mem_cons_of_mem _ hk)
    · exact hk

/-- One guarded step keeps the cache invariant. -/
theorem cacheInv_step (h : CacheInv cfg s) (hi : Inv s) (hs : Step cfg s l s') :
    CacheInv cfg s' := by
  cases hs with
  | enterRun _ | clearEvent _ | tick _ _ _ | loopEnd _ | loopSubmit _ | loopExit _ _ | setEvent _
  | workerStart _ | workerEnd _ | workerDone _ =>
    exact cacheInv_frame h rfl id (Nat.le_refl _) (Or.inl rfl)
  | loopBegin hl _ =>
    refine cacheInv_frame h perform_clients ?_ ?_ (Or.inr (not_cleaning_of_loop hi hl (by simp)))
    · simp [Cleaning]
    · simp [State.cleaned]
  | workerBegin hw _ =>
    refine cacheInv_frame h perform_clients ?_ ?_ (Or.inr (not_cleaning_of_worker hi hw))
    · simp [Cleaning]
    · simp [State.cleaned]
  | stopCall hc =>
    refine cacheInv_frame h rfl (fun _ => ?_) (Nat.zero_le _) (Or.inl rfl)
    rcases hc with hc | hc <;> simp [Cleaning, hc]
  | stopTimeout hw _ =>
    exact cacheInv_frame h rfl (fun _ => by simp [Cleaning, hw]) (Nat.zero_le _) (Or.inl rfl)
  | stopSeen hw _ =>
    exact cacheInv_frame h rfl (fun _ => by simp [Cleaning, hw]) (Nat.zero_le _) (Or.inl rfl)
  | @stopCleanup i hw _ _ =>
    have hstop : (cleanup cfg i { s with stop := .cleaning (i + 1) }).stop = .cleaning (i + 1) := by
      obtain ⟨clients, closed, hframe⟩ := cleanup_frame cfg { s with stop := .cleaning (i + 1) } i
      rw [hframe]
    exact {
      cached := fun hn => absurd (Or.inl ⟨i + 1, hstop⟩) hn
      closed := fun e he key hk => cleanup_closed (h.closed e he key hk)
      evicted := fun j hj e he hm hmem => by
        have hj' : j < i + 1 := by simpa [State.cleaned, hstop] using hj
        rcases Nat.lt_succ_iff_lt_or_eq.mp hj' with hlt | rfl
        · have hmem' : e.portIdentifier ∈ s.clients :=
            cleanup_subset (s := { s with stop := .cleaning (i + 1) }) hmem
          exact h.evicted j (by simpa [State.cleaned, hw] using hlt) e he hm hmem'
        · exact cleanup_cache he hm hmem }
  | @stopReturn i hw hall =>
    refine cacheInv_frame h rfl (fun hn => absurd (Or.inr rfl) hn) ?_ (Or.inl rfl)
    simpa [State.cleaned, hw] using hall

/-- In guarded runs the cache invariant holds. -/
theorem cacheInv_of_guarded (h : Runs.Reach (system cfg) Guard s) : CacheInv cfg s :=
  h.invariant (fun _ hb => cacheInv_built hb) fun _ _ _ hr ih _ hs =>
    cacheInv_step ih (inv_of_guarded hr) hs

/-- A cleanup evicts only the port identifier of a Modbus transport. -/
theorem mem_cleanup {i : Nat} {key : String} (hk : key ∈ s.clients)
    (hno : ∀ e, Modbus cfg e → e.portIdentifier ≠ key) : key ∈ (cleanup cfg i s).clients := by
  unfold cleanup
  split
  · exact hk
  · exact hk
  · next e hother he =>
    have hm : Modbus cfg e := by
      refine ⟨List.mem_of_getElem? he, ?_⟩
      cases e with
      | other name => exact absurd rfl (hother name)
      | tcp _ _ | rtu _ _ => rfl
    split
    · exact List.mem_filter.mpr ⟨hk, by simpa using (hno e hm).symm⟩
    · exact hk

/-- **A client nobody finds stays.** In every run, a client whose cache key is no Modbus transport's
port identifier stays in the cache. -/
theorem client_survives {e : Endpoint} {key : String} (he : e ∈ cfg.transports)
    (hkey : e.clientStr = some key) (hno : ∀ e', Modbus cfg e' → e'.portIdentifier ≠ key)
    (h : Runs.Reachable (system cfg) s) : key ∈ s.clients := by
  refine h.invariant (P := fun s => key ∈ s.clients)
    (fun _ hb => (show Built cfg _ from hb).clients e he key hkey)
    fun s l s' _ hk _ hs => ?_
  cases (show Step cfg s l s' from hs) with
  | loopBegin _ _ | workerBegin _ _ => simpa using hk
  | stopCleanup _ _ _ => exact mem_cleanup hk hno
  | _ => exact hk

/-- Only a gateway without Modbus transports has matching keys, as long as its serial ports have
baud rates. -/
theorem keysMatch_iff (hv : ∀ e, Modbus cfg e → e.Valid) :
    KeysMatch cfg ↔ ∀ e, ¬ Modbus cfg e := by
  constructor
  · intro hkeys e hm
    obtain ⟨key, hkey⟩ := Option.isSome_iff_exists.mp hm.2
    obtain ⟨e', hm', heq⟩ := hkeys e hm.1 key hkey
    exact Endpoint.clientStr_ne_portIdentifier hkey (hv e' hm') heq.symm
  · intro hno e he key hkey
    exact absurd ⟨he, by simp [hkey]⟩ (hno e)

/-! ## What `stop()` promises -/

/-- A thread of the gateway has sent a device request that is not answered. -/
def RequestInFlight (s : State) : Prop :=
  (∃ i ops, s.loop = .looping ⟨true, .op (.request i) :: ops⟩) ∨
    ∃ t ∈ s.workers, ∃ i ops, t = ⟨true, .request i :: ops⟩

/-- What `stop()` promises by returning `True`. -/
structure Quiesced (cfg : Config) (s : State) : Prop where
  idle : ¬ RequestInFlight s
  request : s.lateRequest = false
  delivery : s.lateDelivery = false
  evicted : ∀ e ∈ cfg.transports, ∀ key, e.clientStr = some key →
    key ∈ s.closed ∧ key ∉ s.clients

theorem Settled.not_requestInFlight (h : Settled s) : ¬ RequestInFlight s := by
  rintro (⟨i, ops, hl⟩ | ⟨t, ht, -⟩)
  · exact absurd (h.loop _ hl) (by simp)
  · rw [h.workers] at ht
    exact absurd ht (by simp)

/-- **A stopped gateway is quiet.** In a run in which `run()` is not entered after `stop()` was
called, and no worker is executing when the pools are shut down, a `stop()` that has returned `True`
leaves nothing running; and its clients are closed and evicted if and only if the keys of the
cache are port identifiers. -/
theorem quiesced_iff_of_guarded (h : Runs.Reach (system cfg) Guard s)
    (hs : s.stop = .returned true) : Quiesced cfg s ↔ KeysMatch cfg := by
  have hinv := inv_of_guarded h
  have hcache := cacheInv_of_guarded h
  constructor
  · intro hq e he key hkey
    by_contra hno
    have hsurvives := client_survives he hkey
      (fun e' hm heq => hno ⟨e', hm, heq⟩) h.reachable
    exact (hq.evicted e he key hkey).2 hsurvives
  · intro hkeys
    refine ⟨(hinv.settled (Or.inr hs)).not_requestInFlight, hinv.request, hinv.delivery, ?_⟩
    intro e he key hkey
    obtain ⟨e', ⟨he', hm⟩, rfl⟩ := hkeys e he key hkey
    obtain ⟨j, hj, hget⟩ := List.mem_iff_getElem.mp he'
    have hgone : e'.portIdentifier ∉ s.clients :=
      hcache.evicted j (by simpa [State.cleaned, hs] using hj) e'
        (by rw [List.getElem?_eq_getElem hj, hget]) hm
    exact ⟨(hcache.closed e he _ hkey).resolve_left hgone, hgone⟩

/-- One step more of a run, by its label. -/
theorem extend {guard : State → Label → Prop} (h : Runs.Reach (system cfg) guard s) (l : Label)
    (hg : guard s l) (hs : Step cfg s l s') : Runs.Reach (system cfg) guard s' :=
  h.step hg hs

/-- A gateway of one transport, built. -/
def exampleBuilt (clients : List String) : State where
  loop := .notStarted
  running := false
  stoppedEvent := true
  queue := []
  workers := []
  locked := []
  stop := .notCalled
  clients := clients
  closed := []
  lateRequest := false
  lateDelivery := false

/-- A transport without a Modbus client, read once on the loop's own thread and then stopped. -/
theorem stop_quiesced : ∃ s, s.stop = .returned true ∧
    Quiesced ⟨.sequential, [.other "pylon"]⟩ s := by
  have h0 : Runs.Reach (system ⟨.sequential, [.other "pylon"]⟩) Guard (exampleBuilt []) :=
    .init ⟨rfl, rfl, rfl, rfl, rfl, rfl, by simp [Endpoint.clientStr], rfl, rfl⟩
  have h1 := extend h0 .enterRun rfl (.enterRun rfl)
  have h2 := extend h1 .clearEvent trivial (.clearEvent rfl)
  have h3 := extend h2 (.tick [.op (.request 0)]) trivial (.tick rfl rfl (by simp [Allowed]))
  have h4 := extend h3 .loopBegin trivial (.loopBegin rfl trivial)
  have h5 := extend h4 .loopEnd trivial (.loopEnd rfl)
  have h6 := extend h5 .stopCall trivial (.stopCall (Or.inl rfl))
  have h7 := extend h6 .loopExit rfl (.loopExit rfl rfl)
  have h8 := extend h7 .setEvent trivial (.setEvent rfl)
  have h9 := extend h8 .stopSeen trivial (.stopSeen rfl rfl)
  have h10 := extend h9 .stopCleanup trivial (.stopCleanup rfl (by decide) (by decide))
  have h11 := extend h10 .stopReturn trivial (.stopReturn rfl (by decide))
  have hkeys : KeysMatch ⟨.sequential, [.other "pylon"]⟩ := by simp [KeysMatch, Endpoint.clientStr]
  exact ⟨_, rfl, (quiesced_iff_of_guarded h11 rfl).mpr hkeys⟩

/-- A worker has started on a task but not begun when `stop()` is called. It sends its device request
and hands data to a bridge after `stop()` has returned `True`. -/
theorem not_quiesced : ¬ ∀ cfg s, Runs.Reachable (system cfg) s → s.stop = .returned true →
    Quiesced cfg s := by
  intro hall
  have h0 : Runs.Reachable (system ⟨.concurrent, [.tcp "h" 502]⟩) (exampleBuilt ["h-tcp-502"]) :=
    .init ⟨rfl, rfl, rfl, rfl, rfl, rfl,
      by simp [Endpoint.clientStr, exampleBuilt]; decide, rfl, rfl⟩
  have h1 := extend h0 .enterRun trivial (.enterRun rfl)
  have h2 := extend h1 .clearEvent trivial (.clearEvent rfl)
  have h3 := extend h2 (.tick [.submit [.request 0, .deliver 0]]) trivial
    (.tick rfl rfl (by simp [Allowed]))
  have h4 := extend h3 .loopSubmit trivial (.loopSubmit rfl)
  have h5 := extend h4 .workerStart trivial (.workerStart rfl)
  have h6 := extend h5 .stopCall trivial (.stopCall (Or.inl rfl))
  have h7 := extend h6 .loopExit trivial (.loopExit rfl rfl)
  have h8 := extend h7 .setEvent trivial (.setEvent rfl)
  have h9 := extend h8 .stopSeen trivial (.stopSeen rfl rfl)
  have h10 := extend h9 .stopCleanup trivial (.stopCleanup rfl (by decide) (by decide))
  have h11 := extend h10 .stopReturn trivial (.stopReturn rfl (by decide))
  have h12 := extend h11 (.workerBegin 0) trivial (.workerBegin rfl trivial)
  exact absurd (hall _ _ h12 rfl).request (by decide)

end Shutdown

end ProtocolGateway
