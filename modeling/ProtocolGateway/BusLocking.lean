import ProtocolGateway.Lib.Locks
import ProtocolGateway.Lib.Runs
import ProtocolGateway.Endpoint

/-!
# Locks on a shared connection

Transports with one endpoint share one Modbus client. Three kinds of lock keep their requests apart:
`_transport_lock` of each transport, the `bus_lock` an interleaved cycle hands out, and the port lock
of `_get_port_lock`, which is shared like the client. Writes, serial reads and `analyze_protocols`
take the port lock; `modbus_tcp.read_registers` and both `connect()` methods do not.

A thread of the gateway runs one call at a time, and a call is a straight-line program of lock
actions and of actions on the client. What a call reads, which of its reads fail and when a thread
runs are left open.

`no_collision_of_guarded` proves the exclusion the locks are there for, in runs in which the paths
that take no port lock keep clear of the paths that do.
-/

namespace ProtocolGateway

namespace BusLocking

open Locks

/-! ## Calls and their programs -/

/-- The locks of the gateway. -/
inductive LockName
  /-- `_transport_lock` -/
  | transport (i : Nat)
  /-- a `bus_lock` -/
  | bus (k : Nat)
  /-- the lock of `_get_port_lock`, by its port identifier -/
  | port (identifier : String)
  deriving DecidableEq, Repr

/-- Port locks are `RLock`s. -/
def reentrant : LockName → Bool
  | .port _ => true
  | _ => false

/-- What a request is for. -/
inductive Kind
  | read
  | write
  | analysis
  deriving DecidableEq, Repr

/-- What a transport does with its client. -/
inductive Action
  | send (kind : Kind)
  /-- a request ends, with a response or without -/
  | answer (kind : Kind)
  /-- `client.close()` in the error path of `read_registers` -/
  | drop
  /-- `client.close()` in `connect()` -/
  | close
  /-- `client.connect()` -/
  | reopen
  /-- `_drain_connection_priming_bytes` -/
  | drain
  deriving DecidableEq, Repr

abbrev Program := List (Act LockName Action)

/-- How one call of `read_registers` goes. -/
inductive Outcome
  /-- no request is sent: the socket is found closed -/
  | notSent
  | answered
  /-- the connection breaks, and the client is closed -/
  | broken
  deriving DecidableEq, Repr

/-- One block of a register read: the bus lock the transport has at that moment, and the outcome. -/
structure Block where
  bus : Option Nat
  outcome : Outcome
  deriving DecidableEq, Repr

/-- A call a thread makes on a transport. -/
inductive Call
  /-- `read_data`, `read_group_data` -/
  | readData (blocks : List Block)
  /-- `read_data_iter`, `read_group_data_iter` of an interleaved cycle -/
  | readDataIter (blocks : List Block)
  /-- `write_data`: for each variable the read-back, and whether a write request follows -/
  | writeData (writes : List (List Block × Bool))
  /-- `connect`: whether the client connects, and the reads of `init_after_connect`, if it runs -/
  | connect (opened : Bool) (init : Option (List Block))
  /-- `analyze_protocols`: its bus lock, and its probe and scan reads -/
  | analyze (bus : Option Nat) (reads : List Outcome)
  deriving DecidableEq, Repr

/-- `with lock:` -/
def withLock (l : LockName) (p : Program) : Program := .acquire l :: (p ++ [.release l])

/-- A bus lock is taken if there is one. -/
def withBus (bus : Option Nat) (p : Program) : Program :=
  match bus with
  | some k => withLock (.bus k) p
  | none => p

/-- A request and its answer. -/
def exchange (kind : Kind) : Outcome → Program
  | .notSent => []
  | .answered => [.act (.send kind), .act (.answer kind)]
  | .broken => [.act (.send kind), .act (.answer kind), .act .drop]

/-- `read_registers` of the transport classes: the serial one takes the port lock. -/
def readRegisters (e : Endpoint) (kind : Kind) (outcome : Outcome) : Program :=
  match e with
  | .rtu _ _ => withLock (.port e.portIdentifier) (exchange kind outcome)
  | .tcp _ _ | .other _ => exchange kind outcome

/-- One attempt at a block in `read_modbus_registers` and `read_modbus_registers_iter`. -/
def readBlock (e : Endpoint) (b : Block) : Program :=
  withBus b.bus (readRegisters e .read b.outcome)

/-- `write_registers` and `write_coil`. -/
def writeRegisters (e : Endpoint) : Program :=
  withLock (.port e.portIdentifier) (exchange .write .answered)

/-- `write_variable`: the read-back, and a write request unless the value is rejected. -/
def writeVariable (e : Endpoint) (w : List Block × Bool) : Program :=
  w.1.flatMap (readBlock e) ++ if w.2 then writeRegisters e else []

/-- `init_after_connect`, unless it is skipped. -/
def initAfterConnect (e : Endpoint) (i : Nat) : Option (List Block) → Program
  | some blocks => withLock (.transport i) (blocks.flatMap (readBlock e))
  | none => []

/-- The program of a call on transport `i`. -/
def Call.program (e : Endpoint) (i : Nat) : Call → Program
  | .readData blocks => withLock (.transport i) (blocks.flatMap (readBlock e))
  | .readDataIter blocks => blocks.flatMap (readBlock e)
  | .writeData writes => withLock (.transport i) (writes.flatMap (writeVariable e))
  | .connect opened init =>
    [.act .close, .act .reopen] ++
      if opened then .act .drain :: initAfterConnect e i init else []
  | .analyze bus reads =>
    withLock (.transport i) (withBus bus
      (withLock (.port e.portIdentifier) (reads.flatMap (readRegisters e .analysis))))

/-! ## The gateway -/

/-- A thread: the transport it works on, what it has done in its call, latest first, and what is left
to do. -/
structure Thread where
  transport : Nat
  done : Program
  rest : Program

/-- The lock table and the threads. -/
structure State where
  owners : Owners Nat LockName
  threads : Nat → Thread

/-- A thread begins a call, or takes one step of the call it is in. -/
inductive Label
  | start (t i : Nat) (call : Call)
  | step (t : Nat)

/-- The transports of the gateway, by index. -/
abbrev Config := List Endpoint

variable (cfg : Config)

/-- The threads, one of them changed. -/
def State.set (s : State) (t : Nat) (th : Thread) : Nat → Thread := Function.update s.threads t th

/-- The steps of the threads. A thread whose lock is taken waits. -/
inductive Step : State → Label → State → Prop
  | start {s : State} {t i : Nat} {e : Endpoint} {call : Call} (idle : (s.threads t).rest = [])
      (transport : cfg[i]? = some e) :
      Step s (.start t i call) { s with threads := s.set t ⟨i, [], call.program e i⟩ }
  | acquire {s : State} {t i : Nat} {l : LockName} {d r : Program} {o : Owners Nat LockName}
      (h : s.threads t = ⟨i, d, .acquire l :: r⟩) (free : acquire reentrant s.owners t l = some o) :
      Step s (.step t) { owners := o, threads := s.set t ⟨i, .acquire l :: d, r⟩ }
  | release {s : State} {t i : Nat} {l : LockName} {d r : Program} {o : Owners Nat LockName}
      (h : s.threads t = ⟨i, d, .release l :: r⟩) (owned : release s.owners t l = some o) :
      Step s (.step t) { owners := o, threads := s.set t ⟨i, .release l :: d, r⟩ }
  | act {s : State} {t i : Nat} {a : Action} {d r : Program}
      (h : s.threads t = ⟨i, d, .act a :: r⟩) :
      Step s (.step t) { s with threads := s.set t ⟨i, .act a :: d, r⟩ }

/-- Initially every lock is free and every thread idle. -/
structure Idle (s : State) : Prop where
  owners : ∀ l, s.owners l = none
  threads : ∀ t, (s.threads t).done = [] ∧ (s.threads t).rest = []

/-- The threads of a gateway. -/
def system : Runs.System State Label where
  init := Idle
  step := Step cfg

/-! ## Collisions -/

/-- Two transports with one cached client. -/
def Shares (i j : Nat) : Prop :=
  ∃ e e' key, cfg[i]? = some e ∧ cfg[j]? = some e' ∧ e.clientStr = some key ∧
    e'.clientStr = some key

/-- The threads work on different transports with one cached client. -/
def Rivals (s : State) (t u : Nat) : Prop :=
  (s.threads t).transport ≠ (s.threads u).transport ∧
    Shares cfg (s.threads t).transport (s.threads u).transport

/-- The thread has a request outstanding. -/
def Outstanding (th : Thread) : Prop := ∃ kind d, th.done = .act (.send kind) :: d

/-- The thread is in an analysis, between its first probe and its last scan read. -/
def Analysing (th : Thread) : Prop :=
  .act (.send .analysis) ∈ th.done ∧ .act (.answer .analysis) ∈ th.rest

/-- The next step of the thread collides with another transport: it sends a write or an analysis
request or closes or reconnects the client while a rival's request is outstanding, or it sends a
request during a rival's analysis. -/
def Collides (s : State) (t : Nat) : Prop :=
  match (s.threads t).rest with
  | .act (.send kind) :: _ =>
    (kind ≠ .read ∧ ∃ u, Rivals cfg s t u ∧ Outstanding (s.threads u)) ∨
      ∃ u, Rivals cfg s t u ∧ Analysing (s.threads u)
  | .act .drop :: _ | .act .close :: _ | .act .reopen :: _ | .act .drain :: _ =>
    ∃ u, Rivals cfg s t u ∧ Outstanding (s.threads u)
  | _ => False

/-! ## The condition -/

/-- The port lock of a transport. -/
def portLock (i : Nat) : Option LockName :=
  (cfg[i]?).map fun e => .port e.portIdentifier

/-- The thread holds the port lock of its transport. -/
def HoldsPort (s : State) (t : Nat) : Prop :=
  ∃ l, portLock cfg (s.threads t).transport = some l ∧ 0 < depth s.owners t l

/-- The thread is in `connect()`, and the client is closed or being opened. -/
def Connecting (th : Thread) : Prop :=
  th.rest ≠ [] ∧ ∃ d, th.done = .act .close :: d ∨ th.done = .act .reopen :: d

/-- The thread uses the client without the port lock: it has a request outstanding or is
connecting. -/
def Unlocked (s : State) (t : Nat) : Prop :=
  (Outstanding (s.threads t) ∧ ¬ HoldsPort cfg s t) ∨ Connecting (s.threads t)

/-- What a step without the port lock has to find, and what taking the port lock has to find: the
unlocked paths keep clear of the locked ones, as if they took the lock; unlocked reads may
overlap. -/
def Guard (s : State) : Label → Prop
  | .start _ _ _ => True
  | .step t =>
    match (s.threads t).rest with
    | .acquire (.port _) :: _ => ∀ u, Rivals cfg s t u → ¬ Unlocked cfg s u
    | .act (.send _) :: _ =>
      ¬ HoldsPort cfg s t → ∀ u, Rivals cfg s t u →
        ¬ HoldsPort cfg s u ∧ ¬ Connecting (s.threads u)
    | .act .drop :: _ =>
      ¬ HoldsPort cfg s t → ∀ u, Rivals cfg s t u → ¬ Outstanding (s.threads u)
    | .act .close :: _ =>
      ∀ u, Rivals cfg s t u → ¬ HoldsPort cfg s u ∧ ¬ Unlocked cfg s u
    | _ => True

/-! ## What programs look like -/

section Programs

variable {e : Endpoint} {i : Nat} {kind : Kind} {outcome : Outcome} {a : Action}

theorem exchange_balanced : Balanced (exchange kind outcome) := by
  cases outcome with
  | notSent => exact .nil
  | answered => exact (Balanced.nil.cons _).cons _
  | broken => exact ((Balanced.nil.cons _).cons _).cons _

theorem withBus_balanced {bus : Option Nat} {p : Program} (h : Balanced p) :
    Balanced (withBus bus p) := by
  cases bus with
  | none => exact h
  | some k => exact h.wrap _

theorem readRegisters_balanced : Balanced (readRegisters e kind outcome) := by
  cases e with
  | rtu port baudrate => exact exchange_balanced.wrap _
  | tcp _ _ | other _ => exact exchange_balanced

theorem readBlock_balanced {b : Block} : Balanced (readBlock e b) :=
  withBus_balanced readRegisters_balanced

theorem readBlocks_balanced {blocks : List Block} : Balanced (blocks.flatMap (readBlock e)) :=
  .flatMap fun _ _ => readBlock_balanced

theorem writeRegisters_balanced : Balanced (writeRegisters e) :=
  exchange_balanced.wrap _

theorem writeVariable_balanced {w : List Block × Bool} : Balanced (writeVariable e w) := by
  refine readBlocks_balanced.append ?_
  split
  · exact writeRegisters_balanced
  · exact .nil

/-- A call leaves every lock it takes. -/
theorem program_balanced (call : Call) : Balanced (call.program e i) := by
  cases call with
  | readData blocks => exact readBlocks_balanced.wrap _
  | readDataIter blocks => exact readBlocks_balanced
  | writeData writes => exact (Balanced.flatMap fun _ _ => writeVariable_balanced).wrap _
  | connect opened init =>
    refine Balanced.cons _ (Balanced.cons _ ?_)
    split
    · cases init with
      | none => exact Balanced.nil.cons _
      | some blocks => exact (readBlocks_balanced.wrap _).cons _
    · exact .nil
  | analyze bus reads =>
    have hreads : Balanced (reads.flatMap (readRegisters e .analysis)) :=
      .flatMap fun _ _ => readRegisters_balanced
    exact (withBus_balanced (hreads.wrap _)).wrap _

theorem act_mem_withLock {l : LockName} {p : Program} :
    .act a ∈ withLock l p ↔ .act a ∈ p := by
  simp [withLock]

theorem act_mem_withBus {bus : Option Nat} {p : Program} :
    .act a ∈ withBus bus p ↔ .act a ∈ p := by
  cases bus with
  | none => exact Iff.rfl
  | some k => exact act_mem_withLock

/-- The client actions of a register read. -/
theorem act_mem_readRegisters (h : .act a ∈ readRegisters e kind outcome) :
    a = .send kind ∨ a = .answer kind ∨ a = .drop := by
  have hex : .act a ∈ exchange kind outcome := by
    cases e with
    | rtu port baudrate => exact act_mem_withLock.mp h
    | tcp _ _ | other _ => exact h
  cases outcome <;> simp [exchange] at hex <;> tauto

/-- The client actions of a sequence of block reads. -/
theorem act_mem_readBlocks {blocks : List Block} (h : .act a ∈ blocks.flatMap (readBlock e)) :
    a = .send .read ∨ a = .answer .read ∨ a = .drop := by
  obtain ⟨b, -, hb⟩ := List.mem_flatMap.mp h
  exact act_mem_readRegisters (act_mem_withBus.mp hb)

theorem act_mem_initAfterConnect {init : Option (List Block)}
    (h : .act a ∈ initAfterConnect e i init) :
    a = .send .read ∨ a = .answer .read ∨ a = .drop := by
  cases init with
  | none => exact absurd h (by simp [initAfterConnect])
  | some blocks => exact act_mem_readBlocks (act_mem_withLock.mp h)

theorem act_mem_writeVariable {w : List Block × Bool} (h : .act a ∈ writeVariable e w) :
    a = .send .read ∨ a = .answer .read ∨ a = .drop ∨ a = .send .write ∨ a = .answer .write := by
  rcases List.mem_append.mp h with h | h
  · rcases act_mem_readBlocks h with h | h | h <;> simp [h]
  · split at h
    · have := act_mem_withLock.mp h
      simp [exchange] at this
      tauto
    · exact absurd h (by simp)

/-- A request that is not a read. -/
def Requests (a : Action) : Prop := ∃ kind, kind ≠ .read ∧ a = .send kind

theorem readBlocks_covered {l : LockName} {blocks : List Block} :
    Covered l Requests (blocks.flatMap (readBlock e)) := by
  refine .of_not fun a ha => ?_
  rintro ⟨kind, hkind, rfl⟩
  rcases act_mem_readBlocks ha with h | h | h
  · exact hkind (Action.send.inj h)
  · exact absurd h (by simp)
  · exact absurd h (by simp)

/-- A covered balanced program inside a lock is covered. -/
theorem withLock_covered {l l' : LockName} {q : Action → Prop} {p : Program}
    (h : Covered l q p) : Covered l q (withLock l' p) := by
  refine Covered.append (p := p) h trivial ?_
  simp only [net]
  split <;> decide

theorem withBus_covered {l : LockName} {bus : Option Nat} {q : Action → Prop} {p : Program}
    (h : Covered l q p) : Covered l q (withBus bus p) := by
  cases bus with
  | none => exact h
  | some k => exact withLock_covered h

/-- Inside the port lock everything is covered. -/
theorem withLock_self_covered {l : LockName} {q : Action → Prop} {p : Program} (h : Balanced p) :
    Covered l q (withLock l p) :=
  Covered.of_balanced (p := p) h (by simp [net]) trivial

/-- **Writes and analyses hold the port lock** wherever they send a request. -/
theorem program_covered (call : Call) :
    Covered (.port e.portIdentifier) Requests (call.program e i) := by
  cases call with
  | readData blocks => exact withLock_covered readBlocks_covered
  | readDataIter blocks => exact readBlocks_covered
  | writeData writes =>
    refine withLock_covered (.flatMap (fun w _ => ?_) fun _ _ => writeVariable_balanced)
    refine readBlocks_covered.append ?_ ?_
    · split
      · exact withLock_self_covered exchange_balanced
      · trivial
    · split
      · exact Int.le_of_eq (writeRegisters_balanced.total _).symm
      · exact Int.le_refl 0
  | connect opened init =>
    refine .of_not fun a ha => ?_
    rintro ⟨kind, hkind, rfl⟩
    have hinit : opened = true ∧ .act (.send kind) ∈ initAfterConnect e i init := by
      simpa [Call.program] using ha
    rcases act_mem_initAfterConnect hinit.2 with h | h | h
    · exact hkind (Action.send.inj h)
    · exact absurd h (by simp)
    · exact absurd h (by simp)
  | analyze bus reads =>
    refine withLock_covered (withBus_covered (withLock_self_covered ?_))
    exact .flatMap fun _ _ => readRegisters_balanced

/-- Only an analysis sends analysis requests. -/
theorem call_of_send_analysis {call : Call} (h : .act (.send .analysis) ∈ call.program e i) :
    ∃ bus reads, call = .analyze bus reads := by
  cases call with
  | analyze bus reads => exact ⟨bus, reads, rfl⟩
  | readData blocks => exact absurd (act_mem_readBlocks (act_mem_withLock.mp h)) (by simp)
  | readDataIter blocks => exact absurd (act_mem_readBlocks h) (by simp)
  | writeData writes =>
    obtain ⟨w, -, hw⟩ := List.mem_flatMap.mp (act_mem_withLock.mp h)
    exact absurd (act_mem_writeVariable hw) (by simp)
  | connect opened init =>
    have hinit : opened = true ∧ .act (.send .analysis) ∈ initAfterConnect e i init := by
      simpa [Call.program] using h
    exact absurd (act_mem_initAfterConnect hinit.2) (by simp)

/-- **An analysis holds the port lock** from its first probe to its last scan read. -/
theorem analysing_net_pos {call : Call} {d r : Program} (h : call.program e i = d ++ r)
    (hsend : .act (.send .analysis) ∈ d) (hanswer : .act (.answer .analysis) ∈ r) :
    0 < net (.port e.portIdentifier) r := by
  obtain ⟨bus, reads, rfl⟩ :=
    call_of_send_analysis (h ▸ List.mem_append_left r hsend)
  have hbody : Balanced (reads.flatMap (readRegisters e .analysis)) :=
    .flatMap fun _ _ => readRegisters_balanced
  -- the program takes its locks, reads, and leaves its locks in the reverse order
  obtain ⟨pre, post, hpre, hpost, hnet, hprog⟩ : ∃ pre post : Program,
      (∀ a, .act a ∉ pre) ∧ (∀ a, .act a ∉ post) ∧ 0 < net (.port e.portIdentifier) post ∧
      (Call.analyze bus reads).program e i =
        pre ++ reads.flatMap (readRegisters e .analysis) ++ post := by
    cases bus with
    | none =>
      exact ⟨[.acquire (.transport i), .acquire (.port e.portIdentifier)],
        [.release (.port e.portIdentifier), .release (.transport i)], by simp, by simp,
        by simp [net], by simp [Call.program, withBus, withLock]⟩
    | some k =>
      exact ⟨[.acquire (.transport i), .acquire (.bus k), .acquire (.port e.portIdentifier)],
        [.release (.port e.portIdentifier), .release (.bus k), .release (.transport i)], by simp,
        by simp, by simp [net], by simp [Call.program, withBus, withLock]⟩
  rw [hprog] at h
  refine net_pos_inside hbody hnet h.symm ?_ ?_
  · rw [List.append_assoc] at h
    exact length_le_of_mem h.symm hsend (hpre _)
  · have hrev := congrArg List.reverse h.symm
    rw [List.reverse_append, List.reverse_append] at hrev
    have := length_le_of_mem hrev (List.mem_reverse.mpr hanswer)
      (mt List.mem_reverse.mp (hpost _))
    simpa using this

/-- A step of opening the client. -/
def Opens (a : Action) : Prop := a = .reopen ∨ a = .drain

/-- Only `connect` opens the client. -/
theorem call_of_opens {call : Call} (h : .act a ∈ call.program e i) (ha : Opens a) :
    ∃ opened init, call = .connect opened init := by
  cases call with
  | connect opened init => exact ⟨opened, init, rfl⟩
  | readData blocks =>
    have := act_mem_readBlocks (act_mem_withLock.mp h)
    rcases ha with rfl | rfl <;> exact absurd this (by simp)
  | readDataIter blocks =>
    have := act_mem_readBlocks h
    rcases ha with rfl | rfl <;> exact absurd this (by simp)
  | writeData writes =>
    obtain ⟨w, -, hw⟩ := List.mem_flatMap.mp (act_mem_withLock.mp h)
    have := act_mem_writeVariable hw
    rcases ha with rfl | rfl <;> exact absurd this (by simp)
  | analyze bus reads =>
    have h := act_mem_withLock.mp (act_mem_withBus.mp (act_mem_withLock.mp h))
    obtain ⟨o, -, ho⟩ := List.mem_flatMap.mp h
    have := act_mem_readRegisters ho
    rcases ha with rfl | rfl <;> exact absurd this (by simp)

/-- A client is opened, and its first bytes are read, right after it has been closed. -/
theorem done_of_opens {call : Call} {d r : Program} (h : call.program e i = d ++ .act a :: r)
    (ha : Opens a) : d = [.act .close] ∨ d = [.act .close, .act .reopen] := by
  have hmem : .act a ∈ call.program e i := by
    rw [h]
    simp
  obtain ⟨opened, init, rfl⟩ := call_of_opens hmem ha
  match d, h with
  | [], h =>
    obtain rfl : Action.close = a := by simpa [Call.program] using (List.cons.inj h).1
    rcases ha with ha | ha <;> exact absurd ha (by simp)
  | [x], h =>
    obtain rfl := (List.cons.inj h).1
    exact Or.inl rfl
  | [x, y], h =>
    obtain ⟨hx, h⟩ := List.cons.inj h
    obtain ⟨hy, -⟩ := List.cons.inj h
    exact Or.inr (by rw [← hx, ← hy])
  | x :: y :: z :: d, h =>
    -- the initialisation after the opening opens nothing
    cases opened with
    | false => exact absurd h (by simp [Call.program])
    | true =>
      have hinit : initAfterConnect e i init = d ++ .act a :: r := by
        simp only [Call.program, if_true, List.cons_append, List.nil_append] at h
        injection h with _ h
        injection h with _ h
        injection h
      have hmem : .act a ∈ initAfterConnect e i init := by
        rw [hinit]
        simp
      have := act_mem_initAfterConnect hmem
      rcases ha with rfl | rfl <;> exact absurd this (by simp)

end Programs

/-! ## The locks in a run -/

section Runs

variable {cfg} {s s' : State} {t u : Nat} {l : Label}

/-- The thread has not begun anything, or is somewhere in the program of a call. -/
def InCall (cfg : Config) (th : Thread) : Prop :=
  (th.done = [] ∧ th.rest = []) ∨ ∃ e call, cfg[th.transport]? = some e ∧
    Call.program e th.transport call = th.done.reverse ++ th.rest

/-- The lock table fits the threads, and every thread is in a call. -/
structure Fits (cfg : Config) (s : State) : Prop where
  held : Held s.owners fun t => (s.threads t).rest
  inCall : ∀ t, InCall cfg (s.threads t)

@[simp] theorem set_self {th : Thread} : s.set t th t = th := Function.update_self ..

theorem set_other {th : Thread} (h : u ≠ t) : s.set t th u = s.threads u :=
  Function.update_of_ne h ..

/-- A step within a call stays in the call. -/
theorem InCall.step {i : Nat} {a : Act LockName Action} {d r : Program}
    (h : InCall cfg ⟨i, d, a :: r⟩) : InCall cfg ⟨i, a :: d, r⟩ := by
  rcases h with ⟨-, h⟩ | ⟨e, call, he, hprog⟩
  · exact absurd h (by simp)
  · refine Or.inr ⟨e, call, he, ?_⟩
    rw [hprog]
    simp

theorem inCall_set {th : Thread} (h : ∀ u, InCall cfg (s.threads u)) (ht : InCall cfg th) (u : Nat) :
    InCall cfg (s.set t th u) := by
  by_cases hu : u = t
  · rw [hu, set_self]
    exact ht
  · rw [set_other hu]
    exact h u

theorem rest_set_other {th : Thread} (u : Nat) (h : u ≠ t) :
    (s.set t th u).rest = (s.threads u).rest := by
  rw [set_other h]

theorem fits_idle (h : Idle s) : Fits cfg s where
  held t l := by
    simp [depth, h.owners, (h.threads t).2]
  inCall t := Or.inl (h.threads t)

theorem fits_step (h : Fits cfg s) (hs : Step cfg s l s') : Fits cfg s' := by
  cases hs with
  | @start t i e call idle he =>
    exact {
      held := h.held.of_start (t := t) idle (program_balanced call) rest_set_other
        (congrArg Thread.rest set_self)
      inCall := inCall_set h.inCall (Or.inr ⟨e, call, he, rfl⟩) }
  | @acquire t i l d r o hth ha =>
    exact {
      held := h.held.of_acquire (congrArg Thread.rest hth) ha rest_set_other
        (congrArg Thread.rest set_self)
      inCall := inCall_set h.inCall (hth ▸ h.inCall t).step }
  | @release t i l d r o hth ha =>
    exact {
      held := h.held.of_release (congrArg Thread.rest hth) ha rest_set_other
        (congrArg Thread.rest set_self)
      inCall := inCall_set h.inCall (hth ▸ h.inCall t).step }
  | @act t i a d r hth =>
    exact {
      held := h.held.of_act (congrArg Thread.rest hth) rest_set_other
        (congrArg Thread.rest set_self)
      inCall := inCall_set h.inCall (hth ▸ h.inCall t).step }

theorem fits_of_reach {guard : State → Label → Prop} (h : Runs.Reach (system cfg) guard s) :
    Fits cfg s :=
  h.invariant (fun _ h0 => fits_idle h0) fun _ _ _ _ ih _ hs => fits_step ih hs

/-- Rivals have the same port lock. -/
theorem Rivals.portLock_eq (h : Rivals cfg s t u) :
    portLock cfg (s.threads t).transport = portLock cfg (s.threads u).transport := by
  obtain ⟨-, e, e', key, he, he', hkey, hkey'⟩ := h
  rw [portLock, portLock, he, he', Endpoint.eq_of_clientStr_eq hkey hkey']

theorem Rivals.symm (h : Rivals cfg s t u) : Rivals cfg s u t := by
  obtain ⟨hne, e, e', key, he, he', hkey, hkey'⟩ := h
  exact ⟨hne.symm, e', e, key, he', he, hkey', hkey⟩

theorem Rivals.ne (h : Rivals cfg s t u) : t ≠ u := fun heq => h.1 (by rw [heq])

/-- **Rivals do not hold the port lock together.** -/
theorem Rivals.not_holdsPort (h : Rivals cfg s t u) (ht : HoldsPort cfg s t) :
    ¬ HoldsPort cfg s u := by
  obtain ⟨l, hl, hdepth⟩ := ht
  rintro ⟨l', hl', hdepth'⟩
  obtain rfl : l = l' := Option.some.inj (hl.symm.trans (h.portLock_eq.trans hl'))
  exact h.ne (depth_exclusive hdepth hdepth')

/-- Where the rest of a thread still leaves its port lock, it holds it. -/
theorem holdsPort_of_net_pos (h : Fits cfg s) {e : Endpoint}
    (he : cfg[(s.threads t).transport]? = some e)
    (hnet : 0 < net (.port e.portIdentifier) (s.threads t).rest) : HoldsPort cfg s t := by
  refine ⟨.port e.portIdentifier, by simp [portLock, he], ?_⟩
  have : (depth s.owners t (.port e.portIdentifier) : Int) = net _ (s.threads t).rest :=
    h.held t _
  omega

/-- A thread about to send a write or an analysis request holds the port lock. -/
theorem holdsPort_of_requests (h : Fits cfg s) {a : Action} {r : Program}
    (hr : (s.threads t).rest = .act a :: r) (ha : Requests a) : HoldsPort cfg s t := by
  rcases h.inCall t with ⟨-, hidle⟩ | ⟨e, call, he, hprog⟩
  · exact absurd (hr.symm.trans hidle) (by simp)
  · refine holdsPort_of_net_pos h he ?_
    rw [hr] at hprog ⊢
    exact (hprog ▸ program_covered call).net_pos ha

/-- A thread in an analysis holds the port lock. -/
theorem holdsPort_of_analysing (h : Fits cfg s) (ha : Analysing (s.threads t)) :
    HoldsPort cfg s t := by
  rcases h.inCall t with ⟨hidle, -⟩ | ⟨e, call, he, hprog⟩
  · exact absurd ha.1 (by simp [hidle])
  · exact holdsPort_of_net_pos h he
      (analysing_net_pos hprog (List.mem_reverse.mpr ha.1) ha.2)

/-- A thread about to open the client is connecting. -/
theorem connecting_of_opens (h : Fits cfg s) {a : Action} {r : Program}
    (hr : (s.threads t).rest = .act a :: r) (ha : Opens a) : Connecting (s.threads t) := by
  rcases h.inCall t with ⟨-, hidle⟩ | ⟨e, call, he, hprog⟩
  · exact absurd (hr.symm.trans hidle) (by simp)
  · rw [hr] at hprog
    refine ⟨by simp [hr], ?_⟩
    rcases done_of_opens hprog ha with hd | hd
    · exact ⟨[], Or.inl (by rw [← List.reverse_reverse (s.threads t).done, hd]; rfl)⟩
    · exact ⟨[.act .close], Or.inr (by rw [← List.reverse_reverse (s.threads t).done, hd]; rfl)⟩

/-! ## The unlocked paths keep clear -/

/-- **The invariant of guarded runs.** While a thread uses the client without the port lock, no
rival holds it or is connecting. -/
def Clear (cfg : Config) (s : State) : Prop :=
  ∀ t u, Rivals cfg s t u → Unlocked cfg s t → ¬ HoldsPort cfg s u ∧ ¬ Connecting (s.threads u)

/-- A step of one thread keeps the invariant if the thread's own new position does. -/
theorem clear_of_moved (h : Clear cfg s)
    (hothers : ∀ u, u ≠ t → s'.threads u = s.threads u)
    (hdepth : ∀ u l, u ≠ t → depth s'.owners u l = depth s.owners u l)
    (hunlocked : Unlocked cfg s' t → ∀ u, Rivals cfg s' t u →
      ¬ HoldsPort cfg s u ∧ ¬ Connecting (s.threads u))
    (hlocked : HoldsPort cfg s' t ∨ Connecting (s'.threads t) → ∀ u, Rivals cfg s' t u →
      ¬ Unlocked cfg s u) : Clear cfg s' := by
  have holds {u : Nat} (hu : u ≠ t) : HoldsPort cfg s' u ↔ HoldsPort cfg s u := by
    simp only [HoldsPort, hothers u hu, hdepth u _ hu]
  have unlocked {u : Nat} (hu : u ≠ t) : Unlocked cfg s' u ↔ Unlocked cfg s u := by
    rw [Unlocked, Unlocked, holds hu, hothers u hu]
  have rivals {u v : Nat} (hu : u ≠ t) (hv : v ≠ t) : Rivals cfg s' u v ↔ Rivals cfg s u v := by
    rw [Rivals, Rivals, hothers u hu, hothers v hv]
  intro u v hr hun
  by_cases hu : u = t
  · have hv : v ≠ t := fun hv => hr.ne (hu.trans hv.symm)
    rw [hu] at hr hun
    rw [holds hv, hothers v hv]
    exact hunlocked hun v hr
  · rw [unlocked hu] at hun
    by_cases hv : v = t
    · rw [hv] at hr ⊢
      by_contra hno
      have hor : HoldsPort cfg s' t ∨ Connecting (s'.threads t) := by
        by_contra hn
        exact hno ⟨fun hh => hn (Or.inl hh), fun hc => hn (Or.inr hc)⟩
      exact hlocked hor u hr.symm hun
    · rw [holds hv, hothers v hv]
      exact h u v ((rivals hu hv).mp hr) hun

/-- The thread that moves keeps its transport, so it has the same rivals. -/
theorem rivals_moved {i : Nat} {d d' r r' : Program} {o : Owners Nat LockName}
    (hth : s.threads t = ⟨i, d, r⟩)
    (h : Rivals cfg { owners := o, threads := s.set t ⟨i, d', r'⟩ } t u) : Rivals cfg s t u := by
  have hu : u ≠ t := h.ne.symm
  obtain ⟨hne, hsh⟩ := h
  simp only [set_self, set_other hu] at hne hsh
  rw [Rivals, hth]
  exact ⟨hne, hsh⟩

/-- After a lock action, or before any, the thread has no request outstanding and is not
connecting. -/
theorem not_unlocked_of_done (h : ∀ a d, (s.threads t).done ≠ .act a :: d) :
    ¬ Unlocked cfg s t := by
  rintro (⟨⟨kind, d, hd⟩, -⟩ | ⟨-, d, hd | hd⟩)
  · exact h _ d hd
  · exact h _ d hd
  · exact h _ d hd

/-- One guarded step keeps the unlocked paths clear. -/
theorem clear_step (h : Clear cfg s) (hf : Fits cfg s) (hg : Guard cfg s l)
    (hs : Step cfg s l s') : Clear cfg s' := by
  have hf' := fits_step hf hs
  cases hs with
  | @start t i e call idle he =>
    have hfree : ∀ k, depth s.owners t k = 0 := fun k => by
      have : (depth s.owners t k : Int) = net k (s.threads t).rest := hf.held t k
      rw [idle, net_nil] at this
      omega
    refine clear_of_moved h (fun u hu => set_other hu) (fun _ _ _ => rfl) ?_ ?_
    · exact fun hun => absurd hun (not_unlocked_of_done (by simp))
    · rintro (⟨k, -, hk⟩ | ⟨-, d, hd⟩)
      · exact absurd hk (by simp [hfree])
      · exact absurd hd (by simp)
  | @acquire t i k d r o hth ha =>
    refine clear_of_moved h (fun u hu => set_other hu) (fun u k' hu => ?_)
      (fun hun => absurd hun (not_unlocked_of_done (by simp))) ?_
    · rw [depth_acquire ha, if_neg fun hc => hu hc.1, Nat.add_zero]
    · intro hor u hmoved hun
      have hr := rivals_moved hth hmoved
      rcases hor with ⟨k', hk', hdepth⟩ | ⟨-, d', hd⟩
      · simp only [set_self] at hk' hdepth
        rw [depth_acquire ha] at hdepth
        by_cases hkk : k = k'
        · -- the port lock itself is taken: the guard
          subst hkk
          obtain ⟨e, he, rfl⟩ := Option.map_eq_some_iff.mp hk'
          have hg : ∀ u, Rivals cfg s t u → ¬ Unlocked cfg s u := by
            simpa only [Guard, hth] using hg
          exact hg u hr hun
        · rw [if_neg fun hc => hkk hc.2, Nat.add_zero] at hdepth
          exact (h u t hr.symm hun).1 ⟨k', by rw [hth]; exact hk', hdepth⟩
      · simp only [set_self] at hd
        exact absurd hd (by simp)
  | @release t i k d r o hth ha =>
    refine clear_of_moved h (fun u hu => set_other hu) (fun u k' hu => ?_)
      (fun hun => absurd hun (not_unlocked_of_done (by simp))) ?_
    · have := depth_release ha u k'
      rwa [if_neg fun hc => hu hc.1, Nat.add_zero] at this
    · intro hor u hmoved hun
      have hr := rivals_moved hth hmoved
      rcases hor with ⟨k', hk', hdepth⟩ | ⟨-, d', hd⟩
      · simp only [set_self] at hk' hdepth
        have := depth_release ha t k'
        exact (h u t hr.symm hun).1 ⟨k', by rw [hth]; exact hk', by omega⟩
      · simp only [set_self] at hd
        exact absurd hd (by simp)
  | @act t i a d r hth =>
    have hholds : HoldsPort cfg { s with threads := s.set t ⟨i, .act a :: d, r⟩ } t ↔
        HoldsPort cfg s t := by
      simp only [HoldsPort, set_self, hth]
    have hrest : (s.threads t).rest = .act a :: r := by rw [hth]
    have hconnecting (ha : Opens a) : Connecting (s.threads t) := connecting_of_opens hf hrest ha
    refine clear_of_moved h (fun u hu => set_other hu) (fun _ _ _ => rfl) ?_ ?_
    · intro hun u hmoved
      have hr := rivals_moved hth hmoved
      rw [Unlocked, hholds] at hun
      simp only [set_self] at hun
      rcases hun with ⟨⟨kind, d', hd⟩, hno⟩ | ⟨-, d', hd | hd⟩
      · -- an unlocked request is sent: the guard
        obtain rfl : a = .send kind := Act.act.inj (List.cons.inj hd).1
        simp only [Guard, hth] at hg
        exact hg hno u hr
      · obtain rfl : a = .close := Act.act.inj (List.cons.inj hd).1
        simp only [Guard, hth] at hg
        exact ⟨(hg u hr).1, fun hc => (hg u hr).2 (Or.inr hc)⟩
      · obtain rfl : a = .reopen := Act.act.inj (List.cons.inj hd).1
        exact h t u hr (Or.inr (hconnecting (Or.inl rfl)))
    · intro hor u hmoved hun
      have hr := rivals_moved hth hmoved
      rw [hholds] at hor
      simp only [set_self] at hor
      rcases hor with hh | ⟨-, d', hd | hd⟩
      · exact (h u t hr.symm hun).1 hh
      · obtain rfl : a = .close := Act.act.inj (List.cons.inj hd).1
        simp only [Guard, hth] at hg
        exact (hg u hr).2 hun
      · obtain rfl : a = .reopen := Act.act.inj (List.cons.inj hd).1
        exact (h u t hr.symm hun).2 (hconnecting (Or.inl rfl))

theorem clear_idle (h : Idle s) : Clear cfg s :=
  fun t _ _ hun => absurd hun (not_unlocked_of_done (by simp [(h.threads t).1]))

theorem clear_of_guarded (h : Runs.Reach (system cfg) (Guard cfg) s) : Clear cfg s :=
  h.invariant (fun _ h0 => clear_idle h0) fun _ _ _ hr ih hg hs =>
    clear_step ih (fits_of_reach hr) hg hs

/-! ## Nothing collides -/

/-- A rival's request is outstanding under its port lock or unlocked. -/
theorem not_outstanding_of_holdsPort (hc : Clear cfg s) (hr : Rivals cfg s t u)
    (ht : HoldsPort cfg s t) : ¬ Outstanding (s.threads u) := by
  intro ho
  by_cases hu : HoldsPort cfg s u
  · exact hr.not_holdsPort ht hu
  · exact (hc u t hr.symm (Or.inl ⟨ho, hu⟩)).1 ht

theorem not_outstanding_of_connecting (hc : Clear cfg s) (hr : Rivals cfg s t u)
    (ht : Connecting (s.threads t)) : ¬ Outstanding (s.threads u) := by
  intro ho
  by_cases hu : HoldsPort cfg s u
  · exact (hc t u hr (Or.inr ht)).1 hu
  · exact (hc u t hr.symm (Or.inl ⟨ho, hu⟩)).2 ht

/-- **Writes, analyses and reconnects do not collide with reads**, in runs in which the paths that
take no port lock keep clear of the others. -/
theorem no_collision_of_guarded (h : Runs.Reach (system cfg) (Guard cfg) s)
    (hg : Guard cfg s (.step t)) : ¬ Collides cfg s t := by
  have hc := clear_of_guarded h
  have hf := fits_of_reach h
  cases hrest : (s.threads t).rest with
  | nil => simp [Collides, hrest]
  | cons x r =>
    cases x with
    | acquire _ | release _ => simp [Collides, hrest]
    | act a =>
      simp only [Guard, hrest] at hg
      simp only [Collides, hrest]
      cases a with
      | send kind =>
        rintro (⟨hkind, u, hr, ho⟩ | ⟨u, hr, ha⟩)
        · have ht := holdsPort_of_requests hf hrest ⟨kind, hkind, rfl⟩
          exact not_outstanding_of_holdsPort hc hr ht ho
        · have hu := holdsPort_of_analysing hf ha
          by_cases ht : HoldsPort cfg s t
          · exact hr.not_holdsPort ht hu
          · exact (hg ht u hr).1 hu
      | answer _ => exact id
      | drop =>
        rintro ⟨u, hr, ho⟩
        by_cases ht : HoldsPort cfg s t
        · exact not_outstanding_of_holdsPort hc hr ht ho
        · exact hg ht u hr ho
      | close =>
        rintro ⟨u, hr, ho⟩
        by_cases hu : HoldsPort cfg s u
        · exact (hg u hr).1 hu
        · exact (hg u hr).2 (Or.inl ⟨ho, hu⟩)
      | reopen =>
        rintro ⟨u, hr, ho⟩
        exact not_outstanding_of_connecting hc hr
          (connecting_of_opens hf hrest (Or.inl rfl)) ho
      | drain =>
        rintro ⟨u, hr, ho⟩
        exact not_outstanding_of_connecting hc hr
          (connecting_of_opens hf hrest (Or.inr rfl)) ho

/-- One step more of a run, by its label. -/
theorem prolong {guard : State → Label → Prop} (h : Runs.Reach (system cfg) guard s) (l : Label)
    (hg : guard s l) (hs : Step cfg s l s') : Runs.Reach (system cfg) guard s' :=
  h.step hg hs

/-- Nothing has begun. -/
def exampleIdle : State where
  owners _ := none
  threads _ := ⟨0, [], []⟩

/-- On a serial port, the write of one transport waits for the read of the other. -/
theorem serial_write_after_read : ∃ s,
    (s.threads 1).rest.head? = some (.act (.send .write)) ∧
    ¬ Collides [.rtu "p" 9600, .rtu "p" 9600] s 1 := by
  have h0 : Runs.Reach (system [.rtu "p" 9600, .rtu "p" 9600])
      (Guard [.rtu "p" 9600, .rtu "p" 9600]) exampleIdle :=
    .init ⟨fun _ => rfl, fun _ => ⟨rfl, rfl⟩⟩
  have h1 := prolong h0 (.start 0 0 (.readDataIter [⟨none, .answered⟩])) trivial (.start rfl rfl)
  have h2 := prolong h1 (.step 0)
    (fun u _ => not_unlocked_of_done (by by_cases hu : u = 0 <;> simp [State.set, hu, exampleIdle]))
    (.acquire rfl rfl)
  have h3 := prolong h2 (.step 0) (fun hno => absurd ⟨.port "p_9600", rfl, by decide⟩ hno)
    (.act rfl)
  have h4 := prolong h3 (.step 0) trivial (.act rfl)
  have h5 := prolong h4 (.step 0) trivial (.release rfl rfl)
  have h6 := prolong h5 (.start 1 1 (.writeData [([], true)])) trivial (.start rfl rfl)
  have h7 := prolong h6 (.step 1) trivial (.acquire rfl rfl)
  have h8 := prolong h7 (.step 1)
    (fun u _ => not_unlocked_of_done (by
      by_cases hu : u = 1
      · simp [State.set, hu]
      · by_cases hu' : u = 0 <;> simp [State.set, Function.update, hu, hu', exampleIdle]))
    (.acquire rfl rfl)
  exact ⟨_, rfl, no_collision_of_guarded h8
    fun hno => absurd ⟨.port "p_9600", rfl, by decide⟩ hno⟩

/-- On a TCP connection, a write is sent while the other transport's read is outstanding. -/
theorem not_collision_free : ¬ ∀ cfg s t, Runs.Reachable (system cfg) s → ¬ Collides cfg s t := by
  intro hall
  have h0 : Runs.Reachable (system [.tcp "h" 502, .tcp "h" 502]) exampleIdle :=
    .init ⟨fun _ => rfl, fun _ => ⟨rfl, rfl⟩⟩
  have h1 := prolong h0 (.start 0 0 (.readDataIter [⟨none, .answered⟩])) trivial (.start rfl rfl)
  have h2 := prolong h1 (.step 0) trivial (.act rfl)
  have h3 := prolong h2 (.start 1 1 (.writeData [([], true)])) trivial (.start rfl rfl)
  have h4 := prolong h3 (.step 1) trivial (.acquire rfl rfl)
  have h5 := prolong h4 (.step 1) trivial (.acquire rfl rfl)
  refine hall _ _ 1 h5 (Or.inl ⟨by simp, 0, ⟨?_, .tcp "h" 502, .tcp "h" 502, "h-tcp-502", ?_⟩, ?_⟩)
  · decide
  · exact ⟨rfl, rfl, by decide, by decide⟩
  · exact ⟨.read, [], rfl⟩

end Runs

end BusLocking

end ProtocolGateway
