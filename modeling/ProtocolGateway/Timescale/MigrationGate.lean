import Mathlib.Data.List.Basic
import ProtocolGateway.Lib.Runs

/-!
# The migration gate

`MigrationGate` pauses the flush worker while a migration runs. Migrations may nest and overlap, so
the gate counts their claims; `gate_of_reach` says that it is set exactly while a claim is
outstanding, in every run.

The worker tests the gate and begins its transaction in separate steps, and a migration that sets
the gate waits for nobody. A claim made between the two finds the worker past the gate, and the
write runs during the migration. Where no claim is made while the worker is past the gate,
`exclusive_of_reach` says that no data write overlaps a claim. What the schema lock guards never
overlaps one (`schemaLock_of_reach`).

Every call of `set` and `clear` holds the claims lock, the counter is read nowhere else, and the
flag changes at most once in a call; a call is one step.
-/

namespace ProtocolGateway

/-! ## The gate -/

/-- `MigrationGate`. -/
structure MigrationGate where
  claims : Nat
  isSet : Bool
  deriving DecidableEq, Repr

namespace MigrationGate

/-- A gate without claims. -/
def init : MigrationGate := ⟨0, false⟩

/-- `set`. -/
def set (g : MigrationGate) : MigrationGate := ⟨g.claims + 1, true⟩

/-- `clear`: one that matches no `set` is ignored. -/
def clear (g : MigrationGate) : MigrationGate :=
  ⟨g.claims - 1, if g.claims - 1 = 0 then false else g.isSet⟩

end MigrationGate

namespace Migration

open Runs

/-! ## The worker and the migrations -/

/-- Where the flush worker stands. -/
inductive FlushPc
  /-- without an item -/
  | idle
  /-- at the first wait for migrations -/
  | waiting
  /-- at the checks of the item -/
  | preparing
  /-- at the second wait -/
  | waitingAgain
  /-- at the check for an outage -/
  | checking
  /-- before the schema lock -/
  | locking
  /-- before `session.begin()` -/
  | beginning
  /-- in the transaction -/
  | writing
  /-- stopped -/
  | stopped
  deriving DecidableEq, Repr

/-- Past the last test of the gate, and not through with the write. -/
def FlushPc.pastGate : FlushPc → Bool
  | checking | locking | beginning | writing => true
  | idle | waiting | preparing | waitingAgain | stopped => false

/-- It holds the schema lock. -/
def FlushPc.locked : FlushPc → Bool
  | beginning | writing => true
  | idle | waiting | preparing | waitingAgain | checking | locking | stopped => false

/-- Who holds the schema lock. -/
inductive Holder
  | worker
  | other
  deriving DecidableEq, Repr

structure Bridge where
  gate : MigrationGate
  /-- the migrations that have set the gate and not cleared it -/
  outstanding : List Nat
  /-- `_stop_event` -/
  stopRequested : Bool
  schemaLock : Option Holder
  worker : FlushPc

inductive Event
  /-- a migration claims the gate -/
  | set (migration : Nat)
  /-- a migration releases its claim -/
  | clear (migration : Nat)
  | stop
  /-- another thread than the worker takes the schema lock -/
  | lock
  | unlock
  /-- the worker goes on; where it may turn back, `goesOn` says whether it does not -/
  | work (goesOn : Bool)

namespace Bridge

/-- The next step of the worker. The waits end when the gate is clear or a stop is requested. -/
def work (s : Bridge) (goesOn : Bool) : FlushPc → Option Bridge
  | .idle =>
    -- the shutdown sentinel, or an empty queue after a stop request
    some { s with worker := if goesOn then .waiting else .stopped }
  | .waiting =>
    if s.gate.isSet && !s.stopRequested then some s else some { s with worker := .preparing }
  | .preparing =>
    -- the item is stale or without data, or its validation fails
    if !goesOn then some { s with worker := .idle }
    else if s.stopRequested then some { s with worker := .stopped }
    else some { s with worker := .waitingAgain }
  | .waitingAgain =>
    if s.gate.isSet && !s.stopRequested then some s else some { s with worker := .checking }
  | .checking => some { s with worker := if goesOn then .locking else .idle }
  | .locking =>
    if s.schemaLock = none then
      some { s with schemaLock := some .worker, worker := .beginning }
    else none
  | .beginning =>
    if goesOn then some { s with worker := .writing }
    else some { s with schemaLock := none, worker := .idle }
  | .writing => some { s with schemaLock := none, worker := .idle }
  | .stopped => none

/-- One event, where it is possible. -/
def step (s : Bridge) : Event → Option Bridge
  | .set migration =>
    if migration ∈ s.outstanding then none
    else some { s with gate := s.gate.set, outstanding := migration :: s.outstanding }
  | .clear migration =>
    if migration ∈ s.outstanding then
      some { s with gate := s.gate.clear, outstanding := s.outstanding.erase migration }
    else none
  | .stop => some { s with stopRequested := true }
  | .lock => if s.schemaLock = none then some { s with schemaLock := some .other } else none
  | .unlock => if s.schemaLock = some .other then some { s with schemaLock := none } else none
  | .work goesOn => s.work goesOn s.worker

/-- The bridge when the worker is started. -/
def start : Bridge := ⟨.init, [], false, none, .idle⟩

end Bridge

/-- The runs of the migrations and the worker. -/
def system : System Bridge Event where
  init s := s = Bridge.start
  step s e s' := s.step e = some s'

/-- No migration claims the gate while the worker is past it, unless a stop was requested. -/
def Orderly (s : Bridge) : Event → Prop
  | .set _ => s.stopRequested = true ∨ s.worker.pastGate = false
  | _ => True

/-- **Migrations and data writes exclude each other.** -/
structure Exclusive (s : Bridge) : Prop where
  /-- the gate is set exactly while a claim is outstanding -/
  isSet_iff : s.gate.isSet = true ↔ s.outstanding ≠ []
  /-- no transaction is open then, unless a stop was requested -/
  no_write : s.outstanding ≠ [] → s.worker = .writing → s.stopRequested = true

/-! ## The gate counts -/

/-- The gate counts the outstanding claims. -/
structure Counts (s : Bridge) : Prop where
  claims : s.gate.claims = s.outstanding.length
  isSet_iff : s.gate.isSet = true ↔ s.outstanding ≠ []

variable {s s' : Bridge}

/-- **What a step of the worker can do.** It goes somewhere outside the schema lock, and past the
gate only when that is clear or a stop is requested; or it takes the lock, begins, or releases it. -/
theorem work_cases {goesOn : Bool} (h : s.work goesOn s.worker = some s') :
    (∃ pc, s' = { s with worker := pc } ∧ s.worker.locked = false ∧ pc.locked = false ∧
      (pc.pastGate = true → s.worker.pastGate = true ∨
        s.gate.isSet = false ∨ s.stopRequested = true)) ∨
    (s.worker = .locking ∧ s.schemaLock = none ∧
      s' = { s with schemaLock := some .worker, worker := .beginning }) ∨
    (s.worker = .beginning ∧ s' = { s with worker := .writing }) ∨
    (s.worker.locked = true ∧ s' = { s with schemaLock := none, worker := .idle }) := by
  cases hworker : s.worker
  all_goals rw [hworker] at h
  case idle =>
    obtain rfl := Option.some.inj h
    cases goesOn <;> exact .inl ⟨_, rfl, rfl, rfl, by simp [FlushPc.pastGate]⟩
  case waiting =>
    simp only [Bridge.work] at h
    split at h <;> obtain rfl := Option.some.inj h
    · exact .inl ⟨.waiting, by rw [← hworker], rfl, rfl, by simp [FlushPc.pastGate]⟩
    · exact .inl ⟨_, rfl, rfl, rfl, by simp [FlushPc.pastGate]⟩
  case preparing =>
    simp only [Bridge.work] at h
    split at h
    · obtain rfl := Option.some.inj h
      exact .inl ⟨_, rfl, rfl, rfl, by simp [FlushPc.pastGate]⟩
    · split at h <;> obtain rfl := Option.some.inj h
      · exact .inl ⟨_, rfl, rfl, rfl, by simp [FlushPc.pastGate]⟩
      · exact .inl ⟨_, rfl, rfl, rfl, by simp [FlushPc.pastGate]⟩
  case waitingAgain =>
    simp only [Bridge.work] at h
    split at h <;> obtain rfl := Option.some.inj h
    · exact .inl ⟨.waitingAgain, by rw [← hworker], rfl, rfl, by simp [FlushPc.pastGate]⟩
    · next hclear =>
      refine .inl ⟨_, rfl, rfl, rfl, fun _ => .inr ?_⟩
      simpa [or_comm, imp_iff_or_not] using hclear
  case checking =>
    obtain rfl := Option.some.inj h
    cases goesOn <;> exact .inl ⟨_, rfl, rfl, rfl, fun _ => .inl rfl⟩
  case locking =>
    simp only [Bridge.work] at h
    split at h
    · next hfree =>
      obtain rfl := Option.some.inj h
      exact .inr (.inl ⟨rfl, hfree, rfl⟩)
    · cases h
  case beginning =>
    simp only [Bridge.work] at h
    split at h <;> obtain rfl := Option.some.inj h
    · exact .inr (.inr (.inl ⟨rfl, rfl⟩))
    · exact .inr (.inr (.inr ⟨rfl, rfl⟩))
  case writing =>
    obtain rfl := Option.some.inj h
    exact .inr (.inr (.inr ⟨rfl, rfl⟩))
  case stopped => cases h

/-- The worker touches neither the gate, nor the claims, nor the stop request. -/
theorem work_frame {goesOn : Bool} (h : s.work goesOn s.worker = some s') :
    s'.gate = s.gate ∧ s'.outstanding = s.outstanding ∧ s'.stopRequested = s.stopRequested := by
  rcases work_cases h with ⟨pc, rfl, -⟩ | ⟨-, -, rfl⟩ | ⟨-, rfl⟩ | ⟨-, rfl⟩
  · exact ⟨rfl, rfl, rfl⟩
  · exact ⟨rfl, rfl, rfl⟩
  · exact ⟨rfl, rfl, rfl⟩
  · exact ⟨rfl, rfl, rfl⟩

namespace Counts

theorem set (h : Counts s) (migration : Nat) :
    Counts { s with gate := s.gate.set, outstanding := migration :: s.outstanding } where
  claims := by simp [MigrationGate.set, h.claims]
  isSet_iff := by simp [MigrationGate.set]

theorem clear (h : Counts s) {migration : Nat} (hmem : migration ∈ s.outstanding) :
    Counts { s with gate := s.gate.clear, outstanding := s.outstanding.erase migration } where
  claims := by
    rw [List.length_erase_of_mem hmem]
    exact congrArg (· - 1) h.claims
  isSet_iff := by
    have hlen := List.length_erase_of_mem hmem
    simp only [MigrationGate.clear, h.claims, ← hlen]
    split
    · next hzero => simp [List.length_eq_zero_iff.mp hzero]
    · next hpos =>
      have hset : s.gate.isSet = true := h.isSet_iff.mpr (List.ne_nil_of_mem hmem)
      simp only [hset, true_iff]
      exact fun hnil => hpos (by rw [hnil]; rfl)

theorem step (h : Counts s) {e : Event} (hstep : s.step e = some s') : Counts s' := by
  cases e with
  | set migration =>
    simp only [Bridge.step] at hstep
    split at hstep
    · cases hstep
    · obtain rfl := Option.some.inj hstep
      exact h.set migration
  | clear migration =>
    simp only [Bridge.step] at hstep
    split at hstep
    · next hmem =>
      obtain rfl := Option.some.inj hstep
      exact h.clear hmem
    · cases hstep
  | stop =>
    obtain rfl := Option.some.inj hstep
    exact ⟨h.claims, h.isSet_iff⟩
  | lock | unlock =>
    simp only [Bridge.step] at hstep
    split at hstep
    · obtain rfl := Option.some.inj hstep
      exact ⟨h.claims, h.isSet_iff⟩
    · cases hstep
  | work goesOn =>
    obtain ⟨hgate, houtstanding, -⟩ := work_frame hstep
    exact ⟨by rw [hgate, houtstanding]; exact h.claims,
      by rw [hgate, houtstanding]; exact h.isSet_iff⟩

end Counts

/-- **The gate is set exactly while a claim is outstanding**, in every run. -/
theorem gate_of_reach {guard : Bridge → Event → Prop} (h : Reach system guard s) : Counts s := by
  refine Reach.invariant (P := Counts) (fun s h0 => ?_) (fun _ _ _ _ ih _ hstep => ih.step hstep) h
  obtain rfl := h0
  exact ⟨rfl, by simp [Bridge.start, MigrationGate.init]⟩

/-! ## The schema lock -/

/-- The worker holds the schema lock when it writes. -/
def Locks (s : Bridge) : Prop := s.worker.locked = true → s.schemaLock = some .worker

theorem Locks.step (h : Locks s) {e : Event} (hstep : s.step e = some s') : Locks s' := by
  cases e with
  | set | clear =>
    simp only [Bridge.step] at hstep
    split at hstep <;> cases hstep
    exact h
  | stop =>
    obtain rfl := Option.some.inj hstep
    exact h
  | lock =>
    simp only [Bridge.step] at hstep
    split at hstep
    · next hfree =>
      obtain rfl := Option.some.inj hstep
      intro hlocked
      rw [h hlocked] at hfree
      cases hfree
    · cases hstep
  | unlock =>
    simp only [Bridge.step] at hstep
    split at hstep
    · next hother =>
      obtain rfl := Option.some.inj hstep
      intro hlocked
      rw [h hlocked] at hother
      cases hother
    · cases hstep
  | work goesOn =>
    rcases work_cases hstep with ⟨pc, rfl, -, hpc, -⟩ | ⟨-, -, rfl⟩ | ⟨hworker, rfl⟩ | ⟨-, rfl⟩
    · intro hlocked
      rw [hpc] at hlocked
      cases hlocked
    · exact fun _ => rfl
    · exact fun _ => h (by rw [hworker]; rfl)
    · exact fun hlocked => by cases hlocked

/-- **What another thread does under the schema lock never overlaps a data write**, in every run. -/
theorem schemaLock_of_reach {guard : Bridge → Event → Prop} (h : Reach system guard s)
    (hother : s.schemaLock = some .other) : s.worker ≠ .writing := by
  have hlocks : Locks s := by
    refine Reach.invariant (P := Locks) (fun s h0 => ?_) (fun _ _ _ _ ih _ hstep => ih.step hstep) h
    obtain rfl := h0
    exact fun hlocked => by cases hlocked
  intro hwriting
  rw [hlocks (by rw [hwriting]; rfl)] at hother
  cases hother

/-! ## Claims and data writes -/

/-- While a claim is outstanding, the worker is not past the gate. -/
def Apart (s : Bridge) : Prop :=
  s.outstanding ≠ [] → s.worker.pastGate = true → s.stopRequested = true

theorem Apart.step (h : Apart s) (hcounts : Counts s) {e : Event} (horderly : Orderly s e)
    (hstep : s.step e = some s') : Apart s' := by
  cases e with
  | set migration =>
    simp only [Bridge.step] at hstep
    split at hstep
    · cases hstep
    · obtain rfl := Option.some.inj hstep
      intro _ hpast
      rcases horderly with hstop | hnot
      · exact hstop
      · rw [hnot] at hpast
        cases hpast
  | clear migration =>
    simp only [Bridge.step] at hstep
    split at hstep
    · next hmem =>
      obtain rfl := Option.some.inj hstep
      exact fun _ hpast => h (List.ne_nil_of_mem hmem) hpast
    · cases hstep
  | stop =>
    obtain rfl := Option.some.inj hstep
    exact fun _ _ => rfl
  | lock | unlock =>
    simp only [Bridge.step] at hstep
    split at hstep
    · obtain rfl := Option.some.inj hstep
      exact h
    · cases hstep
  | work goesOn =>
    rcases work_cases hstep with ⟨pc, rfl, -, -, hpc⟩ | ⟨hworker, -, rfl⟩ | ⟨hworker, rfl⟩ | ⟨-, rfl⟩
    · intro houtstanding hpast
      rcases hpc hpast with hbefore | hclear | hstop
      · exact h houtstanding hbefore
      · -- the gate was clear, so no claim is outstanding
        rw [hcounts.isSet_iff.mpr houtstanding] at hclear
        cases hclear
      · exact hstop
    · exact fun houtstanding _ => h houtstanding (by rw [hworker]; rfl)
    · exact fun houtstanding _ => h houtstanding (by rw [hworker]; rfl)
    · exact fun _ hpast => by cases hpast

/-- **Where no claim is made while the worker is past the gate, migrations and data writes exclude
each other.** -/
theorem exclusive_of_reach (h : Reach system Orderly s) : Exclusive s := by
  have hapart : Apart s := by
    refine Reach.invariant (P := Apart) (fun s h0 => ?_)
      (fun _ _ _ hr ih horderly hstep => ih.step (gate_of_reach hr) horderly hstep) h
    obtain rfl := h0
    exact fun houtstanding => absurd rfl houtstanding
  exact ⟨(gate_of_reach h).isSet_iff, fun houtstanding hwriting =>
    hapart houtstanding (by rw [hwriting]; rfl)⟩

/-- Two overlapping migrations hold the worker at its second wait; after both it writes. -/
theorem exclusive_overlapping : ∃ s, s.worker = .writing ∧ s.outstanding = [] ∧ Exclusive s := by
  have hstart : Reach system Orderly Bridge.start := .init rfl
  have htaken := hstart.step (i := Event.work true) trivial rfl
  have hpreparing := htaken.step (i := Event.work true) trivial rfl
  have hagain := hpreparing.step (i := Event.work true) trivial rfl
  have hfirst := hagain.step (i := Event.set 1) (.inr rfl) rfl
  have hsecond := hfirst.step (i := Event.set 2) (.inr rfl) rfl
  have hone := hsecond.step (i := Event.clear 1) trivial rfl
  have hheld := hone.step (i := Event.work true) trivial rfl
  have hboth := hheld.step (i := Event.clear 2) trivial rfl
  have hchecking := hboth.step (i := Event.work true) trivial rfl
  have hlocking := hchecking.step (i := Event.work true) trivial rfl
  have hbeginning := hlocking.step (i := Event.work true) trivial rfl
  have hwriting := hbeginning.step (i := Event.work true) trivial rfl
  exact ⟨_, rfl, rfl, exclusive_of_reach hwriting⟩

/-- **A claim made after the worker's last test does not hold it.** -/
theorem not_exclusive_late : ¬∀ s, Reachable system s → Exclusive s := by
  intro hall
  have hstart : Reachable system Bridge.start := .init rfl
  have htaken := hstart.step (i := Event.work true) trivial rfl
  have hpreparing := htaken.step (i := Event.work true) trivial rfl
  have hagain := hpreparing.step (i := Event.work true) trivial rfl
  have hchecking := hagain.step (i := Event.work true) trivial rfl
  have hclaimed := hchecking.step (i := Event.set 1) trivial rfl
  have hlocking := hclaimed.step (i := Event.work true) trivial rfl
  have hbeginning := hlocking.step (i := Event.work true) trivial rfl
  have hwriting := hbeginning.step (i := Event.work true) trivial rfl
  exact absurd ((hall _ hwriting).no_write (List.cons_ne_nil _ _) rfl) (by decide)

end Migration

end ProtocolGateway
