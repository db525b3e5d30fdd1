import Mathlib.Logic.Function.Basic
import ProtocolGateway.Lib.Runs

/-!
# The reconnect loop of the MQTT bridge

When the broker drops the connection, `on_disconnect` clears `connected` and starts a thread that
reconnects with growing delays. So does `connect()` after the first call. A thread is only started
when `_reconnect_thread` is not alive, and it clears that reference before it ends. `write_data`
assigns `connected` as well, and never starts a thread.

The callbacks, the publisher and the threads run beside one another, so here every access to the
shared fields is a step of its own. A thread that has seen `connected` and is about to end is still
alive: a disconnect that comes then starts nothing. `reconnecting_of_guarded` is the condition under
which somebody always looks after the connection.
-/

namespace ProtocolGateway

namespace MqttReconnect

/-! ## Threads -/

/-- Where a reconnect thread is. The attempts so far are counted. -/
inductive Phase
  /-- constructed, and not started -/
  | created
  /-- before `while not self.connected` -/
  | test (attempt : Nat)
  /-- before `client.reconnect()` -/
  | pausing (attempt : Nat)
  /-- before the test that follows a reconnect -/
  | waiting (attempt : Nat)
  /-- before `self._reconnect_thread = None` -/
  | clearing
  /-- behind it -/
  | cleared
  /-- ended -/
  | dead
deriving DecidableEq, Repr

namespace Phase

/-- `is_alive()`. -/
def alive : Phase → Bool
  | created | dead => false
  | test _ | pausing _ | waiting _ | clearing | cleared => true

/-- The loop goes on, and `connected` will be tested again unless the loop gives up. -/
def Running : Phase → Prop
  | test _ | pausing _ | waiting _ => True
  | created | clearing | cleared | dead => False

/-- The thread has not cleared the reference yet. -/
def Active (p : Phase) : Prop := p.Running ∨ p = clearing

theorem Active.alive {p : Phase} (h : p.Active) : p.alive = true := by
  rcases h with h | rfl
  · cases p <;> first | rfl | exact h.elim
  · rfl

end Phase

/-- Where a call of `_start_reconnect_thread` is. -/
inductive Starter
  /-- no call -/
  | idle
  /-- before `self._reconnect_thread is not None` -/
  | check
  /-- before `self._reconnect_thread.is_alive()` -/
  | probe
  /-- before the assignment of a new thread -/
  | assign
  /-- before `start()` of the new thread -/
  | start (thread : Nat)
deriving DecidableEq, Repr

/-- The call is going to start a thread. -/
def Starter.Committed : Starter → Prop
  | assign | start _ => True
  | idle | check | probe => False

/-- The bridge: the shared fields, the threads by their numbers, and the calls in progress. -/
structure State where
  connected : Bool
  firstConnection : Bool
  reconnectThread : Option Nat
  threads : Nat → Phase
  nextThread : Nat
  starters : Nat → Starter
  /-- history: the bridge has been connected -/
  everConnected : Bool
  /-- history: the thread that was started last has exhausted its attempts -/
  gaveUp : Bool

/-- What happens. Calls and threads are given by their numbers. -/
inductive Event
  | onConnect
  | onDisconnect (call : Nat)
  | connect (call : Nat)
  /-- `self.connected = self.client.is_connected()` -/
  | sync (isConnected : Bool)
  /-- `self.connected = False` after a publish that failed -/
  | publishFailed
  /-- a call of `_start_reconnect_thread` goes on -/
  | starter (call : Nat)
  /-- a thread goes on; its reconnect succeeds or raises -/
  | thread (i : Nat) (reconnected : Bool)

/-! ## Steps -/

/-- Another phase for a thread. -/
def State.setThread (s : State) (i : Nat) (p : Phase) : State :=
  { s with threads := Function.update s.threads i p }

/-- Another place for a call. -/
def State.setStarter (s : State) (c : Nat) (p : Starter) : State :=
  { s with starters := Function.update s.starters c p }

/-- The assignment of a new thread. -/
def State.assigned (s : State) (c : Nat) : State :=
  { (s.setStarter c (.start s.nextThread)).setThread s.nextThread .created with
    reconnectThread := some s.nextThread
    nextThread := s.nextThread + 1 }

/-- `start()`. -/
def State.started (s : State) (c i : Nat) : State :=
  { (s.setStarter c .idle).setThread i (.test 0) with gaveUp := false }

/-- A step of `_start_reconnect_thread`. -/
def starterStep (s : State) (c : Nat) : State :=
  match s.starters c with
  | .idle => s
  | .check => s.setStarter c (if s.reconnectThread = none then .assign else .probe)
  | .probe =>
    match s.reconnectThread with
    -- `None` has no `is_alive`: the call ends with an exception
    | none => s.setStarter c .idle
    | some i => s.setStarter c (if (s.threads i).alive then .idle else .assign)
  | .assign => s.assigned c
  | .start i => s.started c i

variable (reconnectAttempts : Nat)

/-- The end of the loop body: give up, or go round again. -/
def attemptFailed (s : State) (i attempt : Nat) : State :=
  if 0 < reconnectAttempts ∧ reconnectAttempts ≤ attempt then
    { s.setThread i .clearing with gaveUp := true }
  else s.setThread i (.test attempt)

/-- A step of `_reconnect_loop`. -/
def threadStep (s : State) (i : Nat) (reconnected : Bool) : State :=
  match s.threads i with
  | .created | .dead => s
  | .test attempt => s.setThread i (if s.connected then .clearing else .pausing (attempt + 1))
  | .pausing attempt =>
    if reconnected then s.setThread i (.waiting attempt)
    else attemptFailed reconnectAttempts s i attempt
  | .waiting attempt =>
    if s.connected then s.setThread i .clearing else attemptFailed reconnectAttempts s i attempt
  | .clearing => { s.setThread i .cleared with reconnectThread := none }
  | .cleared => s.setThread i .dead

/-- One step. -/
def apply (s : State) : Event → State
  | .onConnect => { s with connected := true, everConnected := true }
  | .onDisconnect c => { s.setStarter c .check with connected := false }
  | .connect c =>
    if s.firstConnection then { s with firstConnection := false } else s.setStarter c .check
  | .sync isConnected =>
    { s with connected := isConnected, everConnected := s.everConnected || isConnected }
  | .publishFailed => { s with connected := false }
  | .starter c => starterStep s c
  | .thread i reconnected => threadStep reconnectAttempts s i reconnected

/-- A new call has a free number. -/
def Allowed (s : State) : Event → Bool
  | .onDisconnect c | .connect c => s.starters c = .idle
  | .onConnect | .sync _ | .publishFailed | .starter _ | .thread _ _ => true

/-- A new bridge. -/
def new : State where
  connected := false
  firstConnection := true
  reconnectThread := none
  threads := fun _ => .dead
  nextThread := 0
  starters := fun _ => .idle
  everConnected := false
  gaveUp := false

/-- The life of a bridge. -/
def system : Runs.System State Event where
  init s := s = new
  step s e s' := Allowed s e = true ∧ s' = apply reconnectAttempts s e

/-! ## What is promised -/

/-- At most one loop runs; and once the bridge has been connected, then while it is not and no call
is under way, a loop runs, unless the last one gave up. -/
structure Reconnecting (s : State) : Prop where
  one : ∀ i j, (s.threads i).Running → (s.threads j).Running → i = j
  running : s.everConnected = true → s.connected = false → (∀ c, s.starters c = .idle) →
    s.gaveUp = false → ∃ i, (s.threads i).Running

/-- Somebody looks after the connection: a loop that runs, a call that is going to start one, or a
call that has not looked yet and will not find a thread that is about to end. -/
def Served (s : State) : Prop :=
  s.gaveUp = true ∨ (∃ i, (s.threads i).Running) ∨
    ∃ c, (s.starters c).Committed ∨ (s.starters c = .check ∧ ∀ i, s.threads i ≠ .clearing)

/-- The next step of a call finds no thread alive. -/
def FindsNone (s : State) (c : Nat) : Prop :=
  (s.starters c = .check ∧ s.reconnectThread = none) ∨
    (s.starters c = .probe ∧ ∃ i, s.reconnectThread = some i ∧ (s.threads i).alive = false)

/-- The condition on the order of the steps. A disconnect does not come while a thread is about to
end, unless the connection is served anyway; `write_data` takes `connected` away only from a
connection that is served; and a call finds no thread alive only while no other call is going to
start one. -/
def Guard (s : State) : Event → Prop
  | .onDisconnect _ => s.everConnected = true → Served s ∨ ∀ i, s.threads i ≠ .clearing
  | .sync isConnected =>
    isConnected = false → s.everConnected = true → s.connected = true → Served s
  | .publishFailed => s.everConnected = true → s.connected = true → Served s
  | .starter c => FindsNone s c → ∀ d, ¬(s.starters d).Committed
  | .onConnect | .connect _ | .thread _ _ => True

/-! ## The invariant -/

/-- The reference is to the thread that is active or about to be started, of which there is one. -/
structure Linked (s : State) : Prop where
  ref_of_active : ∀ i, (s.threads i).Active → s.reconnectThread = some i
  ref_live : ∀ i, s.reconnectThread = some i →
    (s.threads i).Active ∨ ∃ c, s.starters c = .start i
  idle_of_committed : ∀ c, (s.starters c).Committed → ∀ i, ¬(s.threads i).Active
  committed_unique : ∀ c d, (s.starters c).Committed → (s.starters d).Committed → c = d
  ref_of_start : ∀ c i, s.starters c = .start i → s.reconnectThread = some i

/-- The invariant of guarded runs. -/
structure Inv (s : State) : Prop extends Linked s where
  served : s.everConnected = true → s.connected = false → Served s

theorem inv_new : Inv new where
  ref_of_active i h := by
    rcases h with h | h
    · exact h.elim
    · cases h
  ref_live i h := by cases h
  idle_of_committed c h := h.elim
  committed_unique c d h := h.elim
  ref_of_start c i h := by cases h
  served h := by cases h

/-- The promise follows. -/
theorem Inv.reconnecting {s : State} (h : Inv s) : Reconnecting s where
  one i j hi hj := by
    have hij := (h.ref_of_active i (.inl hi)).symm.trans (h.ref_of_active j (.inl hj))
    exact Option.some.inj hij
  running hever hconnected hidle hgaveUp := by
    rcases h.served hever hconnected with hgave | hrunning | ⟨c, hc⟩
    · rw [hgaveUp] at hgave
      cases hgave
    · exact hrunning
    · rw [hidle c] at hc
      rcases hc with hc | ⟨hc, -⟩
      · exact hc.elim
      · cases hc

/-! ### Steps of calls -/

section Starters

variable {s : State} {c : Nat} {p : Starter}

@[simp] theorem starters_setStarter (s : State) (c : Nat) (p : Starter) (d : Nat) :
    (s.setStarter c p).starters d = if d = c then p else s.starters d :=
  Function.update_apply ..

@[simp] theorem threads_setThread (s : State) (i : Nat) (p : Phase) (j : Nat) :
    (s.setThread i p).threads j = if j = i then p else s.threads j :=
  Function.update_apply ..

/-- A call that is not going to start a thread, before and after. -/
theorem Linked.setStarter (h : Linked s) (hbefore : ¬(s.starters c).Committed)
    (hafter : ¬p.Committed) : Linked (s.setStarter c p) := by
  -- calls that are going to start a thread are the same ones
  have hsame (d : Nat) (hd : ((s.setStarter c p).starters d).Committed) :
      (s.setStarter c p).starters d = s.starters d := by
    rw [starters_setStarter] at hd ⊢
    split at hd
    · exact absurd hd hafter
    · next hne => rw [if_neg hne]
  refine ⟨h.ref_of_active, ?_, ?_, ?_, ?_⟩
  · intro i hi
    rcases h.ref_live i hi with hactive | ⟨d, hd⟩
    · exact .inl hactive
    · refine .inr ⟨d, ?_⟩
      have hne : d ≠ c := by
        rintro rfl
        exact hbefore (hd ▸ trivial)
      rw [starters_setStarter, if_neg hne, hd]
  · intro d hd
    rw [hsame d hd] at hd
    exact h.idle_of_committed d hd
  · intro d e hd he
    rw [hsame d hd] at hd
    rw [hsame e he] at he
    exact h.committed_unique d e hd he
  · intro d i hd
    have hsame := hsame d (by rw [hd]; trivial)
    exact h.ref_of_start d i (hsame ▸ hd)

/-- A call that is going to start the only thread. -/
theorem Linked.commit (h : Linked s) (hnone : ∀ d, ¬(s.starters d).Committed)
    (hidle : ∀ i, ¬(s.threads i).Active) : Linked (s.setStarter c .assign) := by
  have honly (d : Nat) (hd : ((s.setStarter c .assign).starters d).Committed) : d = c := by
    by_contra hne
    rw [starters_setStarter, if_neg hne] at hd
    exact hnone d hd
  refine ⟨h.ref_of_active, ?_, fun _ _ => hidle, ?_, ?_⟩
  · intro i hi
    rcases h.ref_live i hi with hactive | ⟨d, hd⟩
    · exact absurd hactive (hidle i)
    · exact absurd (hd ▸ trivial : (s.starters d).Committed) (hnone d)
  · intro d e hd he
    rw [honly d hd, honly e he]
  · intro d i hd
    obtain rfl := honly d (by rw [hd]; trivial)
    rw [starters_setStarter, if_pos rfl] at hd
    cases hd

/-- A call that moves on does not leave the connection alone, if it was not the one that serves
it. -/
theorem Served.setStarter (h : Served s) (hbefore : ¬(s.starters c).Committed)
    (hcheck : s.starters c = .check → p = .check ∨ (∃ i, (s.threads i).Running) ∨
      (∃ d, (s.starters d).Committed) ∨ ∃ i, s.threads i = .clearing) :
    Served (s.setStarter c p) := by
  have hcommitted (d : Nat) (hd : (s.starters d).Committed) :
      ((s.setStarter c p).starters d).Committed := by
    have hne : d ≠ c := by
      rintro rfl
      exact hbefore hd
    rwa [starters_setStarter, if_neg hne]
  rcases h with hgave | hrunning | ⟨d, hd | ⟨hd, hclear⟩⟩
  · exact .inl hgave
  · exact .inr (.inl hrunning)
  · exact .inr (.inr ⟨d, .inl (hcommitted d hd)⟩)
  · by_cases hdc : d = c
    · rcases hcheck (hdc ▸ hd) with rfl | hrunning | ⟨e, he⟩ | ⟨i, hi⟩
      · refine .inr (.inr ⟨c, .inr ⟨?_, hclear⟩⟩)
        rw [starters_setStarter, if_pos rfl]
      · exact .inr (.inl hrunning)
      · exact .inr (.inr ⟨e, .inl (hcommitted e he)⟩)
      · exact absurd hi (hclear i)
    · refine .inr (.inr ⟨d, .inr ⟨?_, hclear⟩⟩)
      rw [starters_setStarter, if_neg hdc, hd]

/-- A call that has found no thread alive serves the connection. -/
theorem served_assign : Served (s.setStarter c .assign) := by
  refine .inr (.inr ⟨c, .inl ?_⟩)
  rw [starters_setStarter, if_pos rfl]
  trivial

/-- The new thread takes the reference. -/
theorem Linked.assign (h : Linked s) (hc : (s.starters c).Committed) : Linked (s.assigned c) := by
  have honly (d : Nat) (hd : ((s.assigned c).starters d).Committed) : d = c := by
    by_contra hne
    refine hne (h.committed_unique d c ?_ hc)
    rwa [show (s.assigned c).starters d = _ from starters_setStarter s c _ d, if_neg hne] at hd
  have hidle (i : Nat) : ¬((s.assigned c).threads i).Active := by
    rw [show (s.assigned c).threads i = _ from threads_setThread _ _ _ i]
    split
    · rintro (hactive | hactive)
      · exact hactive
      · cases hactive
    · exact h.idle_of_committed c hc i
  have hstart : (s.assigned c).starters c = .start s.nextThread :=
    (starters_setStarter s c _ c).trans (if_pos rfl)
  refine ⟨fun i hi => absurd hi (hidle i), ?_, fun _ _ => hidle, ?_, ?_⟩
  · intro i hi
    obtain rfl := Option.some.inj hi
    exact .inr ⟨c, hstart⟩
  · intro d e hd he
    rw [honly d hd, honly e he]
  · intro d i hd
    obtain rfl := honly d (by rw [hd]; trivial)
    rw [hstart] at hd
    obtain rfl := Starter.start.inj hd
    rfl

theorem served_assigned : Served (s.assigned c) := by
  refine .inr (.inr ⟨c, .inl ?_⟩)
  rw [show (s.assigned c).starters c = _ from starters_setStarter s c _ c, if_pos rfl]
  trivial

/-- The thread that is started is the one of the reference. -/
theorem Linked.start {i : Nat} (h : Linked s) (hc : s.starters c = .start i) :
    Linked (s.started c i) := by
  have hcommitted : (s.starters c).Committed := hc ▸ trivial
  have hnone (d : Nat) : ¬((s.started c i).starters d).Committed := by
    rw [show (s.started c i).starters d = _ from starters_setStarter s c _ d]
    split
    · exact id
    · next hne => exact fun hd => hne (h.committed_unique d c hd hcommitted)
  have hthread (j : Nat) : (s.started c i).threads j = if j = i then .test 0 else s.threads j :=
    threads_setThread _ _ _ j
  refine ⟨?_, ?_, fun d hd => absurd hd (hnone d), fun d _ hd => absurd hd (hnone d), ?_⟩
  · intro j hj
    rw [hthread] at hj
    split at hj
    · next heq => exact heq ▸ h.ref_of_start c i hc
    · exact absurd hj (h.idle_of_committed c hcommitted j)
  · intro j hj
    obtain rfl := Option.some.inj ((h.ref_of_start c i hc).symm.trans hj)
    refine .inl (.inl ?_)
    rw [hthread, if_pos rfl]
    trivial
  · intro d j hd
    exact absurd (hd ▸ trivial : ((s.started c i).starters d).Committed) (hnone d)

theorem running_started {i : Nat} : ((s.started c i).threads i).Running := by
  rw [show (s.started c i).threads i = _ from threads_setThread _ _ _ i, if_pos rfl]
  trivial

/-- **A step of a call** keeps the invariant, if no other call is going to start a thread when this
one finds none alive. -/
theorem inv_starterStep (h : Inv s) (hg : Guard s (.starter c)) : Inv (starterStep s c) := by
  unfold starterStep
  split
  · exact h
  · next hcheck =>
    have hbefore : ¬(s.starters c).Committed := by
      rw [hcheck]
      exact id
    split
    · next hnone =>
      refine ⟨h.commit (hg (.inl ⟨hcheck, hnone⟩)) ?_, fun _ _ => served_assign⟩
      intro i hi
      have href := h.ref_of_active i hi
      rw [hnone] at href
      cases href
    · next hsome =>
      refine ⟨h.setStarter hbefore id, fun hever hconnected => ?_⟩
      refine (h.served hever hconnected).setStarter hbefore fun _ => .inr ?_
      obtain ⟨i, hi⟩ := Option.ne_none_iff_exists'.mp hsome
      rcases h.ref_live i hi with (hrunning | hclearing) | ⟨d, hd⟩
      · exact .inl ⟨i, hrunning⟩
      · exact .inr (.inr ⟨i, hclearing⟩)
      · exact .inr (.inl ⟨d, hd ▸ trivial⟩)
  · next hprobe =>
    have hbefore : ¬(s.starters c).Committed := by
      rw [hprobe]
      exact id
    have hcheck : s.starters c = .check → Starter.idle = .check ∨ (∃ i, (s.threads i).Running) ∨
        (∃ d, (s.starters d).Committed) ∨ ∃ i, s.threads i = .clearing := by
      rw [hprobe]
      intro hcheck
      cases hcheck
    split
    · exact ⟨h.setStarter hbefore id, fun hever hconnected =>
        (h.served hever hconnected).setStarter hbefore hcheck⟩
    · next i hi =>
      split
      · exact ⟨h.setStarter hbefore id, fun hever hconnected =>
          (h.served hever hconnected).setStarter hbefore hcheck⟩
      · next halive =>
        have hdead : (s.threads i).alive = false := Bool.not_eq_true _ ▸ halive
        refine ⟨h.commit (hg (.inr ⟨hprobe, i, hi, hdead⟩)) ?_, fun _ _ => served_assign⟩
        intro j hj
        obtain rfl := Option.some.inj ((h.ref_of_active j hj).symm.trans hi)
        rw [hj.alive] at hdead
        cases hdead
  · next hassign => exact ⟨h.assign (hassign ▸ trivial), fun _ _ => served_assigned⟩
  · next i hstart => exact ⟨h.start hstart, fun _ _ => .inr (.inl ⟨i, running_started⟩)⟩

end Starters

/-! ### Steps of threads -/

section Threads

variable {s : State} {i : Nat} {p : Phase} {reconnectAttempts : Nat}

/-- A thread that stays active. -/
theorem Linked.setThread (h : Linked s) (hbefore : (s.threads i).Active) (hafter : p.Active) :
    Linked (s.setThread i p) := by
  refine ⟨?_, ?_, ?_, h.committed_unique, h.ref_of_start⟩
  · intro j hj
    rw [threads_setThread] at hj
    split at hj
    · next heq => exact heq ▸ h.ref_of_active i hbefore
    · exact h.ref_of_active j hj
  · intro j hj
    obtain rfl := Option.some.inj ((h.ref_of_active i hbefore).symm.trans hj)
    refine .inl ?_
    rwa [threads_setThread, if_pos rfl]
  · intro c hc
    exact absurd hbefore (h.idle_of_committed c hc i)

/-- A thread that is not active, and is not going to be. -/
theorem Linked.setThread_idle (h : Linked s) (hbefore : ¬(s.threads i).Active)
    (hafter : ¬p.Active) : Linked (s.setThread i p) := by
  have hsame (j : Nat) : ((s.setThread i p).threads j).Active ↔ (s.threads j).Active := by
    rw [threads_setThread]
    split
    · next heq => rw [heq, iff_false_intro hafter, iff_false_intro hbefore]
    · exact Iff.rfl
  refine ⟨fun j hj => h.ref_of_active j ((hsame j).mp hj), ?_, ?_, h.committed_unique,
    h.ref_of_start⟩
  · intro j hj
    rw [hsame]
    exact h.ref_live j hj
  · intro c hc j
    rw [hsame]
    exact h.idle_of_committed c hc j

/-- A thread that clears the reference, which was to itself. -/
theorem Linked.clear (h : Linked s) (hclearing : s.threads i = .clearing) :
    Linked { s.setThread i .cleared with reconnectThread := none } := by
  have hactive : (s.threads i).Active := .inr hclearing
  have hnone (j : Nat) : ¬((s.setThread i .cleared).threads j).Active := by
    rw [threads_setThread]
    split
    · rintro (hj | hj)
      · exact hj
      · cases hj
    · next hne =>
      intro hj
      exact hne (Option.some.inj ((h.ref_of_active j hj).symm.trans (h.ref_of_active i hactive)))
  refine ⟨fun j hj => absurd hj (hnone j), fun j hj => (by cases hj), fun _ _ => hnone,
    h.committed_unique, ?_⟩
  intro c j hc
  exact absurd hactive (h.idle_of_committed c (hc ▸ trivial) i)

theorem running_setThread (hp : p.Running) : Served (s.setThread i p) := by
  refine .inr (.inl ⟨i, ?_⟩)
  rwa [threads_setThread, if_pos rfl]

/-- A thread that does not run serves nothing. -/
theorem Served.setThread (h : Served s) (hbefore : ¬(s.threads i).Running)
    (hafter : p ≠ .clearing) : Served (s.setThread i p) := by
  rcases h with hgave | ⟨j, hj⟩ | ⟨c, hc | ⟨hc, hclear⟩⟩
  · exact .inl hgave
  · have hne : j ≠ i := by
      rintro rfl
      exact hbefore hj
    refine .inr (.inl ⟨j, ?_⟩)
    rwa [threads_setThread, if_neg hne]
  · exact .inr (.inr ⟨c, .inl hc⟩)
  · refine .inr (.inr ⟨c, .inr ⟨hc, fun j => ?_⟩⟩)
    rw [threads_setThread]
    split
    · exact hafter
    · exact hclear j

/-- An attempt that failed: the loop goes on, or gives up. -/
theorem inv_attemptFailed (h : Inv s) (hactive : (s.threads i).Active) (attempt : Nat) :
    Inv (attemptFailed reconnectAttempts s i attempt) := by
  unfold attemptFailed
  split
  · obtain ⟨hactive', hlive, hidle, hunique, hstart⟩ :=
      h.setThread hactive (.inr rfl : Phase.clearing.Active)
    exact ⟨⟨hactive', hlive, hidle, hunique, hstart⟩, fun _ _ => .inl rfl⟩
  · exact ⟨h.setThread hactive (.inl trivial), fun _ _ => running_setThread trivial⟩

/-- **A step of a thread** keeps the invariant. -/
theorem inv_threadStep (h : Inv s) (reconnected : Bool) :
    Inv (threadStep reconnectAttempts s i reconnected) := by
  unfold threadStep
  split
  · exact h
  · exact h
  · next attempt htest =>
    have hactive : (s.threads i).Active := .inl (htest ▸ trivial)
    split
    · next hconnected =>
      refine ⟨h.setThread hactive (.inr rfl), fun _ hlost => ?_⟩
      rw [show s.connected = false from hlost] at hconnected
      cases hconnected
    · exact ⟨h.setThread hactive (.inl trivial), fun _ _ => running_setThread trivial⟩
  · next attempt hpausing =>
    have hactive : (s.threads i).Active := .inl (hpausing ▸ trivial)
    split
    · exact ⟨h.setThread hactive (.inl trivial), fun _ _ => running_setThread trivial⟩
    · exact inv_attemptFailed h hactive attempt
  · next attempt hwaiting =>
    have hactive : (s.threads i).Active := .inl (hwaiting ▸ trivial)
    split
    · next hconnected =>
      refine ⟨h.setThread hactive (.inr rfl), fun _ hlost => ?_⟩
      rw [show s.connected = false from hlost] at hconnected
      cases hconnected
    · exact inv_attemptFailed h hactive attempt
  · next hclearing =>
    refine ⟨h.clear hclearing, fun hever hconnected => ?_⟩
    exact (h.served hever hconnected).setThread (hclearing ▸ id) (fun heq => by cases heq)
  · next hcleared =>
    have hidle : ¬(s.threads i).Active := by
      rw [hcleared]
      rintro (hrunning | hclearing)
      · exact hrunning
      · cases hclearing
    have hdead : ¬Phase.dead.Active := by
      rintro (hrunning | hclearing)
      · exact hrunning
      · cases hclearing
    refine ⟨h.setThread_idle hidle hdead, fun hever hconnected => ?_⟩
    exact (h.served hever hconnected).setThread (hcleared ▸ id) (fun heq => by cases heq)

end Threads

/-! ### Runs -/

variable {reconnectAttempts : Nat} {s s' : State} {e : Event}

/-- The flags play no part in which thread the reference is to. -/
theorem Linked.congr (h : Linked s) (hthreads : s'.threads = s.threads)
    (hstarters : s'.starters = s.starters) (href : s'.reconnectThread = s.reconnectThread) :
    Linked s' := by
  obtain ⟨h₁, h₂, h₃, h₄, h₅⟩ := h
  rw [← hthreads, ← href] at h₁
  rw [← hthreads, ← href, ← hstarters] at h₂
  rw [← hthreads, ← hstarters] at h₃
  rw [← hstarters] at h₄
  rw [← hstarters, ← href] at h₅
  exact ⟨h₁, h₂, h₃, h₄, h₅⟩

/-- **A step** under the guard keeps the invariant. -/
theorem inv_apply (h : Inv s) (hg : Guard s e) (hallowed : Allowed s e = true) :
    Inv (apply reconnectAttempts s e) := by
  cases e with
  | onConnect => exact ⟨h.congr rfl rfl rfl, fun _ hlost => (by cases hlost)⟩
  | onDisconnect c =>
    have hbefore : ¬(s.starters c).Committed := by
      rw [of_decide_eq_true hallowed]
      exact id
    have hlinked : Linked (s.setStarter c .check) := h.setStarter hbefore id
    refine ⟨hlinked.congr rfl rfl rfl, fun hever _ => ?_⟩
    show Served (s.setStarter c .check)
    rcases hg hever with hserved | hclear
    · exact hserved.setStarter hbefore fun _ => .inl rfl
    · refine .inr (.inr ⟨c, .inr ⟨?_, hclear⟩⟩)
      rw [starters_setStarter, if_pos rfl]
  | connect c =>
    have hbefore : ¬(s.starters c).Committed := by
      rw [of_decide_eq_true hallowed]
      exact id
    rw [apply]
    split
    · exact ⟨h.congr rfl rfl rfl, h.served⟩
    · exact ⟨h.setStarter hbefore id, fun hever hconnected =>
        (h.served hever hconnected).setStarter hbefore fun _ => .inl rfl⟩
  | sync isConnected =>
    refine ⟨h.congr rfl rfl rfl, fun hever hlost => ?_⟩
    have hfalse : isConnected = false := hlost
    have hever' : s.everConnected = true := by
      rwa [apply, hfalse, Bool.or_false] at hever
    cases hconnected : s.connected with
    | false => exact h.served hever' hconnected
    | true => exact hg hfalse hever' hconnected
  | publishFailed =>
    refine ⟨h.congr rfl rfl rfl, fun hever _ => ?_⟩
    cases hconnected : s.connected with
    | false => exact h.served hever hconnected
    | true => exact hg hever hconnected
  | starter c => exact inv_starterStep h hg
  | thread i reconnected => exact inv_threadStep h reconnected

/-- **Reconnecting.** In every run under the guard at most one loop runs, and a bridge that has lost
its connection is looked after by a loop, unless that has given up. -/
theorem reconnecting_of_guarded (h : Runs.Reach (system reconnectAttempts) Guard s) :
    Reconnecting s := by
  refine (h.invariant (P := Inv) ?_ ?_).reconnecting
  · rintro s rfl
    exact inv_new
  · rintro s e s' - hinv hg ⟨hallowed, rfl⟩
    exact inv_apply hinv hg hallowed

/-! ### A disconnect while a thread ends, and two calls at a time -/

/-- The steps of a run are allowed, and meet a guard. -/
def Along (reconnectAttempts : Nat) (guard : State → Event → Prop) (s : State) :
    List Event → Prop
  | [] => True
  | e :: es => Allowed s e = true ∧ guard s e ∧
    Along reconnectAttempts guard (apply reconnectAttempts s e) es

theorem reach_foldl {guard : State → Event → Prop} {es : List Event}
    (h : Runs.Reach (system reconnectAttempts) guard s)
    (halong : Along reconnectAttempts guard s es) :
    Runs.Reach (system reconnectAttempts) guard (es.foldl (apply reconnectAttempts) s) := by
  induction es generalizing s with
  | nil => exact h
  | cons e es ih =>
    obtain ⟨hallowed, hguard, hes⟩ := halong
    exact ih (.step h hguard ⟨hallowed, rfl⟩) hes

/-- The bridge connects, loses the connection, and starts a loop. -/
def lostOnce : List Event :=
  [.onConnect, .onDisconnect 0, .starter 0, .starter 0, .starter 0]

/-- The loop reconnects and ends; before it has ended, the connection is lost again. -/
def lostTwice : List Event :=
  lostOnce ++ [.thread 0 true, .thread 0 true, .onConnect, .thread 0 true, .onDisconnect 0,
    .starter 0, .starter 0]

/-- A disconnect and a call of `connect()` that look for a thread at the same time. -/
def startedTwice : List Event :=
  [.connect 0, .onConnect, .onDisconnect 0, .connect 1, .starter 0, .starter 1, .starter 0,
    .starter 1, .starter 0, .starter 1]

theorem reconnecting_lostOnce : Reconnecting (lostOnce.foldl (apply 21) new) := by
  refine reconnecting_of_guarded (reach_foldl (.init rfl) ?_)
  refine ⟨rfl, trivial, rfl, ?_, rfl, ?_, rfl, ?_, rfl, ?_, trivial⟩
  · exact fun _ => .inr fun i hi => (by cases hi)
  · -- the only call in progress has not looked yet
    intro _ d hd
    rw [show (apply 21 (apply 21 new .onConnect) (.onDisconnect 0)).starters d = _ from
      starters_setStarter _ 0 .check d] at hd
    split at hd <;> exact hd
  · rintro (⟨hcheck, -⟩ | ⟨hprobe, -⟩)
    · cases hcheck
    · cases hprobe
  · rintro (⟨hcheck, -⟩ | ⟨hprobe, -⟩)
    · cases hcheck
    · cases hprobe

/-- A disconnect that comes while a thread is about to end is not looked after, and two calls that
look at the same time start two loops. -/
theorem not_reconnecting : (¬ ∀ s, Runs.Reachable (system 21) s → Reconnecting s) ∧
    ¬ ∀ s, Runs.Reachable (system 21) s →
      ∀ i j, (s.threads i).Running → (s.threads j).Running → i = j := by
  constructor
  · intro hall
    have hreach : Runs.Reachable (system 21) (lostTwice.foldl (apply 21) new) :=
      reach_foldl (.init rfl) ⟨rfl, trivial, rfl, trivial, rfl, trivial, rfl, trivial, rfl, trivial,
        rfl, trivial, rfl, trivial, rfl, trivial, rfl, trivial, rfl, trivial, rfl, trivial,
        rfl, trivial, trivial⟩
    have hidle (c : Nat) : (lostTwice.foldl (apply 21) new).starters c = .idle := by
      cases c <;> rfl
    obtain ⟨i, hi⟩ := (hall _ hreach).running rfl rfl hidle rfl
    -- the only thread is about to clear the reference
    cases i <;> exact hi
  · intro hall
    have hreach : Runs.Reachable (system 21) (startedTwice.foldl (apply 21) new) :=
      reach_foldl (.init rfl) ⟨rfl, trivial, rfl, trivial, rfl, trivial, rfl, trivial, rfl, trivial,
        rfl, trivial, rfl, trivial, rfl, trivial, rfl, trivial, rfl, trivial, trivial⟩
    exact absurd (hall _ hreach 0 1 trivial trivial) (by decide)

end MqttReconnect

end ProtocolGateway
