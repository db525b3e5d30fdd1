import ProtocolGateway.Lib.Outbox
import Mathlib.Data.Fintype.Basic

/-!
# Connection notices

The setter of `transport_base.connected`. An assignment that changes the state is recorded under a
lock, and announced after it: a loss by the notice that the connection is lost, a connection by the
notice that it is restored, unless it is the first one and no earlier run of the application left
the marker file of an alert. The notices go through an outbox, because a thread may change the state
while it holds a lock, in a region of `_notices_held`.

* `announced_of_reachable` — what is announced when several threads set `connected`.
* `assign_alone` — what one assignment does that no other thread comes into.
* `alternates_of_reach` — what is announced over restarts and reloads.
-/

namespace ProtocolGateway

namespace Notices

/-! ## Notices -/

/-- What `connected` announces. -/
inductive Notice
  | lost
  | restored (afterRestart : Bool)
  deriving DecidableEq, Repr

/-- The names that the texts of a transport are made of. -/
structure Settings where
  transportName : String
  host : Option String
  port : Option String

namespace Notice

/-- The text of a notice. -/
def message (cfg : Settings) : Notice → String
  | lost => "Connection lost: " ++ cfg.transportName ++ " (" ++ cfg.host.getD "" ++ ":" ++
      cfg.port.getD "" ++ ")"
  | restored afterRestart => "Connection restored: " ++ cfg.transportName ++ " (" ++
      cfg.host.getD (cfg.port.getD "") ++ ")" ++
      if afterRestart then " (after application restart)" else ""

/-- The title of a notice. -/
def title (cfg : Settings) : Notice → String
  | lost => "MPG Connection Alert for " ++ cfg.transportName
  | restored _ => "MPG Connection Restored for " ++ cfg.transportName

/-- A notice that a connection is restored. -/
def isRestored : Notice → Bool
  | lost => false
  | restored _ => true

/-- A loss is not reported under the title of a recovery. -/
theorem isRestored_of_title {cfg : Settings} {n n' : Notice} (h : n.title cfg = n'.title cfg) :
    n.isRestored = n'.isRestored := by
  have hhead (name : String) : "MPG Connection Alert for " ++ name ≠
      "MPG Connection Restored for " ++ name := by
    intro heq
    have hlist := congrArg (fun s : String => s.toList.drop 15) heq
    simp only [String.toList_append] at hlist
    cases hlist
  cases n with
  | lost =>
    cases n' with
    | lost => rfl
    | restored _ => exact absurd h (hhead _)
  | restored _ =>
    cases n' with
    | lost => exact absurd h.symm (hhead _)
    | restored _ => rfl

end Notice

/-! ## Threads that set `connected` -/

/-- Where a thread is in the setter. -/
inductive Pc
  | ready
  /-- it has set the state to connected; had the transport been connected before? -/
  | connectedNow (wasEverConnected : Bool)
  /-- it is about to queue a notice -/
  | announcing (notice : Notice)
  /-- it has queued the notice of a loss, the marker is not written yet -/
  | marking
  deriving DecidableEq

/-- After the notice of a loss comes the marker. -/
def Notice.next : Notice → Pc
  | lost => .marking
  | restored _ => .ready

/-- A transport, its marker file, the threads that set `connected`, and the outbox. -/
structure State (T : Type) where
  connected : Bool
  everConnected : Bool
  needsReconnection : Bool
  /-- the marker file is there -/
  marker : Bool
  pc : T → Pc
  outbox : Outbox.State T Notice
  /-- history: how often the connection was lost -/
  losses : Nat
  /-- history: how often it was established -/
  connects : Nat
  /-- history: how many connections were not announced -/
  silent : Nat

/-- A new transport; `prepare_for_reload` primes it for a transport that was connected before. -/
def State.start {T : Type} (primed marker : Bool) : State T where
  connected := false
  everConnected := primed
  needsReconnection := false
  marker := marker
  pc _ := .ready
  outbox := .empty
  losses := 0
  connects := 0
  silent := 0

variable {T : Type} [DecidableEq T]

/-- What a thread does. -/
inductive Act (T : Type)
  /-- the part of the setter under `_conn_state_lock` -/
  | assign (t : T) (value : Bool)
  /-- `_consume_disconnect_marker`; can the file be removed? -/
  | consumeMarker (t : T) (removed : Bool)
  /-- `_queue_notice` -/
  | queue (t : T)
  /-- `_mark_disconnect_alert_sent`; can the file be written? -/
  | mark (t : T) (written : Bool)
  /-- a region of `_notices_held` begins or ends, or `_deliver_pending_notices` goes on -/
  | outbox (a : Outbox.Act T Notice)

/-- Regions begin and end outside of the setter, which alone posts. -/
def State.Allows (s : State T) : Outbox.Act T Notice → Prop
  | .enter t | .leave t => s.pc t = .ready
  | .post _ _ => False
  | .take _ | .send _ => True

/-- One step of a thread. -/
inductive Step : State T → Act T → State T → Prop
  | same {s : State T} {t : T} (hready : s.pc t = .ready) (hidle : s.outbox.phase t = .idle) :
      Step s (.assign t s.connected) s
  | establish {s : State T} {t : T} (hready : s.pc t = .ready) (hidle : s.outbox.phase t = .idle)
      (hdown : s.connected = false) :
      Step s (.assign t true) { s with
        connected := true
        needsReconnection := false
        everConnected := true
        pc := Function.update s.pc t (.connectedNow s.everConnected)
        connects := s.connects + 1 }
  | lose {s : State T} {t : T} (hready : s.pc t = .ready) (hidle : s.outbox.phase t = .idle)
      (hup : s.connected = true) :
      Step s (.assign t false) { s with
        connected := false
        needsReconnection := true
        pc := if s.everConnected then Function.update s.pc t (.announcing .lost) else s.pc
        losses := s.losses + 1 }
  | consumeMarker {s : State T} {t : T} {wasEver : Bool} (removed : Bool)
      (hpc : s.pc t = .connectedNow wasEver) :
      Step s (.consumeMarker t removed) { s with
        marker := s.marker && !removed
        pc := Function.update s.pc t
          (if wasEver || (s.marker && removed) then .announcing (.restored !wasEver) else .ready)
        silent := if wasEver || (s.marker && removed) then s.silent else s.silent + 1 }
  | queue {s : State T} {t : T} {n : Notice} {outbox : Outbox.State T Notice}
      (hpc : s.pc t = .announcing n) (hpost : Outbox.step s.outbox (.post t n) = some outbox) :
      Step s (.queue t) { s with pc := Function.update s.pc t n.next, outbox := outbox }
  | mark {s : State T} {t : T} (written : Bool) (hpc : s.pc t = .marking)
      (hidle : s.outbox.phase t = .idle) :
      Step s (.mark t written) { s with
        marker := s.marker || written
        pc := Function.update s.pc t .ready }
  | outbox {s : State T} {a : Outbox.Act T Notice} {outbox : Outbox.State T Notice}
      (hallows : s.Allows a) (hstep : Outbox.step s.outbox a = some outbox) :
      Step s (.outbox a) { s with outbox := outbox }

/-- The runs of a transport from its construction on. -/
def system (T : Type) [DecidableEq T] (primed : Bool) : Runs.System (State T) (Act T) where
  init s := ∃ marker, s = .start primed marker
  step := Step

/-! ## What is announced -/

section Announced

variable [Fintype T]

/-- Losses that a thread has still to announce. -/
def Pc.lostDue : Pc → Nat
  | .announcing .lost => 1
  | _ => 0

/-- Connections that a thread has still to announce, or to pass over. -/
def Pc.restoredDue : Pc → Nat
  | .connectedNow _ | .announcing (.restored _) => 1
  | _ => 0

/-- Connections that a thread may still pass over. -/
def Pc.firstDue : Pc → Nat
  | .connectedNow false => 1
  | _ => 0

/-- **The invariant.** Every loss and every connection but the first is announced once or about to
be, and losses and connections take turns. -/
structure Announced (primed : Bool) (s : State T) : Prop where
  sound : Outbox.Sound s.outbox
  ever : s.connected = true → s.everConnected = true
  reload : primed = true → s.everConnected = true
  reconnection : s.needsReconnection = (decide (0 < s.losses) && !s.connected)
  alternating : s.connects = s.losses + s.connected.toNat
  lost : s.outbox.posted.count .lost + ∑ t, (s.pc t).lostDue = s.losses
  restored : s.outbox.posted.countP Notice.isRestored + ∑ t, (s.pc t).restoredDue + s.silent =
    s.connects
  first : s.silent + ∑ t, (s.pc t).firstDue ≤ (s.everConnected && !primed).toNat

omit [DecidableEq T] in
theorem Announced.start (primed marker : Bool) : Announced primed (State.start primed marker :
    State T) where
  sound := .empty
  ever h := absurd h Bool.false_ne_true
  reload h := h
  reconnection := rfl
  alternating := rfl
  lost := by simp [State.start, Outbox.State.empty, Pc.lostDue]
  restored := by simp [State.start, Outbox.State.empty, Pc.restoredDue]
  first := by simp [State.start, Pc.firstDue]

/-- What a sum over the threads becomes when one of them goes on in the setter. -/
theorem sum_moved {s : State T} {t : T} {p : Pc} {n n' : Nat} (value : Pc → Nat)
    (hold : value (s.pc t) = n) (hnew : value p = n') :
    ∑ t', value (Function.update s.pc t p t') + n = ∑ t', value (s.pc t') + n' := by
  rw [← hold, ← hnew]
  exact Outbox.sum_update value s.pc t p

/-- **Every step keeps the invariant.** -/
theorem Announced.step {primed : Bool} {s s' : State T} {a : Act T} (hs : Announced primed s)
    (h : Step s a s') : Announced primed s' := by
  obtain ⟨hsound, hever, hreload, hreconnection, hturn, hlosses, hconnects, hsilent⟩ := hs
  cases h with
  | same => exact ⟨hsound, hever, hreload, hreconnection, hturn, hlosses, hconnects, hsilent⟩
  | @establish t hready hidle hdown =>
    have hlost := sum_moved (p := .connectedNow s.everConnected) Pc.lostDue
      (show (s.pc t).lostDue = 0 by rw [hready]; rfl) (show _ = 0 from rfl)
    have hrestored := sum_moved (p := .connectedNow s.everConnected) Pc.restoredDue
      (show (s.pc t).restoredDue = 0 by rw [hready]; rfl) (show _ = 1 from rfl)
    have hfirst := sum_moved (p := .connectedNow s.everConnected) Pc.firstDue
      (show (s.pc t).firstDue = 0 by rw [hready]; rfl)
      (show _ = (!s.everConnected).toNat by cases s.everConnected <;> rfl)
    rw [hdown, Bool.toNat_false] at hturn
    refine ⟨hsound, fun _ => rfl, fun _ => rfl, ?_, ?_, ?_, ?_, ?_⟩
    · simp
    · dsimp only
      rw [Bool.toNat_true]
      omega
    · dsimp only
      omega
    · dsimp only
      omega
    · dsimp only
      generalize ∑ t', (Function.update s.pc t (.connectedNow s.everConnected) t').firstDue = due
        at hfirst
      cases hconnected : s.everConnected with
      | true =>
        rw [hconnected] at hsilent hfirst
        rw [Bool.not_true, Bool.toNat_false] at hfirst
        omega
      | false =>
        -- a transport that was primed has been connected before
        have hfresh : primed = false := by
          by_contra hprimed
          rw [hreload (Bool.eq_true_of_not_eq_false hprimed)] at hconnected
          cases hconnected
        rw [hconnected] at hsilent hfirst
        rw [hfresh]
        rw [Bool.false_and, Bool.toNat_false] at hsilent
        rw [Bool.not_false, Bool.toNat_true] at hfirst
        show _ ≤ 1
        omega
  | @lose t hready hidle hup =>
    have hlost := sum_moved (p := .announcing .lost) Pc.lostDue
      (show (s.pc t).lostDue = 0 by rw [hready]; rfl) (show _ = 1 from rfl)
    have hrestored := sum_moved (p := .announcing .lost) Pc.restoredDue
      (show (s.pc t).restoredDue = 0 by rw [hready]; rfl) (show _ = 0 from rfl)
    have hfirst := sum_moved (p := .announcing .lost) Pc.firstDue
      (show (s.pc t).firstDue = 0 by rw [hready]; rfl) (show _ = 0 from rfl)
    have hconnected := hever hup
    rw [hup, Bool.toNat_true] at hturn
    refine ⟨hsound, fun h => absurd h Bool.false_ne_true, fun _ => hconnected, ?_, ?_, ?_, ?_, ?_⟩
    · simp
    · dsimp only
      rw [Bool.toNat_false]
      omega
    · dsimp only
      rw [if_pos hconnected]
      omega
    · dsimp only
      rw [if_pos hconnected]
      omega
    · dsimp only
      rw [if_pos hconnected]
      omega
  | @consumeMarker t wasEver removed hpc =>
    refine ⟨hsound, hever, hreload, hreconnection, hturn, ?_, ?_, ?_⟩
    all_goals dsimp only; split
    · have hlost := sum_moved (p := .announcing (.restored !wasEver)) Pc.lostDue
        (show (s.pc t).lostDue = 0 by rw [hpc]; rfl) (show _ = 0 from rfl)
      omega
    · have hlost := sum_moved (p := .ready) Pc.lostDue
        (show (s.pc t).lostDue = 0 by rw [hpc]; rfl) (show _ = 0 from rfl)
      omega
    · have hrestored := sum_moved (p := .announcing (.restored !wasEver)) Pc.restoredDue
        (show (s.pc t).restoredDue = 1 by rw [hpc]; rfl) (show _ = 1 from rfl)
      omega
    · have hrestored := sum_moved (p := .ready) Pc.restoredDue
        (show (s.pc t).restoredDue = 1 by rw [hpc]; rfl) (show _ = 0 from rfl)
      omega
    · have hfirst := sum_moved (p := .announcing (.restored !wasEver)) Pc.firstDue
        (Eq.refl (s.pc t).firstDue) (show _ = 0 from rfl)
      omega
    · next hpass =>
      -- only a first connection is passed over
      have hnever : wasEver = false := by
        cases wasEver with
        | true => exact absurd rfl hpass
        | false => rfl
      subst hnever
      have hfirst := sum_moved (p := .ready) Pc.firstDue
        (show (s.pc t).firstDue = 1 by rw [hpc]; rfl) (show _ = 0 from rfl)
      omega
  | @queue t n outbox hpc hpost =>
    have hposted := Outbox.posted_step hpost
    have hlost := sum_moved (p := n.next) Pc.lostDue
      (show (s.pc t).lostDue = [n].count .lost by rw [hpc]; cases n <;> rfl)
      (show _ = 0 by cases n <;> rfl)
    have hrestored := sum_moved (p := n.next) Pc.restoredDue
      (show (s.pc t).restoredDue = [n].countP Notice.isRestored by rw [hpc]; cases n <;> rfl)
      (show _ = 0 by cases n <;> rfl)
    have hfirst := sum_moved (p := n.next) Pc.firstDue
      (show (s.pc t).firstDue = 0 by rw [hpc]; rfl) (show _ = 0 by cases n <;> rfl)
    refine ⟨hsound.step hpost, hever, hreload, hreconnection, hturn, ?_, ?_, ?_⟩
    · dsimp only
      rw [hposted, List.count_append, Outbox.Act.posts]
      omega
    · dsimp only
      rw [hposted, List.countP_append, Outbox.Act.posts]
      omega
    · dsimp only
      omega
  | @mark t written hpc hidle =>
    have hlost := sum_moved (p := .ready) Pc.lostDue
      (show (s.pc t).lostDue = 0 by rw [hpc]; rfl) (show _ = 0 from rfl)
    have hrestored := sum_moved (p := .ready) Pc.restoredDue
      (show (s.pc t).restoredDue = 0 by rw [hpc]; rfl) (show _ = 0 from rfl)
    have hfirst := sum_moved (p := .ready) Pc.firstDue
      (show (s.pc t).firstDue = 0 by rw [hpc]; rfl) (show _ = 0 from rfl)
    refine ⟨hsound, hever, hreload, hreconnection, hturn, ?_, ?_, ?_⟩
    all_goals dsimp only; omega
  | @outbox a outbox hallows hstep =>
    have hposted : outbox.posted = s.outbox.posted := by
      rw [Outbox.posted_step hstep]
      cases a with
      | post t n => exact hallows.elim
      | _ => exact List.append_nil _
    refine ⟨hsound.step hstep, hever, hreload, hreconnection, hturn, ?_, ?_, hsilent⟩
    · dsimp only
      rw [hposted]
      exact hlosses
    · dsimp only
      rw [hposted]
      exact hconnects

/-- Every thread is out of the setter and of the outbox. -/
def AtRest (s : State T) : Prop := (∀ t, s.pc t = .ready) ∧ Outbox.AtRest s.outbox

/-- **What is announced.** However the threads interleave: a thread sends a notice only while it
holds nothing back, and no more losses and connections are announced than there were. Once all
threads are at rest, nothing is pending, every loss was announced once, and every connection was
announced once, with the exception of at most one, the first of a transport that was not primed.
Losses and connections take turns, and the flag for the main loop says that the connection is
lost. -/
theorem announced_of_reachable {primed : Bool} {s : State T}
    (h : Runs.Reachable (system T primed) s) :
    (∀ t, s.outbox.phase t ≠ .idle → s.outbox.depth t = 0) ∧
      s.outbox.sent.count .lost ≤ s.losses ∧
      s.outbox.sent.countP Notice.isRestored ≤ s.connects ∧
      s.connects = s.losses + s.connected.toNat ∧
      s.needsReconnection = (decide (0 < s.losses) && !s.connected) ∧
      (AtRest s → s.outbox.pending = [] ∧ s.outbox.sent.count .lost = s.losses ∧
        s.outbox.sent.countP Notice.isRestored + s.silent = s.connects ∧
        s.silent ≤ (!primed).toNat) := by
  have hs : Announced primed s := by
    refine h.invariant (P := Announced primed) ?_ fun s a s' _ hs _ hstep => hs.step hstep
    rintro s ⟨marker, rfl⟩
    exact .start primed marker
  have hle := hs.sound.sent_le
  have hlost : s.outbox.sent.count .lost ≤ s.outbox.posted.count .lost := by
    rw [← Multiset.coe_count, ← Multiset.coe_count]
    exact Multiset.count_le_of_le _ hle
  have hrestored : s.outbox.sent.countP Notice.isRestored ≤
      s.outbox.posted.countP Notice.isRestored := by
    have hcount := Multiset.countP_le_of_le (fun n => Notice.isRestored n = true) hle
    simpa [Multiset.coe_countP] using hcount
  have hlosses := hs.lost
  have hconnects := hs.restored
  refine ⟨hs.sound.unheld, by omega, by omega, hs.alternating, hs.reconnection, fun hrest => ?_⟩
  obtain ⟨hpending, hperm⟩ := hs.sound.sent_perm_posted hrest.2
  have hnone (value : Pc → Nat) (hvalue : value .ready = 0) : ∑ t, value (s.pc t) = 0 :=
    Finset.sum_eq_zero fun t _ => by rw [hrest.1 t, hvalue]
  have hfirst := hs.first
  rw [hnone Pc.lostDue rfl] at hlosses
  rw [hnone Pc.restoredDue rfl] at hconnects
  rw [hnone Pc.firstDue rfl] at hfirst
  refine ⟨hpending, ?_, ?_, ?_⟩
  · rw [hperm.count_eq]
    exact hlosses
  · rw [hperm.countP_eq]
    exact hconnects
  · refine hfirst.trans ?_
    cases s.everConnected <;> simp

end Announced

theorem reachable_next {primed : Bool} {s s' : State T} {a : Act T}
    (h : Runs.Reachable (system T primed) s) (hstep : Step s a s') :
    Runs.Reachable (system T primed) s' := .step h trivial hstep

/-- A connection of a new transport and its loss, in one thread. -/
theorem announced_loss : ∃ s : State (Fin 1), s.outbox.sent = [.lost] ∧ s.losses = 1 ∧
    (AtRest s → s.outbox.pending = [] ∧ s.outbox.sent.count .lost = s.losses ∧
      s.outbox.sent.countP Notice.isRestored + s.silent = s.connects ∧ s.silent ≤ 1) := by
  have hstart : Runs.Reachable (system (Fin 1) false) (.start false false) := .init ⟨false, rfl⟩
  have hconnected := reachable_next hstart (.establish (t := 0) rfl rfl rfl)
  have hlost := reachable_next (reachable_next hconnected (.consumeMarker (t := 0) true rfl))
    (.lose (t := 0) rfl rfl rfl)
  have htaken := reachable_next (reachable_next hlost (.queue (t := 0) rfl rfl))
    (.outbox (a := .take 0) trivial rfl)
  have hsent := reachable_next (reachable_next (reachable_next htaken
    (.outbox (a := .send 0) trivial rfl)) (.outbox (a := .take 0) trivial rfl))
      (.mark (t := 0) true rfl rfl)
  obtain ⟨-, -, -, -, -, hrest⟩ := announced_of_reachable hsent
  exact ⟨_, rfl, rfl, hrest⟩

/-! ## Several runs of the application -/

/-- A transport that one thread uses, over restarts of the application: what is left of an object
when the next one is made, the marker file, and all notices so far. -/
structure Life where
  connected : Bool
  everConnected : Bool
  marker : Bool
  sent : List Notice

/-- What happens to it. -/
inductive Event
  /-- `connected` is set -/
  | assign (value : Bool)
  /-- the application ends and is started again -/
  | restart
  /-- the gateway is reloaded: a new object, primed by `prepare_for_reload` -/
  | reload
  deriving DecidableEq

/-- One event. The marker file can be written and removed. -/
def Life.next (l : Life) : Event → Life
  | .assign value =>
    if value = l.connected then l
    else if value then
      { connected := true
        everConnected := true
        marker := false
        sent := if l.everConnected || l.marker then l.sent ++ [.restored !l.everConnected]
          else l.sent }
    else
      { connected := false
        everConnected := l.everConnected
        marker := l.marker || l.everConnected
        sent := if l.everConnected then l.sent ++ [.lost] else l.sent }
  | .restart => { l with connected := false, everConnected := false }
  | .reload => { l with connected := false, everConnected := true }

/-- The object of the present run is at rest, and has sent the last of the notices. -/
structure Rests (before : List Notice) (l : Life) (s : State T) : Prop where
  rest : (∀ t, s.pc t = .ready) ∧ Outbox.AtRest s.outbox
  pending : s.outbox.pending = []
  connected : s.connected = l.connected
  everConnected : s.everConnected = l.everConnected
  marker : s.marker = l.marker
  sent : l.sent = before ++ s.outbox.sent

/-- Some steps of threads. -/
abbrev Steps : State T → State T → Prop := Relation.ReflTransGen fun s s' => ∃ a, Step s a s'

/-- A notice is queued and sent. -/
theorem announce_alone {s : State T} {t : T} {n : Notice} (hpc : s.pc t = .announcing n)
    (hrest : Outbox.AtRest s.outbox) (hpending : s.outbox.pending = []) :
    ∃ outbox, Steps s { s with pc := Function.update s.pc t n.next, outbox := outbox } ∧
      Outbox.AtRest outbox ∧ outbox.pending = [] ∧ outbox.sent = s.outbox.sent ++ [n] := by
  obtain ⟨o₁, o₂, o₃, o₄, hpost, htake, hsend, hlook, hrest', hpending', hsent⟩ :=
    Outbox.post_alone hrest hpending t n
  refine ⟨o₄, ?_, hrest', hpending', hsent⟩
  have hqueue : Steps s { s with pc := Function.update s.pc t n.next, outbox := o₁ } :=
    .single ⟨_, .queue hpc hpost⟩
  have htaken : Steps s { s with pc := Function.update s.pc t n.next, outbox := o₂ } :=
    hqueue.tail ⟨.outbox (.take t), .outbox trivial htake⟩
  have hsent : Steps s { s with pc := Function.update s.pc t n.next, outbox := o₃ } :=
    htaken.tail ⟨.outbox (.send t), .outbox trivial hsend⟩
  exact hsent.tail ⟨.outbox (.take t), .outbox trivial hlook⟩

/-- Threads that are out of the setter stay out of it when one of them comes back. -/
theorem ready_update {pc : T → Pc} {t : T} {p : Pc} (h : ∀ t', pc t' = .ready) (t' : T) :
    Function.update (Function.update pc t p) t .ready t' = .ready := by
  rw [Function.update_idem]
  by_cases hother : t' = t
  · rw [hother, Function.update_self]
  · rw [Function.update_of_ne hother, h]

/-- **An assignment that no other thread comes into** does what `Life.next` says. -/
theorem assign_alone {before : List Notice} {l : Life} {s : State T} (h : Rests before l s) (t : T)
    (value : Bool) : ∃ s', Steps s s' ∧ Rests before (l.next (.assign value)) s' := by
  obtain ⟨⟨hready, hrest⟩, hpending, hconnected, hever, hmarker, hsent⟩ := h
  have hidle := (hrest t).1
  unfold Life.next
  by_cases hsame : value = l.connected
  · dsimp only
    rw [if_pos hsame]
    exact ⟨s, .refl, ⟨⟨hready, hrest⟩, hpending, hconnected, hever, hmarker, hsent⟩⟩
  dsimp only
  rw [if_neg hsame]
  cases value with
  | true =>
    have hdown : s.connected = false := by
      rw [hconnected]
      exact Bool.eq_false_of_not_eq_true fun h => hsame h.symm
    rw [if_pos rfl]
    obtain ⟨s₁, hsteps₁, hpc₁, houtbox₁, hconnected₁, hever₁, hmarker₁⟩ : ∃ s₁, Steps s s₁ ∧
        s₁.pc = Function.update s.pc t (.connectedNow l.everConnected) ∧ s₁.outbox = s.outbox ∧
          s₁.connected = true ∧ s₁.everConnected = true ∧ s₁.marker = l.marker :=
      ⟨_, .single ⟨_, .establish (hready t) hidle hdown⟩, by rw [← hever], rfl, rfl, rfl, hmarker⟩
    obtain ⟨s₂, hsteps₂, hpc₂, houtbox₂, hconnected₂, hever₂, hmarker₂⟩ : ∃ s₂, Steps s s₂ ∧
        s₂.pc = Function.update s.pc t (if l.everConnected || l.marker then
          .announcing (.restored !l.everConnected) else .ready) ∧ s₂.outbox = s.outbox ∧
          s₂.connected = true ∧ s₂.everConnected = true ∧ s₂.marker = false :=
      ⟨_, hsteps₁.tail ⟨_, .consumeMarker (t := t) true (by rw [hpc₁, Function.update_self])⟩,
        by rw [hpc₁, Function.update_idem, hmarker₁, Bool.and_true], houtbox₁, hconnected₁, hever₁,
        Bool.and_false _⟩
    by_cases hannounce : (l.everConnected || l.marker) = true
    · rw [if_pos hannounce] at hpc₂
      rw [← houtbox₂] at hrest hpending hsent
      obtain ⟨outbox, hsteps, hrest', hpending', hsent'⟩ :=
        announce_alone (t := t) (by rw [hpc₂, Function.update_self]) hrest hpending
      refine ⟨_, hsteps₂.trans hsteps, ⟨⟨fun t' => ?_, hrest'⟩, hpending', hconnected₂, hever₂,
        hmarker₂, ?_⟩⟩
      · dsimp only
        rw [hpc₂]
        exact ready_update hready t'
      · dsimp only
        rw [if_pos hannounce, hsent, hsent', List.append_assoc]
    · rw [if_neg hannounce] at hpc₂
      refine ⟨s₂, hsteps₂, ⟨⟨fun t' => ?_, houtbox₂ ▸ hrest⟩, houtbox₂ ▸ hpending, hconnected₂,
        hever₂, hmarker₂, ?_⟩⟩
      · rw [hpc₂, ← hready t, Function.update_eq_self, hready t']
        exact (hready t).symm
      · dsimp only
        rw [if_neg hannounce, hsent, houtbox₂]
  | false =>
    have hup : s.connected = true := by
      rw [hconnected]
      exact Bool.eq_true_of_not_eq_false fun h => hsame h.symm
    rw [if_neg Bool.false_ne_true]
    obtain ⟨s₁, hsteps₁, hpc₁, houtbox₁, hconnected₁, hever₁, hmarker₁⟩ : ∃ s₁, Steps s s₁ ∧
        s₁.pc = (if l.everConnected then Function.update s.pc t (.announcing .lost) else s.pc) ∧
          s₁.outbox = s.outbox ∧ s₁.connected = false ∧ s₁.everConnected = l.everConnected ∧
          s₁.marker = l.marker :=
      ⟨_, .single ⟨_, .lose (hready t) hidle hup⟩, by rw [← hever], rfl, rfl, hever, hmarker⟩
    by_cases hannounce : l.everConnected = true
    · rw [if_pos hannounce] at hpc₁
      rw [← houtbox₁] at hrest hpending hsent
      obtain ⟨outbox, hsteps, hrest', hpending', hsent'⟩ :=
        announce_alone (t := t) (by rw [hpc₁, Function.update_self]) hrest hpending
      refine ⟨_, (hsteps₁.trans hsteps).tail ⟨.mark t true, .mark true (Function.update_self ..)
        (hrest' t).1⟩, ⟨⟨fun t' => ?_, hrest'⟩, hpending', hconnected₁, hever₁, ?_, ?_⟩⟩
      · dsimp only
        rw [hpc₁, Function.update_idem]
        exact ready_update hready t'
      · dsimp only
        rw [hannounce, Bool.or_true, Bool.or_true]
      · dsimp only
        rw [if_pos hannounce, hsent, hsent', List.append_assoc]
    · rw [if_neg hannounce] at hpc₁
      refine ⟨s₁, hsteps₁, ⟨⟨fun t' => ?_, houtbox₁ ▸ hrest⟩, houtbox₁ ▸ hpending, hconnected₁,
        hever₁, ?_, ?_⟩⟩
      · rw [hpc₁, hready t']
      · dsimp only
        rw [hmarker₁, Bool.eq_false_of_not_eq_true hannounce, Bool.or_false]
      · dsimp only
        rw [if_neg hannounce, hsent, houtbox₁]

/-! ## Notices take turns -/

/-- A loss comes first, and losses and recoveries take turns. -/
def TakesTurns (sent : List Notice) : Prop :=
  ∀ k n, sent[k]? = some n → n.isRestored = decide (k % 2 = 1)

theorem TakesTurns.append {sent : List Notice} {n : Notice} (h : TakesTurns sent)
    (hn : n.isRestored = decide (sent.length % 2 = 1)) : TakesTurns (sent ++ [n]) := by
  intro k n' hk
  rcases Nat.lt_trichotomy k sent.length with hlt | rfl | hgt
  · rw [List.getElem?_append_left hlt] at hk
    exact h k n' hk
  · rw [List.getElem?_append_right (Nat.le_refl _), Nat.sub_self] at hk
    exact Option.some.inj hk ▸ hn
  · rw [List.getElem?_eq_none (by simp; omega)] at hk
    cases hk

/-- A transport that has never been used. -/
def Life.new : Life := ⟨false, false, false, []⟩

/-- The lives of a transport. -/
def lives : Runs.System Life Event := Runs.System.ofFun (fun l => l = .new) Life.next

/-- The gateway is reloaded when the old object has been connected and its `cleanup` has run. -/
def Guard (l : Life) (e : Event) : Prop :=
  e = .reload → l.everConnected = true ∧ l.connected = false

/-- The last notice is that of a loss exactly if there is a marker, which is so while an object that
has been connected is not, and not while it is. -/
structure Told (l : Life) : Prop where
  ever : l.connected = true → l.everConnected = true
  marker : l.marker = decide (l.sent.length % 2 = 1)
  up : l.connected = true → l.marker = false
  down : l.everConnected = true → l.connected = false → l.marker = true
  turns : TakesTurns l.sent

theorem Told.next {l : Life} {e : Event} (h : Told l) (hguard : Guard l e) : Told (l.next e) := by
  obtain ⟨hever, hmarker, hup, hdown, hturns⟩ := h
  cases e with
  | assign value =>
    unfold Life.next
    dsimp only
    by_cases hsame : value = l.connected
    · rw [if_pos hsame]
      exact ⟨hever, hmarker, hup, hdown, hturns⟩
    rw [if_neg hsame]
    cases value with
    | true =>
      have hconnected : l.connected = false := Bool.eq_false_of_not_eq_true fun h => hsame h.symm
      rw [if_pos rfl]
      by_cases hannounce : (l.everConnected || l.marker) = true
      · have hodd : l.sent.length % 2 = 1 := by
          have hmarked : l.marker = true := by
            rcases (Bool.or_eq_true _ _).mp hannounce with h | h
            · exact hdown h hconnected
            · exact h
          rw [hmarked] at hmarker
          exact of_decide_eq_true hmarker.symm
        rw [if_pos hannounce]
        refine ⟨fun _ => rfl, ?_, fun _ => rfl, fun _ h => Bool.noConfusion h,
          hturns.append (decide_eq_true hodd).symm⟩
        dsimp only
        rw [List.length_append, List.length_singleton]
        exact (decide_eq_false (by omega)).symm
      · rw [if_neg hannounce]
        refine ⟨fun _ => rfl, ?_, fun _ => rfl, fun _ h => Bool.noConfusion h, hturns⟩
        have hunmarked : l.marker = false :=
          Bool.eq_false_of_not_eq_true fun h => hannounce (by rw [h, Bool.or_true])
        rw [hunmarked] at hmarker
        exact hmarker
    | false =>
      have hconnected : l.connected = true := Bool.eq_true_of_not_eq_false fun h => hsame h.symm
      have hconnectedEver := hever hconnected
      have heven : ¬l.sent.length % 2 = 1 := by
        rw [hup hconnected] at hmarker
        exact of_decide_eq_false hmarker.symm
      rw [if_neg Bool.false_ne_true, if_pos hconnectedEver, hconnectedEver, Bool.or_true]
      refine ⟨fun _ => rfl, ?_, fun h => absurd h Bool.false_ne_true, fun _ _ => rfl,
        hturns.append (decide_eq_false heven).symm⟩
      dsimp only
      rw [List.length_append, List.length_singleton]
      exact (decide_eq_true (by omega)).symm
  | restart =>
    exact ⟨fun h => absurd h Bool.false_ne_true, hmarker, fun h => absurd h Bool.false_ne_true,
      fun h => absurd h Bool.false_ne_true, hturns⟩
  | reload =>
    obtain ⟨hconnectedEver, hcleaned⟩ := hguard rfl
    exact ⟨fun _ => rfl, hmarker, fun h => absurd h Bool.false_ne_true,
      fun _ _ => hdown hconnectedEver hcleaned, hturns⟩

/-- **Notices take turns.** Over all runs of the application, whatever happens at whatever moment, a
loss is announced first, and no loss or recovery is announced twice in a row, if the gateway is
reloaded only when the old object has been connected and was cleaned up. -/
theorem takesTurns_of_reach {l : Life} (h : Runs.Reach lives Guard l) : TakesTurns l.sent := by
  have htold : Told l := by
    refine h.invariant (P := Told) ?_ ?_
    · rintro l rfl
      exact ⟨fun h => h, rfl, fun _ => rfl, fun h => absurd h Bool.false_ne_true,
        fun k n hk => by cases hk⟩
    · rintro l e l' - htold hguard rfl
      exact htold.next hguard
  exact htold.turns

theorem reach_next {l : Life} {e : Event} (h : Runs.Reach lives Guard l) (hguard : Guard l e) :
    Runs.Reach lives Guard (l.next e) := .step h hguard rfl

/-- A loss, a restart, a loss and a reload, each with its recovery. -/
theorem takesTurns_restarted : TakesTurns [.lost, .restored true, .lost, .restored false] := by
  have hnew : Runs.Reach lives Guard .new := .init rfl
  have hrestarted := reach_next (reach_next (reach_next hnew (e := .assign true) nofun)
    (e := .assign false) nofun) (e := .restart) nofun
  have hlost := reach_next (reach_next hrestarted (e := .assign true) nofun)
    (e := .assign false) nofun
  have hreloaded := reach_next (reach_next hlost (e := .reload) fun _ => ⟨rfl, rfl⟩)
    (e := .assign true) nofun
  exact takesTurns_of_reach hreloaded

end Notices

end ProtocolGateway
