import ProtocolGateway.Lib.Runs
import Mathlib.Algebra.BigOperators.Group.Finset.Basic
import Mathlib.Algebra.Order.Group.Multiset

/-!
# An outbox

Messages that several threads post to one queue, to be sent by whichever thread gets to them. A
thread may hold messages back: while it does, it posts without sending, and when it stops it sends
what is in the queue. A thread that posts without holding sends at once. Taking a message off the
queue and sending it are two steps, so threads may overtake each other between them.

* `Sound` — the invariant: nothing is lost or sent twice, and a queue with messages is attended to.
* `sent_perm_posted` — what has been sent once every thread is at rest.
-/

namespace Outbox

universe u v

variable {T : Type u} {M : Type v}

/-- Where a thread is in sending. -/
inductive Phase (M : Type v)
  | idle
  /-- about to look at the queue -/
  | draining
  /-- it has taken a message and is sending it -/
  | sending (m : M)

/-- The message that a thread has in its hand. -/
def Phase.hand : Phase M → Multiset M
  | .sending m => {m}
  | _ => 0

@[simp] theorem hand_idle : (Phase.idle : Phase M).hand = 0 := rfl

@[simp] theorem hand_draining : (Phase.draining : Phase M).hand = 0 := rfl

@[simp] theorem hand_sending (m : M) : (Phase.sending m).hand = {m} := rfl

/-- The queue, and for each thread how deep it holds messages back and where it is. -/
structure State (T : Type u) (M : Type v) where
  pending : List M
  depth : T → Nat
  phase : T → Phase M
  /-- history: everything that was posted -/
  posted : List M
  /-- history: what was taken off the queue -/
  taken : List M
  /-- history: what was sent -/
  sent : List M

/-- Nothing has been posted, and no thread holds messages back. -/
def State.empty : State T M := ⟨[], fun _ => 0, fun _ => .idle, [], [], []⟩

/-- What a thread does. -/
inductive Act (T : Type u) (M : Type v)
  /-- it begins to hold messages back -/
  | enter (t : T)
  /-- it stops -/
  | leave (t : T)
  | post (t : T) (m : M)
  /-- it looks at the queue and takes the first message, if there is one -/
  | take (t : T)
  | send (t : T)

/-- What an action posts. -/
def Act.posts : Act T M → List M
  | .post _ m => [m]
  | _ => []

variable [DecidableEq T]

/-- One action, if the thread can do it. -/
def step (s : State T M) : Act T M → Option (State T M)
  | .enter t =>
    match s.phase t with
    | .idle => some { s with depth := Function.update s.depth t (s.depth t + 1) }
    | _ => none
  | .leave t =>
    match s.phase t, s.depth t with
    | .idle, 1 => some { s with
        depth := Function.update s.depth t 0
        phase := Function.update s.phase t .draining }
    | .idle, d + 2 => some { s with depth := Function.update s.depth t (d + 1) }
    | _, _ => none
  | .post t m =>
    match s.phase t with
    | .idle => some { s with
        pending := s.pending ++ [m]
        posted := s.posted ++ [m]
        phase := if s.depth t = 0 then Function.update s.phase t .draining else s.phase }
    | _ => none
  | .take t =>
    match s.phase t, s.pending with
    | .draining, [] => some { s with phase := Function.update s.phase t .idle }
    | .draining, m :: rest => some { s with
        pending := rest
        taken := s.taken ++ [m]
        phase := Function.update s.phase t (.sending m) }
    | _, _ => none
  | .send t =>
    match s.phase t with
    | .sending m => some { s with
        sent := s.sent ++ [m]
        phase := Function.update s.phase t .draining }
    | _ => none

section Inversion

variable {s s' : State T M} {t : T} {m : M}

theorem of_enter (h : step s (.enter t) = some s') : s.phase t = .idle ∧
    s' = { s with depth := Function.update s.depth t (s.depth t + 1) } := by
  simp only [step] at h
  split at h
  · next hidle => exact ⟨hidle, (Option.some.inj h).symm⟩
  · cases h

theorem of_leave (h : step s (.leave t) = some s') : s.phase t = .idle ∧ ∃ d, s.depth t = d + 1 ∧
    s' = { s with
      depth := Function.update s.depth t d
      phase := if d = 0 then Function.update s.phase t .draining else s.phase } := by
  simp only [step] at h
  split at h
  · next hidle hdepth => exact ⟨hidle, 0, hdepth, (Option.some.inj h).symm⟩
  · next d hidle hdepth =>
    refine ⟨hidle, d + 1, hdepth, ?_⟩
    rw [if_neg (Nat.succ_ne_zero d)]
    exact (Option.some.inj h).symm
  · cases h

theorem of_post (h : step s (.post t m) = some s') : s.phase t = .idle ∧
    s' = { s with
      pending := s.pending ++ [m]
      posted := s.posted ++ [m]
      phase := if s.depth t = 0 then Function.update s.phase t .draining else s.phase } := by
  simp only [step] at h
  split at h
  · next hidle => exact ⟨hidle, (Option.some.inj h).symm⟩
  · cases h

theorem of_take (h : step s (.take t) = some s') : s.phase t = .draining ∧
    ((s.pending = [] ∧ s' = { s with phase := Function.update s.phase t .idle }) ∨
      ∃ m rest, s.pending = m :: rest ∧ s' = { s with
        pending := rest
        taken := s.taken ++ [m]
        phase := Function.update s.phase t (.sending m) }) := by
  simp only [step] at h
  split at h
  · next hdraining hpending => exact ⟨hdraining, .inl ⟨hpending, (Option.some.inj h).symm⟩⟩
  · next m rest hdraining hpending =>
    exact ⟨hdraining, .inr ⟨m, rest, hpending, (Option.some.inj h).symm⟩⟩
  · cases h

theorem of_send (h : step s (.send t) = some s') : ∃ m, s.phase t = .sending m ∧
    s' = { s with sent := s.sent ++ [m], phase := Function.update s.phase t .draining } := by
  simp only [step] at h
  split at h
  · next m hsending => exact ⟨m, hsending, (Option.some.inj h).symm⟩
  · cases h

theorem post_of_idle (hidle : s.phase t = .idle) (hdepth : s.depth t = 0) :
    step s (.post t m) = some { s with
      pending := s.pending ++ [m]
      posted := s.posted ++ [m]
      phase := Function.update s.phase t .draining } := by
  simp only [step, hidle, hdepth, if_true]

theorem take_of_cons {rest : List M} (hphase : s.phase t = .draining)
    (hpending : s.pending = m :: rest) : step s (.take t) = some { s with
      pending := rest
      taken := s.taken ++ [m]
      phase := Function.update s.phase t (.sending m) } := by
  simp only [step, hphase, hpending]

theorem take_of_nil (hphase : s.phase t = .draining) (hpending : s.pending = []) :
    step s (.take t) = some { s with phase := Function.update s.phase t .idle } := by
  simp only [step, hphase, hpending]

theorem send_of_sending (hphase : s.phase t = .sending m) : step s (.send t) = some { s with
      sent := s.sent ++ [m]
      phase := Function.update s.phase t .draining } := by
  simp only [step, hphase]

/-- Only posting adds to what was posted. -/
theorem posted_step {a : Act T M} (h : step s a = some s') : s'.posted = s.posted ++ a.posts := by
  cases a with
  | enter t =>
    obtain ⟨-, rfl⟩ := of_enter h
    exact (List.append_nil _).symm
  | leave t =>
    obtain ⟨-, d, -, rfl⟩ := of_leave h
    exact (List.append_nil _).symm
  | post t m =>
    obtain ⟨-, rfl⟩ := of_post h
    rfl
  | take t =>
    obtain ⟨-, ⟨-, rfl⟩ | ⟨m, rest, -, rfl⟩⟩ := of_take h
    · exact (List.append_nil _).symm
    · exact (List.append_nil _).symm
  | send t =>
    obtain ⟨m, -, rfl⟩ := of_send h
    exact (List.append_nil _).symm

end Inversion

/-! ## What is in the threads' hands -/

/-- A thread that is not idle after `t` went to another phase holds nothing back, if `t` does
not. -/
theorem unheld_update {phase : T → Phase M} {depth : T → Nat} {t : T} {p : Phase M}
    (h : ∀ t', phase t' ≠ .idle → depth t' = 0) (ht : p ≠ .idle → depth t = 0) (t' : T)
    (ht' : Function.update phase t p t' ≠ .idle) : depth t' = 0 := by
  by_cases hother : t' = t
  · subst hother
    rw [Function.update_self] at ht'
    exact ht ht'
  · rw [Function.update_of_ne hother] at ht'
    exact h t' ht'

/-- An idle thread may hold back as deep as it likes. -/
theorem unheld_depth {phase : T → Phase M} {depth : T → Nat} {t : T} {d : Nat}
    (h : ∀ t', phase t' ≠ .idle → depth t' = 0) (ht : phase t = .idle) (t' : T)
    (ht' : phase t' ≠ .idle) : Function.update depth t d t' = 0 := by
  have hother : t' ≠ t := by
    rintro rfl
    exact ht' ht
  rw [Function.update_of_ne hother]
  exact h t' ht'

section Hands

variable [Fintype T]

/-- The messages that threads are sending. -/
def inHand (phase : T → Phase M) : Multiset M := ∑ t, (phase t).hand

/-- What a sum over the threads becomes when one of them goes to another place. -/
theorem sum_update {P : Type*} {A : Type*} [AddCommMonoid A] (value : P → A) (place : T → P)
    (t : T) (p : P) : ∑ t', value (Function.update place t p t') + value (place t) =
      ∑ t', value (place t') + value p := by
  have hsplit (f : T → P) :
      ∑ t', value (f t') = value (f t) + ∑ t' ∈ Finset.univ.erase t, value (f t') :=
    (Finset.add_sum_erase _ (fun t' => value (f t')) (Finset.mem_univ t)).symm
  have hrest : ∑ t' ∈ Finset.univ.erase t, value (Function.update place t p t') =
      ∑ t' ∈ Finset.univ.erase t, value (place t') :=
    Finset.sum_congr rfl fun t' ht' => by
      rw [Function.update_of_ne (Finset.ne_of_mem_erase ht')]
  rw [hsplit (Function.update place t p), hsplit place, hrest, Function.update_self, add_comm,
    add_comm (value p), add_assoc]

theorem inHand_update (phase : T → Phase M) (t : T) (p : Phase M) :
    inHand (Function.update phase t p) + (phase t).hand = inHand phase + p.hand :=
  sum_update Phase.hand phase t p

/-- **The invariant.** What was posted was taken in order or is pending; what was taken is sent or
in a hand; a thread sends only while it holds nothing back; and if messages are pending, some thread
will look at the queue. -/
structure Sound (s : State T M) : Prop where
  fifo : s.posted = s.taken ++ s.pending
  conserved : (s.taken : Multiset M) = s.sent + inHand s.phase
  unheld : ∀ t, s.phase t ≠ .idle → s.depth t = 0
  attended : s.pending ≠ [] → ∃ t, 0 < s.depth t ∨ s.phase t ≠ .idle

omit [DecidableEq T] in
theorem Sound.empty : Sound (State.empty : State T M) where
  fifo := rfl
  conserved := by simp [State.empty, inHand]
  unheld _ h := absurd rfl h
  attended h := absurd rfl h

variable {s s' : State T M}

/-- A thread that changes its phase between phases without a message changes no hand. -/
theorem inHand_update_of_hand_eq {phase : T → Phase M} {t : T} {p : Phase M}
    (h : (phase t).hand = p.hand) : inHand (Function.update phase t p) = inHand phase := by
  have hupdate := inHand_update phase t p
  rw [h] at hupdate
  exact add_right_cancel hupdate

/-- **Every action keeps the invariant.** -/
theorem Sound.step (hs : Sound s) {a : Act T M} (h : step s a = some s') : Sound s' := by
  cases a with
  | enter t =>
    obtain ⟨hidle, rfl⟩ := of_enter h
    exact ⟨hs.fifo, hs.conserved, unheld_depth hs.unheld hidle, fun _ => ⟨t, .inl (by simp)⟩⟩
  | leave t =>
    obtain ⟨hidle, d, hdepth, rfl⟩ := of_leave h
    have hother := unheld_depth (d := d) hs.unheld hidle
    by_cases hd : d = 0
    · subst hd
      refine ⟨hs.fifo, ?_, ?_, fun _ => ⟨t, .inr (by simp)⟩⟩
      · dsimp only
        rw [if_pos rfl, inHand_update_of_hand_eq (by rw [hidle]; rfl)]
        exact hs.conserved
      · dsimp only
        rw [if_pos rfl]
        exact unheld_update hother fun _ => Function.update_self _ _ _
    · refine ⟨hs.fifo, ?_, ?_, fun _ => ⟨t, .inl (by simpa using Nat.pos_of_ne_zero hd)⟩⟩
      · dsimp only
        rw [if_neg hd]
        exact hs.conserved
      · dsimp only
        rw [if_neg hd]
        exact hother
  | post t m =>
    obtain ⟨hidle, rfl⟩ := of_post h
    refine ⟨?_, ?_, ?_, fun _ => ?_⟩
    · dsimp only
      rw [hs.fifo, List.append_assoc]
    · dsimp only
      split
      · rw [inHand_update_of_hand_eq (by rw [hidle]; rfl)]
        exact hs.conserved
      · exact hs.conserved
    · dsimp only
      split
      · next hdepth => exact unheld_update hs.unheld fun _ => hdepth
      · exact hs.unheld
    · by_cases hdepth : s.depth t = 0
      · exact ⟨t, .inr (by simp [hdepth])⟩
      · exact ⟨t, .inl (Nat.pos_of_ne_zero hdepth)⟩
  | take t =>
    obtain ⟨hdraining, ⟨hpending, rfl⟩ | ⟨m, rest, hpending, rfl⟩⟩ := of_take h
    · refine ⟨hs.fifo, ?_, unheld_update hs.unheld fun hidle => absurd rfl hidle,
        fun hne => absurd hpending hne⟩
      dsimp only
      rw [inHand_update_of_hand_eq (by rw [hdraining]; rfl)]
      exact hs.conserved
    · have hfree : s.depth t = 0 := hs.unheld t (by rw [hdraining]; nofun)
      refine ⟨?_, ?_, unheld_update hs.unheld fun _ => hfree, fun _ => ⟨t, .inr (by simp)⟩⟩
      · dsimp only
        rw [hs.fifo, hpending, List.append_assoc]
        rfl
      · have hupdate := inHand_update s.phase t (.sending m)
        rw [hdraining, hand_draining, add_zero, hand_sending] at hupdate
        dsimp only
        rw [hupdate, ← Multiset.coe_add, hs.conserved, add_assoc]
        rfl
  | send t =>
    obtain ⟨m, hsending, rfl⟩ := of_send h
    have hfree : s.depth t = 0 := hs.unheld t (by rw [hsending]; nofun)
    refine ⟨hs.fifo, ?_, unheld_update hs.unheld fun _ => hfree, fun _ => ⟨t, .inr (by simp)⟩⟩
    have hupdate := inHand_update s.phase t .draining
    rw [hsending, hand_sending, hand_draining, add_zero] at hupdate
    dsimp only
    rw [hs.conserved, ← hupdate, ← Multiset.coe_add, add_assoc]
    exact congrArg _ (add_comm _ _)

/-! ## At rest -/

/-- Every thread is out of the outbox and holds nothing back. -/
def AtRest (s : State T M) : Prop := ∀ t, s.phase t = .idle ∧ s.depth t = 0

omit [DecidableEq T] in
/-- Nothing is sent that was not posted. -/
theorem Sound.sent_le (hs : Sound s) : (s.sent : Multiset M) ≤ s.posted := by
  rw [hs.fifo, ← Multiset.coe_add, hs.conserved, add_assoc]
  exact Multiset.le_add_right _ _

omit [DecidableEq T] in
/-- **At rest everything has been sent, once.** -/
theorem Sound.sent_perm_posted (hs : Sound s) (hrest : AtRest s) :
    s.pending = [] ∧ s.sent.Perm s.posted := by
  have hpending : s.pending = [] := by
    by_contra hne
    obtain ⟨t, hdepth | hphase⟩ := hs.attended hne
    · rw [(hrest t).2] at hdepth
      exact absurd hdepth (Nat.lt_irrefl 0)
    · exact hphase (hrest t).1
  have hhands : inHand s.phase = 0 :=
    Finset.sum_eq_zero fun t _ => by rw [(hrest t).1]; rfl
  refine ⟨hpending, Multiset.coe_eq_coe.mp ?_⟩
  rw [hs.fifo, hpending, List.append_nil, hs.conserved, hhands, add_zero]

end Hands

/-- **A message posted at rest** is sent by its thread, which comes to rest again if no other comes
into it. -/
theorem post_alone {s : State T M} (hrest : AtRest s) (hpending : s.pending = []) (t : T) (m : M) :
    ∃ s₁ s₂ s₃ s₄, step s (.post t m) = some s₁ ∧ step s₁ (.take t) = some s₂ ∧
      step s₂ (.send t) = some s₃ ∧ step s₃ (.take t) = some s₄ ∧ AtRest s₄ ∧
      s₄.pending = [] ∧ s₄.sent = s.sent ++ [m] := by
  obtain ⟨hidle, hdepth⟩ := hrest t
  have hqueue : s.pending ++ [m] = [m] := by rw [hpending, List.nil_append]
  refine ⟨_, _, _, _, post_of_idle hidle hdepth, take_of_cons (Function.update_self ..) hqueue,
    send_of_sending (Function.update_self ..), take_of_nil (Function.update_self ..) rfl,
    fun t' => ⟨?_, (hrest t').2⟩, rfl, rfl⟩
  by_cases hother : t' = t
  · rw [hother]
    exact Function.update_self ..
  · dsimp only
    rw [Function.update_of_ne hother, Function.update_of_ne hother, Function.update_of_ne hother,
      Function.update_of_ne hother]
    exact (hrest t').1

end Outbox
