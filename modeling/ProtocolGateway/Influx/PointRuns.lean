import Mathlib.Data.List.Perm.Basic
import Mathlib.Data.List.Nodup
import ProtocolGateway.Influx.Points

/-!
# Runs of the InfluxDB bridges

A point can get lost, or reach the server twice. Version 3 loses a batch whose conversion raises;
both versions lose one when the client is gone between the check and the write, and what another
thread adds to the backlog between the write of a flush and its removal; a write that raises after
the server has stored the points is repeated. `conserved_of_reach` says that nothing of this happens
where none of these steps is taken.
-/

namespace ProtocolGateway

namespace InfluxOut

open Runs

/-! ## One thread moves -/

/-- Counting what the threads contribute, before and after one of them moves. -/
theorem count_flatMap_set (f : Pc → List Nat) {l : List Pc} {i : Nat} {pc : Pc}
    (hpc : l[i]? = some pc) (pc' : Pc) (x : Nat) :
    ((l.set i pc').flatMap f).count x + (f pc).count x =
      (l.flatMap f).count x + (f pc').count x := by
  induction l generalizing i with
  | nil => simp at hpc
  | cons q l ih =>
    cases i with
    | zero =>
      obtain rfl := Option.some.inj hpc
      simp only [List.set_cons_zero, List.flatMap_cons, List.count_append]
      omega
    | succ i =>
      have ih := ih hpc
      simp only [List.set_cons_succ, List.flatMap_cons, List.count_append]
      omega

/-- The points a thread flushes from the backlog. -/
def Pc.sends : Pc → Option (List Nat)
  | sending _ points | removing _ points => some points
  | _ => none

/-- The points a thread carries from the batch. -/
def Pc.carried : Pc → List Nat
  | checking k | reconnecting k | entering k | sending k _ | removing k _ => k.points
  | writing points | rewriting points | closeWriting points | appending points _ => points
  | _ => []

theorem Pc.inBacklog_of_sends {pc : Pc} {points : List Nat} (h : pc.sends = some points) :
    pc.inBacklog = true := by
  cases pc with
  | sending | removing => rfl
  | _ => cases h

/-- What a method does when the one it called returns concerns its points only. -/
theorem After.resume_eq (k : After) (ok : Bool) :
    (k.resume ok).hand = k.points ∧ (k.resume ok).removes = [] ∧
      (k.resume ok).inBacklog = false ∧ (k.resume ok).carried = k.points := by
  cases k <;> cases ok <;> simp [After.resume, Pc.hand, Pc.removes, Pc.inBacklog, Pc.carried,
    After.points, Next.points]

theorem Next.resume_eq (next : Next) :
    next.resume.hand = next.points ∧ next.resume.removes = [] ∧
      next.resume.inBacklog = false ∧ next.resume.carried.Pairwise (· < ·) := by
  cases next <;> simp [Next.resume, Pc.hand, Pc.removes, Pc.inBacklog, Pc.carried, Next.points]

/-! ## The invariant -/

/-- What every undisturbed step keeps. -/
structure Sound (s : Bridge) : Prop where
  accepted_nodup : s.accepted.Nodup
  accepted_lt : ∀ p ∈ s.accepted, p < s.next
  balanced : ∀ x, s.accepted.count x + s.removing.count x =
    s.batch.count x + s.inHand.count x + s.backlog.count x + s.written.count x + s.dropped.count x
  /-- at most one thread is at work on the backlog -/
  alone : ∀ (i j : Nat) (pc pc' : Pc), s.threads[i]? = some pc → s.threads[j]? = some pc' →
    pc.inBacklog = true → pc'.inBacklog = true → i = j
  /-- a flush sends the backlog as it is -/
  current : ∀ (i : Nat) (pc : Pc) (points : List Nat), s.threads[i]? = some pc →
    pc.sends = some points → s.backlog = points
  batch_sorted : s.batch.Pairwise (· < ·)
  batch_lt : ∀ p ∈ s.batch, p < s.next
  backlog_sorted : s.backlog.Pairwise (· < ·)
  carried_sorted : ∀ (i : Nat) (pc : Pc), s.threads[i]? = some pc → pc.carried.Pairwise (· < ·)
  in_order : ∀ points ∈ s.flushes, points.Pairwise (· < ·)

namespace Sound

variable {cfg : Settings} {s s' : Bridge} {i : Nat} {pc pc' : Pc}

/-- **The thread `i` goes from `pc` to `pc'`**: what has to be shown about its step. -/
theorem set (h : Sound s) (hpc : s.threads[i]? = some pc)
    (hthreads : s'.threads = s.threads.set i pc')
    (haccepted : s'.accepted.Nodup ∧ ∀ p ∈ s'.accepted, p < s'.next)
    (hlocal : ∀ x, s'.accepted.count x + pc'.removes.count x +
        (s.batch.count x + pc.hand.count x + s.backlog.count x + s.written.count x +
          s.dropped.count x) =
      s.accepted.count x + pc.removes.count x +
        (s'.batch.count x + pc'.hand.count x + s'.backlog.count x + s'.written.count x +
          s'.dropped.count x))
    (hbatch : s'.batch.Pairwise (· < ·) ∧ ∀ p ∈ s'.batch, p < s'.next)
    (hbacklog : s'.backlog.Pairwise (· < ·)) (hcarried : pc'.carried.Pairwise (· < ·))
    (hflushes : ∀ points ∈ s'.flushes, points.Pairwise (· < ·))
    (henters : pc'.inBacklog = true → pc.inBacklog = true ∨ s.Free)
    (hsends : ∀ points, pc'.sends = some points → s'.backlog = points)
    (hsame : s'.backlog = s.backlog ∨ pc.inBacklog = true ∨ s.Free) : Sound s' := by
  have hget : ∀ j q, s'.threads[j]? = some q → (j = i ∧ q = pc') ∨ (j ≠ i ∧ s.threads[j]? = some q) := by
    intro j q hq
    rw [hthreads, List.getElem?_set] at hq
    split at hq
    · next heq =>
      refine .inl ⟨heq.symm, ?_⟩
      split at hq
      · exact (Option.some.inj hq).symm
      · cases hq
    · next hne => exact .inr ⟨fun heq => hne heq.symm, hq⟩
  -- another thread that is at work on the backlog keeps this one out of it
  have hout : ∀ j q, j ≠ i → s.threads[j]? = some q → q.inBacklog = true →
      pc.inBacklog = true ∨ s.Free → False := by
    rintro j q hne hq hin (hbusy | hfree)
    · exact hne (h.alone j i q pc hq hpc hin hbusy)
    · rw [hfree q (List.mem_of_getElem? hq)] at hin
      cases hin
  exact
    { accepted_nodup := haccepted.1
      accepted_lt := haccepted.2
      balanced := fun x => by
        have hbalanced := h.balanced x
        have hhand := count_flatMap_set Pc.hand hpc pc' x
        have hremoves := count_flatMap_set Pc.removes hpc pc' x
        have hlocal := hlocal x
        simp only [Bridge.removing, Bridge.inHand, hthreads] at hbalanced ⊢
        omega
      alone := fun j j' q q' hq hq' hin hin' => by
        rcases hget j q hq with ⟨rfl, rfl⟩ | ⟨hne, hq⟩ <;>
          rcases hget j' q' hq' with ⟨rfl, rfl⟩ | ⟨hne', hq'⟩
        · rfl
        · exact (hout j' q' hne' hq' hin' (henters hin)).elim
        · exact (hout j q hne hq hin (henters hin')).elim
        · exact h.alone j j' q q' hq hq' hin hin'
      current := fun j q points hq hsend => by
        rcases hget j q hq with ⟨rfl, rfl⟩ | ⟨hne, hq⟩
        · exact hsends points hsend
        · rcases hsame with heq | hwork
          · rw [heq]
            exact h.current j q points hq hsend
          · exact (hout j q hne hq (Pc.inBacklog_of_sends hsend) hwork).elim
      batch_sorted := hbatch.1
      batch_lt := hbatch.2
      backlog_sorted := hbacklog
      carried_sorted := fun j q hq => by
        rcases hget j q hq with ⟨rfl, rfl⟩ | ⟨-, hq⟩
        · exact hcarried
        · exact h.carried_sorted j q hq
      in_order := hflushes }

/-- A step that moves no point. -/
theorem move (h : Sound s) (hpc : s.threads[i]? = some pc) (pc' : Pc)
    (hremoves : pc.removes = []) (hhand : pc'.hand = pc.hand) (hremoves' : pc'.removes = [])
    (hin : pc'.inBacklog = false) (hcarried : pc'.carried.Pairwise (· < ·))
    (connected client isClosed : Bool) :
    Sound { s with
      connected := connected
      client := client
      isClosed := isClosed
      threads := s.threads.set i pc' } :=
  h.set hpc rfl ⟨h.accepted_nodup, h.accepted_lt⟩ (fun x => by rw [hremoves, hremoves', hhand])
    ⟨h.batch_sorted, h.batch_lt⟩ h.backlog_sorted hcarried h.in_order
    (fun hbusy => by rw [hin] at hbusy; cases hbusy)
    (fun points hsend => by rw [Pc.inBacklog_of_sends hsend] at hin; cases hin) (.inl rfl)

/-- The method that waits for this one goes on. -/
theorem resume (h : Sound s) (hpc : s.threads[i]? = some pc) {k : After} (ok : Bool)
    (hhand : pc.hand = k.points) (hcarried : pc.carried = k.points) (hremoves : pc.removes = [])
    (connected client isClosed : Bool) :
    Sound { s with
      connected := connected
      client := client
      isClosed := isClosed
      threads := s.threads.set i (k.resume ok) } := by
  obtain ⟨hhand', hremoves', hin, hcarried'⟩ := k.resume_eq ok
  refine h.move hpc _ hremoves (hhand'.trans hhand.symm) hremoves' hin ?_ _ _ _
  rw [hcarried', ← hcarried]
  exact h.carried_sorted i pc hpc

/-! ### The steps that move points -/

/-- A thread's write stores all its points, or none. -/
theorem stores (h : Sound s) (hpc : s.threads[i]? = some pc) (pc' : Pc) (stored : List Nat)
    (hmoves : ∀ x, pc'.hand.count x + stored.count x = pc.hand.count x + pc'.removes.count x)
    (hremoves : pc.removes = []) (hcarried : pc'.carried.Pairwise (· < ·))
    (hin : pc'.inBacklog = true → pc.inBacklog = true)
    (hsends : ∀ points, pc'.sends = some points → pc.sends = some points) :
    Sound { s with written := s.written ++ stored, threads := s.threads.set i pc' } := by
  refine h.set hpc rfl ⟨h.accepted_nodup, h.accepted_lt⟩ (fun x => ?_)
    ⟨h.batch_sorted, h.batch_lt⟩ h.backlog_sorted hcarried h.in_order
    (fun hbusy => .inl (hin hbusy)) (fun points hsend => h.current i pc points hpc (hsends _ hsend))
    (.inl rfl)
  have hmoves := hmoves x
  simp only [hremoves, List.count_append, List.count_nil]
  omega

/-- A thread takes the batch. -/
theorem take (h : Sound s) (hpc : s.threads[i]? = some pc) (pc' : Pc)
    (hhand : ∀ x, pc'.hand.count x = pc.hand.count x + s.batch.count x)
    (hremoves : pc.removes = []) (hremoves' : pc'.removes = []) (hin : pc'.inBacklog = false)
    (hcarried : pc'.carried = s.batch ∨ pc'.carried = []) :
    Sound { s with batch := [], threads := s.threads.set i pc' } := by
  refine h.set hpc rfl ⟨h.accepted_nodup, h.accepted_lt⟩ (fun x => ?_)
    ⟨.nil, fun _ hp => absurd hp List.not_mem_nil⟩ h.backlog_sorted ?_ h.in_order
    (fun hbusy => by rw [hin] at hbusy; cases hbusy)
    (fun points hsend => by rw [Pc.inBacklog_of_sends hsend] at hin; cases hin) (.inl rfl)
  · have hhand := hhand x
    simp only [hremoves, hremoves', List.count_nil]
    omega
  · rcases hcarried with heq | heq
    · rw [heq]
      exact h.batch_sorted
    · rw [heq]
      exact .nil

/-- A point arrives, and stays in the batch, in hand, or is dropped. -/
theorem arrive (h : Sound s) (hpc : s.threads[i]? = some pc) (pc' : Pc)
    {batch dropped : List Nat}
    (hplace : ∀ x, batch.count x + pc'.hand.count x + dropped.count x =
      s.batch.count x + pc.hand.count x + s.dropped.count x + [s.next].count x)
    (hbatch : batch = s.batch ∨ batch = s.batch ++ [s.next])
    (hremoves : pc.removes = []) (hremoves' : pc'.removes = []) (hin : pc'.inBacklog = false)
    (hcarried : pc'.carried = []) :
    Sound { s.accept with
      batch := batch
      dropped := dropped
      threads := s.threads.set i pc' } := by
  refine h.set hpc rfl ⟨?_, fun p hp => ?_⟩ (fun x => ?_) ?_ h.backlog_sorted
    (by rw [hcarried]; exact .nil) h.in_order
    (fun hbusy => by rw [hin] at hbusy; cases hbusy)
    (fun points hsend => by rw [Pc.inBacklog_of_sends hsend] at hin; cases hin) (.inl rfl)
  · refine List.nodup_append.mpr ⟨h.accepted_nodup, List.nodup_singleton _, fun p hp q hq => ?_⟩
    rw [List.mem_singleton.mp hq]
    exact Nat.ne_of_lt (h.accepted_lt p hp)
  · rcases List.mem_append.mp hp with hp | hp
    · exact Nat.lt_succ_of_lt (h.accepted_lt p hp)
    · rw [List.mem_singleton.mp hp]
      exact Nat.lt_succ_self _
  · have hplace := hplace x
    simp only [Bridge.accept, hremoves, hremoves', List.count_append, List.count_nil]
    omega
  · rcases hbatch with rfl | rfl
    · exact ⟨h.batch_sorted, fun p hp => Nat.lt_succ_of_lt (h.batch_lt p hp)⟩
    · refine ⟨List.pairwise_append.mpr ⟨h.batch_sorted, List.pairwise_singleton _ _, ?_⟩, ?_⟩
      · intro p hp q hq
        rw [List.mem_singleton.mp hq]
        exact h.batch_lt p hp
      · intro p hp
        rcases List.mem_append.mp hp with hp | hp
        · exact Nat.lt_succ_of_lt (h.batch_lt p hp)
        · rw [List.mem_singleton.mp hp]
          exact Nat.lt_succ_self _

/-- The points of a flush that was written leave the backlog. -/
theorem removed (h : Sound s) {k : After} {points : List Nat}
    (hpc : s.threads[i]? = some (.removing k points)) :
    Sound { s with backlog := [], threads := s.threads.set i (k.resume true) } := by
  obtain ⟨hhand, hremoves, hin, hcarried⟩ := k.resume_eq true
  have hbacklog := h.current i _ points hpc rfl
  refine h.set hpc rfl ⟨h.accepted_nodup, h.accepted_lt⟩ (fun x => ?_)
    ⟨h.batch_sorted, h.batch_lt⟩ .nil ?_ h.in_order
    (fun hbusy => by rw [hin] at hbusy; cases hbusy)
    (fun _ hsend => by rw [Pc.inBacklog_of_sends hsend] at hin; cases hin) (.inr (.inl rfl))
  · rw [hhand, hremoves, hbacklog]
    simp only [Pc.hand, Pc.removes, List.count_nil]
    omega
  · rw [hcarried]
    exact h.carried_sorted i _ hpc

/-- A flush begins. -/
theorem enter (h : Sound s) {k : After} (hpc : s.threads[i]? = some (.entering k))
    (hfree : s.Free) :
    Sound { s with
      flushes := s.flushes ++ [s.backlog]
      threads := s.threads.set i (.sending k s.backlog) } := by
  refine h.set hpc rfl ⟨h.accepted_nodup, h.accepted_lt⟩ (fun x => rfl)
    ⟨h.batch_sorted, h.batch_lt⟩ h.backlog_sorted (h.carried_sorted i (.entering k) hpc)
    (fun points hmem => ?_) (fun _ => .inr hfree) (fun points hsend => Option.some.inj hsend)
    (.inl rfl)
  rcases List.mem_append.mp hmem with hmem | hmem
  · exact h.in_order points hmem
  · rw [List.mem_singleton.mp hmem]
    exact h.backlog_sorted

/-- Points are added to the backlog. -/
theorem extend (h : Sound s) {points : List Nat} {next : Next}
    (hpc : s.threads[i]? = some (.appending points next)) (hfree : s.Free)
    (hyounger : ∀ q ∈ s.backlog, ∀ p ∈ points, q < p) :
    Sound { s with
      backlog := s.backlog ++ points
      threads := s.threads.set i (.measuring next) } := by
  refine h.set hpc rfl ⟨h.accepted_nodup, h.accepted_lt⟩ (fun x => ?_)
    ⟨h.batch_sorted, h.batch_lt⟩ ?_ .nil h.in_order (fun _ => .inr hfree)
    (fun _ hsend => by cases hsend) (.inr (.inr hfree))
  · simp only [Pc.hand, Pc.removes, List.count_append, List.count_nil]
    omega
  · exact List.pairwise_append.mpr ⟨h.backlog_sorted, h.carried_sorted i _ hpc, hyounger⟩

/-- The overflow is computed. -/
theorem measured (h : Sound s) {next : Next} (hpc : s.threads[i]? = some (.measuring next))
    {overflow : Nat} :
    Sound { s with threads := s.threads.set i (.trimming overflow next) } :=
  h.set hpc rfl ⟨h.accepted_nodup, h.accepted_lt⟩ (fun x => rfl) ⟨h.batch_sorted, h.batch_lt⟩
    h.backlog_sorted .nil h.in_order (fun _ => .inl rfl) (fun _ hsend => by cases hsend) (.inl rfl)

/-- The overflow is deleted. -/
theorem trim (h : Sound s) {overflow : Nat} {next : Next}
    (hpc : s.threads[i]? = some (.trimming overflow next)) :
    Sound { s with
      backlog := s.backlog.drop overflow
      dropped := s.dropped ++ s.backlog.take overflow
      threads := s.threads.set i next.resume } := by
  obtain ⟨hhand, hremoves, hin, hcarried⟩ := next.resume_eq
  refine h.set hpc rfl ⟨h.accepted_nodup, h.accepted_lt⟩ (fun x => ?_)
    ⟨h.batch_sorted, h.batch_lt⟩ (h.backlog_sorted.sublist (List.drop_sublist _ _)) hcarried
    h.in_order (fun hbusy => by rw [hin] at hbusy; cases hbusy)
    (fun _ hsend => by rw [Pc.inBacklog_of_sends hsend] at hin; cases hin) (.inr (.inl rfl))
  have hsplit : s.backlog.count x =
      (s.backlog.take overflow).count x + (s.backlog.drop overflow).count x := by
    rw [← List.count_append, List.take_append_drop]
  rw [hhand, hremoves]
  simp only [Pc.hand, Pc.removes, List.count_append, List.count_nil]
  omega

/-- Points are dropped because there is no persistent storage. -/
theorem discard (h : Sound s) {points : List Nat} {next : Next}
    (hpc : s.threads[i]? = some (.appending points next)) :
    Sound { s with
      dropped := s.dropped ++ points
      threads := s.threads.set i next.resume } := by
  obtain ⟨hhand, hremoves, hin, hcarried⟩ := next.resume_eq
  refine h.set hpc rfl ⟨h.accepted_nodup, h.accepted_lt⟩ (fun x => ?_)
    ⟨h.batch_sorted, h.batch_lt⟩ h.backlog_sorted hcarried
    h.in_order (fun hbusy => by rw [hin] at hbusy; cases hbusy)
    (fun _ hsend => by rw [Pc.inBacklog_of_sends hsend] at hin; cases hin) (.inl rfl)
  rw [hhand, hremoves]
  simp only [Pc.hand, Pc.removes, List.count_append, List.count_nil]
  omega

/-! ### Every access -/

/-- **An undisturbed access keeps the invariant.** -/
theorem act (h : Sound s) {a : Action} (hpc : s.threads[i]? = some pc)
    (hundisturbed : Undisturbed s pc a) (hact : s.act cfg i pc a = some s') : Sound s' := by
  cases pc with
  | idle =>
    cases a with
    | writeData =>
      obtain rfl := Option.some.inj hact
      exact h.move hpc (.checking .route) rfl rfl rfl rfl .nil _ _ _
    | triggerPeriodicReconnect =>
      obtain rfl := Option.some.inj hact
      exact h.move hpc (.checking .manual) rfl rfl rfl rfl .nil _ _ _
    | connect =>
      obtain rfl := Option.some.inj hact
      exact h.move hpc (.reconnecting .manual) rfl rfl rfl rfl .nil _ _ _
    | close =>
      simp only [Bridge.act] at hact
      split at hact
      · cases hact
      · obtain rfl := Option.some.inj hact
        exact h.move hpc .closing rfl rfl rfl rfl .nil _ _ _
    | _ => cases hact
  | checking k =>
    cases a with
    | returns connected =>
      obtain rfl := Option.some.inj hact
      exact h.resume hpc connected rfl rfl rfl _ _ _
    | reconnects =>
      obtain rfl := Option.some.inj hact
      exact h.move hpc (.reconnecting k) rfl rfl rfl rfl (h.carried_sorted i (.checking k) hpc) _ _ _
    | raises =>
      obtain rfl := Option.some.inj hact
      exact h.move hpc .idle rfl (Eq.symm hundisturbed) rfl rfl .nil _ _ _
    | _ => cases hact
  | reconnecting k =>
    cases a with
    | reached =>
      obtain rfl := Option.some.inj hact
      split
      · exact h.move hpc (.entering k) rfl rfl rfl rfl (h.carried_sorted i (.reconnecting k) hpc) _ _ _
      · exact h.resume hpc true rfl rfl rfl _ _ _
    | unreachable madeClient =>
      obtain rfl := Option.some.inj hact
      exact h.resume hpc false rfl rfl rfl _ _ _
    | raises =>
      obtain rfl := Option.some.inj hact
      exact h.move hpc .idle rfl (Eq.symm hundisturbed) rfl rfl .nil _ _ _
    | _ => cases hact
  | entering k =>
    cases a with
    | advance due =>
      simp only [Bridge.act] at hact
      split at hact
      · obtain rfl := Option.some.inj hact
        exact h.resume hpc true rfl rfl rfl _ _ _
      · obtain rfl := Option.some.inj hact
        exact h.enter hpc hundisturbed
    | _ => cases hact
  | sending k points =>
    cases a with
    | unconverted =>
      simp only [Bridge.act] at hact
      split at hact
      · obtain rfl := Option.some.inj hact
        exact h.resume hpc true rfl rfl rfl _ _ _
      · cases hact
    | write stored returned =>
      simp only [Bridge.act] at hact
      split at hact
      · obtain rfl := Option.some.inj hact
        obtain rfl : stored = if returned then points else [] := hundisturbed
        cases returned with
        | true =>
          exact h.stores hpc (.removing k points) _ (fun x => rfl) rfl (h.carried_sorted i (.sending k points) hpc)
            (fun _ => rfl) (fun _ hsend => hsend)
        | false =>
          simp only [Bool.false_eq_true, if_false, List.append_nil]
          exact h.resume hpc true rfl rfl rfl _ _ _
      · cases hact
    | advance due =>
      simp only [Bridge.act] at hact
      split at hact
      · cases hact
      · obtain rfl := Option.some.inj hact
        exact h.resume hpc true rfl rfl rfl _ _ _
    | _ => cases hact
  | removing k points =>
    cases a with
    | advance due =>
      obtain rfl := Option.some.inj hact
      exact h.removed hpc
    | _ => cases hact
  | accepting =>
    cases a with
    | advance due =>
      obtain rfl := Option.some.inj hact
      cases due with
      | true =>
        refine h.arrive hpc .flushing (fun x => ?_) (.inr rfl) rfl rfl rfl rfl
        simp only [Bridge.accept, Pc.hand, List.count_append, List.count_nil]
        omega
      | false =>
        refine h.arrive hpc .idle (fun x => ?_) (.inr rfl) rfl rfl rfl rfl
        simp only [Bridge.accept, Pc.hand, List.count_append, List.count_nil]
        omega
    | raises =>
      obtain rfl := Option.some.inj hact
      exact h.move hpc .idle rfl rfl rfl rfl .nil _ _ _
    | _ => cases hact
  | flushing =>
    cases a with
    | advance due =>
      simp only [Bridge.act] at hact
      split at hact
      · obtain rfl := Option.some.inj hact
        exact h.move hpc .idle rfl rfl rfl rfl .nil _ _ _
      · obtain rfl := Option.some.inj hact
        refine h.take hpc (.checking (.write s.batch)) (fun x => ?_) rfl rfl rfl (.inl rfl)
        simp only [Pc.hand, After.points, List.count_nil, Nat.zero_add]
    | _ => cases hact
  | writing points =>
    cases a with
    | unconverted => exact hundisturbed.elim
    | advance due => exact hundisturbed.elim
    | write stored returned =>
      simp only [Bridge.act] at hact
      split at hact
      · obtain rfl := Option.some.inj hact
        obtain rfl : stored = if returned then points else [] := hundisturbed
        cases returned with
        | true =>
          exact h.stores hpc .idle _ (fun x => Nat.zero_add _) rfl .nil (fun hin => hin)
            (fun _ hsend => hsend)
        | false =>
          exact h.stores hpc (.reconnecting (.rewrite points)) _ (fun x => rfl) rfl (h.carried_sorted i (.writing points) hpc)
            (fun hin => hin) (fun _ hsend => hsend)
      · cases hact
    | _ => cases hact
  | rewriting points =>
    cases a with
    | advance due => exact hundisturbed.elim
    | write stored returned =>
      simp only [Bridge.act] at hact
      split at hact
      · obtain rfl := Option.some.inj hact
        obtain rfl : stored = if returned then points else [] := hundisturbed
        cases returned with
        | true =>
          exact h.stores hpc .idle _ (fun x => Nat.zero_add _) rfl .nil (fun hin => hin)
            (fun _ hsend => hsend)
        | false =>
          exact h.stores hpc (.appending points .disconnect) _ (fun x => by simp [Pc.hand, Pc.removes, Next.points]) rfl
            (h.carried_sorted i (.rewriting points) hpc) (fun hin => hin) (fun _ hsend => hsend)
      · cases hact
    | _ => cases hact
  | offline =>
    cases a with
    | advance due =>
      simp only [Bridge.act] at hact
      split at hact
      · obtain rfl := Option.some.inj hact
        refine h.arrive hpc (.draining s.next) (fun x => ?_) (.inl rfl) rfl rfl rfl rfl
        simp only [Bridge.accept, Pc.hand, List.count_nil]
        omega
      · obtain rfl := Option.some.inj hact
        refine h.arrive hpc .idle (fun x => ?_) (.inl rfl) rfl rfl rfl rfl
        simp only [Bridge.accept, Pc.hand, List.count_append, List.count_nil]
        omega
    | raises =>
      obtain rfl := Option.some.inj hact
      exact h.move hpc .idle rfl rfl rfl rfl .nil _ _ _
    | _ => cases hact
  | draining point =>
    cases a with
    | advance due =>
      obtain rfl := Option.some.inj hact
      refine h.take hpc (.appending s.batch (.store point)) (fun x => ?_) rfl rfl rfl (.inl rfl)
      simp only [Pc.hand, Next.points, List.count_append]
      omega
    | _ => cases hact
  | appending points next =>
    cases a with
    | advance due =>
      obtain ⟨hhand, hremoves, hin, hcarried⟩ := next.resume_eq
      simp only [Bridge.act] at hact
      split at hact
      · next hempty =>
        obtain rfl := Option.some.inj hact
        obtain rfl := List.isEmpty_iff.mp hempty
        exact h.move hpc next.resume rfl hhand hremoves hin hcarried _ _ _
      · next hsome =>
        split at hact
        · obtain rfl := Option.some.inj hact
          exact h.discard hpc
        · obtain rfl := Option.some.inj hact
          obtain ⟨hfree, hyounger⟩ := hundisturbed fun hnil => hsome (List.isEmpty_iff.mpr hnil)
          exact h.extend hpc hfree hyounger
    | _ => cases hact
  | measuring next =>
    cases a with
    | advance due =>
      obtain rfl := Option.some.inj hact
      exact h.measured hpc
    | _ => cases hact
  | trimming overflow next =>
    cases a with
    | advance due =>
      obtain rfl := Option.some.inj hact
      exact h.trim hpc
    | _ => cases hact
  | disconnecting =>
    cases a with
    | advance due =>
      obtain rfl := Option.some.inj hact
      exact h.move hpc .idle rfl rfl rfl rfl .nil _ _ _
    | _ => cases hact
  | closing =>
    cases a with
    | advance due =>
      obtain rfl := Option.some.inj hact
      split
      · next hempty =>
        refine h.take hpc .closed (fun x => ?_) rfl rfl rfl (.inr rfl)
        rw [List.isEmpty_iff.mp hempty]
        rfl
      · refine h.take hpc (.closeWriting s.batch) (fun x => ?_) rfl rfl rfl (.inl rfl)
        simp only [Pc.hand, List.count_nil, Nat.zero_add]
    | _ => cases hact
  | closeWriting points =>
    have hsorted := h.carried_sorted i (.closeWriting points) hpc
    have hnone : (Pc.appending points .close).hand = (Pc.closeWriting points).hand :=
      List.append_nil points
    cases a with
    | unconverted =>
      simp only [Bridge.act] at hact
      split at hact
      · obtain rfl := Option.some.inj hact
        exact h.move hpc (.appending points .close) rfl hnone rfl rfl hsorted _ _ _
      · cases hact
    | write stored returned =>
      simp only [Bridge.act] at hact
      split at hact
      · obtain rfl := Option.some.inj hact
        obtain rfl : stored = if returned then points else [] := hundisturbed
        cases returned with
        | true =>
          exact h.stores hpc .closed _ (fun x => Nat.zero_add _) rfl .nil (fun hin => hin)
            (fun _ hsend => hsend)
        | false =>
          exact h.stores hpc (.appending points .close) _ (fun x => by rw [hnone]; rfl) rfl hsorted
            (fun hin => hin) (fun _ hsend => hsend)
      · cases hact
    | advance due =>
      simp only [Bridge.act] at hact
      split at hact
      · cases hact
      · obtain rfl := Option.some.inj hact
        exact h.move hpc (.appending points .close) rfl hnone rfl rfl hsorted _ _ _
    | _ => cases hact
  | closed =>
    cases a with
    | advance due =>
      obtain rfl := Option.some.inj hact
      exact h.move hpc .idle rfl rfl rfl rfl .nil _ _ _
    | _ => cases hact

/-- A bridge starts with it. -/
theorem start (h : s.Starting cfg) : Sound s := by
  obtain ⟨now, file, hsorted, hlt, haccepted, hbacklog, hdropped⟩ := h.loaded
  have hquiet : ∀ {α : Type} (f : Pc → List α), f .idle = [] → s.threads.flatMap f = [] :=
    fun f hf => List.flatMap_eq_nil_iff.mpr fun pc hpc => by rw [h.idle pc hpc, hf]
  have hidle : ∀ {j : Nat} {pc : Pc}, s.threads[j]? = some pc → pc = .idle :=
    fun hpc => h.idle _ (List.mem_of_getElem? hpc)
  have hsplit : (s.backlog ++ s.dropped).Perm s.accepted := by
    rw [hbacklog, hdropped, haccepted, loadBacklog, ← List.map_append]
    refine List.Perm.map _ ?_
    simp only [decide_not]
    exact List.filter_append_perm _ file
  exact
    { accepted_nodup := by
        rw [haccepted]
        exact hsorted.imp Nat.ne_of_lt
      accepted_lt := fun p hp => by
        rw [haccepted] at hp
        obtain ⟨q, hq, rfl⟩ := List.mem_map.mp hp
        exact hlt q hq
      balanced := fun x => by
        have hcount := hsplit.count_eq x
        rw [List.count_append] at hcount
        rw [Bridge.removing, Bridge.inHand, hquiet _ rfl, hquiet _ rfl, h.batch, h.written]
        simp only [List.count_nil]
        omega
      alone := fun j j' pc pc' hpc _ hin _ => by
        obtain rfl := hidle hpc
        cases hin
      current := fun j pc points hpc hsend => by
        obtain rfl := hidle hpc
        cases hsend
      batch_sorted := by
        rw [h.batch]
        exact .nil
      batch_lt := fun p hp => by
        rw [h.batch] at hp
        cases hp
      backlog_sorted := by
        rw [hbacklog, loadBacklog]
        exact hsorted.sublist (List.filter_sublist.map Prod.fst)
      carried_sorted := fun j pc hpc => by
        obtain rfl := hidle hpc
        exact .nil
      in_order := fun points hmem => by
        rw [h.flushes] at hmem
        cases hmem }

/-- The points a flush is about to remove are none, or those of the backlog. -/
theorem removing_count (h : Sound s) :
    s.removing = [] ∨ ∀ x, s.removing.count x = s.backlog.count x := by
  by_cases hquiet : ∀ pc ∈ s.threads, pc.removes = []
  · exact .inl (List.flatMap_eq_nil_iff.mpr hquiet)
  obtain ⟨pc, hpc⟩ := not_forall.mp hquiet
  obtain ⟨hmem, hsome⟩ := Classical.not_imp.mp hpc
  obtain ⟨i, hi⟩ := List.mem_iff_getElem?.mp hmem
  have hsends : pc.sends = some pc.removes := by
    cases pc with
    | removing => rfl
    | _ => exact absurd rfl hsome
  have hbusy := Pc.inBacklog_of_sends hsends
  -- with this thread's points set aside, nobody removes any
  have hothers : (s.threads.set i .idle).flatMap Pc.removes = [] := by
    refine List.flatMap_eq_nil_iff.mpr fun q hq => ?_
    obtain ⟨j, hj⟩ := List.mem_iff_getElem?.mp hq
    rw [List.getElem?_set] at hj
    split at hj
    · split at hj
      · obtain rfl := Option.some.inj hj
        rfl
      · cases hj
    · next hne =>
      cases q with
      | removing k points => exact absurd (h.alone i j pc _ hi hj hbusy rfl) hne
      | _ => rfl
  refine .inr fun x => ?_
  have hset := count_flatMap_set Pc.removes hi .idle x
  rw [hothers, ← h.current i pc _ hi hsends] at hset
  simp only [Pc.removes, List.count_nil, Nat.zero_add, Nat.add_zero] at hset
  exact hset.symm

/-- The points that stay when a flush removes its own. -/
theorem count_kept (h : Sound s) (x : Nat) :
    (s.backlog.filter (· ∉ s.removing)).count x + s.removing.count x = s.backlog.count x := by
  rcases h.removing_count with hnone | hall
  · rw [hnone, List.filter_eq_self.mpr fun p _ => decide_eq_true List.not_mem_nil]
    rfl
  · have hkept : s.backlog.filter (· ∉ s.removing) = [] := by
      refine List.filter_eq_nil_iff.mpr fun p hp hkept => of_decide_eq_true hkept ?_
      rw [← List.count_pos_iff, hall p]
      exact List.count_pos_iff.mpr hp
    rw [hkept, hall x, List.count_nil, Nat.zero_add]

theorem conserved (h : Sound s) : Conserved s where
  accepted_nodup := h.accepted_nodup
  conserved := by
    refine List.perm_iff_count.mpr fun x => ?_
    have hbalanced := h.balanced x
    have hkept := h.count_kept x
    simp only [List.count_append]
    omega
  in_order := h.in_order

end Sound

/-! ## Runs -/

/-- **Every point is in one place, whatever the threads do and in whatever order**, where every
step is undisturbed, and a flush of the backlog sends its points in the order they arrived. -/
theorem conserved_of_reach {cfg : Settings} {s : Bridge}
    (h : Reach (system cfg) Orderly s) : Conserved s := by
  refine (h.invariant (P := Sound) (fun s hstart => Sound.start hstart) ?_).conserved
  intro s e s' _ hsound horderly hstep
  simp only [system, Bridge.step] at hstep
  split at hstep
  · next pc hpc => exact hsound.act hpc (horderly pc hpc) hstep
  · cases hstep

/-- A bridge that starts with one point in its file. -/
def restarted (threads : List Pc) : Bridge where
  connected := false
  client := false
  isClosed := false
  batch := []
  backlog := [0]
  threads := threads
  next := 1
  accepted := [0]
  written := []
  dropped := []
  flushes := []

def storing : Settings where
  version := .v1
  enablePersistentStorage := true
  maxBacklogSize := 100
  maxBacklogAge := 86400

theorem restarted_starting {threads : List Pc} (hidle : ∀ pc ∈ threads, pc = .idle) :
    (restarted threads).Starting storing where
  loaded := ⟨5, [(0, 0)], List.pairwise_singleton _ _,
    fun p hp => by obtain rfl := List.mem_singleton.mp hp; exact Nat.zero_lt_one, rfl, rfl, rfl⟩
  batch := rfl
  idle := hidle
  written := rfl
  flushes := rfl

/-- A point arrives while there is no connection; then both points are sent. -/
theorem conserved_recovered : ∃ s : Bridge, s.written = [0, 1] ∧ s.backlog = [] ∧ Conserved s := by
  have h0 : Reach (system storing) Orderly (restarted [.idle]) :=
    .init (restarted_starting (by simp))
  have h1 := h0.step (i := (0, Action.writeData)) (fun pc hpc => by cases hpc; trivial) rfl
  have h2 := h1.step (i := (0, Action.returns false)) (fun pc hpc => by cases hpc; trivial) rfl
  have h3 := h2.step (i := (0, Action.advance false)) (fun pc hpc => by cases hpc; trivial) rfl
  have h4 := h3.step (i := (0, Action.advance false)) (fun pc hpc => by cases hpc; trivial) rfl
  have h5 := h4.step (i := (0, Action.advance false))
    (fun pc hpc => by cases hpc; exact fun h => absurd rfl h) rfl
  have h6 := h5.step (i := (0, Action.advance false))
    (fun pc hpc => by
      cases hpc
      exact fun _ => ⟨fun q hq => by obtain rfl := List.mem_singleton.mp hq; rfl, by decide⟩) rfl
  have h7 := h6.step (i := (0, Action.advance false)) (fun pc hpc => by cases hpc; trivial) rfl
  have h8 := h7.step (i := (0, Action.advance false)) (fun pc hpc => by cases hpc; trivial) rfl
  have h9 := h8.step (i := (0, Action.triggerPeriodicReconnect))
    (fun pc hpc => by cases hpc; trivial) rfl
  have h10 := h9.step (i := (0, Action.reconnects)) (fun pc hpc => by cases hpc; trivial) rfl
  have h11 := h10.step (i := (0, Action.reached)) (fun pc hpc => by cases hpc; trivial) rfl
  have h12 := h11.step (i := (0, Action.advance false))
    (fun pc hpc => by
      cases hpc
      exact fun q hq => by obtain rfl := List.mem_singleton.mp hq; rfl) rfl
  have h13 := h12.step (i := (0, Action.write [0, 1] true)) (fun pc hpc => by cases hpc; rfl) rfl
  have h14 := h13.step (i := (0, Action.advance false)) (fun pc hpc => by cases hpc; trivial) rfl
  exact ⟨_, rfl, rfl, conserved_of_reach h14⟩

/-- **A point that another thread adds to the backlog while a flush is being written is lost.** -/
theorem not_conserved_concurrent :
    ¬∀ (cfg : Settings) (s : Bridge), Reachable (system cfg) s → Conserved s := by
  intro hall
  have h0 : Reachable (system storing) (restarted [.idle, .idle]) :=
    .init (restarted_starting (by simp))
  have h1 := h0.step (i := (1, Action.writeData)) trivial rfl
  have h2 := h1.step (i := (1, Action.returns false)) trivial rfl
  have h3 := h2.step (i := (1, Action.advance false)) trivial rfl
  have h4 := h3.step (i := (1, Action.advance false)) trivial rfl
  have h5 := h4.step (i := (1, Action.advance false)) trivial rfl
  have h6 := h5.step (i := (0, Action.triggerPeriodicReconnect)) trivial rfl
  have h7 := h6.step (i := (0, Action.reconnects)) trivial rfl
  have h8 := h7.step (i := (0, Action.reached)) trivial rfl
  have h9 := h8.step (i := (0, Action.advance false)) trivial rfl
  have h10 := h9.step (i := (0, Action.write [0] true)) trivial rfl
  have h11 := h10.step (i := (1, Action.advance false)) trivial rfl
  have h12 := h11.step (i := (0, Action.advance false)) trivial rfl
  exact absurd (((hall storing _ h12).conserved.mem_iff (a := 1)).mp (by decide)) (by decide)

end InfluxOut

end ProtocolGateway
