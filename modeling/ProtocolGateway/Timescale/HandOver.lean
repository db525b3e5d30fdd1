import ProtocolGateway.Timescale.BacklogRuns

/-!
# Points on their way

A replayed point is in three places: it stays in the backlog, marked as in flight, while its copy
waits in the flush queue or is in the worker's hand. `Handled` says that these agree: a point on
its way is in the backlog or was evicted from it, and the one in hand is not queued a second time,
because it is still marked. Each operation of the backlog keeps that.
-/

namespace ProtocolGateway

namespace Backlog

variable (cfg : BacklogSettings)

/-- The backlog, with the rowid of the point in the worker's hand. -/
structure Handled (t : Trace) (hand : Option Nat) : Prop where
  consistent : Consistent cfg t
  /-- a replayed point on its way is in the backlog, or was evicted from it -/
  kept : ∀ r, r ∈ t.backlog.queued ∨ hand = some r → r ∈ t.backlog.backlogRowids ∨ r ∈ t.evicted
  /-- the point in hand is not queued a second time … -/
  not_queued : ∀ r, hand = some r → r ∉ t.backlog.queued
  /-- … because it is still marked -/
  marked : ∀ r, hand = some r → r ∈ t.backlog.backlogRowids → r ∈ t.backlog.inflight

/-- An acknowledged point is not in the backlog. -/
theorem not_mem_ack {s : Backlog} (h : Tidy s) (rowid : Nat) :
    rowid ∉ (s.ack rowid).1.backlogRowids := by
  unfold Backlog.ack
  dsimp only
  split
  · rw [← List.erase_eq_eraseIdx_of_idxOf rfl]
    exact h.nodup.not_mem_erase
  · assumption

/-- It is not marked as in flight, and no other point's mark changes. -/
theorem inflight_ack (s : Backlog) (rowid : Nat) :
    (s.ack rowid).1.inflight = s.inflight.filter (· ≠ rowid) := by
  unfold Backlog.ack
  dsimp only
  split <;> rfl

/-- The other points stay. -/
theorem mem_ack_of_ne {s : Backlog} {r rowid : Nat} (hmem : r ∈ s.backlogRowids) (hne : r ≠ rowid) :
    r ∈ (s.ack rowid).1.backlogRowids := by
  unfold Backlog.ack
  dsimp only
  split
  · rw [← List.erase_eq_eraseIdx_of_idxOf rfl]
    exact (List.mem_erase_of_ne hne).mpr hmem
  · exact hmem

/-- An acknowledgement brings no point into memory. -/
theorem ack_sublist (s : Backlog) (rowid : Nat) :
    (s.ack rowid).1.backlogRowids.Sublist s.backlogRowids := by
  unfold Backlog.ack
  dsimp only
  split
  · exact List.eraseIdx_sublist _ _
  · exact List.Sublist.refl _

@[simp] theorem flushQueue_ack (s : Backlog) (rowid : Nat) :
    (s.ack rowid).1.flushQueue = s.flushQueue := by
  unfold Backlog.ack
  dsimp only
  split <;> rfl

@[simp] theorem queued_ack (s : Backlog) (rowid : Nat) : (s.ack rowid).1.queued = s.queued := by
  rw [queued, queued, flushQueue_ack]

/-- Committing acknowledgements leaves the queue and the points in memory as they are. -/
theorem commitAcks_fields (s : Backlog) (deleteFails : Bool) :
    (s.commitAcks deleteFails).flushQueue = s.flushQueue ∧
      (s.commitAcks deleteFails).backlogRowids = s.backlogRowids ∧
        (s.commitAcks deleteFails).inflight = s.inflight := by
  unfold Backlog.commitAcks
  split
  · exact ⟨rfl, rfl, rfl⟩
  · split <;> exact ⟨rfl, rfl, rfl⟩

/-- The first item of the queue, and the rest. -/
theorem queued_eq {s : Backlog} {dataIn : Option QueueItem} {rest : List (Option QueueItem)}
    (hqueue : s.flushQueue = dataIn :: rest) :
    s.queued = (dataIn.bind (·.backlogRowid)).toList ++ s.take.queued := by
  rw [queued, queued, take, hqueue, List.tail_cons, List.filterMap_cons]
  cases dataIn.bind (·.backlogRowid) <;> rfl

namespace Handled

variable {cfg : BacklogSettings} {t : Trace} {hand : Option Nat}

theorem start (h : Consistent cfg t) (hqueue : t.backlog.flushQueue = []) : Handled cfg t none where
  consistent := h
  kept := fun r hr => by simp [queued, hqueue] at hr
  not_queued := fun _ hr => by cases hr
  marked := fun _ hr => by cases hr

/-- The point in hand has a rowid that was given out. -/
theorem hand_lt (h : Handled cfg t hand) {r : Nat} (hr : hand = some r) :
    r < t.backlog.table.next := by
  rw [h.consistent.next_eq]
  rcases h.kept r (.inr hr) with hmem | hmem
  · exact h.consistent.rowids_lt hmem
  · exact h.consistent.dead_lt r (by simp [Trace.dead, hmem])

/-- A point was handed to the backlog, which may have evicted another one for it. -/
theorem keep (h : Handled cfg t hand) {t' : Trace} (hconsistent : Consistent cfg t')
    (hkept : Consistent.Kept t.backlog t'.backlog)
    (hevicted : t'.evicted = t.evicted ++ t.backlog.table.removed t'.backlog.table) :
    Handled cfg t' hand := by
  have hqueued : t'.backlog.queued = t.backlog.queued := by rw [queued, queued, hkept.queue]
  exact
    { consistent := hconsistent
      kept := fun r hr => by
        rw [hqueued] at hr
        rw [hevicted, List.mem_append]
        rcases h.kept r hr with hmem | hmem
        · exact (hkept.stays r hmem).imp_right .inr
        · exact .inr (.inl hmem)
      not_queued := fun r hr => by
        rw [hqueued]
        exact h.not_queued r hr
      marked := fun r hr hmem => by
        rcases hkept.fresh r hmem with hold | hnew
        · exact hkept.marked r (h.marked r hr hold) hmem
        · have hlt := h.hand_lt hr
          rw [hnew] at hlt
          exact absurd hlt (Nat.lt_irrefl _) }

theorem put (h : Handled cfg t hand) (p : Option FlushPayload) :
    Handled cfg (t.step cfg (.put p)) hand where
  consistent := h.consistent.put p
  kept := fun r hr => h.kept r (hr.imp_left fun hq => by simpa [Trace.step] using hq)
  not_queued := fun r hr hq => h.not_queued r hr (by simpa [Trace.step] using hq)
  marked := h.marked

theorem replay (h : Handled cfg t hand) : Handled cfg (t.step cfg .replayToQueue) hand := by
  have heq := replayToQueue_eq h.consistent.rowids_nodup h.consistent.length_eq
  have hqueued := h.consistent.queued_replayToQueue
  have hrowids : t.backlog.replayToQueue.1.backlogRowids = t.backlog.backlogRowids := by rw [heq]
  exact
    { consistent := h.consistent.replayToQueue
      kept := fun r hr => by
        simp only [Trace.step, hqueued, List.mem_append, h.consistent.mem_fresh] at hr
        simp only [Trace.step, hrowids]
        rcases hr with (hr | hr) | hr
        · exact h.kept r (.inl hr)
        · exact .inl hr.1
        · exact h.kept r (.inr hr)
      not_queued := fun r hr hq => by
        simp only [Trace.step, hqueued, List.mem_append, h.consistent.mem_fresh] at hq
        rcases hq with hq | ⟨hmem, hin⟩
        · exact h.not_queued r hr hq
        · exact hin (h.marked r hr hmem)
      marked := fun r hr hmem => by
        simp only [Trace.step, hrowids] at hmem
        simp only [Trace.step, heq]
        exact List.mem_append_left _ (h.marked r hr hmem) }

theorem commitAcks (h : Handled cfg t hand) (deleteFails : Bool) :
    Handled cfg (t.step cfg (.commitAcks deleteFails)) hand := by
  obtain ⟨hqueue, hrowids, hinflight⟩ := commitAcks_fields t.backlog deleteFails
  have hqueued : (t.backlog.commitAcks deleteFails).queued = t.backlog.queued := by
    rw [queued, queued, hqueue]
  exact
    { consistent := h.consistent.commitAcks deleteFails
      kept := by
        simp only [Trace.step, hqueued, hrowids]
        exact h.kept
      not_queued := by
        simp only [Trace.step, hqueued]
        exact h.not_queued
      marked := by
        simp only [Trace.step, hrowids, hinflight]
        exact h.marked }

/-- The worker takes the first item off the queue. -/
theorem take (h : Handled cfg t none) {dataIn : Option QueueItem} {rest : List (Option QueueItem)}
    (hqueue : t.backlog.flushQueue = dataIn :: rest) :
    Handled cfg (t.step cfg .take) (dataIn.bind (·.backlogRowid)) := by
  have hqueued := queued_eq hqueue
  have hnodup := h.consistent.queue_nodup
  rw [hqueued] at hnodup
  have hhead : ∀ r, dataIn.bind (·.backlogRowid) = some r → r ∈ t.backlog.queued :=
    fun r hr => by simp [hqueued, hr]
  exact
    { consistent := h.consistent.take
      kept := fun r hr => by
        refine h.kept r (.inl ?_)
        rcases hr with hr | hr
        · exact (queued_take_sublist _).subset hr
        · exact hhead r hr
      not_queued := fun r hr hq => by
        rw [hr] at hnodup
        exact List.disjoint_of_nodup_append hnodup (by simp) hq
      marked := fun r hr hmem => h.consistent.queued_inflight r hmem (hhead r hr) }

/-- Another thread takes the first item off the queue. -/
theorem drop (h : Handled cfg t hand) : Handled cfg (t.step cfg .take) hand where
  consistent := h.consistent.take
  kept := fun r hr => h.kept r (hr.imp_left fun hq => (queued_take_sublist _).subset hq)
  not_queued := fun r hr hq => h.not_queued r hr ((queued_take_sublist _).subset hq)
  marked := h.marked

/-- The worker's hand is empty again. -/
theorem clear (h : Handled cfg t hand) : Handled cfg t none where
  consistent := h.consistent
  kept := fun r hr => h.kept r (.inl (hr.resolve_right (by simp)))
  not_queued := fun _ hr => by cases hr
  marked := fun _ hr => by cases hr

/-- The point in hand is released. -/
theorem release (h : Handled cfg t hand) {rowid : Nat} (hhand : hand = some rowid) :
    Handled cfg (t.step cfg (.release rowid)) none where
  consistent := h.consistent.release fun _ => h.not_queued rowid hhand
  kept := h.clear.kept
  not_queued := fun _ hr => by cases hr
  marked := fun _ hr => by cases hr

/-- The point in hand is acknowledged. -/
theorem ack (h : Handled cfg t hand) {rowid : Nat} (hhand : hand = some rowid) :
    Handled cfg (t.step cfg (.ack rowid)) none where
  consistent := h.consistent.ack rowid
  kept := fun r hr => by
    have hr : r ∈ t.backlog.queued := by
      rcases hr with hr | hr
      · exact queued_ack t.backlog rowid ▸ hr
      · cases hr
    have hne : r ≠ rowid := fun heq => h.not_queued rowid hhand (heq ▸ hr)
    exact (h.kept r (.inl hr)).imp_left fun hmem => mem_ack_of_ne hmem hne
  not_queued := fun _ hr => by cases hr
  marked := fun _ hr => by cases hr

end Handled

end Backlog

end ProtocolGateway
